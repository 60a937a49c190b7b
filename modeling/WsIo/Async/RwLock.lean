import Mathlib.Algebra.GroupWithZero.Nat
import Mathlib.Data.Finset.Basic
import Mathlib.Logic.Function.Basic
import WsIo.Async.System

/-!
# Threads that take reader-writer locks

A `LockProgram` says what each point of a thread does next: compute on the shared memory,
take or release a lock, or stop. A writer first claims its lock, which keeps new readers
out, and enters when the readers before it have left; so a second read lock taken by a
thread that has the first can wait for ever, and nothing here assumes otherwise. Which of
the threads that can go on does is the scheduler's choice.

* `LockProgram.Disciplined`: the locks a thread holds follow from the point it is at.
* `LockProgram.kept_of_reachable`: the tables of the locks agree with the threads; a thread
  that has entered as a writer is alone (`Kept.alone`, `Kept.writer_unique`).
* `LockProgram.exists_step`: if every thread takes its locks in one order, then some thread
  can go on until all have stopped.
* `LockProgram.advances_le`: with a bound on the work of a thread, no schedule goes on for
  ever.
-/

namespace WsIo.Async

/-- The table of a lock, by the numbers of the threads. -/
structure RwLock where
  readers : Finset Nat
  writer : Option Nat

/-- What a thread does next. -/
inductive Demand (ℓ : Type*)
  | stop
  | compute
  | read (l : ℓ)
  | write (l : ℓ)
  | endRead (l : ℓ)
  | endWrite (l : ℓ)

/-- How a thread has a lock. -/
inductive Hold
  | free
  | read
  | write
  deriving DecidableEq

/-- A program over locks `ℓ` and a memory `σ`: its points `π`, the point where a call starts,
the point after a step on a lock, and the steps on the memory. -/
structure LockProgram (ℓ σ π β : Type*) where
  enter : β → π
  demand : π → Demand ℓ
  after : π → π
  compute : Nat → σ → π → σ × π

/-- A thread, with whether it has claimed the lock that it is about to enter. -/
structure Thread (π : Type*) where
  pc : π
  claims : Bool

structure LockState (ℓ σ π : Type*) where
  locks : ℓ → RwLock
  mem : σ
  threads : List (Thread π)

inductive LockAction (β : Type*)
  | call (b : β)
  | advance (t : Nat)

variable {ℓ σ π β : Type*}

/-! ## The tables of the locks -/

namespace LockProgram

variable {P : LockProgram ℓ σ π β} {s s' : LockState ℓ σ π} {holds : π → ℓ → Hold}

/-- The thread has lock `l` as a writer or has claimed it. -/
def Owns (P : LockProgram ℓ σ π β) (holds : π → ℓ → Hold) (th : Thread π) (l : ℓ) : Prop :=
  holds th.pc l = .write ∨ th.claims = true ∧ P.demand th.pc = .write l

theorem owns_pc {p : π} {l : ℓ} : Owns P holds ⟨p, false⟩ l ↔ holds p l = .write := by
  simp [Owns]

theorem owns_of_demand {th : Thread π} (h : ∀ l, P.demand th.pc ≠ .write l) {l : ℓ} :
    Owns P holds th l ↔ holds th.pc l = .write := by
  simp [Owns, h]

/-- The tables of the locks agree with the threads. -/
structure Kept (P : LockProgram ℓ σ π β) (holds : π → ℓ → Hold) (s : LockState ℓ σ π) :
    Prop where
  reads : ∀ (t : Nat) l, t ∈ (s.locks l).readers ↔
    ∃ th : Thread π, s.threads[t]? = some th ∧ holds th.pc l = .read
  writes : ∀ (t : Nat) l, (s.locks l).writer = some t ↔
    ∃ th : Thread π, s.threads[t]? = some th ∧ Owns P holds th l
  alone : ∀ (t : Nat) l (th : Thread π), s.threads[t]? = some th → holds th.pc l = .write →
    (s.locks l).readers = ∅

theorem exists_set {threads : List (Thread π)} {t u : Nat} {th th' : Thread π}
    {Q : Thread π → Prop} (ht : threads[t]? = some th) :
    (∃ x, (threads.set t th')[u]? = some x ∧ Q x) ↔
      if u = t then Q th' else ∃ x, threads[u]? = some x ∧ Q x := by
  by_cases hu : u = t
  · subst hu
    have hlt := (List.getElem?_eq_some_iff.mp ht).1
    simp [List.getElem?_set_self hlt]
  · simp only [List.getElem?_set_ne (Ne.symm hu), if_neg hu]

/-- A step of one thread keeps the tables right if it enters its own changes and no others. -/
theorem Kept.set (hk : Kept P holds s) {t : Nat} {th th' : Thread π}
    (ht : s.threads[t]? = some th) (hthreads : s'.threads = s.threads.set t th')
    (hread : ∀ l, t ∈ (s'.locks l).readers ↔ holds th'.pc l = .read)
    (hreads : ∀ l, ∀ u ≠ t, u ∈ (s'.locks l).readers ↔ u ∈ (s.locks l).readers)
    (hwrite : ∀ l, (s'.locks l).writer = some t ↔ Owns P holds th' l)
    (hwrites : ∀ l, ∀ u ≠ t, (s'.locks l).writer = some u ↔ (s.locks l).writer = some u)
    (hin : ∀ l, holds th'.pc l = .read → holds th.pc l = .read ∨ (s.locks l).writer = none)
    (halone : ∀ l, holds th'.pc l = .write → (s.locks l).readers = ∅) : Kept P holds s' where
  reads u l := by
    rw [hthreads, exists_set ht]
    by_cases hu : u = t
    · rw [if_pos hu, hu, hread]
    · rw [if_neg hu, hreads l u hu, hk.reads]
  writes u l := by
    rw [hthreads, exists_set ht]
    by_cases hu : u = t
    · rw [if_pos hu, hu, hwrite]
    · rw [if_neg hu, hwrites l u hu, hk.writes]
  alone u l x hx hw := by
    have hx' := (exists_set (Q := fun y => y = x) (u := u) ht).mp ⟨x, hthreads ▸ hx, rfl⟩
    -- no reader was there before the step, and `t` does not become one
    have hempty : (s.locks l).readers = ∅ := by
      split at hx'
      · exact halone l (hx' ▸ hw)
      · obtain ⟨y, hy, rfl⟩ := hx'
        exact hk.alone u l y hy hw
    apply Finset.eq_empty_of_forall_notMem
    intro v hv
    by_cases hvt : v = t
    · rw [hvt, hread] at hv
      split at hx'
      · rw [hx', hw] at hv
        cases hv
      · obtain ⟨y, hy, rfl⟩ := hx'
        rcases hin l hv with hr | hn
        · have hmem := (hk.reads t l).mpr ⟨th, ht, hr⟩
          rw [hempty] at hmem
          exact Finset.notMem_empty t hmem
        · have hsome := (hk.writes u l).mpr ⟨y, hy, .inl hw⟩
          rw [hn] at hsome
          cases hsome
    · rw [hreads l v hvt, hempty] at hv
      exact Finset.notMem_empty v hv

theorem Kept.reader (hk : Kept P holds s) {t : Nat} {th : Thread π}
    (ht : s.threads[t]? = some th) {l : ℓ} : t ∈ (s.locks l).readers ↔ holds th.pc l = .read := by
  rw [hk.reads]
  constructor
  · rintro ⟨x, hx, hr⟩
    rw [ht] at hx
    cases hx
    exact hr
  · intro hr
    exact ⟨th, ht, hr⟩

theorem Kept.owner (hk : Kept P holds s) {t : Nat} {th : Thread π}
    (ht : s.threads[t]? = some th) {l : ℓ} :
    (s.locks l).writer = some t ↔ Owns P holds th l := by
  rw [hk.writes]
  constructor
  · rintro ⟨x, hx, hw⟩
    rw [ht] at hx
    cases hx
    exact hw
  · intro hw
    exact ⟨th, ht, hw⟩

/-- Only one thread has a lock as a writer. -/
theorem Kept.writer_unique (hk : Kept P holds s) {t u : Nat} {th th' : Thread π} {l : ℓ}
    (ht : s.threads[t]? = some th) (hu : s.threads[u]? = some th')
    (hw : holds th.pc l = .write) (hw' : holds th'.pc l = .write) : t = u := by
  have h₁ := (hk.owner ht).mpr (.inl hw)
  have h₂ := (hk.owner hu).mpr (.inl hw')
  rw [h₁] at h₂
  exact Option.some.inj h₂

/-- While a thread has a lock as a writer no thread has it as a reader. -/
theorem Kept.no_reader (hk : Kept P holds s) {t u : Nat} {th th' : Thread π} {l : ℓ}
    (ht : s.threads[t]? = some th) (hu : s.threads[u]? = some th')
    (hw : holds th.pc l = .write) : holds th'.pc l ≠ .read := by
  intro hr
  have hmem := (hk.reader hu).mpr hr
  rw [hk.alone t l th ht hw] at hmem
  exact Finset.notMem_empty u hmem

end LockProgram

/-! ## The steps of a thread -/

variable [DecidableEq ℓ]

namespace LockState

def setLock (s : LockState ℓ σ π) (l : ℓ) (k : RwLock) : LockState ℓ σ π :=
  { s with locks := Function.update s.locks l k }

def setThread (s : LockState ℓ σ π) (t : Nat) (th : Thread π) : LockState ℓ σ π :=
  { s with threads := s.threads.set t th }

def setMem (s : LockState ℓ σ π) (m : σ) : LockState ℓ σ π := { s with mem := m }

/-- A reader comes in. -/
def addReader (s : LockState ℓ σ π) (l : ℓ) (t : Nat) : LockState ℓ σ π :=
  s.setLock l { s.locks l with readers := insert t (s.locks l).readers }

/-- A reader leaves. -/
def dropReader (s : LockState ℓ σ π) (l : ℓ) (t : Nat) : LockState ℓ σ π :=
  s.setLock l { s.locks l with readers := (s.locks l).readers.erase t }

def setWriter (s : LockState ℓ σ π) (l : ℓ) (w : Option Nat) : LockState ℓ σ π :=
  s.setLock l { s.locks l with writer := w }

section Updates

variable (s : LockState ℓ σ π) (l l' : ℓ) (t : Nat)

omit [DecidableEq ℓ] in
@[simp] theorem setThread_locks (th : Thread π) : (s.setThread t th).locks = s.locks := rfl

omit [DecidableEq ℓ] in
@[simp] theorem setMem_locks (m : σ) : (s.setMem m).locks = s.locks := rfl

@[simp] theorem setLock_locks (k : RwLock) :
    (s.setLock l k).locks l' = if l' = l then k else s.locks l' :=
  Function.update_apply ..

@[simp] theorem addReader_readers : ((s.addReader l t).locks l').readers =
    if l' = l then insert t (s.locks l).readers else (s.locks l').readers := by
  rw [addReader, setLock_locks]
  split <;> rfl

@[simp] theorem addReader_writer :
    ((s.addReader l t).locks l').writer = (s.locks l').writer := by
  rw [addReader, setLock_locks]
  split
  · next h => rw [h]
  · rfl

@[simp] theorem dropReader_readers : ((s.dropReader l t).locks l').readers =
    if l' = l then (s.locks l).readers.erase t else (s.locks l').readers := by
  rw [dropReader, setLock_locks]
  split <;> rfl

@[simp] theorem dropReader_writer :
    ((s.dropReader l t).locks l').writer = (s.locks l').writer := by
  rw [dropReader, setLock_locks]
  split
  · next h => rw [h]
  · rfl

@[simp] theorem setWriter_readers (w : Option Nat) :
    ((s.setWriter l w).locks l').readers = (s.locks l').readers := by
  rw [setWriter, setLock_locks]
  split
  · next h => rw [h]
  · rfl

@[simp] theorem setWriter_writer (w : Option Nat) :
    ((s.setWriter l w).locks l').writer = if l' = l then w else (s.locks l').writer := by
  rw [setWriter, setLock_locks]
  split <;> rfl

end Updates

end LockState

namespace LockProgram

variable {P : LockProgram ℓ σ π β} {s s' : LockState ℓ σ π} {holds : π → ℓ → Hold}

/-- One step of a thread. -/
def advance (P : LockProgram ℓ σ π β) (s : LockState ℓ σ π) (t : Nat) :
    Option (LockState ℓ σ π) :=
  match s.threads[t]? with
  | none => none
  | some th =>
    match P.demand th.pc with
    | .stop => none
    | .compute =>
      let r := P.compute t s.mem th.pc
      some ((s.setMem r.1).setThread t ⟨r.2, false⟩)
    | .read l =>
      if (s.locks l).writer = none then
        some ((s.addReader l t).setThread t ⟨P.after th.pc, false⟩)
      else none
    | .write l =>
      if th.claims then
        if (s.locks l).readers = ∅ then some (s.setThread t ⟨P.after th.pc, false⟩) else none
      else if (s.locks l).writer = none then
        some ((s.setWriter l (some t)).setThread t ⟨th.pc, true⟩)
      else none
    | .endRead l => some ((s.dropReader l t).setThread t ⟨P.after th.pc, false⟩)
    | .endWrite l => some ((s.setWriter l none).setThread t ⟨P.after th.pc, false⟩)

/-- Threads under every interleaving of their steps; a call starts a thread. -/
def system (P : LockProgram ℓ σ π β) (mem : σ) :
    System (LockState ℓ σ π) (LockAction β) where
  init := ⟨fun _ => ⟨∅, none⟩, mem, []⟩
  step s
    | .call b => some { s with threads := s.threads ++ [⟨P.enter b, false⟩] }
    | .advance t => P.advance s t

/-- What one step of thread `t`, which is `th` before it, does. -/
inductive Advance (P : LockProgram ℓ σ π β) (s : LockState ℓ σ π) (t : Nat) (th : Thread π) :
    LockState ℓ σ π → Prop
  | compute (hd : P.demand th.pc = .compute) : Advance P s t th
      ((s.setMem (P.compute t s.mem th.pc).1).setThread t ⟨(P.compute t s.mem th.pc).2, false⟩)
  | read (l : ℓ) (hd : P.demand th.pc = .read l) (hw : (s.locks l).writer = none) :
      Advance P s t th ((s.addReader l t).setThread t ⟨P.after th.pc, false⟩)
  | claim (l : ℓ) (hd : P.demand th.pc = .write l) (hc : th.claims = false)
      (hw : (s.locks l).writer = none) :
      Advance P s t th ((s.setWriter l (some t)).setThread t ⟨th.pc, true⟩)
  | write (l : ℓ) (hd : P.demand th.pc = .write l) (hc : th.claims = true)
      (hr : (s.locks l).readers = ∅) :
      Advance P s t th (s.setThread t ⟨P.after th.pc, false⟩)
  | endRead (l : ℓ) (hd : P.demand th.pc = .endRead l) :
      Advance P s t th ((s.dropReader l t).setThread t ⟨P.after th.pc, false⟩)
  | endWrite (l : ℓ) (hd : P.demand th.pc = .endWrite l) :
      Advance P s t th ((s.setWriter l none).setThread t ⟨P.after th.pc, false⟩)

theorem advance_cases {t : Nat} (h : P.advance s t = some s') :
    ∃ th, s.threads[t]? = some th ∧ Advance P s t th s' := by
  rw [advance] at h
  cases ht : s.threads[t]? with
  | none => simp [ht] at h
  | some th =>
    refine ⟨th, rfl, ?_⟩
    rw [ht] at h
    cases hd : P.demand th.pc with
    | stop => simp [hd] at h
    | compute =>
      simp only [hd, Option.some.injEq] at h
      subst h
      exact .compute hd
    | read l =>
      simp only [hd, Option.ite_none_right_eq_some, Option.some.injEq] at h
      obtain ⟨hw, rfl⟩ := h
      exact .read l hd hw
    | write l =>
      simp only [hd] at h
      cases hc : th.claims with
      | true =>
        simp only [hc, if_true, Option.ite_none_right_eq_some, Option.some.injEq] at h
        obtain ⟨hr, rfl⟩ := h
        exact .write l hd hc hr
      | false =>
        simp only [hc, Bool.false_eq_true, if_false, Option.ite_none_right_eq_some,
          Option.some.injEq] at h
        obtain ⟨hw, rfl⟩ := h
        exact .claim l hd hc hw
    | endRead l =>
      simp only [hd, Option.some.injEq] at h
      subst h
      exact .endRead l hd
    | endWrite l =>
      simp only [hd, Option.some.injEq] at h
      subst h
      exact .endWrite l hd

theorem step_cases {mem : σ} {a : LockAction β} (h : (P.system mem).step s a = some s') :
    (∃ b, a = .call b ∧ s' = { s with threads := s.threads ++ [⟨P.enter b, false⟩] }) ∨
      ∃ t th, a = .advance t ∧ s.threads[t]? = some th ∧ Advance P s t th s' := by
  cases a with
  | call b =>
    cases h
    exact .inl ⟨b, rfl, rfl⟩
  | advance t =>
    obtain ⟨th, ht, hs⟩ := advance_cases h
    exact .inr ⟨t, th, rfl, ht, hs⟩

/-- The memory changes with the steps of the threads on it only. -/
theorem step_mem {mem : σ} {a : LockAction β} (h : (P.system mem).step s a = some s') :
    (∃ t th, a = .advance t ∧ s.threads[t]? = some th ∧ P.demand th.pc = .compute ∧
      s'.mem = (P.compute t s.mem th.pc).1) ∨
    (∀ t th, a = .advance t → s.threads[t]? = some th → P.demand th.pc ≠ .compute) ∧
      s'.mem = s.mem := by
  rcases step_cases h with ⟨b, rfl, rfl⟩ | ⟨t, th, rfl, ht, hadv⟩
  · exact .inr ⟨by simp, rfl⟩
  have hthread : P.demand th.pc ≠ .compute → ∀ u th', LockAction.advance (β := β) t = .advance u →
      s.threads[u]? = some th' → P.demand th'.pc ≠ .compute := by
    rintro hd u th' ⟨⟩ hu
    rw [ht] at hu
    cases hu
    exact hd
  cases hadv with
  | compute hd => exact .inl ⟨t, th, rfl, ht, hd, rfl⟩
  | read l hd hw => exact .inr ⟨hthread (by simp [hd]), rfl⟩
  | claim l hd hc hw => exact .inr ⟨hthread (by simp [hd]), rfl⟩
  | write l hd hc hr => exact .inr ⟨hthread (by simp [hd]), rfl⟩
  | endRead l hd => exact .inr ⟨hthread (by simp [hd]), rfl⟩
  | endWrite l hd => exact .inr ⟨hthread (by simp [hd]), rfl⟩

/-- A thread goes on with its own steps only. -/
theorem step_thread {mem : σ} {a : LockAction β} (h : (P.system mem).step s a = some s') {k : Nat}
    {th : Thread π} (hk : s.threads[k]? = some th) :
    ∃ th', s'.threads[k]? = some th' ∧ (th'.pc = th.pc ∨ a = .advance k ∧
      (P.demand th.pc = .compute ∧ th'.pc = (P.compute k s.mem th.pc).2 ∨
        P.demand th.pc ≠ .compute ∧ th'.pc = P.after th.pc)) := by
  have hlt := (List.getElem?_eq_some_iff.mp hk).1
  rcases step_cases h with ⟨b, rfl, rfl⟩ | ⟨t, th₀, rfl, ht, hadv⟩
  · exact ⟨th, (List.getElem?_append_left hlt).trans hk, .inl rfl⟩
  by_cases hkt : k = t
  · subst hkt
    rw [hk] at ht
    cases ht
    cases hadv with
    | compute hd => exact ⟨_, List.getElem?_set_self hlt, .inr ⟨rfl, .inl ⟨hd, rfl⟩⟩⟩
    | claim l hd hc hw => exact ⟨_, List.getElem?_set_self hlt, .inl rfl⟩
    | read l hd hw =>
      exact ⟨_, List.getElem?_set_self hlt, .inr ⟨rfl, .inr ⟨by simp [hd], rfl⟩⟩⟩
    | write l hd hc hr =>
      exact ⟨_, List.getElem?_set_self hlt, .inr ⟨rfl, .inr ⟨by simp [hd], rfl⟩⟩⟩
    | endRead l hd =>
      exact ⟨_, List.getElem?_set_self hlt, .inr ⟨rfl, .inr ⟨by simp [hd], rfl⟩⟩⟩
    | endWrite l hd =>
      exact ⟨_, List.getElem?_set_self hlt, .inr ⟨rfl, .inr ⟨by simp [hd], rfl⟩⟩⟩
  · refine ⟨th, ?_, .inl rfl⟩
    have hother : ∀ x : Thread π, (s.threads.set t x)[k]? = some th := fun x =>
      (List.getElem?_set_ne (Ne.symm hkt)).trans hk
    cases hadv <;> exact hother _

/-! ## Discipline -/

/-- `holds p l` is how a thread at point `p` has lock `l`: it has none when it starts and
when it stops, takes no lock that it has, and releases only what it has. -/
structure Disciplined (P : LockProgram ℓ σ π β) (holds : π → ℓ → Hold) : Prop where
  enter : ∀ b l, holds (P.enter b) l = .free
  stop : ∀ p l, P.demand p = .stop → holds p l = .free
  compute : ∀ t m p, P.demand p = .compute → holds (P.compute t m p).2 = holds p
  read : ∀ p l, P.demand p = .read l →
    holds p l = .free ∧ holds (P.after p) = Function.update (holds p) l .read
  write : ∀ p l, P.demand p = .write l →
    holds p l = .free ∧ holds (P.after p) = Function.update (holds p) l .write
  endRead : ∀ p l, P.demand p = .endRead l →
    holds p l = .read ∧ holds (P.after p) = Function.update (holds p) l .free
  endWrite : ∀ p l, P.demand p = .endWrite l →
    holds p l = .write ∧ holds (P.after p) = Function.update (holds p) l .free

/-- What `update` does not write was there before. -/
theorem of_update {f : ℓ → Hold} {l l' : ℓ} {h k : Hold} (hne : h ≠ k)
    (hl : Function.update f l h l' = k) : l' ≠ l ∧ f l' = k := by
  rw [Function.update_apply] at hl
  split at hl
  · exact absurd hl hne
  · next hne => exact ⟨hne, hl⟩

theorem kept_advance (hd : P.Disciplined holds) (hk : Kept P holds s) {t : Nat} {th : Thread π}
    (ht : s.threads[t]? = some th) (h : Advance P s t th s') : Kept P holds s' := by
  have hr : ∀ l, t ∈ (s.locks l).readers ↔ holds th.pc l = .read := fun l => hk.reader ht
  have hw : ∀ l, (s.locks l).writer = some t ↔ Owns P holds th l := fun l => hk.owner ht
  have hlone : ∀ l, holds th.pc l = .write → (s.locks l).readers = ∅ :=
    fun l => hk.alone t l th ht
  cases h with
  | compute hp =>
    have hsame := hd.compute t s.mem th.pc hp
    have hown : ∀ l, Owns P holds th l ↔ holds th.pc l = .write :=
      fun l => owns_of_demand (by simp [hp])
    refine hk.set ht rfl ?_ (fun _ _ _ => Iff.rfl) ?_ (fun _ _ _ => Iff.rfl) ?_ ?_
    · intro l
      rw [hsame]
      exact hr l
    · intro l
      rw [owns_pc, hsame, ← hown]
      exact hw l
    · intro l hl
      rw [hsame] at hl
      exact .inl hl
    · intro l hl
      rw [hsame] at hl
      exact hlone l hl
  | read l hp hn =>
    obtain ⟨hfree, hafter⟩ := hd.read th.pc l hp
    refine hk.set ht rfl ?_ ?_ ?_ ?_ ?_ ?_
    · intro l'
      rw [LockState.setThread_locks, LockState.addReader_readers, hafter, Function.update_apply]
      split <;> simp [hr]
    · intro l' u hu
      rw [LockState.setThread_locks, LockState.addReader_readers]
      split
      · next h => simp [hu, h]
      · rfl
    · intro l'
      rw [LockState.setThread_locks, LockState.addReader_writer, hw, owns_pc,
        owns_of_demand (by simp [hp]), hafter, Function.update_apply]
      split
      · next h => simp [h, hfree]
      · rfl
    · intro l' u hu
      rw [LockState.setThread_locks, LockState.addReader_writer]
    · intro l' hl
      rw [hafter, Function.update_apply] at hl
      split at hl
      · next h => exact .inr (h ▸ hn)
      · exact .inl hl
    · intro l' hl
      rw [hafter] at hl
      exact hlone l' (of_update (by simp) hl).2
  | claim l hp hc hn =>
    obtain ⟨hfree, -⟩ := hd.write th.pc l hp
    refine hk.set ht rfl ?_ ?_ ?_ ?_ (fun _ => .inl) hlone
    · intro l'
      rw [LockState.setThread_locks, LockState.setWriter_readers, hr]
    · intro l' u hu
      rw [LockState.setThread_locks, LockState.setWriter_readers]
    · intro l'
      rw [LockState.setThread_locks, LockState.setWriter_writer]
      split
      · next h => simp [Owns, h, hp]
      · next h => rw [hw, Owns, Owns]; simp [hc, hp, Ne.symm h]
    · intro l' u hu
      rw [LockState.setThread_locks, LockState.setWriter_writer]
      split
      · next h => simp [h, hn, Ne.symm hu]
      · rfl
  | write l hp hc hempty =>
    obtain ⟨hfree, hafter⟩ := hd.write th.pc l hp
    refine hk.set ht rfl ?_ (fun _ _ _ => Iff.rfl) ?_ (fun _ _ _ => Iff.rfl) ?_ ?_
    · intro l'
      rw [LockState.setThread_locks, hr, hafter, Function.update_apply]
      split
      · next h => simp [h, hfree]
      · rfl
    · intro l'
      rw [LockState.setThread_locks, hw, owns_pc, hafter, Function.update_apply, Owns]
      split
      · next h => simp [h, hp, hc]
      · next h => simp [hp, Ne.symm h]
    · intro l' hl
      rw [hafter] at hl
      exact .inl (of_update (by simp) hl).2
    · intro l' hl
      rw [hafter, Function.update_apply] at hl
      split at hl
      · next h => exact h ▸ hempty
      · exact hlone l' hl
  | endRead l hp =>
    obtain ⟨hread, hafter⟩ := hd.endRead th.pc l hp
    refine hk.set ht rfl ?_ ?_ ?_ ?_ ?_ ?_
    · intro l'
      rw [LockState.setThread_locks, LockState.dropReader_readers, hafter, Function.update_apply]
      split <;> simp [hr]
    · intro l' u hu
      rw [LockState.setThread_locks, LockState.dropReader_readers]
      split
      · next h => simp [hu, h]
      · rfl
    · intro l'
      rw [LockState.setThread_locks, LockState.dropReader_writer, hw, owns_pc,
        owns_of_demand (by simp [hp]), hafter, Function.update_apply]
      split
      · next h => simp [h, hread]
      · rfl
    · intro l' u hu
      rw [LockState.setThread_locks, LockState.dropReader_writer]
    · intro l' hl
      rw [hafter] at hl
      exact .inl (of_update (by simp) hl).2
    · intro l' hl
      rw [hafter] at hl
      exact hlone l' (of_update (by simp) hl).2
  | endWrite l hp =>
    obtain ⟨hwrite, hafter⟩ := hd.endWrite th.pc l hp
    have howner : (s.locks l).writer = some t := (hw l).mpr (.inl hwrite)
    refine hk.set ht rfl ?_ ?_ ?_ ?_ ?_ ?_
    · intro l'
      rw [LockState.setThread_locks, LockState.setWriter_readers, hr, hafter,
        Function.update_apply]
      split
      · next h => simp [h, hwrite]
      · rfl
    · intro l' u hu
      rw [LockState.setThread_locks, LockState.setWriter_readers]
    · intro l'
      rw [LockState.setThread_locks, LockState.setWriter_writer, owns_pc, hafter,
        Function.update_apply]
      split
      · simp
      · rw [hw, owns_of_demand (by simp [hp])]
    · intro l' u hu
      rw [LockState.setThread_locks, LockState.setWriter_writer]
      split
      · next h => simp [h, howner, Ne.symm hu]
      · rfl
    · intro l' hl
      rw [hafter] at hl
      exact .inl (of_update (by simp) hl).2
    · intro l' hl
      rw [hafter] at hl
      exact hlone l' (of_update (by simp) hl).2

omit [DecidableEq ℓ] in
theorem exists_append {threads : List (Thread π)} {th' : Thread π} {Q : Thread π → Prop}
    (hQ : ¬ Q th') {t : Nat} :
    (∃ x, (threads ++ [th'])[t]? = some x ∧ Q x) ↔ ∃ x, threads[t]? = some x ∧ Q x := by
  constructor
  · rintro ⟨x, hx, hq⟩
    rw [List.getElem?_append] at hx
    split at hx
    · exact ⟨x, hx, hq⟩
    · rw [List.mem_singleton.mp (List.mem_of_getElem? hx)] at hq
      exact absurd hq hQ
  · rintro ⟨x, hx, hq⟩
    rw [← List.getElem?_append_left (List.getElem?_eq_some_iff.mp hx).1] at hx
    exact ⟨x, hx, hq⟩

theorem kept_of_reachable (hd : P.Disciplined holds) {mem : σ}
    (h : (P.system mem).Reachable s) : Kept P holds s := by
  apply h.invariant
  · exact ⟨by simp [system], by simp [system], by simp [system]⟩
  intro s a s' _ hs hk
  rcases step_cases hs with ⟨b, -, rfl⟩ | ⟨t, th, -, ht, hadv⟩
  · refine ⟨fun t l => ?_, fun t l => ?_, fun t l th ht hw => ?_⟩
    · rw [exists_append (Q := fun x => holds x.pc l = .read) (by simp [hd.enter])]
      exact hk.reads t l
    · rw [exists_append (Q := fun x => Owns P holds x l) (by simp [owns_pc, hd.enter])]
      exact hk.writes t l
    · have hold := (exists_append (Q := fun x => holds x.pc l = .write)
        (by simp [hd.enter])).mp ⟨th, ht, hw⟩
      obtain ⟨x, hx, hxw⟩ := hold
      exact hk.alone t l x hx hxw
  · exact kept_advance hd hk ht hadv

/-! ## Locks taken in one order -/

/-- The locks have ranks up to `top`, and a thread waits only for locks that rank above
those it has. -/
structure Ordered (P : LockProgram ℓ σ π β) (holds : π → ℓ → Hold) (rank : ℓ → Nat)
    (top : Nat) : Prop where
  le_top : ∀ l, rank l ≤ top
  lt : ∀ p l l', holds p l ≠ .free → P.demand p = .read l' ∨ P.demand p = .write l' →
    rank l < rank l'

/-- How far up a thread waits: for a lock, and for the readers of a lock it has claimed. -/
def waitRank (P : LockProgram ℓ σ π β) (rank : ℓ → Nat) (th : Thread π) : Nat :=
  match P.demand th.pc with
  | .read l => 2 * rank l
  | .write l => 2 * rank l + th.claims.toNat
  | _ => 0

variable {rank : ℓ → Nat} {top : Nat}

omit [DecidableEq ℓ] in
theorem waitRank_le (ho : P.Ordered holds rank top) (th : Thread π) :
    waitRank P rank th ≤ 2 * top + 1 := by
  have hle : ∀ l, rank l ≤ top := ho.le_top
  rw [waitRank]
  split
  · next l _ =>
    have := hle l
    omega
  · next l _ =>
    have := hle l
    have := th.claims.toNat_le
    omega
  · omega

/-- A thread that has a lock can go on, or waits further up. -/
theorem holder_ahead (hd : P.Disciplined holds) (ho : P.Ordered holds rank top) {u : Nat}
    {th : Thread π} (hu : s.threads[u]? = some th) {l : ℓ} (hl : holds th.pc l ≠ .free) :
    P.demand th.pc ≠ .stop ∧
      ((P.advance s u).isSome ∨ 2 * rank l + 1 < waitRank P rank th) := by
  cases hp : P.demand th.pc with
  | stop => exact absurd (hd.stop th.pc l hp) hl
  | compute => exact ⟨by simp, .inl (by simp [advance, hu, hp])⟩
  | read l' =>
    have hlt := ho.lt th.pc l l' hl (.inl hp)
    refine ⟨by simp, .inr ?_⟩
    simp only [waitRank, hp]
    omega
  | write l' =>
    have hlt := ho.lt th.pc l l' hl (.inr hp)
    refine ⟨by simp, .inr ?_⟩
    simp only [waitRank, hp]
    omega
  | endRead l' => exact ⟨by simp, .inl (by simp [advance, hu, hp])⟩
  | endWrite l' => exact ⟨by simp, .inl (by simp [advance, hu, hp])⟩

/-- A thread that owns a lock can go on, or waits at least for its readers. -/
theorem owner_ahead (hd : P.Disciplined holds) (ho : P.Ordered holds rank top)
    (hk : Kept P holds s) {u : Nat} {l : ℓ} (hw : (s.locks l).writer = some u) :
    ∃ th, s.threads[u]? = some th ∧ P.demand th.pc ≠ .stop ∧
      ((P.advance s u).isSome ∨ 2 * rank l < waitRank P rank th) := by
  obtain ⟨th, hu, hown⟩ := (hk.writes u l).mp hw
  refine ⟨th, hu, ?_⟩
  rcases hown with hwrite | ⟨hc, hp⟩
  · obtain ⟨hstop, hgo⟩ := holder_ahead hd ho hu (l := l) (by simp [hwrite])
    exact ⟨hstop, hgo.imp_right (by omega)⟩
  · refine ⟨by simp [hp], .inr ?_⟩
    simp [waitRank, hp, hc]

/-- A thread that cannot go on waits for one that can, or for one that waits further up. -/
theorem waits_for (hd : P.Disciplined holds) (ho : P.Ordered holds rank top)
    (hk : Kept P holds s) {t : Nat} {th : Thread π} (ht : s.threads[t]? = some th)
    (hp : P.demand th.pc ≠ .stop) (hstuck : P.advance s t = none) :
    ∃ u th', s.threads[u]? = some th' ∧ P.demand th'.pc ≠ .stop ∧
      ((P.advance s u).isSome ∨ waitRank P rank th < waitRank P rank th') := by
  cases hdem : P.demand th.pc with
  | stop => exact absurd hdem hp
  | compute => simp [advance, ht, hdem] at hstuck
  | endRead l => simp [advance, ht, hdem] at hstuck
  | endWrite l => simp [advance, ht, hdem] at hstuck
  | read l =>
    have hrank : waitRank P rank th = 2 * rank l := by simp [waitRank, hdem]
    simp only [advance, ht, hdem, ite_eq_right_iff, reduceCtorEq, imp_false] at hstuck
    obtain ⟨u, hw⟩ := Option.ne_none_iff_exists'.mp hstuck
    obtain ⟨th', hu, hstop, hgo⟩ := owner_ahead hd ho hk hw
    exact ⟨u, th', hu, hstop, hgo.imp_right (by omega)⟩
  | write l =>
    cases hc : th.claims with
    | false =>
      have hrank : waitRank P rank th = 2 * rank l := by simp [waitRank, hdem, hc]
      simp only [advance, ht, hdem, hc, Bool.false_eq_true, if_false, ite_eq_right_iff,
        reduceCtorEq, imp_false] at hstuck
      obtain ⟨u, hw⟩ := Option.ne_none_iff_exists'.mp hstuck
      obtain ⟨th', hu, hstop, hgo⟩ := owner_ahead hd ho hk hw
      exact ⟨u, th', hu, hstop, hgo.imp_right (by omega)⟩
    | true =>
      have hrank : waitRank P rank th = 2 * rank l + 1 := by simp [waitRank, hdem, hc]
      simp only [advance, ht, hdem, hc, if_true, ite_eq_right_iff, reduceCtorEq,
        imp_false] at hstuck
      obtain ⟨u, hmem⟩ := Finset.nonempty_iff_ne_empty.mpr hstuck
      obtain ⟨th', hu, hr⟩ := (hk.reads u l).mp hmem
      obtain ⟨hstop, hgo⟩ := holder_ahead hd ho hu (l := l) (by simp [hr])
      exact ⟨u, th', hu, hstop, hgo.imp_right (by omega)⟩

/-- Locks taken in one order do not deadlock: while a thread has not stopped, some thread
can go on. -/
theorem exists_step (hd : P.Disciplined holds) (ho : P.Ordered holds rank top)
    (hk : Kept P holds s) {t : Nat} {th : Thread π} (ht : s.threads[t]? = some th)
    (hp : P.demand th.pc ≠ .stop) : ∃ u, (P.advance s u).isSome := by
  induction hn : 2 * top + 1 - waitRank P rank th using Nat.strongRecOn generalizing t th with
  | _ n ih =>
    cases hgo : P.advance s t with
    | some s' => exact ⟨t, by simp [hgo]⟩
    | none =>
      obtain ⟨u, th', hu, hstop, hnext⟩ := waits_for hd ho hk ht hp hgo
      rcases hnext with hsome | hlt
      · exact ⟨u, hsome⟩
      · have hle := waitRank_le ho th'
        exact ih (2 * top + 1 - waitRank P rank th') (by omega) hu hstop rfl

/-! ## Threads with bounded work -/

/-- Every step of a thread lowers the work it has left. -/
structure Works (P : LockProgram ℓ σ π β) (work : π → Nat) : Prop where
  compute : ∀ t m p, P.demand p = .compute → work (P.compute t m p).2 < work p
  after : ∀ p, P.demand p ≠ .stop → P.demand p ≠ .compute → work (P.after p) < work p

/-- The steps left to a thread; taking a lock for writing counts as two. -/
def stepsLeft (work : π → Nat) (th : Thread π) : Nat := 2 * work th.pc + (1 - th.claims.toNat)

/-- The steps left to all threads. -/
def load (work : π → Nat) (s : LockState ℓ σ π) : Nat := (s.threads.map (stepsLeft work)).sum

variable {work : π → Nat}

theorem sum_map_set_lt {α : Type*} {f : α → Nat} {l : List α} {t : Nat} {x y : α}
    (hx : l[t]? = some x) (hlt : f y < f x) : ((l.set t y).map f).sum < (l.map f).sum := by
  induction l generalizing t with
  | nil => simp at hx
  | cons z l ih =>
    cases t with
    | zero =>
      cases hx
      simp only [List.set_cons_zero, List.map_cons, List.sum_cons]
      omega
    | succ t =>
      have hrest := ih hx
      simp only [List.set_cons_succ, List.map_cons, List.sum_cons]
      omega

omit [DecidableEq ℓ] in
theorem load_le {n : Nat} (hn : ∀ p, work p ≤ n) : load work s ≤ (2 * n + 1) * s.threads.length := by
  rw [load]
  induction s.threads with
  | nil => simp
  | cons th l ih =>
    have hle := hn th.pc
    simp only [List.map_cons, List.sum_cons, List.length_cons, stepsLeft]
    rw [Nat.mul_succ]
    omega

omit [DecidableEq ℓ] in
theorem load_setThread {t : Nat} {th th' : Thread π} (ht : s.threads[t]? = some th)
    (hthreads : s'.threads = s.threads.set t th')
    (hlt : stepsLeft work th' < stepsLeft work th) : load work s' < load work s := by
  rw [load, load, hthreads]
  exact sum_map_set_lt ht hlt

omit [DecidableEq ℓ] in
theorem stepsLeft_lt {th : Thread π} {p : π} (h : work p < work th.pc) :
    stepsLeft work ⟨p, false⟩ < stepsLeft work th := by
  have hle : th.claims.toNat ≤ 1 := th.claims.toNat_le
  simp only [stepsLeft, Bool.toNat_false]
  omega

theorem load_advance (hw : P.Works work) {t : Nat} (h : P.advance s t = some s') :
    load work s' < load work s := by
  obtain ⟨th, ht, hadv⟩ := advance_cases h
  cases hadv with
  | compute hp =>
    apply load_setThread ht rfl
    exact stepsLeft_lt (hw.compute t s.mem th.pc hp)
  | claim l hp hc hn =>
    apply load_setThread ht rfl
    simp [stepsLeft, hc]
  | read l hp hn | write l hp hc hempty | endRead l hp | endWrite l hp =>
    apply load_setThread ht rfl
    apply stepsLeft_lt
    exact hw.after th.pc (by simp [hp]) (by simp [hp])

theorem advances_le (hw : P.Works work) {mem : σ} {ts : List Nat}
    (h : (P.system mem).exec s (ts.map .advance) = some s') :
    ts.length + load work s' ≤ load work s := by
  induction ts generalizing s with
  | nil =>
    cases h
    simp
  | cons t ts ih =>
    obtain ⟨s₁, hs, he⟩ := Option.bind_eq_some_iff.mp h
    have hlt : load work s₁ < load work s := load_advance hw hs
    have hrest := ih he
    rw [List.length_cons]
    omega

/-- Calls in progress come to their end under every schedule: none of them is longer than
the work left, and where no thread can go on all have stopped. -/
theorem completes (hd : P.Disciplined holds) (ho : P.Ordered holds rank top)
    (hw : P.Works work) {mem : σ} (h : (P.system mem).Reachable s) {ts : List Nat}
    (he : (P.system mem).exec s (ts.map .advance) = some s') :
    ts.length ≤ load work s ∧
      ((∀ t, P.advance s' t = none) → ∀ th ∈ s'.threads, P.demand th.pc = .stop) := by
  have hle := advances_le hw he
  refine ⟨by omega, fun hstuck th hth => ?_⟩
  by_contra hp
  obtain ⟨t, ht⟩ := List.mem_iff_getElem?.mp hth
  have hk := kept_of_reachable hd (System.reachable_of_exec h he)
  obtain ⟨u, hu⟩ := exists_step hd ho hk ht hp
  rw [hstuck u] at hu
  cases hu

end LockProgram

end WsIo.Async
