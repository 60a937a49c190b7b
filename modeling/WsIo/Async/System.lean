import Mathlib.Data.Option.Basic
import Mathlib.Logic.Function.Basic
import Mathlib.Logic.Relation

/-!
# Systems of interleaved atomic steps

A system has initial states and a partial step function: every atomic step of every
task is named by an action, and the action also carries whatever the scheduler or the
environment decides at that step. A run is a list of actions, so a statement about
every reachable state is a statement about every interleaving.

* `System.ReachableWhen`: the states reached by runs every step of which meets a
  condition on the state before it; `System.Reachable` asks for no condition.
* `System.ReachableWhen.invariant`: the induction rule for invariants.
* `System.ReachableWhen.map`: a projection whose steps are steps of another system (or
  leave the projection unchanged) carries reachability over.
* `System.RunWhen`: a run with its steps, for statements about what happens between two
  of them.
* `System.RunWhen.forever`, `System.RunWhen.enters_once`: properties and phases that are
  never left, or left for good.
* `System.Lasting`: what a step of the run has set and none after it has cleared, with the
  rule that a property is such (`System.RunWhen.lasting`).
* `System.PathWhen`: the states that can still be reached from a state, with the rule that a
  falling rank leads to a goal (`System.exists_path`).
* `System.exec`, `System.execWhen`: concrete runs, for witnesses and counterexamples.
-/

namespace WsIo.Async

/-- A system of interleaved atomic steps. `step s a = none` when `a` is not enabled. -/
structure System (σ α : Type*) where
  init : σ
  step : σ → α → Option σ

namespace System

variable {σ α τ β : Type*} {S : System σ α} {T : System τ β}

/-- The states reached by runs whose steps all meet `guard`. -/
inductive ReachableWhen (S : System σ α) (guard : σ → α → Prop) : σ → Prop
  | init : ReachableWhen S guard S.init
  | step {s s' : σ} {a : α} : ReachableWhen S guard s → guard s a → S.step s a = some s' →
      ReachableWhen S guard s'

/-- The states reached by any run. -/
def Reachable (S : System σ α) : σ → Prop := S.ReachableWhen fun _ _ => True

theorem Reachable.next {s s' : σ} {a : α} (h : S.Reachable s) (hs : S.step s a = some s') :
    S.Reachable s' := ReachableWhen.step h trivial hs

/-- An invariant holds initially and is kept by every step that meets the condition; the
step may use that the state before it is reachable. -/
theorem ReachableWhen.invariant {guard : σ → α → Prop} {I : σ → Prop} (h0 : I S.init)
    (hstep : ∀ s a s', S.ReachableWhen guard s → guard s a → S.step s a = some s' → I s → I s')
    {s : σ} (h : S.ReachableWhen guard s) : I s := by
  induction h with
  | init => exact h0
  | step hr hg hs ih => exact hstep _ _ _ hr hg hs ih

theorem Reachable.invariant {I : σ → Prop} (h0 : I S.init)
    (hstep : ∀ s a s', S.Reachable s → S.step s a = some s' → I s → I s')
    {s : σ} (h : S.Reachable s) : I s := by
  refine ReachableWhen.invariant h0 ?_ h
  intro s a s' hr _ hs hi
  exact hstep s a s' hr hs hi

theorem ReachableWhen.mono {guard guard' : σ → α → Prop}
    (hg : ∀ s a, guard s a → guard' s a) {s : σ} (h : S.ReachableWhen guard s) :
    S.ReachableWhen guard' s := by
  induction h with
  | init => exact .init
  | step _ ha hs ih => exact .step ih (hg _ _ ha) hs

/-- A condition may be replaced by one that it implies on the states it allows. -/
theorem ReachableWhen.imp {guard guard' : σ → α → Prop}
    (hg : ∀ s a, S.ReachableWhen guard s → guard s a → guard' s a) {s : σ}
    (h : S.ReachableWhen guard s) : S.ReachableWhen guard' s := by
  induction h with
  | init => exact .init
  | step hr ha hs ih => exact .step ih (hg _ _ hr ha) hs

theorem ReachableWhen.reachable {guard : σ → α → Prop} {s : σ} (h : S.ReachableWhen guard s) :
    S.Reachable s := h.mono fun _ _ _ => trivial

/-- Projection: when every step of `S` shows under `f` as no step or as a step of `T`,
reachable states of `S` project to reachable states of `T`. -/
theorem ReachableWhen.map {guard : σ → α → Prop} {guard' : τ → β → Prop} (f : σ → τ)
    (h0 : f S.init = T.init)
    (hstep : ∀ s a s', S.ReachableWhen guard s → guard s a → S.step s a = some s' →
      f s' = f s ∨ ∃ b, guard' (f s) b ∧ T.step (f s) b = some (f s'))
    {s : σ} (h : S.ReachableWhen guard s) : T.ReachableWhen guard' (f s) := by
  induction h with
  | init => rw [h0]; exact .init
  | step hr hg hs ih =>
    rcases hstep _ _ _ hr hg hs with he | ⟨b, hb, hb'⟩
    · rw [he]; exact ih
    · exact .step ih hb hb'

/-! ## Runs with their steps -/

/-- A run whose steps all meet `guard`, with the state and the action of each step, newest
first, and the state it ends in. -/
inductive RunWhen (S : System σ α) (guard : σ → α → Prop) : List (σ × α) → σ → Prop
  | init : RunWhen S guard [] S.init
  | step {l : List (σ × α)} {s s' : σ} {a : α} : RunWhen S guard l s → guard s a →
      S.step s a = some s' → RunWhen S guard ((s, a) :: l) s'

theorem RunWhen.reachableWhen {guard : σ → α → Prop} {l : List (σ × α)} {s : σ}
    (h : S.RunWhen guard l s) : S.ReachableWhen guard s := by
  induction h with
  | init => exact .init
  | step _ hg hs ih => exact .step ih hg hs

theorem RunWhen.unguarded {guard : σ → α → Prop} {l : List (σ × α)} {s : σ}
    (h : S.RunWhen guard l s) : S.RunWhen (fun _ _ => True) l s := by
  induction h with
  | init => exact .init
  | step _ _ hs ih => exact .step ih trivial hs

theorem ReachableWhen.exists_run {guard : σ → α → Prop} {s : σ} (h : S.ReachableWhen guard s) :
    ∃ l, S.RunWhen guard l s := by
  induction h with
  | init => exact ⟨[], .init⟩
  | step _ hg hs ih =>
    obtain ⟨l, hl⟩ := ih
    exact ⟨_, .step hl hg hs⟩

/-- The steps before one step of a run are a run up to it. -/
theorem RunWhen.before {guard : σ → α → Prop} {later earlier : List (σ × α)} {s t : σ} {a : α}
    (h : S.RunWhen guard (later ++ (t, a) :: earlier) s) : S.RunWhen guard earlier t := by
  induction later generalizing s with
  | nil =>
    cases h with
    | step hr _ _ => exact hr
  | cons p later ih =>
    cases h with
    | step hr _ _ => exact ih hr

theorem RunWhen.step_of_mem {guard : σ → α → Prop} {later earlier : List (σ × α)} {s t : σ} {a : α}
    (h : S.RunWhen guard (later ++ (t, a) :: earlier) s) : ∃ t', S.step t a = some t' := by
  induction later generalizing s with
  | nil =>
    cases h with
    | step _ _ hs => exact ⟨_, hs⟩
  | cons p later ih =>
    cases h with
    | step hr _ _ => exact ih hr

/-- `P` holds now and has held at every step since the present phase `D` began. -/
def HeldSince (D P : σ → Prop) : List (σ × α) → σ → Prop
  | [], s => P s
  | (t, _) :: l, s => P s ∧ (D t → HeldSince D P l t)

theorem HeldSince.now {D P : σ → Prop} {l : List (σ × α)} {s : σ} (h : HeldSince D P l s) : P s := by
  cases l with
  | nil => exact h
  | cons p l => exact h.1

theorem HeldSince.mono {D P Q : σ → Prop} (hpq : ∀ s, P s → Q s) {l : List (σ × α)} {s : σ}
    (h : HeldSince D P l s) : HeldSince D Q l s := by
  induction l generalizing s with
  | nil => exact hpq s h
  | cons p l ih => exact ⟨hpq s h.1, fun hd => ih (h.2 hd)⟩

theorem RunWhen.heldSince {guard : σ → α → Prop} {D P : σ → Prop} {l : List (σ × α)} {s : σ}
    (h : S.RunWhen guard l s) (hg : ∀ s a, guard s a → D s → P s) (hP : P s) :
    HeldSince D P l s := by
  induction h with
  | init => exact hP
  | step _ ha _ ih => exact ⟨hP, fun hd => ih (hg _ _ ha hd)⟩

/-- The rule for invariants of a phase: what holds when the phase begins, and is kept by
its steps while `P` holds, holds in the phase for as long as `P` has held throughout. -/
theorem RunWhen.phase {guard : σ → α → Prop} {D P I : σ → Prop} {l : List (σ × α)} {s : σ}
    (h : S.RunWhen guard l s) (hinit : ¬ D S.init)
    (hbegin : ∀ s a s', S.step s a = some s' → ¬ D s → D s' → I s')
    (hstep : ∀ s a s', S.ReachableWhen guard s → S.step s a = some s' → D s → P s → I s → D s' → I s')
    (hD : D s) (hP : HeldSince D P l s) : I s := by
  induction h with
  | init => exact absurd hD hinit
  | @step l s s' a hr hg hs ih =>
    by_cases hd : D s
    · have hprev := hP.2 hd
      exact hstep s a s' hr.reachableWhen hs hd hprev.now (ih hd hprev) hD
    · exact hbegin s a s' hs hd hD

/-- What has held once holds from then on. -/
theorem RunWhen.forever {guard : σ → α → Prop} {P : σ → Prop}
    (hstep : ∀ s a s', S.ReachableWhen guard s → S.step s a = some s' → P s → P s')
    {later earlier : List (σ × α)} {s t : σ} {a : α}
    (h : S.RunWhen guard (later ++ (t, a) :: earlier) s) (ht : P t) : P s := by
  induction later generalizing s with
  | nil =>
    cases h with
    | step hr _ hs => exact hstep _ _ _ hr.reachableWhen hs ht
  | cons p later ih =>
    cases h with
    | step hr _ hs => exact hstep _ _ _ hr.reachableWhen hs (ih hr)

/-- The step enters `P`. -/
def enters (S : System σ α) (P : σ → Bool) (p : σ × α) : Bool :=
  !P p.1 && (S.step p.1 p.2).any P

/-- A phase that is only left for good is entered once. -/
theorem RunWhen.enters_once {guard : σ → α → Prop} {P : σ → Bool} {D : σ → Prop}
    {l : List (σ × α)} {s : σ} (h : S.RunWhen guard l s)
    (hleave : ∀ s a s', S.ReachableWhen guard s → S.step s a = some s' → P s = true →
      P s' = true ∨ D s')
    (hgone : ∀ s a s', S.ReachableWhen guard s → S.step s a = some s' → D s → D s')
    (hapart : ∀ s, D s → P s = false) : l.countP (S.enters P) ≤ 1 := by
  suffices l.countP (S.enters P) ≤ 1 ∧ (P s = true ∨ D s ∨ l.countP (S.enters P) = 0) from this.1
  induction h with
  | init => exact ⟨by simp, .inr (.inr rfl)⟩
  | @step l s s' a hr _ hs ih =>
    obtain ⟨hle, hwhere⟩ := ih
    have hcount : ((s, a) :: l).countP (S.enters P) =
        l.countP (S.enters P) + if S.enters P (s, a) then 1 else 0 := List.countP_cons
    by_cases he : S.enters P (s, a) = true
    · -- before the entry the phase had not begun
      rw [enters, Bool.and_eq_true, Bool.not_eq_true', hs] at he
      have hP' : P s' = true := by simpa using he.2
      have hzero : l.countP (S.enters P) = 0 := by
        rcases hwhere with hP | hD | hz
        · rw [he.1] at hP
          cases hP
        · rw [hapart s' (hgone s a s' hr.reachableWhen hs hD)] at hP'
          cases hP'
        · exact hz
      refine ⟨?_, .inl hP'⟩
      rw [hcount, hzero]
      split <;> omega
    · rw [if_neg he, Nat.add_zero] at hcount
      rw [hcount]
      refine ⟨hle, ?_⟩
      rcases hwhere with hP | hD | hz
      · rcases hleave s a s' hr.reachableWhen hs hP with hP' | hD'
        · exact .inl hP'
        · exact .inr (.inl hD')
      · exact .inr (.inl (hgone s a s' hr.reachableWhen hs hD))
      · exact .inr (.inr hz)

/-! ## What the last step about it said -/

/-- Some element sets it and none after it clears it; the list is newest first. -/
def Lasting {β : Type*} (sets clears : β → Prop) : List β → Prop
  | [] => False
  | p :: l => sets p ∨ ¬ clears p ∧ Lasting sets clears l

instance Lasting.decidable {β : Type*} {sets clears : β → Prop} [DecidablePred sets]
    [DecidablePred clears] : (l : List β) → Decidable (Lasting sets clears l)
  | [] => inferInstanceAs (Decidable False)
  | p :: l =>
    have : Decidable (Lasting sets clears l) := Lasting.decidable l
    inferInstanceAs (Decidable (sets p ∨ ¬ clears p ∧ Lasting sets clears l))

/-- It lasts through steps that do not clear it. -/
theorem Lasting.append {β : Type*} {sets clears : β → Prop} {newer older : List β}
    (h : Lasting sets clears older) (hn : ∀ p ∈ newer, ¬ clears p) :
    Lasting sets clears (newer ++ older) := by
  induction newer with
  | nil => exact h
  | cons p newer ih =>
    exact .inr ⟨hn p List.mem_cons_self, ih fun q hq => hn q (List.mem_cons_of_mem p hq)⟩

/-- What never falls was no more after an earlier step. -/
theorem RunWhen.le_of_mem {guard : σ → α → Prop} {f : σ → Nat}
    (hstep : ∀ s a s', S.step s a = some s' → f s ≤ f s') {l : List (σ × α)} {s t t' : σ} {a : α}
    (h : S.RunWhen guard l s) (hmem : (t, a) ∈ l) (ht : S.step t a = some t') : f t' ≤ f s := by
  induction h with
  | init => cases hmem
  | step _ _ hs ih =>
    rcases List.mem_cons.mp hmem with he | hmem
    · cases he
      obtain rfl := Option.some.inj (ht.symm.trans hs)
      exact Nat.le_refl _
    · exact Nat.le_trans (ih hmem) (hstep _ _ _ hs)

/-- A property that each step sets, clears or leaves alone is what the run says. -/
theorem RunWhen.lasting {guard : σ → α → Prop} {P : σ → Prop} {sets clears : σ × α → Prop}
    {l : List (σ × α)} {s : σ} (h : S.RunWhen guard l s) (hinit : ¬ P S.init)
    (hstep : ∀ t a t', S.ReachableWhen guard t → (t, a) ∈ l → S.step t a = some t' →
      (P t' ↔ sets (t, a) ∨ ¬ clears (t, a) ∧ P t)) : P s ↔ Lasting sets clears l := by
  induction h with
  | init => exact iff_of_false hinit id
  | step hr _ hs ih =>
    rw [hstep _ _ _ hr.reachableWhen List.mem_cons_self hs,
      ih fun t a t' ht hmem => hstep t a t' ht (List.mem_cons_of_mem _ hmem)]
    exact Iff.rfl

/-! ## Paths -/

/-- From the first state to the second by steps that meet `guard`. -/
def PathWhen (S : System σ α) (guard : σ → α → Prop) : σ → σ → Prop :=
  Relation.ReflTransGen fun s s' => ∃ a, guard s a ∧ S.step s a = some s'

theorem ReachableWhen.path {guard guard' : σ → α → Prop} (hg : ∀ s a, guard' s a → guard s a)
    {s s' : σ} (h : S.ReachableWhen guard s) (hp : S.PathWhen guard' s s') :
    S.ReachableWhen guard s' := by
  induction hp with
  | refl => exact h
  | tail _ hs ih =>
    obtain ⟨a, ha, hs⟩ := hs
    exact .step ih (hg _ _ ha) hs

theorem PathWhen.mono {guard guard' : σ → α → Prop} (hg : ∀ s a, guard s a → guard' s a)
    {s s' : σ} (h : S.PathWhen guard s s') : S.PathWhen guard' s s' := by
  induction h with
  | refl => exact .refl
  | tail _ hs ih =>
    obtain ⟨a, ha, hs⟩ := hs
    exact ih.tail ⟨a, hg _ _ ha, hs⟩

theorem PathWhen.keeps {guard : σ → α → Prop} {P : σ → Prop}
    (hstep : ∀ s a s', S.Reachable s → guard s a → S.step s a = some s' → P s → P s') {s s' : σ}
    (h : S.PathWhen guard s s') (hr : S.Reachable s) (hP : P s) : P s' := by
  induction h with
  | refl => exact hP
  | tail hpath hs ih =>
    obtain ⟨a, ha, hs⟩ := hs
    exact hstep _ a _ (hr.path (fun _ _ _ => trivial) hpath) ha hs ih

/-- The rule for progress: while the goal is not reached some step goes on and lowers the
rank, so some path reaches the goal. -/
theorem exists_path {guard guard' : σ → α → Prop} {P G : σ → Prop} (rank : σ → Nat)
    (hg : ∀ s a, guard' s a → guard s a)
    (hstep : ∀ s, S.ReachableWhen guard s → P s → G s ∨ ∃ a s', guard' s a ∧
      S.step s a = some s' ∧ P s' ∧ rank s' < rank s)
    {s : σ} (h : S.ReachableWhen guard s) (hP : P s) : ∃ s', S.PathWhen guard' s s' ∧ G s' := by
  induction hr : rank s using Nat.strongRecOn generalizing s with
  | _ n ih =>
    rcases hstep s h hP with hG | ⟨a, s₁, ha, hs, hP₁, hlt⟩
    · exact ⟨s, .refl, hG⟩
    · obtain ⟨s', hpath, hG⟩ := ih (rank s₁) (by omega) (h.step (hg s a ha) hs) hP₁ rfl
      exact ⟨s', .head ⟨a, ha, hs⟩ hpath, hG⟩

/-! ## Concrete runs -/

/-- Run a list of actions. -/
def exec (S : System σ α) : σ → List α → Option σ
  | s, [] => some s
  | s, a :: rest => (S.step s a).bind fun s' => S.exec s' rest

/-- Run a list of actions, stopping at a step that does not meet the condition. -/
def execWhen (S : System σ α) (guard : σ → α → Bool) : σ → List α → Option σ
  | s, [] => some s
  | s, a :: rest =>
    if guard s a then (S.step s a).bind fun s' => S.execWhen guard s' rest else none

/-- A run whose steps pass a test that implies the condition. -/
theorem ReachableWhen.execWhen {guard : σ → α → Prop} {g : σ → α → Bool}
    (hg : ∀ s a, g s a = true → guard s a) {s s' : σ} {l : List α}
    (h : S.ReachableWhen guard s) (he : S.execWhen g s l = some s') :
    S.ReachableWhen guard s' := by
  induction l generalizing s with
  | nil =>
    cases he
    exact h
  | cons a rest ih =>
    unfold System.execWhen at he
    split at he
    · rename_i ha
      obtain ⟨s₁, hs, hrest⟩ := Option.bind_eq_some_iff.mp he
      exact ih (.step h (hg s a ha) hs) hrest
    · cases he

theorem reachable_of_exec {s s' : σ} {l : List α} (h : S.Reachable s)
    (he : S.exec s l = some s') : S.Reachable s' := by
  induction l generalizing s with
  | nil =>
    cases he
    exact h
  | cons a rest ih =>
    obtain ⟨s₁, hs, hrest⟩ := Option.bind_eq_some_iff.mp he
    exact ih (h.next hs) hrest

theorem path_of_exec {s s' : σ} {l : List α} (he : S.exec s l = some s') :
    S.PathWhen (fun _ _ => True) s s' := by
  induction l generalizing s with
  | nil =>
    cases he
    exact .refl
  | cons a rest ih =>
    obtain ⟨s₁, hs, he⟩ := Option.bind_eq_some_iff.mp he
    exact .head ⟨a, trivial, hs⟩ (ih he)

theorem exec_append {s s' : σ} {l l' : List α} (he : S.exec s l = some s') :
    S.exec s (l ++ l') = S.exec s' l' := by
  induction l generalizing s with
  | nil =>
    cases he
    rfl
  | cons a rest ih =>
    obtain ⟨s₁, hs, hrest⟩ := Option.bind_eq_some_iff.mp he
    change (S.step s a).bind (fun s' => S.exec s' (rest ++ l')) = _
    rw [hs]
    exact ih hrest

/-- The steps of a list of actions, newest first. -/
def trail (S : System σ α) : σ → List α → List (σ × α)
  | _, [] => []
  | s, a :: rest => ((S.step s a).elim [] fun s' => S.trail s' rest) ++ [(s, a)]

theorem mem_trail {s : σ} {actions : List α} {p : σ × α} (h : p ∈ S.trail s actions) :
    p.2 ∈ actions := by
  induction actions generalizing s with
  | nil => cases h
  | cons a rest ih =>
    rcases List.mem_append.mp h with h | h
    · cases hs : S.step s a with
      | none =>
        rw [hs] at h
        cases h
      | some s' =>
        rw [hs] at h
        exact List.mem_cons_of_mem a (ih h)
    · rw [List.mem_singleton.mp h]
      exact List.mem_cons_self

theorem length_trail_le (s : σ) (actions : List α) :
    (S.trail s actions).length ≤ actions.length := by
  induction actions generalizing s with
  | nil => exact Nat.le_refl _
  | cons a rest ih =>
    rw [trail, List.length_append, List.length_singleton, List.length_cons]
    refine Nat.succ_le_succ ?_
    cases S.step s a with
    | none => exact Nat.zero_le _
    | some s' => exact ih s'

theorem RunWhen.exec {l : List (σ × α)} {s s' : σ} {actions : List α}
    (h : S.RunWhen (fun _ _ => True) l s) (he : S.exec s actions = some s') :
    S.RunWhen (fun _ _ => True) (S.trail s actions ++ l) s' := by
  induction actions generalizing s l with
  | nil =>
    cases he
    exact h
  | cons a rest ih =>
    obtain ⟨s₁, hs, hrest⟩ := Option.bind_eq_some_iff.mp he
    have hrun := ih (.step h trivial hs) hrest
    rw [trail, hs, Option.elim_some, List.append_assoc]
    exact hrun

/-- A run from the start that ends in a state with a decidable property, as its trail. -/
theorem exists_run_of_exec {l : List α} {p : σ → Bool} {q : List (σ × α) → Bool}
    (h : ((S.exec S.init l).any p && q (S.trail S.init l)) = true) :
    ∃ trail s, S.RunWhen (fun _ _ => True) trail s ∧ p s = true ∧ q trail = true := by
  rw [Bool.and_eq_true, Option.any_eq_true] at h
  obtain ⟨⟨s, hs, hp⟩, hq⟩ := h
  have hrun := RunWhen.exec .init hs
  rw [List.append_nil] at hrun
  exact ⟨_, s, hrun, hp, hq⟩

/-- A run that ends in a state with a decidable property gives a reachable state with it. -/
theorem exists_reachable_of_exec {l : List α} {p : σ → Bool}
    (h : (S.exec S.init l).map p = some true) : ∃ s, S.Reachable s ∧ p s = true := by
  obtain ⟨s, hs, hp⟩ := Option.map_eq_some_iff.mp h
  exact ⟨s, reachable_of_exec .init hs, hp⟩

theorem ReachableWhen.exists_execWhen {guard : σ → α → Prop} {g : σ → α → Bool} {s : σ}
    {l : List α} {p : σ → Bool} (h : S.ReachableWhen guard s)
    (hg : ∀ s a, g s a = true → guard s a) (he : (S.execWhen g s l).map p = some true) :
    ∃ s', S.ReachableWhen guard s' ∧ p s' = true := by
  obtain ⟨s', hs, hp⟩ := Option.map_eq_some_iff.mp he
  exact ⟨s', h.execWhen hg hs, hp⟩

theorem exists_reachableWhen_of_execWhen {g : σ → α → Bool} {l : List α} {p : σ → Bool}
    (h : (S.execWhen g S.init l).map p = some true) :
    ∃ s, S.ReachableWhen (fun s a => g s a = true) s ∧ p s = true :=
  ReachableWhen.exists_execWhen .init (fun _ _ h => h) h

end System

end WsIo.Async
