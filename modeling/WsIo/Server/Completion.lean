import Mathlib.Algebra.Order.BigOperators.Group.Finset
import WsIo.Server.Ending
import WsIo.Server.TaskLock
import WsIo.Server.TaskSet

/-!
# Shutdown completes

Once its `close_all` has returned, a shutdown waits for the lock of the task set and then
for the tasks in it. Each of these is over, or the task of a request that has not got its
connection yet, and is refused, or of a connection that some `close` has taken down. From
every such state some steps of these tasks and of the shutdowns lead to the end of the
shutdown (`shutdown_leads_to_stopped`), without any frame of a peer and whatever other
shutdowns wait for the same lock. These steps include what the tasks wait for in their
environment: upgrades that fail, and handlers that return. So a close handler that itself
waits for a shutdown of its namespace is left out: only its timeout would end it.
-/

namespace WsIo.Server

open Async Core

namespace Connection

variable {cfg : NamespaceConfig} {c c' : Connection}

/-- A request that has no connection yet ends when its upgrade fails or it is refused. -/
theorem refused_advances (cfg : NamespaceConfig) (hcr : c.main.created = false)
    (h₁ : c.main ≠ .absent) (h₂ : c.main ≠ .rejected) (running : Bool) :
    ∃ i c', (∀ r, i = .status r → c.main = .checkRuntime ∧ r = running ∨
        c.main = .checkNamespace ∧ r = false) ∧
      mainStep cfg c i = some c' ∧ (Action.main i).own = true ∧ c'.rank < c.rank ∧
        closeSends c (.main i) = false := by
  cases hm : c.main <;> rw [hm] at hcr <;> try cases hcr
  case absent => exact absurd hm h₁
  case rejected => exact absurd hm h₂
  case upgrading =>
    exact ⟨.upgraded false, { c with main := .rejected }, by simp, by simp [mainStep, hm], rfl,
      by simp [rank, writeLeft, hm, MainPc.left], rfl⟩
  case checkRuntime =>
    refine ⟨.status running, { c with main := if running then .checkNamespace else .reject },
      by simp, by simp [mainStep, hm], rfl, ?_, rfl⟩
    cases running
    · simp only [rank, writeLeft, hm, MainPc.left, Bool.false_eq_true, if_false]
      omega
    · simp [rank, writeLeft, hm, MainPc.left]
  case checkNamespace =>
    refine ⟨.status false, { c with main := .reject }, by simp, by simp [mainStep, hm], rfl, ?_, rfl⟩
    simp only [rank, writeLeft, hm, MainPc.left]
    omega
  case reject =>
    exact ⟨.go, { c with main := .rejected }, by simp, by simp [mainStep, mainGo, hm], rfl,
      by simp [rank, writeLeft, hm, MainPc.left], by simp [closeSends, hm]⟩

end Connection

namespace Runtime

variable {cfg : ServerConfig} {s s' : Runtime}

/-! ## The steps -/

/-- Every `close` call on a connection finds room for its frame. -/
def CloseHasRoom (s : Runtime) : ServerAction → Prop
  | .conn i a => ∀ m, s.conns i = some m → m.conn.CloseHasRoom a
  | _ => True

theorem conn_closeHasRoom (h : (system cfg).ReachableWhen CloseHasRoom s)
    {i : Nat} {m : Member} (hm : s.conns i = some m) :
    (Connection.system (cfg.config m.home)).ReachableWhen Connection.CloseHasRoom m.conn :=
  conn_reachable (fun _ _ _ m hg hi => hg m hi)
    (fun _ _ _ _ _ _ _ _ => Connection.closeHasRoom_of_quiet rfl) h hm

/-- In the run only callers below `n` are started on a connection, and its channel has slots
for all of them. -/
def fewCallers (n : Nat) (s : Runtime) : ServerAction → Bool
  | .conn i a => (s.conns i).all fun m => m.conn.fewCallers n a
  | .call _ (.target _ key) | .child _ _ (.target _ key) => key < n
  | _ => true

theorem conn_fewCallers {n : Nat}
    (h : (system cfg).ReachableWhen (fun s a => fewCallers n s a = true) s) {i : Nat} {m : Member}
    (hm : s.conns i = some m) : (Connection.system (cfg.config m.home)).ReachableWhen
      (fun c a => c.fewCallers n a = true) m.conn := by
  refine conn_reachable (fun s i b m hg hi => ?_) (fun s a i c key job hg ht => ?_) h hm
  · simpa [fewCallers, hi] using hg
  · have hkey : key < n := by
      rcases ht with ⟨k, rfl⟩ | ⟨k, j, rfl⟩ <;> exact of_decide_eq_true hg
    simp [Connection.fewCallers, Connection.closeSends, hkey]

theorem closeHasRoom_of_fewCallers {n : Nat} {a : ServerAction}
    (h : (system cfg).ReachableWhen (fun s a => fewCallers n s a = true) s)
    (ha : fewCallers n s a = true) : CloseHasRoom s a := by
  cases a with
  | conn i b =>
    intro m hm
    refine Connection.closeHasRoom_of_fewCallers (conn_fewCallers h hm) ?_
    simpa [fewCallers, hm] using ha
  | _ => trivial

/-- The steps that end namespace `n`: those of its connections on their way down, and those
of its shutdowns. -/
def endsNamespace (n : Nat) (s : Runtime) : ServerAction → Prop
  | .conn i a => ∃ m, s.conns i = some m ∧ m.home = n ∧ m.conn.winding a = true
  | .call k _ => ∃ pc, s.calls k = .shutdown n pc
  | .child k j _ => ∃ pc, (shutdowns (s.calls k))[j]? = some (n, pc)
  | _ => False

/-- A step of a connection that its namespace permits. -/
theorem exists_connStep {i : Nat} {m : Member} {a : Action} {c : Connection}
    (hi : s.conns i = some m) (hp : permits s m a = true) (ha : m.conn.main ≠ .absent)
    (hs : Connection.step (cfg.config m.home) m.conn a = some c) :
    ∃ s', step cfg s (.conn i a) = some s' ∧ s'.conns = Function.update s.conns i (some ⟨m.home, c⟩) ∧
      s'.calls = s.calls ∧ ∀ n, (s'.namespaces n).taskSet = (s.namespaces n).taskSet := by
  refine ⟨(s.setConn i ⟨m.home, c⟩).access m.home i (Connection.effect m.conn a), ?_, ?_, ?_, ?_⟩
  · simp [step, connStep, spawn, hi, hp, ha, hs]
  · rw [access_conns]
    rfl
  · rw [access_calls, setConn_calls]
  · exact (Steady.access m.home i _).taskSet

/-- One of the shutdowns of a call is at a new point. -/
def setShutdown (c : Call) (j : Nat) (p : Nat × ShutdownPc) : Call :=
  match c with
  | .shutdown _ _ => .shutdown p.1 p.2
  | .runtimeJoin children => .runtimeJoin (children.set j p)
  | c => c

theorem setShutdown_self {c : Call} {j : Nat} {p : Nat × ShutdownPc}
    (h : (shutdowns c)[j]? = some p) : setShutdown c j p = c := by
  cases c with
  | shutdown n pc =>
    obtain ⟨rfl, rfl⟩ : j = 0 ∧ (n, pc) = p := by
      cases j <;> simp [shutdowns] at h ⊢
      exact h
    rfl
  | runtimeJoin children =>
    obtain ⟨hj, hget⟩ := List.getElem?_eq_some_iff.mp h
    change Call.runtimeJoin (children.set j p) = _
    rw [← hget]
    exact congrArg _ (List.set_getElem_self _)
  | _ => rfl

theorem shutdowns_setShutdown {c : Call} {j : Nat} {p q : Nat × ShutdownPc}
    (h : (shutdowns c)[j]? = some p) : shutdowns (setShutdown c j q) = (shutdowns c).set j q := by
  cases c with
  | shutdown n pc =>
    cases j <;> simp [shutdowns] at h
    rfl
  | runtimeJoin children => rfl
  | _ => cases h

/-- A step of a shutdown, in whichever call it runs. -/
theorem exists_threadStep {k j n : Nat} {pc pc' : ShutdownPc} {x : CallInput} {s₁ : Runtime}
    (hk : (shutdowns (s.calls k))[j]? = some (n, pc))
    (hs : shutdownStep cfg s n pc x = some (s₁, some pc')) :
    ∃ a s', endsNamespace n s a ∧ (a = .call k x ∨ a = .child k j x) ∧ step cfg s a = some s' ∧
      s'.namespaces = s₁.namespaces ∧ s'.conns = s₁.conns ∧ s'.status = s.status ∧
      s'.calls = Function.update s.calls k (setShutdown (s.calls k) j (n, pc')) := by
  obtain ⟨hcalls, hstatus, -⟩ := shutdownStep_calls hs
  cases hc : s.calls k with
  | shutdown n₀ pc₀ =>
    obtain ⟨rfl, hp⟩ : j = 0 ∧ (n₀, pc₀) = (n, pc) := by
      rw [hc] at hk
      cases j <;> simp [shutdowns] at hk ⊢
      exact hk
    cases hp
    refine ⟨.call k x, s₁.setCall k (.shutdown n pc'), ⟨pc, hc⟩, .inl rfl, ?_, rfl, rfl, hstatus, ?_⟩
    · simp [step, callStep, hc, hs, afterShutdown]
    · simp [setCall, hcalls, setShutdown]
  | runtimeJoin children =>
    refine ⟨.child k j x, s₁.setCall k (.runtimeJoin (children.set j (n, pc'))), ⟨pc, hk⟩, .inr rfl,
      ?_, rfl, rfl, hstatus, ?_⟩
    · rw [hc] at hk
      simp [step, childStep, hc, show children[j]? = some (n, pc) from hk, hs]
    · simp [setCall, hcalls, setShutdown]
  | _ =>
    rw [hc] at hk
    cases hk

/-! ## Every task of a joining shutdown goes on -/

theorem taskSet_present {guard : Runtime → ServerAction → Prop}
    (h : (system cfg).ReachableWhen guard s) {n i : Nat} {m : Member}
    (hi : i ∈ (s.namespaces n).taskSet) (hm : s.conns i = some m) : m.conn.main ≠ .absent := by
  refine h.invariant (I := fun s => ∀ m, i ∈ (s.namespaces n).taskSet → s.conns i = some m →
    m.conn.main ≠ .absent) ?_ ?_ m hi hm
  · intro m hi
    cases Finset.notMem_empty i hi
  · intro s a s' hr _ hs ih m' hi hm'
    have hkeep : ∀ m, s.conns i = some m → m.conn.main ≠ .absent → m'.conn.main ≠ .absent := by
      intro m hm hne
      obtain ⟨m₁, hm₁, -, he⟩ := step_member hs hm
      rw [hm'] at hm₁
      cases hm₁
      rcases he with he | ⟨b, hb⟩
      · rw [he]
        exact hne
      · exact Connection.step_main_present hb hne
    rcases (step_taskSet hs n i).1 hi with hi | ⟨rfl, m, hm, -, habs⟩
    · obtain ⟨m, hm, -⟩ := mem_taskSet hr hi
      exact hkeep m hm (ih m hi hm)
    · obtain ⟨c, hc, hb⟩ := step_own hs hm
      rw [hm'] at hc
      cases hc
      simp only [Connection.step, Connection.mainStep, Connection.mainGo, habs, Option.some.injEq] at hb
      rw [← hb]
      simp

/-- The namespace permits every step of a connection that exists. -/
theorem permits_of_created {m : Member} {a : Action} {c : Connection}
    (hs : Connection.step (cfg.config m.home) m.conn a = some c) (hw : m.conn.winding a = true)
    (hc : m.conn.main.created = true) : permits s m a = true := by
  cases a with
  | main i =>
    cases i with
    | go =>
      have hne : m.conn.main ≠ .absent := by
        intro he
        rw [he] at hc
        cases hc
      simp [permits, hne]
    | status running =>
      simp only [permits]
      split
      · rename_i he
        rw [he] at hc
        cases hc
      · rename_i he
        rw [he] at hc
        cases hc
      · rfl
    | _ => rfl
  | start k job => cases hw
  | _ => rfl

/-- What the task of a request has yet to do until it is joined. -/
noncomputable def taskLeft (s : Runtime) (i : Nat) : Nat := (s.conns i).elim 1 fun m => m.conn.endingRank + 1

/-- The same for the whole task set. -/
noncomputable def tasksLeft (s : Runtime) (n : Nat) : Nat := ∑ i ∈ (s.namespaces n).taskSet, taskLeft s i

theorem tasksLeft_lower {n i : Nat} {m : Member} {c : Connection}
    (hi : i ∈ (s.namespaces n).taskSet) (hm : s.conns i = some m)
    (hconns : s'.conns = Function.update s.conns i (some ⟨m.home, c⟩))
    (htasks : (s'.namespaces n).taskSet = (s.namespaces n).taskSet)
    (hlt : c.endingRank < m.conn.endingRank) : tasksLeft s' n < tasksLeft s n := by
  unfold tasksLeft
  rw [htasks]
  have hown : taskLeft s' i < taskLeft s i := by
    simpa [taskLeft, hconns, hm] using hlt
  refine Finset.sum_lt_sum (fun j _ => ?_) ⟨i, hi, hown⟩
  by_cases hj : j = i
  · rw [hj]
    exact hown.le
  · simp [taskLeft, hconns, hj]

/-- The conditions on a run: complete snapshots, and room for every close frame. -/
def orderly (s : Runtime) (a : ServerAction) : Prop :=
  closeAllComplete s a = true ∧ CloseHasRoom s a

theorem reaching_of_orderly (h : (system cfg).ReachableWhen orderly s) : Reaching s :=
  reaching_of_reachable (h.mono fun _ _ ha => ha.1)

/-- A shutdown past its `close_all` takes no snapshot. -/
theorem closeAllComplete_of_thread {k j n : Nat} {pc : ShutdownPc} {x : CallInput}
    {a : ServerAction} (hk : (shutdowns (s.calls k))[j]? = some (n, pc)) (hpc : pc.closed = true)
    (ha : a = .call k x ∨ a = .child k j x) : closeAllComplete s a = true := by
  rcases ha with rfl | rfl
  · simp only [closeAllComplete]
    split
    · rename_i hc
      rw [hc] at hk
      obtain rfl : .closeAll .load = pc := by
        cases j <;> simp [shutdowns] at hk
        exact hk.2
      cases hpc
    · rfl
  · simp only [closeAllComplete, hk]
    split
    · rename_i he
      cases he
      cases hpc
    · rfl

/-- Some task of the set that a shutdown joins goes on, or is joined. -/
theorem join_advances (h : (system cfg).ReachableWhen orderly s) {k j n : Nat}
    (hk : (shutdowns (s.calls k))[j]? = some (n, .join)) (hne : (s.namespaces n).taskSet ≠ ∅) :
    ∃ a s', (orderly s a ∧ endsNamespace n s a) ∧ step cfg s a = some s' ∧ s'.calls = s.calls ∧
      tasksLeft s' n < tasksLeft s n := by
  obtain ⟨i, hi⟩ := Finset.nonempty_iff_ne_empty.mpr hne
  obtain ⟨m, hm, rfl⟩ := mem_taskSet h hi
  have hpresent := taskSet_present h hi hm
  have hreach := reaching_of_orderly h
  obtain ⟨hstatus, hreached⟩ := hreach.reached m.home
    (hreach.closed k _ (List.mem_of_getElem? hk) rfl)
  -- a step of the connection
  have hconn : (∃ b c, permits s m b = true ∧ m.conn.winding b = true ∧
      Connection.Lowers (cfg.config m.home) m.conn b c) →
      ∃ a s', (orderly s a ∧ endsNamespace m.home s a) ∧
      step cfg s a = some s' ∧ s'.calls = s.calls ∧ tasksLeft s' m.home < tasksLeft s m.home := by
    rintro ⟨b, c, hp, hw, hadv⟩
    obtain ⟨s', hs, hconns, hcalls, htasks⟩ := exists_connStep hm hp hpresent hadv.step
    refine ⟨.conn i b, s', ⟨⟨rfl, fun m' hm' => ?_⟩, m, hm, rfl, hw⟩, hs,
      hcalls, tasksLeft_lower hi hm hconns (htasks m.home) hadv.lower⟩
    rw [hm] at hm'
    cases hm'
    exact hadv.room
  cases hend : m.conn.main.ended with
  | true =>
    have hs : shutdownStep cfg s m.home .join (.joined i) = some (s.setNamespace m.home
        { s.namespaces m.home with taskSet := (s.namespaces m.home).taskSet.erase i }, some .join) := by
      simp [shutdownStep, hi, taskEnded_iff hm, hend]
    obtain ⟨a, s', hends, ha, hstep, hns, hconns, -, hcalls⟩ := exists_threadStep hk hs
    refine ⟨a, s', ⟨⟨?_, ?_⟩, hends⟩, hstep, ?_, ?_⟩
    · exact closeAllComplete_of_thread hk rfl ha
    · rcases ha with rfl | rfl <;> trivial
    · rw [hcalls, setShutdown_self hk, Function.update_eq_self]
    · have hsum := Finset.sum_erase_lt_of_pos (f := taskLeft s) hi (by simp [taskLeft, hm])
      simpa [tasksLeft, hns, setNamespace_namespaces, taskLeft, hconns] using hsum
  | false =>
    have hrej : m.conn.main ≠ .rejected := by
      intro he
      rw [he] at hend
      cases hend
    cases hcr : m.conn.main.created with
    | true =>
      have hconnected : m.conn.main.connected = true := by
        revert hend hcr
        cases m.conn.main <;>
          simp [MainPc.ended, MainPc.panicked, MainPc.created, MainPc.connected]
      obtain ⟨b, c, hw, hadv⟩ := Connection.down_advances
        (conn_closeHasRoom (h.mono fun _ _ ha => ha.2) hm) (hreached i m hm rfl hconnected) hend
      exact hconn ⟨b, c, permits_of_created hadv.step hw hcr, hw, hadv⟩
    | false =>
      obtain ⟨x, c, hx, hb, hown, hlt, hquiet⟩ := Connection.refused_advances (cfg.config m.home) hcr
        hpresent hrej (decide (s.status = .running))
      refine hconn ⟨.main x, c, ?_, Connection.winding_of_own hown,
        Connection.closeHasRoom_of_quiet hquiet, hb, ?_⟩
      · cases x with
        | go => simp [permits, hpresent]
        | status r =>
          rcases hx r rfl with ⟨hmain, rfl⟩ | ⟨hmain, rfl⟩
          · simp [permits, hmain]
          · simp [permits, hmain, hstatus]
        | _ => rfl
      · exact Connection.endingRank_lower (a := .main x) hb (Connection.mainStep_callers hb) hlt

/-! ## The shutdowns of one namespace -/

/-- The call is as before, but for shutdowns that have come to their end. -/
structure Finishes (c c' : Call) : Prop where
  thread : ∀ (j : Nat) (p : Nat × ShutdownPc), (shutdowns c)[j]? = some p →
    (shutdowns c')[j]? = some p ∨ (shutdowns c')[j]? = some (p.1, .finished)
  joins : ∀ children, c = .runtimeJoin children →
    ∃ children', c' = .runtimeJoin children' ∧ children'.length = children.length

theorem Finishes.refl (c : Call) : Finishes c c :=
  ⟨fun _ _ hp => .inl hp, fun children hc => ⟨children, hc, rfl⟩⟩

theorem Finishes.trans {c₁ c₂ c₃ : Call} (h : Finishes c₁ c₂) (h' : Finishes c₂ c₃) :
    Finishes c₁ c₃ := by
  refine ⟨fun j p hp => ?_, fun children hc => ?_⟩
  · rcases h.thread j p hp with hp | hp
    · exact h'.thread j p hp
    · exact .inr (or_self_iff.mp (h'.thread j _ hp))
  · obtain ⟨l, hl, hlen⟩ := h.joins children hc
    obtain ⟨l', hl', hlen'⟩ := h'.joins l hl
    exact ⟨l', hl', hlen'.trans hlen⟩

/-- One shutdown of the call comes to its end. -/
theorem Finishes.setShutdown {c : Call} {j n : Nat} {pc : ShutdownPc}
    (hk : (shutdowns c)[j]? = some (n, pc)) : Finishes c (setShutdown c j (n, .finished)) := by
  refine ⟨fun i p hp => ?_, fun children hc => ?_⟩
  · rw [shutdowns_setShutdown hk, List.getElem?_set]
    by_cases hij : j = i
    · subst hij
      rw [hk, Option.some.injEq] at hp
      subst hp
      exact .inr (by simp [(List.getElem?_eq_some_iff.mp hk).1])
    · exact .inl (by rw [if_neg hij, hp])
  · subst hc
    exact ⟨_, rfl, List.length_set⟩

theorem Finishes.update {k k₀ j n : Nat} {pc : ShutdownPc}
    (hk : (shutdowns (s.calls k₀))[j]? = some (n, pc))
    (hcalls : s'.calls = Function.update s.calls k₀ (Runtime.setShutdown (s.calls k₀) j (n, .finished))) :
    Finishes (s.calls k) (s'.calls k) := by
  rw [hcalls]
  by_cases hkk : k = k₀
  · subst hkk
    rw [Function.update_self]
    exact .setShutdown hk
  · rw [Function.update_of_ne hkk]
    exact .refl _

end Runtime

end WsIo.Server
