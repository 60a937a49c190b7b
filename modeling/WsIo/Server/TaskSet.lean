import Mathlib.Data.Set.Card
import WsIo.Server.CloseAll

/-!
# What the task set of a running namespace holds

`handle_on_upgrade_request` spawns the task of a request into `connection_task_set`, and
only `shutdown` takes tasks out, by `join_next`. A `JoinSet` keeps a task that has finished
until it is taken out, so while the namespace runs the set holds the task of every request
that it was ever handed (`taskSet_of_running`), and it is as large as the claim on live
tasks allows only as long as none of them has finished (`taskSet_live_iff`).
-/

namespace WsIo.Server

open Async Core

namespace Connection

variable {cfg : NamespaceConfig} {c c' : Connection}

/-- The step is the last of the task of its request: the upgrade failed or timed out, the
refused connection has been told, the connection's `cleanup` stores `Closed`, or a handler
panics. -/
def endsTask (c : Connection) : Action → Bool
  | .main (.upgraded ok) => !ok && c.main = .upgrading
  | .main .go => c.main = .reject || c.main = .storeClosed
  | .main .panicked => true
  | _ => false

/-- A task is over when it was over before, or by its last step. -/
theorem step_ended_iff {a : Action} (h : step cfg c a = some c') :
    c'.main.ended = true ↔ c.main.ended = true ∨ endsTask c a = true := by
  by_cases ha : ∃ i, a = .main i
  · obtain ⟨i, rfl⟩ := ha
    simp only [step] at h
    cases i with
    | go =>
      simp only [mainStep] at h
      unfold mainGo at h
      split at h
      all_goals grind [tryTransition, ensure, sendPacket_ok, MainPc.ended, MainPc.panicked, endsTask,
        afterRemove_cases]
    | upgraded ok =>
      simp only [mainStep] at h
      split at h
      · rename_i hm
        cases h
        cases ok <;> simp [hm, MainPc.ended, MainPc.panicked, endsTask]
      · cases h
    | status running => cases running <;> grind [mainStep, MainPc.ended, MainPc.panicked, endsTask]
    | _ => grind [mainStep, MainPc.ended, MainPc.panicked, endsTask]
  · push Not at ha
    rw [step_main h ha]
    have hends : endsTask c a = false := by
      cases a with
      | main i => exact absurd rfl (ha i)
      | _ => rfl
    rw [hends]
    simp

theorem step_main_present {a : Action} (h : step cfg c a = some c') (hm : c.main ≠ .absent) :
    c'.main ≠ .absent := by
  by_cases ha : ∃ i, a = .main i
  · obtain ⟨i, rfl⟩ := ha
    simp only [step] at h
    cases i with
    | go =>
      simp only [mainStep] at h
      unfold mainGo at h
      split at h
      all_goals grind [tryTransition, ensure, sendPacket_ok, afterRemove_cases]
    | status running => cases running <;> grind [mainStep]
    | _ => grind [mainStep]
  · push Not at ha
    rw [step_main h ha]
    exact hm

end Connection

namespace Runtime

variable {cfg : ServerConfig} {s s' : Runtime}

/-! ## Requests -/

/-- The namespace is handling the request: its task has been spawned and is not over. -/
def Handles (s : Runtime) (n i : Nat) : Prop :=
  ∃ m, s.conns i = some m ∧ m.home = n ∧ m.conn.main ≠ .absent ∧ m.conn.main.ended = false

/-- Every retained task belongs to a request in progress, and there are no more of them than
such requests. -/
def TaskSetLive (s : Runtime) (n : Nat) : Prop :=
  (∀ i ∈ (s.namespaces n).taskSet, Handles s n i) ∧
    (s.namespaces n).taskSet.card ≤ Set.ncard {i | Handles s n i}

/-- The step ends the handling of a request to the namespace. -/
def endsRequest (s : Runtime) (n : Nat) : ServerAction → Bool
  | .conn i b => (s.conns i).any fun m => m.home = n && Connection.endsTask m.conn b
  | _ => false

/-- The handling of some request to the namespace is over. -/
def SomeEnded (s : Runtime) (n : Nat) : Prop :=
  ∃ i m, s.conns i = some m ∧ m.home = n ∧ m.conn.main.ended = true

theorem step_member {a : ServerAction} (h : step cfg s a = some s') {i : Nat} {m : Member}
    (hi : s.conns i = some m) : ∃ m', s'.conns i = some m' ∧ m'.home = m.home ∧
      (m'.conn = m.conn ∨ ∃ b, Connection.step (cfg.config m.home) m.conn b = some m'.conn) := by
  obtain ⟨m', hm', hhome⟩ := step_persists h hi
  refine ⟨m', hm', hhome, ?_⟩
  rcases step_conn h hm' with ⟨-, hnone, -⟩ | ⟨m₀, hm₀, -, he⟩
  · rw [hi] at hnone
    cases hnone
  · rw [hi] at hm₀
    cases hm₀
    exact he.imp_right fun ⟨b, _, hb⟩ => ⟨b, hb⟩

/-- A step of the server that is a step of one connection. -/
theorem step_own {i : Nat} {b : Action} (h : step cfg s (.conn i b) = some s') {m : Member}
    (hi : s.conns i = some m) : ∃ c, s'.conns i = some ⟨m.home, c⟩ ∧
      Connection.step (cfg.config m.home) m.conn b = some c := by
  simp only [step, hi] at h
  split at h
  · obtain ⟨s₁, hs, rfl⟩ := Option.map_eq_some_iff.mp h
    simp only [connStep, hi] at hs
    split at hs
    · cases hs
    · rename_i c hc
      cases hs
      refine ⟨c, ?_, hc⟩
      rw [spawn_conns, access_conns, setConn_conns, if_pos rfl]
  · cases h

theorem step_someEnded {a : ServerAction} (h : step cfg s a = some s') (n : Nat) :
    SomeEnded s' n ↔ SomeEnded s n ∨ endsRequest s n a = true := by
  constructor
  · rintro ⟨i, m', hi, rfl, hend⟩
    rcases step_conn h hi with ⟨-, -, he⟩ | ⟨m, hm, hhome, he⟩
    · rw [he] at hend
      cases hend
    · rcases he with he | ⟨b, hb, he⟩
      · rw [he] at hend
        exact .inl ⟨i, m, hm, hhome.symm, hend⟩
      · rcases (Connection.step_ended_iff he).mp hend with hend | hend
        · exact .inl ⟨i, m, hm, hhome.symm, hend⟩
        · rcases hb with ⟨rfl, -⟩ | ⟨key, job, -, rfl⟩
          · refine .inr ?_
            simp [endsRequest, hm, hhome, hend]
          · cases hend
  · rintro (⟨i, m, hm, rfl, hend⟩ | hend)
    · obtain ⟨m', hm', hhome, he⟩ := step_member h hm
      refine ⟨i, m', hm', hhome, ?_⟩
      rcases he with he | ⟨b, hb⟩
      · rw [he]
        exact hend
      · exact (Connection.step_ended_iff hb).mpr (.inl hend)
    · cases a with
      | conn i b =>
        simp only [endsRequest, Option.any_eq_true, Bool.and_eq_true, decide_eq_true_eq] at hend
        obtain ⟨m, hm, rfl, hend⟩ := hend
        obtain ⟨c, hc, hs⟩ := step_own h hm
        exact ⟨i, _, hc, rfl, (Connection.step_ended_iff hs).mpr (.inr hend)⟩
      | _ => cases hend

theorem someEnded_of_run {l : List (Runtime × ServerAction)}
    (h : (system cfg).RunWhen (fun _ _ => True) l s) (n : Nat) :
    SomeEnded s n ↔ ∃ p ∈ l, endsRequest p.1 n p.2 = true := by
  induction h with
  | init =>
    constructor
    · rintro ⟨i, m, hi, -⟩
      cases hi
    · rintro ⟨p, hp, -⟩
      cases hp
  | step _ _ hs ih =>
    rw [step_someEnded hs n, ih, List.exists_mem_cons_iff]
    exact Or.comm

/-! ## The task set -/

/-- Only the `join_next` of a shutdown takes tasks out. -/
theorem shutdownStep_keeps {n n' : Nat} {pc : ShutdownPc} {x : CallInput} {r : Option ShutdownPc}
    (h : shutdownStep cfg s n pc x = some (s', r)) (hne : n' ≠ n ∨ pc ≠ .join) :
    (s'.namespaces n').taskSet = (s.namespaces n').taskSet := by
  unfold shutdownStep at h
  dsimp only at h
  split at h
  · split at h <;> cases h <;> rfl
  · cases h
    exact setNamespace_field (·.taskSet) (by rfl) n'
  · split at h
    · cases h
    · rename_i s₁ b' hb
      cases h
      exact (broadcastStep_steady hb).1.taskSet n'
    · rename_i s₁ hb
      cases h
      obtain ⟨rfl, -⟩ := broadcastStep_none hb
      exact setNamespace_field (·.taskSet) (by rfl) n'
  · split at h <;> cases h
    exact setNamespace_field (·.taskSet) (by rfl) n'
  · split at h <;> cases h
    rw [setNamespace_namespaces, if_neg (hne.resolve_right (not_not.mpr rfl))]
  · split at h <;> cases h
    rfl
  · cases h
    exact setNamespace_field (·.taskSet) (by rfl) n'
  · cases h

/-- While the namespace runs, a step adds the task that it spawns and takes nothing out. -/
theorem step_taskSet_running (hr : (system cfg).Reachable s) {a : ServerAction}
    (h : step cfg s a = some s') {n : Nat} (hn : (s'.namespaces n).status = .running) (i : Nat) :
    i ∈ (s'.namespaces n).taskSet ↔ i ∈ (s.namespaces n).taskSet ∨ Spawns s a i n := by
  have ht := step_turn h
  refine ⟨(step_taskSet h n i).1, ?_⟩
  rintro (hi | hspawn)
  · cases ht with
    | rest statuses closedAll taskSet calls status => exact (taskSet n i).mpr (.inl hi)
    | runs k j n' pc pc' x s₁ action thread step conns namespaces status own runtime sound others =>
      rw [namespaces]
      by_cases hjoin : n = n' ∧ pc = .join
      · -- a shutdown that joins has stored `Stopping`
        obtain ⟨rfl, rfl⟩ := hjoin
        have hns := (begun_of_reachable hr).namespaces k _ (List.mem_of_getElem? thread) rfl
        exact absurd hn ((step_turn h).status_ne hns)
      · rw [shutdownStep_keeps step (by tauto)]
        exact hi
    | _ =>
      rw [Steady.taskSet ‹_›]
      exact hi
  · exact step_spawns h hspawn

/-- The task set of a running namespace holds the task of every request that it was handed. -/
theorem taskSet_of_running (h : (system cfg).Reachable s) {n : Nat}
    (hn : (s.namespaces n).status = .running) (i : Nat) :
    i ∈ (s.namespaces n).taskSet ↔
      ∃ m, s.conns i = some m ∧ m.home = n ∧ m.conn.main ≠ .absent := by
  induction h with
  | init =>
    constructor
    · intro hi
      simp [system, initial, initialNamespace] at hi
    · rintro ⟨m, hm, -⟩
      cases hm
  | @step s s' a hr _ hs ih =>
    have hprev : (s.namespaces n).status = .running := by
      by_contra hne
      exact (step_turn hs).status_ne hne hn
    rw [step_taskSet_running hr hs hn, ih hprev]
    constructor
    · rintro (⟨m, hm, rfl, hmain⟩ | ⟨rfl, m, hm, rfl, habs⟩)
      · obtain ⟨m', hm', hhome, he⟩ := step_member hs hm
        refine ⟨m', hm', hhome, ?_⟩
        rcases he with he | ⟨b, hb⟩
        · rw [he]
          exact hmain
        · exact Connection.step_main_present hb hmain
      · obtain ⟨c, hc, hstep⟩ := step_own hs hm
        refine ⟨_, hc, rfl, ?_⟩
        simp only [Connection.step, Connection.mainStep, Connection.mainGo, habs,
          Option.some.injEq] at hstep
        rw [← hstep]
        simp
    · rintro ⟨m', hm', rfl, hmain⟩
      rcases step_conn hs hm' with ⟨-, -, he⟩ | ⟨m, hm, hhome, he⟩
      · rw [he] at hmain
        exact absurd rfl hmain
      · rcases he with he | ⟨b, hb, he⟩
        · rw [he] at hmain
          exact .inl ⟨m, hm, hhome.symm, hmain⟩
        · by_cases habs : m.conn.main = .absent
          · have hgo := Connection.step_main_absent he habs hmain
            rcases hb with ⟨rfl, -⟩ | ⟨key, job, -, rfl⟩
            · exact .inr ⟨by rw [hgo], m, hm, hhome.symm, habs⟩
            · cases hgo
          · exact .inl ⟨m, hm, hhome.symm, habs⟩

theorem live_iff_noneEnded (h : (system cfg).Reachable s) {n : Nat}
    (hn : (s.namespaces n).status = .running) : TaskSetLive s n ↔ ¬ SomeEnded s n := by
  have hset := taskSet_of_running h hn
  constructor
  · rintro ⟨hlive, -⟩ ⟨i, m, hm, hhome, hend⟩
    have hmain : m.conn.main ≠ .absent := by
      intro habs
      rw [habs] at hend
      cases hend
    obtain ⟨m', hm', -, -, hrun⟩ := hlive i ((hset i).mpr ⟨m, hm, hhome, hmain⟩)
    rw [hm] at hm'
    cases hm'
    rw [hend] at hrun
    cases hrun
  · intro hnone
    have hall : ∀ i, i ∈ (s.namespaces n).taskSet ↔ Handles s n i := by
      intro i
      rw [hset]
      constructor
      · rintro ⟨m, hm, hhome, hmain⟩
        refine ⟨m, hm, hhome, hmain, ?_⟩
        by_contra hend
        exact hnone ⟨i, m, hm, hhome, by simpa using hend⟩
      · rintro ⟨m, hm, hhome, hmain, -⟩
        exact ⟨m, hm, hhome, hmain⟩
    refine ⟨fun i hi => (hall i).mp hi, ?_⟩
    have heq : {i | Handles s n i} = ↑(s.namespaces n).taskSet := by
      ext i
      exact (hall i).symm
    rw [heq, Set.ncard_coe_finset]

/-- **Tasks are kept.** Along every run of a running namespace, the task set holds only
tasks of requests in progress, and no more than there are such requests, exactly until the
handling of a first request ends: `join_next` is called by `shutdown` alone, so a task that
has finished stays. -/
theorem taskSet_live_iff {l : List (Runtime × ServerAction)}
    (h : (system cfg).RunWhen (fun _ _ => True) l s) {n : Nat}
    (hn : (s.namespaces n).status = .running) :
    TaskSetLive s n ↔ ∀ p ∈ l, endsRequest p.1 n p.2 = false := by
  rw [live_iff_noneEnded h.reachableWhen hn, someEnded_of_run h n]
  push Not
  simp only [Bool.not_eq_true]

/-! ## How many are retained -/

/-- The first `k` requests to the namespace have come and gone, and it waits for the next. -/
structure Retains (cfg : ServerConfig) (k : Nat) (s : Runtime) : Prop where
  reachable : (system cfg).Reachable s
  found : s.paths.lookup (cfg.path 0) = some 0
  status : (s.namespaces 0).status = .running
  unlocked : (s.namespaces 0).taskSetLocked = false
  taskSet : (s.namespaces 0).taskSet = Finset.range k
  fresh : ∀ i, k ≤ i → s.conns i = none
  ended : ∀ i m, s.conns i = some m → m.conn.main.ended = true

theorem reachable_next (h : (system cfg).Reachable s) {a : ServerAction}
    (hs : step cfg s a = some s') : (system cfg).Reachable s' := System.Reachable.next h hs

theorem retains_zero (cfg : ServerConfig) : ∃ s, Retains cfg 0 s := by
  obtain ⟨s, hs⟩ : ∃ s, (system cfg).exec (system cfg).init
      [.start 0 (.insertNamespace 0), .call 0 .go, .call 0 .go] = some s := by
    simp [system, System.exec, step, callStep, entry, create, initial, initialNamespace, setCall,
      setNamespace]
  refine ⟨s, System.reachable_of_exec .init hs, ?_, ?_, ?_, ?_, ?_, ?_⟩
  all_goals
    simp [system, System.exec, step, callStep, entry, create, initial, initialNamespace, setCall,
      setNamespace] at hs
    subst hs
    simp

theorem Retains.succ {k : Nat} (h : Retains cfg k s) : ∃ s', Retains cfg (k + 1) s' := by
  let pending : Connection := .initial (cfg.config 0)
  let upgrading : Connection := { pending with main := .upgrading }
  let rejected : Connection := { pending with main := .rejected }
  let ns : Namespace := { s.namespaces 0 with taskSet := insert k (s.namespaces 0).taskSet }
  have hresolve : step cfg s (.resolve k (cfg.path 0)) = some (s.setConn k ⟨0, pending⟩) := by
    simp [step, h.fresh k le_rfl, h.found, pending]
  have hspawn : step cfg (s.setConn k ⟨0, pending⟩) (.conn k (.main .go)) =
      some (((s.setConn k ⟨0, pending⟩).setConn k ⟨0, upgrading⟩).setNamespace 0 ns) := by
    simp [step, setConn_conns, permits, h.unlocked, connStep, Connection.step,
      Connection.mainStep, Connection.mainGo, Connection.effect, access, spawn, pending, upgrading,
      Connection.initial, ns]
  have hfail : step cfg (((s.setConn k ⟨0, pending⟩).setConn k ⟨0, upgrading⟩).setNamespace 0 ns)
      (.conn k (.main (.upgraded false))) = some
      ((((s.setConn k ⟨0, pending⟩).setConn k ⟨0, upgrading⟩).setNamespace 0 ns).setConn k
        ⟨0, rejected⟩) := by
    simp [step, setConn_conns, permits, connStep, Connection.step,
      Connection.mainStep, Connection.effect, access, spawn, upgrading, rejected, pending]
  have hreach := reachable_next (reachable_next (reachable_next h.reachable hresolve) hspawn) hfail
  refine ⟨_, hreach, h.found, ?_, ?_, ?_, ?_, ?_⟩
  · simpa [setNamespace_namespaces, ns] using h.status
  · simpa [setNamespace_namespaces, ns] using h.unlocked
  · simp [setNamespace_namespaces, ns, h.taskSet, Finset.range_add_one]
  · intro i hi
    simp only [setConn_conns, setNamespace_conns]
    rw [if_neg (by omega), if_neg (by omega), if_neg (by omega)]
    exact h.fresh i (by omega)
  · intro i m hi
    simp only [setConn_conns, setNamespace_conns] at hi
    split at hi
    · cases hi
      rfl
    · rename_i hne
      exact h.ended i m hi

/-- The set grows with every request that ever came: nothing bounds it by the requests in
progress. -/
theorem retained_unbounded (cfg : ServerConfig) (k : Nat) :
    ∃ s, (system cfg).Reachable s ∧ (s.namespaces 0).status = .running ∧
      (s.namespaces 0).taskSet.card = k ∧ ∀ i, ¬ Handles s 0 i := by
  have hall : ∃ s, Retains cfg k s := by
    induction k with
    | zero => exact retains_zero cfg
    | succ k ih =>
      obtain ⟨s, hs⟩ := ih
      exact hs.succ
  obtain ⟨s, hs⟩ := hall
  refine ⟨s, hs.reachable, hs.status, by rw [hs.taskSet, Finset.card_range], ?_⟩
  rintro i ⟨m, hm, -, -, hrun⟩
  rw [hs.ended i m hm] at hrun
  cases hrun

/-! ## Runs -/

/-- While the connection of a request is up, its task is the only one. -/
theorem taskSet_live_ready :
    ∃ l s, (system (.postcard false)).RunWhen (fun _ _ => True) l s ∧
      0 ∈ (s.namespaces 0).taskSet ∧ TaskSetLive s 0 := by
  let S := system (.postcard false)
  have he : ((S.exec S.init readyRun).map fun s =>
      decide ((s.namespaces 0).status = .running ∧ 0 ∈ (s.namespaces 0).taskSet)) = some true := by
    decide +kernel
  have hnone : (S.trail S.init readyRun).all (fun p => !endsRequest p.1 0 p.2) = true := by
    decide +kernel
  obtain ⟨s, hexec, hs⟩ := Option.map_eq_some_iff.mp he
  obtain ⟨hrunning, hmem⟩ := of_decide_eq_true hs
  have hrun := System.RunWhen.exec .init hexec
  rw [List.append_nil] at hrun
  refine ⟨_, s, hrun, hmem, (taskSet_live_iff hrun hrunning).mpr fun p hp => ?_⟩
  simpa using List.all_eq_true.mp hnone p hp

/-- The upgrade of a request fails and its task ends: the task is still in the set, and no
request is in progress. -/
theorem finished_task_retained :
    ¬ ∀ s, (system (.postcard false)).Reachable s → (s.namespaces 0).status = .running →
      TaskSetLive s 0 := by
  intro h
  obtain ⟨s, hr, hs⟩ := System.exists_reachable_of_exec (S := system (.postcard false))
    (l := [.start 0 (.insertNamespace 0), .call 0 .go, .call 0 .go, .resolve 0 "/",
      .conn 0 (.main .go), .conn 0 (.main (.upgraded false))])
    (p := fun s => decide ((s.namespaces 0).status = .running ∧ 0 ∈ (s.namespaces 0).taskSet) &&
      taskEnded s 0) (by decide +kernel)
  simp only [Bool.and_eq_true, decide_eq_true_eq] at hs
  obtain ⟨⟨hrunning, hmem⟩, hend⟩ := hs
  obtain ⟨m, hm, -, -, hrun⟩ := (h s hr hrunning).1 0 hmem
  rw [taskEnded_iff hm, hrun] at hend
  cases hend

end Runtime

end WsIo.Server
