import WsIo.Server.RuntimeSteps

/-!
# Registration and cleanup

`insert_connection` is three accesses of the read task after its transition to `Ready`,
with no await between them; `remove_connection` is three accesses of `cleanup` in the main
task. On the normal path the read task is aborted but not joined, and an abort takes
effect only at an await, so a removal that begins between the transition and the end of
the insertion comes too early: `registration_leaked` ends with a dead connection in all
three registries. `registration_cleared` shows that this window is the only one.
-/

namespace WsIo.Server

open Async Core

/-- The main task is in `cleanup`, after its store of `Closing`. -/
def MainPc.cleaning : MainPc → Bool
  | .remove _ | .snapshotRooms | .leaveRooms _ | .dropRoom _ _ | .clearRooms | .abortInitTimeout
  | .cancel | .onClose | .awaitingOnClose | .storeClosed | .finished | .closePanicked => true
  | _ => false

/-- The main task has removed the connection from the given registry. -/
def MainPc.removed (r : Registry) : MainPc → Bool
  | .remove .connections => false
  | .remove .runtimeIds => r = .connections
  | .remove .connectionIds => r ≠ .connectionIds
  | pc => pc.cleaning

theorem MainPc.cleaning_of_removed {r : Registry} {pc : MainPc} (h : pc.removed r = true) :
    pc.cleaning = true := by
  unfold MainPc.removed at h
  split at h <;> first | rfl | exact h

/-- `remove_connection` begins with the map of connections. -/
theorem MainPc.removed_connections {r : Registry} {pc : MainPc} (h : pc.removed r = true) :
    pc.removed .connections = true := by
  unfold MainPc.removed at h
  split at h
  · cases h
  · rfl
  · rfl
  · cases pc <;> simp_all [MainPc.removed]

namespace Connection

variable {cfg : NamespaceConfig} {c c' : Connection}

/-! ## The accesses in the log -/

def registryOp : Obs → Option RegistryOp
  | .registry op => some op
  | _ => none

/-- The insertions and removals of a connection, newest first. -/
def registryOps (log : List Obs) : List RegistryOp := log.filterMap registryOp

@[simp, grind =] theorem registryOps_nil : registryOps [] = [] := rfl

@[simp, grind =] theorem registryOps_cons (o : Obs) (l : List Obs) :
    registryOps (o :: l) = (registryOp o).toList ++ registryOps l := by
  cases h : registryOp o <;> simp [registryOps, h]

/-- The newest access to a registry is an insertion. -/
def registered (r : Registry) : List RegistryOp → Bool
  | [] => false
  | .insert r' :: l => if r' = r then true else registered r l
  | .remove r' :: l => if r' = r then false else registered r l
  | _ :: l => registered r l

/-- The accesses that insert or remove, as opposed to those to the rooms. -/
def registering : RegistryOp → Bool
  | .insert _ | .remove _ => true
  | _ => false

/-- The log holds exactly the insertions and removals that the steps make. -/
theorem registryOps_step {a : Action} (h : step cfg c a = some c') :
    registryOps c'.log = ((effect c a).filter registering).toList ++ registryOps c.log := by
  cases a with
  | main i =>
    simp only [step] at h
    cases i with
    | go =>
      simp only [mainStep] at h
      unfold mainGo at h
      obtain ⟨w, t, hw⟩ := abortInitTimeout_eq c
      split at h
      all_goals grind [tryTransition, ensure, sendPacket_ok, effect, registryOp, registering]
    | _ => grind [mainStep, effect, registryOp]
  | read i =>
    cases i with
    | go =>
      simp only [step, readStep] at h
      unfold readGo at h
      obtain ⟨w, t, hw⟩ := abortInitTimeout_eq c
      split at h
      all_goals grind [transition_cases, invoke_cases, ensure, sendPacket_ok, effect, registryOp,
        registering]
    | frame f => grind [step, readStep, received_cases, effect, registryOp]
    | outcome o => grind [step, readStep, effect, registryOp]
    | stop => grind [step, readStep, effect]
  | write i => grind [step, writeStep_some, effect]
  | watch i => grind [step, watchStep_some, effect]
  | start k job => grind [step, setCaller, effect]
  | caller k =>
    simp only [step] at h
    unfold callerStep at h
    split at h
    all_goals grind [ensure, sendPacket_ok, enqueue_ok, setCaller, effect, registryOp, registering]
  | drop k => grind [step, setCaller, effect]

/-! ## One connection -/

/-- `remove_connection` does not begin while the read task is between its transition to
`Ready` and the end of `insert_connection`. -/
def removalWaits (c : Connection) : Action → Bool
  | .main .go =>
    match c.main, c.read with
    | .remove .connections, .insert _ => false
    | _, _ => true
  | _ => true

/-- Cleanup is entered by its store of `Closing`. -/
theorem step_cleaning {a : Action} (h : step cfg c a = some c') (hc : c'.main.cleaning = true) :
    c.main.cleaning = true ∨ c'.state = .closing := by
  by_cases ha : ∃ i, a = .main i
  · obtain ⟨i, rfl⟩ := ha
    simp only [step] at h
    cases i with
    | go =>
      simp only [mainStep] at h
      unfold mainGo at h
      split at h
      all_goals grind [tryTransition, ensure, sendPacket_ok, MainPc.cleaning]
    | _ => grind [mainStep, MainPc.cleaning]
  · push Not at ha
    exact .inl (step_main h ha ▸ hc)

theorem step_stays_cleaning {a : Action} (h : step cfg c a = some c')
    (hc : c.main.cleaning = true) : c'.main.cleaning = true := by
  by_cases ha : ∃ i, a = .main i
  · obtain ⟨i, rfl⟩ := ha
    simp only [step] at h
    cases i with
    | go =>
      simp only [mainStep] at h
      unfold mainGo at h
      split at h
      all_goals grind [tryTransition, ensure, sendPacket_ok, MainPc.cleaning, afterRemove_cases]
    | _ => grind [mainStep, MainPc.cleaning]
  · push Not at ha
    rw [step_main h ha]
    exact hc

/-- In cleanup the connection is down, and stays so. -/
theorem step_down {a : Action} (h : step cfg c a = some c')
    (hd : c.main.cleaning = true → isDown c.state = true) (hc : c'.main.cleaning = true) :
    isDown c'.state = true := by
  rcases step_cleaning h hc with hc | hs
  · exact step_isDown h (hd hc)
  · rw [hs]
    rfl

/-- The main task moves on from `remove_connection` by its removals, and never back. -/
theorem step_removed {a : Action} (h : step cfg c a = some c') (r : Registry) :
    (c.main.removed r = true → c'.main.removed r = true) ∧
      (c'.main.removed r = true → c.main.removed r = true ∨
        a = .main .go ∧ c.main = .remove r ∧ c'.read = c.read) := by
  by_cases ha : ∃ i, a = .main i
  · obtain ⟨i, rfl⟩ := ha
    simp only [step] at h
    cases i with
    | go =>
      simp only [mainStep] at h
      unfold mainGo at h
      obtain ⟨w, t, hw⟩ := abortInitTimeout_eq c
      split at h
      case h_15 r' hm =>
        cases h
        cases r' <;> cases r <;> simp [afterRemove, MainPc.removed, hm, MainPc.cleaning]
      all_goals grind [tryTransition, ensure, sendPacket_ok, MainPc.removed, MainPc.cleaning]
    | _ => grind [mainStep, MainPc.removed, MainPc.cleaning]
  · push Not at ha
    rw [step_main h ha]
    exact ⟨id, .inl⟩

/-- The read task reaches `insert_connection` by its transition to `Ready`. -/
theorem step_inserting {a : Action} (h : step cfg c a = some c') {r : Registry}
    (hr : c'.read = .insert r) :
    c.read = .insert r ∨ (r = .connections ∧ isDown c'.state = false) ∨
      ∃ r', a = .read .go ∧ c.read = .insert r' ∧ afterInsert r' = .insert r := by
  by_cases ha : ∃ i, a = .read i
  · obtain ⟨i, rfl⟩ := ha
    cases i with
    | go =>
      simp only [step, readStep] at h
      unfold readGo at h
      obtain ⟨w, t, hw⟩ := abortInitTimeout_eq c
      split at h
      case h_10 hrd =>
        cases h
        rcases transition_cases c .activating .ready (.insert .connections) with ⟨-, he⟩ | ⟨-, he⟩
        · rw [he] at hr
          cases hr
          rw [he]
          exact .inr (.inl ⟨rfl, rfl⟩)
        · rw [he] at hr
          cases hr
      all_goals grind [transition_cases, invoke_cases, ensure, sendPacket_ok]
    | frame f =>
      simp only [step, readStep] at h
      split at h
      · cases h
        have hf := handleFrame_cases cfg f
        rw [show handleFrame cfg f = .insert r from hr] at hf
        simp at hf
      · cases h
    | outcome o =>
      simp only [step, readStep] at h
      split at h
      · rename_i g hg
        cases h
        have hpc := afterHandler_cases g o
        rw [show (if o = .ok then afterHandler g else .ended) = .insert r from hr] at hpc
        simp at hpc
      · cases h
    | stop => grind [step, readStep]
  · push Not at ha
    rcases (step_outside h ha).1 with hr' | ⟨-, hr'⟩
    · exact .inl (hr' ▸ hr)
    · rw [hr'] at hr
      cases hr

/-- Which accesses a step can make. -/
theorem effect_insert {a : Action} {r : Registry} (h : effect c a = some (.insert r)) :
    a = .read .go ∧ c.read = .insert r := by
  unfold effect at h
  split at h <;> grind

theorem effect_of_insert {r : Registry} (h : c.read = .insert r) :
    effect c (.read .go) = some (.insert r) := by
  simp [effect, h]

theorem effect_remove {a : Action} {r : Registry} (h : effect c a = some (.remove r)) :
    a = .main .go ∧ c.main = .remove r := by
  unfold effect at h
  split at h <;> grind

theorem effect_of_remove {r : Registry} (h : c.main = .remove r) :
    effect c (.main .go) = some (.remove r) := by
  simp [effect, h]

/-- What a step makes of the newest access to a registry. -/
theorem registered_step {a : Action} (h : step cfg c a = some c') (r : Registry) :
    registered r (registryOps c'.log) =
      if effect c a = some (.insert r) then true
      else if effect c a = some (.remove r) then false
      else registered r (registryOps c.log) := by
  rw [registryOps_step h]
  cases he : effect c a with
  | none => simp
  | some op => cases op <;> simp [Option.filter, registering, registered]

/-- No insertion comes after a removal. -/
def NoLateInsert (ops : List RegistryOp) : Prop :=
  ∀ later r earlier, ops = later ++ .insert r :: earlier → ∀ r', .remove r' ∉ earlier

theorem NoLateInsert.cons_remove {ops : List RegistryOp} (h : NoLateInsert ops) (r : Registry) :
    NoLateInsert (.remove r :: ops) := by
  intro later r' earlier he
  cases later with
  | nil => cases he
  | cons o later =>
    rw [List.cons_append, List.cons.injEq] at he
    exact h later r' earlier he.2

theorem NoLateInsert.cons_insert {ops : List RegistryOp} (h : NoLateInsert ops)
    (hn : ∀ r', .remove r' ∉ ops) (r : Registry) : NoLateInsert (.insert r :: ops) := by
  intro later r' earlier he
  cases later with
  | nil =>
    rw [List.nil_append, List.cons.injEq] at he
    rw [← he.2]
    exact hn
  | cons o later =>
    rw [List.cons_append, List.cons.injEq] at he
    exact h later r' earlier he.2

/-- What the condition on `remove_connection` gives for one connection. -/
structure Cleaned (c : Connection) : Prop where
  down : c.main.cleaning = true → isDown c.state = true
  outside : c.main.removed .connections = true → ∀ r, c.read ≠ .insert r
  removals : ∀ r, .remove r ∈ registryOps c.log → c.main.removed .connections = true
  removed : ∀ r, c.main.removed r = true → registered r (registryOps c.log) = false
  ordered : NoLateInsert (registryOps c.log)

theorem Cleaned.effect_insert {a : Action} {r : Registry} (hc : Cleaned c)
    (he : effect c a = some (.insert r)) : c.main.removed .connections = false := by
  by_contra hm
  rw [Bool.not_eq_false] at hm
  exact hc.outside hm r (Connection.effect_insert he).2

theorem cleaned_step {a : Action} (h : step cfg c a = some c') (ha : removalWaits c a = true)
    (hc : Cleaned c) : Cleaned c' := by
  have hops := registryOps_step h
  have hdown := step_down h hc.down
  refine ⟨hdown, ?_, ?_, ?_, ?_⟩
  · -- the first removal finds the read task outside, and the state bars it from entering
    intro hm r hr
    have hout : ∀ r', c.read ≠ .insert r' := by
      rcases (step_removed h .connections).2 hm with hm | ⟨rfl, hm, -⟩
      · exact hc.outside hm
      · intro r' hr'
        simp [removalWaits, hm, hr'] at ha
    rcases step_inserting h hr with hr' | ⟨-, hnd⟩ | ⟨r', -, hr', -⟩
    · exact hout r hr'
    rotate_left
    · exact hout r' hr'
    · rw [hdown (MainPc.cleaning_of_removed hm)] at hnd
      cases hnd
  · intro r hr
    rw [hops, List.mem_append] at hr
    rcases hr with hr | hr
    · have he := (Option.filter_eq_some_iff.mp (Option.mem_toList.mp hr)).1
      obtain ⟨rfl, hm⟩ := effect_remove he
      cases r with
      | connections =>
        simp only [step, mainStep, mainGo, hm, Option.some.injEq] at h
        rw [← h]
        rfl
      | _ =>
        refine (step_removed h .connections).1 ?_
        rw [hm]
        rfl
    · exact (step_removed h .connections).1 (hc.removals r hr)
  · intro r hr
    rw [registered_step h]
    rcases (step_removed h r).2 hr with hm | ⟨rfl, hm, -⟩
    · have hni : effect c a ≠ some (.insert r) := by
        intro he
        have hcon : c.main.removed .connections = true := MainPc.removed_connections hm
        rw [hc.effect_insert he] at hcon
        cases hcon
      rw [if_neg hni, hc.removed r hm, ite_self]
    · rw [effect_of_remove hm]
      simp
  · rw [hops]
    cases he : effect c a with
    | none => exact hc.ordered
    | some op =>
      cases op with
      | insert r =>
        refine hc.ordered.cons_insert ?_ r
        intro r' hr'
        have hm := hc.removals r' hr'
        rw [hc.effect_insert he] at hm
        cases hm
      | remove r => exact hc.ordered.cons_remove r
      | _ => exact hc.ordered

theorem cleaned_of_reachable
    (h : (system cfg).ReachableWhen (fun c a => removalWaits c a = true) c) : Cleaned c := by
  refine h.invariant (I := Cleaned) ?_ fun _ _ _ _ ha hs hi => cleaned_step hs ha hi
  refine ⟨fun hm => ?_, fun hm => ?_, fun r hr => ?_, fun r hm => ?_, ?_⟩
  · cases hm
  · cases hm
  · cases hr
  · rfl
  · intro later r earlier he
    cases later <;> cases he

end Connection

/-! ## The registries of the server -/

namespace Runtime

variable {cfg : ServerConfig} {s s' : Runtime}

/-- The three structures of a namespace, by name. -/
def registry (s : Runtime) (n : Nat) : Registry → Finset Nat
  | .connections => (s.namespaces n).connections
  | .connectionIds => (s.namespaces n).connectionIds
  | .runtimeIds => s.connectionIds

theorem Quiet.registry (h : Quiet s s') (n : Nat) (r : Registry) :
    s'.registry n r = s.registry n r := by
  cases r
  · exact (h.registries n).1
  · exact h.connectionIds
  · exact (h.registries n).2.1

@[simp] theorem registry_setConn (i : Nat) (m : Member) (n : Nat) (r : Registry) :
    (s.setConn i m).registry n r = s.registry n r := by
  cases r <;> rfl

@[grind =] theorem access_namespaces (home i n : Nat) (op : RegistryOp) :
    (s.access home i (some op)).namespaces n =
      if n = home then Namespace.access (s.namespaces home) i op else s.namespaces n :=
  setNamespace_namespaces ..

@[simp, grind =] theorem access_connectionIds (home i : Nat) (op : RegistryOp) :
    (s.access home i (some op)).connectionIds = accessIds s.connectionIds i op := rfl

/-- An access changes the membership of its connection in its registry. -/
theorem mem_registry_access (home n i j : Nat) (op : Option RegistryOp) (r : Registry) :
    j ∈ (s.access home i op).registry n r ↔
      if j = i ∧ (home = n ∨ r = .runtimeIds) then
        if op = some (.insert r) then True
        else if op = some (.remove r) then False
        else j ∈ s.registry n r
      else j ∈ s.registry n r := by
  cases op with
  | none => simp [access]
  | some op =>
    cases op with
    | insert r' =>
      cases r' <;> cases r <;>
        grind [registry, accessIds, Namespace.access]
    | remove r' =>
      cases r' <;> cases r <;>
        grind [registry, accessIds, Namespace.access]
    | _ =>
      cases r <;> grind [registry, accessIds, Namespace.access]

/-- A registry holds the connections whose newest access to it is an insertion. -/
def Registered (s : Runtime) : Prop :=
  ∀ r n i, i ∈ s.registry n r ↔ ∃ m, s.conns i = some m ∧ (m.home = n ∨ r = .runtimeIds) ∧
    Connection.registered r (Connection.registryOps m.conn.log) = true

theorem Registered.quiet (hi : Registered s) (hq : Quiet s s') : Registered s' := by
  intro r n i
  rw [hq.registry, hq.conns]
  exact hi r n i

/-- A step of a connection that reports its access keeps the registries in agreement. -/
theorem Registered.moved (hi : Registered s) {i : Nat} {m : Member} {b : Action} {c : Connection}
    (hm : s.conns i = some m) (hs : Connection.step (cfg.config m.home) m.conn b = some c) :
    Registered ((s.setConn i ⟨m.home, c⟩).access m.home i (Connection.effect m.conn b)) := by
  intro r n j
  rw [mem_registry_access, registry_setConn, access_conns, setConn_conns, hi r n j]
  by_cases hj : j = i
  · subst hj
    simp only [if_true, hm, Option.some.injEq, exists_eq_left', Connection.registered_step hs]
    by_cases hn : m.home = n ∨ r = .runtimeIds
    · by_cases h₁ : Connection.effect m.conn b = some (.insert r)
      · simp [hn, h₁]
      · by_cases h₂ : Connection.effect m.conn b = some (.remove r) <;> simp [hn, h₁, h₂]
    · simp [hn]
  · simp [hj]

theorem registered_step {a : ServerAction} (h : step cfg s a = some s') (hi : Registered s) :
    Registered s' := by
  rcases step_cases h with ⟨j, n, -, -, hj, rfl⟩ | ⟨j, b, m, c, rfl, hm, rfl⟩ |
    ⟨n, job, j, key, m, c, -, hst, hq⟩ | hq
  · -- a new connection has accessed nothing
    intro r n' i
    rw [registry_setConn, setConn_conns, hi r n' i]
    by_cases hij : i = j
    · rw [hij]
      simp [hj, Connection.initial, Connection.registered]
    · simp [hij]
  · exact (hi.moved hm.conn hm.step).quiet (.spawn _ _ _ _)
  · have hmoved := hi.moved hst.conn hst.step
    exact hmoved.quiet hq
  · exact hi.quiet hq

theorem registered_of_reachable {guard : Runtime → ServerAction → Prop}
    (h : (system cfg).ReachableWhen guard s) : Registered s := by
  refine h.invariant (I := Registered) ?_ fun _ _ _ _ _ hs hi => registered_step hs hi
  intro r n i
  cases r <;> simp [registry, system, initial, initialNamespace]

/-! ## No registration survives cleanup -/

/-- No `remove_connection` begins while the read task of its connection is between the
transition to `Ready` and the end of `insert_connection`. -/
def removalWaits (s : Runtime) : ServerAction → Bool
  | .conn i a =>
    match s.conns i with
    | some m => m.conn.removalWaits a
    | none => true
  | _ => true

theorem cleaned_of_reachable
    (h : (system cfg).ReachableWhen (fun s a => removalWaits s a = true) s) {i : Nat} {m : Member}
    (hm : s.conns i = some m) : m.conn.Cleaned := by
  refine Connection.cleaned_of_reachable (conn_reachable ?_ ?_ h hm)
  · intro s i b m hg hi
    simpa [removalWaits, hi] using hg
  · intro s a i c key job _ _
    rfl

/-- **No registration survives cleanup.** In every run of the server in which no
`remove_connection` begins while its connection's read task is between the transition to
`Ready` and the end of `insert_connection`: no insertion of a connection into a registry
comes after a removal of it, and once its cleanup has returned its id is in none of
`connections`, `connection_ids` and the runtime's `connection_ids`. -/
theorem registration_cleared {cfg : ServerConfig} {s : Runtime}
    (h : (system cfg).ReachableWhen (fun s a => removalWaits s a = true) s) {i : Nat} {m : Member}
    (hm : s.conns i = some m) :
    Connection.NoLateInsert (Connection.registryOps m.conn.log) ∧
      (m.conn.main = .finished → ∀ n, i ∉ (s.namespaces n).connections ∧
        i ∉ (s.namespaces n).connectionIds ∧ i ∉ s.connectionIds) := by
  have hc := cleaned_of_reachable h hm
  refine ⟨hc.ordered, fun hf n => ?_⟩
  have hout : ∀ r, i ∉ s.registry n r := by
    intro r hr
    obtain ⟨m', hm', -, hreg⟩ := (registered_of_reachable h r n i).mp hr
    rw [hm] at hm'
    cases hm'
    rw [hc.removed r (by rw [hf]; cases r <;> rfl)] at hreg
    cases hreg
  exact ⟨hout .connections, hout .connectionIds, hout .runtimeIds⟩

/-- The write task takes the init packet and fails to send it, and the main task runs
through cleanup. -/
def cleanupRun : List ServerAction := List.flatten [
  [.conn 0 (.write .go), .conn 0 (.write .failed), .conn 0 (.main .writeEnded)],
  List.replicate 11 (.conn 0 (.main .go))]

theorem registration_cleared_run :
    ∃ s m, (system (.postcard false)).Reachable s ∧ s.conns 0 = some m ∧
      m.conn.main = .finished ∧ ∀ n, 0 ∉ (s.namespaces n).connections ∧
        0 ∉ (s.namespaces n).connectionIds ∧ 0 ∉ s.connectionIds := by
  obtain ⟨s, hr, hs⟩ := System.exists_reachableWhen_of_execWhen
    (S := system (.postcard false)) (g := removalWaits)
    (l := List.flatten [readyRun, List.replicate 5 (.conn 0 (.read .go)), cleanupRun])
    (p := fun s => (s.conns 0).any fun m => m.conn.main = .finished) (by decide +kernel)
  obtain ⟨m, hm, hf⟩ := (Option.any_eq_true _ _).mp hs
  have hf : m.conn.main = .finished := by simpa using hf
  exact ⟨s, m, hr.reachable, hm, hf, (registration_cleared hr hm).2 hf⟩

/-- The whole cleanup runs between the transition to `Ready` and the insertion, and the
dead connection stays in all three registries. -/
theorem registration_leaked :
    ¬ ∀ s m, (system (.postcard false)).Reachable s → s.conns 0 = some m →
      m.conn.main = .finished → m.conn.read = .ended →
        0 ∉ (s.namespaces m.home).connections ∧ 0 ∉ (s.namespaces m.home).connectionIds ∧
          0 ∉ s.connectionIds := by
  intro h
  obtain ⟨s, hr, hs⟩ := System.exists_reachable_of_exec (S := system (.postcard false))
    (l := List.flatten [readyRun, cleanupRun, List.replicate 4 (.conn 0 (.read .go))])
    (p := fun s => (s.conns 0).any fun m => m.conn.main = .finished && m.conn.read = .ended &&
      decide (0 ∈ (s.namespaces m.home).connections)) (by decide +kernel)
  obtain ⟨m, hm, hf⟩ := (Option.any_eq_true _ _).mp hs
  simp only [Bool.and_eq_true, decide_eq_true_eq] at hf
  exact (h s m hr hm hf.1.1 hf.1.2).1 hf.2

end Runtime

end WsIo.Server
