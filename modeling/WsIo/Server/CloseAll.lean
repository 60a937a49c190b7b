import WsIo.Server.Registration
import WsIo.Server.Shutdown

/-!
# What the `close_all` of a shutdown reaches

`shutdown` stores `Stopping` and then closes the connections that `connection_ids` holds
at that moment. A connection whose request passed the status check before and whose
handshake is not over is in none of the registries: nobody closes it, it goes on to
`Ready`, and the shutdown waits for it (`connection_missed`). When the snapshot misses no
connection, every connection of the namespace is down once `close_all` has returned, and
no other can appear (`close_all_reaches_every_connection`).
-/

namespace WsIo.Server

open Async Core

/-- The connection exists, and its task has not been lost to a panic in `init`. -/
def MainPc.connected (pc : MainPc) : Bool := pc.created && pc ≠ .initPanicked

/-- The main task has not moved the connection to `AwaitingInit`. -/
def MainPc.early : MainPc → Bool
  | .spawnRead | .spawnWrite | .initEnsure | .initRequest | .awaitingInitRequest
  | .initTransition _ | .initPanicked => true
  | pc => !pc.created

/-- The shutdown is past its `close_all`. -/
def ShutdownPc.closed : ShutdownPc → Bool
  | .lock | .join | .storeStopped => true
  | _ => false

namespace Connection

variable {cfg : NamespaceConfig} {c c' : Connection}

/-! ## One connection -/

/-- A connection comes to exist by the second status check of its request. -/
theorem step_main_created {a : Action} (h : step cfg c a = some c') :
    (c.main.created = true → c'.main.created = true) ∧
      (c'.main.created = true → c.main.created = true ∨
        a = .main (.status true) ∧ c.main = .checkNamespace) := by
  by_cases ha : ∃ i, a = .main i
  · obtain ⟨i, rfl⟩ := ha
    simp only [step] at h
    cases i with
    | go =>
      simp only [mainStep] at h
      unfold mainGo at h
      split at h
      all_goals grind [tryTransition, ensure, sendPacket_ok, MainPc.created, afterRemove_cases]
    | status running => cases running <;> grind [mainStep, MainPc.created]
    | _ => grind [mainStep, MainPc.created]
  · push Not at ha
    rw [step_main h ha]
    exact ⟨id, .inl⟩

theorem step_main_ended {a : Action} (h : step cfg c a = some c') (he : c.main.ended = true) :
    c'.main = c.main := by
  by_cases ha : ∃ i, a = .main i
  · obtain ⟨i, rfl⟩ := ha
    simp only [step] at h
    cases hm : c.main <;> rw [hm] at he <;> try cases he
    all_goals cases i <;> simp [mainStep, mainGo, hm] at h
  · push Not at ha
    exact step_main h ha

theorem step_main_connected {a : Action} (h : step cfg c a = some c')
    (hc : c'.main.connected = true) : c.main.connected = true ∨
      a = .main (.status true) ∧ c.main = .checkNamespace := by
  simp only [MainPc.connected, Bool.and_eq_true, decide_eq_true_eq] at hc ⊢
  rcases (step_main_created h).2 hc.1 with hcr | hlast
  · refine .inl ⟨hcr, fun hp => hc.2 ?_⟩
    rw [step_main_ended h (by rw [hp]; rfl), hp]
  · exact .inr hlast

theorem mainStep_early {i : MainInput} (h : mainStep cfg c i = some c')
    (he : c'.main.early = true) : c.main.early = true ∧ c'.state = c.state := by
  cases i with
  | go =>
    simp only [mainStep] at h
    unfold mainGo at h
    obtain ⟨w, t, hw⟩ := abortInitTimeout_eq c
    split at h
    all_goals grind [tryTransition, ensure, sendPacket_ok, MainPc.early, MainPc.created,
      afterRemove_cases]
  | upgraded ok => cases ok <;> grind [mainStep, MainPc.early, MainPc.created]
  | status running => cases running <;> grind [mainStep, MainPc.early, MainPc.created]
  | _ => grind [mainStep, MainPc.early, MainPc.created]

/-- Before the main task has sent the init packet on its way nobody gets far. -/
theorem step_early {a : Action} (h : step cfg c a = some c')
    (hi : c.main.early = true → c.state = .created ∨ isDown c.state = true)
    (he : c'.main.early = true) : c'.state = .created ∨ isDown c'.state = true := by
  by_cases hm : ∃ i, a = .main i
  · obtain ⟨i, rfl⟩ := hm
    obtain ⟨he₀, hs⟩ := mainStep_early h he
    rw [hs]
    exact hi he₀
  · push Not at hm
    rw [step_main h hm] at he
    by_cases hr : ∃ i, a = .read i
    · obtain ⟨i, rfl⟩ := hr
      have hearly := hi he
      rcases readStep_state h with hs | ⟨d, -, -, hs, -⟩ | ⟨-, -, hs, -⟩ | ⟨-, -, hs, -⟩
      · rw [hs]
        exact hearly
      all_goals
        rw [hs] at hearly
        rcases hearly with hearly | hearly <;> cases hearly
    · push Not at hr
      rcases (step_frame h hm hr).2.2.1 with hs | hs
      · rw [hs]
        exact hi he
      · rw [hs]
        exact .inr rfl

/-- The task of a request is spawned by the first step of its main task. -/
theorem step_main_absent {a : Action} (h : step cfg c a = some c') (hm : c.main = .absent)
    (hm' : c'.main ≠ .absent) : a = .main .go := by
  by_cases ha : ∃ i, a = .main i
  · obtain ⟨i, rfl⟩ := ha
    cases i with
    | go => rfl
    | _ => simp [step, mainStep, hm] at h
  · push Not at ha
    rw [step_main h ha] at hm'
    exact absurd hm hm'

/-- A `close` call that has not stored `Closing` yet does so, unless the connection is
down already. -/
theorem step_closing {a : Action} (h : step cfg c a = some c') {k : Nat}
    (hk : c.callers k = .closing .get ∨ c.callers k = .closing .store) :
    c'.callers k = .closing .get ∨ c'.callers k = .closing .store ∨ isDown c'.state = true := by
  have hkeep : c'.callers k = c.callers k →
      c'.callers k = .closing .get ∨ c'.callers k = .closing .store ∨ isDown c'.state = true := by
    intro he
    rw [he]
    exact hk.imp_right .inl
  by_cases hc : a = .caller k
  · subst hc
    simp only [step] at h
    unfold callerStep at h
    rcases hk with hk | hk
    · rw [hk] at h
      by_cases hd : isDown c.state = true
      · simp only [closeAt, Endpoint.close, hd, if_true, Option.some.injEq] at h
        rw [← h]
        exact .inr (.inr hd)
      · simp only [closeAt, Endpoint.close, hd, Bool.false_eq_true, if_false,
          Option.some.injEq] at h
        rw [← h]
        exact .inr (.inl (by simp [callers_setCaller]))
    · rw [hk] at h
      simp only [closeAt, Endpoint.close, Option.some.injEq] at h
      rw [← h]
      exact .inr (.inr rfl)
  · refine hkeep (step_callers h hc ?_ ?_)
    · rintro job rfl
      rcases hk with hk | hk <;> simp [step, hk] at h
    · rintro rfl
      rcases hk with hk | hk <;> simp [step, callerAwaits, hk] at h

theorem registered_or_removed {r : Registry} {ops : List RegistryOp} (h : .insert r ∈ ops) :
    registered r ops = true ∨ .remove r ∈ ops := by
  induction ops with
  | nil => cases h
  | cons op ops ih =>
    by_cases hop : op = .insert r
    · exact .inl (by simp [hop, registered])
    · rcases List.mem_cons.mp h with rfl | h
      · exact absurd rfl hop
      · rcases ih h with hr | hr
        · cases op <;> grind [registered]
        · exact .inr (List.mem_cons_of_mem _ hr)

theorem mem_of_registered {r : Registry} {ops : List RegistryOp} (h : registered r ops = true) :
    .insert r ∈ ops := by
  induction ops with
  | nil => cases h
  | cons op ops ih => cases op <;> grind [registered]

theorem registryOps_mono {a : Action} (h : step cfg c a = some c') {op : RegistryOp}
    (hop : op ∈ registryOps c.log) : op ∈ registryOps c'.log := by
  rw [registryOps_step h]
  exact List.mem_append_right _ hop

/-- How registration, removal and the state of a connection hang together in every run. -/
structure Enrolment (c : Connection) : Prop where
  down : c.main.cleaning = true → isDown c.state = true
  removals : ∀ r, .remove r ∈ registryOps c.log → c.main.cleaning = true
  started : ∀ r, c.read = .insert r → r = .connections ∨ .insert .connections ∈ registryOps c.log
  first : ∀ r, .insert r ∈ registryOps c.log → .insert .connections ∈ registryOps c.log
  unread : c.main.created = false ∨ c.main = .spawnRead → c.read = .absent
  early : c.main.early = true → c.state = .created ∨ isDown c.state = true

/-- A connection whose task has not got to `AwaitingInit` is not `Ready`. -/
theorem Enrolment.not_ready (h : Enrolment c) (he : c.main.early = true) : c.state ≠ .ready := by
  intro hs
  have hearly := h.early he
  rw [hs] at hearly
  rcases hearly with hearly | hearly <;> cases hearly

theorem enrolment_step {a : Action} (h : step cfg c a = some c') (he : Enrolment c) :
    Enrolment c' := by
  have hmono : ∀ {op : RegistryOp}, op ∈ registryOps c.log → op ∈ registryOps c'.log :=
    registryOps_mono h
  have hops : ∀ {op : RegistryOp}, op ∈ registryOps c'.log →
      effect c a = some op ∨ op ∈ registryOps c.log := by
    intro op hop
    rw [registryOps_step h, List.mem_append] at hop
    refine hop.imp_left fun hop => ?_
    exact (Option.filter_eq_some_iff.mp (Option.mem_toList.mp hop)).1
  have hnew : ∀ {r : Registry}, effect c a = some (.insert r) → .insert r ∈ registryOps c'.log := by
    intro r hr
    rw [registryOps_step h, hr]
    exact List.mem_append_left _ (by simp [Option.filter, registering])
  refine ⟨step_down h he.down, fun r hr => ?_, fun r hr => ?_, fun r hr => ?_,
    step_unread h he.unread, step_early h he.early⟩
  · rcases hops hr with hr | hr
    · obtain ⟨rfl, hm⟩ := effect_remove hr
      simp only [step, mainStep, mainGo, hm, Option.some.injEq] at h
      rw [← h]
      cases r <;> rfl
    · exact step_stays_cleaning h (he.removals r hr)
  · rcases step_inserting h hr with hr | ⟨hr, -⟩ | ⟨r', rfl, hr', -⟩
    · exact (he.started r hr).imp_right hmono
    · exact .inl hr
    · rcases he.started r' hr' with rfl | hmem
      · exact .inr (hnew (effect_of_insert hr'))
      · exact .inr (hmono hmem)
  · rcases hops hr with hr | hr
    · rcases he.started r (effect_insert hr).2 with rfl | hmem
      · exact hnew hr
      · exact hmono hmem
    · exact hmono (he.first r hr)

theorem enrolment_of_reachable {guard : Connection → Action → Prop}
    (h : (system cfg).ReachableWhen guard c) : Enrolment c := by
  refine h.invariant (I := Enrolment) ?_ fun _ _ _ _ _ hs hi => enrolment_step hs hi
  refine ⟨fun hm => ?_, fun r hr => ?_, fun r hr => ?_, fun r hr => ?_, fun _ => rfl,
    fun _ => .inl rfl⟩
  · cases hm
  · cases hr
  · cases hr
  · cases hr

end Connection

/-! ## The server -/

namespace Runtime

variable {cfg : ServerConfig} {s s' : Runtime}

/-- A connection of a namespace that is shutting down is not created there any more. -/
theorem step_uncreated {a : ServerAction} (h : step cfg s a = some s') {i : Nat} {m' : Member}
    (hi : s'.conns i = some m') (hn : (s.namespaces m'.home).status ≠ .running)
    (hc : m'.conn.main.connected = true) :
    ∃ m, s.conns i = some m ∧ m'.home = m.home ∧ m.conn.main.connected = true ∧
      (m'.conn = m.conn ∨ ∃ b, Connection.step (cfg.config m.home) m.conn b = some m'.conn) := by
  rcases step_conn h hi with ⟨-, -, he⟩ | ⟨m, hm, hhome, he⟩
  · rw [he] at hc
    cases hc
  · refine ⟨m, hm, hhome, ?_, he.imp_right fun ⟨b, _, hb⟩ => ⟨b, hb⟩⟩
    rcases he with he | ⟨b, hb, he⟩
    · rw [← he]
      exact hc
    · rcases Connection.step_main_connected he hc with hc | ⟨rfl, hmain⟩
      · exact hc
      · -- the second status check would have seen the status
        rcases hb with ⟨-, hp⟩ | ⟨key, job, -, hb⟩
        · rw [hhome] at hn
          simp [permits, hmain, hn] at hp
        · cases hb

/-- Every connection of the namespace is down, or will be closed: it is still to be
visited and was registered, or a `close` call on it has not stored `Closing` yet. -/
def Covered (s : Runtime) (n : Nat) (ids : Finset Nat) (active : List (Nat × Nat)) : Prop :=
  ∀ i m, s.conns i = some m → m.home = n → m.conn.main.connected = true →
    isDown m.conn.state = true ∨
      (i ∈ ids ∧ .insert .connections ∈ Connection.registryOps m.conn.log) ∨
      ∃ key, (i, key) ∈ active ∧
        (m.conn.callers key = .closing .get ∨ m.conn.callers key = .closing .store)

theorem Covered.step {a : ServerAction} {n : Nat} {ids : Finset Nat} {active : List (Nat × Nat)}
    (hc : Covered s n ids active) (h : step cfg s a = some s')
    (hn : (s.namespaces n).status ≠ .running) : Covered s' n ids active := by
  rintro i m' hi rfl hcr
  obtain ⟨m, hm, hhome, hcr', he⟩ := step_uncreated h hi hn hcr
  have hcov := hc i m hm hhome.symm hcr'
  rcases he with he | ⟨b, he⟩
  · rw [he]
    exact hcov
  · rcases hcov with hd | ⟨hid, hop⟩ | ⟨key, hkey, hcall⟩
    · exact .inl (Connection.step_isDown he hd)
    · exact .inr (.inl ⟨hid, Connection.registryOps_mono he hop⟩)
    · rcases Connection.step_closing he hcall with hk | hk | hd
      · exact .inr (.inr ⟨key, hkey, .inl hk⟩)
      · exact .inr (.inr ⟨key, hkey, .inr hk⟩)
      · exact .inl hd

/-- What a running `close_all` has yet to reach. -/
def Pending (s : Runtime) (n : Nat) : BroadcastPc → Prop
  | .load => True
  | .includeRooms _ _ => False
  | .excludeRooms rest ids => rest = [] ∧ Covered s n ids []
  | .each ids active => Covered s n ids active

/-- No connection of the namespace exists outside `connection_ids` that is not down, but for
those whose task has panicked in `init`. -/
def snapshotComplete (s : Runtime) (n : Nat) : Bool :=
  decide (∀ i ∈ (s.namespaces n).taskSet, (s.conns i).all fun m =>
    !m.conn.main.connected || isDown m.conn.state || decide (i ∈ (s.namespaces n).connectionIds))

/-- When the `close_all` of a shutdown takes its snapshot of `connection_ids`, every
connection whose request has passed the status checks is registered or down, or was lost to
a panic in `init`. -/
def closeAllComplete (s : Runtime) : ServerAction → Bool
  | .call k _ =>
    match s.calls k with
    | .shutdown n (.closeAll .load) => snapshotComplete s n
    | _ => true
  | .child k j _ =>
    match (shutdowns (s.calls k))[j]? with
    | some (n, .closeAll .load) => snapshotComplete s n
    | _ => true
  | _ => true

/-! ## Tasks -/

/-- The task of every request that has begun is in the task set of its namespace, or over. -/
def Tasks (s : Runtime) : Prop :=
  ∀ i m, s.conns i = some m → m.conn.main ≠ .absent →
    i ∈ (s.namespaces m.home).taskSet ∨ m.conn.main.ended = true

/-- A shutdown takes tasks that are over out of the task set, and no others. -/
theorem shutdownStep_taskSet {n : Nat} {pc : ShutdownPc} {x : CallInput} {r : Option ShutdownPc}
    (h : shutdownStep cfg s n pc x = some (s', r)) (n' : Nat) :
    (s'.namespaces n').taskSet ⊆ (s.namespaces n').taskSet ∧
      ∀ i ∈ (s.namespaces n').taskSet, i ∈ (s'.namespaces n').taskSet ∨ taskEnded s i = true := by
  have hsame : (s'.namespaces n').taskSet = (s.namespaces n').taskSet →
      (s'.namespaces n').taskSet ⊆ (s.namespaces n').taskSet ∧
        ∀ i ∈ (s.namespaces n').taskSet, i ∈ (s'.namespaces n').taskSet ∨ taskEnded s i = true := by
    intro he
    rw [he]
    exact ⟨Finset.Subset.refl _, fun _ hi => .inl hi⟩
  unfold shutdownStep at h
  dsimp only at h
  split at h
  · split at h <;> cases h <;> exact hsame rfl
  · cases h
    exact hsame (setNamespace_field (·.taskSet) (by rfl) n')
  · split at h
    · cases h
    · rename_i s₁ b' hb
      cases h
      exact hsame ((broadcastStep_steady hb).1.taskSet n')
    · rename_i s₁ hb
      cases h
      obtain ⟨rfl, -⟩ := broadcastStep_none hb
      exact hsame (setNamespace_field (·.taskSet) (by rfl) n')
  · split at h <;> cases h
    exact hsame (setNamespace_field (·.taskSet) (by rfl) n')
  · rename_i i
    split at h
    · rename_i hi
      cases h
      rw [setNamespace_namespaces]
      split
      · rename_i hn
        rw [hn]
        refine ⟨Finset.erase_subset _ _, fun j hj => ?_⟩
        by_cases hij : j = i
        · rw [hij]
          exact .inr hi.2
        · exact .inl (Finset.mem_erase.mpr ⟨hij, hj⟩)
      · exact ⟨Finset.Subset.refl _, fun _ hj => .inl hj⟩
    · cases h
  · split at h <;> cases h
    exact hsame rfl
  · cases h
    exact hsame (setNamespace_field (·.taskSet) (by rfl) n')
  · cases h

theorem step_spawns {a : ServerAction} (h : step cfg s a = some s') {n i : Nat}
    (hs : Spawns s a i n) : i ∈ (s'.namespaces n).taskSet := by
  obtain ⟨rfl, m, hm, rfl, habs⟩ := hs
  simp only [step, hm] at h
  split at h
  · obtain ⟨s₁, -, rfl⟩ := Option.map_eq_some_iff.mp h
    simp [spawn, habs, setNamespace_namespaces]
  · cases h

theorem step_taskSet {a : ServerAction} (h : step cfg s a = some s') (n i : Nat) :
    (i ∈ (s'.namespaces n).taskSet → i ∈ (s.namespaces n).taskSet ∨ Spawns s a i n) ∧
      (i ∈ (s.namespaces n).taskSet → i ∈ (s'.namespaces n).taskSet ∨ taskEnded s i = true) := by
  cases step_turn h with
  | rest statuses closedAll taskSet calls status =>
    rw [taskSet]
    exact ⟨id, fun hi => .inl (.inl hi)⟩
  | runs k j n' pc pc' x s₁ action thread step conns namespaces status own runtime sound others =>
    obtain ⟨hsub, hsup⟩ := shutdownStep_taskSet step n
    rw [namespaces]
    exact ⟨fun hi => .inl (hsub hi), hsup i⟩
  | _ =>
    rw [Steady.taskSet ‹_›]
    exact ⟨.inl, .inl⟩

theorem taskEnded_iff {i : Nat} {m : Member} (hm : s.conns i = some m) :
    taskEnded s i = m.conn.main.ended := by
  simp [taskEnded, hm]

theorem tasks_step {a : ServerAction} (h : step cfg s a = some s') (ht : Tasks s) : Tasks s' := by
  intro i m' hi hne
  -- a task that was in the set is there still, or over for good
  have hkeep : ∀ m, s.conns i = some m → m'.home = m.home → m.conn.main ≠ .absent →
      (m.conn.main.ended = true → m'.conn.main.ended = true) →
      i ∈ (s'.namespaces m'.home).taskSet ∨ m'.conn.main.ended = true := by
    intro m hm hhome hm₀ hended
    rw [hhome]
    rcases ht i m hm hm₀ with hin | hend
    · rcases (step_taskSet h m.home i).2 hin with hin | hend
      · exact .inl hin
      · exact .inr (hended (by rw [← taskEnded_iff hm]; exact hend))
    · exact .inr (hended hend)
  rcases step_conn h hi with ⟨-, -, he⟩ | ⟨m, hm, hhome, he⟩
  · rw [he] at hne
    exact absurd rfl hne
  · rcases he with he | ⟨b, hb, he⟩
    · rw [he] at hne
      exact hkeep m hm hhome hne (by rw [he]; exact id)
    · by_cases hm₀ : m.conn.main = .absent
      · have hgo := Connection.step_main_absent he hm₀ hne
        rcases hb with ⟨rfl, -⟩ | ⟨key, job, -, hb⟩
        · refine .inl (step_spawns h ⟨by rw [hgo], m, hm, hhome.symm, hm₀⟩)
        · rw [hb] at hgo
          cases hgo
      · refine hkeep m hm hhome hm₀ fun hend => ?_
        rw [Connection.step_main_ended he hend]
        exact hend

theorem tasks_of_reachable {guard : Runtime → ServerAction → Prop}
    (h : (system cfg).ReachableWhen guard s) : Tasks s := by
  refine h.invariant (I := Tasks) ?_ fun _ _ _ _ _ hs hi => tasks_step hs hi
  intro i m hi
  cases hi

/-- A task set holds tasks of requests to its namespace. -/
theorem mem_taskSet {guard : Runtime → ServerAction → Prop}
    (h : (system cfg).ReachableWhen guard s) {n i : Nat} (hi : i ∈ (s.namespaces n).taskSet) :
    ∃ m, s.conns i = some m ∧ m.home = n := by
  have hall : ∀ n i, i ∈ (s.namespaces n).taskSet → ∃ m, s.conns i = some m ∧ m.home = n := by
    refine h.invariant (I := fun s => ∀ n i, i ∈ (s.namespaces n).taskSet →
      ∃ m, s.conns i = some m ∧ m.home = n) ?_ ?_
    · intro n i hi
      simp [system, initial, initialNamespace] at hi
    · intro s a s' _ _ hs ih n i hi
      obtain ⟨m, hm, rfl⟩ : ∃ m, s.conns i = some m ∧ m.home = n := by
        rcases (step_taskSet hs n i).1 hi with hi | ⟨-, m, hm, hhome, -⟩
        · exact ih n i hi
        · exact ⟨m, hm, hhome⟩
      exact step_persists hs hm
  exact hall n i hi

/-! ## The steps of `close_all` -/

theorem enrolment_of_reachable {guard : Runtime → ServerAction → Prop}
    (h : (system cfg).ReachableWhen guard s) {i : Nat} {m : Member} (hi : s.conns i = some m) :
    m.conn.Enrolment :=
  Connection.enrolment_of_reachable (conn_reachable (g := fun _ _ => True)
    (fun _ _ _ _ _ _ => trivial) (fun _ _ _ _ _ _ _ _ => trivial) h hi)

/-- A complete snapshot covers every connection. -/
theorem covered_of_snapshot {guard : Runtime → ServerAction → Prop}
    (h : (system cfg).ReachableWhen guard s) {n : Nat} (hn : snapshotComplete s n = true) :
    Covered s n (s.namespaces n).connectionIds [] := by
  rintro i m hi rfl hcr
  have henrol := enrolment_of_reachable h hi
  rcases tasks_of_reachable h i m hi (by rintro ha; rw [ha] at hcr; cases hcr) with hin | hend
  · have hall := of_decide_eq_true hn i hin
    rw [hi] at hall
    simp only [Option.all_some, hcr, Bool.not_true, Bool.false_or, Bool.or_eq_true,
      decide_eq_true_eq] at hall
    refine hall.imp_right fun hid => .inl ⟨hid, ?_⟩
    obtain ⟨m', hm', -, hreg⟩ := (registered_of_reachable h .connectionIds m.home i).mp hid
    rw [hi] at hm'
    cases hm'
    exact henrol.first _ (Connection.mem_of_registered hreg)
  · refine .inl (henrol.down ?_)
    revert hend hcr
    cases m.conn.main <;>
      simp [MainPc.ended, MainPc.panicked, MainPc.connected, MainPc.created, MainPc.cleaning]

/-- A connection that was registered and is not in the map any more is down. -/
theorem down_of_notMem {guard : Runtime → ServerAction → Prop}
    (h : (system cfg).ReachableWhen guard s) {i : Nat} {m : Member} (hi : s.conns i = some m)
    (hop : .insert .connections ∈ Connection.registryOps m.conn.log)
    (hnot : i ∉ (s.namespaces m.home).connections) : isDown m.conn.state = true := by
  have henrol := enrolment_of_reachable h hi
  rcases Connection.registered_or_removed hop with hreg | hrem
  · refine absurd ?_ hnot
    exact (registered_of_reachable h .connections m.home i).mpr ⟨m, hi, .inl rfl, hreg⟩
  · exact henrol.down (henrol.removals _ hrem)

theorem start_close {c c' : Connection} {cfg : NamespaceConfig} {key : Nat}
    (h : Connection.step cfg c (.start key .close) = some c') :
    c'.callers key = .closing .get := by
  grind [Connection.step, Connection.entry]

theorem Pending.advance {guard : Runtime → ServerAction → Prop} {a : ServerAction} {n : Nat}
    {b b' : BroadcastPc} {x : CallInput} {s₁ : Runtime} (hr : (system cfg).ReachableWhen guard s)
    (h : step cfg s a = some s') (hn : (s.namespaces n).status ≠ .running)
    (hb : broadcastStep cfg s n .new .close b x = some (s₁, some b')) (hconns : s'.conns = s₁.conns)
    (hload : b = .load → snapshotComplete s n = true) (hp : Pending s n b) : Pending s' n b' := by
  unfold broadcastStep at hb
  split at hb
  · -- load
    simp only [Operator.new, if_true, Option.some.injEq, Prod.mk.injEq] at hb
    obtain ⟨-, rfl⟩ := hb
    exact ⟨rfl, (covered_of_snapshot hr (hload rfl)).step h hn⟩
  · exact absurd hp id
  · exact absurd hp id
  · cases hb
    have hcov : Covered s' n _ [] := hp.2.step h hn
    simpa [Pending, Operator.new] using hcov
  · exact absurd hp.1 (by simp)
  · -- target
    rename_i ids active i key
    dsimp only at hb
    split at hb
    · obtain ⟨⟨s₂, active'⟩, hst, he⟩ := Option.map_eq_some_iff.mp hb
      cases he
      have hcov : Covered s' n ids active := Covered.step hp h hn
      rcases startTarget_cases hst with ⟨hnot, rfl, rfl⟩ | ⟨m, c, hstart, rfl, rfl⟩
      · rintro j m' hj rfl hcr
        rcases hcov j m' hj rfl hcr with hd | ⟨hid, hop⟩ | hcall
        · exact .inl hd
        · by_cases hij : j = i
          · rw [hconns] at hj
            rw [← hij] at hnot
            exact .inl (down_of_notMem hr hj hop hnot)
          · exact .inr (.inl ⟨Finset.mem_erase.mpr ⟨hij, hid⟩, hop⟩)
        · exact .inr (.inr hcall)
      · rintro j m' hj hhome hcr
        by_cases hij : j = i
        · subst hij
          rw [hconns, setConn_conns, if_pos rfl, Option.some.injEq] at hj
          subst hj
          refine .inr (.inr ⟨key, ?_, .inl (start_close hstart.step)⟩)
          exact List.mem_append_right _ (List.mem_singleton_self _)
        · rcases hcov j m' hj hhome hcr with hd | ⟨hid, hop⟩ | ⟨key', hkey, hcall⟩
          · exact .inl hd
          · exact .inr (.inl ⟨Finset.mem_erase.mpr ⟨hij, hid⟩, hop⟩)
          · exact .inr (.inr ⟨key', List.mem_append_left _ hkey, hcall⟩)
    · cases hb
  · split at hb <;> cases hb
  · cases hb

/-! ## Every connection is reached -/

/-- How a shutdown gets into its `close_all` and out of it. -/
theorem shutdownStep_closeAll {n : Nat} {pc pc' : ShutdownPc} {x : CallInput}
    (h : shutdownStep cfg s n pc x = some (s', some pc')) :
    ((∀ n', (s'.namespaces n').closedAll = (s.namespaces n').closedAll) ∧
        (pc'.closed = true → pc.closed = true) ∨
      (s' = s.setNamespace n { s.namespaces n with closedAll := true } ∧
        ∃ active, pc = .closeAll (.each ∅ active) ∧ active.all (callerDone s) = true)) ∧
      (∀ b', pc' = .closeAll b' → pc = .store ∧ b' = .load ∨
        ∃ b, pc = .closeAll b ∧ broadcastStep cfg s n .new .close b x = some (s', some b')) := by
  unfold shutdownStep at h
  dsimp only at h
  split at h
  · split at h <;> cases h <;> exact ⟨.inl ⟨fun _ => rfl, by simp [ShutdownPc.closed]⟩, by simp⟩
  · cases h
    exact ⟨.inl ⟨setNamespace_field (·.closedAll) (by rfl), by simp [ShutdownPc.closed]⟩, by simp⟩
  · rename_i b
    split at h
    · cases h
    · rename_i s₁ b' hb
      cases h
      refine ⟨.inl ⟨(broadcastStep_steady hb).1.closedAll, by simp [ShutdownPc.closed]⟩, ?_⟩
      rintro _ ⟨⟩
      exact .inr ⟨_, rfl, hb⟩
    · rename_i s₁ hb
      cases h
      obtain ⟨rfl, active, rfl, hall⟩ := broadcastStep_none hb
      exact ⟨.inr ⟨rfl, active, rfl, hall⟩, by simp⟩
  · split at h <;> cases h
    exact ⟨.inl ⟨setNamespace_field (·.closedAll) (by rfl), fun _ => rfl⟩, by simp⟩
  · split at h <;> cases h
    exact ⟨.inl ⟨setNamespace_field (·.closedAll) (by rfl), fun _ => rfl⟩, by simp⟩
  · split at h <;> cases h
    exact ⟨.inl ⟨fun _ => rfl, fun _ => rfl⟩, by simp⟩
  · cases h
    exact ⟨.inl ⟨setNamespace_field (·.closedAll) (by rfl), by simp [ShutdownPc.closed]⟩, by simp⟩
  · cases h

/-- Every connection of the namespace is down, but for those lost in `init`. -/
def Reached (s : Runtime) (n : Nat) : Prop :=
  ∀ i m, s.conns i = some m → m.home = n → m.conn.main.connected = true →
    isDown m.conn.state = true

theorem Reached.created {n : Nat} (hr : Reached s n) {i : Nat} {m : Member}
    (hi : s.conns i = some m) (hhome : m.home = n) (hc : m.conn.main.created = true) :
    isDown m.conn.state = true ∨ m.conn.main = .initPanicked := by
  by_cases hp : m.conn.main = .initPanicked
  · exact .inr hp
  · exact .inl (hr i m hi hhome (by simp [MainPc.connected, hc, hp]))

theorem Reached.step {a : ServerAction} {n : Nat} (hr : Reached s n) (h : step cfg s a = some s')
    (hn : (s.namespaces n).status ≠ .running) : Reached s' n := by
  rintro i m' hi rfl hcr
  obtain ⟨m, hm, hhome, hcr', he⟩ := step_uncreated h hi hn hcr
  have hd := hr i m hm hhome.symm hcr'
  rcases he with he | ⟨b, he⟩
  · rw [he]
    exact hd
  · exact Connection.step_isDown he hd

/-- When every target was taken and every `close` call is done, nobody is left. -/
theorem Covered.reached {n : Nat} {active : List (Nat × Nat)} (hc : Covered s n ∅ active)
    (hall : active.all (callerDone s) = true) : Reached s n := by
  intro i m hi hhome hcr
  rcases hc i m hi hhome hcr with hd | ⟨hid, -⟩ | ⟨key, hkey, hcall⟩
  · exact hd
  · simp at hid
  · have hdone := List.all_eq_true.mp hall _ hkey
    rcases hcall with hcall | hcall <;> simp [callerDone, hi, hcall] at hdone

/-- What the shutdowns of a run with complete snapshots keep. -/
structure Reaching (s : Runtime) : Prop where
  pending : ∀ k, ∀ p ∈ shutdowns (s.calls k), ∀ b, p.2 = .closeAll b → Pending s p.1 b
  closed : ∀ k, ∀ p ∈ shutdowns (s.calls k), p.2.closed = true →
    (s.namespaces p.1).closedAll = true
  reached : ∀ n, (s.namespaces n).closedAll = true →
    (s.namespaces n).status ≠ .running ∧ Reached s n

theorem Pending.step {a : ServerAction} {n : Nat} {b : BroadcastPc} (hp : Pending s n b)
    (h : step cfg s a = some s') (hn : (s.namespaces n).status ≠ .running) : Pending s' n b := by
  cases b with
  | load => trivial
  | includeRooms rest ids => exact hp
  | excludeRooms rest ids => exact ⟨hp.1, hp.2.step h hn⟩
  | each ids active => exact Covered.step hp h hn

/-- The snapshot of the shutdown that moves is complete. -/
theorem snapshotComplete_of {a : ServerAction} {k j n : Nat} {x : CallInput}
    (ha : closeAllComplete s a = true)
    (haction : a = .call k x ∧ s.calls k = .shutdown n (.closeAll .load) ∨ a = .child k j x)
    (hthread : (shutdowns (s.calls k))[j]? = some (n, .closeAll .load)) :
    snapshotComplete s n = true := by
  rcases haction with ⟨rfl, hk⟩ | rfl
  · simpa [closeAllComplete, hk] using ha
  · simpa [closeAllComplete, hthread] using ha

/-- A flag `closedAll` is set by the end of a `close_all` that has reached everybody. -/
theorem closedAll_step {guard : Runtime → ServerAction → Prop} {a : ServerAction}
    (hr : (system cfg).ReachableWhen guard s) (h : step cfg s a = some s') (hi : Reaching s)
    {n : Nat} (hn : (s'.namespaces n).closedAll = true) :
    (s.namespaces n).closedAll = true ∨ (s.namespaces n).status ≠ .running ∧ Reached s n := by
  cases step_turn h with
  | rest statuses closedAll taskSet calls status =>
    rw [closedAll] at hn
    exact .inl hn
  | runs k j n' pc pc' x s₁ action thread step conns namespaces status own runtime sound others =>
    rw [namespaces] at hn
    have hmem := List.mem_of_getElem? thread
    obtain ⟨⟨hsame, -⟩ | ⟨rfl, active, rfl, hall⟩, -⟩ := shutdownStep_closeAll step
    · rw [hsame] at hn
      exact .inl hn
    · by_cases hnn : n = n'
      · subst hnn
        refine .inr ⟨(begun_of_reachable hr).namespaces k _ hmem rfl, ?_⟩
        exact Covered.reached (hi.pending k _ hmem _ rfl) hall
      · rw [setNamespace_namespaces, if_neg hnn] at hn
        exact .inl hn
  | _ =>
    rw [Steady.closedAll ‹_›] at hn
    exact .inl hn

/-- The flag stays. -/
theorem closedAll_mono {a : ServerAction} (h : step cfg s a = some s') {n : Nat}
    (hn : (s.namespaces n).closedAll = true) : (s'.namespaces n).closedAll = true := by
  cases step_turn h with
  | rest statuses closedAll taskSet calls status =>
    rw [closedAll]
    exact hn
  | runs k j n' pc pc' x s₁ action thread step conns namespaces status own runtime sound others =>
    rw [namespaces]
    obtain ⟨⟨hsame, -⟩ | ⟨rfl, -⟩, -⟩ := shutdownStep_closeAll step
    · rw [hsame]
      exact hn
    · rw [setNamespace_namespaces]
      split
      · rfl
      · exact hn
  | _ =>
    rw [Steady.closedAll ‹_›]
    exact hn

theorem reaching_step {guard : Runtime → ServerAction → Prop} {a : ServerAction}
    (hr : (system cfg).ReachableWhen guard s) (h : step cfg s a = some s')
    (ha : closeAllComplete s a = true) (hi : Reaching s) : Reaching s' := by
  have ht := step_turn h
  have hbegun := (begun_of_reachable hr).namespaces
  refine ⟨fun k p hp b hb => ?_, fun k p hp hcl => ?_, fun n hn => ?_⟩
  · rcases ht.thread hp with (hg | hp) | ⟨j, pc, x, s₁, haction, hthread, hs, hconns, -⟩
    · rw [hb] at hg
      cases hg
    · exact (hi.pending k p hp b hb).step h (hbegun k p hp (by rw [hb]; rfl))
    · -- the shutdown that moves: into its close_all, or on in it
      have hmem := List.mem_of_getElem? hthread
      rcases (shutdownStep_closeAll hs).2 b hb with ⟨-, rfl⟩ | ⟨b₀, rfl, hbr⟩
      · trivial
      · refine Pending.advance hr h (hbegun k (p.1, .closeAll b₀) hmem rfl) hbr hconns ?_
          (hi.pending k (p.1, .closeAll b₀) hmem b₀ rfl)
        rintro rfl
        exact snapshotComplete_of ha haction hthread
  · rcases ht.thread hp with (hg | hp) | ⟨j, pc, x, s₁, haction, hthread, hs, -, hns⟩
    · rw [hg] at hcl
      cases hcl
    · exact closedAll_mono h (hi.closed k p hp hcl)
    · have hmem := List.mem_of_getElem? hthread
      rw [hns]
      rcases (shutdownStep_closeAll hs).1 with ⟨hsame, hpc⟩ | ⟨rfl, -⟩
      · rw [hsame]
        exact hi.closed k (p.1, pc) hmem (hpc hcl)
      · rw [setNamespace_namespaces, if_pos rfl]
  · obtain ⟨hst, hreached⟩ : (s.namespaces n).status ≠ .running ∧ Reached s n := by
      rcases closedAll_step hr h hi hn with hn | hn
      · exact hi.reached n hn
      · exact hn
    exact ⟨ht.status_ne hst, hreached.step h hst⟩

theorem reaching_of_reachable
    (h : (system cfg).ReachableWhen (fun s a => closeAllComplete s a = true) s) : Reaching s := by
  refine h.invariant (I := Reaching) ?_ fun _ _ _ hr ha hs hi => reaching_step hr hs ha hi
  refine ⟨fun k p hp => ?_, fun k p hp => ?_, fun n hn => ?_⟩
  · cases hp
  · cases hp
  · cases hn

/-- **Shutdown reaches every connection.** In every run in which each `close_all` of a
shutdown takes its snapshot of `connection_ids` while no connection that exists is
unregistered and not down, unless its task has panicked in `init`: once a `close_all` of the
namespace has finished, no connection of the namespace is `Ready`, in this state or in any
later one (`closedAll` stays), every connection is down or was lost to such a panic, and a
shutdown that waits for the tasks of the namespace waits only for tasks without a connection
or with one that has been closed (a task that has panicked is over). -/
theorem close_all_reaches_every_connection {cfg : ServerConfig} {s : Runtime}
    (h : (system cfg).ReachableWhen (fun s a => closeAllComplete s a = true) s) (n : Nat) :
    ((s.namespaces n).closedAll = true →
      (∀ i m, s.conns i = some m → m.home = n → m.conn.state ≠ .ready ∧
        (m.conn.main.created = true → isDown m.conn.state = true ∨ m.conn.main = .initPanicked)) ∧
      ∀ a s', step cfg s a = some s' → (s'.namespaces n).closedAll = true) ∧
    ∀ k, (n, .join) ∈ shutdowns (s.calls k) → (s.namespaces n).closedAll = true ∧
      ∀ i ∈ (s.namespaces n).taskSet, ∃ m, s.conns i = some m ∧
        (m.conn.main.created = false ∨ isDown m.conn.state = true ∨
          m.conn.main = .initPanicked) := by
  have hi := reaching_of_reachable h
  refine ⟨fun hn => ⟨fun i m hm hhome => ⟨?_, (hi.reached n hn).2.created hm hhome⟩,
    fun a s' hs => closedAll_mono hs hn⟩, fun k hk => ?_⟩
  · have henrol := enrolment_of_reachable h hm
    by_cases hcr : m.conn.main.created = true
    · rcases (hi.reached n hn).2.created hm hhome hcr with hd | hp
      · intro hready
        rw [hready] at hd
        cases hd
      · exact henrol.not_ready (by rw [hp]; rfl)
    · refine henrol.not_ready ?_
      revert hcr
      cases m.conn.main <;> simp [MainPc.created, MainPc.early]
  · have hn := hi.closed k _ hk rfl
    refine ⟨hn, fun i hin => ?_⟩
    obtain ⟨m, hm, hhome⟩ := mem_taskSet h hin
    refine ⟨m, hm, ?_⟩
    by_cases hcr : m.conn.main.created = true
    · exact .inr ((hi.reached n hn).2.created hm hhome hcr)
    · exact .inl (by simpa using hcr)

/-- The call waits for the tasks of the namespace. -/
def isJoining (n : Nat) : Call → Bool
  | .shutdown n' .join => n' = n
  | _ => false

theorem close_all_reaches_every_connection_run :
    ∃ s m, (system (.postcard false)).Reachable s ∧ s.conns 0 = some m ∧
      m.conn.main.created = true ∧ 0 ∈ (s.namespaces 0).taskSet ∧
      (0, .join) ∈ shutdowns (s.calls 1) ∧ (s.namespaces 0).closedAll = true ∧
      m.conn.state ≠ .ready ∧ (isDown m.conn.state = true ∨ m.conn.main = .initPanicked) := by
  obtain ⟨s, hr, hs⟩ := System.exists_reachableWhen_of_execWhen
    (S := system (.postcard false)) (g := closeAllComplete)
    (l := List.flatten [readyRun, List.replicate 5 (.conn 0 (.read .go)), [.start 1 (.shutdown 0)],
      List.replicate 4 (.call 1 .go), [.call 1 (.target 0 0)],
      List.replicate 3 (.conn 0 (.caller 0)), List.replicate 2 (.call 1 .go)])
    (p := fun s => (s.conns 0).any (fun m => m.home = 0 && m.conn.main.created) &&
      decide (0 ∈ (s.namespaces 0).taskSet) && isJoining 0 (s.calls 1)) (by decide +kernel)
  simp only [Bool.and_eq_true, decide_eq_true_eq, Option.any_eq_true] at hs
  obtain ⟨⟨⟨m, hm, hhome, hcr⟩, htask⟩, hcall⟩ := hs
  have hjoin : (0, .join) ∈ shutdowns (s.calls 1) := by
    unfold isJoining at hcall
    split at hcall
    · rename_i n' hc
      rw [of_decide_eq_true hcall] at hc
      simp [hc, shutdowns]
    · cases hcall
  have hthm := close_all_reaches_every_connection hr 0
  have hclosed := (hthm.2 1 hjoin).1
  obtain ⟨hready, hdown⟩ := (hthm.1 hclosed).1 0 m hm hhome
  exact ⟨s, m, hr.reachable, hm, hcr, htask, hjoin, hclosed, hready, hdown hcr⟩

/-- A shutdown closes nobody while the handshake of the only connection is under way, and
the connection gets to `Ready` afterwards. -/
theorem connection_missed :
    ¬ ∀ s m, (system (.postcard false)).Reachable s → (s.namespaces 0).closedAll = true →
      s.conns 0 = some m → m.home = 0 → m.conn.state ≠ .ready := by
  intro h
  obtain ⟨s, hr, hs⟩ := System.exists_reachable_of_exec (S := system (.postcard false))
    (l := List.flatten [readyRun.take 16, [.start 1 (.shutdown 0)], List.replicate 5 (.call 1 .go),
      readyRun.drop 16])
    (p := fun s => decide ((s.namespaces 0).closedAll = true) &&
      (s.conns 0).any fun m => m.home = 0 && m.conn.state = .ready) (by decide +kernel)
  simp only [Bool.and_eq_true, decide_eq_true_eq, Option.any_eq_true] at hs
  obtain ⟨hclosed, m, hm, hhome, hready⟩ := hs
  exact h s m hr hclosed hm hhome hready

end Runtime

end WsIo.Server
