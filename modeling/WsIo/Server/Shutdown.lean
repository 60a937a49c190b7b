import WsIo.Server.RuntimeSteps

/-!
# Shutdowns and the status checks

`WsIoServerNamespace::shutdown`, `remove_namespace` and `WsIoServerRuntime::shutdown` all
come down to namespace shutdowns that no lock serialises: each looks at the status,
stores `Stopping`, awaits, and stores `Stopped`. `step_turn` says how a step of the server
moves the calls. A second shutdown that looks at the status in between panics
(`shutdown_panicked`), and so does every later one when a shutdown is dropped in between;
otherwise none does (`shutdown_never_panics`).
-/

namespace WsIo.Server

open Async Core

/-- The shutdown has stored `Stopping` and not yet `Stopped`. -/
def ShutdownPc.inside : ShutdownPc → Bool
  | .closeAll _ | .lock | .join | .storeStopped => true
  | _ => false

/-- The runtime's shutdown has stored `Stopping` and not yet `Stopped`. -/
def Call.insideRuntime : Call → Bool
  | .runtimeClone | .runtimeJoin _ | .runtimeStoreStopped => true
  | _ => false

def Call.isPanicked : Call → Bool
  | .panicked => true
  | _ => false

namespace Runtime

variable {cfg : ServerConfig} {s s' : Runtime}

/-! ## How a step moves the calls -/

/-- Statuses and task sets are as before. -/
structure Steady (s s' : Runtime) : Prop where
  status : ∀ n, (s'.namespaces n).status = (s.namespaces n).status
  closedAll : ∀ n, (s'.namespaces n).closedAll = (s.namespaces n).closedAll
  taskSet : ∀ n, (s'.namespaces n).taskSet = (s.namespaces n).taskSet

theorem Steady.of_namespaces (h : s'.namespaces = s.namespaces) : Steady s s' :=
  ⟨fun n => by rw [h], fun n => by rw [h], fun n => by rw [h]⟩

theorem Steady.trans {s₁ s₂ s₃ : Runtime} (h : Steady s₁ s₂) (h' : Steady s₂ s₃) :
    Steady s₁ s₃ :=
  ⟨fun n => (h'.status n).trans (h.status n), fun n => (h'.closedAll n).trans (h.closedAll n),
    fun n => (h'.taskSet n).trans (h.taskSet n)⟩

theorem Steady.setNamespace {n : Nat} {x : Namespace} (h₁ : x.status = (s.namespaces n).status)
    (h₂ : x.closedAll = (s.namespaces n).closedAll) (h₃ : x.taskSet = (s.namespaces n).taskSet) :
    Steady s (s.setNamespace n x) :=
  ⟨setNamespace_field _ h₁, setNamespace_field _ h₂, setNamespace_field _ h₃⟩

theorem Steady.releaseLocks (l : List (Nat × ShutdownPc)) (s : Runtime) :
    Steady s (l.foldl Runtime.releaseLock s) := by
  induction l generalizing s with
  | nil => exact .of_namespaces rfl
  | cons p l ih =>
    refine Steady.trans ?_ (ih _)
    unfold Runtime.releaseLock
    split
    · exact .setNamespace rfl rfl rfl
    · exact .setNamespace rfl rfl rfl
    · exact .of_namespaces rfl

theorem releaseLocks_calls (l : List (Nat × ShutdownPc)) (s : Runtime) :
    (l.foldl releaseLock s).calls = s.calls ∧ (l.foldl releaseLock s).status = s.status := by
  induction l generalizing s with
  | nil => exact ⟨rfl, rfl⟩
  | cons p l ih =>
    rw [List.foldl_cons, (ih _).1, (ih _).2]
    unfold releaseLock
    split <;> exact ⟨rfl, rfl⟩

theorem Steady.access (home i : Nat) (op : Option RegistryOp) :
    Steady s (s.access home i op) := by
  cases op with
  | none => exact .of_namespaces rfl
  | some op =>
    have hx : (Namespace.access (s.namespaces home) i op).status = (s.namespaces home).status ∧
        (Namespace.access (s.namespaces home) i op).closedAll = (s.namespaces home).closedAll ∧
        (Namespace.access (s.namespaces home) i op).taskSet = (s.namespaces home).taskSet := by
      unfold Namespace.access
      split <;> exact ⟨rfl, rfl, rfl⟩
    have hset : Steady s (s.setNamespace home (Namespace.access (s.namespaces home) i op)) :=
      .setNamespace hx.1 hx.2.1 hx.2.2
    exact hset.trans (.of_namespaces rfl)

/-- The step spawns the task of request `i` into the task set of the namespace. -/
def Spawns (s : Runtime) (a : ServerAction) (i n : Nat) : Prop :=
  a = .conn i (.main .go) ∧ ∃ m, s.conns i = some m ∧ m.home = n ∧ m.conn.main = .absent

/-- The step is the status check of a shutdown of the namespace. -/
def LooksAt (s : Runtime) (n : Nat) : ServerAction → Prop
  | .call k _ => s.calls k = .shutdown n .get
  | .child k j _ => (shutdowns (s.calls k))[j]? = some (n, .get)
  | _ => False

/-- The step is the status check of a shutdown of the runtime. -/
def LooksAtRuntime (s : Runtime) : ServerAction → Prop
  | .call k _ => s.calls k = .runtimeGet
  | _ => False

/-- What a step does with the calls in progress. -/
inductive Turn (cfg : ServerConfig) (s : Runtime) (a : ServerAction) (s' : Runtime) : Prop
  /-- A step of a connection, or a new request. -/
  | rest (statuses : ∀ n, (s'.namespaces n).status = (s.namespaces n).status)
      (closedAll : ∀ n, (s'.namespaces n).closedAll = (s.namespaces n).closedAll)
      (taskSet : ∀ n i, i ∈ (s'.namespaces n).taskSet ↔
        i ∈ (s.namespaces n).taskSet ∨ Spawns s a i n)
      (calls : s'.calls = s.calls) (status : s'.status = s.status)
  /-- A namespace shutdown, alone or joined by the runtime's, moves on. -/
  | runs (k j n : Nat) (pc pc' : ShutdownPc) (x : CallInput) (s₁ : Runtime)
      (action : a = .call k x ∧ s.calls k = .shutdown n pc ∨ a = .child k j x)
      (thread : (shutdowns (s.calls k))[j]? = some (n, pc))
      (step : shutdownStep cfg s n pc x = some (s₁, some pc'))
      (conns : s'.conns = s₁.conns) (namespaces : s'.namespaces = s₁.namespaces)
      (status : s'.status = s.status)
      (own : shutdowns (s'.calls k) = (shutdowns (s.calls k)).set j (n, pc'))
      (runtime : (s'.calls k).insideRuntime = (s.calls k).insideRuntime)
      (sound : (s'.calls k).isPanicked = false)
      (others : ∀ i, i ≠ k → s'.calls i = s.calls i)
  /-- A call that runs no shutdown moves on; the shutdowns it begins are at their check. -/
  | moves (k : Nat) (steady : Steady s s')
      (before : shutdowns (s.calls k) = [] ∧ (s.calls k).insideRuntime = false)
      (after : (∀ p ∈ shutdowns (s'.calls k), p.2 = .get) ∧
        (s'.calls k).insideRuntime = false ∧ (s'.calls k).isPanicked = false)
      (status : s'.status = s.status) (others : ∀ i, i ≠ k → s'.calls i = s.calls i)
  /-- The runtime's shutdown stores `Stopping`. -/
  | stores (k : Nat) (steady : Steady s s') (before : s.calls k = .runtimeStore)
      (after : s'.calls k = .runtimeClone) (status : s'.status = .stopping)
      (others : ∀ i, i ≠ k → s'.calls i = s.calls i)
  /-- It begins the shutdowns of its namespaces, or has seen them end. -/
  | joins (k : Nat) (steady : Steady s s')
      (before : (s.calls k).insideRuntime = true ∧ ∀ p ∈ shutdowns (s.calls k), p.2 = .finished)
      (after : (∀ p ∈ shutdowns (s'.calls k), p.2 = .get) ∧
        (s'.calls k).insideRuntime = true ∧ (s'.calls k).isPanicked = false)
      (status : s'.status = s.status) (others : ∀ i, i ≠ k → s'.calls i = s.calls i)
  /-- It stores `Stopped`. -/
  | stops (k : Nat) (steady : Steady s s') (before : s.calls k = .runtimeStoreStopped)
      (after : s'.calls k = .done (.ok ())) (status : s'.status = .stopped)
      (others : ∀ i, i ≠ k → s'.calls i = s.calls i)
  /-- The future of a call is dropped where it awaits. -/
  | drops (k : Nat) (steady : Steady s s') (action : a = .drop k)
      (after : s'.calls k = .dropped) (status : s'.status = s.status)
      (others : ∀ i, i ≠ k → s'.calls i = s.calls i)
  /-- A check sees `Stopping`. -/
  | panics (k : Nat) (steady : Steady s s') (after : s'.calls k = .panicked)
      (observed : LooksAtRuntime s a ∧ s.status = .stopping ∨
        ∃ n, LooksAt s n a ∧ (s.namespaces n).status = .stopping)
      (status : s'.status = s.status) (others : ∀ i, i ≠ k → s'.calls i = s.calls i)

/-- A shutdown touches no call and not the status of the runtime, and panics at its check
only. -/
theorem shutdownStep_calls {n : Nat} {pc : ShutdownPc} {x : CallInput} {r : Option ShutdownPc}
    (h : shutdownStep cfg s n pc x = some (s', r)) :
    s'.calls = s.calls ∧ s'.status = s.status ∧
      (r = none → pc = .get ∧ (s.namespaces n).status = .stopping ∧ s' = s) := by
  unfold shutdownStep at h
  dsimp only at h
  split at h
  · split at h
    · cases h
      simp
    · cases h
      simp
    · rename_i hs
      cases h
      simp [hs]
  · cases h
    simp
  · split at h
    · cases h
    · rename_i s₁ b' hb
      cases h
      rcases broadcastStep_cases hb with rfl | ⟨i, key, m, c, -, -, rfl⟩ <;> simp
    · rename_i s₁ hb
      cases h
      obtain ⟨rfl, -⟩ := broadcastStep_none hb
      simp
  · split at h <;> cases h
    simp
  · split at h <;> cases h
    simp
  · split at h <;> cases h
    simp
  · cases h
    simp
  · cases h

theorem broadcastStep_steady {n : Nat} {op : Operator} {job : Job} {pc : BroadcastPc}
    {x : CallInput} {r : Option BroadcastPc}
    (h : broadcastStep cfg s n op job pc x = some (s', r)) :
    Steady s s' ∧ s'.calls = s.calls ∧ s'.status = s.status := by
  rcases broadcastStep_cases h with rfl | ⟨i, key, m, c, -, -, rfl⟩
  · exact ⟨.of_namespaces rfl, rfl, rfl⟩
  · exact ⟨.of_namespaces rfl, rfl, rfl⟩

theorem calls_setCall_of_ne {k i : Nat} {c : Call} (h : i ≠ k) :
    (s.setCall k c).calls i = s.calls i := by
  rw [setCall_calls, if_neg h]

/-- A call that runs no shutdown is replaced by one that runs none or is about to begin. -/
theorem Turn.setCall {s₁ : Runtime} {a : ServerAction} {k : Nat} {c : Call} (hst : Steady s s₁)
    (hc : s₁.calls = s.calls) (hs : s₁.status = s.status)
    (before : shutdowns (s.calls k) = [] ∧ (s.calls k).insideRuntime = false)
    (after : (∀ p ∈ shutdowns c, p.2 = .get) ∧ c.insideRuntime = false ∧ c.isPanicked = false) :
    Turn cfg s a (s₁.setCall k c) := by
  refine .moves k (hst.trans (.of_namespaces rfl)) before ?_ hs fun i hi => ?_
  · rw [setCall_calls, if_pos rfl]
    exact after
  · rw [calls_setCall_of_ne hi, hc]

theorem callStep_turn {k : Nat} {x : CallInput} (h : callStep cfg s k x = some s') :
    Turn cfg s (.call k x) s' := by
  have hquiet : Steady s s := .of_namespaces rfl
  unfold callStep at h
  split at h
  case h_1 n op job pc hk =>
    split at h
    · cases h
    · rename_i s₁ pc' hb
      cases h
      obtain ⟨hst, hc, hs⟩ := broadcastStep_steady hb
      exact .setCall hst hc hs (by simp [hk, shutdowns, Call.insideRuntime])
        (by simp [shutdowns, Call.insideRuntime, Call.isPanicked])
    · rename_i s₁ hb
      cases h
      obtain ⟨hst, hc, hs⟩ := broadcastStep_steady hb
      exact .setCall hst hc hs (by simp [hk, shutdowns, Call.insideRuntime])
        (by simp [shutdowns, Call.insideRuntime, Call.isPanicked])
  case h_2 n op event data hk =>
    have before : shutdowns (s.calls k) = [] ∧ (s.calls k).insideRuntime = false := by
      simp [hk, shutdowns, Call.insideRuntime]
    split at h
    · cases h
      exact .setCall hquiet rfl rfl before (by simp [shutdowns, Call.insideRuntime, Call.isPanicked])
    · split at h <;> cases h <;> exact .setCall hquiet rfl rfl before
        (by simp [shutdowns, Call.insideRuntime, Call.isPanicked])
  case h_3 n pc hk =>
    obtain ⟨⟨s₁, r⟩, hs, rfl⟩ := Option.map_eq_some_iff.mp h
    obtain ⟨hc, hst, hnone⟩ := shutdownStep_calls hs
    have hthread : (shutdowns (s.calls k))[0]? = some (n, pc) := by simp [hk, shutdowns]
    cases r with
    | some pc' =>
      refine .runs k 0 n pc pc' x s₁ (.inl ⟨rfl, hk⟩) hthread hs rfl rfl hst ?_ ?_ ?_ fun i hi => ?_
      · simp [afterShutdown, setCall_calls, hk, shutdowns]
      · simp [afterShutdown, setCall_calls, hk, Call.insideRuntime]
      · simp [afterShutdown, setCall_calls, Call.isPanicked]
      · rw [afterShutdown, calls_setCall_of_ne hi, hc]
    | none =>
      obtain ⟨rfl, hobs, rfl⟩ := hnone rfl
      refine .panics k (.of_namespaces rfl) ?_ (.inr ⟨n, hk, hobs⟩) hst fun i hi => ?_
      · simp [afterShutdown, setCall_calls]
      · rw [afterShutdown, calls_setCall_of_ne hi, hc]
  case h_4 path hk =>
    have before : shutdowns (s.calls k) = [] ∧ (s.calls k).insideRuntime = false := by
      simp [hk, shutdowns, Call.insideRuntime]
    split at h
    · cases h
      exact .setCall hquiet rfl rfl before (by simp [shutdowns, Call.insideRuntime, Call.isPanicked])
    · cases h
      exact .setCall (.of_namespaces rfl) rfl rfl before
        (by simp [shutdowns, Call.insideRuntime, Call.isPanicked])
  case h_5 n hk =>
    split at h <;> cases h <;> exact .setCall hquiet rfl rfl
      (by simp [hk, shutdowns, Call.insideRuntime])
      (by simp [shutdowns, Call.insideRuntime, Call.isPanicked])
  case h_6 n hk =>
    cases h
    have hpaths : Steady s { s with
        paths := (cfg.path n, n) :: s.paths.filter (·.1 ≠ cfg.path n) } := .of_namespaces rfl
    exact .setCall (hpaths.trans (.setNamespace rfl rfl rfl)) rfl rfl
      (by simp [hk, shutdowns, Call.insideRuntime])
      (by simp [shutdowns, Call.insideRuntime, Call.isPanicked])
  case h_7 hk =>
    have before : shutdowns (s.calls k) = [] ∧ (s.calls k).insideRuntime = false := by
      simp [hk, shutdowns, Call.insideRuntime]
    split at h
    · cases h
      exact .setCall hquiet rfl rfl before (by simp [shutdowns, Call.insideRuntime, Call.isPanicked])
    · cases h
      exact .setCall hquiet rfl rfl before (by simp [shutdowns, Call.insideRuntime, Call.isPanicked])
    · rename_i hst
      cases h
      refine .panics k (.of_namespaces rfl) ?_ (.inl ⟨hk, hst⟩) rfl fun i hi => ?_
      · simp [setCall_calls]
      · rw [calls_setCall_of_ne hi]
  case h_8 hk =>
    cases h
    refine .stores k (.of_namespaces rfl) hk ?_ rfl fun i hi => ?_
    · simp [setCall_calls]
    · rw [calls_setCall_of_ne hi]
  case h_9 hk =>
    cases h
    refine .joins k (.of_namespaces rfl) ?_ ?_ rfl fun i hi => ?_
    · simp [hk, shutdowns, Call.insideRuntime]
    · rw [setCall_calls, if_pos rfl]
      refine ⟨fun p hp => ?_, rfl, rfl⟩
      obtain ⟨q, -, rfl⟩ := List.mem_map.mp hp
      rfl
    · rw [calls_setCall_of_ne hi]
  case h_10 children hk =>
    split at h
    · rename_i hall
      cases h
      refine .joins k (.of_namespaces rfl) ⟨by simp [hk, Call.insideRuntime], ?_⟩ ?_ rfl fun i hi => ?_
      · intro p hp
        rw [hk] at hp
        have := List.all_eq_true.mp hall p hp
        cases hpc : p.2 <;> simp [hpc] at this ⊢
      · simp [setCall_calls, shutdowns, Call.insideRuntime, Call.isPanicked]
      · rw [calls_setCall_of_ne hi]
    · cases h
  case h_11 hk =>
    cases h
    refine .stops k (.of_namespaces rfl) hk ?_ rfl fun i hi => ?_
    · simp [setCall_calls]
    · rw [calls_setCall_of_ne hi]
  all_goals cases h

theorem childStep_turn {k j : Nat} {x : CallInput} (h : childStep cfg s k j x = some s') :
    Turn cfg s (.child k j x) s' := by
  unfold childStep at h
  split at h
  · rename_i children hk
    split at h
    · cases h
    · rename_i n pc hj
      have hthread : (shutdowns (s.calls k))[j]? = some (n, pc) := by simpa [hk, shutdowns] using hj
      split at h
      · cases h
      · rename_i s₁ pc' hs
        cases h
        obtain ⟨hc, hst, -⟩ := shutdownStep_calls hs
        refine .runs k j n pc pc' x s₁ (.inr rfl) hthread hs rfl rfl hst ?_ ?_ ?_ fun i hi => ?_
        · simp [setCall_calls, hk, shutdowns]
        · simp [setCall_calls, hk, Call.insideRuntime]
        · simp [setCall_calls, Call.isPanicked]
        · rw [calls_setCall_of_ne hi, hc]
      · rename_i s₁ hs
        cases h
        obtain ⟨-, -, hnone⟩ := shutdownStep_calls hs
        obtain ⟨rfl, hobs, rfl⟩ := hnone rfl
        obtain ⟨hc, hst⟩ := releaseLocks_calls children s₁
        refine .panics k ((Steady.releaseLocks children s₁).trans (.of_namespaces rfl)) ?_
          (.inr ⟨n, hthread, hobs⟩) hst fun i hi => ?_
        · simp [setCall_calls]
        · rw [calls_setCall_of_ne hi, hc]
  · cases h

/-- **How a step of the server moves the calls.** -/
theorem step_turn {a : ServerAction} (h : step cfg s a = some s') : Turn cfg s a s' := by
  unfold step at h
  split at h
  · rename_i i path
    split at h
    · cases h
      exact .rest (fun _ => rfl) (fun _ => rfl) (by simp [Spawns]) rfl rfl
    · cases h
  · rename_i i b
    split at h
    · cases h
    · rename_i m hm
      split at h
      · obtain ⟨s₁, hs, rfl⟩ := Option.map_eq_some_iff.mp h
        unfold connStep at hs
        rw [hm] at hs
        dsimp only at hs
        split at hs
        · cases hs
        · rename_i c hc
          cases hs
          have hset : Steady s (s.setConn i ⟨m.home, c⟩) := .of_namespaces rfl
          have hacc := hset.trans (.access m.home i (Connection.effect m.conn b))
          unfold spawn
          split
          · rename_i hsp
            refine .rest (fun n => ?_) (fun n => ?_) (fun n j => ?_) (by simp) (by simp)
            · rw [← hacc.status]
              exact setNamespace_field (·.status) (by rfl) n
            · rw [← hacc.closedAll]
              exact setNamespace_field (·.closedAll) (by rfl) n
            · rw [setNamespace_namespaces, ← hacc.taskSet]
              split
              · rename_i hn
                subst hn
                rw [Finset.mem_insert, or_comm]
                refine or_congr_right ⟨?_, ?_⟩
                · rintro rfl
                  exact ⟨by rw [hsp.2], m, hm, rfl, hsp.1⟩
                · rintro ⟨he, -⟩
                  cases he
                  rfl
              · rename_i hn
                refine (or_iff_left ?_).symm
                rintro ⟨he, m', hm', hhome, -⟩
                cases he
                rw [hm] at hm'
                cases hm'
                exact hn hhome.symm
          · rename_i hsp
            refine .rest hacc.status hacc.closedAll (fun n j => ?_) (by simp) (by simp)
            rw [hacc.taskSet]
            refine (or_iff_left ?_).symm
            rintro ⟨he, m', hm', -, habs⟩
            cases he
            rw [hm] at hm'
            cases hm'
            exact hsp ⟨habs, rfl⟩
      · cases h
  · rename_i k r
    split at h
    · rename_i hk
      obtain ⟨c, hc, rfl⟩ := Option.map_eq_some_iff.mp h
      have hcreate : Steady s (create s r) ∧ (create s r).calls = s.calls ∧
          (create s r).status = s.status := by
        unfold create
        split
        · exact ⟨.setNamespace rfl rfl rfl, rfl, rfl⟩
        · exact ⟨.of_namespaces rfl, rfl, rfl⟩
      refine .setCall hcreate.1 hcreate.2.1 hcreate.2.2 (by simp [hk, shutdowns, Call.insideRuntime]) ?_
      unfold entry at hc
      split at hc
      all_goals grind [shutdowns, Call.insideRuntime, Call.isPanicked]
    · cases h
  · exact callStep_turn h
  · exact childStep_turn h
  · rename_i k
    split at h
    · cases h
      obtain ⟨hc, hst⟩ := releaseLocks_calls (shutdowns (s.calls k)) s
      refine .drops k ((Steady.releaseLocks _ s).trans (.of_namespaces rfl)) rfl ?_ hst fun i hi => ?_
      · simp [setCall_calls]
      · rw [calls_setCall_of_ne hi, hc]
    · cases h

/-! ## Statuses -/

/-- A shutdown stores `Stopping` as it enters and `Stopped` as it leaves. -/
theorem shutdownStep_status {n : Nat} {pc pc' : ShutdownPc} {x : CallInput}
    (h : shutdownStep cfg s n pc x = some (s', some pc')) :
    (∀ n', n' ≠ n → (s'.namespaces n').status = (s.namespaces n').status) ∧
      ((s'.namespaces n).status = (s.namespaces n).status ∧ pc'.inside = pc.inside ∨
        pc.inside = false ∧ (s'.namespaces n).status = .stopping ∧ pc'.inside = true ∨
        pc.inside = true ∧ (s'.namespaces n).status = .stopped ∧ pc'.inside = false) := by
  unfold shutdownStep at h
  dsimp only at h
  split at h
  · split at h <;> cases h <;> exact ⟨fun _ _ => rfl, .inl ⟨rfl, rfl⟩⟩
  · cases h
    refine ⟨fun n' hn => ?_, .inr (.inl ⟨rfl, ?_, rfl⟩)⟩
    · rw [setNamespace_namespaces, if_neg hn]
    · rw [setNamespace_namespaces, if_pos rfl]
  · split at h
    · cases h
    · rename_i s₁ b' hb
      cases h
      obtain ⟨hst, -, -⟩ := broadcastStep_steady hb
      exact ⟨fun n' _ => hst.status n', .inl ⟨hst.status n, rfl⟩⟩
    · rename_i s₁ hb
      cases h
      obtain ⟨rfl, -⟩ := broadcastStep_none hb
      exact ⟨fun n' _ => setNamespace_field (·.status) (by rfl) n',
        .inl ⟨setNamespace_field (·.status) (by rfl) n, rfl⟩⟩
  · split at h <;> cases h
    exact ⟨fun n' _ => setNamespace_field (·.status) (by rfl) n',
      .inl ⟨setNamespace_field (·.status) (by rfl) n, rfl⟩⟩
  · split at h <;> cases h
    exact ⟨fun n' _ => setNamespace_field (·.status) (by rfl) n',
      .inl ⟨setNamespace_field (·.status) (by rfl) n, rfl⟩⟩
  · split at h <;> cases h
    exact ⟨fun _ _ => rfl, .inl ⟨rfl, rfl⟩⟩
  · cases h
    refine ⟨fun n' hn => ?_, .inr (.inr ⟨rfl, ?_, rfl⟩)⟩
    · rw [setNamespace_namespaces, if_neg hn]
    · rw [setNamespace_namespaces, if_pos rfl]
  · cases h

/-- Some shutdown of the namespace is between its two stores. -/
def ShuttingDown (s : Runtime) (n : Nat) : Prop :=
  ∃ k, ∃ p ∈ shutdowns (s.calls k), p.1 = n ∧ p.2.inside = true

/-- No shutdown is inside, and none is dropped there, in a step that could see it. -/
structure ChecksAlone (s : Runtime) (a : ServerAction) : Prop where
  /-- A namespace shutdown looks at the status while no other one of that namespace has
  stored `Stopping` and not yet `Stopped`. -/
  namespaceCheck : ∀ n, LooksAt s n a → ¬ ShuttingDown s n
  /-- The same for shutdowns of the runtime. -/
  runtimeCheck : LooksAtRuntime s a → ∀ k, (s.calls k).insideRuntime = false
  /-- No shutdown is dropped between its two stores. -/
  drop : ∀ k, a = .drop k → (s.calls k).insideRuntime = false ∧
    ∀ p ∈ shutdowns (s.calls k), p.2.inside = false

/-- A status is `Stopping` only while some shutdown is between its two stores. -/
structure Accounted (s : Runtime) : Prop where
  sound : ∀ k, (s.calls k).isPanicked = false
  namespaces : ∀ n, (s.namespaces n).status = .stopping → ShuttingDown s n
  runtime : s.status = .stopping → ∃ k, (s.calls k).insideRuntime = true

/-- Shutdowns inside stay when only one call changes and that call had none inside. -/
theorem ShuttingDown.keep {n k : Nat} (h : ShuttingDown s n)
    (hk : ∀ p ∈ shutdowns (s.calls k), p.2.inside = false)
    (others : ∀ i, i ≠ k → s'.calls i = s.calls i) : ShuttingDown s' n := by
  obtain ⟨i, p, hp, hn, hin⟩ := h
  by_cases hi : i = k
  · subst hi
    rw [hk p hp] at hin
    cases hin
  · exact ⟨i, p, by rw [others i hi]; exact hp, hn, hin⟩

theorem insideRuntime_keep {k : Nat} (h : ∃ i, (s.calls i).insideRuntime = true)
    (hk : (s.calls k).insideRuntime = false) (others : ∀ i, i ≠ k → s'.calls i = s.calls i) :
    ∃ i, (s'.calls i).insideRuntime = true := by
  obtain ⟨i, hi⟩ := h
  refine ⟨i, ?_⟩
  rw [others i fun h => by rw [h, hk] at hi; cases hi]
  exact hi

theorem isPanicked_keep {k : Nat} (h : ∀ i, (s.calls i).isPanicked = false)
    (hk : (s'.calls k).isPanicked = false) (others : ∀ i, i ≠ k → s'.calls i = s.calls i)
    (i : Nat) : (s'.calls i).isPanicked = false := by
  by_cases hi : i = k
  · rw [hi]
    exact hk
  · rw [others i hi]
    exact h i

theorem accounted_step {a : ServerAction} (h : step cfg s a = some s') (ha : ChecksAlone s a)
    (hi : Accounted s) : Accounted s' := by
  cases step_turn h with
  | rest statuses closedAll taskSet calls status =>
    refine ⟨fun k => by rw [calls]; exact hi.sound k, fun n hn => ?_, fun hst => ?_⟩
    · rw [statuses] at hn
      obtain ⟨k, p, hp, hpn⟩ := hi.namespaces n hn
      exact ⟨k, p, by rw [calls]; exact hp, hpn⟩
    · rw [status] at hst
      rw [calls]
      exact hi.runtime hst
  | runs k j n pc pc' x s₁ action thread step conns namespaces status own runtime sound others =>
    obtain ⟨hother, hown⟩ := shutdownStep_status step
    have hj : j < (shutdowns (s.calls k)).length := (List.getElem?_eq_some_iff.mp thread).1
    have hnew : (n, pc') ∈ shutdowns (s'.calls k) := by
      rw [own]
      exact List.mem_set hj _
    -- a shutdown inside other than the one that moves is where it was
    have hkeep : ∀ n', ShuttingDown s n' → ¬ (n' = n ∧ pc.inside = true) → ShuttingDown s' n' := by
      rintro n' ⟨i, p, hp, hn, hin⟩ hne
      by_cases hik : i = k
      · subst hik
        obtain ⟨j', hj', rfl⟩ := List.getElem_of_mem hp
        have hjj : j' ≠ j := by
          rintro rfl
          rw [List.getElem?_eq_getElem hj', Option.some.injEq] at thread
          rw [thread] at hn hin
          exact hne ⟨hn.symm, hin⟩
        refine ⟨i, _, ?_, hn, hin⟩
        rw [own]
        refine List.mem_of_getElem? (i := j') ?_
        rw [List.getElem?_set_ne hjj.symm, List.getElem?_eq_getElem hj']
      · exact ⟨i, p, by rw [others i hik]; exact hp, hn, hin⟩
    refine ⟨isPanicked_keep hi.sound sound others, fun n' hn' => ?_, fun hst => ?_⟩
    · rw [namespaces] at hn'
      by_cases hnn : n' = n
      · subst hnn
        rcases hown with ⟨hs, hin⟩ | ⟨-, -, hin⟩ | ⟨-, hs, -⟩
        · rw [hs] at hn'
          by_cases hpc : pc.inside = true
          · exact ⟨k, _, hnew, rfl, by rw [hin]; exact hpc⟩
          · exact hkeep n' (hi.namespaces n' hn') fun h => hpc h.2
        · exact ⟨k, _, hnew, rfl, hin⟩
        · rw [hs] at hn'
          cases hn'
      · rw [hother n' hnn] at hn'
        exact hkeep n' (hi.namespaces n' hn') fun h => hnn h.1
    · rw [status] at hst
      obtain ⟨i, hin⟩ := hi.runtime hst
      refine ⟨i, ?_⟩
      by_cases hik : i = k
      · rw [hik, runtime, ← hik]
        exact hin
      · rw [others i hik]
        exact hin
  | moves k steady before after status others =>
    refine ⟨isPanicked_keep hi.sound after.2.2 others, fun n hn => ?_, fun hst => ?_⟩
    · rw [steady.status] at hn
      exact (hi.namespaces n hn).keep (by simp [before.1]) others
    · rw [status] at hst
      exact insideRuntime_keep (hi.runtime hst) before.2 others
  | stores k steady before after status others =>
    refine ⟨isPanicked_keep hi.sound (by rw [after]; rfl) others, fun n hn => ?_, fun _ => ?_⟩
    · rw [steady.status] at hn
      exact (hi.namespaces n hn).keep (by simp [before, shutdowns]) others
    · exact ⟨k, by rw [after]; rfl⟩
  | joins k steady before after status others =>
    refine ⟨isPanicked_keep hi.sound after.2.2 others, fun n hn => ?_, fun _ => ⟨k, after.2.1⟩⟩
    rw [steady.status] at hn
    refine (hi.namespaces n hn).keep (fun p hp => ?_) others
    rw [before.2 p hp]
    rfl
  | stops k steady before after status others =>
    refine ⟨isPanicked_keep hi.sound (by rw [after]; rfl) others, fun n hn => ?_, fun hst => ?_⟩
    · rw [steady.status] at hn
      exact (hi.namespaces n hn).keep (by simp [before, shutdowns]) others
    · rw [status] at hst
      cases hst
  | drops k steady action after status others =>
    obtain ⟨hr, hp⟩ := ha.drop k action
    refine ⟨isPanicked_keep hi.sound (by rw [after]; rfl) others, fun n hn => ?_, fun hst => ?_⟩
    · rw [steady.status] at hn
      exact (hi.namespaces n hn).keep hp others
    · rw [status] at hst
      exact insideRuntime_keep (hi.runtime hst) hr others
  | panics k steady after observed status others =>
    -- the check is alone, so the status it sees is accounted for by nobody
    rcases observed with ⟨hlook, hst⟩ | ⟨n, hlook, hst⟩
    · obtain ⟨i, hin⟩ := hi.runtime hst
      rw [ha.runtimeCheck hlook i] at hin
      cases hin
    · exact absurd (hi.namespaces n hst) (ha.namespaceCheck n hlook)

/-! ## A namespace does not come back -/

theorem thread_of_others {k k' : Nat} (others : ∀ i, i ≠ k' → s'.calls i = s.calls i)
    (after : ∀ p ∈ shutdowns (s'.calls k'), p.2 = .get) {p : Nat × ShutdownPc}
    (hp : p ∈ shutdowns (s'.calls k)) : p.2 = .get ∨ p ∈ shutdowns (s.calls k) := by
  by_cases hk : k = k'
  · rw [hk] at hp
    exact .inl (after p hp)
  · rw [others k hk] at hp
    exact .inr hp

/-- Where a shutdown of the next state comes from: it is at its check, it was there, or it
moved. -/
theorem Turn.thread {a : ServerAction} (h : Turn cfg s a s') {k : Nat} {p : Nat × ShutdownPc}
    (hp : p ∈ shutdowns (s'.calls k)) :
    (p.2 = .get ∨ p ∈ shutdowns (s.calls k)) ∨
      ∃ j pc x s₁, (a = .call k x ∧ s.calls k = .shutdown p.1 pc ∨ a = .child k j x) ∧
        (shutdowns (s.calls k))[j]? = some (p.1, pc) ∧
        shutdownStep cfg s p.1 pc x = some (s₁, some p.2) ∧
        s'.conns = s₁.conns ∧ s'.namespaces = s₁.namespaces := by
  cases h with
  | rest statuses closedAll taskSet calls status =>
    rw [calls] at hp
    exact .inl (.inr hp)
  | runs k' j n pc pc' x s₁ action thread step conns namespaces status own runtime sound others =>
    by_cases hk : k = k'
    · subst hk
      rw [own] at hp
      rcases List.mem_or_eq_of_mem_set hp with hp | rfl
      · exact .inl (.inr hp)
      · exact .inr ⟨j, pc, x, s₁, action, thread, step, conns, namespaces⟩
    · rw [others k hk] at hp
      exact .inl (.inr hp)
  | moves k' steady before after status others => exact .inl (thread_of_others others after.1 hp)
  | stores k' steady before after status others =>
    exact .inl (thread_of_others others (by simp [after, shutdowns]) hp)
  | joins k' steady before after status others => exact .inl (thread_of_others others after.1 hp)
  | stops k' steady before after status others =>
    exact .inl (thread_of_others others (by simp [after, shutdowns]) hp)
  | drops k' steady action after status others =>
    exact .inl (thread_of_others others (by simp [after, shutdowns]) hp)
  | panics k' steady after observed status others =>
    exact .inl (thread_of_others others (by simp [after, shutdowns]) hp)

/-- No step sets a status back to `Running`. -/
theorem Turn.status_ne {a : ServerAction} (h : Turn cfg s a s') {n : Nat}
    (hn : (s.namespaces n).status ≠ .running) : (s'.namespaces n).status ≠ .running := by
  cases h with
  | runs k j n' pc pc' x s₁ action thread step conns namespaces status own runtime sound others =>
    obtain ⟨hother, hown⟩ := shutdownStep_status step
    rw [namespaces]
    by_cases hnn : n = n'
    · subst hnn
      rcases hown with ⟨hs, -⟩ | ⟨-, hs, -⟩ | ⟨-, hs, -⟩ <;> rw [hs] <;> first | exact hn | simp
    · rw [hother n hnn]
      exact hn
  | rest statuses closedAll taskSet calls status =>
    rw [statuses]
    exact hn
  | _ => simpa [Steady.status ‹_›] using hn

/-- Between the two stores of a shutdown the status is not `Running`. -/
structure Begun (s : Runtime) : Prop where
  namespaces : ∀ k, ∀ p ∈ shutdowns (s.calls k), p.2.inside = true →
    (s.namespaces p.1).status ≠ .running
  runtime : ∀ k, (s.calls k).insideRuntime = true → s.status ≠ .running

theorem begun_step {a : ServerAction} (h : step cfg s a = some s') (hi : Begun s) : Begun s' := by
  have ht := step_turn h
  refine ⟨fun k p hp hin => ?_, fun k hin => ?_⟩
  · rcases ht.thread hp with (hg | hp) | ⟨j, pc, x, s₁, -, hpc, hs, -, hns⟩
    · rw [hg] at hin
      cases hin
    · exact ht.status_ne (hi.namespaces k p hp hin)
    · obtain ⟨-, ⟨hst, hpi⟩ | ⟨-, hst, -⟩ | ⟨-, hst, -⟩⟩ := shutdownStep_status hs
      · rw [hns, hst]
        exact hi.namespaces k (p.1, pc) (List.mem_of_getElem? hpc) (by rw [← hpi]; exact hin)
      · rw [hns, hst]
        simp
      · rw [hns, hst]
        simp
  · have hold : ∀ k', (∀ i, i ≠ k' → s'.calls i = s.calls i) → s'.status = s.status →
        ((s'.calls k').insideRuntime = true → (s.calls k').insideRuntime = true) →
        s'.status ≠ .running := by
      intro k' others status own
      rw [status]
      by_cases hk : k = k'
      · subst hk
        exact hi.runtime k (own hin)
      · rw [others k hk] at hin
        exact hi.runtime k hin
    cases ht with
    | rest statuses closedAll taskSet calls status =>
      rw [calls] at hin
      rw [status]
      exact hi.runtime k hin
    | runs k' j n pc pc' x s₁ action thread step conns namespaces status own runtime sound others =>
      exact hold k' others status (by rw [runtime]; exact id)
    | moves k' steady before after status others =>
      exact hold k' others status (by simp [after])
    | stores k' steady before after status others =>
      rw [status]
      simp
    | joins k' steady before after status others =>
      exact hold k' others status fun _ => before.1
    | stops k' steady before after status others =>
      rw [status]
      simp
    | drops k' steady action after status others =>
      exact hold k' others status (by simp [after, Call.insideRuntime])
    | panics k' steady after observed status others =>
      exact hold k' others status (by simp [after, Call.insideRuntime])

theorem begun_of_reachable {guard : Runtime → ServerAction → Prop}
    (h : (system cfg).ReachableWhen guard s) : Begun s := by
  refine h.invariant (I := Begun) ?_ fun _ _ _ _ _ hs hi => begun_step hs hi
  refine ⟨fun k p hp => ?_, fun k hin => ?_⟩
  · cases hp
  · cases hin

/-! ## No shutdown panics -/

/-- **No shutdown panics.** In every run in which a shutdown looks at a status only while
no other shutdown of the same namespace (or of the runtime) is between its stores of
`Stopping` and `Stopped`, and none is dropped in between, no call of `shutdown` or
`remove_namespace` reaches an `unreachable!()` arm: none ever sees `Stopping`. -/
theorem shutdown_never_panics {cfg : ServerConfig} {s : Runtime}
    (h : (system cfg).ReachableWhen ChecksAlone s) (k : Nat) :
    s.calls k ≠ .panicked := by
  have hi : Accounted s := by
    refine h.invariant (I := Accounted) ?_ fun _ _ _ _ ha hs hi => accounted_step hs ha hi
    refine ⟨fun _ => rfl, fun n hn => ?_, fun hst => ?_⟩
    · cases hn
    · cases hst
  intro hk
  have hsound := hi.sound k
  rw [hk] at hsound
  cases hsound

/-- Statuses are looked at while they are `Running` only, and nothing is dropped. -/
def checksRunning (s : Runtime) : ServerAction → Bool
  | .call k _ =>
    match s.calls k with
    | .shutdown n .get => (s.namespaces n).status = .running
    | .runtimeGet => s.status = .running
    | _ => true
  | .child k j _ =>
    match (shutdowns (s.calls k))[j]? with
    | some (n, .get) => (s.namespaces n).status = .running
    | _ => true
  | .drop _ => false
  | _ => true

theorem checksAlone_of_running {a : ServerAction} (h : (system cfg).Reachable s)
    (ha : checksRunning s a = true) : ChecksAlone s a := by
  have hb := begun_of_reachable h
  refine ⟨fun n hlook => ?_, fun hlook k => ?_, fun k hk => ?_⟩
  · have hrun : (s.namespaces n).status = .running := by
      cases a with
      | call k x =>
        have hk : s.calls k = .shutdown n .get := hlook
        simpa [checksRunning, hk] using ha
      | child k j x =>
        have hk : (shutdowns (s.calls k))[j]? = some (n, .get) := hlook
        simpa [checksRunning, hk] using ha
      | _ => exact absurd hlook id
    rintro ⟨k, p, hp, rfl, hin⟩
    exact hb.namespaces k p hp hin hrun
  · cases a with
    | call k' x =>
      have hk : s.calls k' = .runtimeGet := hlook
      have hrun : s.status = .running := by simpa [checksRunning, hk] using ha
      by_contra hin
      exact hb.runtime k (by simpa using hin) hrun
    | _ => exact absurd hlook id
  · rw [hk] at ha
    cases ha

/-- The runtime is shut down with one namespace, to the end. -/
def shutdownRun : List ServerAction := List.flatten [
  [.start 0 (.insertNamespace 0), .call 0 .go, .call 0 .go],
  [.start 1 .runtimeShutdown, .call 1 .go, .call 1 .go, .call 1 .go],
  List.replicate 8 (.child 1 0 .go), [.call 1 .go, .call 1 .go]]

theorem shutdown_never_panics_run :
    ∃ s, (system (.postcard false)).Reachable s ∧ s.status = .stopped ∧
      (s.namespaces 0).status = .stopped ∧ ∀ k, s.calls k ≠ .panicked := by
  obtain ⟨s, hr, hs⟩ := System.exists_reachableWhen_of_execWhen
    (S := system (.postcard false)) (g := checksRunning) (l := shutdownRun)
    (p := fun s => s.status = .stopped && (s.namespaces 0).status = .stopped) (by decide +kernel)
  have hr' : (system (.postcard false)).ReachableWhen ChecksAlone s :=
    hr.imp fun _ _ hs hg => checksAlone_of_running hs.reachable hg
  simp only [Bool.and_eq_true, decide_eq_true_eq] at hs
  exact ⟨s, hr.reachable, hs.1, hs.2, shutdown_never_panics hr'⟩

/-- Two overlapping shutdowns of one namespace: the second sees `Stopping`. -/
theorem shutdown_panicked :
    ¬ ∀ s, (system (.postcard false)).Reachable s → ∀ k, s.calls k ≠ .panicked := by
  intro h
  obtain ⟨s, hr, hs⟩ := System.exists_reachable_of_exec (S := system (.postcard false))
    (l := [.start 0 (.insertNamespace 0), .call 0 .go, .call 0 .go, .start 1 (.shutdown 0),
      .call 1 .go, .call 1 .go, .start 2 (.shutdown 0), .call 2 .go])
    (p := fun s => (s.calls 2).isPanicked) (by decide +kernel)
  refine h s hr 2 ?_
  cases hc : s.calls 2 <;> rw [hc] at hs <;> first | rfl | cases hs

end Runtime

end WsIo.Server
