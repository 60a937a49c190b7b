import WsIo.Server.Runtime
import WsIo.Server.Steps

/-!
# What a step of the server can do

A step of the server admits a request, is a step of one connection with its access to the
registries, starts the future of a broadcast target, or leaves connections and registries
alone (`step_cases`). What a connection can do in the server is therefore a run of the
connection by itself (`conn_reachable`), under whatever condition the server's steps keep.
-/

namespace WsIo.Server

open Async Core

namespace Runtime

variable {cfg : ServerConfig} {s s' : Runtime}

/-! ## Updates -/

@[simp, grind =] theorem setCall_conns (k : Nat) (c : Call) : (s.setCall k c).conns = s.conns := rfl

@[simp, grind =] theorem setCall_namespaces (k : Nat) (c : Call) :
    (s.setCall k c).namespaces = s.namespaces := rfl

@[simp, grind =] theorem setCall_connectionIds (k : Nat) (c : Call) :
    (s.setCall k c).connectionIds = s.connectionIds := rfl

@[simp, grind =] theorem setCall_status (k : Nat) (c : Call) :
    (s.setCall k c).status = s.status := rfl

@[grind =] theorem setCall_calls (k j : Nat) (c : Call) :
    (s.setCall k c).calls j = if j = k then c else s.calls j := Function.update_apply ..

@[simp, grind =] theorem setConn_calls (i : Nat) (m : Member) :
    (s.setConn i m).calls = s.calls := rfl

@[simp, grind =] theorem setConn_namespaces (i : Nat) (m : Member) :
    (s.setConn i m).namespaces = s.namespaces := rfl

@[simp, grind =] theorem setConn_connectionIds (i : Nat) (m : Member) :
    (s.setConn i m).connectionIds = s.connectionIds := rfl

@[simp, grind =] theorem setConn_status (i : Nat) (m : Member) :
    (s.setConn i m).status = s.status := rfl

@[grind =] theorem setConn_conns (i j : Nat) (m : Member) :
    (s.setConn i m).conns j = if j = i then some m else s.conns j := Function.update_apply ..

@[simp, grind =] theorem setNamespace_calls (n : Nat) (x : Namespace) :
    (s.setNamespace n x).calls = s.calls := rfl

@[simp, grind =] theorem setNamespace_conns (n : Nat) (x : Namespace) :
    (s.setNamespace n x).conns = s.conns := rfl

@[simp, grind =] theorem setNamespace_connectionIds (n : Nat) (x : Namespace) :
    (s.setNamespace n x).connectionIds = s.connectionIds := rfl

@[simp, grind =] theorem setNamespace_status (n : Nat) (x : Namespace) :
    (s.setNamespace n x).status = s.status := rfl

@[grind =] theorem setNamespace_namespaces (n j : Nat) (x : Namespace) :
    (s.setNamespace n x).namespaces j = if j = n then x else s.namespaces j :=
  Function.update_apply ..

/-- An update of a namespace that keeps one of its fields. -/
theorem setNamespace_field {β : Type*} (f : Namespace → β) {n : Nat} {x : Namespace}
    (h : f x = f (s.namespaces n)) (j : Nat) :
    f ((s.setNamespace n x).namespaces j) = f (s.namespaces j) := by
  rw [setNamespace_namespaces]
  split
  · rename_i hj
    rw [hj, h]
  · rfl

/-! ## Steps that leave the connections alone -/

/-- Connections and registries are as before. -/
structure Quiet (s s' : Runtime) : Prop where
  conns : s'.conns = s.conns
  connectionIds : s'.connectionIds = s.connectionIds
  registries : ∀ n, (s'.namespaces n).connections = (s.namespaces n).connections ∧
    (s'.namespaces n).connectionIds = (s.namespaces n).connectionIds ∧
    (s'.namespaces n).rooms = (s.namespaces n).rooms

theorem Quiet.refl (s : Runtime) : Quiet s s := ⟨rfl, rfl, fun _ => ⟨rfl, rfl, rfl⟩⟩

theorem Quiet.trans {s₁ s₂ s₃ : Runtime} (h : Quiet s₁ s₂) (h' : Quiet s₂ s₃) : Quiet s₁ s₃ :=
  ⟨h'.conns.trans h.conns, h'.connectionIds.trans h.connectionIds, fun n =>
    ⟨(h'.registries n).1.trans (h.registries n).1,
      (h'.registries n).2.1.trans (h.registries n).2.1,
      (h'.registries n).2.2.trans (h.registries n).2.2⟩⟩

theorem Quiet.setCall (s : Runtime) (k : Nat) (c : Call) : Quiet s (s.setCall k c) :=
  ⟨rfl, rfl, fun _ => ⟨rfl, rfl, rfl⟩⟩

theorem Quiet.setPaths (s : Runtime) (l : List (String × Nat)) :
    Quiet s { s with paths := l } := ⟨rfl, rfl, fun _ => ⟨rfl, rfl, rfl⟩⟩

/-- An update of a namespace outside its registries. -/
theorem Quiet.setNamespace (s : Runtime) (n : Nat) {x : Namespace}
    (h₁ : x.connections = (s.namespaces n).connections)
    (h₂ : x.connectionIds = (s.namespaces n).connectionIds)
    (h₃ : x.rooms = (s.namespaces n).rooms) : Quiet s (s.setNamespace n x) :=
  ⟨rfl, rfl, fun j => ⟨setNamespace_field _ h₁ j, setNamespace_field _ h₂ j,
    setNamespace_field _ h₃ j⟩⟩

theorem Quiet.releaseLock (s : Runtime) (p : Nat × ShutdownPc) : Quiet s (releaseLock s p) := by
  unfold Runtime.releaseLock
  split
  · exact .setNamespace s _ rfl rfl rfl
  · exact .setNamespace s _ rfl rfl rfl
  · exact .refl s

theorem Quiet.releaseLocks (l : List (Nat × ShutdownPc)) (s : Runtime) :
    Quiet s (l.foldl Runtime.releaseLock s) := by
  induction l generalizing s with
  | nil => exact .refl s
  | cons p l ih => exact (Quiet.releaseLock s p).trans (ih _)

/-! ## Broadcasts and shutdowns -/

/-- The future of a broadcast target starts on a connection found in the map. -/
structure Starts (cfg : ServerConfig) (s : Runtime) (n : Nat) (job : Job) (i key : Nat)
    (m : Member) (c : Connection) : Prop where
  found : i ∈ (s.namespaces n).connections
  conn : s.conns i = some m
  step : Connection.step (cfg.config m.home) m.conn (.start key job) = some c

theorem startTarget_cases {n i key : Nat} {job : Job} {active active' : List (Nat × Nat)}
    (h : startTarget cfg s n i key job active = some (s', active')) :
    (i ∉ (s.namespaces n).connections ∧ s' = s ∧ active' = active) ∨
      ∃ m c, Starts cfg s n job i key m c ∧ s' = s.setConn i ⟨m.home, c⟩ ∧
        active' = active ++ [(i, key)] := by
  unfold startTarget at h
  split at h
  · rename_i hi
    obtain ⟨s₁, hs, he⟩ := Option.map_eq_some_iff.mp h
    cases he
    unfold connStep at hs
    split at hs
    · cases hs
    · rename_i m hm
      split at hs
      · cases hs
      · rename_i c hc
        cases hs
        exact .inr ⟨m, c, ⟨hi, hm, hc⟩, rfl, rfl⟩
  · rename_i hi
    cases h
    exact .inl ⟨hi, rfl, rfl⟩

/-- A step of a broadcast reads the server, or starts the future of one target. -/
theorem broadcastStep_cases {n : Nat} {op : Operator} {job : Job} {pc : BroadcastPc}
    {x : CallInput} {r : Option BroadcastPc}
    (h : broadcastStep cfg s n op job pc x = some (s', r)) :
    s' = s ∨ ∃ i key m c, x = .target i key ∧ Starts cfg s n job i key m c ∧
      s' = s.setConn i ⟨m.home, c⟩ := by
  unfold broadcastStep at h
  split at h
  · split at h <;> cases h <;> exact .inl rfl
  · cases h
    exact .inl rfl
  · cases h
    exact .inl rfl
  · cases h
    exact .inl rfl
  · split at h
    · cases h
      exact .inl rfl
    · split at h <;> cases h <;> exact .inl rfl
  · rename_i ids active i key
    dsimp only at h
    split at h
    · obtain ⟨⟨s₁, active'⟩, hs, he⟩ := Option.map_eq_some_iff.mp h
      cases he
      rcases startTarget_cases hs with ⟨-, rfl, -⟩ | ⟨m, c, hst, rfl, -⟩
      · exact .inl rfl
      · exact .inr ⟨i, key, m, c, rfl, hst, rfl⟩
    · cases h
  · split at h <;> cases h
    exact .inl rfl
  · cases h

/-- A broadcast returns when every target was taken and every started future is done. -/
theorem broadcastStep_none {n : Nat} {op : Operator} {job : Job} {pc : BroadcastPc}
    {x : CallInput} (h : broadcastStep cfg s n op job pc x = some (s', none)) :
    s' = s ∧ ∃ active, pc = .each ∅ active ∧ active.all (callerDone s) = true := by
  unfold broadcastStep at h
  split at h
  · split at h <;> cases h
  · cases h
  · cases h
  · cases h
  · split at h
    · cases h
    · split at h <;> cases h
  · dsimp only at h
    split at h
    · obtain ⟨r, -, he⟩ := Option.map_eq_some_iff.mp h
      cases he
    · cases h
  · rename_i ids active
    split at h
    · rename_i hc
      cases h
      exact ⟨rfl, active, by rw [hc.1], hc.2⟩
    · cases h
  · cases h

/-- A step of a namespace shutdown is quiet, or starts the `close` of one target. -/
theorem shutdownStep_cases {n : Nat} {pc : ShutdownPc} {x : CallInput} {r : Option ShutdownPc}
    (h : shutdownStep cfg s n pc x = some (s', r)) :
    Quiet s s' ∨ ∃ i key m c, x = .target i key ∧ Starts cfg s n .close i key m c ∧
      s' = s.setConn i ⟨m.home, c⟩ := by
  unfold shutdownStep at h
  dsimp only at h
  split at h
  · split at h <;> cases h <;> exact .inl (.refl s)
  · cases h
    exact .inl (.setNamespace s n rfl rfl rfl)
  · split at h
    · cases h
    · rename_i s₁ b' hb
      cases h
      rcases broadcastStep_cases hb with rfl | ⟨i, key, m, c, hx, hst, rfl⟩
      · exact .inl (.refl _)
      · exact .inr ⟨i, key, m, c, hx, hst, rfl⟩
    · rename_i s₁ hb
      cases h
      obtain ⟨rfl, -⟩ := broadcastStep_none hb
      exact .inl (.setNamespace s₁ n rfl rfl rfl)
  · split at h <;> cases h
    exact .inl (.setNamespace s n rfl rfl rfl)
  · split at h <;> cases h
    exact .inl (.setNamespace s n rfl rfl rfl)
  · split at h <;> cases h
    exact .inl (.refl s)
  · cases h
    exact .inl (.setNamespace s n rfl rfl rfl)
  · cases h

/-! ## Steps of the server -/

/-- A step of connection `i` with its access to the registries and the task set. -/
structure Moves (cfg : ServerConfig) (s : Runtime) (i : Nat) (b : Action) (m : Member)
    (c : Connection) : Prop where
  conn : s.conns i = some m
  permitted : permits s m b = true
  step : Connection.step (cfg.config m.home) m.conn b = some c

theorem callStep_cases {k : Nat} {x : CallInput} (h : callStep cfg s k x = some s') :
    Quiet s s' ∨ ∃ n job i key m c, x = .target i key ∧ Starts cfg s n job i key m c ∧
      Quiet (s.setConn i ⟨m.home, c⟩) s' := by
  unfold callStep at h
  split at h
  · split at h
    · cases h
    · rename_i hb
      cases h
      rcases broadcastStep_cases hb with rfl | ⟨i, key, m, c, hx, hst, rfl⟩
      · exact .inl (.setCall _ _ _)
      · exact .inr ⟨_, _, i, key, m, c, hx, hst, .setCall _ _ _⟩
    · rename_i hb
      cases h
      rcases broadcastStep_cases hb with rfl | ⟨i, key, m, c, hx, hst, rfl⟩
      · exact .inl (.setCall _ _ _)
      · exact .inr ⟨_, _, i, key, m, c, hx, hst, .setCall _ _ _⟩
  · split at h
    · cases h
      exact .inl (.setCall _ _ _)
    · split at h <;> cases h <;> exact .inl (.setCall _ _ _)
  · rename_i n pc hc
    obtain ⟨⟨s₁, r⟩, hs, rfl⟩ := Option.map_eq_some_iff.mp h
    have hcall : Quiet s₁ (afterShutdown k n (s₁, r)) := by
      cases r <;> exact .setCall _ _ _
    rcases shutdownStep_cases hs with hq | ⟨i, key, m, c, hx, hst, rfl⟩
    · exact .inl (hq.trans hcall)
    · exact .inr ⟨n, .close, i, key, m, c, hx, hst, hcall⟩
  · split at h <;> cases h <;> exact .inl ⟨rfl, rfl, fun _ => ⟨rfl, rfl, rfl⟩⟩
  · split at h <;> cases h <;> exact .inl (.setCall _ _ _)
  · rename_i n hn
    cases h
    refine .inl (Quiet.trans ?_ (.setCall _ _ _))
    exact (Quiet.setPaths s ((cfg.path n, n) :: s.paths.filter (·.1 ≠ cfg.path n))).trans
      (.setNamespace _ _ rfl rfl rfl)
  · split at h <;> cases h <;> exact .inl (.setCall _ _ _)
  · cases h
    exact .inl ⟨rfl, rfl, fun _ => ⟨rfl, rfl, rfl⟩⟩
  · cases h
    exact .inl (.setCall _ _ _)
  · split at h <;> cases h
    exact .inl (.setCall _ _ _)
  · cases h
    exact .inl ⟨rfl, rfl, fun _ => ⟨rfl, rfl, rfl⟩⟩
  all_goals cases h

theorem childStep_cases {k j : Nat} {x : CallInput} (h : childStep cfg s k j x = some s') :
    Quiet s s' ∨ ∃ n i key m c, x = .target i key ∧ Starts cfg s n .close i key m c ∧
      Quiet (s.setConn i ⟨m.home, c⟩) s' := by
  unfold childStep at h
  split at h
  · split at h
    · cases h
    · rename_i n pc hj
      split at h
      · cases h
      · rename_i hs
        cases h
        rcases shutdownStep_cases hs with hq | ⟨i, key, m, c, hx, hst, rfl⟩
        · exact .inl (hq.trans (.setCall _ _ _))
        · exact .inr ⟨n, i, key, m, c, hx, hst, .setCall _ _ _⟩
      · rename_i hs
        cases h
        rcases shutdownStep_cases hs with hq | ⟨i, key, m, c, hx, hst, rfl⟩
        · exact .inl ((hq.trans (.releaseLocks _ _)).trans (.setCall _ _ _))
        · exact .inr ⟨n, i, key, m, c, hx, hst, (Quiet.releaseLocks _ _).trans (.setCall _ _ _)⟩
  · cases h

/-- The action takes connection `i` as the target of a broadcast or of a `close_all`. -/
def Targets (a : ServerAction) (i key : Nat) : Prop :=
  (∃ k, a = .call k (.target i key)) ∨ ∃ k j, a = .child k j (.target i key)

/-- The four kinds of steps: a request is admitted, a connection moves, a broadcast
starts on a connection, or neither connections nor registries change. -/
theorem step_cases {a : ServerAction} (h : step cfg s a = some s') :
    (∃ i n path, a = .resolve i path ∧ s.conns i = none ∧
        s' = s.setConn i ⟨n, .initial (cfg.config n)⟩) ∨
      (∃ i b m c, a = .conn i b ∧ Moves cfg s i b m c ∧
        s' = ((s.setConn i ⟨m.home, c⟩).access m.home i (Connection.effect m.conn b)).spawn m i b) ∨
      (∃ n job i key m c, Targets a i key ∧ Starts cfg s n job i key m c ∧
        Quiet (s.setConn i ⟨m.home, c⟩) s') ∨
      Quiet s s' := by
  unfold step at h
  split at h
  · rename_i i path
    split at h
    · rename_i n hi hn
      cases h
      exact .inl ⟨i, n, path, rfl, hi, rfl⟩
    · cases h
  · rename_i i b
    split at h
    · cases h
    · rename_i m hm
      split at h
      · rename_i hp
        obtain ⟨s₁, hs, rfl⟩ := Option.map_eq_some_iff.mp h
        unfold connStep at hs
        rw [hm] at hs
        dsimp only at hs
        split at hs
        · cases hs
        · rename_i c hc
          cases hs
          exact .inr (.inl ⟨i, b, m, c, rfl, ⟨hm, hp, hc⟩, rfl⟩)
      · cases h
  · rename_i k r
    split at h
    · obtain ⟨c, -, rfl⟩ := Option.map_eq_some_iff.mp h
      refine .inr (.inr (.inr (Quiet.trans ?_ (.setCall _ _ _))))
      unfold create
      split
      · exact .setNamespace _ _ rfl rfl rfl
      · exact .refl s
    · cases h
  · rename_i k x
    rcases callStep_cases h with hq | ⟨n, job, i, key, m, c, rfl, hst, hq⟩
    · exact .inr (.inr (.inr hq))
    · exact .inr (.inr (.inl ⟨n, job, i, key, m, c, .inl ⟨k, rfl⟩, hst, hq⟩))
  · rename_i k j x
    rcases childStep_cases h with hq | ⟨n, i, key, m, c, rfl, hst, hq⟩
    · exact .inr (.inr (.inr hq))
    · exact .inr (.inr (.inl ⟨n, .close, i, key, m, c, .inr ⟨k, j, rfl⟩, hst, hq⟩))
  · split at h
    · cases h
      exact .inr (.inr (.inr ((Quiet.releaseLocks _ _).trans (.setCall _ _ _))))
    · cases h

/-! ## One connection in the server -/

@[simp, grind =] theorem access_conns (n i : Nat) (op : Option RegistryOp) :
    (s.access n i op).conns = s.conns := by
  cases op <;> rfl

@[simp, grind =] theorem access_calls (n i : Nat) (op : Option RegistryOp) :
    (s.access n i op).calls = s.calls := by
  cases op <;> rfl

@[simp, grind =] theorem access_status (n i : Nat) (op : Option RegistryOp) :
    (s.access n i op).status = s.status := by
  cases op <;> rfl

theorem Quiet.spawn (s : Runtime) (m : Member) (i : Nat) (a : Action) :
    Quiet s (s.spawn m i a) := by
  unfold Runtime.spawn
  split
  · exact .setNamespace _ _ rfl rfl rfl
  · exact .refl s

@[simp, grind =] theorem spawn_conns (m : Member) (i : Nat) (a : Action) :
    (s.spawn m i a).conns = s.conns := (Quiet.spawn s m i a).conns

/-- How a connection changes in a step of the server. -/
theorem step_conn {a : ServerAction} (h : step cfg s a = some s') {i : Nat} {m' : Member}
    (hi : s'.conns i = some m') :
    ((∃ path, a = .resolve i path) ∧ s.conns i = none ∧
        m'.conn = .initial (cfg.config m'.home)) ∨
      ∃ m, s.conns i = some m ∧ m'.home = m.home ∧
        (m'.conn = m.conn ∨ ∃ b, (a = .conn i b ∧ permits s m b = true ∨
          ∃ key job, Targets a i key ∧ b = .start key job) ∧
          Connection.step (cfg.config m.home) m.conn b = some m'.conn) := by
  rcases step_cases h with ⟨j, n, path, rfl, hj, rfl⟩ | ⟨j, b, m, c, rfl, hm, rfl⟩ |
    ⟨n, job, j, key, m, c, ht, hst, hq⟩ | hq
  · rw [setConn_conns] at hi
    split at hi
    · rename_i he
      cases hi
      exact .inl ⟨⟨path, by rw [he]⟩, he ▸ hj, rfl⟩
    · exact .inr ⟨m', hi, rfl, .inl rfl⟩
  · rw [spawn_conns, access_conns, setConn_conns] at hi
    split at hi
    · rename_i he
      cases hi
      exact .inr ⟨m, he ▸ hm.conn, rfl, .inr ⟨b, .inl ⟨by rw [he], hm.permitted⟩, hm.step⟩⟩
    · exact .inr ⟨m', hi, rfl, .inl rfl⟩
  · rw [hq.conns, setConn_conns] at hi
    split at hi
    · rename_i he
      cases hi
      exact .inr ⟨m, he ▸ hst.conn, rfl, .inr ⟨_, .inr ⟨key, job, he ▸ ht, rfl⟩, hst.step⟩⟩
    · exact .inr ⟨m', hi, rfl, .inl rfl⟩
  · rw [hq.conns] at hi
    exact .inr ⟨m', hi, rfl, .inl rfl⟩

/-- A connection stays, in its namespace. -/
theorem step_persists {a : ServerAction} (h : step cfg s a = some s') {i : Nat} {m : Member}
    (hi : s.conns i = some m) : ∃ m', s'.conns i = some m' ∧ m'.home = m.home := by
  have hset : ∀ j c m₀, s.conns j = some m₀ →
      ∃ m', (s.setConn j ⟨m₀.home, c⟩).conns i = some m' ∧ m'.home = m.home := by
    intro j c m₀ hj
    rw [setConn_conns]
    split
    · rename_i hij
      rw [← hij, hi] at hj
      cases hj
      exact ⟨_, rfl, rfl⟩
    · exact ⟨m, hi, rfl⟩
  rcases step_cases h with ⟨j, n, -, -, hj, rfl⟩ | ⟨j, b, m₀, c, rfl, hm, rfl⟩ |
    ⟨n, job, j, key, m₀, c, -, hst, hq⟩ | hq
  · rw [setConn_conns]
    split
    · rename_i hij
      rw [hij, hj] at hi
      cases hi
    · exact ⟨m, hi, rfl⟩
  · rw [spawn_conns, access_conns]
    exact hset j c m₀ hm.conn
  · rw [hq.conns]
    exact hset j c m₀ hst.conn
  · rw [hq.conns]
    exact ⟨m, hi, rfl⟩

/-- A connection of the server is reached by a run of its own, under any condition that
the server's steps impose on it. -/
theorem conn_reachable {guard : Runtime → ServerAction → Prop} {g : Connection → Action → Prop}
    (hconn : ∀ s i b m, guard s (.conn i b) → s.conns i = some m → g m.conn b)
    (hstart : ∀ s a i c key job, guard s a → Targets a i key → g c (.start key job))
    (h : (system cfg).ReachableWhen guard s) {i : Nat} {m : Member} (hi : s.conns i = some m) :
    (Connection.system (cfg.config m.home)).ReachableWhen g m.conn := by
  induction h generalizing m with
  | init => cases hi
  | step hr hg hs ih =>
    rcases step_conn hs hi with ⟨-, -, he⟩ | ⟨m₀, hm₀, hhome, he⟩
    · rw [he]
      exact .init
    · have hprev := ih hm₀
      rw [hhome]
      rcases he with he | ⟨b, hb, he⟩
      · rw [he]
        exact hprev
      · refine .step hprev ?_ he
        rcases hb with ⟨rfl, -⟩ | ⟨key, job, ht, rfl⟩
        · exact hconn _ _ _ _ hg hm₀
        · exact hstart _ _ _ _ _ _ hg ht

/-- One namespace is registered and one request is upgraded, without handlers, up to the
transition of its connection to `Ready`. -/
def readyRun : List ServerAction := List.flatten [
  [.start 0 (.insertNamespace 0), .call 0 .go, .call 0 .go, .resolve 0 "/"],
  [.conn 0 (.main .go), .conn 0 (.main (.upgraded true))],
  List.replicate 2 (.conn 0 (.main (.status true))), List.replicate 8 (.conn 0 (.main .go)),
  [.conn 0 (.read (.frame (some (some (.binary [2, 0, 0])))))],
  List.replicate 8 (.conn 0 (.read .go))]

end Runtime

end WsIo.Server
