import WsIo.Server.Broadcast
import WsIo.Server.CloseAll

/-!
# The lock of a task set

`shutdown` holds the lock of `connection_task_set` from before its `join_next` loop until it
has stored `Stopped`, and the task of an upgrade request is spawned under the same lock.
Shutdowns of one namespace may overlap (`shutdown`, `remove_namespace` and the runtime's
`shutdown` all reach it), and each can be dropped while it joins.

* `join_exclusive`: at most one of them is in its loop, and while it is, the task set only
  loses tasks that have ended, to that shutdown.
* `stopped_without_connections`: a namespace that is `Stopped` has no connection left whose
  task still runs.
-/

namespace WsIo.Server

open Async Core

/-- The shutdown holds the lock of the task set. -/
def ShutdownPc.holdsLock : ShutdownPc → Bool
  | .join | .storeStopped => true
  | _ => false

/-- Only a connection that exists inserts itself anywhere. -/
theorem Connection.created_of_insert {cfg : NamespaceConfig} {c : Connection}
    {guard : Connection → Action → Prop} (h : (system cfg).ReachableWhen guard c) {r : Registry}
    (hr : .insert r ∈ registryOps c.log) : c.main.created = true := by
  refine h.invariant (I := fun c => .insert r ∈ registryOps c.log → c.main.created = true)
    (fun hr => by cases hr) ?_ hr
  intro c a c' hc _ hs ih hr
  refine (step_main_created hs).1 ?_
  rw [registryOps_step hs, List.mem_append] at hr
  rcases hr with hr | hr
  · have he := (Option.filter_eq_some_iff.mp (Option.mem_toList.mp hr)).1
    by_contra hcr
    have hread := (enrolment_of_reachable hc).unread (.inl (by simpa using hcr))
    rw [(effect_insert he).2] at hread
    cases hread
  · exact ih hr

/-- The read task has not begun the handshake. -/
def ReadPc.early : ReadPc → Bool
  | .absent | .next | .eventCheck _ _ | .initGet _ | .initTransition _ | .ended => true
  | _ => false

namespace Connection

variable {cfg : NamespaceConfig} {c c' : Connection}

theorem readStep_early {i : ReadInput} (h : readStep cfg c i = some c')
    (hs : c.state = .created ∨ isDown c.state = true) (hr : c.read.early = true) :
    c'.read.early = true := by
  cases i with
  | go =>
    simp only [readStep] at h
    unfold readGo at h
    split at h
    all_goals grind [transition_cases, invoke_cases, ensure, sendPacket_ok, ReadPc.early, isDown_iff]
  | frame f =>
    simp only [readStep] at h
    split at h
    · cases h
      rcases handleFrame_cases cfg f with he | he | ⟨e, d, m, he, -⟩ | ⟨d, m, he, -⟩ <;> simp [he, ReadPc.early]
    · cases h
  | outcome o => grind [readStep, ReadPc.early]
  | stop => grind [readStep, ReadPc.early]

/-- While the main task has not got to `AwaitingInit` the read task does not begin. -/
theorem early_of_reachable {guard : Connection → Action → Prop}
    (h : (system cfg).ReachableWhen guard c) (he : c.main.early = true) : c.read.early = true := by
  refine h.invariant (I := fun c => c.main.early = true → c.read.early = true) (fun _ => rfl) ?_ he
  intro c a c' hr _ hs hi he
  by_cases hm : ∃ i, a = .main i
  · obtain ⟨i, rfl⟩ := hm
    rcases (mainStep_outside hs).1 with hread | ⟨-, hread⟩
    · rw [hread]
      exact hi (mainStep_early hs he).1
    · rw [hread]
      rfl
  · push Not at hm
    rw [step_main hs hm] at he
    by_cases hread : ∃ i, a = .read i
    · obtain ⟨i, rfl⟩ := hread
      exact readStep_early hs ((enrolment_of_reachable hr).early he) (hi he)
    · push Not at hread
      rw [(step_frame hs hm hread).2.1]
      exact hi he

/-- Such a connection has inserted itself nowhere. -/
theorem unregistered_of_early {guard : Connection → Action → Prop}
    (h : (system cfg).ReachableWhen guard c) (he : c.main.early = true) {r : Registry} :
    .insert r ∉ registryOps c.log := by
  refine h.invariant (I := fun c => c.main.early = true → .insert r ∉ registryOps c.log)
    (fun _ hop => by cases hop) ?_ he
  intro c a c' hr _ hs hi he hop
  have he₀ : c.main.early = true := by
    by_cases hm : ∃ i, a = .main i
    · obtain ⟨i, rfl⟩ := hm
      exact (mainStep_early hs he).1
    · push Not at hm
      rwa [step_main hs hm] at he
  rw [registryOps_step hs, List.mem_append] at hop
  rcases hop with hop | hop
  · have hop := (Option.filter_eq_some_iff.mp (Option.mem_toList.mp hop)).1
    have hread := early_of_reachable hr he₀
    rw [(effect_insert hop).2] at hread
    cases hread
  · exact hi he₀ hop

end Connection

namespace Runtime

variable {cfg : ServerConfig} {s s' : Runtime}

/-- The shutdown runs on namespace `n` and holds the lock of its task set. -/
def holdsLockOf (n : Nat) (p : Nat × ShutdownPc) : Bool := p.1 = n && p.2.holdsLock

/-- How many of the shutdowns of a call hold the lock of the namespace. -/
def holders (n : Nat) (c : Call) : Nat := (shutdowns c).countP (holdsLockOf n)

theorem holders_eq_zero {n : Nat} {c : Call} (h : ∀ p ∈ shutdowns c, p.2 = .get) :
    holders n c = 0 := by
  refine List.countP_eq_zero.mpr fun p hp => ?_
  simp [holdsLockOf, h p hp, ShutdownPc.holdsLock]

/-! ## How a step moves the lock -/

/-- What a step makes of the lock of namespace `n` and of the shutdowns of call `k` that
hold it. -/
inductive LockMove (n k : Nat) (s s' : Runtime) : Prop
  /-- Nothing. -/
  | keeps (held : holders n (s'.calls k) = holders n (s.calls k))
      (lock : (s'.namespaces n).taskSetLocked = (s.namespaces n).taskSetLocked)
  /-- A shutdown of the call takes the free lock. -/
  | takes (held : holders n (s'.calls k) = holders n (s.calls k) + 1)
      (free : (s.namespaces n).taskSetLocked = false)
      (lock : (s'.namespaces n).taskSetLocked = true)
  /-- A shutdown of the call returns. -/
  | returns (held : holders n (s'.calls k) + 1 = holders n (s.calls k))
      (lock : (s'.namespaces n).taskSetLocked = false)
  /-- The shutdowns of the call are gone. -/
  | drops (held : holders n (s'.calls k) = 0)
      (lock : (s'.namespaces n).taskSetLocked =
        ((s.namespaces n).taskSetLocked && holders n (s.calls k) = 0))

theorem releaseLocks_taskSetLocked (l : List (Nat × ShutdownPc)) (s : Runtime) (n : Nat) :
    ((l.foldl releaseLock s).namespaces n).taskSetLocked =
      ((s.namespaces n).taskSetLocked && l.countP (holdsLockOf n) = 0) := by
  induction l generalizing s with
  | nil => simp
  | cons p l ih =>
    have hp : ((releaseLock s p).namespaces n).taskSetLocked =
        ((s.namespaces n).taskSetLocked && !holdsLockOf n p) := by
      obtain ⟨n', pc⟩ := p
      by_cases hn : n = n'
      · subst hn
        cases pc <;> simp [releaseLock, holdsLockOf, ShutdownPc.holdsLock, setNamespace_namespaces]
      · have hn' : n' ≠ n := fun e => hn e.symm
        cases pc <;> simp [releaseLock, holdsLockOf, hn, hn', setNamespace_namespaces]
    rw [List.foldl_cons, ih, hp, List.countP_cons]
    cases holdsLockOf n p <;> simp

theorem access_taskSetLocked (home i n : Nat) (op : Option RegistryOp) :
    ((s.access home i op).namespaces n).taskSetLocked = (s.namespaces n).taskSetLocked := by
  cases op with
  | none => rfl
  | some op =>
    have hx : (Namespace.access (s.namespaces home) i op).taskSetLocked =
        (s.namespaces home).taskSetLocked := by
      unfold Namespace.access
      split <;> rfl
    exact setNamespace_field (·.taskSetLocked) hx n

theorem spawn_taskSetLocked (m : Member) (i : Nat) (a : Action) (n : Nat) :
    ((s.spawn m i a).namespaces n).taskSetLocked = (s.namespaces n).taskSetLocked := by
  unfold spawn
  split
  · exact setNamespace_field (·.taskSetLocked) (by rfl) n
  · rfl

theorem broadcastStep_taskSetLocked {n n' : Nat} {op : Operator} {job : Job} {pc : BroadcastPc}
    {x : CallInput} {r : Option BroadcastPc}
    (h : broadcastStep cfg s n op job pc x = some (s', r)) :
    (s'.namespaces n').taskSetLocked = (s.namespaces n').taskSetLocked := by
  rcases broadcastStep_cases h with rfl | ⟨i, key, m, c, -, -, rfl⟩ <;> rfl

/-- A shutdown takes the lock as it enters its loop and releases it as it returns. -/
theorem shutdownStep_lock {n : Nat} {pc pc' : ShutdownPc} {x : CallInput}
    (h : shutdownStep cfg s n pc x = some (s', some pc')) :
    (∀ n', n' ≠ n → (s'.namespaces n').taskSetLocked = (s.namespaces n').taskSetLocked) ∧
      ((s'.namespaces n).taskSetLocked = (s.namespaces n).taskSetLocked ∧
          pc'.holdsLock = pc.holdsLock ∨
        pc.holdsLock = false ∧ (s.namespaces n).taskSetLocked = false ∧
          (s'.namespaces n).taskSetLocked = true ∧ pc'.holdsLock = true ∨
        pc.holdsLock = true ∧ (s'.namespaces n).taskSetLocked = false ∧
          pc'.holdsLock = false) := by
  unfold shutdownStep at h
  dsimp only at h
  split at h
  · split at h <;> cases h <;> exact ⟨fun _ _ => rfl, .inl ⟨rfl, rfl⟩⟩
  · cases h
    exact ⟨fun n' _ => setNamespace_field (·.taskSetLocked) (by rfl) n',
      .inl ⟨setNamespace_field (·.taskSetLocked) (by rfl) n, rfl⟩⟩
  · split at h
    · cases h
    · rename_i s₁ b' hb
      cases h
      exact ⟨fun n' _ => broadcastStep_taskSetLocked hb,
        .inl ⟨broadcastStep_taskSetLocked hb, rfl⟩⟩
    · rename_i s₁ hb
      cases h
      obtain ⟨rfl, -⟩ := broadcastStep_none hb
      exact ⟨fun n' _ => setNamespace_field (·.taskSetLocked) (by rfl) n',
        .inl ⟨setNamespace_field (·.taskSetLocked) (by rfl) n, rfl⟩⟩
  · split at h
    · cases h
    · rename_i hfree
      cases h
      refine ⟨fun n' hn => ?_, .inr (.inl ⟨rfl, by simpa using hfree, ?_, rfl⟩)⟩
      · rw [setNamespace_namespaces, if_neg hn]
      · rw [setNamespace_namespaces, if_pos rfl]
  · split at h <;> cases h
    exact ⟨fun n' _ => setNamespace_field (·.taskSetLocked) (by rfl) n',
      .inl ⟨setNamespace_field (·.taskSetLocked) (by rfl) n, rfl⟩⟩
  · split at h <;> cases h
    exact ⟨fun _ _ => rfl, .inl ⟨rfl, rfl⟩⟩
  · cases h
    refine ⟨fun n' hn => ?_, .inr (.inr ⟨rfl, ?_, rfl⟩)⟩
    · rw [setNamespace_namespaces, if_neg hn]
    · rw [setNamespace_namespaces, if_pos rfl]
  · cases h

/-- One shutdown of a call moves on. -/
theorem LockMove.runs {n k j n' : Nat} {pc pc' : ShutdownPc} {x : CallInput} {s₁ : Runtime}
    (hthread : (shutdowns (s.calls k))[j]? = some (n', pc))
    (hs : shutdownStep cfg s n' pc x = some (s₁, some pc'))
    (hns : s'.namespaces = s₁.namespaces)
    (hown : shutdowns (s'.calls k) = (shutdowns (s.calls k)).set j (n', pc')) :
    LockMove n k s s' := by
  obtain ⟨hother, hlock⟩ := shutdownStep_lock hs
  obtain ⟨hj, hget⟩ := List.getElem?_eq_some_iff.mp hthread
  have hcount : holders n (s'.calls k) + (if holdsLockOf n (n', pc) = true then 1 else 0) =
      holders n (s.calls k) + if holdsLockOf n (n', pc') = true then 1 else 0 := by
    unfold holders
    have hset := List.countP_set (p := holdsLockOf n) (l := shutdowns (s.calls k)) (i := j)
      (a := (n', pc')) hj
    rw [hown, hset, hget]
    have hle : (if holdsLockOf n (n', pc) = true then 1 else 0) ≤
        (shutdowns (s.calls k)).countP (holdsLockOf n) := by
      split
      · rename_i hp
        exact List.countP_pos_iff.mpr ⟨_, List.mem_of_getElem? hthread, hp⟩
      · exact Nat.zero_le _
    omega
  by_cases hn : n = n'
  · subst hn
    simp only [holdsLockOf, decide_true, Bool.true_and] at hcount
    rcases hlock with ⟨hl, hp⟩ | ⟨hp, hf, hl, hp'⟩ | ⟨hp, hl, hp'⟩
    · rw [hp] at hcount
      exact .keeps (by omega) (by rw [hns, hl])
    · refine .takes ?_ hf (by rw [hns, hl])
      simpa [hp, hp'] using hcount
    · refine .returns ?_ (by rw [hns, hl])
      simpa [hp, hp'] using hcount
  · have hn' : n' ≠ n := fun e => hn e.symm
    refine .keeps ?_ (by rw [hns, hother n hn])
    simpa [holdsLockOf, hn'] using hcount

/-- A call that holds no lock becomes one that holds none. -/
theorem LockMove.setCall {n k : Nat} {c : Call} {s₁ : Runtime}
    (hlock : (s₁.namespaces n).taskSetLocked = (s.namespaces n).taskSetLocked)
    (before : holders n (s.calls k) = 0) (after : holders n c = 0) :
    LockMove n k s (s₁.setCall k c) := by
  refine .keeps ?_ hlock
  rw [setCall_calls, if_pos rfl, after, before]

theorem callStep_lock {k : Nat} {x : CallInput} (h : callStep cfg s k x = some s') (n : Nat) :
    LockMove n k s s' := by
  have hnone : ∀ {c : Call}, shutdowns c = [] → holders n c = 0 := by
    intro c hc
    rw [holders, hc]
    rfl
  unfold callStep at h
  split at h
  case h_1 n₁ op job pc hk =>
    split at h
    · cases h
    · rename_i s₁ pc' hb
      cases h
      exact .setCall (broadcastStep_taskSetLocked hb) (hnone (by rw [hk]; rfl)) (hnone rfl)
    · rename_i s₁ hb
      cases h
      exact .setCall (broadcastStep_taskSetLocked hb) (hnone (by rw [hk]; rfl)) (hnone rfl)
  case h_2 n₁ op event data hk =>
    have before := hnone (c := s.calls k) (by rw [hk]; rfl)
    split at h
    · cases h
      exact .setCall rfl before (hnone rfl)
    · split at h <;> cases h <;> exact .setCall rfl before (hnone rfl)
  case h_3 n₁ pc hk =>
    obtain ⟨⟨s₁, r⟩, hs, rfl⟩ := Option.map_eq_some_iff.mp h
    have hthread : (shutdowns (s.calls k))[0]? = some (n₁, pc) := by simp [hk, shutdowns]
    cases r with
    | some pc' =>
      refine .runs hthread hs rfl ?_
      simp [afterShutdown, setCall_calls, hk, shutdowns]
    | none =>
      obtain ⟨rfl, -, rfl⟩ := (shutdownStep_calls hs).2.2 rfl
      refine .setCall rfl (holders_eq_zero fun p hp => ?_) (hnone rfl)
      rw [hk] at hp
      rw [List.mem_singleton.mp hp]
  case h_4 path hk =>
    have before := hnone (c := s.calls k) (by rw [hk]; rfl)
    split at h
    · cases h
      exact .setCall rfl before (hnone rfl)
    · cases h
      exact .setCall rfl before (holders_eq_zero (by simp [shutdowns]))
  case h_5 n₁ hk =>
    split at h <;> cases h <;> exact .setCall rfl (hnone (by rw [hk]; rfl)) (hnone rfl)
  case h_6 n₁ hk =>
    cases h
    refine .setCall ?_ (hnone (by rw [hk]; rfl)) (hnone rfl)
    exact setNamespace_field (·.taskSetLocked) (by rfl) n
  case h_7 hk =>
    split at h <;> cases h <;> exact .setCall rfl (hnone (by rw [hk]; rfl)) (hnone rfl)
  case h_8 hk =>
    cases h
    exact .setCall rfl (hnone (by rw [hk]; rfl)) (hnone rfl)
  case h_9 hk =>
    cases h
    refine .setCall rfl (hnone (by rw [hk]; rfl)) (holders_eq_zero fun p hp => ?_)
    obtain ⟨q, -, rfl⟩ := List.mem_map.mp hp
    rfl
  case h_10 children hk =>
    split at h
    · rename_i hall
      cases h
      refine .setCall rfl (List.countP_eq_zero.mpr fun p hp => ?_) (hnone rfl)
      rw [hk] at hp
      have hfin := List.all_eq_true.mp hall p hp
      cases hpc : p.2 <;> simp [hpc, holdsLockOf, ShutdownPc.holdsLock] at hfin ⊢
    · cases h
  case h_11 hk =>
    cases h
    exact .setCall rfl (hnone (by rw [hk]; rfl)) (hnone rfl)
  all_goals cases h

theorem childStep_lock {k j : Nat} {x : CallInput} (h : childStep cfg s k j x = some s')
    (n : Nat) : LockMove n k s s' := by
  unfold childStep at h
  split at h
  · rename_i children hk
    split at h
    · cases h
    · rename_i n₁ pc hj
      split at h
      · cases h
      · rename_i s₁ pc' hs
        cases h
        refine .runs (j := j) (by simpa [hk, shutdowns] using hj) hs rfl ?_
        simp [setCall_calls, hk, shutdowns]
      · rename_i s₁ hs
        cases h
        obtain ⟨-, -, rfl⟩ := (shutdownStep_calls hs).2.2 rfl
        refine .drops (by simp [setCall_calls, holders, shutdowns]) ?_
        rw [setCall_namespaces, releaseLocks_taskSetLocked, holders, hk]
        rfl
  · cases h

theorem childStep_others {i j k : Nat} {x : CallInput} (h : childStep cfg s k j x = some s')
    (hi : i ≠ k) : s'.calls i = s.calls i := by
  unfold childStep at h
  split at h
  · split at h
    · cases h
    · split at h
      · cases h
      · rename_i s₁ pc' hs
        cases h
        rw [calls_setCall_of_ne hi, (shutdownStep_calls hs).1]
      · rename_i s₁ hs
        cases h
        rw [calls_setCall_of_ne hi, (releaseLocks_calls _ s₁).1, (shutdownStep_calls hs).1]
  · cases h

/-- **How a step of the server moves the locks**: it moves those of one call only. -/
theorem step_lock {a : ServerAction} (h : step cfg s a = some s') :
    ∃ k, (∀ i, i ≠ k → s'.calls i = s.calls i) ∧ ∀ n, LockMove n k s s' := by
  have hsame : s'.calls = s.calls →
      (∀ n, (s'.namespaces n).taskSetLocked = (s.namespaces n).taskSetLocked) →
      ∃ k, (∀ i, i ≠ k → s'.calls i = s.calls i) ∧ ∀ n, LockMove n k s s' :=
    fun hc hl => ⟨0, fun i _ => by rw [hc], fun n => .keeps (by rw [hc]) (hl n)⟩
  unfold step at h
  split at h
  · split at h
    · cases h
      exact hsame rfl fun _ => rfl
    · cases h
  · rename_i i b
    split at h
    · cases h
    · rename_i m hm
      split at h
      · obtain ⟨s₁, hs, rfl⟩ := Option.map_eq_some_iff.mp h
        unfold connStep at hs
        rw [hm] at hs
        dsimp only at hs
        split at hs
        · cases hs
        · cases hs
          refine hsame ?_ fun n => ?_
          · rw [spawn_calls, access_calls, setConn_calls]
          · rw [spawn_taskSetLocked, access_taskSetLocked, setConn_namespaces]
      · cases h
  · rename_i k r
    split at h
    · rename_i hk
      obtain ⟨c, hc, rfl⟩ := Option.map_eq_some_iff.mp h
      refine ⟨k, fun i hi => ?_, fun n => .setCall ?_ ?_ ?_⟩
      · rw [calls_setCall_of_ne hi]
        unfold create
        split <;> rfl
      · unfold create
        split
        · exact setNamespace_field (·.taskSetLocked) (by rfl) n
        · rfl
      · rw [hk]
        rfl
      · unfold entry at hc
        split at hc
        all_goals grind [holders_eq_zero, shutdowns]
    · cases h
  · rename_i k x
    exact ⟨k, fun i hi => callStep_others h hi, callStep_lock h⟩
  · rename_i k j x
    exact ⟨k, fun i hi => childStep_others h hi, childStep_lock h⟩
  · rename_i k
    split at h
    · cases h
      refine ⟨k, fun i hi => ?_, fun n => .drops ?_ ?_⟩
      · rw [calls_setCall_of_ne hi, (releaseLocks_calls _ s).1]
      · simp [setCall_calls, holders, shutdowns]
      · rw [setCall_namespaces, releaseLocks_taskSetLocked, holders]
    · cases h

/-- The call waits for the lock. -/
def isLocking (n : Nat) : Call → Bool
  | .shutdown n' .lock => n' = n
  | _ => false

theorem isLocking_iff {n : Nat} {c : Call} : isLocking n c = true ↔ c = .shutdown n .lock := by
  unfold isLocking
  split <;> simp_all

theorem isJoining_iff {n : Nat} {c : Call} : isJoining n c = true ↔ c = .shutdown n .join := by
  unfold isJoining
  split <;> simp_all

/-! ## One holder -/

/-- A free lock has no holder and a taken one has exactly one. -/
structure Exclusive (s : Runtime) (n : Nat) : Prop where
  free : (s.namespaces n).taskSetLocked = false → ∀ k, holders n (s.calls k) = 0
  held : (s.namespaces n).taskSetLocked = true → ∃ k, holders n (s.calls k) = 1 ∧
    ∀ i, i ≠ k → holders n (s.calls i) = 0

/-- The call that holds the lock, when one of its shutdowns does. -/
theorem Exclusive.holder {n k : Nat} (hi : Exclusive s n) (hk : 0 < holders n (s.calls k)) :
    (s.namespaces n).taskSetLocked = true ∧ holders n (s.calls k) = 1 ∧
      ∀ i, i ≠ k → holders n (s.calls i) = 0 := by
  cases hl : (s.namespaces n).taskSetLocked with
  | false =>
    have hzero := hi.free hl k
    omega
  | true =>
    obtain ⟨k₀, hone, hothers⟩ := hi.held hl
    have hk₀ : k = k₀ := by
      by_contra hne
      have hzero := hothers k hne
      omega
    subst hk₀
    exact ⟨rfl, hone, hothers⟩

theorem Exclusive.move {n k : Nat} (hi : Exclusive s n)
    (others : ∀ i, i ≠ k → s'.calls i = s.calls i) (h : LockMove n k s s') : Exclusive s' n := by
  cases h with
  | keeps held lock =>
    have hsame : ∀ i, holders n (s'.calls i) = holders n (s.calls i) := by
      intro i
      by_cases hik : i = k
      · rw [hik, held]
      · rw [others i hik]
    refine ⟨fun hl i => ?_, fun hl => ?_⟩
    · rw [hsame]
      exact hi.free (lock ▸ hl) i
    · obtain ⟨k₀, hone, hothers⟩ := hi.held (lock ▸ hl)
      exact ⟨k₀, by rw [hsame, hone], fun i hik => by rw [hsame, hothers i hik]⟩
  | takes held free lock =>
    refine ⟨fun hl => ?_, fun _ => ⟨k, ?_, fun i hik => ?_⟩⟩
    · rw [lock] at hl
      cases hl
    · rw [held, hi.free free]
    · rw [others i hik, hi.free free]
  | returns held lock =>
    obtain ⟨-, hone, hothers⟩ := hi.holder (k := k) (by omega)
    refine ⟨fun _ i => ?_, fun hl => ?_⟩
    · by_cases hik : i = k
      · subst hik
        omega
      · rw [others i hik, hothers i hik]
    · rw [lock] at hl
      cases hl
  | drops held lock =>
    refine ⟨fun hl i => ?_, fun hl => ?_⟩
    · by_cases hik : i = k
      · rw [hik, held]
      · rw [others i hik]
        by_cases hk : holders n (s.calls k) = 0
        · rw [lock, hk] at hl
          exact hi.free (by simpa using hl) i
        · exact (hi.holder (Nat.pos_of_ne_zero hk)).2.2 i hik
    · rw [lock, Bool.and_eq_true, decide_eq_true_eq] at hl
      obtain ⟨k₀, hone, hothers⟩ := hi.held hl.1
      have hk₀ : k₀ ≠ k := by
        rintro rfl
        omega
      refine ⟨k₀, by rw [others k₀ hk₀, hone], fun i hik => ?_⟩
      by_cases hik' : i = k
      · rw [hik', held]
      · rw [others i hik', hothers i hik]

theorem exclusive_of_reachable {guard : Runtime → ServerAction → Prop}
    (h : (system cfg).ReachableWhen guard s) (n : Nat) : Exclusive s n := by
  refine h.invariant (I := fun s => ∀ n, Exclusive s n) ?_ ?_ n
  · exact fun n => ⟨fun _ _ => rfl, fun hl => by cases hl⟩
  · intro s a s' _ _ hs hi n
    obtain ⟨k, others, hmove⟩ := step_lock hs
    exact (hi n).move others (hmove n)

theorem eq_of_countP_le_one {α : Type*} {p : α → Bool} {l : List α} {i j : Nat} {x y : α}
    (h : l.countP p ≤ 1) (hi : l[i]? = some x) (hx : p x = true) (hj : l[j]? = some y)
    (hy : p y = true) : i = j := by
  induction l generalizing i j with
  | nil => cases hi
  | cons z l ih =>
    rw [List.countP_cons] at h
    have hmem : ∀ {k : Nat} {w : α}, l[k]? = some w → p w = true → 0 < l.countP p :=
      fun hk hw => List.countP_pos_iff.mpr ⟨_, List.mem_of_getElem? hk, hw⟩
    cases i with
    | zero =>
      cases j with
      | zero => rfl
      | succ j =>
        obtain rfl : z = x := by simpa using hi
        have hpos := hmem (by simpa using hj) hy
        simp only [hx, if_true] at h
        omega
    | succ i =>
      cases j with
      | zero =>
        obtain rfl : z = y := by simpa using hj
        have hpos := hmem (by simpa using hi) hx
        simp only [hy, if_true] at h
        omega
      | succ j =>
        have hle : l.countP p ≤ 1 := by
          split at h <;> omega
        exact congrArg (· + 1) (ih hle (by simpa using hi) (by simpa using hj))

/-- A shutdown that holds the lock is the only one. -/
theorem holder_unique {guard : Runtime → ServerAction → Prop}
    (h : (system cfg).ReachableWhen guard s) {n k j k' j' : Nat} {pc pc' : ShutdownPc}
    (hk : (shutdowns (s.calls k))[j]? = some (n, pc)) (hl : pc.holdsLock = true)
    (hk' : (shutdowns (s.calls k'))[j']? = some (n, pc')) (hl' : pc'.holdsLock = true) :
    (s.namespaces n).taskSetLocked = true ∧ k' = k ∧ j' = j := by
  have hp : holdsLockOf n (n, pc) = true := by simpa [holdsLockOf] using hl
  have hp' : holdsLockOf n (n, pc') = true := by simpa [holdsLockOf] using hl'
  have hpos : ∀ {i : Nat} {l : List (Nat × ShutdownPc)} {q : Nat × ShutdownPc},
      l[i]? = some q → holdsLockOf n q = true → 0 < l.countP (holdsLockOf n) :=
    fun hi hq => List.countP_pos_iff.mpr ⟨_, List.mem_of_getElem? hi, hq⟩
  obtain ⟨hlock, hone, hothers⟩ := (exclusive_of_reachable h n).holder (k := k) (hpos hk hp)
  have hkk : k' = k := by
    by_contra hne
    have hzero := hothers k' hne
    have hlt := hpos hk' hp'
    rw [← holders, hzero] at hlt
    exact Nat.lt_irrefl 0 hlt
  subst hkk
  exact ⟨hlock, rfl, eq_of_countP_le_one (le_of_eq hone) hk' hp' hk hp⟩

/-! ## The task set of a shutdown that joins -/

/-- A shutdown takes tasks out of the set only in its loop. -/
theorem shutdownStep_takes {n n' i : Nat} {pc : ShutdownPc} {x : CallInput}
    {r : Option ShutdownPc} (h : shutdownStep cfg s n' pc x = some (s', r))
    (hi : i ∈ (s.namespaces n).taskSet) (hi' : i ∉ (s'.namespaces n).taskSet) :
    n' = n ∧ pc = .join ∧ x = .joined i ∧ taskEnded s i = true := by
  have hsame : (s'.namespaces n).taskSet = (s.namespaces n).taskSet →
      n' = n ∧ pc = .join ∧ x = .joined i ∧ taskEnded s i = true := by
    intro he
    rw [he] at hi'
    exact absurd hi hi'
  unfold shutdownStep at h
  dsimp only at h
  split at h
  · split at h <;> cases h <;> exact hsame rfl
  · cases h
    exact hsame (setNamespace_field (·.taskSet) (by rfl) n)
  · split at h
    · cases h
    · rename_i s₁ b' hb
      cases h
      exact hsame ((broadcastStep_steady hb).1.taskSet n)
    · rename_i s₁ hb
      cases h
      obtain ⟨rfl, -⟩ := broadcastStep_none hb
      exact hsame (setNamespace_field (·.taskSet) (by rfl) n)
  · split at h <;> cases h
    exact hsame (setNamespace_field (·.taskSet) (by rfl) n)
  · rename_i i'
    split at h
    · rename_i hj
      cases h
      rw [setNamespace_namespaces] at hi'
      split at hi'
      · rename_i hn
        subst hn
        have hii : i = i' := by
          by_contra hne
          exact hi' (Finset.mem_erase.mpr ⟨hne, hi⟩)
        subst hii
        exact ⟨rfl, rfl, rfl, hj.2⟩
      · exact absurd hi hi'
    · cases h
  · split at h <;> cases h
    exact hsame rfl
  · cases h
    exact hsame (setNamespace_field (·.taskSet) (by rfl) n)
  · cases h

/-- No task is spawned under a taken lock. -/
theorem not_spawns {a : ServerAction} (h : step cfg s a = some s') {n i : Nat}
    (hl : (s.namespaces n).taskSetLocked = true) : ¬ Spawns s a i n := by
  rintro ⟨rfl, m, hm, rfl, habs⟩
  simp [step, hm, permits, habs, hl] at h

/-- While a shutdown has the lock, the task set only loses tasks. -/
theorem taskSet_of_holder (h : (system cfg).Reachable s) {n k j : Nat} {pc : ShutdownPc}
    (hk : (shutdowns (s.calls k))[j]? = some (n, pc)) (hl : pc.holdsLock = true)
    {a : ServerAction} (hs : step cfg s a = some s') :
    (s'.namespaces n).taskSet ⊆ (s.namespaces n).taskSet := by
  intro i hi
  have hlock := (holder_unique h hk hl hk hl).1
  exact ((step_taskSet hs n i).1 hi).resolve_right (not_spawns hs hlock)

/-- **Shutdowns of a namespace join one at a time.** Whatever calls of `shutdown` and
`remove_namespace` overlap, and wherever they are dropped: a shutdown that has the lock of
its task set is the only one, and until it returns every step of the server leaves the set
as it is, but for its own `join_next` of a task that has ended. -/
theorem join_exclusive {cfg : ServerConfig} {s : Runtime} (h : (system cfg).Reachable s)
    {n k j : Nat} {pc : ShutdownPc} (hk : (shutdowns (s.calls k))[j]? = some (n, pc))
    (hl : pc.holdsLock = true) :
    (∀ k' j' pc', (shutdowns (s.calls k'))[j']? = some (n, pc') → pc'.holdsLock = true →
      k' = k ∧ j' = j) ∧
    ∀ a s', step cfg s a = some s' → (s'.namespaces n).taskSet ⊆ (s.namespaces n).taskSet ∧
      ∀ i ∈ (s.namespaces n).taskSet, i ∉ (s'.namespaces n).taskSet →
        (a = .call k (.joined i) ∨ a = .child k j (.joined i)) ∧ taskEnded s i = true := by
  refine ⟨fun k' j' pc' hk' hl' => (holder_unique h hk hl hk' hl').2,
    fun a s' hs => ⟨taskSet_of_holder h hk hl hs, ?_⟩⟩
  intro i hi hi'
  cases step_turn hs with
  | rest statuses closedAll taskSet calls status =>
    exact absurd ((taskSet n i).mpr (.inl hi)) hi'
  | runs k' j' n' pc₁ pc' x s₁ action thread step conns namespaces status own runtime sound others =>
    rw [namespaces] at hi'
    obtain ⟨rfl, rfl, rfl, hend⟩ := shutdownStep_takes step hi hi'
    obtain ⟨-, rfl, rfl⟩ := holder_unique h hk hl thread rfl
    exact ⟨action.imp_left fun ha => ha.1, hend⟩
  | _ =>
    rw [Steady.taskSet ‹_›] at hi'
    exact absurd hi hi'

theorem join_exclusive_overlapping :
    ∃ s, (system (.postcard false)).Reachable s ∧ s.calls 2 = .shutdown 0 .lock ∧
      (∀ k' j' pc', (shutdowns (s.calls k'))[j']? = some (0, pc') → pc'.holdsLock = true →
        k' = 1 ∧ j' = 0) ∧
      ∀ a s', step (.postcard false) s a = some s' →
        (s'.namespaces 0).taskSet ⊆ (s.namespaces 0).taskSet ∧
        ∀ i ∈ (s.namespaces 0).taskSet, i ∉ (s'.namespaces 0).taskSet →
          (a = .call 1 (.joined i) ∨ a = .child 1 0 (.joined i)) ∧ taskEnded s i = true := by
  obtain ⟨s, hr, hs⟩ := System.exists_reachable_of_exec (S := system (.postcard false))
    (l := List.flatten [[.start 0 (.insertNamespace 0), .call 0 .go, .call 0 .go,
        .start 1 (.shutdown 0), .start 2 (.shutdown 0), .call 1 .go, .call 2 .go],
      List.replicate 5 (.call 1 .go), List.replicate 4 (.call 2 .go)])
    (p := fun s => isJoining 0 (s.calls 1) && isLocking 0 (s.calls 2)) (by decide +kernel)
  rw [Bool.and_eq_true] at hs
  obtain ⟨h₁, h₂⟩ := hs
  exact ⟨s, hr, isLocking_iff.mp h₂, join_exclusive hr (k := 1) (j := 0)
    (by rw [isJoining_iff.mp h₁]; rfl) rfl⟩

/-! ## A stopped namespace -/

/-- A shutdown that leaves its loop has seen every task of the set end. -/
theorem taskSet_of_storeStopped {guard : Runtime → ServerAction → Prop}
    (h : (system cfg).ReachableWhen guard s) {n k j : Nat}
    (hk : (shutdowns (s.calls k))[j]? = some (n, .storeStopped)) :
    (s.namespaces n).taskSet = ∅ := by
  refine h.invariant (I := fun s => ∀ k j, (shutdowns (s.calls k))[j]? = some (n, .storeStopped) →
    (s.namespaces n).taskSet = ∅) (fun k j hk => by cases hk) ?_ k j hk
  intro s a s' hr _ hs ih k j hk
  have hkeep : ∀ k₀ j₀ : Nat, (shutdowns (s.calls k₀))[j₀]? = some (n, ShutdownPc.storeStopped) →
      (s'.namespaces n).taskSet = ∅ := by
    intro k₀ j₀ hk₀
    have hsub := taskSet_of_holder hr.reachable hk₀ rfl hs
    rw [ih k₀ j₀ hk₀] at hsub
    exact Finset.subset_empty.mp hsub
  have hmem : (n, ShutdownPc.storeStopped) ∈ shutdowns (s'.calls k) := List.mem_of_getElem? hk
  rcases (step_turn hs).thread hmem with (hg | hp) | ⟨j₀, pc, x, s₁, -, hpc, hst, -, hns⟩
  · cases hg
  · obtain ⟨j₀, hj₀⟩ := List.getElem?_of_mem hp
    exact hkeep k j₀ hj₀
  · -- the shutdown that moves comes from its loop
    have hempty : (s.namespaces n).taskSet = ∅ ∧ s₁ = s := by
      unfold shutdownStep at hst
      dsimp only at hst
      split at hst
      case h_6 =>
        split at hst
        · cases hst
          exact ⟨‹_›, rfl⟩
        · cases hst
      case h_1 | h_3 => split at hst <;> cases hst
      case h_4 | h_5 => split at hst <;> cases hst
      all_goals cases hst
    rw [hns, hempty.2]
    exact hempty.1

/-- The tasks of the connections of a stopped namespace are over. -/
def Ended (s : Runtime) (n : Nat) : Prop :=
  ∀ i m, s.conns i = some m → m.home = n → m.conn.main.connected = true →
    m.conn.main.ended = true

theorem finished_of_ended {pc : MainPc} (h : pc.ended = true) (hc : pc.created = true) :
    pc = .finished ∨ pc.panicked = true := by
  cases pc <;> simp_all [MainPc.ended, MainPc.created, MainPc.panicked]

/-- A task that got past the handshake and is over has removed its connection. -/
theorem removed_of_ended {pc : MainPc} {r : Registry} (h : pc = .finished ∨ pc.panicked = true)
    (he : ¬ pc.early = true) : pc.removed r = true := by
  obtain rfl | rfl : pc = .finished ∨ pc = .closePanicked := by
    refine h.imp_right fun hp => ?_
    revert hp he
    cases pc <;> simp [MainPc.early, MainPc.panicked]
  all_goals cases r <;> rfl

theorem Ended.finished {n : Nat} (he : Ended s n) {i : Nat} {m : Member} (hi : s.conns i = some m)
    (hhome : m.home = n) (hc : m.conn.main.created = true) :
    m.conn.main = .finished ∨ m.conn.main.panicked = true := by
  by_cases hp : m.conn.main = .initPanicked
  · exact .inr (by rw [hp]; rfl)
  · exact finished_of_ended (he i m hi hhome (by simp [MainPc.connected, hc, hp])) hc

theorem Ended.step {a : ServerAction} {n : Nat} (he : Ended s n) (h : step cfg s a = some s')
    (hn : (s.namespaces n).status ≠ .running) : Ended s' n := by
  rintro i m' hi rfl hcr
  obtain ⟨m, hm, hhome, hcr', hconn⟩ := step_uncreated h hi hn hcr
  have hend := he i m hm hhome.symm hcr'
  rcases hconn with hconn | ⟨b, hb⟩
  · rw [hconn, hend]
  · rw [Connection.step_main_ended hb hend, hend]

/-- A status becomes `Stopped` only by the last store of a shutdown. -/
theorem shutdownStep_stops {n n' : Nat} {pc : ShutdownPc} {x : CallInput} {r : Option ShutdownPc}
    (h : shutdownStep cfg s n' pc x = some (s', r)) (hn : (s.namespaces n).status ≠ .stopped)
    (hn' : (s'.namespaces n).status = .stopped) : n' = n ∧ pc = .storeStopped ∧ s'.conns = s.conns := by
  have hsame : (s'.namespaces n).status = (s.namespaces n).status →
      n' = n ∧ pc = .storeStopped ∧ s'.conns = s.conns := by
    intro he
    rw [he] at hn'
    exact absurd hn' hn
  unfold shutdownStep at h
  dsimp only at h
  split at h
  · split at h <;> cases h <;> exact hsame rfl
  · cases h
    rw [setNamespace_namespaces] at hn'
    split at hn'
    · cases hn'
    · exact absurd hn' hn
  · split at h
    · cases h
    · rename_i s₁ b' hb
      cases h
      exact hsame ((broadcastStep_steady hb).1.status n)
    · rename_i s₁ hb
      cases h
      obtain ⟨rfl, -⟩ := broadcastStep_none hb
      exact hsame (setNamespace_field (·.status) (by rfl) n)
  · split at h <;> cases h
    exact hsame (setNamespace_field (·.status) (by rfl) n)
  · split at h <;> cases h
    exact hsame (setNamespace_field (·.status) (by rfl) n)
  · split at h <;> cases h
    exact hsame rfl
  · cases h
    rw [setNamespace_namespaces] at hn'
    split at hn'
    · rename_i he
      exact ⟨he.symm, rfl, rfl⟩
    · exact absurd hn' hn
  · cases h

theorem ended_of_stopped {guard : Runtime → ServerAction → Prop}
    (h : (system cfg).ReachableWhen guard s) {n : Nat} (hn : (s.namespaces n).status = .stopped) :
    Ended s n := by
  refine h.invariant (I := fun s => (s.namespaces n).status = .stopped → Ended s n)
    (fun hn => by cases hn) ?_ hn
  intro s a s' hr _ hs ih hn'
  by_cases hn : (s.namespaces n).status = .stopped
  · exact (ih hn).step hs (by rw [hn]; simp)
  · cases step_turn hs with
    | rest statuses closedAll taskSet calls status =>
      rw [statuses] at hn'
      exact absurd hn' hn
    | runs k j n' pc pc' x s₁ action thread step conns namespaces status own runtime sound others =>
      rw [namespaces] at hn'
      obtain ⟨rfl, rfl, hconns⟩ := shutdownStep_stops step hn hn'
      have hempty := taskSet_of_storeStopped hr thread
      rintro i m hi rfl hcr
      rw [conns, hconns] at hi
      have hpresent : m.conn.main ≠ .absent := by
        intro hm
        rw [hm] at hcr
        cases hcr
      exact (tasks_of_reachable hr i m hi hpresent).resolve_left (by simp [hempty])
    | _ =>
      rw [Steady.status ‹_›] at hn'
      exact absurd hn' hn

/-- **A stopped namespace has no connection.** In every run of the server: while the status
of a namespace is `Stopped`, the task of every connection that was ever made there has run
`cleanup` to its end, or was taken down by a panic of the init-request handler or the close
handler. The maps of the namespace are empty, in every run in which no `remove_connection`
begins while its connection is being inserted. -/
theorem stopped_without_connections {cfg : ServerConfig} {s : Runtime}
    (h : (system cfg).Reachable s) {n : Nat} (hn : (s.namespaces n).status = .stopped) :
    (∀ i m, s.conns i = some m → m.home = n → m.conn.main.created = true →
      m.conn.main = .finished ∨ m.conn.main.panicked = true) ∧
    ((system cfg).ReachableWhen (fun s a => removalWaits s a = true) s →
      (s.namespaces n).connections = ∅ ∧ (s.namespaces n).connectionIds = ∅) := by
  have hended := ended_of_stopped h hn
  refine ⟨fun i m hi hhome hc => hended.finished hi hhome hc, fun hclear => ?_⟩
  have hout : ∀ r, r ≠ .runtimeIds → s.registry n r = ∅ := by
    intro r hr
    refine Finset.eq_empty_of_forall_notMem fun i hi => ?_
    obtain ⟨m, hm, hhome, hreg⟩ := (registered_of_reachable h r n i).mp hi
    have hconn : (Connection.system (cfg.config m.home)).ReachableWhen (fun _ _ => True) m.conn :=
      conn_reachable (fun _ _ _ _ _ _ => trivial) (fun _ _ _ _ _ _ _ _ => trivial) h hm
    have hop := Connection.mem_of_registered hreg
    have hcr := Connection.created_of_insert hconn hop
    by_cases he : m.conn.main.early = true
    · exact Connection.unregistered_of_early hconn he hop
    · -- the task is past its removals
      have hgone : m.conn.main.removed r = true :=
        removed_of_ended (hended.finished hm (hhome.resolve_right hr) hcr) he
      rw [(cleaned_of_reachable hclear hm).removed r hgone] at hreg
      cases hreg
  exact ⟨hout .connections (by simp), hout .connectionIds (by simp)⟩

theorem stopped_without_connections_run :
    ∃ s m, (system (.postcard false)).Reachable s ∧ (s.namespaces 0).status = .stopped ∧
      s.conns 0 = some m ∧ (m.conn.main = .finished ∨ m.conn.main.panicked = true) ∧
      (s.namespaces 0).connections = ∅ ∧ (s.namespaces 0).connectionIds = ∅ := by
  obtain ⟨s, hr, hs⟩ := System.exists_reachableWhen_of_execWhen
    (S := system (.postcard false)) (g := removalWaits)
    (l := List.flatten [readyRun, List.replicate 5 (.conn 0 (.read .go)), [.start 1 (.shutdown 0)],
      List.replicate 4 (.call 1 .go), [.call 1 (.target 0 0)],
      List.replicate 3 (.conn 0 (.caller 0)), List.replicate 2 (.call 1 .go), cleanupRun,
      [.call 1 (.joined 0), .call 1 .go, .call 1 .go]])
    (p := fun s => (s.namespaces 0).status = .stopped &&
      (s.conns 0).any fun m => m.home = 0 && m.conn.main.created) (by decide +kernel)
  simp only [Bool.and_eq_true, decide_eq_true_eq, Option.any_eq_true] at hs
  obtain ⟨hstopped, m, hm, hhome, hcr⟩ := hs
  obtain ⟨hended, hempty⟩ := stopped_without_connections hr.reachable hstopped
  exact ⟨s, m, hr.reachable, hstopped, hm, hended 0 m hm hhome hcr, hempty hr⟩

end Runtime

end WsIo.Server
