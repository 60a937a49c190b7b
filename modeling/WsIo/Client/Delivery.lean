import WsIo.Client.Exchange
import WsIo.Client.Operate

/-!
# From the buffer to the sessions

What a step does to the buffer, its lock and the send tasks (`senderStep_delivery`,
`callStep_delivery`, `step_delivery`), and two facts about every reachable state:

* `RxLock`: whoever holds the lock of `send_event_message_rx` stands where it uses it.
* `Attempts`: a send task that makes an attempt runs `emit_event_message` of the session.
-/

namespace WsIo.Client.Runtime

open Async Core

variable {cfg : ClientConfig} {s s' : Runtime} {k p : Nat}

/-- The message that a send task has taken out of the buffer. -/
def heldBy : SenderPc → List Buffered
  | .load m _ | .attempt m _ _ | .arm m | .wait m _ => [m]
  | .absent | .lockRx | .recv | .ended => []

theorem heldBy_missed (m : Buffered) (armed : Option Nat) : heldBy (missed m armed) = [m] := by
  cases armed <;> rfl

theorem holdsRx_missed (m : Buffered) (armed : Option Nat) :
    (missed m armed).holdsRx = true := by
  cases armed <;> rfl

/-! ## What a step does to the buffer -/

/-- What a step of a send task does: it takes the lock, takes a message, keeps what it
holds, or hands it to a session. -/
theorem senderStep_delivery (h : senderStep cfg s p = some s') :
    ∃ pc, s'.senders = Function.update s.senders p ⟨pc, (s.senders p).aborted⟩ ∧
      (((s.senders p).pc = .lockRx ∧ pc = .recv ∧ s.rxLock = none ∧
          s'.rxLock = some (.sender p) ∧ s'.buffer = s.buffer ∧ s'.handed = s.handed) ∨
        (∃ m, (s.senders p).pc = .recv ∧ pc = .load m none ∧
          s.buffer.recv = some (m, s'.buffer) ∧ s'.rxLock = s.rxLock ∧ s'.handed = s.handed) ∨
        ((s.senders p).pc.holdsRx = true ∧ pc.holdsRx = true ∧ heldBy pc = heldBy (s.senders p).pc ∧
          s'.rxLock = s.rxLock ∧ s'.buffer = s.buffer ∧ s'.handed = s.handed) ∨
        (∃ m i, (s.senders p).pc.holdsRx = true ∧ heldBy (s.senders p).pc = [m] ∧ pc = .recv ∧
          s'.rxLock = s.rxLock ∧ s'.buffer = s.buffer ∧ s'.handed = s.handed ++ [(i, m)])) := by
  rcases senderStep_cases h with ⟨hpc, hl, rfl⟩ | ⟨m, buffer, hpc, hr, rfl⟩ |
    ⟨m, armed, hpc, -, rfl⟩ | ⟨m, armed, i, x, c, hpc, -, -, -, rfl⟩ |
    ⟨m, armed, i, x, c, hpc, hx, hc, rfl⟩ | ⟨m, hpc, rfl⟩ | ⟨m, armed, hpc, -, rfl⟩
  · exact ⟨_, rfl, .inl ⟨hpc, rfl, hl, rfl, rfl, rfl⟩⟩
  · exact ⟨_, rfl, .inr (.inl ⟨m, hpc, rfl, hr, rfl, rfl⟩)⟩
  · refine ⟨_, rfl, .inr (.inr (.inl ⟨by rw [hpc]; rfl, holdsRx_missed .., ?_, rfl, rfl, rfl⟩))⟩
    rw [hpc, heldBy_missed]
    rfl
  · exact ⟨_, rfl, .inr (.inr (.inl ⟨by rw [hpc]; rfl, rfl, by rw [hpc]; rfl, rfl, rfl, rfl⟩))⟩
  · have hx' : (s.setMember i { x with session := c }).sessions i = some { x with session := c } := by
      simp [setMember]
    rcases afterAttempt_cases p m armed hx' with ⟨u, -, he⟩ | ⟨e, -, he⟩ | ⟨-, he⟩
    · rw [he]
      exact ⟨_, rfl, .inr (.inr (.inr ⟨m, i, by rw [hpc]; rfl, by rw [hpc]; rfl, rfl, rfl, rfl,
        rfl⟩))⟩
    · rw [he]
      refine ⟨_, rfl, .inr (.inr (.inl ⟨by rw [hpc]; rfl, holdsRx_missed .., ?_, rfl, rfl, rfl⟩))⟩
      rw [hpc, heldBy_missed]
      rfl
    · rw [he]
      refine ⟨(s.senders p).pc, (Function.update_eq_self p s.senders).symm,
        .inr (.inr (.inl ⟨by rw [hpc]; rfl, by rw [hpc]; rfl, rfl, rfl, rfl, rfl⟩))⟩
  · exact ⟨_, rfl, .inr (.inr (.inl ⟨by rw [hpc]; rfl, rfl, by rw [hpc]; rfl, rfl, rfl, rfl⟩))⟩
  · exact ⟨_, rfl, .inr (.inr (.inl ⟨by rw [hpc]; rfl, rfl, by rw [hpc]; rfl, rfl, rfl, rfl⟩))⟩

/-- A stopped send task is gone, and so is its guard. -/
theorem stopSender_delivery (h : stopSender cfg s p = some s') :
    (s.senders p).aborted = true ∧ (s.senders p).pc ≠ .absent ∧ (s.senders p).pc ≠ .ended ∧
      s'.senders = Function.update s.senders p ⟨.ended, true⟩ ∧
      s'.rxLock = (if (s.senders p).pc.holdsRx then none else s.rxLock) ∧
      s'.buffer = s.buffer ∧ s'.handed = s.handed := by
  obtain ⟨ha, ⟨hpc, rfl⟩ | ⟨m, armed, i, x, c, hpc, -, -, rfl⟩⟩ := stopSender_cases h
  · refine ⟨ha, ?_, ?_, ?_, rfl, rfl, rfl⟩
    · rcases hpc with h | h | ⟨m, armed, h⟩ <;> simp [h]
    · rcases hpc with h | h | ⟨m, armed, h⟩ <;> simp [h]
    · simp [endSender, setSender, ha]
  · refine ⟨ha, by simp [hpc], by simp [hpc], ?_, rfl, rfl, rfl⟩
    simp [endSender, setSender, setMember, ha]

/-- The period has begun and its send task has not been spawned. -/
def beforeSender : Call → Bool
  | .connect .storeToken | .connect .spawnLoop | .connect (.storeLoop _)
  | .connect .spawnSender => true
  | _ => false

/-- The `disconnect` has emptied the buffer. -/
def drained : Call → Bool
  | .disconnect _ .takeLoop | .disconnect _ (.awaitLoop _) | .disconnect _ .storeStopped => true
  | _ => false

/-- A step that leaves the buffer, its lock and the send tasks alone. -/
structure SameDelivery (s s' : Runtime) : Prop where
  buffer : s'.buffer = s.buffer
  rxLock : s'.rxLock = s.rxLock
  senders : s'.senders = s.senders
  accepted : s'.accepted = s.accepted
  handed : s'.handed = s.handed
  period : s'.period = s.period

/-- A step of call `k` that leaves the buffer alone. -/
structure Bystands (s s' : Runtime) (k : Nat) (c : Call) : Prop extends SameDelivery s s' where
  status : s'.status = s.status ∨ s'.status = .stopping
  calls : s'.calls = Function.update s.calls k c
  holdsRx : holdsRx c = holdsRx (s.calls k)
  before : beforeSender c = true → beforeSender (s.calls k) = true
  drained : drained c = true → drained (s.calls k) = true ∨
    ∃ packet, s.calls k = .disconnect packet .drain ∧ s.buffer.recv = none

/-- What a step of a call does to the buffer, its lock and the send tasks. -/
theorem callStep_delivery (h : callStep s k = some s') :
    (s.calls k = .connect .storeRunning ∧
        s' = { s with
          status := .running
          period := s.period + 1
          accepted := s.buffer.queue
          handed := [] }.setCall k (.connect .storeToken)) ∨
      (s.calls k = .connect .spawnSender ∧
        s' = (s.spawnSender s.period).setCall k (.connect (.storeSender s.period))) ∨
      (∃ packet p, s.calls k = .disconnect packet .abortSender ∧
        s' = ({ s with sendEventMessageTask := none }.abortSender p).setCall k
          (.disconnect packet .cancel)) ∨
      (∃ packet, s.calls k = .disconnect packet .lockRx ∧ s.rxLock = none ∧
        s' = { s with rxLock := some (.call k) }.setCall k (.disconnect packet .drain)) ∨
      (∃ packet m buffer, s.calls k = .disconnect packet .drain ∧
        s.buffer.recv = some (m, buffer) ∧ s' = { s with buffer }) ∨
      (∃ packet, s.calls k = .disconnect packet .storeStopped ∧
        s' = { s with status := .stopped, rxLock := none }.finishCall k .done) ∨
      (∃ c, Bystands s s' k c) := by
  unfold callStep at h
  split at h
  · rename_i pc hk
    cases pc <;> simp only [connectStep] at h
    case storeRunning =>
      cases h
      exact .inl ⟨hk, rfl⟩
    case spawnSender =>
      cases h
      exact .inr (.inl ⟨hk, rfl⟩)
    all_goals refine .inr (.inr (.inr (.inr (.inr (.inr ?_)))))
    case lock =>
      split at h
      · cases h
        exact ⟨_, ⟨rfl, rfl, rfl, rfl, rfl, rfl⟩, .inl rfl, rfl, by rw [hk]; rfl,
          by simp [beforeSender], by simp [drained]⟩
      · cases h
    case get =>
      split at h <;> cases h <;>
      exact ⟨_, ⟨rfl, rfl, rfl, rfl, rfl, rfl⟩, .inl rfl, rfl, by rw [hk]; rfl,
        by simp [beforeSender], by simp [drained]⟩
    all_goals
      cases h
      exact ⟨_, ⟨rfl, rfl, rfl, rfl, rfl, rfl⟩, .inl rfl, rfl, by rw [hk]; rfl,
        by simp [beforeSender, hk], by simp [drained]⟩
  · rename_i packet pc hk
    cases pc <;> simp only [disconnectStep] at h
    case abortSender =>
      split at h
      · cases h
        exact .inr (.inr (.inr (.inr (.inr (.inr ⟨_, ⟨rfl, rfl, rfl, rfl, rfl, rfl⟩, .inl rfl, rfl,
          by rw [hk]; rfl, by simp [beforeSender], by simp [drained]⟩)))))
      · rename_i p _
        cases h
        exact .inr (.inr (.inl ⟨packet, p, hk, rfl⟩))
    case lockRx =>
      split at h
      · rename_i hl
        cases h
        exact .inr (.inr (.inr (.inl ⟨packet, hk, hl, rfl⟩)))
      · cases h
    case drain =>
      split at h
      · rename_i m buffer hr
        cases h
        exact .inr (.inr (.inr (.inr (.inl ⟨packet, m, buffer, hk, hr, rfl⟩))))
      · rename_i hr
        cases h
        exact .inr (.inr (.inr (.inr (.inr (.inr ⟨_, ⟨rfl, rfl, rfl, rfl, rfl, rfl⟩, .inl rfl, rfl,
          by rw [hk]; rfl, by simp [beforeSender], fun _ => .inr ⟨packet, hk, hr⟩⟩)))))
    case storeStopped =>
      cases h
      exact .inr (.inr (.inr (.inr (.inr (.inl ⟨packet, hk, rfl⟩)))))
    all_goals refine .inr (.inr (.inr (.inr (.inr (.inr ?_)))))
    case storeStopping =>
      cases h
      exact ⟨_, ⟨rfl, rfl, rfl, rfl, rfl, rfl⟩, .inr rfl, rfl, by rw [hk]; rfl,
        by simp [beforeSender], by simp [drained]⟩
    case lock =>
      split at h
      · cases h
        exact ⟨_, ⟨rfl, rfl, rfl, rfl, rfl, rfl⟩, .inl rfl, rfl, by rw [hk]; rfl,
          by simp [beforeSender], by simp [drained]⟩
      · cases h
    case get =>
      split at h <;> cases h <;>
      exact ⟨_, ⟨rfl, rfl, rfl, rfl, rfl, rfl⟩, .inl rfl, rfl, by rw [hk]; rfl,
        by simp [beforeSender], by simp [drained]⟩
    case takeLoop =>
      split at h <;> cases h <;>
      exact ⟨_, ⟨rfl, rfl, rfl, rfl, rfl, rfl⟩, .inl rfl, rfl, by rw [hk]; rfl,
        by simp [beforeSender], fun _ => .inl (by rw [hk]; rfl)⟩
    case awaitLoop =>
      split at h
      · cases h
        exact ⟨_, ⟨rfl, rfl, rfl, rfl, rfl, rfl⟩, .inl rfl, rfl, by rw [hk]; rfl,
          by simp [beforeSender], fun _ => .inl (by rw [hk]; rfl)⟩
      · cases h
    case cancel =>
      cases h
      exact ⟨_, ⟨rfl, rfl, rfl, rfl, rfl, rfl⟩, .inl rfl, rfl, by rw [hk]; rfl,
        by simp [beforeSender], by simp [drained]⟩
  all_goals cases h

/-- The steps that leave the buffer alone because they belong to sessions, loops, new
calls and the beginning or the end of an `emit`. -/
theorem step_delivery {a : ClientAction} (h : step cfg s a = some s') :
    (SameDelivery s s' ∧ s'.status = s.status ∧
        (s'.calls = s.calls ∨ ∃ k c, s.calls k = .idle ∧ Begins s a k c ∧
          s'.calls = Function.update s.calls k c)) ∨
      (∃ k m buffer, s.emits k = .send m ∧ s.buffer.trySend m = .ok buffer ∧
        s' = { s with buffer, accepted := s.accepted ++ [m] }.setEmit k (.done (.ok ()))) ∨
      (∃ p, a = .sender p ∧ senderStep cfg s p = some s') ∨
      (∃ p, a = .stopSender p ∧ stopSender cfg s p = some s') ∨
      (∃ k, a = .call k ∧ callStep s k = some s') ∨
      (∃ k, a = .drop k ∧ awaits (s.calls k) = true ∧ s' = s.dropCall k) := by
  cases a with
  | call k => exact .inr (.inr (.inr (.inr (.inl ⟨k, rfl, h⟩))))
  | drop k =>
    simp only [step] at h
    split at h
    · rename_i hk
      cases h
      exact .inr (.inr (.inr (.inr (.inr ⟨k, rfl, hk, rfl⟩))))
    · cases h
  | sender p => exact .inr (.inr (.inl ⟨p, rfl, h⟩))
  | stopSender p => exact .inr (.inr (.inr (.inl ⟨p, rfl, h⟩)))
  | emitStep k x =>
    rcases emitStep_cases h with ⟨_, _, -, -, rfl⟩ | ⟨_, rfl⟩ | ⟨_, _, _, _, -, rfl⟩ |
      ⟨m, buffer, hk, hb, rfl⟩
    · exact .inl ⟨⟨rfl, rfl, rfl, rfl, rfl, rfl⟩, rfl, .inl rfl⟩
    · exact .inl ⟨⟨rfl, rfl, rfl, rfl, rfl, rfl⟩, rfl, .inl rfl⟩
    · exact .inl ⟨⟨rfl, rfl, rfl, rfl, rfl, rfl⟩, rfl, .inl rfl⟩
    · exact .inr (.inl ⟨k, m, buffer, hk, hb, rfl⟩)
  | session i b k =>
    have ho := memberStep_only h
    refine .inl ⟨⟨ho.buffer, ho.rxLock, ho.senders, ho.accepted, ho.handed, ho.period⟩,
      ho.status, ?_⟩
    obtain ⟨-, hk | ⟨c, hi, hb, hk⟩⟩ := memberStep_control h
    · exact .inl hk
    · exact .inr ⟨k, c, hi, hb, hk⟩
  | loop p x =>
    rcases loopStep_cases h with ⟨-, ⟨pc, -, rfl⟩ | ⟨i, -, -, rfl⟩⟩
    · exact .inl ⟨⟨rfl, rfl, rfl, rfl, rfl, rfl⟩, rfl, .inl rfl⟩
    · exact .inl ⟨⟨rfl, rfl, rfl, rfl, rfl, rfl⟩, rfl, .inl rfl⟩
  | start k r =>
    simp only [step] at h
    split at h
    · rename_i hk
      cases h
      exact .inl ⟨⟨rfl, rfl, rfl, rfl, rfl, rfl⟩, rfl, .inr ⟨k, _, hk, .inl ⟨r, rfl, rfl⟩, rfl⟩⟩
    · cases h
  | _ =>
    simp only [step] at h
    split at h
    · cases h
      exact .inl ⟨⟨rfl, rfl, rfl, rfl, rfl, rfl⟩, rfl, .inl rfl⟩
    · cases h

/-! ## The lock of the buffer -/

/-- The lock of the buffer is held by the send task or the call that it names; the send
task of a period is absent until its `connect` spawns it. -/
structure RxLock (s : Runtime) : Prop where
  senders : ∀ p, (s.senders p).pc.holdsRx = true ↔ s.rxLock = some (.sender p)
  calls : ∀ k, holdsRx (s.calls k) = true ↔ s.rxLock = some (.call k)
  later : ∀ p, s.period < p → (s.senders p).pc = .absent
  spawning : ∀ k, beforeSender (s.calls k) = true → (s.senders s.period).pc = .absent

theorem rxLock_initial (cfg : ClientConfig) : RxLock (initial cfg) where
  senders := by simp [initial, SenderPc.holdsRx]
  calls := by simp [initial, holdsRx]
  later := fun _ _ => rfl
  spawning := by simp [initial, beforeSender]

theorem Begins.holdsRx {a : ClientAction} {c : Call} (h : Begins s a k c) : holdsRx c = false := by
  rcases h with ⟨r, -, rfl⟩ | ⟨i, b, m, -, -, -, rfl⟩
  · cases r <;> rfl
  · rfl

theorem Begins.before {a : ClientAction} {c : Call} (h : Begins s a k c) :
    beforeSender c = false := by
  rcases h with ⟨r, -, rfl⟩ | ⟨i, b, m, -, -, -, rfl⟩
  · cases r <;> rfl
  · rfl

theorem rxLock_sender (h : senderStep cfg s p = some s') (hi : RxLock s) : RxLock s' := by
  obtain ⟨h₁, h₂, h₃, h₄⟩ := hi
  have hcalls := (senderStep_only h).calls
  have hper := (senderStep_only h).period
  obtain ⟨pc, hs, hcases⟩ := senderStep_delivery h
  constructor <;> simp only [hs, hcalls, hper, Function.update_apply] <;>
    rcases hcases with ⟨hpc, rfl, hl, hl', -, -⟩ | ⟨m, hpc, rfl, -, hl, -⟩ |
      ⟨hpc, hpc', -, hl, -, -⟩ | ⟨m, i, hpc, -, rfl, hl, -, -⟩ <;> grind [SenderPc.holdsRx]

theorem rxLock_stop (h : stopSender cfg s p = some s') (hi : RxLock s) : RxLock s' := by
  obtain ⟨h₁, h₂, h₃, h₄⟩ := hi
  have hcalls := (stopSender_only h).calls
  have hper := (stopSender_only h).period
  obtain ⟨-, hne, hne', hs, hl, -, -⟩ := stopSender_delivery h
  constructor <;> simp only [hs, hcalls, hper, hl, Function.update_apply]
  all_goals grind [SenderPc.holdsRx]

theorem rxLock_call (h : callStep s k = some s') (hc : Control s) (hi : RxLock s) :
    RxLock s' := by
  obtain ⟨h₁, h₂, h₃, h₄⟩ := hi
  rcases callStep_delivery h with ⟨hk, rfl⟩ | ⟨hk, rfl⟩ | ⟨packet, p, hk, rfl⟩ |
    ⟨packet, hk, hl, rfl⟩ | ⟨packet, m, buffer, hk, -, rfl⟩ | ⟨packet, hk, rfl⟩ | ⟨c, hb⟩
  · constructor <;> simp only [setCall, Function.update_apply]
    all_goals grind [holdsRx, beforeSender]
  · have habs := h₄ k (by rw [hk]; rfl)
    have hout : ∀ j, j ≠ k → beforeSender (s.calls j) = false := by
      intro j hj
      have := hc.outside (k := k) (by rw [hk]; rfl) hj
      cases hb : s.calls j with
      | connect pc => cases pc <;> simp_all [inside, beforeSender]
      | _ => rfl
    constructor <;> simp only [setCall, spawnSender, Function.update_apply]
    all_goals grind [holdsRx, beforeSender, SenderPc.holdsRx]
  · constructor <;> simp only [setCall, abortSender, Function.update_apply]
    all_goals grind [holdsRx, beforeSender]
  · constructor <;> simp only [setCall, Function.update_apply]
    all_goals grind [holdsRx, beforeSender]
  · exact ⟨h₁, h₂, h₃, h₄⟩
  · constructor <;> simp only [finishCall, setCall, Function.update_apply]
    all_goals grind [holdsRx, beforeSender]
  · obtain ⟨⟨-, hl, hs, -, -, hp⟩, -, hcalls, hrx, hbefore, -⟩ := hb
    constructor <;> simp only [hl, hs, hp, hcalls, Function.update_apply]
    all_goals grind

theorem rxLock_step {a : ClientAction} (h : step cfg s a = some s') (hc : Control s)
    (hi : RxLock s) : RxLock s' := by
  rcases step_delivery h with ⟨⟨-, hl, hs, -, -, hp⟩, -, hcalls⟩ | ⟨k, m, buffer, -, -, rfl⟩ |
    ⟨p, -, h⟩ | ⟨p, -, h⟩ | ⟨k, -, h⟩ | ⟨k, -, ha, rfl⟩
  · obtain ⟨h₁, h₂, h₃, h₄⟩ := hi
    rcases hcalls with hk | ⟨k, c, hidle, hb, hk⟩
    · constructor <;> simp only [hl, hs, hp, hk] <;> assumption
    · have hrx := hb.holdsRx
      have hbefore := hb.before
      constructor <;> simp only [hl, hs, hp, hk, Function.update_apply]
      all_goals grind [holdsRx]
  · exact ⟨hi.senders, hi.calls, hi.later, hi.spawning⟩
  · exact rxLock_sender h hi
  · exact rxLock_stop h hi
  · exact rxLock_call h hc hi
  · obtain ⟨h₁, h₂, h₃, h₄⟩ := hi
    constructor <;> simp only [dropCall, setCall, Function.update_apply]
    all_goals grind [holdsRx, beforeSender]

theorem rxLock_of_reachable {guard : Runtime → ClientAction → Prop}
    (h : (system cfg).ReachableWhen guard s) : RxLock s :=
  h.invariant (I := RxLock) (rxLock_initial cfg) fun _ _ _ hr _ hs hi =>
    rxLock_step hs (control_of_reachable hr) hi

/-! ## Attempts -/

/-- While a send task makes an attempt, the session runs its `emit_event_message`. -/
def Attempts (s : Runtime) : Prop :=
  ∀ p m armed i, (s.senders p).pc = .attempt m armed i →
    ∃ x, s.sessions i = some x ∧
      (x.session.emitters p = .check m.message ∨ x.session.emitters p = .send m.message)

/-- A step that is not one of send task `p` leaves its attempts alone. -/
theorem step_emitter_member {a : ClientAction} (h : step cfg s a = some s') {i : Nat} {x : Member}
    (hx : s.sessions i = some x) (ha : a ≠ .sender p) (ha' : a ≠ .stopSender p) :
    ∃ x', s'.sessions i = some x' ∧ x'.session.emitters p = x.session.emitters p := by
  obtain ⟨x', hx', rfl | ⟨b, hd, hmoved⟩⟩ := step_member h hx
  · exact ⟨x', hx', rfl⟩
  · refine ⟨x', hx', ?_⟩
    rcases Session.step_emitter hmoved.step p with he | hb
    · exact he
    · exfalso
      rcases hd with ⟨k, rfl⟩ | ⟨q, y, rfl, rfl⟩ | ⟨q, rfl, rfl⟩ | ⟨q, rfl, rfl⟩
      · -- a session does not emit by itself
        obtain ⟨m, c, -, hp, -, -⟩ := memberStep_some h
        rcases hb with ⟨y, rfl, -⟩ | rfl | rfl <;> cases hp
      · simp only [Action.emit.injEq, reduceCtorEq, or_false] at hb
        obtain ⟨z, ⟨rfl, -⟩, -⟩ := hb
        exact ha rfl
      · simp only [reduceCtorEq, false_and, exists_false, Action.emitter.injEq, or_false,
          false_or] at hb
        exact ha (hb ▸ rfl)
      · simp only [reduceCtorEq, false_and, exists_false, Action.drop.injEq, false_or] at hb
        exact ha' (hb ▸ rfl)

theorem step_senders_other {a : ClientAction} (h : step cfg s a = some s') (ha : a ≠ .sender p)
    (ha' : a ≠ .stopSender p) :
    (s'.senders p).pc = (s.senders p).pc ∨ (s'.senders p).pc = .lockRx := by
  rcases step_delivery h with ⟨⟨-, -, hs, -, -, -⟩, -, -⟩ | ⟨k, m, buffer, -, -, rfl⟩ |
    ⟨q, rfl, h⟩ | ⟨q, rfl, h⟩ | ⟨k, -, h⟩ | ⟨k, -, -, rfl⟩
  · exact .inl (by rw [hs])
  · exact .inl rfl
  · obtain ⟨pc, hs, -⟩ := senderStep_delivery h
    have hqp : p ≠ q := fun hpq => ha (hpq ▸ rfl)
    exact .inl (by rw [hs, Function.update_of_ne hqp])
  · obtain ⟨-, -, -, hs, -⟩ := stopSender_delivery h
    have hqp : p ≠ q := fun hpq => ha' (hpq ▸ rfl)
    exact .inl (by rw [hs, Function.update_of_ne hqp])
  · rcases callStep_delivery h with ⟨-, rfl⟩ | ⟨-, rfl⟩ | ⟨packet, q, -, rfl⟩ |
      ⟨packet, -, -, rfl⟩ | ⟨packet, m, buffer, -, -, rfl⟩ | ⟨packet, -, rfl⟩ | ⟨c, hb⟩
    · exact .inl rfl
    · by_cases hp : p = s.period
      · subst hp
        exact .inr (by simp [setCall, spawnSender])
      · exact .inl (by simp [setCall, spawnSender, Function.update_of_ne hp])
    · by_cases hp : p = q
      · subst hp
        exact .inl (by simp [setCall, abortSender])
      · exact .inl (by simp [setCall, abortSender, Function.update_of_ne hp])
    · exact .inl rfl
    · exact .inl rfl
    · exact .inl rfl
    · exact .inl (by rw [hb.senders])
  · exact .inl rfl

/-- How the attempt of a send task on session `i` moves: the check passes, the attempt
fails, or the message is in the channel of the session. -/
theorem attempt_cases (s : Runtime) (armed : Option Nat) (i : Nat) {m : Buffered} {x : Member}
    {c : Session} (hc : Session.step cfg x.session (.emitter p) = some c)
    (he : x.session.emitters p = .check m.message ∨ x.session.emitters p = .send m.message) :
    (x.session.emitters p = .check m.message ∧ x.session.state = .ready ∧
        c.emitters p = .send m.message ∧ c.channel = x.session.channel ∧
        (s.setMember i { x with session := c }).afterAttempt p m armed i =
          s.setMember i { x with session := c }) ∨
      ((x.session.state ≠ .ready ∨ x.session.channel.closed = true) ∧
        c.channel = x.session.channel ∧ c.state = x.session.state ∧
        (s.setMember i { x with session := c }).afterAttempt p m armed i =
          (s.setMember i { x with session := c }).setSender p (missed m armed)) ∨
      (x.session.channel.trySend ⟨.event, m.message⟩ = .ok c.channel ∧
        (s.setMember i { x with session := c }).afterAttempt p m armed i =
          { s.setMember i { x with session := c } with
            handed := s.handed ++ [(i, m)] }.setSender p .recv) := by
  have hx : (s.setMember i { x with session := c }).sessions i = some { x with session := c } := by
    simp [setMember]
  have hself : ∀ (y : Session) e, (y.setEmitter p e).emitters p = e := by
    intro y e
    simp [Session.setEmitter]
  rcases Session.emitterStep_cases hc with ⟨y, hy, hst, rfl⟩ | ⟨y, e, hy, hst, rfl⟩ |
    ⟨y, ch, hy, hs, rfl⟩ | ⟨y, e, hy, hcl, rfl⟩
  · have hm : y = m.message := by
      rcases he with he | he <;> rw [hy] at he <;> cases he
      rfl
    subst hm
    exact .inl ⟨hy, hst, hself .., rfl, by simp only [afterAttempt, hx, hself]⟩
  · exact .inr (.inl ⟨.inl hst, rfl, rfl, by simp only [afterAttempt, hx, hself]⟩)
  · have hm : y = m.message := by
      rcases he with he | he <;> rw [hy] at he <;> cases he
      rfl
    subst hm
    exact .inr (.inr ⟨hs, by simp only [afterAttempt, hx, hself]; rfl⟩)
  · exact .inr (.inl ⟨.inr hcl, rfl, rfl, by simp only [afterAttempt, hx, hself]⟩)

theorem attempts_sender {m : Buffered} {armed : Option Nat} {i : Nat}
    (h : senderStep cfg s p = some s') (hi : Attempts s)
    (hp : (s'.senders p).pc = .attempt m armed i) :
    ∃ x, s'.sessions i = some x ∧
      (x.session.emitters p = .check m.message ∨ x.session.emitters p = .send m.message) := by
  rcases senderStep_cases h with ⟨-, -, rfl⟩ | ⟨m', buffer, -, -, rfl⟩ | ⟨m', armed', -, -, rfl⟩ |
    ⟨m', armed', i', x, c, -, -, hx, hc, rfl⟩ | ⟨m', armed', i', x, c, hpc, hx, hc, rfl⟩ |
    ⟨m', -, rfl⟩ | ⟨m', armed', -, -, rfl⟩
  · simp [setSender] at hp
  · simp [setSender] at hp
  · cases armed' <;> simp [setSender, missed] at hp
  · simp only [setSender, Function.update_self, SenderPc.attempt.injEq] at hp
    obtain ⟨rfl, rfl, rfl⟩ := hp
    refine ⟨{ x with session := c }, by simp [setSender, setMember], .inl ?_⟩
    simp only [Session.step, Session.emitStart] at hc
    split at hc <;> cases hc <;> simp [Session.setEmitter]
  · obtain ⟨x', hx', he⟩ := hi p m' armed' i' hpc
    rw [hx] at hx'
    cases hx'
    rcases attempt_cases s armed' i' hc he with ⟨-, -, hsend, -, ha⟩ | ⟨-, -, -, ha⟩ | ⟨-, ha⟩
    · rw [ha] at hp ⊢
      have hpc' : (s.senders p).pc = .attempt m armed i := hp
      rw [hpc] at hpc'
      cases hpc'
      exact ⟨{ x with session := c }, by simp [setMember], .inr hsend⟩
    · rw [ha] at hp
      cases armed' <;> simp [setSender, missed] at hp
    · rw [ha] at hp
      simp [setSender] at hp
  · simp [setSender] at hp
  · simp [setSender] at hp

theorem attempts_step {a : ClientAction} (h : step cfg s a = some s') (hi : Attempts s) :
    Attempts s' := by
  intro p m armed i hp
  by_cases ha : a = .sender p
  · subst ha
    exact attempts_sender h hi hp
  by_cases ha' : a = .stopSender p
  · subst ha'
    obtain ⟨-, -, -, hs, -⟩ := stopSender_delivery h
    rw [hs, Function.update_self] at hp
    cases hp
  rcases step_senders_other h ha ha' with hs | hs
  · rw [hs] at hp
    obtain ⟨x, hx, he⟩ := hi p m armed i hp
    obtain ⟨x', hx', he'⟩ := step_emitter_member h hx ha ha'
    exact ⟨x', hx', by rw [he']; exact he⟩
  · rw [hs] at hp
    cases hp

theorem attempts_of_reachable {guard : Runtime → ClientAction → Prop}
    (h : (system cfg).ReachableWhen guard s) : Attempts s :=
  h.invariant (I := Attempts) (by simp [Attempts, system, initial]) fun _ _ _ _ _ hs hi =>
    attempts_step hs hi

end WsIo.Client.Runtime
