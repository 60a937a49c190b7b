import WsIo.Client.Runtime
import WsIo.Client.Steps

/-!
# What a step of the client runtime can do

One inversion lemma for each part of the runtime: the calls with the cells that only they
write (`step_control`), the sessions (`step_member`, `member_reachable`), the buffer with
its lock and the send tasks (`step_delivery`), and the emits.
-/

namespace WsIo.Client.Runtime

open Async Core

variable {cfg : ClientConfig} {s s' : Runtime}

/-! ## Calls -/

/-- A step that leaves the calls alone, and what only they write. -/
structure SameControl (s s' : Runtime) : Prop where
  status : s'.status = s.status
  cancelToken : s'.cancelToken = s.cancelToken
  operateLock : s'.operateLock = s.operateLock
  connectionLoopTask : s'.connectionLoopTask = s.connectionLoopTask
  sendEventMessageTask : s'.sendEventMessageTask = s.sendEventMessageTask
  period : s'.period = s.period

theorem SameControl.refl (s : Runtime) : SameControl s s := ⟨rfl, rfl, rfl, rfl, rfl, rfl⟩

theorem SameControl.trans {s₁ s₂ s₃ : Runtime} (h : SameControl s₁ s₂) (h' : SameControl s₂ s₃) :
    SameControl s₁ s₃ :=
  ⟨h'.1.trans h.1, h'.2.trans h.2, h'.3.trans h.3, h'.4.trans h.4, h'.5.trans h.5,
    h'.6.trans h.6⟩

/-- A call that begins: made by a user or a handler, or spawned by a Disconnect packet of a
session. -/
def Begins (s : Runtime) (a : ClientAction) (k : Nat) (c : Call) : Prop :=
  (∃ r, a = .start k r ∧ c = entry r) ∨
    (∃ i b m, a = .session i b k ∧ s.sessions i = some m ∧
      Session.effect m.session b = some .disconnect ∧ c = .disconnect (some i) .lock)

theorem sessionStep_some {i : Nat} {b : Action} (h : sessionStep cfg s i b = some s') :
    ∃ m c, s.sessions i = some m ∧ Session.step cfg m.session b = some c ∧
      s' = s.setMember i { m with session := c } := by
  unfold sessionStep at h
  split at h
  · cases h
  · rename_i m hm
    split at h
    · cases h
    · rename_i c hc
      cases h
      exact ⟨m, c, hm, hc, rfl⟩

/-- A step of a session: the session moves, makes its access to the runtime, and its owner
may load the token or end. -/
theorem memberStep_some {i k : Nat} {b : Action} (h : memberStep cfg s i b k = some s') :
    ∃ m c, s.sessions i = some m ∧ permits s m k b = true ∧ Session.step cfg m.session b = some c ∧
      s' = (if isOwner b then
          ((s.setMember i { m with session := c }).access i k { m with session := c }
            (Session.effect m.session b)).afterOwner i m.session.owner { m with session := c }
        else (s.setMember i { m with session := c }).access i k { m with session := c }
          (Session.effect m.session b)) := by
  unfold memberStep at h
  split at h
  · cases h
  · rename_i m hm
    split at h
    · rename_i hp
      split at h
      · cases h
      · rename_i c hc
        cases h
        exact ⟨m, c, hm, hp, hc, rfl⟩
    · cases h

theorem SameControl.setMember (s : Runtime) (i : Nat) (m : Member) :
    SameControl s (s.setMember i m) := ⟨rfl, rfl, rfl, rfl, rfl, rfl⟩

theorem SameControl.access (s : Runtime) (i k : Nat) (m : Member) (op : Option RuntimeOp) :
    SameControl s (s.access i k m op) := by
  cases op with
  | none => exact .refl s
  | some op => cases op <;> exact ⟨rfl, rfl, rfl, rfl, rfl, rfl⟩

theorem SameControl.afterOwner (s : Runtime) (i : Nat) (pc : OwnerPc) (m : Member) :
    SameControl s (s.afterOwner i pc m) := by
  unfold Runtime.afterOwner
  split
  · exact ⟨rfl, rfl, rfl, rfl, rfl, rfl⟩
  split
  · exact ⟨rfl, rfl, rfl, rfl, rfl, rfl⟩
  split
  · exact ⟨rfl, rfl, rfl, rfl, rfl, rfl⟩
  · exact .refl s

@[simp] theorem calls_setMember (s : Runtime) (i : Nat) (m : Member) :
    (s.setMember i m).calls = s.calls := rfl

@[simp] theorem calls_afterOwner (s : Runtime) (i : Nat) (pc : OwnerPc) (m : Member) :
    (s.afterOwner i pc m).calls = s.calls := by
  unfold afterOwner
  split
  · rfl
  split
  · rfl
  split <;> rfl

/-- Only a Disconnect packet makes a session touch the calls. -/
theorem calls_access (s : Runtime) (i k : Nat) (m : Member) (op : Option RuntimeOp) :
    (s.access i k m op).calls =
      if op = some .disconnect then Function.update s.calls k (.disconnect (some i) .lock)
      else s.calls := by
  cases op with
  | none => rfl
  | some op => cases op <;> rfl

theorem permits_disconnect {m : Member} {k : Nat} {b : Action} (h : permits s m k b = true)
    (hd : Session.effect m.session b = some .disconnect) : s.calls k = .idle := by
  unfold permits at h
  split at h
  · simp [Session.effect] at hd
  · cases h
  · cases h
  · cases h
  · simpa [hd] using h

theorem memberStep_control {i k : Nat} {b : Action} (h : memberStep cfg s i b k = some s') :
    SameControl s s' ∧ (s'.calls = s.calls ∨
      ∃ c, s.calls k = .idle ∧ Begins s (.session i b k) k c ∧
        s'.calls = Function.update s.calls k c) := by
  obtain ⟨m, c, hm, hp, hc, rfl⟩ := memberStep_some h
  have hsame := (SameControl.setMember s i { m with session := c }).trans
    (.access _ i k { m with session := c } (Session.effect m.session b))
  refine ⟨?_, ?_⟩
  · split
    · exact hsame.trans (.afterOwner ..)
    · exact hsame
  · by_cases hd : Session.effect m.session b = some .disconnect
    · refine .inr ⟨.disconnect (some i) .lock, permits_disconnect hp hd,
        .inr ⟨i, b, m, rfl, hm, hd, rfl⟩, ?_⟩
      split <;> simp [calls_access, hd]
    · refine .inl ?_
      split <;> simp [calls_access, hd]

/-- The loop runs and is not inside `run_connection` with a session. -/
def betweenSessions : LoopPc → Bool
  | .check | .connecting | .checkAgain | .loadToken | .sleeping _ => true
  | .absent | .session _ | .ended => false

theorem loopStep_cases {p : Nat} {x : LoopInput} (h : loopStep cfg s p x = some s') :
    betweenSessions (s.loops p) = true ∧
      ((∃ pc, (betweenSessions pc = true ∨ pc = .ended) ∧ s' = s.setLoop p pc) ∨
        (∃ i, x = .connected i ∧ s.sessions i = none ∧
          s' = (s.setMember i (newMember cfg s p)).setLoop p (.session i))) := by
  cases x with
  | go =>
    simp only [loopStep] at h
    split at h
    · rename_i hl
      cases h
      refine ⟨by rw [hl]; rfl, .inl ⟨_, ?_, rfl⟩⟩
      split
      · exact .inl rfl
      · exact .inr rfl
    · rename_i hl
      cases h
      refine ⟨by rw [hl]; rfl, .inl ⟨_, .inl ?_, rfl⟩⟩
      split <;> rfl
    · rename_i hl
      cases h
      exact ⟨by rw [hl]; rfl, .inl ⟨_, .inl rfl, rfl⟩⟩
    · cases h
  | connected i =>
    simp only [loopStep] at h
    split at h
    · rename_i hl
      cases h
      exact ⟨by rw [hl.1]; rfl, .inr ⟨i, rfl, hl.2, rfl⟩⟩
    · cases h
  | failed =>
    simp only [loopStep] at h
    split at h
    · rename_i hl
      cases h
      exact ⟨by rw [hl]; rfl, .inl ⟨_, .inl rfl, rfl⟩⟩
    · cases h
  | panicked =>
    simp only [loopStep] at h
    split at h
    · rename_i hl
      cases h
      exact ⟨by rw [hl]; rfl, .inl ⟨_, .inr rfl, rfl⟩⟩
    · cases h
  | elapsed =>
    simp only [loopStep] at h
    split at h
    · rename_i hl
      cases h
      exact ⟨by rw [hl]; rfl, .inl ⟨_, .inl rfl, rfl⟩⟩
    · cases h
  | cancelled =>
    simp only [loopStep] at h
    split at h
    · rename_i hl
      split at h
      · cases h
        exact ⟨by rw [hl]; rfl, .inl ⟨_, .inl rfl, rfl⟩⟩
      · cases h
    · cases h

theorem loopStep_control {p : Nat} {x : LoopInput} (h : loopStep cfg s p x = some s') :
    SameControl s s' ∧ s'.calls = s.calls := by
  rcases loopStep_cases h with ⟨-, ⟨pc, -, rfl⟩ | ⟨i, -, -, rfl⟩⟩
  · exact ⟨⟨rfl, rfl, rfl, rfl, rfl, rfl⟩, rfl⟩
  · exact ⟨⟨rfl, rfl, rfl, rfl, rfl, rfl⟩, rfl⟩

/-! ## The send task -/

/-- The ways in which an attempt of the send task ends. -/
theorem afterAttempt_cases (p : Nat) (m : Buffered) (armed : Option Nat) {i : Nat} {x : Member}
    (hx : s.sessions i = some x) :
    (∃ u, x.session.emitters p = .done (.ok u) ∧
        s.afterAttempt p m armed i =
          { s with handed := s.handed ++ [(i, m)] }.setSender p .recv) ∨
      (∃ e, x.session.emitters p = .done (.error e) ∧
        s.afterAttempt p m armed i = s.setSender p (missed m armed)) ∨
      ((∀ r, x.session.emitters p ≠ .done r) ∧ s.afterAttempt p m armed i = s) := by
  unfold afterAttempt
  rw [hx]
  dsimp only
  split
  · rename_i u hu
    exact .inl ⟨u, hu, rfl⟩
  · rename_i e he
    exact .inr (.inl ⟨e, he, rfl⟩)
  · rename_i h₁ h₂
    refine .inr (.inr ⟨fun r hr => ?_, rfl⟩)
    cases r with
    | ok u => exact h₁ u hr
    | error e => exact h₂ e hr

/-- What a step of the send task does. -/
theorem senderStep_cases {p : Nat} (h : senderStep cfg s p = some s') :
    ((s.senders p).pc = .lockRx ∧ s.rxLock = none ∧
        s' = { s with rxLock := some (.sender p) }.setSender p .recv) ∨
      (∃ m buffer, (s.senders p).pc = .recv ∧ s.buffer.recv = some (m, buffer) ∧
        s' = { s with buffer }.setSender p (.load m none)) ∨
      (∃ m armed, (s.senders p).pc = .load m armed ∧ s.session = none ∧
        s' = s.setSender p (missed m armed)) ∨
      (∃ m armed i x c, (s.senders p).pc = .load m armed ∧ s.session = some i ∧
        s.sessions i = some x ∧ Session.step cfg x.session (.emit p m.message) = some c ∧
        s' = (s.setMember i { x with session := c }).setSender p (.attempt m armed i)) ∨
      (∃ m armed i x c, (s.senders p).pc = .attempt m armed i ∧ s.sessions i = some x ∧
        Session.step cfg x.session (.emitter p) = some c ∧
        s' = (s.setMember i { x with session := c }).afterAttempt p m armed i) ∨
      (∃ m, (s.senders p).pc = .arm m ∧ s' = s.setSender p (.load m (some s.notifications))) ∨
      (∃ m armed, (s.senders p).pc = .wait m armed ∧ armed ≠ s.notifications ∧
        s' = s.setSender p (.load m none)) := by
  unfold senderStep at h
  split at h
  · rename_i hpc
    split at h
    · rename_i hl
      cases h
      exact .inl ⟨hpc, hl, rfl⟩
    · cases h
  · rename_i hpc
    split at h
    · cases h
    · rename_i m buffer hr
      cases h
      exact .inr (.inl ⟨m, buffer, hpc, hr, rfl⟩)
  · rename_i m armed hpc
    split at h
    · rename_i hs
      cases h
      exact .inr (.inr (.inl ⟨m, armed, hpc, hs, rfl⟩))
    · rename_i i hs
      obtain ⟨s₁, hstep, rfl⟩ := Option.map_eq_some_iff.mp h
      obtain ⟨x, c, hx, hc, rfl⟩ := sessionStep_some hstep
      exact .inr (.inr (.inr (.inl ⟨m, armed, i, x, c, hpc, hs, hx, hc, rfl⟩)))
  · rename_i m armed i hpc
    obtain ⟨s₁, hstep, rfl⟩ := Option.map_eq_some_iff.mp h
    obtain ⟨x, c, hx, hc, rfl⟩ := sessionStep_some hstep
    exact .inr (.inr (.inr (.inr (.inl ⟨m, armed, i, x, c, hpc, hx, hc, rfl⟩))))
  · rename_i m hpc
    cases h
    exact .inr (.inr (.inr (.inr (.inr (.inl ⟨m, hpc, rfl⟩)))))
  · rename_i m armed hpc
    split at h
    · cases h
    · rename_i hne
      cases h
      exact .inr (.inr (.inr (.inr (.inr (.inr ⟨m, armed, hpc, hne, rfl⟩)))))
  · cases h
  · cases h

/-- The abort of a send task takes effect at a wait, which may be the send of an attempt. -/
theorem stopSender_cases {p : Nat} (h : stopSender cfg s p = some s') :
    (s.senders p).aborted = true ∧
      ((((s.senders p).pc = .lockRx ∨ (s.senders p).pc = .recv ∨
          ∃ m armed, (s.senders p).pc = .wait m armed) ∧ s' = s.endSender p) ∨
        (∃ m armed i x c, (s.senders p).pc = .attempt m armed i ∧ s.sessions i = some x ∧
          Session.step cfg x.session (.drop p) = some c ∧
          s' = (s.setMember i { x with session := c }).endSender p)) := by
  unfold stopSender at h
  split at h
  · rename_i ha
    refine ⟨ha, ?_⟩
    split at h
    · rename_i hpc
      cases h
      exact .inl ⟨.inl hpc, rfl⟩
    · rename_i hpc
      cases h
      exact .inl ⟨.inr (.inl hpc), rfl⟩
    · rename_i m armed hpc
      cases h
      exact .inl ⟨.inr (.inr ⟨m, armed, hpc⟩), rfl⟩
    · rename_i m armed i hpc
      obtain ⟨s₁, hstep, rfl⟩ := Option.map_eq_some_iff.mp h
      obtain ⟨x, c, hx, hc, rfl⟩ := sessionStep_some hstep
      exact .inr ⟨m, armed, i, x, c, hpc, hx, hc, rfl⟩
    · cases h
  · cases h

/-- The send tasks write the buffer, their own cells and the sessions. -/
structure SenderOnly (s s' : Runtime) : Prop extends SameControl s s' where
  calls : s'.calls = s.calls
  cancelled : s'.cancelled = s.cancelled
  session : s'.session = s.session
  notifications : s'.notifications = s.notifications
  loops : s'.loops = s.loops
  emits : s'.emits = s.emits
  accepted : s'.accepted = s.accepted

theorem afterAttempt_only (s : Runtime) (p : Nat) (m : Buffered) (armed : Option Nat) (i : Nat) :
    SenderOnly s (s.afterAttempt p m armed i) := by
  unfold afterAttempt
  split
  · exact ⟨.refl s, rfl, rfl, rfl, rfl, rfl, rfl, rfl⟩
  split <;> exact ⟨⟨rfl, rfl, rfl, rfl, rfl, rfl⟩, rfl, rfl, rfl, rfl, rfl, rfl, rfl⟩

theorem senderStep_only {p : Nat} (h : senderStep cfg s p = some s') : SenderOnly s s' := by
  rcases senderStep_cases h with ⟨-, -, rfl⟩ | ⟨m, buffer, -, -, rfl⟩ | ⟨m, armed, -, -, rfl⟩ |
    ⟨m, armed, i, x, c, -, -, -, -, rfl⟩ | ⟨m, armed, i, x, c, -, -, -, rfl⟩ | ⟨m, -, rfl⟩ |
    ⟨m, armed, -, -, rfl⟩
  case inr.inr.inr.inr.inl =>
    obtain ⟨hc, h₁, h₂, h₃, h₄, h₅, h₆, h₇⟩ :=
      afterAttempt_only (s.setMember i { x with session := c }) p m armed i
    exact ⟨(SameControl.setMember ..).trans hc, h₁, h₂, h₃, h₄, h₅, h₆, h₇⟩
  all_goals exact ⟨⟨rfl, rfl, rfl, rfl, rfl, rfl⟩, rfl, rfl, rfl, rfl, rfl, rfl, rfl⟩

theorem stopSender_only {p : Nat} (h : stopSender cfg s p = some s') : SenderOnly s s' := by
  rcases stopSender_cases h with ⟨-, ⟨-, rfl⟩ | ⟨m, armed, i, x, c, -, -, -, rfl⟩⟩
  · exact ⟨⟨rfl, rfl, rfl, rfl, rfl, rfl⟩, rfl, rfl, rfl, rfl, rfl, rfl, rfl⟩
  · exact ⟨⟨rfl, rfl, rfl, rfl, rfl, rfl⟩, rfl, rfl, rfl, rfl, rfl, rfl, rfl⟩

/-! ## emit -/

/-- What a step of an `emit` does. -/
theorem emitStep_cases {k : Nat} {x : EmitInput} (h : emitStep cfg s k x = some s') :
    (∃ event data, s.emits k = .check event data ∧ s.status = .running ∧
        s' = s.setEmit k (.encode event data s.period)) ∨
      (∃ r, s' = s.setEmit k (.done r)) ∨
      (∃ event data period m, s.emits k = .encode event data period ∧
        s' = s.setEmit k (.send ⟨m, period⟩)) ∨
      (∃ m buffer, s.emits k = .send m ∧ s.buffer.trySend m = .ok buffer ∧
        s' = { s with buffer, accepted := s.accepted ++ [m] }.setEmit k (.done (.ok ()))) := by
  unfold emitStep at h
  split at h
  · rename_i event data he
    split at h
    · rename_i e _
      cases h
      exact .inr (.inl ⟨_, rfl⟩)
    · rename_i hok
      cases h
      refine .inl ⟨event, data, he, ?_, rfl⟩
      by_contra hne
      simp [ensure, hne] at hok
  · cases h
    exact .inr (.inl ⟨_, rfl⟩)
  · rename_i event data period he
    split at h
    · cases h
      exact .inr (.inl ⟨_, rfl⟩)
    · rename_i m _
      cases h
      exact .inr (.inr (.inl ⟨event, data, period, m, he, rfl⟩))
  · rename_i m he
    split at h
    · rename_i buffer hb
      cases h
      exact .inr (.inr (.inr ⟨m, buffer, he, hb, rfl⟩))
    · cases h
      exact .inr (.inl ⟨_, rfl⟩)
    · cases h
  · cases h

/-- An `emit` writes its own cell and the buffer. -/
structure EmitOnly (s s' : Runtime) : Prop extends SameControl s s' where
  calls : s'.calls = s.calls
  session : s'.session = s.session
  notifications : s'.notifications = s.notifications
  sessions : s'.sessions = s.sessions
  loops : s'.loops = s.loops
  senders : s'.senders = s.senders
  rxLock : s'.rxLock = s.rxLock
  handed : s'.handed = s.handed

theorem EmitOnly.setEmit (s : Runtime) (k : Nat) (e : Emit) : EmitOnly s (s.setEmit k e) :=
  ⟨⟨rfl, rfl, rfl, rfl, rfl, rfl⟩, rfl, rfl, rfl, rfl, rfl, rfl, rfl, rfl⟩

theorem emitStep_only {k : Nat} {x : EmitInput} (h : emitStep cfg s k x = some s') :
    EmitOnly s s' := by
  rcases emitStep_cases h with ⟨_, _, -, -, rfl⟩ | ⟨_, rfl⟩ | ⟨_, _, _, _, -, rfl⟩ |
    ⟨_, _, -, -, rfl⟩
  · exact .setEmit ..
  · exact .setEmit ..
  · exact .setEmit ..
  · exact ⟨⟨rfl, rfl, rfl, rfl, rfl, rfl⟩, rfl, rfl, rfl, rfl, rfl, rfl, rfl, rfl⟩

/-! ## Sessions -/

/-- A session writes the slot, the notifications and, through its owner, its loop. -/
structure SessionOnly (s s' : Runtime) : Prop extends SameControl s s' where
  buffer : s'.buffer = s.buffer
  rxLock : s'.rxLock = s.rxLock
  senders : s'.senders = s.senders
  emits : s'.emits = s.emits
  accepted : s'.accepted = s.accepted
  handed : s'.handed = s.handed

theorem SessionOnly.access (s : Runtime) (i k : Nat) (m : Member) (op : Option RuntimeOp) :
    SessionOnly s (s.access i k m op) := by
  cases op with
  | none => exact ⟨.refl s, rfl, rfl, rfl, rfl, rfl, rfl⟩
  | some op => cases op <;> exact ⟨⟨rfl, rfl, rfl, rfl, rfl, rfl⟩, rfl, rfl, rfl, rfl, rfl, rfl⟩

theorem SessionOnly.afterOwner (s : Runtime) (i : Nat) (pc : OwnerPc) (m : Member) :
    SessionOnly s (s.afterOwner i pc m) := by
  refine ⟨.afterOwner .., ?_, ?_, ?_, ?_, ?_, ?_⟩
  all_goals
    unfold Runtime.afterOwner
    split
    · rfl
    split
    · rfl
    split <;> rfl

theorem memberStep_only {i k : Nat} {b : Action} (h : memberStep cfg s i b k = some s') :
    SessionOnly s s' := by
  obtain ⟨m, c, -, -, -, rfl⟩ := memberStep_some h
  obtain ⟨hc, h₁, h₂, h₃, h₄, h₅, h₆⟩ := SessionOnly.access
    (s.setMember i { m with session := c }) i k { m with session := c } (Session.effect m.session b)
  split
  · obtain ⟨hc', h₁', h₂', h₃', h₄', h₅', h₆'⟩ := SessionOnly.afterOwner
      ((s.setMember i { m with session := c }).access i k { m with session := c }
        (Session.effect m.session b)) i m.session.owner { m with session := c }
    exact ⟨((SameControl.setMember ..).trans hc).trans hc', h₁'.trans h₁, h₂'.trans h₂,
      h₃'.trans h₃, h₄'.trans h₄, h₅'.trans h₅, h₆'.trans h₆⟩
  · exact ⟨(SameControl.setMember ..).trans hc, h₁, h₂, h₃, h₄, h₅, h₆⟩

/-- The slot and the count of notifications after an access. -/
def slotAfter (i : Nat) (slot : Option Nat) : Option RuntimeOp → Option Nat
  | some .publish => some i
  | some .clear => none
  | _ => slot

theorem session_access (s : Runtime) (i k : Nat) (m : Member) (op : Option RuntimeOp) :
    (s.access i k m op).session = slotAfter i s.session op := by
  cases op with
  | none => rfl
  | some op => cases op <;> rfl

theorem notifications_access (s : Runtime) (i k : Nat) (m : Member) (op : Option RuntimeOp) :
    (s.access i k m op).notifications =
      if op = some .notify then s.notifications + 1 else s.notifications := by
  cases op with
  | none => rfl
  | some op => cases op <;> rfl

@[simp] theorem session_afterOwner (s : Runtime) (i : Nat) (pc : OwnerPc) (m : Member) :
    (s.afterOwner i pc m).session = s.session := by
  unfold afterOwner
  split
  · rfl
  split
  · rfl
  split <;> rfl

@[simp] theorem notifications_afterOwner (s : Runtime) (i : Nat) (pc : OwnerPc) (m : Member) :
    (s.afterOwner i pc m).notifications = s.notifications := by
  unfold afterOwner
  split
  · rfl
  split
  · rfl
  split <;> rfl

theorem sessions_access (s : Runtime) (i k : Nat) (m : Member) (op : Option RuntimeOp) :
    (s.access i k m op).sessions =
      if op = some .notify then Function.update s.sessions i (some { m with notified := true })
      else s.sessions := by
  cases op with
  | none => rfl
  | some op => cases op <;> rfl

theorem sessions_afterOwner (s : Runtime) (i : Nat) (pc : OwnerPc) (m : Member) :
    (s.afterOwner i pc m).sessions =
      if pc = .loadToken then
        Function.update s.sessions i (some { m with token := some s.cancelToken })
      else s.sessions := by
  unfold afterOwner
  split
  · rfl
  split
  · rfl
  split <;> rfl

theorem effect_owner {c : Session} {b : Action} (h : isOwner b = true) :
    Session.effect c b ≠ some .notify := by
  cases b with
  | owner j =>
    cases j <;> simp only [Session.effect]
    case go => split <;> simp
    all_goals simp
  | _ => cases h

/-- What an action of a session does to its member: `m'` after `m`. -/
structure Moved (cfg : ClientConfig) (m m' : Member) (b : Action) : Prop where
  step : Session.step cfg m.session b = some m'.session
  loop : m'.loop = m.loop
  period : m'.period = m.period
  notified : m'.notified = true ↔
    m.notified = true ∨ Session.effect m.session b = some .notify

theorem memberStep_sessions {i k : Nat} {b : Action} (h : memberStep cfg s i b k = some s') :
    ∃ m m', s.sessions i = some m ∧ permits s m k b = true ∧ Moved cfg m m' b ∧
      s'.sessions = Function.update s.sessions i (some m') ∧
      s'.session = slotAfter i s.session (Session.effect m.session b) ∧
      s'.notifications =
        if Session.effect m.session b = some .notify then s.notifications + 1
        else s.notifications := by
  obtain ⟨m, c, hm, hp, hc, rfl⟩ := memberStep_some h
  have hslot : (if isOwner b then
      ((s.setMember i { m with session := c }).access i k { m with session := c }
        (Session.effect m.session b)).afterOwner i m.session.owner { m with session := c }
      else (s.setMember i { m with session := c }).access i k { m with session := c }
        (Session.effect m.session b)).session =
      slotAfter i s.session (Session.effect m.session b) := by
    split <;> simp [session_access, setMember]
  have hnot : (if isOwner b then
      ((s.setMember i { m with session := c }).access i k { m with session := c }
        (Session.effect m.session b)).afterOwner i m.session.owner { m with session := c }
      else (s.setMember i { m with session := c }).access i k { m with session := c }
        (Session.effect m.session b)).notifications =
      if Session.effect m.session b = some .notify then s.notifications + 1
      else s.notifications := by
    split <;> simp [notifications_access, setMember]
  by_cases ho : isOwner b = true
  · have hn := effect_owner (c := m.session) ho
    by_cases ht : m.session.owner = .loadToken
    · refine ⟨m, { m with session := c, token := some s.cancelToken }, hm, hp,
        ⟨hc, rfl, rfl, by simp [hn]⟩, ?_, hslot, hnot⟩
      have htok := (SameControl.access (s.setMember i { m with session := c }) i k
        { m with session := c } (Session.effect m.session b)).cancelToken
      rw [if_pos ho, sessions_afterOwner, if_pos ht, sessions_access, if_neg hn, htok]
      exact Function.update_idem ..
    · refine ⟨m, { m with session := c }, hm, hp, ⟨hc, rfl, rfl, by simp [hn]⟩, ?_, hslot, hnot⟩
      rw [if_pos ho, sessions_afterOwner, if_neg ht, sessions_access, if_neg hn]
      rfl
  · by_cases hn : Session.effect m.session b = some .notify
    · refine ⟨m, { m with session := c, notified := true }, hm, hp,
        ⟨hc, rfl, rfl, by simp [hn]⟩, ?_, hslot, hnot⟩
      rw [if_neg ho, sessions_access, if_pos hn]
      exact Function.update_idem ..
    · refine ⟨m, { m with session := c }, hm, hp, ⟨hc, rfl, rfl, by simp [hn]⟩, ?_, hslot, hnot⟩
      rw [if_neg ho, sessions_access, if_neg hn]
      rfl

theorem loops_access (s : Runtime) (i k : Nat) (m : Member) (op : Option RuntimeOp) :
    (s.access i k m op).loops = s.loops := by
  cases op with
  | none => rfl
  | some op => cases op <;> rfl

/-- The end of `run_connection` sends its loop on; a panic ends the loop. -/
theorem memberStep_loops {i k : Nat} {b : Action} (h : memberStep cfg s i b k = some s') :
    ∃ m c, s.sessions i = some m ∧ Session.step cfg m.session b = some c ∧
      ((s'.loops = s.loops ∧ (isOwner b = true → c.owner ≠ .finished ∧ c.owner ≠ .panicked)) ∨
        (isOwner b = true ∧ c.owner = .finished ∧
          s'.loops = Function.update s.loops m.loop .checkAgain) ∨
        (isOwner b = true ∧ c.owner = .panicked ∧
          s'.loops = Function.update s.loops m.loop .ended)) := by
  obtain ⟨m, c, hm, -, hc, rfl⟩ := memberStep_some h
  refine ⟨m, c, hm, hc, ?_⟩
  by_cases ho : isOwner b = true
  · rw [if_pos ho]
    unfold afterOwner
    by_cases ht : m.session.owner = .loadToken
    · refine .inl ⟨?_, fun _ => ?_⟩
      · rw [if_pos ht]
        exact loops_access ..
      · cases b with
        | owner j =>
          cases j <;> simp only [Session.step, Session.ownerStep, Session.ownerGo, ht] at hc
          case go =>
            cases hc
            exact ⟨by simp, by simp⟩
          all_goals simp at hc
        | _ => cases ho
    · rw [if_neg ht]
      by_cases hf : c.owner = .finished
      · refine .inr (.inl ⟨ho, hf, ?_⟩)
        rw [if_pos hf]
        exact congrArg (Function.update · m.loop LoopPc.checkAgain) (loops_access ..)
      · rw [if_neg hf]
        by_cases hp : c.owner = .panicked
        · refine .inr (.inr ⟨ho, hp, ?_⟩)
          rw [if_pos hp]
          exact congrArg (Function.update · m.loop LoopPc.ended) (loops_access ..)
        · rw [if_neg hp]
          exact .inl ⟨loops_access .., fun _ => ⟨hf, hp⟩⟩
  · rw [if_neg ho]
    exact .inl ⟨loops_access .., fun h => absurd h ho⟩

/-! ## Steps of the client -/

/-- A step leaves the calls alone, begins one, is a step of one or drops one. -/
theorem step_control {a : ClientAction} (h : step cfg s a = some s') :
    (SameControl s s' ∧ s'.calls = s.calls) ∨
      (∃ k c, SameControl s s' ∧ s.calls k = .idle ∧ Begins s a k c ∧
        s'.calls = Function.update s.calls k c) ∨
      (∃ k, a = .call k ∧ callStep s k = some s') ∨
      (∃ k, a = .drop k ∧ awaits (s.calls k) = true ∧ s' = s.dropCall k) := by
  cases a with
  | start k r =>
    simp only [step] at h
    split at h
    · rename_i hk
      cases h
      exact .inr (.inl ⟨k, entry r, ⟨rfl, rfl, rfl, rfl, rfl, rfl⟩, hk, .inl ⟨r, rfl, rfl⟩, rfl⟩)
    · cases h
  | call k => exact .inr (.inr (.inl ⟨k, rfl, h⟩))
  | drop k =>
    simp only [step] at h
    split at h
    · rename_i hk
      cases h
      exact .inr (.inr (.inr ⟨k, rfl, hk, rfl⟩))
    · cases h
  | loop p x => exact .inl (loopStep_control h)
  | session i b k =>
    obtain ⟨hc, hk | ⟨c, hi, hb, hk⟩⟩ := memberStep_control h
    · exact .inl ⟨hc, hk⟩
    · exact .inr (.inl ⟨k, c, hc, hi, hb, hk⟩)
  | sender p => exact .inl ⟨(senderStep_only h).toSameControl, (senderStep_only h).calls⟩
  | stopSender p => exact .inl ⟨(stopSender_only h).toSameControl, (stopSender_only h).calls⟩
  | emit k event data =>
    simp only [step] at h
    split at h
    · cases h
      exact .inl ⟨⟨rfl, rfl, rfl, rfl, rfl, rfl⟩, rfl⟩
    · cases h
  | emitStep k x => exact .inl ⟨(emitStep_only h).toSameControl, (emitStep_only h).calls⟩
  | emitDrop k =>
    simp only [step] at h
    split at h
    · cases h
      exact .inl ⟨⟨rfl, rfl, rfl, rfl, rfl, rfl⟩, rfl⟩
    · cases h
  | cancel token =>
    simp only [step] at h
    split at h
    · cases h
      exact .inl ⟨⟨rfl, rfl, rfl, rfl, rfl, rfl⟩, rfl⟩
    · cases h

/-- The step of session `i` that an action of the client makes: its own, or a step of an
attempt that a send task makes on it. -/
def Drives (a : ClientAction) (i : Nat) (b : Action) : Prop :=
  (∃ k, a = .session i b k) ∨ (∃ p x, a = .sender p ∧ b = .emit p x) ∨
    (∃ p, a = .sender p ∧ b = .emitter p) ∨ (∃ p, a = .stopSender p ∧ b = .drop p)

/-- A connect or disconnect call leaves the sessions alone. -/
theorem callStep_sessions {k : Nat} (h : callStep s k = some s') :
    s'.sessions = s.sessions ∧ s'.session = s.session ∧ s'.notifications = s.notifications ∧
      s'.emits = s.emits := by
  unfold callStep at h
  split at h
  · rename_i pc _
    cases pc <;> simp only [connectStep] at h
    case lock => split at h <;> cases h; exact ⟨rfl, rfl, rfl, rfl⟩
    case get => split at h <;> cases h <;> exact ⟨rfl, rfl, rfl, rfl⟩
    all_goals cases h; exact ⟨rfl, rfl, rfl, rfl⟩
  · rename_i packet pc _
    cases pc <;> simp only [disconnectStep] at h
    case lock => split at h <;> cases h; exact ⟨rfl, rfl, rfl, rfl⟩
    case get => split at h <;> cases h <;> exact ⟨rfl, rfl, rfl, rfl⟩
    case abortSender => split at h <;> cases h <;> exact ⟨rfl, rfl, rfl, rfl⟩
    case lockRx => split at h <;> cases h; exact ⟨rfl, rfl, rfl, rfl⟩
    case drain => split at h <;> cases h <;> exact ⟨rfl, rfl, rfl, rfl⟩
    case takeLoop => split at h <;> cases h <;> exact ⟨rfl, rfl, rfl, rfl⟩
    case awaitLoop => split at h <;> cases h; exact ⟨rfl, rfl, rfl, rfl⟩
    all_goals cases h; exact ⟨rfl, rfl, rfl, rfl⟩
  all_goals cases h

/-- A call spawns the loop of the present period or leaves the loops alone. -/
theorem callStep_loops {k : Nat} (h : callStep s k = some s') :
    (s'.loops = s.loops ∧ s.calls k ≠ .connect .spawnLoop) ∨
      (s.calls k = .connect .spawnLoop ∧
        s' = (s.setLoop s.period .check).setCall k (.connect (.storeLoop s.period))) := by
  unfold callStep at h
  split at h
  · rename_i pc hk
    cases pc <;> simp only [connectStep] at h
    case spawnLoop =>
      cases h
      exact .inr ⟨hk, rfl⟩
    case lock => split at h <;> cases h; exact .inl ⟨rfl, by simp [hk]⟩
    case get => split at h <;> cases h <;> exact .inl ⟨rfl, by simp [hk]⟩
    all_goals cases h; exact .inl ⟨rfl, by simp [hk]⟩
  · rename_i packet pc hk
    cases pc <;> simp only [disconnectStep] at h
    case lock | lockRx | awaitLoop => split at h <;> cases h; exact .inl ⟨rfl, by simp [hk]⟩
    case get | abortSender | drain | takeLoop =>
      split at h <;> cases h <;> exact .inl ⟨rfl, by simp [hk]⟩
    all_goals cases h; exact .inl ⟨rfl, by simp [hk]⟩
  all_goals cases h

theorem Moved.attempt {m : Member} {c : Session} {b : Action}
    (hc : Session.step cfg m.session b = some c) (hb : Session.effect m.session b = none) :
    Moved cfg m { m with session := c } b := ⟨hc, rfl, rfl, by simp [hb]⟩

theorem sessions_afterAttempt (s : Runtime) (p : Nat) (m : Buffered) (armed : Option Nat) (i : Nat) :
    (s.afterAttempt p m armed i).sessions = s.sessions := by
  unfold afterAttempt
  split
  · rfl
  split <;> rfl

/-- What the sessions look like after a step: as before, with a new one, or with one that
has moved. -/
theorem step_sessions {a : ClientAction} (h : step cfg s a = some s') :
    s'.sessions = s.sessions ∨
      (∃ p i, a = .loop p (.connected i) ∧ s.sessions i = none ∧
        s'.sessions = Function.update s.sessions i (some (newMember cfg s p))) ∨
      (∃ i b m m', s.sessions i = some m ∧ Drives a i b ∧ Moved cfg m m' b ∧
        s'.sessions = Function.update s.sessions i (some m')) := by
  cases a with
  | loop p x =>
    rcases loopStep_cases h with ⟨-, ⟨pc, -, rfl⟩ | ⟨i, rfl, hi, rfl⟩⟩
    · exact .inl rfl
    · exact .inr (.inl ⟨p, i, rfl, hi, rfl⟩)
  | session i b k =>
    obtain ⟨m, m', hm, -, hmoved, hs, -, -⟩ := memberStep_sessions h
    exact .inr (.inr ⟨i, b, m, m', hm, .inl ⟨k, rfl⟩, hmoved, hs⟩)
  | sender p =>
    rcases senderStep_cases h with ⟨-, -, rfl⟩ | ⟨m, buffer, -, -, rfl⟩ | ⟨m, armed, -, -, rfl⟩ |
      ⟨m, armed, i, x, c, -, -, hx, hc, rfl⟩ | ⟨m, armed, i, x, c, -, hx, hc, rfl⟩ | ⟨m, -, rfl⟩ |
      ⟨m, armed, -, -, rfl⟩
    case inr.inr.inr.inl =>
      exact .inr (.inr ⟨i, _, x, _, hx, .inr (.inl ⟨p, _, rfl, rfl⟩), .attempt hc rfl, rfl⟩)
    case inr.inr.inr.inr.inl =>
      exact .inr (.inr ⟨i, _, x, _, hx, .inr (.inr (.inl ⟨p, rfl, rfl⟩)), .attempt hc rfl,
        sessions_afterAttempt ..⟩)
    all_goals exact .inl rfl
  | stopSender p =>
    rcases stopSender_cases h with ⟨-, ⟨-, rfl⟩ | ⟨m, armed, i, x, c, -, hx, hc, rfl⟩⟩
    · exact .inl rfl
    · exact .inr (.inr ⟨i, _, x, _, hx, .inr (.inr (.inr ⟨p, rfl, rfl⟩)), .attempt hc rfl, rfl⟩)
  | call k => exact .inl (callStep_sessions h).1
  | emitStep k x => exact .inl (emitStep_only h).sessions
  | _ =>
    simp only [step] at h
    split at h <;> cases h
    exact .inl rfl

/-- A loop moves by a `connect` that spawns it, by its own steps and by the end of the
session it is in. -/
theorem step_loops {a : ClientAction} (h : step cfg s a = some s') :
    s'.loops = s.loops ∨
      (∃ k, a = .call k ∧ s.calls k = .connect .spawnLoop ∧
        s'.loops = Function.update s.loops s.period .check) ∨
      (∃ p pc x, a = .loop p x ∧ betweenSessions (s.loops p) = true ∧
        (betweenSessions pc = true ∨ pc = .ended ∨
          ∃ i, pc = .session i ∧ s'.sessions = Function.update s.sessions i (some (newMember cfg s p))) ∧
        s'.loops = Function.update s.loops p pc) ∨
      (∃ i b k m c, a = .session i b k ∧ s.sessions i = some m ∧
        Session.step cfg m.session b = some c ∧ isOwner b = true ∧
        ((c.owner = .finished ∧ s'.loops = Function.update s.loops m.loop .checkAgain) ∨
          (c.owner = .panicked ∧ s'.loops = Function.update s.loops m.loop .ended))) := by
  cases a with
  | loop p x =>
    rcases loopStep_cases h with ⟨hb, ⟨pc, hpc, rfl⟩ | ⟨i, -, hi, rfl⟩⟩
    · refine .inr (.inr (.inl ⟨p, pc, x, rfl, hb, ?_, rfl⟩))
      rcases hpc with hpc | hpc
      · exact .inl hpc
      · exact .inr (.inl hpc)
    · exact .inr (.inr (.inl ⟨p, .session i, x, rfl, hb, .inr (.inr ⟨i, rfl, rfl⟩), rfl⟩))
  | session i b k =>
    obtain ⟨m, c, hm, hc, ⟨hs, -⟩ | ⟨hb, ho, hs⟩ | ⟨hb, ho, hs⟩⟩ := memberStep_loops h
    · exact .inl hs
    · exact .inr (.inr (.inr ⟨i, b, k, m, c, rfl, hm, hc, hb, .inl ⟨ho, hs⟩⟩))
    · exact .inr (.inr (.inr ⟨i, b, k, m, c, rfl, hm, hc, hb, .inr ⟨ho, hs⟩⟩))
  | call k =>
    rcases callStep_loops h with ⟨hs, -⟩ | ⟨hk, rfl⟩
    · exact .inl hs
    · exact .inr (.inl ⟨k, rfl, hk, rfl⟩)
  | sender p => exact .inl (senderStep_only h).loops
  | stopSender p => exact .inl (stopSender_only h).loops
  | emitStep k x => exact .inl (emitStep_only h).loops
  | _ =>
    simp only [step] at h
    split at h <;> cases h
    exact .inl rfl

/-- A session that is there stays, and what it does is its own step or part of an attempt. -/
theorem step_member {a : ClientAction} (h : step cfg s a = some s') {i : Nat} {m : Member}
    (hm : s.sessions i = some m) :
    ∃ m', s'.sessions i = some m' ∧ (m' = m ∨ ∃ b, Drives a i b ∧ Moved cfg m m' b) := by
  rcases step_sessions h with hs | ⟨p, j, -, hj, hs⟩ | ⟨j, b, x, x', hx, hd, hmoved, hs⟩
  · exact ⟨m, by rw [hs, hm], .inl rfl⟩
  · have hne : i ≠ j := by
      rintro rfl
      rw [hm] at hj
      cases hj
    exact ⟨m, by rw [hs, Function.update_of_ne hne, hm], .inl rfl⟩
  · by_cases hij : i = j
    · subst hij
      rw [hm] at hx
      cases hx
      exact ⟨x', by rw [hs, Function.update_self], .inr ⟨b, hd, hmoved⟩⟩
    · exact ⟨m, by rw [hs, Function.update_of_ne hij, hm], .inl rfl⟩

/-- Where a session after a step comes from. -/
theorem step_member_before {a : ClientAction} (h : step cfg s a = some s') {i : Nat} {m' : Member}
    (hm' : s'.sessions i = some m') :
    s.sessions i = some m' ∨
      (∃ p, a = .loop p (.connected i) ∧ s.sessions i = none ∧ m' = newMember cfg s p) ∨
      (∃ b m, s.sessions i = some m ∧ Drives a i b ∧ Moved cfg m m' b) := by
  rcases step_sessions h with hs | ⟨p, j, ha, hj, hs⟩ | ⟨j, b, x, x', hx, hd, hmoved, hs⟩
  · exact .inl (by rw [← hm', hs])
  · rw [hs] at hm'
    by_cases hij : i = j
    · subst hij
      rw [Function.update_self] at hm'
      cases hm'
      exact .inr (.inl ⟨p, ha, hj, rfl⟩)
    · rw [Function.update_of_ne hij] at hm'
      exact .inl hm'
  · rw [hs] at hm'
    by_cases hij : i = j
    · subst hij
      rw [Function.update_self] at hm'
      cases hm'
      exact .inr (.inr ⟨b, x, hx, hd, hmoved⟩)
    · rw [Function.update_of_ne hij] at hm'
      exact .inl hm'

/-- Every session of the client is a run of the session system. -/
theorem member_reachable {guard : Runtime → ClientAction → Prop} {g : Session → Action → Prop}
    (hg : ∀ s a i b m, guard s a → s.sessions i = some m → Drives a i b → g m.session b)
    (h : (system cfg).ReachableWhen guard s) {i : Nat} {m : Member} (hm : s.sessions i = some m) :
    (Session.system cfg).ReachableWhen g m.session := by
  revert i m
  refine h.invariant (I := fun s => ∀ {i : Nat} {m : Member}, s.sessions i = some m →
    (Session.system cfg).ReachableWhen g m.session) ?_ ?_
  · intro i m hm
    cases hm
  · intro s a s' _ ha hs ih i m' hm'
    rcases step_member_before hs hm' with hm | ⟨p, -, -, rfl⟩ | ⟨b, m, hm, hd, hmoved⟩
    · exact ih hm
    · exact .init
    · exact .step (ih hm) (hg s a i b m ha hm hd) hmoved.step

end WsIo.Client.Runtime
