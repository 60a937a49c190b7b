import WsIo.Client.Session

/-!
# What a step of a session can do

The counterpart of `Server/Steps.lean`: one lemma for each piece of the session, which
fields each task leaves alone, and the few ways in which a step changes the state, the
channel and the log.
-/

namespace WsIo.Client

open Async Core

@[simp] theorem isDown_iff (s : SessionState) :
    isDown s = true ↔ s = .closed ∨ s = .closing := by
  cases s <;> decide

/-- The entries of the log that the read task makes. -/
def Obs.byReadTask : Obs → Bool
  | .received _ | .dispatched _ _ | .discarded _ | .bailed _ _ _ | .enqueued .init => true
  | .invoked h _ | .returned h _ => h ≠ .sessionClose
  | _ => false

namespace Session

variable {cfg : ClientConfig} {s s' : Session}

/-! ## Pieces -/

theorem enqueue_ok {m : Outgoing} (h : s.enqueue m = some (.ok s')) :
    ∃ ch, s.channel.trySend m = .ok ch ∧
      s' = { s with channel := ch, log := .enqueued m.origin :: s.log } := by
  unfold enqueue at h
  split at h
  · cases h
  · cases h
  · rename_i e he
    cases h
    obtain ⟨ch, hs, rfl⟩ := Endpoint.sendMessage_ok he
    exact ⟨ch, hs, rfl⟩

theorem enqueue_error {m : Outgoing} {e : Error} (h : s.enqueue m = some (.error e)) :
    s.channel.closed = true := by
  unfold enqueue at h
  split at h
  · cases h
  · rename_i he
    exact (Endpoint.sendMessage_error he).1
  · cases h

theorem sendPacket_ok {o : Origin} {p : WsIoPacket} (h : s.sendPacket cfg o p = some (.ok s')) :
    ∃ m ch, encodePacketToMessage cfg.codec p = .ok m ∧ s.channel.trySend ⟨o, m⟩ = .ok ch ∧
      s' = { s with channel := ch, log := .enqueued o :: s.log } := by
  unfold sendPacket at h
  split at h
  · cases h
  · rename_i m hm
    obtain ⟨ch, hs, he⟩ := enqueue_ok h
    exact ⟨m, ch, hm, hs, he⟩

theorem transition_cases (s : Session) (expected new : SessionState) (pc : ReadPc) :
    (s.state = expected ∧ s.transition expected new pc = { s with state := new, read := pc }) ∨
      (s.state ≠ expected ∧ s.transition expected new pc = { s with read := .ended }) := by
  by_cases h : s.state = expected
  · exact .inl ⟨h, by simp [transition, tryTransition, h]⟩
  · exact .inr ⟨h, by simp [transition, tryTransition, h]⟩

theorem closeAt_cases (s : Session) (a : CloseStep) :
    (a = .get ∧ (s.closeAt a).1 = s) ∨
      (a = .store ∧ (s.closeAt a).1 = { s with state := .closing }) ∨
      (a = .send ∧ (s.closeAt a).1 = { s with toEndpoint := s.toEndpoint.sendClose }) := by
  unfold closeAt
  rcases Endpoint.close_cases s.toEndpoint a with ⟨hs, h⟩ | ⟨hs, h⟩ | ⟨hs, h⟩
  · exact .inl ⟨hs, by rw [h]⟩
  · exact .inr (.inl ⟨hs, by rw [h]; rfl⟩)
  · exact .inr (.inr ⟨hs, by rw [h]⟩)

theorem closeAt_state (s : Session) (a : CloseStep) :
    (s.closeAt a).1.state = s.state ∨ (s.closeAt a).1.state = .closing :=
  Endpoint.close_state s.toEndpoint a

theorem closeAt_extends (s : Session) (a : CloseStep) :
    s.Extends (s.closeAt a).1.toEndpoint := Endpoint.Extends.close s.toEndpoint a

theorem closeAt_closed (s : Session) (a : CloseStep) :
    (s.closeAt a).1.channel.closed = s.channel.closed := Endpoint.close_closed s.toEndpoint a

theorem closeAt_received (s : Session) (a : CloseStep) :
    (s.closeAt a).1.channel.received = s.channel.received := Endpoint.close_received s.toEndpoint a

@[simp, grind =] theorem closeAt_log (a : CloseStep) : (s.closeAt a).1.log = s.log := rfl

@[simp, grind =] theorem closeAt_read (a : CloseStep) : (s.closeAt a).1.read = s.read := rfl

@[simp, grind =] theorem closeAt_owner (a : CloseStep) : (s.closeAt a).1.owner = s.owner := rfl

@[simp, grind =] theorem closeAt_emitters (a : CloseStep) :
    (s.closeAt a).1.emitters = s.emitters := rfl

@[simp, grind =] theorem closeAt_write (a : CloseStep) : (s.closeAt a).1.write = s.write := rfl

@[simp, grind =] theorem closeAt_epilogue (a : CloseStep) :
    (s.closeAt a).1.epilogue = s.epilogue := rfl

/-- `abort_locked_task` touches its own slot and task only. -/
theorem abortInitTimeout_eq (s : Session) :
    ∃ w t, s.abortInitTimeout = { s with initWatchAborted := w, initTimeoutTask := t } := by
  unfold abortInitTimeout
  split
  · exact ⟨_, _, rfl⟩
  · exact ⟨s.initWatchAborted, s.initTimeoutTask, rfl⟩

theorem abortReadyTimeout_eq (s : Session) :
    ∃ w t, s.abortReadyTimeout = { s with readyWatchAborted := w, readyTimeoutTask := t } := by
  unfold abortReadyTimeout
  split
  · exact ⟨_, _, rfl⟩
  · exact ⟨s.readyWatchAborted, s.readyTimeoutTask, rfl⟩

theorem abortPing_eq (s : Session) :
    ∃ w t, s.abortPing = { s with pingAborted := w, pingTask := t } := by
  unfold abortPing
  split
  · exact ⟨_, _, rfl⟩
  · exact ⟨s.pingAborted, s.pingTask, rfl⟩

theorem awaitTask_cases {handle : JoinHandle} {ended : Bool} {next : OwnerPc}
    (h : s.awaitTask handle ended next = some s') :
    (handle = .pending ∧ ended = true ∧ s' = { s with owner := next }) ∨
      (handle = .consumed ∧ s' = { s with owner := .panicked }) := by
  unfold awaitTask at h
  cases handle <;> cases ended <;> simp [JoinHandle.poll] at h
  · exact .inl ⟨rfl, rfl, h.symm⟩
  · exact .inr ⟨rfl, h.symm⟩
  · exact .inr ⟨rfl, h.symm⟩

theorem received_cases (f : Frame) : received f = [] ∨ ∃ m, received f = [.received m] := by
  unfold received
  split
  · exact .inr ⟨_, rfl⟩
  · exact .inl rfl

theorem writeStep_some {i : WriteInput} (h : s.writeStep i = some s') :
    ∃ e pc, s.toEndpoint.writeStep s.write s.writeAborted i = some (e, pc) ∧
      s' = { s with toEndpoint := e, write := pc } ∧ e.state = s.state := by
  unfold writeStep at h
  split at h
  · cases h
  · rename_i e pc he
    cases h
    exact ⟨e, pc, he, rfl, (Endpoint.writeStep_state he).1⟩

theorem initWatchStep_some {i : WatchInput} (h : s.initWatchStep i = some s') :
    ∃ e pc, s.toEndpoint.watchStep .awaitingInit s.initWatch s.initWatchAborted i = some (e, pc) ∧
      s' = { s with toEndpoint := e, initWatch := pc } ∧
      (e.state = s.state ∨ e.state = .closing) := by
  unfold initWatchStep at h
  split at h
  · cases h
  · rename_i e pc he
    cases h
    exact ⟨e, pc, he, rfl, Endpoint.watchStep_state he⟩

theorem readyWatchStep_some {i : WatchInput} (h : s.readyWatchStep i = some s') :
    ∃ e pc, s.toEndpoint.watchStep .awaitingReady s.readyWatch s.readyWatchAborted i =
        some (e, pc) ∧
      s' = { s with toEndpoint := e, readyWatch := pc } ∧
      (e.state = s.state ∨ e.state = .closing) := by
  unfold readyWatchStep at h
  split at h
  · cases h
  · rename_i e pc he
    cases h
    exact ⟨e, pc, he, rfl, Endpoint.watchStep_state he⟩

/-- The steps of `emit_event_message`: the check of the state, then the send. -/
theorem emitterStep_cases {k : Nat} (h : s.emitterStep k = some s') :
    (∃ m, s.emitters k = .check m ∧ s.state = .ready ∧ s' = s.setEmitter k (.send m)) ∨
      (∃ m e, s.emitters k = .check m ∧ s.state ≠ .ready ∧
        s' = s.setEmitter k (.done (.error e))) ∨
      (∃ m ch, s.emitters k = .send m ∧ s.channel.trySend ⟨.event, m⟩ = .ok ch ∧
        s' = { s with channel := ch, log := .enqueued .event :: s.log }.setEmitter k
          (.done (.ok ()))) ∨
      (∃ m e, s.emitters k = .send m ∧ s.channel.closed = true ∧
        s' = s.setEmitter k (.done (.error e))) := by
  unfold emitterStep at h
  split at h
  · rename_i m hm
    split at h
    · rename_i hs
      cases h
      refine .inl ⟨m, hm, ?_, rfl⟩
      by_contra hne
      simp [ensure, hne] at hs
    · rename_i e hs
      cases h
      refine .inr (.inl ⟨m, e, hm, ?_, rfl⟩)
      intro hr
      simp [ensure, hr] at hs
  · rename_i m hm
    split at h
    · cases h
    · rename_i e he
      cases h
      exact .inr (.inr (.inr ⟨m, e, hm, enqueue_error he, rfl⟩))
    · rename_i s₁ he
      cases h
      obtain ⟨ch, hs, rfl⟩ := enqueue_ok he
      exact .inr (.inr (.inl ⟨m, ch, hm, hs, rfl⟩))
  · cases h
  · cases h

/-! ## The read task -/

/-- The read task leaves the other tasks alone. -/
theorem readStep_frame {i : ReadInput} (h : readStep cfg s i = some s') :
    s'.owner = s.owner ∧ s'.write = s.write ∧ s'.emitters = s.emitters ∧
      s'.closeReturned = s.closeReturned ∧ s'.epilogue = s.epilogue ∧
      s'.readHandle = s.readHandle ∧ s'.writeHandle = s.writeHandle := by
  cases i with
  | go =>
    simp only [readStep] at h
    unfold readGo at h
    obtain ⟨w, t, hw⟩ := abortInitTimeout_eq s
    obtain ⟨w', t', hw'⟩ := abortReadyTimeout_eq s
    split at h
    all_goals grind [transition_cases, sendPacket_ok]
  | frame f => grind [readStep]
  | outcome o d => grind [readStep]
  | stop => grind [readStep]

/-- The read task changes the state by its three compare-and-swaps only. -/
theorem readStep_state {i : ReadInput} (h : readStep cfg s i = some s') :
    s'.state = s.state ∨
      (∃ d, s.read = .initTransition d ∧ s'.read = .abortInitTimeout d ∧
        s.state = .awaitingInit ∧ s'.state = .initiating) ∨
      (∃ d, s.read = .awaitReady d ∧ s'.read = .spawnReadyTimeout d ∧
        s.state = .initiating ∧ s'.state = .awaitingReady) ∨
      (s.read = .readyTransition ∧ s'.read = .abortReadyTimeout ∧
        s.state = .awaitingReady ∧ s'.state = .ready) := by
  cases i with
  | go =>
    simp only [readStep] at h
    unfold readGo at h
    obtain ⟨w, t, hw⟩ := abortInitTimeout_eq s
    obtain ⟨w', t', hw'⟩ := abortReadyTimeout_eq s
    split at h
    all_goals grind [transition_cases, sendPacket_ok]
  | frame f => grind [readStep]
  | outcome o d => grind [readStep]
  | stop => grind [readStep]

/-- The read task enqueues the init response only. -/
theorem readStep_channel {i : ReadInput} (h : readStep cfg s i = some s') :
    s'.channel = s.channel ∨
      (∃ d m, s.read = .sendInit d ∧ s'.read = .next ∧ s'.log = .enqueued .init :: s.log ∧
        encodePacketToMessage cfg.codec (.newInit d) = .ok m ∧
          s.channel.trySend ⟨.init, m⟩ = .ok s'.channel) := by
  cases i with
  | go =>
    simp only [readStep] at h
    unfold readGo at h
    obtain ⟨w, t, hw⟩ := abortInitTimeout_eq s
    obtain ⟨w', t', hw'⟩ := abortReadyTimeout_eq s
    split at h
    all_goals grind [transition_cases, sendPacket_ok]
  | frame f => grind [readStep]
  | outcome o d => grind [readStep]
  | stop => grind [readStep]

/-! ## The message channel -/

/-- A step is the `try_send` of a `close` call, or it leaves the returned `close` calls
as they were. -/
theorem step_close {a : Action} (h : step cfg s a = some s') :
    (closeSends s a = true ∧ s'.toEndpoint = s.toEndpoint.sendClose) ∨
      (closeSends s a = false ∧ s'.closeReturned = s.closeReturned) := by
  cases a with
  | owner i =>
    simp only [step] at h
    cases i with
    | go =>
      simp only [ownerStep] at h
      unfold ownerGo at h
      obtain ⟨w₁, t₁, h₁⟩ := abortInitTimeout_eq s
      obtain ⟨w₂, t₂, h₂⟩ := abortReadyTimeout_eq s
      obtain ⟨w₃, t₃, h₃⟩ := abortPing_eq s
      split at h
      all_goals grind [closeAt_cases, → awaitTask_cases, closeSends]
    | _ => grind [ownerStep, closeSends]
  | read i =>
    obtain ⟨-, -, -, hr, -⟩ := readStep_frame h
    exact .inr ⟨rfl, hr⟩
  | write i =>
    obtain ⟨e, pc, he, rfl, -⟩ := writeStep_some h
    exact .inr ⟨rfl, (Endpoint.writeStep_state he).2.2⟩
  | initWatch i =>
    obtain ⟨e, pc, he, rfl, -⟩ := initWatchStep_some h
    grind [Endpoint.watchStep_cases, Endpoint.close_cases, closeSends]
  | readyWatch i =>
    obtain ⟨e, pc, he, rfl, -⟩ := readyWatchStep_some h
    grind [Endpoint.watchStep_cases, Endpoint.close_cases, closeSends]
  | ping i => cases i <;> grind [step, pingStep, enqueue_ok, closeAt_cases, closeSends]
  | emit k m => grind [step, emitStart, setEmitter, closeSends]
  | emitter k => grind [step, emitterStep, setEmitter, ensure, enqueue_ok, closeSends]
  | drop k => grind [step, emitDrop, setEmitter, closeSends]

/-- No step takes a message back or revives the receiver. -/
theorem step_extends {a : Action} (h : step cfg s a = some s') : s.Extends s'.toEndpoint := by
  cases a with
  | owner i =>
    simp only [step] at h
    cases i with
    | go =>
      simp only [ownerStep] at h
      unfold ownerGo at h
      obtain ⟨w₁, t₁, h₁⟩ := abortInitTimeout_eq s
      obtain ⟨w₂, t₂, h₂⟩ := abortReadyTimeout_eq s
      obtain ⟨w₃, t₃, h₃⟩ := abortPing_eq s
      split at h
      all_goals grind [closeAt_extends, → awaitTask_cases, Endpoint.Extends.of_channel]
    | _ => grind [ownerStep, Endpoint.Extends.of_channel]
  | read i =>
    rcases readStep_channel h with hc | ⟨d, m, -, -, -, -, hc⟩
    · exact .of_channel hc
    · exact .of_trySend hc
  | write i =>
    obtain ⟨e, pc, he, rfl, -⟩ := writeStep_some h
    exact .writeStep he
  | initWatch i =>
    obtain ⟨e, pc, he, rfl, -⟩ := initWatchStep_some h
    exact .watchStep he
  | readyWatch i =>
    obtain ⟨e, pc, he, rfl, -⟩ := readyWatchStep_some h
    exact .watchStep he
  | ping i =>
    cases i <;> grind [step, pingStep, enqueue_ok, closeAt_extends, Endpoint.Extends.of_channel,
      Endpoint.Extends.of_trySend]
  | emit k m => grind [step, emitStart, setEmitter, Endpoint.Extends.of_channel]
  | emitter k =>
    grind [step, emitterStep, setEmitter, ensure, enqueue_ok, Endpoint.Extends.of_channel,
      Endpoint.Extends.of_trySend]
  | drop k => grind [step, emitDrop, setEmitter, Endpoint.Extends.of_channel]

/-- The write task and the receiver change together, in the write task's own steps. -/
theorem step_write {a : Action} (h : step cfg s a = some s') :
    (s'.write = s.write ∧ s'.channel.closed = s.channel.closed ∧
        s'.channel.received = s.channel.received) ∨
      (s.owner = .spawnWrite ∧ s'.owner = .publish ∧ s'.write = .recv ∧ s'.channel = s.channel) ∨
      (∃ i e pc, a = .write i ∧ s.toEndpoint.writeStep s.write s.writeAborted i = some (e, pc) ∧
        s' = { s with toEndpoint := e, write := pc }) := by
  cases a with
  | owner i =>
    simp only [step] at h
    cases i with
    | go =>
      simp only [ownerStep] at h
      unfold ownerGo at h
      obtain ⟨w₁, t₁, h₁⟩ := abortInitTimeout_eq s
      obtain ⟨w₂, t₂, h₂⟩ := abortReadyTimeout_eq s
      obtain ⟨w₃, t₃, h₃⟩ := abortPing_eq s
      split at h
      all_goals grind [closeAt_closed, closeAt_received, → awaitTask_cases]
    | _ => grind [ownerStep]
  | read i =>
    obtain ⟨-, hw, -⟩ := readStep_frame h
    rcases readStep_channel h with hc | ⟨d, m, -, -, -, -, hc⟩
    · exact .inl ⟨hw, by rw [hc], by rw [hc]⟩
    · exact .inl ⟨hw, Channel.closed_trySend hc, Channel.received_trySend hc⟩
  | write i =>
    obtain ⟨e, pc, he, rfl, -⟩ := writeStep_some h
    exact .inr (.inr ⟨i, e, pc, rfl, he, rfl⟩)
  | initWatch i =>
    obtain ⟨e, pc, he, rfl, -⟩ := initWatchStep_some h
    exact .inl ⟨rfl, Endpoint.watchStep_closed he, Endpoint.watchStep_received he⟩
  | readyWatch i =>
    obtain ⟨e, pc, he, rfl, -⟩ := readyWatchStep_some h
    exact .inl ⟨rfl, Endpoint.watchStep_closed he, Endpoint.watchStep_received he⟩
  | ping i => cases i <;> grind [step, pingStep, enqueue_ok, closeAt_closed, closeAt_received]
  | emit k m => grind [step, emitStart, setEmitter]
  | emitter k => grind [step, emitterStep, setEmitter, ensure, enqueue_ok]
  | drop k => grind [step, emitDrop, setEmitter]

/-! ## The other tasks -/

@[grind =] theorem emitters_setEmitter (s : Session) (k j : Nat) (x : Emitter) :
    (s.setEmitter k x).emitters j = if j = k then x else s.emitters j := Function.update_apply ..

/-- What a step outside the read task does to the read task and to the state. -/
theorem step_outside {a : Action} (h : step cfg s a = some s') (ha : ∀ i, a ≠ .read i) :
    (s'.read = s.read ∨ s.owner = .spawnRead ∧ s'.owner = .spawnWrite ∧ s'.read = .next) ∧
      (s'.state = s.state ∨ isDown s'.state = true ∨
        s.owner = .initStore ∧ s'.owner = .spawnInitTimeout ∧ s'.state = .awaitingInit) := by
  cases a with
  | read i => exact absurd rfl (ha i)
  | owner i =>
    simp only [step] at h
    cases i with
    | go =>
      simp only [ownerStep] at h
      unfold ownerGo at h
      obtain ⟨w₁, t₁, h₁⟩ := abortInitTimeout_eq s
      obtain ⟨w₂, t₂, h₂⟩ := abortReadyTimeout_eq s
      obtain ⟨w₃, t₃, h₃⟩ := abortPing_eq s
      split at h
      all_goals grind [closeAt_state, → awaitTask_cases, isDown_iff]
    | _ => grind [ownerStep]
  | write i => grind [step, writeStep_some]
  | initWatch i => grind [step, initWatchStep_some, isDown_iff]
  | readyWatch i => grind [step, readyWatchStep_some, isDown_iff]
  | ping i => cases i <;> grind [step, pingStep, enqueue_ok, closeAt_state, isDown_iff]
  | emit k m => grind [step, emitStart, setEmitter]
  | emitter k => grind [step, emitterStep, setEmitter, ensure, enqueue_ok]
  | drop k => grind [step, emitDrop, setEmitter]

/-- What the other tasks note in the log. -/
theorem step_outside_log {a : Action} (h : step cfg s a = some s') (ha : ∀ i, a ≠ .read i) :
    s'.log = s.log ∨ ∃ o, s'.log = o :: s.log ∧ o.byReadTask = false := by
  cases a with
  | read i => exact absurd rfl (ha i)
  | owner i =>
    simp only [step] at h
    cases i with
    | go =>
      simp only [ownerStep] at h
      unfold ownerGo at h
      obtain ⟨w₁, t₁, h₁⟩ := abortInitTimeout_eq s
      obtain ⟨w₂, t₂, h₂⟩ := abortReadyTimeout_eq s
      obtain ⟨w₃, t₃, h₃⟩ := abortPing_eq s
      split at h
      all_goals grind [→ awaitTask_cases, Obs.byReadTask]
    | _ => grind [ownerStep, Obs.byReadTask]
  | write i => grind [step, writeStep_some]
  | initWatch i => grind [step, initWatchStep_some]
  | readyWatch i => grind [step, readyWatchStep_some]
  | ping i => cases i <;> grind [step, pingStep, enqueue_ok, Obs.byReadTask]
  | emit k m => grind [step, emitStart, setEmitter]
  | emitter k => grind [step, emitterStep, setEmitter, ensure, enqueue_ok, Obs.byReadTask]
  | drop k => grind [step, emitDrop, setEmitter]

/-- Only the owner moves itself, polls the handles and aborts the stream tasks. -/
theorem step_not_owner {a : Action} (h : step cfg s a = some s') (ha : ∀ i, a ≠ .owner i) :
    s'.owner = s.owner ∧ s'.epilogue = s.epilogue ∧ s'.readHandle = s.readHandle ∧
      s'.writeHandle = s.writeHandle ∧ s'.readAborted = s.readAborted ∧
      s'.writeAborted = s.writeAborted := by
  cases a with
  | owner i => exact absurd rfl (ha i)
  | read i =>
    obtain ⟨h₁, -, -, -, h₂, h₃, h₄⟩ := readStep_frame h
    refine ⟨h₁, h₂, h₃, h₄, ?_⟩
    cases i with
    | go =>
      simp only [step, readStep] at h
      unfold readGo at h
      obtain ⟨w, t, hw⟩ := abortInitTimeout_eq s
      obtain ⟨w', t', hw'⟩ := abortReadyTimeout_eq s
      split at h
      all_goals grind [transition_cases, sendPacket_ok]
    | frame f => grind [step, readStep]
    | outcome o d => grind [step, readStep]
    | stop => grind [step, readStep]
  | write i =>
    obtain ⟨e, pc, -, rfl, -⟩ := writeStep_some h
    exact ⟨rfl, rfl, rfl, rfl, rfl, rfl⟩
  | initWatch i =>
    obtain ⟨e, pc, -, rfl, -⟩ := initWatchStep_some h
    exact ⟨rfl, rfl, rfl, rfl, rfl, rfl⟩
  | readyWatch i =>
    obtain ⟨e, pc, -, rfl, -⟩ := readyWatchStep_some h
    exact ⟨rfl, rfl, rfl, rfl, rfl, rfl⟩
  | ping i => cases i <;> grind [step, pingStep, enqueue_ok, closeAt]
  | emit k m => grind [step, emitStart, setEmitter]
  | emitter k => grind [step, emitterStep, setEmitter, ensure, enqueue_ok]
  | drop k => grind [step, emitDrop, setEmitter]

/-- A call of `emit_event_message` moves by its own steps only. -/
theorem step_emitter {a : Action} (h : step cfg s a = some s') (k : Nat) :
    s'.emitters k = s.emitters k ∨ (∃ m, a = .emit k m ∧ s'.emitters k = .check m) ∨
      a = .emitter k ∨ a = .drop k := by
  cases a with
  | owner i =>
    refine .inl (congrFun (?_ : s'.emitters = s.emitters) k)
    simp only [step] at h
    cases i with
    | go =>
      simp only [ownerStep] at h
      unfold ownerGo at h
      obtain ⟨w₁, t₁, h₁⟩ := abortInitTimeout_eq s
      obtain ⟨w₂, t₂, h₂⟩ := abortReadyTimeout_eq s
      obtain ⟨w₃, t₃, h₃⟩ := abortPing_eq s
      split at h
      all_goals grind [closeAt_emitters, → awaitTask_cases]
    | _ => grind [ownerStep]
  | read i => exact .inl (congrFun (readStep_frame h).2.2.1 k)
  | write i =>
    obtain ⟨e, pc, -, rfl, -⟩ := writeStep_some h
    exact .inl rfl
  | initWatch i =>
    obtain ⟨e, pc, -, rfl, -⟩ := initWatchStep_some h
    exact .inl rfl
  | readyWatch i =>
    obtain ⟨e, pc, -, rfl, -⟩ := readyWatchStep_some h
    exact .inl rfl
  | ping i =>
    refine .inl (congrFun (?_ : s'.emitters = s.emitters) k)
    cases i <;> grind [step, pingStep, enqueue_ok, closeAt_emitters]
  | emit j m =>
    simp only [step, emitStart] at h
    split at h <;> cases h <;> grind
  | emitter j =>
    rcases emitterStep_cases h with ⟨m, -, -, rfl⟩ | ⟨m, e, -, -, rfl⟩ | ⟨m, ch, -, -, rfl⟩ |
      ⟨m, e, -, -, rfl⟩ <;> grind
  | drop j =>
    simp only [step, emitDrop] at h
    split at h <;> cases h
    grind

end Session

end WsIo.Client
