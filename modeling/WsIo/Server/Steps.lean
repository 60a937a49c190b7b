import WsIo.Core.Wire
import WsIo.Server.Connection

/-!
# What a step of a connection can do

One lemma for each piece of the model, so that the invariants below never unfold a task
of another file: what `enqueue`, `close` and the compare-and-swaps do, which fields the
steps of one task leave alone, and the few ways in which a step changes the state, the
channel and the log.
-/

namespace WsIo.Server

open Async Core

@[simp] theorem isDown_iff (s : ConnectionState) :
    isDown s = true ↔ s = .closed ∨ s = .closing := by
  cases s <;> decide

/-- The entries of the log that the read task makes. -/
def Obs.byReadTask : Obs → Bool
  | .received _ | .dispatched _ _ | .bailed _ _ _ | .enqueued .ready => true
  | .invoked h _ | .returned h _ => h ≠ .initRequest && h ≠ .onClose
  | .registry (.insert _) => true
  | _ => false

namespace Connection

variable {cfg : NamespaceConfig} {c c' : Connection}

/-! ## Pieces -/

theorem enqueue_ok {m : Outgoing} (h : c.enqueue m = some (.ok c')) :
    ∃ ch, c.channel.trySend m = .ok ch ∧
      c' = { c with channel := ch, log := .enqueued m.origin :: c.log } := by
  unfold enqueue at h
  split at h
  · cases h
  · cases h
  · rename_i e he
    cases h
    obtain ⟨ch, hs, rfl⟩ := Endpoint.sendMessage_ok he
    exact ⟨ch, hs, rfl⟩

theorem sendPacket_ok {o : Origin} {p : WsIoPacket} (h : c.sendPacket cfg o p = some (.ok c')) :
    ∃ m ch, encodePacketToMessage cfg.codec p = .ok m ∧ c.channel.trySend ⟨o, m⟩ = .ok ch ∧
      c' = { c with channel := ch, log := .enqueued o :: c.log } := by
  unfold sendPacket at h
  split at h
  · cases h
  · rename_i m hm
    obtain ⟨ch, hs, he⟩ := enqueue_ok h
    exact ⟨m, ch, hm, hs, he⟩

theorem callers_enqueue {m : Outgoing} (h : c.enqueue m = some (.ok c')) (k : Nat) :
    c'.callers k = c.callers k := by
  obtain ⟨ch, -, rfl⟩ := enqueue_ok h
  rfl

theorem callers_sendPacket {o : Origin} {p : WsIoPacket}
    (h : c.sendPacket cfg o p = some (.ok c')) (k : Nat) : c'.callers k = c.callers k := by
  obtain ⟨m, ch, -, -, rfl⟩ := sendPacket_ok h
  rfl

@[grind =] theorem callers_closeAt (s : CloseStep) (k : Nat) :
    (c.closeAt s).1.callers k = c.callers k := rfl

theorem transition_cases (c : Connection) (expected new : ConnectionState) (pc : ReadPc) :
    (c.state = expected ∧ c.transition expected new pc = { c with state := new, read := pc }) ∨
      (c.state ≠ expected ∧ c.transition expected new pc = { c with read := .ended }) := by
  by_cases h : c.state = expected
  · exact .inl ⟨h, by simp [transition, tryTransition, h]⟩
  · exact .inr ⟨h, by simp [transition, tryTransition, h]⟩

theorem invoke_cases (c : Connection) (configured : Bool) (h : Handler) (data : Option Bytes)
    (skip : ReadPc) :
    (configured = true ∧ c.invoke configured h data skip =
        { c with read := .awaiting h, log := .invoked h data :: c.log }) ∨
      (configured = false ∧ c.invoke configured h data skip = { c with read := skip }) := by
  cases configured
  · exact .inr ⟨rfl, rfl⟩
  · exact .inl ⟨rfl, rfl⟩

/-- The accesses of `close`: a read, a store of `Closing`, a `try_send`. -/
theorem closeAt_cases (c : Connection) (s : CloseStep) :
    (s = .get ∧ (c.closeAt s).1 = c) ∨
      (s = .store ∧ (c.closeAt s).1 = { c with state := .closing }) ∨
      (s = .send ∧ (c.closeAt s).1 = { c with toEndpoint := c.toEndpoint.sendClose }) := by
  unfold closeAt
  rcases Endpoint.close_cases c.toEndpoint s with ⟨hs, h⟩ | ⟨hs, h⟩ | ⟨hs, h⟩
  · exact .inl ⟨hs, by rw [h]⟩
  · exact .inr (.inl ⟨hs, by rw [h]; rfl⟩)
  · exact .inr (.inr ⟨hs, by rw [h]⟩)

theorem closeAt_state (c : Connection) (s : CloseStep) :
    (c.closeAt s).1.state = c.state ∨ (c.closeAt s).1.state = .closing :=
  Endpoint.close_state c.toEndpoint s

@[simp, grind =] theorem closeAt_log (s : CloseStep) : (c.closeAt s).1.log = c.log := rfl

@[simp, grind =] theorem closeAt_read (s : CloseStep) : (c.closeAt s).1.read = c.read := rfl

@[simp, grind =] theorem closeAt_main (s : CloseStep) : (c.closeAt s).1.main = c.main := rfl

@[simp, grind =] theorem closeAt_callers (s : CloseStep) : (c.closeAt s).1.callers = c.callers := rfl

@[simp, grind =] theorem closeAt_write (s : CloseStep) : (c.closeAt s).1.write = c.write := rfl

@[grind =] theorem callers_setCaller (c : Connection) (k j : Nat) (x : Caller) :
    (c.setCaller k x).callers j = if j = k then x else c.callers j := Function.update_apply ..

/-- `abort_locked_task` touches the watchdog only. -/
theorem abortInitTimeout_eq (c : Connection) :
    ∃ w t, c.abortInitTimeout = { c with watchAborted := w, initTimeoutTask := t } := by
  unfold abortInitTimeout
  split
  · exact ⟨_, _, rfl⟩
  · exact ⟨c.watchAborted, c.initTimeoutTask, rfl⟩

theorem afterHandler_cases (g : Handler) (o : Outcome) :
    (if o = .ok then afterHandler g else .ended) = .activate ∨
      (if o = .ok then afterHandler g else .ended) = .ensureActivating ∨
      (if o = .ok then afterHandler g else .ended) = .readyTransition ∨
      (if o = .ok then afterHandler g else .ended) = .ended := by
  cases o <;> cases g <;> simp [afterHandler]

theorem afterRemove_cases (r : Registry) :
    afterRemove r = .remove .runtimeIds ∨ afterRemove r = .remove .connectionIds ∨
      afterRemove r = .snapshotRooms := by
  cases r <;> simp [afterRemove]

theorem afterInsert_cases (r : Registry) :
    afterInsert r = .insert .runtimeIds ∨ afterInsert r = .insert .connectionIds ∨
      afterInsert r = .sendReady := by
  cases r <;> simp [afterInsert]

theorem received_cases (f : Frame) : received f = [] ∨ ∃ m, received f = [.received m] := by
  unfold received
  split
  · exact .inr ⟨_, rfl⟩
  · exact .inl rfl

/-- Where a frame sends the read task. -/
theorem handleFrame_cases (cfg : NamespaceConfig) (f : Frame) :
    handleFrame cfg f = .ended ∨ handleFrame cfg f = .next ∨
      (∃ e d m, handleFrame cfg f = .eventCheck e d ∧ f = some (some m) ∧
        carries cfg.codec true .event m = true) ∨
      (∃ d m, handleFrame cfg f = .initGet d ∧ f = some (some m) ∧
        carries cfg.codec true .init m = true) := by
  unfold handleFrame
  split
  · simp
  · simp
  · simp
  · rename_i m hm
    unfold carries
    split
    · simp
    · rename_i bytes hb
      cases hd : cfg.codec.decode bytes with
      | error e => simp
      | ok p =>
        cases ht : p.type with
        | disconnect => simp [ht]
        | ready => simp [ht]
        | event => exact .inr (.inr (.inl ⟨p.key, p.data, m, by simp [ht], rfl, by simp [hb, hd, ht]⟩))
        | init => exact .inr (.inr (.inr ⟨p.data, m, by simp [ht], rfl, by simp [hb, hd, ht]⟩))

theorem writeStep_some {i : WriteInput} (h : c.writeStep i = some c') :
    ∃ e pc, c.toEndpoint.writeStep c.write c.writeAborted i = some (e, pc) ∧
      c' = { c with toEndpoint := e, write := pc } ∧ e.state = c.state := by
  unfold writeStep at h
  split at h
  · cases h
  · rename_i e pc he
    cases h
    exact ⟨e, pc, he, rfl, (Endpoint.writeStep_state he).1⟩

theorem watchStep_some {i : WatchInput} (h : c.watchStep i = some c') :
    ∃ e pc, c.toEndpoint.watchStep .awaitingInit c.watch c.watchAborted i = some (e, pc) ∧
      c' = { c with toEndpoint := e, watch := pc } ∧
      (e.state = c.state ∨ e.state = .closing) := by
  unfold watchStep at h
  split at h
  · cases h
  · rename_i e pc he
    cases h
    exact ⟨e, pc, he, rfl, Endpoint.watchStep_state he⟩

/-! ## The read task -/

/-- The read task leaves the other tasks alone. -/
theorem readStep_frame {i : ReadInput} (h : readStep cfg c i = some c') :
    c'.main = c.main ∧ c'.write = c.write ∧ c'.watch = c.watch ∧ c'.callers = c.callers ∧
      c'.closeReturned = c.closeReturned ∧ c'.readAborted = c.readAborted := by
  cases i with
  | go =>
    simp only [readStep] at h
    unfold readGo at h
    obtain ⟨w, t, hw⟩ := abortInitTimeout_eq c
    split at h
    all_goals grind [transition_cases, invoke_cases, ensure, sendPacket_ok]
  | frame f => grind [readStep, received]
  | outcome o => grind [readStep]
  | stop => grind [readStep]

/-- The read task changes the state by its three compare-and-swaps only. -/
theorem readStep_state {i : ReadInput} (h : readStep cfg c i = some c') :
    c'.state = c.state ∨
      (∃ d, c.read = .initTransition d ∧ c'.read = .abortInitTimeout d ∧
        c.state = .awaitingInit ∧ c'.state = .initiating) ∨
      (c.read = .activate ∧ c'.read = .middleware ∧
        c.state = .initiating ∧ c'.state = .activating) ∨
      (c.read = .readyTransition ∧ c'.read = .insert .connections ∧
        c.state = .activating ∧ c'.state = .ready) := by
  cases i with
  | go =>
    simp only [readStep] at h
    unfold readGo at h
    obtain ⟨w, t, hw⟩ := abortInitTimeout_eq c
    split at h
    all_goals grind [transition_cases, invoke_cases, ensure, sendPacket_ok]
  | frame f => grind [readStep, received]
  | outcome o => grind [readStep]
  | stop => grind [readStep]

/-- The read task enqueues the ready packet only. -/
theorem readStep_channel {i : ReadInput} (h : readStep cfg c i = some c') :
    c'.channel = c.channel ∨
      (c.read = .sendReady ∧ c'.read = .spawnOnReady ∧ c'.log = .enqueued .ready :: c.log ∧
        ∃ m, encodePacketToMessage cfg.codec .newReady = .ok m ∧
          c.channel.trySend ⟨.ready, m⟩ = .ok c'.channel) := by
  cases i with
  | go =>
    simp only [readStep] at h
    unfold readGo at h
    obtain ⟨w, t, hw⟩ := abortInitTimeout_eq c
    split at h
    all_goals grind [transition_cases, invoke_cases, ensure, sendPacket_ok]
  | frame f => grind [readStep, received]
  | outcome o => grind [readStep]
  | stop => grind [readStep]

/-! ## The main task -/

/-- The main task leaves the callers alone. -/
theorem mainStep_callers {i : MainInput} (h : mainStep cfg c i = some c') :
    c'.callers = c.callers := by
  cases i with
  | go =>
    simp only [mainStep] at h
    unfold mainGo at h
    obtain ⟨w, t, hw⟩ := abortInitTimeout_eq c
    split at h
    all_goals grind [tryTransition, ensure, sendPacket_ok]
  | _ => grind [mainStep]

/-! ## The message channel -/

theorem closeAt_extends (c : Connection) (s : CloseStep) :
    c.Extends (c.closeAt s).1.toEndpoint := Endpoint.Extends.close c.toEndpoint s

/-- A step is the `try_send` of a `close` call, or it leaves the returned `close` calls
as they were. -/
theorem step_close {a : Action} (h : step cfg c a = some c') :
    (closeSends c a = true ∧ c'.toEndpoint = c.toEndpoint.sendClose) ∨
      (closeSends c a = false ∧ c'.closeReturned = c.closeReturned) := by
  cases a with
  | main i =>
    simp only [step] at h
    cases i with
    | go =>
      simp only [mainStep] at h
      unfold mainGo at h
      obtain ⟨w, t, hw⟩ := abortInitTimeout_eq c
      split at h
      all_goals grind [tryTransition, ensure, sendPacket_ok, closeAt_cases, closeSends]
    | _ => grind [mainStep, closeSends]
  | read i =>
    obtain ⟨-, -, -, -, hr, -⟩ := readStep_frame h
    exact .inr ⟨rfl, hr⟩
  | write i =>
    obtain ⟨e, pc, he, rfl, -⟩ := writeStep_some h
    exact .inr ⟨rfl, (Endpoint.writeStep_state he).2.2⟩
  | watch i =>
    obtain ⟨e, pc, he, rfl, -⟩ := watchStep_some h
    grind [Endpoint.watchStep_cases, Endpoint.close_cases, closeSends]
  | start k job => grind [step, setCaller, closeSends]
  | caller k =>
    simp only [step] at h
    unfold callerStep at h
    split at h
    all_goals grind [ensure, sendPacket_ok, enqueue_ok, closeAt_cases, setCaller, closeSends]
  | drop k => grind [step, setCaller, closeSends]

/-- No step takes a message back or revives the receiver. -/
theorem step_extends {a : Action} (h : step cfg c a = some c') : c.Extends c'.toEndpoint := by
  cases a with
  | main i =>
    simp only [step] at h
    cases i with
    | go =>
      simp only [mainStep] at h
      unfold mainGo at h
      obtain ⟨w, t, hw⟩ := abortInitTimeout_eq c
      split at h
      all_goals grind [tryTransition, ensure, sendPacket_ok, closeAt_extends,
        Endpoint.Extends.of_channel, Endpoint.Extends.of_trySend]
    | _ => grind [mainStep, Endpoint.Extends.of_channel]
  | read i =>
    rcases readStep_channel h with hc | ⟨-, -, -, m, -, hc⟩
    · exact .of_channel hc
    · exact .of_trySend hc
  | write i =>
    obtain ⟨e, pc, he, rfl, -⟩ := writeStep_some h
    exact .writeStep he
  | watch i =>
    obtain ⟨e, pc, he, rfl, -⟩ := watchStep_some h
    exact .watchStep he
  | start k job => grind [step, setCaller, Endpoint.Extends.of_channel]
  | caller k =>
    simp only [step] at h
    unfold callerStep at h
    split at h
    all_goals grind [ensure, sendPacket_ok, enqueue_ok, closeAt_extends, setCaller,
      Endpoint.Extends.of_channel, Endpoint.Extends.of_trySend]
  | drop k => grind [step, setCaller, Endpoint.Extends.of_channel]

theorem closeAt_closed (c : Connection) (s : CloseStep) :
    (c.closeAt s).1.channel.closed = c.channel.closed := Endpoint.close_closed c.toEndpoint s

theorem closeAt_received (c : Connection) (s : CloseStep) :
    (c.closeAt s).1.channel.received = c.channel.received := Endpoint.close_received c.toEndpoint s

/-- The write task and the receiver change together, in the write task's own steps. -/
theorem step_write {a : Action} (h : step cfg c a = some c') :
    (c'.write = c.write ∧ c'.channel.closed = c.channel.closed ∧
        c'.channel.received = c.channel.received) ∨
      (c.main = .spawnWrite ∧ c'.main = .initEnsure ∧ c'.write = .recv ∧ c'.channel = c.channel) ∨
      (∃ i e pc, a = .write i ∧ c.toEndpoint.writeStep c.write c.writeAborted i = some (e, pc) ∧
        c' = { c with toEndpoint := e, write := pc }) := by
  cases a with
  | main i =>
    simp only [step] at h
    cases i with
    | go =>
      simp only [mainStep] at h
      unfold mainGo at h
      obtain ⟨w, t, hw⟩ := abortInitTimeout_eq c
      split at h
      all_goals grind [tryTransition, ensure, sendPacket_ok, closeAt_closed, closeAt_received]
    | _ => grind [mainStep]
  | read i =>
    obtain ⟨-, hw, -⟩ := readStep_frame h
    rcases readStep_channel h with hc | ⟨-, -, -, m, -, hc⟩
    · exact .inl ⟨hw, by rw [hc], by rw [hc]⟩
    · exact .inl ⟨hw, Channel.closed_trySend hc, Channel.received_trySend hc⟩
  | write i =>
    obtain ⟨e, pc, he, rfl, -⟩ := writeStep_some h
    exact .inr (.inr ⟨i, e, pc, rfl, he, rfl⟩)
  | watch i =>
    obtain ⟨e, pc, he, rfl, -⟩ := watchStep_some h
    exact .inl ⟨rfl, Endpoint.watchStep_closed he, Endpoint.watchStep_received he⟩
  | start k job => grind [step, setCaller]
  | caller k =>
    simp only [step] at h
    unfold callerStep at h
    split at h
    all_goals grind [ensure, sendPacket_ok, enqueue_ok, closeAt_closed, closeAt_received,
      setCaller]
  | drop k => grind [step, setCaller]

/-! ## The other tasks -/

/-- A call on the connection leaves its tasks alone, and can only close it. -/
theorem callerStep_frame {k : Nat} (h : callerStep cfg c k = some c') :
    c'.main = c.main ∧ c'.read = c.read ∧ (c'.state = c.state ∨ c'.state = .closing) ∧
      (c'.log = c.log ∨
        ∃ o, c'.log = .enqueued o :: c.log ∧ (o = .event ∨ o = .disconnect)) := by
  unfold callerStep at h
  split at h
  all_goals grind [ensure, sendPacket_ok, enqueue_ok, closeAt_state, setCaller]

/-- A step outside the main and the read task leaves both alone, and can only close the
connection. -/
theorem step_frame {a : Action} (h : step cfg c a = some c') (hm : ∀ i, a ≠ .main i)
    (hr : ∀ i, a ≠ .read i) :
    c'.main = c.main ∧ c'.read = c.read ∧ (c'.state = c.state ∨ c'.state = .closing) ∧
      (c'.log = c.log ∨
        ∃ o, c'.log = .enqueued o :: c.log ∧ (o = .event ∨ o = .disconnect)) := by
  cases a with
  | main i => exact absurd rfl (hm i)
  | read i => exact absurd rfl (hr i)
  | write i =>
    obtain ⟨e, pc, -, rfl, hs⟩ := writeStep_some h
    exact ⟨rfl, rfl, .inl hs, .inl rfl⟩
  | watch i =>
    obtain ⟨e, pc, -, rfl, hs⟩ := watchStep_some h
    exact ⟨rfl, rfl, hs, .inl rfl⟩
  | start k job => grind [step, setCaller]
  | caller k => exact callerStep_frame h
  | drop k => grind [step, setCaller]

/-- A call is moved by its own steps only. -/
theorem step_callers {a : Action} (h : step cfg c a = some c') {k : Nat} (hk : a ≠ .caller k)
    (hs : ∀ job, a ≠ .start k job) (hd : a ≠ .drop k) : c'.callers k = c.callers k := by
  cases a with
  | main i => rw [mainStep_callers h]
  | read i =>
    obtain ⟨-, -, -, hcallers, -⟩ := readStep_frame h
    rw [hcallers]
  | write i =>
    obtain ⟨e, pc, -, rfl, -⟩ := writeStep_some h
    rfl
  | watch i =>
    obtain ⟨e, pc, -, rfl, -⟩ := watchStep_some h
    rfl
  | start j job => grind [step]
  | caller j =>
    simp only [step] at h
    unfold callerStep at h
    split at h
    all_goals grind [ensure, callers_sendPacket, callers_enqueue]
  | drop j => grind [step]

/-- A call that was not made does nothing. -/
theorem step_idle {a : Action} (h : step cfg c a = some c') {k : Nat} (hk : c.callers k = .idle)
    (hs : ∀ job, a ≠ .start k job) : c'.callers k = .idle := by
  rw [← hk]
  refine step_callers h ?_ hs ?_
  · rintro rfl
    simp [step, callerStep, hk] at h
  · rintro rfl
    simp [step, callerAwaits, hk] at h

/-- Only the main task moves its program counter. -/
theorem step_main {a : Action} (h : step cfg c a = some c') (ha : ∀ i, a ≠ .main i) :
    c'.main = c.main := by
  by_cases hr : ∃ i, a = .read i
  · obtain ⟨i, rfl⟩ := hr
    exact (readStep_frame h).1
  · push Not at hr
    exact (step_frame h ha hr).1

/-- The main task spawns the read task, and leaves the state alone, closes the connection
or moves it from `Created` to `AwaitingInit`. -/
theorem mainStep_outside {i : MainInput} (h : mainStep cfg c i = some c') :
    (c'.read = c.read ∨ c.main = .spawnRead ∧ c'.read = .next) ∧
      (c'.state = c.state ∨ isDown c'.state = true ∨
        (∃ d, c.main = .initTransition d ∧ c'.main = .spawnWatch d ∧ c.state = .created ∧
          c'.state = .awaitingInit)) := by
  cases i with
  | go =>
    simp only [mainStep] at h
    unfold mainGo at h
    obtain ⟨w, t, hw⟩ := abortInitTimeout_eq c
    split at h
    all_goals grind [tryTransition, ensure, sendPacket_ok, closeAt_state, isDown_iff]
  | _ => grind [mainStep]

/-- What a step outside the read task shows to the handshake: the read task is where it
was (or is spawned), the state is left alone, closed, or moved from `Created` to
`AwaitingInit` by `init`. -/
theorem step_outside {a : Action} (h : step cfg c a = some c') (ha : ∀ i, a ≠ .read i) :
    (c'.read = c.read ∨ c.main = .spawnRead ∧ c'.read = .next) ∧
      (c'.state = c.state ∨ isDown c'.state = true ∨
        (∃ d, c.main = .initTransition d ∧ c'.main = .spawnWatch d ∧ c.state = .created ∧
          c'.state = .awaitingInit)) := by
  by_cases hm : ∃ i, a = .main i
  · obtain ⟨i, rfl⟩ := hm
    exact mainStep_outside h
  · push Not at hm
    obtain ⟨-, hr, hs, -⟩ := step_frame h hm ha
    refine ⟨.inl hr, hs.imp_right fun hs => .inl ?_⟩
    rw [hs]
    rfl

theorem mainStep_log {i : MainInput} (h : mainStep cfg c i = some c') :
    c'.log = c.log ∨ ∃ o, c'.log = o :: c.log ∧ o.byReadTask = false := by
  cases i with
  | go =>
    simp only [mainStep] at h
    unfold mainGo at h
    obtain ⟨w, t, hw⟩ := abortInitTimeout_eq c
    split at h
    all_goals grind [tryTransition, ensure, sendPacket_ok, Obs.byReadTask]
  | _ => grind [mainStep, Obs.byReadTask]

/-- What the other tasks note in the log. -/
theorem step_outside_log {a : Action} (h : step cfg c a = some c') (ha : ∀ i, a ≠ .read i) :
    c'.log = c.log ∨ ∃ o, c'.log = o :: c.log ∧ o.byReadTask = false := by
  by_cases hm : ∃ i, a = .main i
  · obtain ⟨i, rfl⟩ := hm
    exact mainStep_log h
  · push Not at hm
    obtain ⟨-, -, -, hl⟩ := step_frame h hm ha
    refine hl.imp_right fun ⟨o, hl, ho⟩ => ⟨_, hl, ?_⟩
    rcases ho with rfl | rfl <;> rfl

/-- The main task spawns the read task after the status checks. -/
theorem mainStep_unread {i : MainInput} (h : mainStep cfg c i = some c')
    (hc : c'.main.created = false ∨ c'.main = .spawnRead) :
    c.main.created = false ∧ c'.read = c.read := by
  cases i with
  | go =>
    simp only [mainStep] at h
    unfold mainGo at h
    split at h
    all_goals grind [tryTransition, ensure, sendPacket_ok, MainPc.created, afterRemove_cases]
  | _ => grind [mainStep, MainPc.created]

/-- The read task does nothing before it is spawned. -/
theorem step_unread {a : Action} (h : step cfg c a = some c')
    (hu : c.main.created = false ∨ c.main = .spawnRead → c.read = .absent) :
    c'.main.created = false ∨ c'.main = .spawnRead → c'.read = .absent := by
  intro hc
  by_cases hm : ∃ i, a = .main i
  · obtain ⟨i, rfl⟩ := hm
    obtain ⟨hc, hr⟩ := mainStep_unread h hc
    rw [hr]
    exact hu (.inl hc)
  · push Not at hm
    rw [step_main h hm] at hc
    have habsent := hu hc
    by_cases hr : ∃ i, a = .read i
    · obtain ⟨i, rfl⟩ := hr
      cases i with
      | go => simp [step, readStep, readGo, habsent] at h
      | _ => simp [step, readStep, habsent, ReadPc.awaits] at h
    · push Not at hr
      rw [(step_frame h hm hr).2.1]
      exact habsent

/-- A closing connection stays so. -/
theorem step_isDown {a : Action} (h : step cfg c a = some c') (hd : isDown c.state = true) :
    isDown c'.state = true := by
  by_cases ha : ∃ i, a = .read i
  · obtain ⟨i, rfl⟩ := ha
    rcases readStep_state h with hs | ⟨d, -, -, hs, -⟩ | ⟨-, -, hs, -⟩ | ⟨-, -, hs, -⟩
    · rw [hs]
      exact hd
    all_goals rw [hs] at hd; cases hd
  · push Not at ha
    rcases (step_outside h ha).2 with hs | hs | ⟨d, -, -, hs, -⟩
    · rw [hs]
      exact hd
    · exact hs
    · rw [hs] at hd
      cases hd

end Connection

end WsIo.Server
