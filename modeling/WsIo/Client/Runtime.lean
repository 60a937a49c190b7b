import WsIo.Client.Session

/-!
# The client runtime

`wsio-client/src/runtime.rs`: the status, the operate lock, the cancel token, the slots of
the two tasks, the buffer of event messages and the session slot, with

* any number of calls of `connect` and `disconnect`, made by users, by handlers or by the
  Disconnect packets of the sessions;
* the connection loop of every `connect`, which runs one session after the other; the part
  of `run_connection` after the creation of the session is the owner of `Session`;
* the send task of every `connect`;
* any number of calls of `emit`.

A connect-to-disconnect period is named by the number of the `connect` that began it. This
number also names the loop and the send task that `connect` spawns and the cancel token it
stores. `Member.period`, `Member.notified`, `Buffered.period`, `Runtime.period`,
`Runtime.accepted` and `Runtime.handed` record what the statements are about; no step of
the program reads them.
-/

namespace WsIo.Client

open Async Core

inductive RuntimeStatus
  | running
  | stopped
  | stopping
  deriving DecidableEq, Repr

/-- The `Debug` text of a status. -/
def RuntimeStatus.debug : RuntimeStatus → String
  | .running => "Running"
  | .stopped => "Stopped"
  | .stopping => "Stopping"

/-- An event message on its way to a session, with the period in which its `emit` passed
the status check. -/
structure Buffered where
  message : Message
  period : Nat
  deriving DecidableEq, Repr

/-! ## Program counters -/

/-- Where `connect` stands. Both tasks are spawned before the lock of their slot is
awaited; `storeLoop` and `storeSender` hold the handle meanwhile. -/
inductive ConnectPc
  | lock
  | get
  | storeRunning
  | storeToken
  | spawnLoop
  | storeLoop (handle : Nat)
  | spawnSender
  | storeSender (handle : Nat)
  deriving DecidableEq, Repr

inductive DisconnectPc
  | lock
  | get
  | storeStopping
  | abortSender
  | cancel
  | lockRx
  | drain
  | takeLoop
  | awaitLoop (handle : Nat)
  | storeStopped
  deriving DecidableEq, Repr

/-- A call of `connect` or `disconnect`; a `disconnect` that a Disconnect packet spawned
carries the session that received the packet. -/
inductive Call
  | idle
  | connect (pc : ConnectPc)
  | disconnect (packet : Option Nat) (pc : DisconnectPc)
  | done
  | dropped
  | panicked
  deriving DecidableEq, Repr

inductive LoopPc
  | absent
  | check
  | connecting
  | session (i : Nat)
  | checkAgain
  | loadToken
  | sleeping (token : Nat)
  | ended
  deriving DecidableEq, Repr

/-- Where the send task stands. `armed` is the `Notified` future of the second attempt, by
the number of `notify_waiters` calls before it was created. -/
inductive SenderPc
  | absent
  | lockRx
  | recv
  | load (m : Buffered) (armed : Option Nat)
  | attempt (m : Buffered) (armed : Option Nat) (i : Nat)
  | arm (m : Buffered)
  | wait (m : Buffered) (armed : Nat)
  | ended
  deriving DecidableEq, Repr

/-- The send task holds the lock of `send_event_message_rx`. -/
def SenderPc.holdsRx : SenderPc → Bool
  | .absent | .lockRx | .ended => false
  | _ => true

structure Sender where
  pc : SenderPc
  aborted : Bool
  deriving DecidableEq, Repr

/-- A call of `emit`. -/
inductive Emit
  | idle
  | check (event : String) (data : Option Bytes)
  | encode (event : String) (data : Option Bytes) (period : Nat)
  | send (m : Buffered)
  | done (result : Except Error Unit)
  | dropped

/-- A session with the loop that runs it and the cancel token its `select!` waits on. -/
structure Member where
  session : Session
  loop : Nat
  token : Option Nat
  period : Nat
  notified : Bool

/-- Who holds the lock of `send_event_message_rx`. -/
inductive RxHolder
  | sender (p : Nat)
  | call (k : Nat)
  deriving DecidableEq, Repr

/-- The client: `WsIoClientRuntime` with its tasks, its sessions and the calls on it.
`notifications` counts the calls of `notify_waiters`. -/
structure Runtime where
  status : RuntimeStatus
  cancelToken : Nat
  cancelled : Nat → Bool
  operateLock : Option Nat
  connectionLoopTask : Option Nat
  sendEventMessageTask : Option Nat
  rxLock : Option RxHolder
  buffer : Channel Buffered
  session : Option Nat
  notifications : Nat
  sessions : Nat → Option Member
  loops : Nat → LoopPc
  senders : Nat → Sender
  calls : Nat → Call
  emits : Nat → Emit
  period : Nat
  accepted : List Buffered
  handed : List (Nat × Buffered)

/-! ## Actions -/

inductive Request
  | connect
  | disconnect
  deriving DecidableEq, Repr

/-- `panicked`: the request modifier panics. -/
inductive LoopInput
  | go
  | connected (i : Nat)
  | failed
  | panicked
  | elapsed
  | cancelled
  deriving DecidableEq, Repr

/-- `unencodable`: `encode_data` fails. -/
inductive EmitInput
  | go
  | unencodable
  deriving DecidableEq, Repr

/-- `session i a k` is a step of session `i`; `k` names the call that a Disconnect packet
spawns in it. -/
inductive ClientAction
  | start (k : Nat) (r : Request)
  | call (k : Nat)
  | drop (k : Nat)
  | loop (p : Nat) (x : LoopInput)
  | session (i : Nat) (a : Action) (k : Nat)
  | sender (p : Nat)
  | stopSender (p : Nat)
  | emit (k : Nat) (event : String) (data : Option Bytes)
  | emitStep (k : Nat) (x : EmitInput)
  | emitDrop (k : Nat)
  | cancel (token : Nat)
  deriving DecidableEq, Repr

namespace Runtime

/-- `WsIoClientRuntime::new`. -/
def initial (cfg : ClientConfig) : Runtime where
  status := .stopped
  cancelToken := 0
  cancelled := fun _ => false
  operateLock := none
  connectionLoopTask := none
  sendEventMessageTask := none
  rxLock := none
  buffer := Channel.new cfg.channelCapacity
  session := none
  notifications := 0
  sessions := fun _ => none
  loops := fun _ => .absent
  senders := fun _ => ⟨.absent, false⟩
  calls := fun _ => .idle
  emits := fun _ => .idle
  period := 0
  accepted := []
  handed := []

def setCall (s : Runtime) (k : Nat) (c : Call) : Runtime :=
  { s with calls := Function.update s.calls k c }

def setLoop (s : Runtime) (p : Nat) (pc : LoopPc) : Runtime :=
  { s with loops := Function.update s.loops p pc }

def setSender (s : Runtime) (p : Nat) (pc : SenderPc) : Runtime :=
  { s with senders := Function.update s.senders p ⟨pc, (s.senders p).aborted⟩ }

def spawnSender (s : Runtime) (p : Nat) : Runtime :=
  { s with senders := Function.update s.senders p ⟨.lockRx, false⟩ }

def abortSender (s : Runtime) (p : Nat) : Runtime :=
  { s with senders := Function.update s.senders p ⟨(s.senders p).pc, true⟩ }

def setMember (s : Runtime) (i : Nat) (m : Member) : Runtime :=
  { s with sessions := Function.update s.sessions i (some m) }

def setEmit (s : Runtime) (k : Nat) (e : Emit) : Runtime :=
  { s with emits := Function.update s.emits k e }

/-! ## Calls -/

/-- The call returns, and its guard of `operate_lock` is dropped. -/
def finishCall (s : Runtime) (k : Nat) (c : Call) : Runtime :=
  { s with operateLock := none }.setCall k c

def connectStep (s : Runtime) (k : Nat) : ConnectPc → Option Runtime
  | .lock =>
    if s.operateLock = none then
      some ({ s with operateLock := some k }.setCall k (.connect .get))
    else none
  | .get =>
    match s.status with
    | .running => some (s.finishCall k .done)
    | .stopped => some (s.setCall k (.connect .storeRunning))
    | .stopping => some (s.finishCall k .panicked)
  | .storeRunning =>
    some ({ s with
      status := .running
      period := s.period + 1
      accepted := s.buffer.queue
      handed := [] }.setCall k (.connect .storeToken))
  | .storeToken => some ({ s with cancelToken := s.period }.setCall k (.connect .spawnLoop))
  | .spawnLoop => some ((s.setLoop s.period .check).setCall k (.connect (.storeLoop s.period)))
  | .storeLoop handle =>
    some ({ s with connectionLoopTask := some handle }.setCall k (.connect .spawnSender))
  | .spawnSender =>
    some ((s.spawnSender s.period).setCall k (.connect (.storeSender s.period)))
  | .storeSender handle => some ({ s with sendEventMessageTask := some handle }.finishCall k .done)

def disconnectStep (s : Runtime) (k : Nat) (packet : Option Nat) : DisconnectPc → Option Runtime
  | .lock =>
    if s.operateLock = none then
      some ({ s with operateLock := some k }.setCall k (.disconnect packet .get))
    else none
  | .get =>
    match s.status with
    | .stopped => some (s.finishCall k .done)
    | .running => some (s.setCall k (.disconnect packet .storeStopping))
    | .stopping => some (s.finishCall k .panicked)
  | .storeStopping =>
    some ({ s with status := .stopping }.setCall k (.disconnect packet .abortSender))
  | .abortSender =>
    match s.sendEventMessageTask with
    | none => some (s.setCall k (.disconnect packet .cancel))
    | some p => some (({ s with sendEventMessageTask := none }.abortSender p).setCall k
        (.disconnect packet .cancel))
  | .cancel =>
    some ({ s with cancelled := Function.update s.cancelled s.cancelToken true }.setCall k
      (.disconnect packet .lockRx))
  | .lockRx =>
    if s.rxLock = none then
      some ({ s with rxLock := some (.call k) }.setCall k (.disconnect packet .drain))
    else none
  | .drain =>
    match s.buffer.recv with
    | some (_, buffer) => some { s with buffer }
    | none => some (s.setCall k (.disconnect packet .takeLoop))
  | .takeLoop =>
    match s.connectionLoopTask with
    | none => some (s.setCall k (.disconnect packet .storeStopped))
    | some p =>
      some ({ s with connectionLoopTask := none }.setCall k (.disconnect packet (.awaitLoop p)))
  | .awaitLoop p =>
    if s.loops p = .ended then some (s.setCall k (.disconnect packet .storeStopped)) else none
  | .storeStopped => some ({ s with status := .stopped, rxLock := none }.finishCall k .done)

def callStep (s : Runtime) (k : Nat) : Option Runtime :=
  match s.calls k with
  | .connect pc => connectStep s k pc
  | .disconnect packet pc => disconnectStep s k packet pc
  | .idle | .done | .dropped | .panicked => none

/-- The call holds `operate_lock`. -/
def inside : Call → Bool
  | .connect .lock | .disconnect _ .lock => false
  | .connect _ | .disconnect _ _ => true
  | _ => false

/-- The call has stored `Stopping` and has not yet stored `Stopped`. -/
def stopping : Call → Bool
  | .disconnect _ .lock | .disconnect _ .get | .disconnect _ .storeStopping => false
  | .disconnect _ _ => true
  | _ => false

/-- The call holds the lock of `send_event_message_rx`. -/
def holdsRx : Call → Bool
  | .disconnect _ .drain | .disconnect _ .takeLoop | .disconnect _ (.awaitLoop _)
  | .disconnect _ .storeStopped => true
  | _ => false

/-- The points where the future of a call can be dropped. The task that a Disconnect
packet spawns is never aborted. -/
def awaits : Call → Bool
  | .connect .lock | .connect (.storeLoop _) | .connect (.storeSender _) => true
  | .disconnect none .lock | .disconnect none .abortSender | .disconnect none .lockRx
  | .disconnect none .takeLoop | .disconnect none (.awaitLoop _) => true
  | _ => false

/-- The future of a call is dropped, with the guards it holds. -/
def dropCall (s : Runtime) (k : Nat) : Runtime :=
  { s with
    operateLock := if inside (s.calls k) then none else s.operateLock
    rxLock := if holdsRx (s.calls k) then none else s.rxLock }.setCall k .dropped

def entry : Request → Call
  | .connect => .connect .lock
  | .disconnect => .disconnect none .lock

/-! ## The connection loop -/

/-- `WsIoClientSession::new` in the loop of period `p`. -/
def newMember (cfg : ClientConfig) (s : Runtime) (p : Nat) : Member where
  session := Session.initial cfg
  loop := p
  token := none
  period := s.period
  notified := false

def loopStep (cfg : ClientConfig) (s : Runtime) (p : Nat) : LoopInput → Option Runtime
  | .go =>
    match s.loops p with
    | .check => some (s.setLoop p (if s.status = .running then .connecting else .ended))
    | .checkAgain => some (s.setLoop p (if s.status = .running then .loadToken else .check))
    | .loadToken => some (s.setLoop p (.sleeping s.cancelToken))
    | _ => none
  -- the request and the stream are there
  | .connected i =>
    if s.loops p = .connecting ∧ s.sessions i = none then
      some ((s.setMember i (newMember cfg s p)).setLoop p (.session i))
    else none
  | .failed => if s.loops p = .connecting then some (s.setLoop p .checkAgain) else none
  | .panicked => if s.loops p = .connecting then some (s.setLoop p .ended) else none
  | .elapsed =>
    match s.loops p with
    | .sleeping _ => some (s.setLoop p .check)
    | _ => none
  | .cancelled =>
    match s.loops p with
    | .sleeping token => if s.cancelled token then some (s.setLoop p .check) else none
    | _ => none

/-! ## Sessions -/

/-- A step of session `i` alone. -/
def sessionStep (cfg : ClientConfig) (s : Runtime) (i : Nat) (a : Action) : Option Runtime :=
  match s.sessions i with
  | none => none
  | some m =>
    match Session.step cfg m.session a with
    | none => none
    | some c => some (s.setMember i { m with session := c })

/-- What the runtime decides about a step of a session: the cancel branch needs a
cancelled token, and messages come from the send tasks. -/
def permits (s : Runtime) (m : Member) (k : Nat) (a : Action) : Bool :=
  match a with
  | .owner .cancelled =>
    match m.token with
    | some token => s.cancelled token
    | none => false
  | .emit _ _ | .emitter _ | .drop _ => false
  | _ => Session.effect m.session a ≠ some .disconnect || s.calls k = .idle

/-- The access of a step of session `i` to the runtime. -/
def access (s : Runtime) (i k : Nat) (m : Member) : Option RuntimeOp → Runtime
  | none => s
  | some .publish => { s with session := some i }
  | some .clear => { s with session := none }
  | some .notify =>
    { s with notifications := s.notifications + 1 }.setMember i { m with notified := true }
  -- handle_disconnect_packet
  | some .disconnect => s.setCall k (.disconnect (some i) .lock)

/-- The owner read the runtime's cancel token, or `run_connection` is over. -/
def afterOwner (s : Runtime) (i : Nat) (before : OwnerPc) (m : Member) : Runtime :=
  if before = .loadToken then s.setMember i { m with token := some s.cancelToken }
  else if m.session.owner = .finished then s.setLoop m.loop .checkAgain
  else if m.session.owner = .panicked then s.setLoop m.loop .ended
  else s

def isOwner : Action → Bool
  | .owner _ => true
  | _ => false

def memberStep (cfg : ClientConfig) (s : Runtime) (i : Nat) (a : Action) (k : Nat) :
    Option Runtime :=
  match s.sessions i with
  | none => none
  | some m =>
    if permits s m k a then
      match Session.step cfg m.session a with
      | none => none
      | some c =>
        let m' : Member := { m with session := c }
        let s' := (s.setMember i m').access i k m' (Session.effect m.session a)
        some (if isOwner a then s'.afterOwner i m.session.owner m' else s')
    else none

/-! ## The send task -/

/-- An attempt has failed: the first is repeated with a `Notified` at hand, the second
waits for it. -/
def missed (m : Buffered) : Option Nat → SenderPc
  | none => .arm m
  | some armed => .wait m armed

/-- The attempt on session `i` has moved on. -/
def afterAttempt (s : Runtime) (p : Nat) (m : Buffered) (armed : Option Nat) (i : Nat) : Runtime :=
  match s.sessions i with
  | none => s
  | some x =>
    match x.session.emitters p with
    | .done (.ok _) => { s with handed := s.handed ++ [(i, m)] }.setSender p .recv
    | .done (.error _) => s.setSender p (missed m armed)
    | _ => s

def senderStep (cfg : ClientConfig) (s : Runtime) (p : Nat) : Option Runtime :=
  match (s.senders p).pc with
  | .lockRx =>
    if s.rxLock = none then some ({ s with rxLock := some (.sender p) }.setSender p .recv) else none
  | .recv =>
    match s.buffer.recv with
    | none => none
    | some (m, buffer) => some ({ s with buffer }.setSender p (.load m none))
  | .load m armed =>
    match s.session with
    | none => some (s.setSender p (missed m armed))
    | some i =>
      (sessionStep cfg s i (.emit p m.message)).map (·.setSender p (.attempt m armed i))
  | .attempt m armed i =>
    (sessionStep cfg s i (.emitter p)).map (·.afterAttempt p m armed i)
  | .arm m => some (s.setSender p (.load m (some s.notifications)))
  | .wait m armed =>
    if armed = s.notifications then none else some (s.setSender p (.load m none))
  | .absent | .ended => none

/-- The task is gone, with its guard. -/
def endSender (s : Runtime) (p : Nat) : Runtime :=
  { s with
    rxLock := if (s.senders p).pc.holdsRx then none else s.rxLock }.setSender p .ended

/-- The abort of a send task takes effect where it waits. -/
def stopSender (cfg : ClientConfig) (s : Runtime) (p : Nat) : Option Runtime :=
  if (s.senders p).aborted then
    match (s.senders p).pc with
    | .lockRx | .recv | .wait _ _ => some (s.endSender p)
    | .attempt _ _ i => (sessionStep cfg s i (.drop p)).map (·.endSender p)
    | _ => none
  else none

/-! ## emit -/

def emitStep (cfg : ClientConfig) (s : Runtime) (k : Nat) (x : EmitInput) : Option Runtime :=
  match s.emits k, x with
  | .check event data, .go =>
    match ensure s.status .running
        fun status => "Cannot emit in invalid status: " ++ status.debug with
    | .error e => some (s.setEmit k (.done (.error e)))
    | .ok _ => some (s.setEmit k (.encode event data s.period))
  | .encode _ _ _, .unencodable => some (s.setEmit k (.done (.error .codec)))
  | .encode event data period, .go =>
    match encodePacketToMessage cfg.codec (.newEvent event data) with
    | .error e => some (s.setEmit k (.done (.error e)))
    | .ok m => some (s.setEmit k (.send ⟨m, period⟩))
  | .send m, .go =>
    match s.buffer.trySend m with
    | .ok buffer =>
      some ({ s with buffer, accepted := s.accepted ++ [m] }.setEmit k (.done (.ok ())))
    | .error .closed => some (s.setEmit k (.done (.error .closed)))
    | .error .full => none
  | _, _ => none

/-! ## The whole client -/

def step (cfg : ClientConfig) (s : Runtime) : ClientAction → Option Runtime
  | .start k r =>
    match s.calls k with
    | .idle => some (s.setCall k (entry r))
    | _ => none
  | .call k => callStep s k
  | .drop k => if awaits (s.calls k) then some (s.dropCall k) else none
  | .loop p x => loopStep cfg s p x
  | .session i a k => memberStep cfg s i a k
  | .sender p => senderStep cfg s p
  | .stopSender p => stopSender cfg s p
  | .emit k event data =>
    match s.emits k with
    | .idle => some (s.setEmit k (.check event data))
    | _ => none
  | .emitStep k x => emitStep cfg s k x
  | .emitDrop k =>
    match s.emits k with
    | .send _ => some (s.setEmit k .dropped)
    | _ => none
  -- a user cancels a token obtained from `WsIoClient::cancel_token`
  | .cancel token =>
    if token ≤ s.cancelToken then
      some { s with cancelled := Function.update s.cancelled token true }
    else none

/-- The client under every interleaving of its calls and tasks. -/
def system (cfg : ClientConfig) : System Runtime ClientAction where
  init := initial cfg
  step := step cfg

end Runtime

end WsIo.Client
