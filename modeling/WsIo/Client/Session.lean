import Mathlib.Logic.Function.Basic
import WsIo.Async.System
import WsIo.Async.Task
import WsIo.Core.Endpoint
import WsIo.Core.Postcard

/-!
# A client session and its tasks

`wsio-client/src/session.rs` together with the part of `WsIoClientRuntime::run_connection`
that follows the creation of the session:

* the owner: the rest of `run_connection`, in the connection loop task, with `init`, the
  `select!` on the cancel token and the two stream tasks, and the epilogue
  `session.store(None)`, `cleanup`;
* the read task: `handle_incoming_packet`, `handle_init_packet`, `handle_ready_packet`;
* the write task, the two watchdogs and the ping task;
* the emitters: calls of `emit_event_message` by the runtime's send task.

As for a server connection, an action moves one task over one atomic access or one
await. The accesses to the runtime (publishing and clearing the session, waking the send
task, starting a disconnect) are reported as a `RuntimeOp` (`Session.effect`).
-/

namespace WsIo.Client

open Async Core

/-! ## States and configuration -/

inductive SessionState
  | awaitingInit
  | awaitingReady
  | closed
  | closing
  | created
  | initiating
  | ready
  | readying
  deriving DecidableEq, Repr

/-- The `Debug` text of a state. -/
def SessionState.debug : SessionState → String
  | .awaitingInit => "AwaitingInit"
  | .awaitingReady => "AwaitingReady"
  | .closed => "Closed"
  | .closing => "Closing"
  | .created => "Created"
  | .initiating => "Initiating"
  | .ready => "Ready"
  | .readying => "Readying"

instance : Lifecycle SessionState where
  ready := .ready
  closing := .closing
  closed := .closed
  ready_ne_closing := by decide
  ready_ne_closed := by decide

/-- The fields of `WsIoClientConfig` that decide the control flow; a handler is
represented by whether it is configured. -/
structure ClientConfig where
  codec : PacketCodec
  channelCapacity : Nat
  initHandler : Bool
  onSessionReadyHandler : Bool
  onSessionCloseHandler : Bool
  capacity_ge : 64 ≤ channelCapacity
  capacity_le : channelCapacity ≤ 16384

/-- A client with the postcard codec, the smallest channel and all handlers or none. -/
def ClientConfig.postcard (handlers : Bool) : ClientConfig where
  codec := Postcard.postcard
  channelCapacity := 64
  initHandler := handlers
  onSessionReadyHandler := handlers
  onSessionCloseHandler := handlers
  capacity_ge := smallest_capacity_ge
  capacity_le := smallest_capacity_le

inductive Handler
  | init
  | sessionReady
  | sessionClose
  deriving DecidableEq, Repr

/-- The access of a session to its runtime. -/
inductive RuntimeOp
  | publish
  | clear
  | notify
  | disconnect
  deriving DecidableEq, Repr

/-- What a run of the session shows. -/
inductive Obs
  | received (m : Message)
  | invoked (h : Handler) (data : Option Bytes)
  | returned (h : Handler) (o : Outcome)
  | dispatched (event : String) (data : Option Bytes)
  | discarded (s : SessionState)
  | bailed (t : WsIoPacketType) (e : Error) (s : SessionState)
  | enqueued (o : Origin)
  deriving DecidableEq, Repr

/-- The steps of the epilogue of `run_connection`: `session.store(None)` and `cleanup`. -/
inductive Epilogue
  | cleared
  | storedClosing
  | abortedInitTimeout
  | abortedPing
  | abortedReadyTimeout
  | cancelled
  | closeHandlerInvoked
  | closeHandlerReturned
  | storedClosed
  deriving DecidableEq, Repr

/-! ## Program counters -/

/-- Where `run_connection` stands once it has a websocket stream. -/
inductive OwnerPc
  | absent
  -- init
  | initStore
  | spawnInitTimeout
  | storeInitTimeout
  | spawnPing
  | storePing
  | spawnRead
  | spawnWrite
  | publish
  | loadToken
  | select
  -- the cancel branch
  | close (s : CloseStep)
  | graceful
  | awaitRead
  | awaitWrite
  -- the epilogue
  | clear
  | cleanupStore
  | abortInitTimeout
  | abortPing
  | abortReadyTimeout
  | cancel
  | onClose
  | awaitingOnClose
  | storeClosed
  | finished
  | panicked
  deriving DecidableEq, Repr

inductive ReadPc
  | absent
  | next
  | disconnect
  | eventCheck (event : Option String) (data : Option Bytes)
  -- handle_init_packet
  | initGet (data : Option Bytes)
  | initTransition (data : Option Bytes)
  | abortInitTimeout (data : Option Bytes)
  | initHandler (data : Option Bytes)
  | awaitingInitHandler
  | awaitReady (response : Option Bytes)
  | spawnReadyTimeout (response : Option Bytes)
  | storeReadyTimeout (response : Option Bytes)
  | sendInit (response : Option Bytes)
  -- handle_ready_packet
  | readyGet
  | readyTransition
  | abortReadyTimeout
  | notify
  | spawnOnReady
  | ended
  deriving DecidableEq, Repr

inductive PingPc
  | absent
  | sleeping
  | sending
  | closing (s : CloseStep)
  | ended
  deriving DecidableEq, Repr

/-- Where a call of `emit_event_message` stands. -/
inductive Emitter
  | idle
  | check (m : Message)
  | send (m : Message)
  | done (result : Except Error Unit)

/-- One session, its channel and its tasks. `log` is the run so far, newest first;
`epilogue` is what the owner did after its `select!`, oldest first. -/
structure Session extends Endpoint SessionState where
  owner : OwnerPc
  read : ReadPc
  readAborted : Bool
  readHandle : JoinHandle
  write : WritePc
  writeAborted : Bool
  writeHandle : JoinHandle
  initWatch : WatchPc
  initWatchAborted : Bool
  initTimeoutTask : Bool
  readyWatch : WatchPc
  readyWatchAborted : Bool
  readyTimeoutTask : Bool
  ping : PingPc
  pingAborted : Bool
  pingTask : Bool
  cancelled : Bool
  emitters : Nat → Emitter
  log : List Obs
  epilogue : List Epilogue

/-! ## Actions -/

/-- `panicked`: the close handler, which `cleanup` awaits in the owner itself, panics. -/
inductive OwnerInput
  | go
  | cancelled
  | readEnded
  | writeEnded
  | elapsed
  | closeHandler (o : Outcome)
  | panicked
  deriving DecidableEq, Repr

inductive ReadInput
  | go
  | frame (f : Frame)
  | outcome (o : Outcome) (response : Option Bytes)
  | stop
  deriving DecidableEq, Repr

inductive PingInput
  | go
  | stop
  deriving DecidableEq, Repr

/-- One step of one task of the session. -/
inductive Action
  | owner (i : OwnerInput)
  | read (i : ReadInput)
  | write (i : WriteInput)
  | initWatch (i : WatchInput)
  | readyWatch (i : WatchInput)
  | ping (i : PingInput)
  | emit (k : Nat) (m : Message)
  | emitter (k : Nat)
  | drop (k : Nat)
  deriving DecidableEq, Repr

/-- The points of the read task where an abort can take effect. -/
def ReadPc.awaits : ReadPc → Bool
  | .next | .abortInitTimeout _ | .awaitingInitHandler | .storeReadyTimeout _ | .sendInit _
  | .abortReadyTimeout => true
  | _ => false

/-! A task that stands at a `send().await` of the message channel may be waiting for a slot. -/

def ReadPc.sends : ReadPc → Bool
  | .sendInit _ => true
  | _ => false

def PingPc.sends : PingPc → Bool
  | .sending => true
  | _ => false

def Emitter.sends : Emitter → Bool
  | .send _ => true
  | _ => false

/-- The read task has not been spawned yet. -/
def OwnerPc.beforeRead : OwnerPc → Bool
  | .absent | .initStore | .spawnInitTimeout | .storeInitTimeout | .spawnPing | .storePing
  | .spawnRead => true
  | _ => false

/-- The write task has not been spawned yet. -/
def OwnerPc.beforeWrite (pc : OwnerPc) : Bool := pc.beforeRead || pc = .spawnWrite

namespace Session

/-- The session that `WsIoClientSession::new` makes, before `init`. -/
def initial (cfg : ClientConfig) : Session where
  state := .created
  channel := Channel.new cfg.channelCapacity
  closeReturned := false
  owner := .absent
  read := .absent
  readAborted := false
  readHandle := .pending
  write := .absent
  writeAborted := false
  writeHandle := .pending
  initWatch := .absent
  initWatchAborted := false
  initTimeoutTask := false
  readyWatch := .absent
  readyWatchAborted := false
  readyTimeoutTask := false
  ping := .absent
  pingAborted := false
  pingTask := false
  cancelled := false
  emitters := fun _ => .idle
  log := []
  epilogue := []

/-! ## Pieces shared by the tasks -/

/-- `send_message`, with the enqueued message noted in the log. -/
def enqueue (s : Session) (m : Outgoing) : Option (Except Error Session) :=
  match s.toEndpoint.sendMessage m with
  | none => none
  | some (.error e) => some (.error e)
  | some (.ok e) => some (.ok { s with toEndpoint := e, log := .enqueued m.origin :: s.log })

/-- `send_packet`. -/
def sendPacket (cfg : ClientConfig) (s : Session) (origin : Origin) (p : WsIoPacket) :
    Option (Except Error Session) :=
  match encodePacketToMessage cfg.codec p with
  | .error e => some (.error e)
  | .ok m => s.enqueue ⟨origin, m⟩

/-- `abort_locked_task(&self.init_timeout_task)`. -/
def abortInitTimeout (s : Session) : Session :=
  if s.initTimeoutTask then { s with initWatchAborted := true, initTimeoutTask := false } else s

/-- `abort_locked_task(&self.ready_timeout_task)`. -/
def abortReadyTimeout (s : Session) : Session :=
  if s.readyTimeoutTask then { s with readyWatchAborted := true, readyTimeoutTask := false }
  else s

/-- `abort_locked_task(&self.ping_task)`. -/
def abortPing (s : Session) : Session :=
  if s.pingTask then { s with pingAborted := true, pingTask := false } else s

/-- One access of a `close` call made by a task of the session. -/
def closeAt (s : Session) (a : CloseStep) : Session × Option CloseStep :=
  ({ s with toEndpoint := (s.toEndpoint.close a).1 }, (s.toEndpoint.close a).2)

/-- `PING_MESSAGE`. -/
def pingMessage : Message := .binary [0x01]

/-! ## The read task -/

/-- The read loop's dispatch on a received frame, up to the first access that
`handle_incoming_packet` makes. -/
def handleFrame (cfg : ClientConfig) : Frame → ReadPc
  | none | some none | some (some .close) => .ended
  | some (some m) =>
    match packetBytes false m with
    | none => .next
    | some bytes =>
      match cfg.codec.decode bytes with
      | .error _ => .ended
      | .ok p =>
        match p.type with
        | .disconnect => .disconnect
        | .event => .eventCheck p.key p.data
        | .init => .initGet p.data
        | .ready => .readyGet

def received : Frame → List Obs
  | some (some m) => [.received m]
  | _ => []

/-- A compare-and-swap of the read task; `?` ends the task when it fails. -/
def transition (s : Session) (expected new : SessionState) (pc : ReadPc) : Session :=
  match tryTransition s.state expected new with
  | .ok st => { s with state := st, read := pc }
  | .error _ => { s with read := .ended }

/-- The steps of the read task between two awaits. -/
def readGo (cfg : ClientConfig) (s : Session) : Option Session :=
  match s.read with
  -- handle_disconnect_packet: the runtime's disconnect runs in a task of its own
  | .disconnect => some { s with read := .next }
  | .eventCheck event data =>
    if s.state = .ready then
      match event with
      | some e => some { s with read := .next, log := .dispatched e data :: s.log }
      | none => some { s with
          read := .ended
          log := .bailed .event (.text "Event packet missing key") s.state :: s.log }
    else some { s with read := .next, log := .discarded s.state :: s.log }
  -- handle_init_packet
  | .initGet data =>
    if s.state = .awaitingInit then some { s with read := .initTransition data }
    else
      let text := "Received init packet in invalid state: " ++ s.state.debug
      some { s with read := .ended, log := .bailed .init (.text text) s.state :: s.log }
  | .initTransition data => some (s.transition .awaitingInit .initiating (.abortInitTimeout data))
  | .abortInitTimeout data => some { s.abortInitTimeout with read := .initHandler data }
  | .initHandler data =>
    if cfg.initHandler then
      some { s with read := .awaitingInitHandler, log := .invoked .init data :: s.log }
    else some { s with read := .awaitReady none }
  | .awaitReady response =>
    some (s.transition .initiating .awaitingReady (.spawnReadyTimeout response))
  | .spawnReadyTimeout response =>
    some { s with read := .storeReadyTimeout response, readyWatch := .sleeping }
  | .storeReadyTimeout response =>
    some { s with read := .sendInit response, readyTimeoutTask := true }
  | .sendInit response =>
    match s.sendPacket cfg .init (.newInit response) with
    | none => none
    | some (.error _) => some { s with read := .ended }
    | some (.ok s') => some { s' with read := .next }
  -- handle_ready_packet
  | .readyGet =>
    if s.state = .awaitingReady then some { s with read := .readyTransition }
    else
      let text := "Received ready packet in invalid state: " ++ s.state.debug
      some { s with read := .ended, log := .bailed .ready (.text text) s.state :: s.log }
  | .readyTransition => some (s.transition .awaitingReady .ready .abortReadyTimeout)
  | .abortReadyTimeout => some { s.abortReadyTimeout with read := .notify }
  | .notify => some { s with read := .spawnOnReady }
  | .spawnOnReady =>
    if cfg.onSessionReadyHandler then
      some { s with read := .next, log := .invoked .sessionReady none :: s.log }
    else some { s with read := .next }
  | _ => none

def readStep (cfg : ClientConfig) (s : Session) : ReadInput → Option Session
  | .go => readGo cfg s
  | .frame f =>
    if s.read = .next then some { s with read := handleFrame cfg f, log := received f ++ s.log }
    else none
  | .outcome o response =>
    if s.read = .awaitingInitHandler then
      some { s with
        read := if o = .ok then .awaitReady response else .ended
        log := .returned .init o :: s.log }
    else none
  | .stop => if s.readAborted && s.read.awaits then some { s with read := .ended } else none

/-! ## The owner -/

/-- The owner polls a join handle it owns: `let _ = read_ws_stream_task.await`. -/
def awaitTask (s : Session) (handle : JoinHandle) (ended : Bool) (next : OwnerPc) :
    Option Session :=
  match handle.poll ended with
  | .pending => none
  | .ready => some { s with owner := next }
  | .panic => some { s with owner := .panicked }

def ownerGo (cfg : ClientConfig) (s : Session) : Option Session :=
  match s.owner with
  | .absent => some { s with owner := .initStore }
  -- init
  | .initStore => some { s with owner := .spawnInitTimeout, state := .awaitingInit }
  | .spawnInitTimeout => some { s with owner := .storeInitTimeout, initWatch := .sleeping }
  | .storeInitTimeout => some { s with owner := .spawnPing, initTimeoutTask := true }
  | .spawnPing => some { s with owner := .storePing, ping := .sleeping }
  | .storePing => some { s with owner := .spawnRead, pingTask := true }
  | .spawnRead => some { s with owner := .spawnWrite, read := .next }
  | .spawnWrite => some { s with owner := .publish, write := .recv }
  | .publish => some { s with owner := .loadToken }
  | .loadToken => some { s with owner := .select }
  -- the cancel branch
  | .close a =>
    match (s.closeAt a).2 with
    | some a' => some { (s.closeAt a).1 with owner := .close a' }
    | none => some { (s.closeAt a).1 with owner := .graceful }
  | .awaitRead => s.awaitTask s.readHandle (s.read = .ended) .awaitWrite
  | .awaitWrite => s.awaitTask s.writeHandle (s.write = .ended) .clear
  -- the epilogue
  | .clear => some { s with owner := .cleanupStore, epilogue := s.epilogue ++ [.cleared] }
  | .cleanupStore => some { s with
      owner := .abortInitTimeout
      state := .closing
      epilogue := s.epilogue ++ [.storedClosing] }
  | .abortInitTimeout => some { s.abortInitTimeout with
      owner := .abortPing
      epilogue := s.epilogue ++ [.abortedInitTimeout] }
  | .abortPing => some { s.abortPing with
      owner := .abortReadyTimeout
      epilogue := s.epilogue ++ [.abortedPing] }
  | .abortReadyTimeout => some { s.abortReadyTimeout with
      owner := .cancel
      epilogue := s.epilogue ++ [.abortedReadyTimeout] }
  | .cancel => some { s with
      owner := .onClose
      cancelled := true
      epilogue := s.epilogue ++ [.cancelled] }
  | .onClose =>
    if cfg.onSessionCloseHandler then
      some { s with
        owner := .awaitingOnClose
        log := .invoked .sessionClose none :: s.log
        epilogue := s.epilogue ++ [.closeHandlerInvoked] }
    else some { s with owner := .storeClosed }
  | .storeClosed => some { s with
      owner := .finished
      state := .closed
      epilogue := s.epilogue ++ [.storedClosed] }
  | _ => none

def ownerStep (cfg : ClientConfig) (s : Session) : OwnerInput → Option Session
  | .go => ownerGo cfg s
  | .cancelled => if s.owner = .select then some { s with owner := .close .get } else none
  -- a stream task ended: its handle has yielded, the other task is aborted
  | .readEnded =>
    if s.read = .ended then
      match s.owner with
      | .select => some { s with owner := .clear, readHandle := .consumed, writeAborted := true }
      | .graceful => some { s with
          owner := .awaitRead
          readHandle := .consumed
          writeAborted := true }
      | _ => none
    else none
  | .writeEnded =>
    if s.write = .ended then
      match s.owner with
      | .select => some { s with owner := .clear, writeHandle := .consumed, readAborted := true }
      | .graceful => some { s with
          owner := .awaitRead
          writeHandle := .consumed
          readAborted := true }
      | _ => none
    else none
  -- disconnect_timeout elapsed
  | .elapsed =>
    if s.owner = .graceful then
      some { s with owner := .awaitRead, readAborted := true, writeAborted := true }
    else none
  | .closeHandler o =>
    if s.owner = .awaitingOnClose then
      some { s with
        owner := .storeClosed
        log := .returned .sessionClose o :: s.log
        epilogue := s.epilogue ++ [.closeHandlerReturned] }
    else none
  -- the owner unwinds, and the connection loop with it
  | .panicked => if s.owner = .awaitingOnClose then some { s with owner := .panicked } else none

/-! ## The other tasks -/

def writeStep (s : Session) (i : WriteInput) : Option Session :=
  match s.toEndpoint.writeStep s.write s.writeAborted i with
  | none => none
  | some (e, pc) => some { s with toEndpoint := e, write := pc }

/-- The watchdog that `init` spawns. -/
def initWatchStep (s : Session) (i : WatchInput) : Option Session :=
  match s.toEndpoint.watchStep .awaitingInit s.initWatch s.initWatchAborted i with
  | none => none
  | some (e, pc) => some { s with toEndpoint := e, initWatch := pc }

/-- The watchdog that `handle_init_packet` spawns. -/
def readyWatchStep (s : Session) (i : WatchInput) : Option Session :=
  match s.toEndpoint.watchStep .awaitingReady s.readyWatch s.readyWatchAborted i with
  | none => none
  | some (e, pc) => some { s with toEndpoint := e, readyWatch := pc }

/-- The ping task; it goes on after a failed send, whose `close` is a no-op from then on. -/
def pingStep (s : Session) : PingInput → Option Session
  | .go =>
    match s.ping with
    | .sleeping => some { s with ping := .sending }
    | .sending =>
      match s.enqueue ⟨.ping, pingMessage⟩ with
      | none => none
      | some (.error _) => some { s with ping := .closing .get }
      | some (.ok s') => some { s' with ping := .sleeping }
    | .closing a =>
      match (s.closeAt a).2 with
      | some a' => some { (s.closeAt a).1 with ping := .closing a' }
      | none => some { (s.closeAt a).1 with ping := .sleeping }
    | _ => none
  | .stop =>
    if s.pingAborted ∧ (s.ping = .sleeping ∨ s.ping = .sending) then some { s with ping := .ended }
    else none

def setEmitter (s : Session) (k : Nat) (x : Emitter) : Session :=
  { s with emitters := Function.update s.emitters k x }

/-- `emit_event_message`. -/
def emitterStep (s : Session) (k : Nat) : Option Session :=
  match s.emitters k with
  | .check m =>
    match ensure s.state .ready
        fun st => "Cannot emit event message in invalid state: " ++ st.debug with
    | .ok _ => some (s.setEmitter k (.send m))
    | .error e => some (s.setEmitter k (.done (.error e)))
  | .send m =>
    match s.enqueue ⟨.event, m⟩ with
    | none => none
    | some (.error e) => some (s.setEmitter k (.done (.error e)))
    | some (.ok s') => some (s'.setEmitter k (.done (.ok ())))
  | .idle | .done _ => none

/-- A new call of `emit_event_message` by the same task. -/
def emitStart (s : Session) (k : Nat) (m : Message) : Option Session :=
  match s.emitters k with
  | .idle | .done _ => some (s.setEmitter k (.check m))
  | _ => none

/-- The emitting task is aborted while its send waits. -/
def emitDrop (s : Session) (k : Nat) : Option Session :=
  match s.emitters k with
  | .send _ => some (s.setEmitter k .idle)
  | _ => none

/-! ## The whole session -/

def step (cfg : ClientConfig) (s : Session) : Action → Option Session
  | .owner i => ownerStep cfg s i
  | .read i => readStep cfg s i
  | .write i => writeStep s i
  | .initWatch i => initWatchStep s i
  | .readyWatch i => readyWatchStep s i
  | .ping i => pingStep s i
  | .emit k m => emitStart s k m
  | .emitter k => emitterStep s k
  | .drop k => emitDrop s k

/-- The access to the runtime that a step makes. -/
def effect (s : Session) : Action → Option RuntimeOp
  | .owner .go =>
    match s.owner with
    | .publish => some .publish
    | .clear => some .clear
    | _ => none
  | .read .go =>
    match s.read with
    | .notify => some .notify
    | .disconnect => some .disconnect
    | _ => none
  | _ => none

/-- The step is the `try_send` of a `close` call. -/
def closeSends (s : Session) : Action → Bool
  | .owner .go => s.owner = .close .send
  | .initWatch .go => s.initWatch = .closing .send
  | .readyWatch .go => s.readyWatch = .closing .send
  | .ping .go => s.ping = .closing .send
  | _ => false

/-- One session under every interleaving of its tasks. -/
def system (cfg : ClientConfig) : System Session Action where
  init := initial cfg
  step := step cfg

end Session

end WsIo.Client
