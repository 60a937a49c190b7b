import Mathlib.Logic.Function.Basic
import WsIo.Async.System
import WsIo.Core.Endpoint
import WsIo.Core.Postcard

/-!
# A server connection and its tasks

`wsio-server/src/connection/mod.rs` together with the tasks that
`WsIoServerNamespace::handle_upgraded_request` runs for one connection:

* the main task: the status checks, `init`, the wait on the two stream tasks, `cleanup`;
* the read task: `handle_incoming_packet` and `handle_init_packet`;
* the write task, which drains the message channel into the websocket;
* the init-timeout watchdog that `init` spawns;
* any number of callers: `close`, `disconnect`, `emit`, `join`, `leave`, `on_close`
  calls made by handlers, broadcasts or other holders of the connection.

Each task is a program counter; an action moves one task over one atomic access (to the
state cell, to a registry, to the channel) or over one await. What the scheduler and the
environment decide (the frame that arrives, a handler's outcome, the instant an abort
takes effect) is in the action. An aborted task stops only where it awaits.

The registries and rooms of the namespace are shared by all its connections; a step
reports its access to them as a `RegistryOp` (`Connection.effect`).
-/

namespace WsIo.Server

open Async Core

/-! ## States and configuration -/

inductive ConnectionState
  | activating
  | awaitingInit
  | closed
  | closing
  | created
  | initiating
  | ready
  deriving DecidableEq, Repr

/-- The `Debug` text of a state. -/
def ConnectionState.debug : ConnectionState → String
  | .activating => "Activating"
  | .awaitingInit => "AwaitingInit"
  | .closed => "Closed"
  | .closing => "Closing"
  | .created => "Created"
  | .initiating => "Initiating"
  | .ready => "Ready"

instance : Lifecycle ConnectionState where
  ready := .ready
  closing := .closing
  closed := .closed
  ready_ne_closing := by decide
  ready_ne_closed := by decide

/-- The handlers of the namespace configuration that a connection runs, and the
connection's own close handler. -/
inductive Handler
  | initRequest
  | initResponse
  | middleware
  | onConnect
  | onReady
  | onClose
  deriving DecidableEq, Repr

/-- The fields of `WsIoServerNamespaceConfig` that a connection reads. A handler is
represented by whether it is configured; what it does is decided by the action that
completes it. `channel_capacity_from_websocket_config` clamps the capacity. -/
structure NamespaceConfig where
  codec : PacketCodec
  channelCapacity : Nat
  initRequestHandler : Bool
  initResponseHandler : Bool
  middleware : Bool
  onConnectHandler : Bool
  onReadyHandler : Bool
  capacity_ge : 64 ≤ channelCapacity
  capacity_le : channelCapacity ≤ 16384

/-- A namespace with the postcard codec, the smallest channel and all handlers or none. -/
def NamespaceConfig.postcard (handlers : Bool) : NamespaceConfig where
  codec := Postcard.postcard
  channelCapacity := 64
  initRequestHandler := handlers
  initResponseHandler := handlers
  middleware := handlers
  onConnectHandler := handlers
  onReadyHandler := handlers
  capacity_ge := smallest_capacity_ge
  capacity_le := smallest_capacity_le

/-- The three structures that `insert_connection` and `remove_connection` update, in
their order. -/
inductive Registry
  | connections
  | runtimeIds
  | connectionIds
  deriving DecidableEq, Repr

/-- One atomic access of a connection to its namespace. -/
inductive RegistryOp
  | insert (r : Registry)
  | remove (r : Registry)
  | addToRoom (room : String)
  | removeFromRoom (room : String)
  | dropRoomIfEmpty (room : String)
  deriving DecidableEq, Repr

/-- What a run of the connection shows. -/
inductive Obs
  | received (m : Message)
  | invoked (h : Handler) (data : Option Bytes)
  | returned (h : Handler) (o : Outcome)
  | dispatched (event : String) (data : Option Bytes)
  | bailed (t : WsIoPacketType) (e : Error) (s : ConnectionState)
  | enqueued (o : Origin)
  | registry (op : RegistryOp)
  deriving DecidableEq, Repr

/-! ## Program counters -/

/-- Where the read task stands. -/
inductive ReadPc
  | absent
  | next
  | eventCheck (event : Option String) (data : Option Bytes)
  | initGet (data : Option Bytes)
  | initTransition (data : Option Bytes)
  | abortInitTimeout (data : Option Bytes)
  | initResponse (data : Option Bytes)
  | activate
  | middleware
  | ensureActivating
  | onConnect
  | awaiting (h : Handler)
  | readyTransition
  | insert (r : Registry)
  | sendReady
  | spawnOnReady
  | ended
  deriving DecidableEq, Repr

/-- Where the task of one upgrade request stands. -/
inductive MainPc
  | absent
  | upgrading
  | checkRuntime
  | checkNamespace
  | reject
  | rejected
  | spawnRead
  | spawnWrite
  -- init
  | initEnsure
  | initRequest
  | awaitingInitRequest
  | initTransition (data : Option Bytes)
  | spawnWatch (data : Option Bytes)
  | storeWatch (data : Option Bytes)
  | sendInit (data : Option Bytes)
  -- after init: the wait for the stream tasks, or the error path
  | select
  | failAbort
  | failClose (s : CloseStep)
  | join
  -- cleanup
  | cleanupStore
  | remove (r : Registry)
  | snapshotRooms
  | leaveRooms (rest : List String)
  | dropRoom (room : String) (rest : List String)
  | clearRooms
  | abortInitTimeout
  | cancel
  | onClose
  | awaitingOnClose
  | storeClosed
  | finished
  -- a handler that the task runs itself has panicked, in init or in cleanup
  | initPanicked
  | closePanicked
  deriving DecidableEq, Repr

/-- A call that some other task makes on the connection. A namespace broadcast reaches a
connection as `close`, `emit` or (for its disconnect) `sendDisconnect`. -/
inductive Job
  | close
  | disconnect
  | emit (event : String) (data : Option Bytes)
  | sendDisconnect
  | join (rooms : List String)
  | leave (rooms : List String)
  | onClose
  deriving DecidableEq, Repr

/-- Where such a call stands. -/
inductive Caller
  | idle
  | closing (s : CloseStep)
  | disconnectSend
  | emitCheck (m : Message)
  | emitSend (m : Message)
  | messageSend (m : Message)
  | join (rooms : List String)
  | joinInsert (room : String) (rest : List String)
  | leave (rooms : List String)
  | leaveDrop (room : String) (rest : List String)
  | leaveRemove (room : String) (rest : List String)
  | onClose
  | done (result : Except Error Unit)
  | dropped
  deriving DecidableEq

/-- One connection, its channel and its tasks. `log` is the run so far, newest first. -/
structure Connection extends Endpoint ConnectionState where
  main : MainPc
  read : ReadPc
  readAborted : Bool
  write : WritePc
  writeAborted : Bool
  watch : WatchPc
  watchAborted : Bool
  initTimeoutTask : Bool
  joinedRooms : List String
  cancelled : Bool
  onCloseHandler : Bool
  callers : Nat → Caller
  log : List Obs

/-! ## Actions -/

/-- `panicked`: the init-request handler or the close handler, which the task runs itself,
panics. -/
inductive MainInput
  | go
  | upgraded (ok : Bool)
  | status (running : Bool)
  | request (o : Outcome) (data : Option Bytes)
  | closeHandler (o : Outcome)
  | panicked
  | readEnded
  | writeEnded
  deriving DecidableEq, Repr

inductive ReadInput
  | go
  | frame (f : Frame)
  | outcome (o : Outcome)
  | stop
  deriving DecidableEq, Repr

/-- One step of one task of the connection. -/
inductive Action
  | main (i : MainInput)
  | read (i : ReadInput)
  | write (i : WriteInput)
  | watch (i : WatchInput)
  | start (k : Nat) (job : Job)
  | caller (k : Nat)
  | drop (k : Nat)
  deriving DecidableEq, Repr

/-- The points of the read task where an abort can take effect. -/
def ReadPc.awaits : ReadPc → Bool
  | .next | .abortInitTimeout _ | .awaiting _ | .sendReady => true
  | _ => false

/-! A task that stands at a `send().await` of the message channel may be waiting for a slot. -/

def MainPc.sends : MainPc → Bool
  | .sendInit _ => true
  | _ => false

def ReadPc.sends : ReadPc → Bool
  | .sendReady => true
  | _ => false

def Caller.sends : Caller → Bool
  | .disconnectSend | .emitSend _ | .messageSend _ => true
  | _ => false

/-- The connection object exists, so that other tasks can hold it. -/
def MainPc.created : MainPc → Bool
  | .absent | .upgrading | .checkRuntime | .checkNamespace | .reject | .rejected => false
  | _ => true

/-- A handler has taken the task down with it. -/
def MainPc.panicked : MainPc → Bool
  | .initPanicked | .closePanicked => true
  | _ => false

/-- The task of the request is over. -/
def MainPc.ended : MainPc → Bool
  | .finished | .rejected => true
  | pc => pc.panicked

/-- The write task has not been spawned yet. -/
def MainPc.beforeWrite : MainPc → Bool
  | .spawnRead | .spawnWrite => true
  | pc => !pc.created

namespace Connection

/-- A connection before its upgrade request. -/
def initial (cfg : NamespaceConfig) : Connection where
  state := .created
  channel := Channel.new cfg.channelCapacity
  closeReturned := false
  main := .absent
  read := .absent
  readAborted := false
  write := .absent
  writeAborted := false
  watch := .absent
  watchAborted := false
  initTimeoutTask := false
  joinedRooms := []
  cancelled := false
  onCloseHandler := false
  callers := fun _ => .idle
  log := []

/-! ## Pieces shared by the tasks -/

/-- `send_message`, with the enqueued message noted in the log. -/
def enqueue (c : Connection) (m : Outgoing) : Option (Except Error Connection) :=
  match c.toEndpoint.sendMessage m with
  | none => none
  | some (.error e) => some (.error e)
  | some (.ok e) => some (.ok { c with toEndpoint := e, log := .enqueued m.origin :: c.log })

/-- `send_packet`. -/
def sendPacket (cfg : NamespaceConfig) (c : Connection) (origin : Origin) (p : WsIoPacket) :
    Option (Except Error Connection) :=
  match encodePacketToMessage cfg.codec p with
  | .error e => some (.error e)
  | .ok m => c.enqueue ⟨origin, m⟩

/-- `abort_locked_task(&self.init_timeout_task)`. -/
def abortInitTimeout (c : Connection) : Connection :=
  if c.initTimeoutTask then { c with watchAborted := true, initTimeoutTask := false } else c

/-- One access of a `close` call made by a task of the connection. -/
def closeAt (c : Connection) (s : CloseStep) : Connection × Option CloseStep :=
  ({ c with toEndpoint := (c.toEndpoint.close s).1 }, (c.toEndpoint.close s).2)

/-! ## The read task -/

/-- The read loop's dispatch on a received frame, up to the first access that
`handle_incoming_packet` makes. -/
def handleFrame (cfg : NamespaceConfig) : Frame → ReadPc
  | none | some none | some (some .close) => .ended
  | some (some m) =>
    -- single-byte binary frames are client heartbeats
    match packetBytes true m with
    | none => .next
    | some bytes =>
      match cfg.codec.decode bytes with
      | .error _ => .ended
      | .ok p =>
        match p.type with
        | .event => .eventCheck p.key p.data
        | .init => .initGet p.data
        | _ => .next

/-- What the log notes of a frame. -/
def received : Frame → List Obs
  | some (some m) => [.received m]
  | _ => []

/-- A compare-and-swap of the read task; `?` ends the task when it fails. -/
def transition (c : Connection) (expected new : ConnectionState) (pc : ReadPc) : Connection :=
  match tryTransition c.state expected new with
  | .ok s => { c with state := s, read := pc }
  | .error _ => { c with read := .ended }

/-- Run a configured handler, or go on without it. -/
def invoke (c : Connection) (configured : Bool) (h : Handler) (data : Option Bytes)
    (skip : ReadPc) : Connection :=
  if configured then { c with read := .awaiting h, log := .invoked h data :: c.log }
  else { c with read := skip }

/-- What follows a handler that returned `Ok`. -/
def afterHandler : Handler → ReadPc
  | .initResponse => .activate
  | .middleware => .ensureActivating
  | .onConnect => .readyTransition
  | _ => .ended

/-- The next access of `insert_connection`. -/
def afterInsert : Registry → ReadPc
  | .connections => .insert .runtimeIds
  | .runtimeIds => .insert .connectionIds
  | .connectionIds => .sendReady

/-- The steps of the read task between two awaits. -/
def readGo (cfg : NamespaceConfig) (c : Connection) : Option Connection :=
  match c.read with
  -- handle_incoming_packet, an event packet
  | .eventCheck event data =>
    if c.state = .ready then
      match event with
      | some e => some { c with read := .next, log := .dispatched e data :: c.log }
      | none => some { c with
          read := .ended
          log := .bailed .event (.text "Event packet missing key") c.state :: c.log }
    else some { c with read := .next }
  -- handle_init_packet
  | .initGet data =>
    if c.state = .awaitingInit then some { c with read := .initTransition data }
    else
      let text := "Received init packet in invalid state: " ++ c.state.debug
      some { c with read := .ended, log := .bailed .init (.text text) c.state :: c.log }
  | .initTransition data => some (c.transition .awaitingInit .initiating (.abortInitTimeout data))
  | .abortInitTimeout data => some { c.abortInitTimeout with read := .initResponse data }
  | .initResponse data => some (c.invoke cfg.initResponseHandler .initResponse data .activate)
  | .activate => some (c.transition .initiating .activating .middleware)
  | .middleware => some (c.invoke cfg.middleware .middleware none .onConnect)
  | .ensureActivating =>
    match ensure c.state .activating
        fun s => "Cannot activate connection in invalid state: " ++ s.debug with
    | .ok _ => some { c with read := .onConnect }
    | .error _ => some { c with read := .ended }
  | .onConnect => some (c.invoke cfg.onConnectHandler .onConnect none .readyTransition)
  | .readyTransition => some (c.transition .activating .ready (.insert .connections))
  | .insert r => some { c with read := afterInsert r, log := .registry (.insert r) :: c.log }
  | .sendReady =>
    match c.sendPacket cfg .ready .newReady with
    | none => none
    | some (.error _) => some { c with read := .ended }
    | some (.ok c') => some { c' with read := .spawnOnReady }
  | .spawnOnReady =>
    if cfg.onReadyHandler then
      some { c with read := .next, log := .invoked .onReady none :: c.log }
    else some { c with read := .next }
  | _ => none

def readStep (cfg : NamespaceConfig) (c : Connection) : ReadInput → Option Connection
  | .go => readGo cfg c
  | .frame f =>
    if c.read = .next then some { c with read := handleFrame cfg f, log := received f ++ c.log }
    else none
  | .outcome o =>
    match c.read with
    | .awaiting h => some { c with
        read := if o = .ok then afterHandler h else .ended
        log := .returned h o :: c.log }
    | _ => none
  | .stop => if c.readAborted && c.read.awaits then some { c with read := .ended } else none

/-! ## The main task -/

/-- The next access of `remove_connection`. -/
def afterRemove : Registry → MainPc
  | .connections => .remove .runtimeIds
  | .runtimeIds => .remove .connectionIds
  | .connectionIds => .snapshotRooms

def mainGo (cfg : NamespaceConfig) (c : Connection) : Option Connection :=
  match c.main with
  -- handle_on_upgrade_request
  | .absent => some { c with main := .upgrading }
  -- handle_upgraded_request
  | .reject => some { c with main := .rejected }
  | .spawnRead => some { c with main := .spawnWrite, read := .next }
  | .spawnWrite => some { c with main := .initEnsure, write := .recv }
  -- init
  | .initEnsure =>
    match ensure c.state .created
        fun s => "Cannot init connection in invalid state: " ++ s.debug with
    | .ok _ => some { c with main := .initRequest }
    | .error _ => some { c with main := .failAbort }
  | .initRequest =>
    if cfg.initRequestHandler then
      some { c with main := .awaitingInitRequest, log := .invoked .initRequest none :: c.log }
    else some { c with main := .initTransition none }
  | .initTransition data =>
    match tryTransition c.state .created .awaitingInit with
    | .ok s => some { c with main := .spawnWatch data, state := s }
    | .error _ => some { c with main := .failAbort }
  | .spawnWatch data => some { c with main := .storeWatch data, watch := .sleeping }
  | .storeWatch data => some { c with main := .sendInit data, initTimeoutTask := true }
  | .sendInit data =>
    match c.sendPacket cfg .init (.newInit data) with
    | none => none
    | some (.error _) => some { c with main := .failAbort }
    | some (.ok c') => some { c' with main := .select }
  -- the error path of handle_upgraded_request
  | .failAbort => some { c with main := .failClose .get, readAborted := true }
  | .failClose s =>
    match (c.closeAt s).2 with
    | some s' => some { (c.closeAt s).1 with main := .failClose s' }
    | none => some { (c.closeAt s).1 with main := .join }
  | .join => if c.read = .ended ∧ c.write = .ended then some { c with main := .cleanupStore } else none
  -- cleanup
  | .cleanupStore => some { c with main := .remove .connections, state := .closing }
  | .remove r => some { c with main := afterRemove r, log := .registry (.remove r) :: c.log }
  | .snapshotRooms => some { c with main := .leaveRooms c.joinedRooms }
  | .leaveRooms [] => some { c with main := .clearRooms }
  | .leaveRooms (room :: rest) => some { c with main := .dropRoom room rest }
  | .dropRoom _ rest => some { c with main := .leaveRooms rest }
  | .clearRooms => some { c with main := .abortInitTimeout, joinedRooms := [] }
  | .abortInitTimeout => some { c.abortInitTimeout with main := .cancel }
  | .cancel => some { c with main := .onClose, cancelled := true }
  | .onClose =>
    if c.onCloseHandler then
      some { c with
        main := .awaitingOnClose
        onCloseHandler := false
        log := .invoked .onClose none :: c.log }
    else some { c with main := .storeClosed }
  | .storeClosed => some { c with main := .finished, state := .closed }
  | _ => none

def mainStep (cfg : NamespaceConfig) (c : Connection) : MainInput → Option Connection
  | .go => mainGo cfg c
  | .upgraded ok =>
    if c.main = .upgrading then
      some { c with main := if ok then .checkRuntime else .rejected }
    else none
  | .status running =>
    match c.main with
    | .checkRuntime => some { c with main := if running then .checkNamespace else .reject }
    | .checkNamespace => some { c with main := if running then .spawnRead else .reject }
    | _ => none
  | .request o data =>
    if c.main = .awaitingInitRequest then
      some { c with
        main := if o = .ok then .initTransition data else .failAbort
        log := .returned .initRequest o :: c.log }
    else none
  | .closeHandler o =>
    if c.main = .awaitingOnClose then
      some { c with main := .storeClosed, log := .returned .onClose o :: c.log }
    else none
  -- the task unwinds; the stream tasks, whose handles it drops, go on
  | .panicked =>
    match c.main with
    | .awaitingInitRequest => some { c with main := .initPanicked }
    | .awaitingOnClose => some { c with main := .closePanicked }
    | _ => none
  -- the select on the two stream tasks; the other task is aborted
  | .readEnded =>
    if c.main = .select ∧ c.read = .ended then
      some { c with main := .cleanupStore, writeAborted := true }
    else none
  | .writeEnded =>
    if c.main = .select ∧ c.write = .ended then
      some { c with main := .cleanupStore, readAborted := true }
    else none

/-! ## The write task and the watchdog -/

def writeStep (c : Connection) (i : WriteInput) : Option Connection :=
  match c.toEndpoint.writeStep c.write c.writeAborted i with
  | none => none
  | some (e, pc) => some { c with toEndpoint := e, write := pc }

/-- The watchdog that `init` spawns. -/
def watchStep (c : Connection) (i : WatchInput) : Option Connection :=
  match c.toEndpoint.watchStep .awaitingInit c.watch c.watchAborted i with
  | none => none
  | some (e, pc) => some { c with toEndpoint := e, watch := pc }

/-! ## Callers -/

def setCaller (c : Connection) (k : Nat) (x : Caller) : Connection :=
  { c with callers := Function.update c.callers k x }

/-- Where a call begins. `emit` encodes its packet before it looks at the state. -/
def entry (cfg : NamespaceConfig) : Job → Caller
  | .close => .closing .get
  | .disconnect => .disconnectSend
  | .emit event data =>
    match encodePacketToMessage cfg.codec (.newEvent event data) with
    | .ok m => .emitCheck m
    | .error e => .done (.error e)
  | .sendDisconnect =>
    match encodePacketToMessage cfg.codec .newDisconnect with
    | .ok m => .messageSend m
    | .error e => .done (.error e)
  | .join rooms => .join rooms
  | .leave rooms => .leave rooms
  | .onClose => .onClose

def callerStep (cfg : NamespaceConfig) (c : Connection) (k : Nat) : Option Connection :=
  match c.callers k with
  | .closing s =>
    match (c.closeAt s).2 with
    | some s' => some ((c.closeAt s).1.setCaller k (.closing s'))
    | none => some ((c.closeAt s).1.setCaller k (.done (.ok ())))
  -- disconnect ignores the result of its send
  | .disconnectSend =>
    match c.sendPacket cfg .disconnect .newDisconnect with
    | none => none
    | some (.error _) => some (c.setCaller k (.closing .get))
    | some (.ok c') => some (c'.setCaller k (.closing .get))
  -- emit_event_message
  | .emitCheck m =>
    match ensure c.state .ready fun s => "Cannot emit in invalid state: " ++ s.debug with
    | .ok _ => some (c.setCaller k (.emitSend m))
    | .error e => some (c.setCaller k (.done (.error e)))
  | .emitSend m =>
    match c.enqueue ⟨.event, m⟩ with
    | none => none
    | some (.error e) => some (c.setCaller k (.done (.error e)))
    | some (.ok c') => some (c'.setCaller k (.done (.ok ())))
  | .messageSend m =>
    match c.enqueue ⟨.disconnect, m⟩ with
    | none => none
    | some (.error e) => some (c.setCaller k (.done (.error e)))
    | some (.ok c') => some (c'.setCaller k (.done (.ok ())))
  | .join [] => some (c.setCaller k (.done (.ok ())))
  | .join (room :: rest) => some (c.setCaller k (.joinInsert room rest))
  | .joinInsert room rest =>
    some ({ c with joinedRooms := c.joinedRooms.insert room }.setCaller k (.join rest))
  | .leave [] => some (c.setCaller k (.done (.ok ())))
  | .leave (room :: rest) => some (c.setCaller k (.leaveDrop room rest))
  | .leaveDrop room rest => some (c.setCaller k (.leaveRemove room rest))
  | .leaveRemove room rest =>
    some ({ c with joinedRooms := c.joinedRooms.erase room }.setCaller k (.leave rest))
  | .onClose => some ({ c with onCloseHandler := true }.setCaller k (.done (.ok ())))
  | .idle | .done _ | .dropped => none

/-- The awaits of a caller, where its future can be dropped. -/
def callerAwaits : Caller → Bool
  | .disconnectSend | .emitSend _ | .messageSend _ | .onClose => true
  | _ => false

/-! ## The whole connection -/

def step (cfg : NamespaceConfig) (c : Connection) : Action → Option Connection
  | .main i => mainStep cfg c i
  | .read i => readStep cfg c i
  | .write i => writeStep c i
  | .watch i => watchStep c i
  | .start k job =>
    match c.callers k with
    | .idle => if c.main.created then some (c.setCaller k (entry cfg job)) else none
    | _ => none
  | .caller k => callerStep cfg c k
  | .drop k => if callerAwaits (c.callers k) then some (c.setCaller k .dropped) else none

/-- The access to the namespace that a step makes. -/
def effect (c : Connection) : Action → Option RegistryOp
  | .read .go =>
    match c.read with
    | .insert r => some (.insert r)
    | _ => none
  | .main .go =>
    match c.main with
    | .remove r => some (.remove r)
    | .leaveRooms (room :: _) => some (.removeFromRoom room)
    | .dropRoom room _ => some (.dropRoomIfEmpty room)
    | _ => none
  | .caller k =>
    match c.callers k with
    | .join (room :: _) => some (.addToRoom room)
    | .leave (room :: _) => some (.removeFromRoom room)
    | .leaveDrop room _ => some (.dropRoomIfEmpty room)
    | _ => none
  | _ => none

/-- The step is the `try_send` of a `close` call. -/
def closeSends (c : Connection) : Action → Bool
  | .main .go => c.main = .failClose .send
  | .watch .go => c.watch = .closing .send
  | .caller k =>
    match c.callers k with
    | .closing .send => true
    | _ => false
  | _ => false

/-- One connection under every interleaving of its tasks and callers. -/
def system (cfg : NamespaceConfig) : System Connection Action where
  init := initial cfg
  step := step cfg

end Connection

end WsIo.Server
