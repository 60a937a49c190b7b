import Mathlib.Data.Finset.Basic
import WsIo.Server.Connection

/-!
# The server: runtime, namespaces, broadcasts and shutdown

`wsio-server/src/runtime.rs`, `namespace/mod.rs` and `namespace/operators/broadcast.rs`
around the connections of `Server/Connection.lean`. The state holds the registries that
the connections share (`connections`, `connection_ids`, `rooms`, the runtime's
`connection_ids`), the task set of each namespace with its lock, the map of namespaces,
every connection, and the calls in progress: broadcasts, `shutdown` of a namespace or of
the runtime, `remove_namespace`, `insert_namespace`.

A call is a program counter like any task; between two of its steps any other task may
run. Its future can be dropped where it awaits.
-/

namespace WsIo.Server

open Async Core

/-- `NamespaceStatus` and `WsIoServerRuntimeStatus`. -/
inductive Status
  | running
  | stopped
  | stopping
  deriving DecidableEq, Repr

/-- The `Debug` text of a status. -/
def Status.debug : Status → String
  | .running => "Running"
  | .stopped => "Stopped"
  | .stopping => "Stopping"

/-- What the server is built with: a configuration and a path for each namespace that is
ever registered. -/
structure ServerConfig where
  config : Nat → NamespaceConfig
  path : Nat → String
  broadcastConcurrencyLimit : Nat → Nat

/-- A server with the postcard codec, whose handlers are all configured or none. -/
def ServerConfig.postcard (handlers : Bool) : ServerConfig where
  config := fun _ => .postcard handlers
  path := fun _ => "/"
  broadcastConcurrencyLimit := fun _ => 16

/-- `WsIoServerNamespace`. `created` and `live` record that its `insert_namespace` was
called and succeeded; `closedAll` that the `close_all` of some shutdown has finished. -/
structure Namespace where
  status : Status
  connections : Finset Nat
  connectionIds : Finset Nat
  rooms : String → Option (Finset Nat)
  taskSet : Finset Nat
  taskSetLocked : Bool
  created : Bool
  live : Bool
  closedAll : Bool

/-- The sets of a `WsIoServerNamespaceBroadcastOperator`, in their iteration order. -/
structure Operator where
  includeRooms : List String
  excludeRooms : List String
  excludeConnectionIds : List Nat
  deriving DecidableEq, Repr

/-- `WsIoServerNamespaceBroadcastOperator::new`. -/
def Operator.new : Operator := ⟨[], [], []⟩

/-- Where `for_each_target_connections` stands. `active` are the started futures, each a
caller of its connection. -/
inductive BroadcastPc
  | load
  | includeRooms (rest : List String) (ids : Finset Nat)
  | excludeRooms (rest : List String) (ids : Finset Nat)
  | each (ids : Finset Nat) (active : List (Nat × Nat))

/-- Where `WsIoServerNamespace::shutdown` stands. -/
inductive ShutdownPc
  | get
  | store
  | closeAll (b : BroadcastPc)
  | lock
  | join
  | storeStopped
  | finished

/-- A call in progress. -/
inductive Call
  | idle
  | broadcast (n : Nat) (op : Operator) (job : Job) (pc : BroadcastPc)
  | emit (n : Nat) (op : Operator) (event : String) (data : Option Bytes)
  | shutdown (n : Nat) (pc : ShutdownPc)
  | removeNamespace (path : String)
  | insertCheck (n : Nat)
  | insertWrite (n : Nat)
  | runtimeGet
  | runtimeStore
  | runtimeClone
  | runtimeJoin (children : List (Nat × ShutdownPc))
  | runtimeStoreStopped
  | done (result : Except Error Unit)
  | dropped
  | panicked

/-- A connection and the namespace it belongs to. -/
structure Member where
  home : Nat
  conn : Connection

/-- The server: `WsIoServerRuntime` with everything it holds. A connection is named by
the number of its upgrade request. -/
structure Runtime where
  status : Status
  connectionIds : Finset Nat
  paths : List (String × Nat)
  namespaces : Nat → Namespace
  conns : Nat → Option Member
  calls : Nat → Call

/-! ## Actions -/

/-- What a caller asks for. -/
inductive Request
  | close (n : Nat) (op : Operator)
  | disconnect (n : Nat) (op : Operator)
  | emit (n : Nat) (op : Operator) (event : String) (data : Option Bytes)
  | shutdown (n : Nat)
  | removeNamespace (path : String)
  | insertNamespace (n : Nat)
  | runtimeShutdown
  deriving DecidableEq, Repr

/-- How a shutdown or a broadcast moves on: by itself, by taking the next target (with
the caller slot its future uses), or by joining a finished task. -/
inductive CallInput
  | go
  | target (i key : Nat)
  | joined (i : Nat)
  deriving DecidableEq, Repr

inductive ServerAction
  | resolve (i : Nat) (path : String)
  | conn (i : Nat) (a : Action)
  | start (k : Nat) (r : Request)
  | call (k : Nat) (x : CallInput)
  | child (k j : Nat) (x : CallInput)
  | drop (k : Nat)

namespace Runtime

def initialNamespace : Namespace where
  status := .running
  connections := ∅
  connectionIds := ∅
  rooms := fun _ => none
  taskSet := ∅
  taskSetLocked := false
  created := false
  live := false
  closedAll := false

/-- `WsIoServerRuntime::new`. -/
def initial : Runtime where
  status := .running
  connectionIds := ∅
  paths := []
  namespaces := fun _ => initialNamespace
  conns := fun _ => none
  calls := fun _ => .idle

def setNamespace (s : Runtime) (n : Nat) (x : Namespace) : Runtime :=
  { s with namespaces := Function.update s.namespaces n x }

def setConn (s : Runtime) (i : Nat) (m : Member) : Runtime :=
  { s with conns := Function.update s.conns i (some m) }

def setCall (s : Runtime) (k : Nat) (c : Call) : Runtime :=
  { s with calls := Function.update s.calls k c }

/-! ## Registries -/

/-- An access of connection `i` to the registries of its namespace. -/
def Namespace.access (x : Namespace) (i : Nat) : RegistryOp → Namespace
  | .insert .connections => { x with connections := insert i x.connections }
  | .insert .connectionIds => { x with connectionIds := insert i x.connectionIds }
  | .remove .connections => { x with connections := x.connections.erase i }
  | .remove .connectionIds => { x with connectionIds := x.connectionIds.erase i }
  | .insert .runtimeIds | .remove .runtimeIds => x
  -- add_connection_id_to_room
  | .addToRoom room => { x with
      rooms := Function.update x.rooms room (some (insert i ((x.rooms room).getD ∅))) }
  -- remove_connection_id_from_room, its two accesses
  | .removeFromRoom room => { x with
      rooms := Function.update x.rooms room ((x.rooms room).map (·.erase i)) }
  | .dropRoomIfEmpty room => { x with
      rooms := Function.update x.rooms room ((x.rooms room).filter (· ≠ ∅)) }

/-- The runtime's `connection_ids` after an access. -/
def accessIds (ids : Finset Nat) (i : Nat) : RegistryOp → Finset Nat
  | .insert .runtimeIds => insert i ids
  | .remove .runtimeIds => ids.erase i
  | _ => ids

def access (s : Runtime) (n i : Nat) : Option RegistryOp → Runtime
  | none => s
  | some op => { s.setNamespace n (Namespace.access (s.namespaces n) i op) with
      connectionIds := accessIds s.connectionIds i op }

/-! ## Connections -/

/-- The calls that a user of a connection can make; the others come from broadcasts. -/
def publicJob : Job → Bool
  | .close | .sendDisconnect => false
  | _ => true

/-- What the namespace decides about a step of a connection: an upgrade waits for the
lock of the task set, and the status checks see the current status. -/
def permits (s : Runtime) (m : Member) : Action → Bool
  | .main .go => m.conn.main ≠ .absent || !(s.namespaces m.home).taskSetLocked
  | .main (.status running) =>
    match m.conn.main with
    | .checkRuntime => running = decide (s.status = .running)
    | .checkNamespace => running = decide ((s.namespaces m.home).status = .running)
    | _ => true
  | .start _ job => publicJob job
  | _ => true

/-- A step of connection `i` with its access to the registries. -/
def connStep (cfg : ServerConfig) (s : Runtime) (i : Nat) (a : Action) : Option Runtime :=
  match s.conns i with
  | none => none
  | some m =>
    match Connection.step (cfg.config m.home) m.conn a with
    | none => none
    | some c => some ((s.setConn i ⟨m.home, c⟩).access m.home i (Connection.effect m.conn a))

/-- `handle_on_upgrade_request` spawns the task of the request into the task set. -/
def spawn (s : Runtime) (m : Member) (i : Nat) (a : Action) : Runtime :=
  if m.conn.main = .absent ∧ a = .main .go then
    s.setNamespace m.home { s.namespaces m.home with
      taskSet := insert i (s.namespaces m.home).taskSet }
  else s

/-- The task of request `i` has ended. -/
def taskEnded (s : Runtime) (i : Nat) : Bool :=
  match s.conns i with
  | some m => m.conn.main.ended
  | none => false

/-- A started future of a broadcast has completed. -/
def callerDone (s : Runtime) (p : Nat × Nat) : Bool :=
  match s.conns p.1 with
  | some m =>
    match m.conn.callers p.2 with
    | .done _ | .dropped => true
    | _ => false
  | none => false

/-! ## Broadcasts -/

/-- The future of a target starts: `connections.get` finds the connection or not. -/
def startTarget (cfg : ServerConfig) (s : Runtime) (n i key : Nat) (job : Job)
    (active : List (Nat × Nat)) : Option (Runtime × List (Nat × Nat)) :=
  if i ∈ (s.namespaces n).connections then
    (connStep cfg s i (.start key job)).map fun s' => (s', active ++ [(i, key)])
  else some (s, active)

/-- A step of `for_each_target_connections`; the second component is `none` when it
returns. -/
def broadcastStep (cfg : ServerConfig) (s : Runtime) (n : Nat) (op : Operator) (job : Job)
    (pc : BroadcastPc) (x : CallInput) : Option (Runtime × Option BroadcastPc) :=
  match pc, x with
  | .load, .go =>
    if op.includeRooms = [] then
      some (s, some (.excludeRooms op.excludeRooms (s.namespaces n).connectionIds))
    else some (s, some (.includeRooms op.includeRooms ∅))
  | .includeRooms [] ids, .go => some (s, some (.excludeRooms op.excludeRooms ids))
  | .includeRooms (room :: rest) ids, .go =>
    some (s, some (.includeRooms rest (ids ∪ ((s.namespaces n).rooms room).getD ∅)))
  | .excludeRooms [] ids, .go =>
    some (s, some (.each (ids.filter (· ∉ op.excludeConnectionIds)) []))
  | .excludeRooms (room :: rest) ids, .go =>
    match (s.namespaces n).rooms room with
    | none => some (s, some (.excludeRooms rest ids))
    | some members =>
      -- the loop breaks when no target is left
      if ids \ members = ∅ then some (s, some (.excludeRooms [] ∅))
      else some (s, some (.excludeRooms rest (ids \ members)))
  | .each ids active, .target i key =>
    let running := (active.filter fun p => !callerDone s p).length
    let limit := cfg.broadcastConcurrencyLimit n
    if i ∈ ids ∧ (limit = 0 ∨ running < limit) then
      (startTarget cfg s n i key job active).map fun r => (r.1, some (.each (ids.erase i) r.2))
    else none
  | .each ids active, .go =>
    if ids = ∅ ∧ active.all (callerDone s) then some (s, none) else none
  | _, _ => none

/-! ## Shutdown -/

/-- A step of `WsIoServerNamespace::shutdown`; the second component is `none` when it
panics. -/
def shutdownStep (cfg : ServerConfig) (s : Runtime) (n : Nat) (pc : ShutdownPc) (x : CallInput) :
    Option (Runtime × Option ShutdownPc) :=
  let ns := s.namespaces n
  match pc, x with
  | .get, .go =>
    match ns.status with
    | .stopped => some (s, some .finished)
    | .running => some (s, some .store)
    | .stopping => some (s, none)
  | .store, .go => some (s.setNamespace n { ns with status := .stopping }, some (.closeAll .load))
  | .closeAll b, x =>
    match broadcastStep cfg s n .new .close b x with
    | none => none
    | some (s', some b') => some (s', some (.closeAll b'))
    | some (s', none) =>
      some (s'.setNamespace n { s'.namespaces n with closedAll := true }, some .lock)
  | .lock, .go =>
    if ns.taskSetLocked then none
    else some (s.setNamespace n { ns with taskSetLocked := true }, some .join)
  | .join, .joined i =>
    if i ∈ ns.taskSet ∧ taskEnded s i then
      some (s.setNamespace n { ns with taskSet := ns.taskSet.erase i }, some .join)
    else none
  | .join, .go => if ns.taskSet = ∅ then some (s, some .storeStopped) else none
  -- the lock is released as the function returns
  | .storeStopped, .go =>
    some (s.setNamespace n { ns with status := .stopped, taskSetLocked := false }, some .finished)
  | _, _ => none

/-- The future of a shutdown is gone: it releases the lock it holds. -/
def releaseLock (s : Runtime) (p : Nat × ShutdownPc) : Runtime :=
  match p.2 with
  | .join | .storeStopped =>
    s.setNamespace p.1 { s.namespaces p.1 with taskSetLocked := false }
  | _ => s

/-- The namespace shutdowns that a call runs. -/
def shutdowns : Call → List (Nat × ShutdownPc)
  | .shutdown n pc => [(n, pc)]
  | .runtimeJoin children => children
  | _ => []

/-! ## Calls -/

/-- Where a call begins; a call on a namespace needs one that is registered. -/
def entry (s : Runtime) : Request → Option Call
  | .close n op => if (s.namespaces n).live then some (.broadcast n op .close .load) else none
  | .disconnect n op =>
    if (s.namespaces n).live then some (.broadcast n op .sendDisconnect .load) else none
  | .emit n op event data => if (s.namespaces n).live then some (.emit n op event data) else none
  | .shutdown n => if (s.namespaces n).live then some (.shutdown n .get) else none
  | .removeNamespace path => some (.removeNamespace path)
  | .insertNamespace n => if (s.namespaces n).created then none else some (.insertCheck n)
  | .runtimeShutdown => some .runtimeGet

/-- A builder creates a namespace once. -/
def create (s : Runtime) : Request → Runtime
  | .insertNamespace n => s.setNamespace n { s.namespaces n with created := true }
  | _ => s

/-- A call that ran a namespace shutdown to its next point, or into its panic. -/
def afterShutdown (k n : Nat) : Runtime × Option ShutdownPc → Runtime
  | (s, some pc) => s.setCall k (.shutdown n pc)
  | (s, none) => s.setCall k .panicked

def callStep (cfg : ServerConfig) (s : Runtime) (k : Nat) (x : CallInput) : Option Runtime :=
  match s.calls k with
  | .broadcast n op job pc =>
    match broadcastStep cfg s n op job pc x with
    | none => none
    | some (s', some pc') => some (s'.setCall k (.broadcast n op job pc'))
    | some (s', none) => some (s'.setCall k (.done (.ok ())))
  | .emit n op event data =>
    match ensure (s.namespaces n).status .running
        fun st => "Cannot emit in invalid status: " ++ st.debug with
    | .error e => some (s.setCall k (.done (.error e)))
    | .ok _ =>
      match encodePacketToMessage (cfg.config n).codec (.newEvent event data) with
      | .error e => some (s.setCall k (.done (.error e)))
      | .ok _ => some (s.setCall k (.broadcast n op (.emit event data) .load))
  | .shutdown n pc => (shutdownStep cfg s n pc x).map (afterShutdown k n)
  | .removeNamespace path =>
    match s.paths.lookup path with
    | none => some (s.setCall k (.done (.ok ())))
    | some n => some ({ s with paths := s.paths.filter (·.1 ≠ path) }.setCall k (.shutdown n .get))
  -- insert_namespace: the check and the insertion take the lock one after the other
  | .insertCheck n =>
    match s.paths.lookup (cfg.path n) with
    | some _ =>
      let text := "Namespace " ++ cfg.path n ++ " already exists"
      some (s.setCall k (.done (.error (.text text))))
    | none => some (s.setCall k (.insertWrite n))
  | .insertWrite n =>
    some (({ s with paths := (cfg.path n, n) :: s.paths.filter (·.1 ≠ cfg.path n) }.setNamespace n
      { s.namespaces n with live := true }).setCall k (.done (.ok ())))
  -- WsIoServerRuntime::shutdown
  | .runtimeGet =>
    match s.status with
    | .stopped => some (s.setCall k (.done (.ok ())))
    | .running => some (s.setCall k .runtimeStore)
    | .stopping => some (s.setCall k .panicked)
  | .runtimeStore => some ({ s with status := .stopping }.setCall k .runtimeClone)
  | .runtimeClone => some (s.setCall k (.runtimeJoin (s.paths.map fun p => (p.2, .get))))
  | .runtimeJoin children =>
    if children.all fun p => match p.2 with | .finished => true | _ => false then
      some (s.setCall k .runtimeStoreStopped)
    else none
  | .runtimeStoreStopped => some ({ s with status := .stopped }.setCall k (.done (.ok ())))
  | .idle | .done _ | .dropped | .panicked => none

/-- A step of one of the namespace shutdowns that the runtime's `shutdown` joins; a panic
of one takes the whole call and its other shutdowns with it. -/
def childStep (cfg : ServerConfig) (s : Runtime) (k j : Nat) (x : CallInput) : Option Runtime :=
  match s.calls k with
  | .runtimeJoin children =>
    match children[j]? with
    | none => none
    | some (n, pc) =>
      match shutdownStep cfg s n pc x with
      | none => none
      | some (s', some pc') => some (s'.setCall k (.runtimeJoin (children.set j (n, pc'))))
      | some (s', none) => some ((children.foldl releaseLock s').setCall k .panicked)
  | _ => none

/-- The points of a call where its future can be dropped. -/
def awaits : Call → Bool
  | .broadcast _ _ _ (.each _ _) => true
  | .shutdown _ (.closeAll (.each _ _)) | .shutdown _ .lock | .shutdown _ .join => true
  | .runtimeJoin _ => true
  | _ => false

/-! ## The whole server -/

def step (cfg : ServerConfig) (s : Runtime) : ServerAction → Option Runtime
  -- dispatch_request found the namespace of the request
  | .resolve i path =>
    match s.conns i, s.paths.lookup path with
    | none, some n => some (s.setConn i ⟨n, .initial (cfg.config n)⟩)
    | _, _ => none
  | .conn i a =>
    match s.conns i with
    | none => none
    | some m => if permits s m a then (connStep cfg s i a).map fun s' => s'.spawn m i a else none
  | .start k r =>
    match s.calls k with
    | .idle => (entry s r).map ((create s r).setCall k)
    | _ => none
  | .call k x => callStep cfg s k x
  | .child k j x => childStep cfg s k j x
  | .drop k =>
    if awaits (s.calls k) then
      some (((shutdowns (s.calls k)).foldl releaseLock s).setCall k .dropped)
    else none

/-- The server under every interleaving of its connections and calls. -/
def system (cfg : ServerConfig) : System Runtime ServerAction where
  init := initial
  step := step cfg

end Runtime

end WsIo.Server
