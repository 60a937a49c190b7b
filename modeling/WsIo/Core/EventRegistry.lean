import Mathlib.Algebra.Group.Nat.Defs
import Mathlib.Data.Finset.Basic
import Mathlib.Logic.Function.Basic
import WsIo.Async.System
import WsIo.Core.Packet

/-!
# The event registry

`wsio-core/src/event/registry.rs`. An event name maps to an entry behind an `Arc`, with
the decoder and the type of the event's payload and the handlers by id. Every section
under the lock of the map is one step; `off_by_handler_id` keeps its read lock over two
accesses to the handlers and then takes the write lock. A dispatch captures the entry and
spawns a task, which decodes the payload and reads the handlers whenever it runs.

Rust's types enter through `DataTypes`: type ids, the values of a type, and
`decode_data` of the packet codec. A handler is known by the number of the `on` call that
registered it. `log` is the history of the registry, newest first.
-/

namespace WsIo.Core

open Async

/-! ## Payload types -/

/-- What the registry uses of Rust's types and of `WsIoPacketCodec::decode_data`. -/
structure DataTypes (κ : Type) where
  TypeId : Type
  decEq : DecidableEq TypeId
  Value : TypeId → Type
  unit : TypeId
  empty : Value unit
  decodeData : (t : TypeId) → κ → Bytes → Option (Value t)

instance {κ : Type} (D : DataTypes κ) : DecidableEq D.TypeId := D.decEq

/-- `Arc<dyn Any + Send + Sync>`. -/
structure AnyArc {κ : Type} (D : DataTypes κ) where
  typeId : D.TypeId
  value : D.Value typeId

section Types

variable {κ : Type} {D : DataTypes κ}

/-- `EMPTY_EVENT_DATA_ANY_ARC`. -/
def AnyArc.empty : AnyArc D := ⟨D.unit, D.empty⟩

/-- `Arc::downcast`. -/
def AnyArc.downcast (data : AnyArc D) (t : D.TypeId) : Option (D.Value t) :=
  if h : data.typeId = t then some (h ▸ data.value) else none

/-- `decode_data_as_any_arc`. -/
def decodeDataAsAnyArc (t : D.TypeId) (codec : κ) (bytes : Bytes) : Option (AnyArc D) :=
  (D.decodeData t codec bytes).map fun v => ⟨t, v⟩

end Types

/-! ## Entries and handlers -/

/-- A handler with the type of its argument; `serial` is the number of its `on` call. -/
structure EventHandler {κ : Type} (D : DataTypes κ) where
  serial : Nat
  dataTypeId : D.TypeId

/-- What the wrapper around a handler comes to. -/
inductive Invocation {κ : Type} (D : DataTypes κ)
  | skipped
  | started (data : AnyArc D)
  | panicked

/-- The wrapper that `on` puts around a handler. -/
def EventHandler.call {κ : Type} {D : DataTypes κ} (h : EventHandler D) (data : AnyArc D) :
    Invocation D :=
  if data.typeId ≠ h.dataTypeId then .skipped
  else
    match data.downcast h.dataTypeId with
    | some v => .started ⟨h.dataTypeId, v⟩
    | none => .panicked

structure EventEntry {κ : Type} (D : DataTypes κ) where
  dataDecoder : κ → Bytes → Option (AnyArc D)
  dataTypeId : D.TypeId
  handlers : List (Nat × EventHandler D)

/-- Where an `off_by_handler_id` stands after its first access. -/
inductive OffCall
  | idle
  | checking (event : String) (entry : Nat)
  | removing (event : String)
  | done
  deriving DecidableEq, Repr

/-- The task that a dispatch spawns. -/
inductive DispatchTask (κ : Type)
  | idle
  | pending (event : String) (entry : Nat) (codec : κ) (data : Option Bytes)
  | done

/-- What happened to the registry. -/
inductive RegistryEvent {κ : Type} (D : DataTypes κ)
  | registered (serial : Nat) (event : String) (t : D.TypeId)
  | refused (event : String) (t : D.TypeId)
  | off (event : String)
  | removed (event : String) (id : Nat)
  | dispatched (k : Nat) (event : String)
  | ran (k : Nat) (calls : List (Nat × Invocation D))

/-- The map of a registry with the entries behind its `Arc`s. -/
structure EventMap {κ : Type} (D : DataTypes κ) where
  eventEntries : List (String × Nat)
  entries : Nat → EventEntry D
  allocated : Nat
  nextHandlerId : Nat
  log : List (RegistryEvent D)

/-- `WsIoEventRegistry`, the calls of `off_by_handler_id` and the tasks of its dispatches.
`readers` hold the read lock of the map between two steps. -/
structure EventRegistry {κ : Type} (D : DataTypes κ) extends EventMap D where
  readers : Finset Nat
  calls : Nat → OffCall
  tasks : Nat → DispatchTask κ

/-- One section under a lock. -/
inductive EventAction {κ : Type} (D : DataTypes κ)
  | on (event : String) (t : D.TypeId)
  | off (event : String)
  | offByHandlerId (k : Nat) (event : String) (id : Nat)
  | checkEmpty (k : Nat)
  | removeEntry (k : Nat)
  | dispatch (k : Nat) (event : String) (codec : κ) (data : Option Bytes)
  | run (k : Nat)

section Registry

variable {κ : Type} {D : DataTypes κ}

/-- The action is a call of `on`. -/
def EventAction.isOn : EventAction D → Bool
  | .on _ _ => true
  | _ => false

def EventEntry.new (t : D.TypeId) : EventEntry D where
  dataDecoder := decodeDataAsAnyArc t
  dataTypeId := t
  handlers := []

/-- The task of a dispatch: decode the payload, then call the handlers. -/
def EventEntry.runTask (entry : EventEntry D) (codec : κ) (data : Option Bytes) :
    List (Nat × Invocation D) :=
  let decoded := match data with
    | some bytes => entry.dataDecoder codec bytes
    | none => some .empty
  match decoded with
  | none => []
  | some data => entry.handlers.map fun p => (p.2.serial, p.2.call data)

namespace EventMap

def new : EventMap D where
  eventEntries := []
  entries := fun _ => .new D.unit
  allocated := 0
  nextHandlerId := 0
  log := []

def note (m : EventMap D) (ev : RegistryEvent D) : EventMap D := { m with log := ev :: m.log }

def setHandlers (m : EventMap D) (e : Nat) (handlers : List (Nat × EventHandler D)) : EventMap D :=
  { m with entries := Function.update m.entries e { m.entries e with handlers := handlers } }

/-- The end of `on`: the next id (it wraps at 32 bits) and the insertion of the handler. -/
def insertHandler (m : EventMap D) (event : String) (e : Nat) (t : D.TypeId) : EventMap D :=
  let id := m.nextHandlerId % 2 ^ 32
  { m.setHandlers e ((id, ⟨m.nextHandlerId, t⟩) :: (m.entries e).handlers.filter (·.1 ≠ id)) with
    nextHandlerId := m.nextHandlerId + 1
    log := .registered m.nextHandlerId event t :: m.log }

/-- `vacant.insert`. -/
def insertEntry (m : EventMap D) (event : String) (t : D.TypeId) : EventMap D :=
  { m with
    eventEntries := (event, m.allocated) :: m.eventEntries
    entries := Function.update m.entries m.allocated (.new t)
    allocated := m.allocated + 1 }

def on (m : EventMap D) (event : String) (t : D.TypeId) : EventMap D :=
  match m.eventEntries.lookup event with
  | some e =>
    -- the assertion that an event has one payload type
    if (m.entries e).dataTypeId ≠ t then m.note (.refused event t)
    else m.insertHandler event e t
  | none => (m.insertEntry event t).insertHandler event m.allocated t

def off (m : EventMap D) (event : String) : EventMap D :=
  { m with eventEntries := m.eventEntries.filter (·.1 ≠ event) }.note (.off event)

/-- The first access of `off_by_handler_id`. -/
def removeHandler (m : EventMap D) (event : String) (id : Nat) : EventMap D :=
  match m.eventEntries.lookup event with
  | some e =>
    (m.setHandlers e ((m.entries e).handlers.filter (·.1 ≠ id))).note (.removed event id)
  | none => m.note (.removed event id)

/-- Its last: remove the entry if it is empty. -/
def removeEntry (m : EventMap D) (event : String) : EventMap D :=
  match m.eventEntries.lookup event with
  | some e =>
    if (m.entries e).handlers.isEmpty then
      { m with eventEntries := m.eventEntries.filter (·.1 ≠ event) }
    else m
  | none => m

end EventMap

namespace EventRegistry

/-- `WsIoEventRegistry::new`. -/
def new : EventRegistry D where
  toEventMap := .new
  readers := ∅
  calls := fun _ => .idle
  tasks := fun _ => .idle

def step (s : EventRegistry D) : EventAction D → Option (EventRegistry D)
  | .on event t =>
    if s.readers ≠ ∅ then none else some { s with toEventMap := s.toEventMap.on event t }
  | .off event =>
    if s.readers ≠ ∅ then none else some { s with toEventMap := s.toEventMap.off event }
  -- off_by_handler_id: remove the handler under the read lock ...
  | .offByHandlerId k event id =>
    match s.calls k with
    | .idle =>
      match s.eventEntries.lookup event with
      | some e => some { s with
          toEventMap := s.toEventMap.removeHandler event id
          calls := Function.update s.calls k (.checking event e)
          readers := insert k s.readers }
      | none => some { s with
          toEventMap := s.toEventMap.removeHandler event id
          calls := Function.update s.calls k (.removing event) }
    | _ => none
  -- ... look whether the entry is empty, still under it ...
  | .checkEmpty k =>
    match s.calls k with
    | .checking event e => some { s with
        calls := Function.update s.calls k
          (if (s.entries e).handlers.isEmpty then .removing event else .done)
        readers := s.readers.erase k }
    | _ => none
  -- ... and remove the entry, if it is empty, under the write lock
  | .removeEntry k =>
    match s.calls k with
    | .removing event =>
      if s.readers ≠ ∅ then none
      else some { s with
        toEventMap := s.toEventMap.removeEntry event
        calls := Function.update s.calls k .done }
    | _ => none
  -- dispatch_event_packet
  | .dispatch k event codec data =>
    match s.tasks k with
    | .idle =>
      match s.eventEntries.lookup event with
      | none => some { s with tasks := Function.update s.tasks k .done }
      | some e => some { s with
          toEventMap := s.toEventMap.note (.dispatched k event)
          tasks := Function.update s.tasks k (.pending event e codec data) }
    | _ => none
  | .run k =>
    match s.tasks k with
    | .pending _ e codec data => some { s with
        toEventMap := s.toEventMap.note (.ran k ((s.entries e).runTask codec data))
        tasks := Function.update s.tasks k .done }
    | _ => none

/-- A registry under every interleaving of its calls and tasks. -/
def system (D : DataTypes κ) : System (EventRegistry D) (EventAction D) where
  init := new
  step := step

end EventRegistry

end Registry

/-! ## Lookup in an association list -/

section Lookup

variable {α β : Type*} [DecidableEq α]

theorem lookup_cons_ite (l : List (α × β)) (p : α × β) (a : α) :
    (p :: l).lookup a = if a = p.1 then some p.2 else l.lookup a := by
  obtain ⟨k, b⟩ := p
  rw [List.lookup_cons]
  by_cases hp : a = k
  · rw [beq_iff_eq.mpr hp, if_pos hp]
  · rw [beq_eq_false_iff_ne.mpr hp, if_neg hp]

theorem lookup_filter (l : List (α × β)) (a a' : α) :
    (l.filter (·.1 ≠ a)).lookup a' = if a' = a then none else l.lookup a' := by
  induction l with
  | nil => simp
  | cons p l ih =>
    by_cases hp : p.1 = a
    · rw [List.filter_cons_of_neg (by simpa using hp), ih, lookup_cons_ite, hp]
      by_cases ha : a' = a <;> simp [ha]
    · rw [List.filter_cons_of_pos (by simpa using hp), lookup_cons_ite, lookup_cons_ite, ih]
      by_cases ha : a' = a
      · subst ha
        simp [Ne.symm hp]
      · simp [ha]

end Lookup

end WsIo.Core
