import WsIo.Async.RwLock
import WsIo.Core.Registrations

/-!
# The event registry, lock by lock

`EventRegistry` takes each section under a lock of the map as one step. Here every
acquisition and every release is a step of its own: the lock of `event_entries` and, for
each entry, the lock of its `handlers`. A call of `on`, `off`, `off_by_handler_id` or
`dispatch_event_packet` is a thread; the task that a dispatch spawns goes on as the thread
of the dispatch, whose own code ends with the spawn. The handlers run when the thread has
returned: `on`, `off` and the others called from a handler are further threads.

The locks are parking_lot's: a writer that waits keeps new readers out, and
`off_by_handler_id` takes the lock of the handlers twice while it reads the map.
-/

namespace WsIo.Core

open Async

/-- The lock of the map and, for each entry, the lock of its handlers. -/
inductive RegistryLock
  | eventEntries
  | handlers (e : Nat)
  deriving DecidableEq

variable {κ : Type}

inductive RegistryCall (D : DataTypes κ)
  | on (event : String) (t : D.TypeId)
  | off (event : String)
  | offByHandlerId (event : String) (id : Nat)
  | dispatch (event : String) (codec : κ) (data : Option Bytes)

/-- Where a call stands, by what it does next. `again` is whether `off_by_handler_id` goes
on to its second part. -/
inductive RegistryPc (D : DataTypes κ)
  -- on
  | onWrite (event : String) (t : D.TypeId)
  | onEntry (event : String) (t : D.TypeId)
  | onFetchAdd (event : String) (e : Nat) (t : D.TypeId)
  | onWriteHandlers (event : String) (e : Nat) (t : D.TypeId) (serial : Nat)
  | onInsert (event : String) (e : Nat) (t : D.TypeId) (serial : Nat)
  | onInserted (event : String) (e : Nat) (t : D.TypeId) (serial : Nat)
  -- off
  | offWrite (event : String)
  | offRemove (event : String)
  -- off_by_handler_id, under the read lock of the map
  | idRead (event : String) (id : Nat)
  | idGet (event : String) (id : Nat)
  | idWriteHandlers (event : String) (id e : Nat)
  | idRemove (event : String) (id e : Nat)
  | idRemoved (event : String) (e : Nat)
  | idReadHandlers (event : String) (e : Nat)
  | idIsEmpty (event : String) (e : Nat)
  | idChecked (event : String) (e : Nat) (again : Bool)
  | idDrop (event : String) (again : Bool)
  -- off_by_handler_id, under the write lock of the map
  | idWrite (event : String)
  | idEntry (event : String)
  | idEntryRead (event : String) (e : Nat)
  | idEntryIsEmpty (event : String) (e : Nat)
  | idEntryChecked (event : String) (e : Nat) (isEmpty : Bool)
  | idEntryRemove (event : String) (e : Nat)
  -- dispatch_event_packet and its task
  | dispatchRead (event : String) (codec : κ) (data : Option Bytes)
  | dispatchGet (event : String) (codec : κ) (data : Option Bytes)
  | dispatchDrop (event : String) (codec : κ) (data : Option Bytes) (entry : Option Nat)
  | taskDecode (event : String) (e : Nat) (codec : κ) (data : Option Bytes)
  | taskRead (e : Nat) (data : AnyArc D)
  | taskCollect (e : Nat) (data : AnyArc D)
  | taskCollected (e : Nat)
  -- the end of a call that has the write lock of the map
  | unlock (result : Option Nat)
  | returned (result : Option Nat)

variable {D : DataTypes κ}

/-! ## The memory -/

namespace EventMap

/-- `next_handler_id.fetch_add`. -/
def fetchAdd (m : EventMap D) : EventMap D := { m with nextHandlerId := m.nextHandlerId + 1 }

/-- The insertion of a handler in the entry that `on` has found. -/
def insertAt (m : EventMap D) (event : String) (e : Nat) (t : D.TypeId) (serial : Nat) :
    EventMap D :=
  (m.setHandlers e ((serial % 2 ^ 32, ⟨serial, t⟩) ::
    (m.entries e).handlers.filter (·.1 ≠ serial % 2 ^ 32))).note (.registered serial event t)

/-- The removal of a handler from the entry that `off_by_handler_id` has found. -/
def removeAt (m : EventMap D) (event : String) (e id : Nat) : EventMap D :=
  (m.setHandlers e ((m.entries e).handlers.filter (·.1 ≠ id))).note (.removed event id)

/-- `entry.remove()`. -/
def erase (m : EventMap D) (event : String) : EventMap D :=
  { m with eventEntries := m.eventEntries.filter (·.1 ≠ event) }

end EventMap

/-! ## The calls -/

/-- The payload that a task calls the handlers with. -/
def EventEntry.decode (entry : EventEntry D) (codec : κ) (data : Option Bytes) :
    Option (AnyArc D) :=
  match data with
  | some bytes => entry.dataDecoder codec bytes
  | none => some .empty

namespace RegistryPc

/-- Where a call starts. -/
def enter : RegistryCall D → RegistryPc D
  | .on event t => .onWrite event t
  | .off event => .offWrite event
  | .offByHandlerId event id => .idRead event id
  | .dispatch event codec data => .dispatchRead event codec data

def demand : RegistryPc D → Demand RegistryLock
  | .onWrite .. | .offWrite .. | .idWrite .. => .write .eventEntries
  | .idRead .. | .dispatchRead .. => .read .eventEntries
  | .idDrop .. | .dispatchDrop .. => .endRead .eventEntries
  | .unlock .. => .endWrite .eventEntries
  | .onWriteHandlers _ e _ _ | .idWriteHandlers _ _ e => .write (.handlers e)
  | .onInserted _ e _ _ | .idRemoved _ e => .endWrite (.handlers e)
  | .idReadHandlers _ e | .idEntryRead _ e | .taskRead e _ => .read (.handlers e)
  | .idChecked _ e _ | .idEntryChecked _ e _ | .taskCollected e => .endRead (.handlers e)
  | .onEntry .. | .onFetchAdd .. | .onInsert .. | .offRemove .. | .idGet .. | .idRemove ..
  | .idIsEmpty .. | .idEntry .. | .idEntryIsEmpty .. | .idEntryRemove .. | .dispatchGet ..
  | .taskDecode .. | .taskCollect .. => .compute
  | .returned _ => .stop

/-- Where a call goes on after a step on a lock. -/
def after : RegistryPc D → RegistryPc D
  | .onWrite event t => .onEntry event t
  | .onWriteHandlers event e t serial => .onInsert event e t serial
  | .onInserted _ _ _ serial => .unlock (some (serial % 2 ^ 32))
  | .offWrite event => .offRemove event
  | .idRead event id => .idGet event id
  | .idWriteHandlers event id e => .idRemove event id e
  | .idRemoved event e => .idReadHandlers event e
  | .idReadHandlers event e => .idIsEmpty event e
  | .idChecked event _ again => .idDrop event again
  | .idDrop event again => if again then .idWrite event else .returned none
  | .idWrite event => .idEntry event
  | .idEntryRead event e => .idEntryIsEmpty event e
  | .idEntryChecked event e isEmpty => if isEmpty then .idEntryRemove event e else .unlock none
  | .dispatchRead event codec data => .dispatchGet event codec data
  | .dispatchDrop event codec data (some e) => .taskDecode event e codec data
  | .dispatchDrop _ _ _ none => .returned none
  | .taskRead e data => .taskCollect e data
  | .taskCollected _ => .returned none
  | .unlock result => .returned result
  | pc => pc

/-- A step on the memory by thread `k`. -/
def compute (k : Nat) (m : EventMap D) : RegistryPc D → EventMap D × RegistryPc D
  | .onEntry event t =>
    match m.eventEntries.lookup event with
    | some e =>
      -- the assertion that an event has one payload type; its panic drops the guard
      if (m.entries e).dataTypeId ≠ t then (m.note (.refused event t), .unlock none)
      else (m, .onFetchAdd event e t)
    | none => (m.insertEntry event t, .onFetchAdd event m.allocated t)
  | .onFetchAdd event e t => (m.fetchAdd, .onWriteHandlers event e t m.nextHandlerId)
  | .onInsert event e t serial => (m.insertAt event e t serial, .onInserted event e t serial)
  | .offRemove event => (m.off event, .unlock none)
  | .idGet event id =>
    match m.eventEntries.lookup event with
    | some e => (m, .idWriteHandlers event id e)
    | none => (m.note (.removed event id), .idDrop event true)
  | .idRemove event id e => (m.removeAt event e id, .idRemoved event e)
  | .idIsEmpty event e => (m, .idChecked event e (m.entries e).handlers.isEmpty)
  | .idEntry event =>
    match m.eventEntries.lookup event with
    | some e => (m, .idEntryRead event e)
    | none => (m, .unlock none)
  | .idEntryIsEmpty event e => (m, .idEntryChecked event e (m.entries e).handlers.isEmpty)
  | .idEntryRemove event _ => (m.erase event, .unlock none)
  | .dispatchGet event codec data =>
    match m.eventEntries.lookup event with
    | some e => (m.note (.dispatched k event), .dispatchDrop event codec data (some e))
    | none => (m, .dispatchDrop event codec data none)
  | .taskDecode _ e codec data =>
    match (m.entries e).decode codec data with
    | some data => (m, .taskRead e data)
    | none => (m.note (.ran k []), .returned none)
  | .taskCollect e data =>
    (m.note (.ran k ((m.entries e).handlers.map fun p => (p.2.serial, p.2.call data))),
      .taskCollected e)
  | pc => (m, pc)

end RegistryPc

/-- The calls of a registry as threads. -/
def registryProgram (D : DataTypes κ) :
    LockProgram RegistryLock (EventMap D) (RegistryPc D) (RegistryCall D) where
  enter := RegistryPc.enter
  demand := RegistryPc.demand
  after := RegistryPc.after
  compute := RegistryPc.compute

/-- A registry with every acquisition and release of its locks as a step. -/
def lockedRegistry (D : DataTypes κ) :
    System (LockState RegistryLock (EventMap D) (RegistryPc D)) (LockAction (RegistryCall D)) :=
  (registryProgram D).system .new

/-! ## The locks a call holds -/

namespace RegistryPc

/-- How a call has the lock of the map. -/
def mapHold : RegistryPc D → Hold
  | .onEntry .. | .onFetchAdd .. | .onWriteHandlers .. | .onInsert .. | .onInserted ..
  | .offRemove .. | .idEntry .. | .idEntryRead .. | .idEntryIsEmpty .. | .idEntryChecked ..
  | .idEntryRemove .. | .unlock .. => .write
  | .idGet .. | .idWriteHandlers .. | .idRemove .. | .idRemoved .. | .idReadHandlers ..
  | .idIsEmpty .. | .idChecked .. | .idDrop .. | .dispatchGet .. | .dispatchDrop .. => .read
  | .onWrite .. | .offWrite .. | .idRead .. | .idWrite .. | .dispatchRead .. | .taskDecode ..
  | .taskRead .. | .taskCollect .. | .taskCollected .. | .returned .. => .free

/-- How a call has the lock of the handlers of an entry. -/
def handlersHold (e : Nat) : RegistryPc D → Hold
  | .onInsert _ e' _ _ | .onInserted _ e' _ _ | .idRemove _ _ e' | .idRemoved _ e' =>
    if e = e' then .write else .free
  | .idIsEmpty _ e' | .idChecked _ e' _ | .idEntryIsEmpty _ e' | .idEntryChecked _ e' _
  | .taskCollect e' _ | .taskCollected e' => if e = e' then .read else .free
  | _ => .free

def holds (pc : RegistryPc D) : RegistryLock → Hold
  | .eventEntries => pc.mapHold
  | .handlers e => pc.handlersHold e

/-- The lock of the map is taken before that of an entry. -/
def rank : RegistryLock → Nat
  | .eventEntries => 0
  | .handlers _ => 1

/-- The steps a call has left. -/
def work : RegistryPc D → Nat
  | .idRead .. => 16
  | .idGet .. => 15
  | .idWriteHandlers .. => 14
  | .idRemove .. => 13
  | .idRemoved .. => 12
  | .idReadHandlers .. => 11
  | .idIsEmpty .. => 10
  | .idChecked .. => 9
  | .idDrop .. => 8
  | .onWrite .. | .idWrite .. | .dispatchRead .. => 7
  | .onEntry .. | .idEntry .. | .dispatchGet .. => 6
  | .onFetchAdd .. | .idEntryRead .. | .dispatchDrop .. => 5
  | .onWriteHandlers .. | .idEntryIsEmpty .. | .taskDecode .. => 4
  | .onInsert .. | .offWrite .. | .idEntryChecked .. | .taskRead .. => 3
  | .onInserted .. | .offRemove .. | .idEntryRemove .. | .taskCollect .. => 2
  | .unlock .. | .taskCollected .. => 1
  | .returned .. => 0

theorem holds_map {p q : RegistryPc D} {h : Hold} (hmap : q.mapHold = h)
    (hhandlers : ∀ e, q.handlersHold e = p.handlersHold e) :
    q.holds = Function.update p.holds .eventEntries h := by
  funext l
  cases l with
  | eventEntries => exact hmap
  | handlers e => exact hhandlers e

theorem holds_handlers {p q : RegistryPc D} {e : Nat} {h : Hold} (hmap : q.mapHold = p.mapHold)
    (hhandlers : ∀ e', q.handlersHold e' = if e' = e then h else p.handlersHold e') :
    q.holds = Function.update p.holds (.handlers e) h := by
  funext l
  cases l with
  | eventEntries => exact hmap
  | handlers e' => simp [Function.update_apply, holds, hhandlers]

theorem holds_compute (k : Nat) (m : EventMap D) {p : RegistryPc D} (hp : p.demand = .compute) :
    (compute k m p).2.mapHold = p.mapHold ∧
      ∀ e, (compute k m p).2.handlersHold e = p.handlersHold e := by
  cases p with
  | onEntry | idGet | idEntry | dispatchGet | taskDecode =>
    simp only [compute]
    repeat' split
    all_goals exact ⟨rfl, fun _ => rfl⟩
  | onFetchAdd | onInsert | offRemove | idRemove | idIsEmpty | idEntryIsEmpty | idEntryRemove
  | taskCollect => exact ⟨rfl, fun _ => rfl⟩
  | _ => cases hp

theorem disciplined : (registryProgram D).Disciplined holds where
  enter b l := by
    cases b <;> cases l <;> rfl
  stop p l hp := by
    cases p with
    | returned => cases l <;> rfl
    | _ => cases hp
  compute k m p hp := by
    obtain ⟨hmap, hhandlers⟩ := holds_compute k m hp
    funext l
    cases l with
    | eventEntries => exact hmap
    | handlers e => exact hhandlers e
  read p l hp := by
    cases p with
    | idRead | dispatchRead =>
      cases hp
      exact ⟨rfl, holds_map rfl fun _ => rfl⟩
    | idReadHandlers | idEntryRead | taskRead =>
      cases hp
      exact ⟨rfl, holds_handlers rfl fun _ => rfl⟩
    | _ => cases hp
  write p l hp := by
    cases p with
    | onWrite | offWrite | idWrite =>
      cases hp
      exact ⟨rfl, holds_map rfl fun _ => rfl⟩
    | onWriteHandlers | idWriteHandlers =>
      cases hp
      exact ⟨rfl, holds_handlers rfl fun _ => rfl⟩
    | _ => cases hp
  endRead p l hp := by
    cases p with
    | idDrop event again =>
      cases hp
      cases again <;> exact ⟨rfl, holds_map rfl fun _ => rfl⟩
    | dispatchDrop event codec data entry =>
      cases hp
      cases entry <;> exact ⟨rfl, holds_map rfl fun _ => rfl⟩
    | idChecked event e again =>
      cases hp
      exact ⟨if_pos rfl, holds_handlers rfl fun e' => by simp [registryProgram, after, handlersHold]⟩
    | idEntryChecked event e isEmpty =>
      cases hp
      refine ⟨if_pos rfl, holds_handlers ?_ fun e' => ?_⟩
      · cases isEmpty <;> rfl
      · cases isEmpty <;> simp [registryProgram, after, handlersHold]
    | taskCollected e =>
      cases hp
      exact ⟨if_pos rfl, holds_handlers rfl fun e' => by simp [registryProgram, after, handlersHold]⟩
    | _ => cases hp
  endWrite p l hp := by
    cases p with
    | unlock =>
      cases hp
      exact ⟨rfl, holds_map rfl fun _ => rfl⟩
    | onInserted | idRemoved =>
      cases hp
      exact ⟨if_pos rfl, holds_handlers rfl fun e' => by simp [registryProgram, after, handlersHold]⟩
    | _ => cases hp

theorem ordered : (registryProgram D).Ordered holds rank 1 where
  le_top l := by
    cases l <;> simp [rank]
  lt p l l' hl hp := by
    cases p with
    | onWriteHandlers | idWriteHandlers | idReadHandlers | idEntryRead | taskRead =>
      -- what it has is the lock of the map
      cases l with
      | eventEntries =>
        rcases hp with hp | hp <;> cases hp
        exact Nat.one_pos
      | handlers e => exact absurd rfl hl
    | onWrite | offWrite | idRead | idWrite | dispatchRead => cases l <;> exact absurd rfl hl
    | _ => rcases hp with hp | hp <;> cases hp

theorem works : (registryProgram D).Works work where
  compute k m p hp := by
    cases p with
    | onEntry | idGet | idEntry | dispatchGet | taskDecode =>
      simp only [registryProgram, compute]
      repeat' split
      all_goals simp [work]
    | onFetchAdd | onInsert | offRemove | idRemove | idIsEmpty | idEntryIsEmpty | idEntryRemove
    | taskCollect => simp [registryProgram, compute, work]
    | _ => cases hp
  after p hp hp' := by
    cases p with
    | idDrop event again => cases again <;> simp [registryProgram, after, work]
    | dispatchDrop event codec data entry => cases entry <;> simp [registryProgram, after, work]
    | idEntryChecked event e isEmpty => cases isEmpty <;> simp [registryProgram, after, work]
    | returned => exact absurd rfl hp
    | onWrite | onWriteHandlers | onInserted | offWrite | idRead | idWriteHandlers | idRemoved
    | idReadHandlers | idChecked | idWrite | idEntryRead | dispatchRead | taskRead
    | taskCollected | unlock => simp [registryProgram, after, work]
    | _ => exact absurd rfl hp'

theorem work_le (pc : RegistryPc D) : pc.work ≤ 16 := by
  cases pc <;> simp [work]

end RegistryPc

namespace EventRegistry

/-- No schedule of the calls in progress is longer than 33 steps for each call, and where
none of them can go on, all have returned. -/
theorem calls_return {κ : Type} {D : DataTypes κ}
    {s s' : LockState RegistryLock (EventMap D) (RegistryPc D)}
    (h : (lockedRegistry D).Reachable s) {ts : List Nat}
    (he : (lockedRegistry D).exec s (ts.map .advance) = some s') :
    ts.length ≤ 33 * s.threads.length ∧
      ((∀ t, (lockedRegistry D).step s' (.advance t) = none) →
        ∀ th ∈ s'.threads, ∃ result, th.pc = .returned result) := by
  obtain ⟨hle, hstop⟩ :=
    LockProgram.completes RegistryPc.disciplined RegistryPc.ordered RegistryPc.works h he
  refine ⟨hle.trans (LockProgram.load_le RegistryPc.work_le), fun hstuck th hth => ?_⟩
  have hp := hstop hstuck th hth
  cases hpc : th.pc with
  | returned result => exact ⟨result, rfl⟩
  | _ =>
    rw [hpc] at hp
    cases hp

theorem calls_return_run :
    ∃ s s' : LockState RegistryLock (EventMap byteTypes) (RegistryPc byteTypes), ∃ ts : List Nat,
      (lockedRegistry byteTypes).Reachable s ∧
      (lockedRegistry byteTypes).exec s (ts.map .advance) = some s' ∧
      ts.length = 16 ∧ ts.length ≤ 33 * s.threads.length ∧
      ((∀ t, (lockedRegistry byteTypes).step s' (.advance t) = none) →
        ∀ th ∈ s'.threads, ∃ result, th.pc = .returned result) := by
  -- an `off` claims the lock of the map while `off_by_handler_id` reads the map
  obtain ⟨s, hr, hs⟩ := System.exists_reachable_of_exec (S := lockedRegistry byteTypes)
    (l := List.flatten [[.call (.on "ping" true)], List.replicate 9 (.advance 0),
      [.call (.offByHandlerId "ping" 0), .advance 1, .call (.off "ping"), .advance 2]])
    (p := fun s => ((lockedRegistry byteTypes).exec s
      ((List.replicate 9 1 ++ [2, 2, 2, 1, 1, 1, 1]).map .advance)).isSome)
    (by decide +kernel)
  obtain ⟨s', he⟩ := Option.isSome_iff_exists.mp hs
  exact ⟨s, s', _, hr, he, rfl, calls_return hr he⟩

end EventRegistry

end WsIo.Core
