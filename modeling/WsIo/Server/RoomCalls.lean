import WsIo.Server.Rooms

/-!
# Joining, leaving and cleaning up, one call at a time

`join`, `leave` and the part of `cleanup` that leaves the rooms as functions on a namespace
and the `joined_rooms` of its connections, for calls that do not overlap. `cleanup` walks the
`joined_rooms` of its own connection only; `cleanup_leaves_rooms` says that this takes the id
out of the whole room map and does nothing else. `join_run`, `leave_run` and `cleanup_run`: the
functions are what the steps of the server do when a call runs alone.
-/

namespace WsIo.Server

open Async Core

namespace Namespace

def addConnectionIdToRoom (x : Namespace) (room : String) (id : Nat) : Namespace :=
  Runtime.Namespace.access x id (.addToRoom room)

def removeConnectionIdFromRoom (x : Namespace) (room : String) (id : Nat) : Namespace :=
  Runtime.Namespace.access (Runtime.Namespace.access x id (.removeFromRoom room)) id
    (.dropRoomIfEmpty room)

/-- `remove_connection`; its access to the runtime's `connection_ids` is not one to the
namespace. -/
def removeConnection (x : Namespace) (id : Nat) : Namespace :=
  Runtime.Namespace.access (Runtime.Namespace.access x id (.remove .connections)) id
    (.remove .connectionIds)

/-- The loop of `cleanup` over its snapshot of `joined_rooms`. -/
def leaveRooms (x : Namespace) (rooms : List String) (id : Nat) : Namespace :=
  rooms.foldl (fun x room => x.removeConnectionIdFromRoom room id) x

/-! ## The rooms after a call -/

variable {x : Namespace} {room : String} {id : Nat}

theorem addConnectionIdToRoom_rooms (r : String) :
    (x.addConnectionIdToRoom room id).rooms r =
      if r = room then some (insert id (x.members room)) else x.rooms r := by
  simp only [addConnectionIdToRoom, Runtime.Namespace.access, Function.update_apply]
  rfl

theorem removeConnectionIdFromRoom_rooms (r : String) :
    (x.removeConnectionIdFromRoom room id).rooms r =
      if r = room then ((x.rooms r).map (·.erase id)).filter (· ≠ ∅) else x.rooms r := by
  simp only [removeConnectionIdFromRoom, Runtime.Namespace.access, Function.update_apply]
  split
  · rename_i hr
    rw [hr, if_pos trivial]
  · rfl

/-- A room is left the same way however often it is in the list. -/
theorem leaveRooms_rooms (rooms : List String) (r : String) :
    (x.leaveRooms rooms id).rooms r =
      if r ∈ rooms then ((x.rooms r).map (·.erase id)).filter (· ≠ ∅) else x.rooms r := by
  induction rooms generalizing x with
  | nil => rfl
  | cons room rooms ih =>
    change ((x.removeConnectionIdFromRoom room id).leaveRooms rooms id).rooms r = _
    rw [ih, removeConnectionIdFromRoom_rooms]
    by_cases hr : r = room
    · rw [if_pos hr, if_pos (List.mem_cons.mpr (.inl hr))]
      split
      · cases x.rooms r with
        | none => rfl
        | some ids =>
          by_cases he : ids.erase id = ∅
          · simp [Option.filter, he]
          · simp [Option.filter, he]
      · rfl
    · rw [if_neg hr]
      simp only [List.mem_cons, hr, false_or]

/-- The loop touches nothing but the rooms. -/
theorem leaveRooms_eq (rooms : List String) :
    x.leaveRooms rooms id = { x with rooms := (x.leaveRooms rooms id).rooms } := by
  induction rooms generalizing x with
  | nil => rfl
  | cons room rooms ih => exact ih

/-- A room map without an id: a room that the id was alone in is gone. -/
def withoutId (rooms : String → Option (Finset Nat)) (id : Nat) (room : String) :
    Option (Finset Nat) :=
  (rooms room).bind fun ids => if ids = {id} then none else some (ids.erase id)

theorem mem_left (o : Option (Finset Nat)) (j : Nat) :
    j ∈ ((o.map (·.erase id)).filter (· ≠ ∅)).getD ∅ ↔ j ≠ id ∧ j ∈ o.getD ∅ := by
  cases o with
  | none => simp
  | some ids =>
    by_cases he : ids.erase id = ∅
    · have hnone : j ∉ ids.erase id := by
        rw [he]
        exact Finset.notMem_empty j
      rw [Finset.mem_erase] at hnone
      simpa [Option.filter, he] using hnone
    · simp [Option.filter, he]

theorem left_eq_withoutId {rooms : String → Option (Finset Nat)} (h : rooms room ≠ some ∅) :
    ((rooms room).map (·.erase id)).filter (· ≠ ∅) = withoutId rooms id room := by
  unfold withoutId
  cases ho : rooms room with
  | none => rfl
  | some ids =>
    have hne : ids ≠ ∅ := by
      rintro rfl
      exact h ho
    have hiff : ids.erase id = ∅ ↔ ids = {id} := by
      rw [Finset.erase_eq_empty_iff, or_iff_right hne]
    by_cases hid : ids = {id}
    · simp [Option.filter, hid]
    · simp [Option.filter, hiff, hid]

/-- The id is in no room that it has not joined, so such a room stays as it is. -/
theorem withoutId_of_notMem {rooms : String → Option (Finset Nat)}
    (h : id ∉ (rooms room).getD ∅) : withoutId rooms id room = rooms room := by
  unfold withoutId
  cases ho : rooms room with
  | none => rfl
  | some ids =>
    rw [ho, Option.getD_some] at h
    have hid : ids ≠ {id} := by
      rintro rfl
      exact h (Finset.mem_singleton_self id)
    rw [Option.bind_some, if_neg hid, Finset.erase_eq_of_notMem h]

end Namespace

/-! ## Calls -/

/-- A namespace with the `joined_rooms` of its connections, by their ids. -/
structure Occupancy where
  ns : Namespace
  joinedRooms : Nat → List String

/-- A complete call on the connection with an id. -/
inductive RoomCall
  | join (id : Nat) (rooms : List String)
  | leave (id : Nat) (rooms : List String)
  | cleanup (id : Nat)
  deriving DecidableEq, Repr

namespace Occupancy

/-- The body of the loop of `join`. -/
def joinRoom (s : Occupancy) (id : Nat) (room : String) : Occupancy where
  ns := s.ns.addConnectionIdToRoom room id
  joinedRooms := Function.update s.joinedRooms id ((s.joinedRooms id).insert room)

/-- The body of the loop of `leave`. -/
def leaveRoom (s : Occupancy) (id : Nat) (room : String) : Occupancy where
  ns := s.ns.removeConnectionIdFromRoom room id
  joinedRooms := Function.update s.joinedRooms id ((s.joinedRooms id).erase room)

def join (s : Occupancy) (id : Nat) (rooms : List String) : Occupancy :=
  rooms.foldl (fun s room => s.joinRoom id room) s

def leave (s : Occupancy) (id : Nat) (rooms : List String) : Occupancy :=
  rooms.foldl (fun s room => s.leaveRoom id room) s

/-- What `cleanup` does to the namespace and to `joined_rooms`. -/
def cleanup (s : Occupancy) (id : Nat) : Occupancy where
  ns := (s.ns.removeConnection id).leaveRooms (s.joinedRooms id) id
  joinedRooms := Function.update s.joinedRooms id []

def call (s : Occupancy) : RoomCall → Occupancy
  | .join id rooms => s.join id rooms
  | .leave id rooms => s.leave id rooms
  | .cleanup id => s.cleanup id

/-- A namespace under calls that do not overlap. -/
def system : System Occupancy RoomCall where
  init := ⟨Runtime.initialNamespace, fun _ => []⟩
  step s c := some (s.call c)

/-! ## The invariant -/

/-- The rooms of the map are those that the connections have joined, and none is empty. -/
structure Mirrored (s : Occupancy) : Prop where
  members : ∀ id room, id ∈ s.ns.members room ↔ room ∈ s.joinedRooms id
  nonempty : ∀ room, s.ns.rooms room ≠ some ∅
  nodup : ∀ id, (s.joinedRooms id).Nodup

variable {s : Occupancy}

theorem Mirrored.joinRoom (h : Mirrored s) (id : Nat) (room : String) :
    Mirrored (s.joinRoom id room) where
  members j r := by
    have hprev := h.members j r
    unfold Namespace.members at hprev ⊢
    simp only [Occupancy.joinRoom, Namespace.addConnectionIdToRoom_rooms, Function.update_apply]
    by_cases hr : r = room
    · subst hr
      rw [if_pos rfl, Option.getD_some, Finset.mem_insert, h.members]
      by_cases hj : j = id
      · simp [hj]
      · simp [hj]
    · rw [if_neg hr, hprev]
      by_cases hj : j = id
      · simp [hj, hr]
      · rw [if_neg hj]
  nonempty r := by
    simp only [Occupancy.joinRoom, Namespace.addConnectionIdToRoom_rooms]
    split
    · simp
    · exact h.nonempty r
  nodup j := by
    simp only [Occupancy.joinRoom, Function.update_apply]
    split
    · exact (h.nodup id).insert
    · exact h.nodup j

theorem Mirrored.leaveRoom (h : Mirrored s) (id : Nat) (room : String) :
    Mirrored (s.leaveRoom id room) where
  members j r := by
    have hprev := h.members j r
    unfold Namespace.members at hprev ⊢
    simp only [Occupancy.leaveRoom, Namespace.removeConnectionIdFromRoom_rooms,
      Function.update_apply]
    by_cases hj : j = id
    · rw [if_pos hj, (h.nodup id).mem_erase_iff]
      rw [hj] at hprev ⊢
      by_cases hr : r = room
      · rw [if_pos hr, Namespace.mem_left]
        simp [hr]
      · rw [if_neg hr, hprev]
        simp [hr]
    · rw [if_neg hj, ← hprev]
      split
      · rw [Namespace.mem_left]
        simp [hj]
      · rfl
  nonempty r := by
    simp only [Occupancy.leaveRoom, Namespace.removeConnectionIdFromRoom_rooms]
    split
    · intro he
      simpa using (Option.filter_eq_some_iff.mp he).2
    · exact h.nonempty r
  nodup j := by
    simp only [Occupancy.leaveRoom, Function.update_apply]
    split
    · exact (h.nodup id).erase room
    · exact h.nodup j

theorem removeConnection_rooms (x : Namespace) (id : Nat) :
    (x.removeConnection id).rooms = x.rooms := rfl

/-- The rooms after `cleanup`: the walk over `joined_rooms` reaches every room of the id. -/
theorem Mirrored.cleanup_rooms (h : Mirrored s) (id : Nat) :
    (s.cleanup id).ns.rooms = Namespace.withoutId s.ns.rooms id := by
  funext room
  simp only [Occupancy.cleanup, Namespace.leaveRooms_rooms, removeConnection_rooms]
  split
  · exact Namespace.left_eq_withoutId (h.nonempty room)
  · rename_i hroom
    rw [← h.members] at hroom
    exact (Namespace.withoutId_of_notMem hroom).symm

theorem mem_withoutId {rooms : String → Option (Finset Nat)} {id j : Nat} {room : String}
    (hne : rooms room ≠ some ∅) :
    j ∈ (Namespace.withoutId rooms id room).getD ∅ ↔ j ≠ id ∧ j ∈ (rooms room).getD ∅ := by
  rw [← Namespace.left_eq_withoutId hne, Namespace.mem_left]

theorem Mirrored.cleanup (h : Mirrored s) (id : Nat) : Mirrored (s.cleanup id) where
  members j room := by
    have hprev := h.members j room
    unfold Namespace.members at hprev ⊢
    rw [h.cleanup_rooms, mem_withoutId (h.nonempty room), hprev]
    simp only [Occupancy.cleanup, Function.update_apply]
    by_cases hj : j = id
    · simp [hj]
    · simp [hj]
  nonempty room := by
    rw [h.cleanup_rooms]
    unfold Namespace.withoutId
    intro he
    obtain ⟨ids, ho, hids⟩ := Option.bind_eq_some_iff.mp he
    split at hids
    · cases hids
    · rename_i hid
      rcases Finset.erase_eq_empty_iff _ _ |>.mp (Option.some.inj hids) with rfl | hids
      · exact h.nonempty room ho
      · exact hid hids
  nodup j := by
    simp only [Occupancy.cleanup, Function.update_apply]
    split
    · exact List.nodup_nil
    · exact h.nodup j

theorem Mirrored.call (h : Mirrored s) (c : RoomCall) : Mirrored (s.call c) := by
  cases c with
  | join id rooms =>
    change Mirrored (rooms.foldl (fun s room => s.joinRoom id room) s)
    induction rooms generalizing s with
    | nil => exact h
    | cons room rooms ih => exact ih (h.joinRoom id room)
  | leave id rooms =>
    change Mirrored (rooms.foldl (fun s room => s.leaveRoom id room) s)
    induction rooms generalizing s with
    | nil => exact h
    | cons room rooms ih => exact ih (h.leaveRoom id room)
  | cleanup id => exact h.cleanup id

theorem mirrored_of_reachable (h : system.Reachable s) : Mirrored s := by
  refine h.invariant (I := Mirrored) ?_ ?_
  · refine ⟨fun id room => ?_, fun room => ?_, fun id => List.nodup_nil⟩
    · simp [system, Runtime.initialNamespace, Namespace.members]
    · simp [system, Runtime.initialNamespace]
  · intro s c s' _ hs hi
    cases hs
    exact hi.call c

/-- **What `cleanup` does to the rooms.** After any complete calls on any connections, it takes
the id out of every room and deletes the rooms that become empty by that; it takes the id out
of the two registries and empties its own `joined_rooms`; and nothing else changes. -/
theorem cleanup_leaves_rooms (h : system.Reachable s) (id : Nat) :
    (s.cleanup id).ns = { s.ns with
      connections := s.ns.connections.erase id
      connectionIds := s.ns.connectionIds.erase id
      rooms := Namespace.withoutId s.ns.rooms id } ∧
    (s.cleanup id).joinedRooms id = [] ∧
    ∀ j, j ≠ id → (s.cleanup id).joinedRooms j = s.joinedRooms j ∧
      ∀ room, j ∈ (s.cleanup id).ns.members room ↔ j ∈ s.ns.members room := by
  have hm := mirrored_of_reachable h
  have hrooms := hm.cleanup_rooms id
  refine ⟨?_, ?_, fun j hj => ⟨?_, fun room => ?_⟩⟩
  · have heq : (s.cleanup id).ns = { s.ns.removeConnection id with
        rooms := (s.cleanup id).ns.rooms } := Namespace.leaveRooms_eq _
    rw [heq, hrooms]
    rfl
  · exact Function.update_self ..
  · exact Function.update_of_ne hj ..
  · unfold Namespace.members
    rw [hrooms, mem_withoutId (hm.nonempty room)]
    exact and_iff_right hj

/-- The first of two connections is cleaned up: the room it was alone in is gone. -/
theorem cleanup_leaves_rooms_sample : ∃ s, system.Reachable s ∧
    (s.ns.rooms "a" = some {1} ∧ s.ns.rooms "b" = some {1, 2}) ∧
    (s.cleanup 1).ns.rooms "a" = none ∧ (s.cleanup 1).ns.rooms "b" = some {2} ∧
    (s.cleanup 1).joinedRooms 1 = [] ∧ (s.cleanup 1).joinedRooms 2 = s.joinedRooms 2 := by
  obtain ⟨s, hr, hs⟩ := System.exists_reachable_of_exec (S := system)
    (l := [.join 1 ["a", "b", "a"], .join 2 ["b", "c"], .leave 2 ["c", "a"]])
    (p := fun s => decide (s.ns.rooms "a" = some {1} ∧ s.ns.rooms "b" = some {1, 2}))
    (by decide +kernel)
  obtain ⟨ha, hb⟩ := of_decide_eq_true hs
  obtain ⟨hns, hself, hother⟩ := cleanup_leaves_rooms hr 1
  refine ⟨s, hr, ⟨ha, hb⟩, ?_, ?_, hself, (hother 2 (by decide)).1⟩
  · rw [hns]
    simp [Namespace.withoutId, ha]
  · rw [hns]
    simp only [Namespace.withoutId, hb]
    decide

end Occupancy

/-! ## Calls as runs of the server -/

namespace Runtime

variable {cfg : ServerConfig} {s s' : Runtime}

/-- The namespace with what its connections have joined. -/
def occupancy (s : Runtime) (n : Nat) : Occupancy where
  ns := s.namespaces n
  joinedRooms i := (s.conns i).elim [] fun m => if m.home = n then m.conn.joinedRooms else []

/-- The namespace after an access, if there is one. -/
def accessed (x : Namespace) (i : Nat) : Option RegistryOp → Namespace
  | none => x
  | some op => Namespace.access x i op

theorem joinedRooms_occupancy {i n : Nat} {c : Connection} (hi : s.conns i = some ⟨n, c⟩) :
    (occupancy s n).joinedRooms i = c.joinedRooms := by
  simp [occupancy, hi]

/-- A step of one connection that spawns nothing, on the rooms. -/
theorem step_occupancy {i n : Nat} {a : Action} {c c' : Connection}
    (hi : s.conns i = some ⟨n, c⟩) (hp : permits s ⟨n, c⟩ a = true) (hmain : c.main ≠ .absent)
    (hc : Connection.step (cfg.config n) c a = some c') :
    ∃ s', step cfg s (.conn i a) = some s' ∧ s'.conns i = some ⟨n, c'⟩ ∧
      occupancy s' n = ⟨accessed (occupancy s n).ns i (Connection.effect c a),
        Function.update (occupancy s n).joinedRooms i c'.joinedRooms⟩ := by
  refine ⟨(s.setConn i ⟨n, c'⟩).access n i (Connection.effect c a), ?_, ?_, ?_⟩
  · simp [step, hi, hp, connStep, hc, spawn, hmain]
  · rw [access_conns, setConn_conns, if_pos rfl]
  · unfold occupancy
    congr 1
    · cases Connection.effect c a with
      | none => rfl
      | some op => simp [access, accessed, setNamespace_namespaces]
    · funext j
      rw [access_conns, setConn_conns, Function.update_apply]
      split
      · simp
      · rfl

/-- A step that makes no access and keeps `joined_rooms`. -/
theorem step_occupancy_rest {i n : Nat} {a : Action} {c c' : Connection}
    (hi : s.conns i = some ⟨n, c⟩) (hp : permits s ⟨n, c⟩ a = true) (hmain : c.main ≠ .absent)
    (hc : Connection.step (cfg.config n) c a = some c') (he : Connection.effect c a = none)
    (hj : c'.joinedRooms = c.joinedRooms) :
    ∃ s', step cfg s (.conn i a) = some s' ∧ s'.conns i = some ⟨n, c'⟩ ∧
      occupancy s' n = occupancy s n := by
  obtain ⟨s', hs, hi', ho⟩ := step_occupancy hi hp hmain hc
  refine ⟨s', hs, hi', ?_⟩
  rw [ho, he, hj, ← joinedRooms_occupancy hi, Function.update_eq_self]
  rfl

theorem exec_cons {a : ServerAction} {l : List ServerAction} (h : step cfg s a = some s') :
    (system cfg).exec s (a :: l) = (system cfg).exec s' l := by
  change (step cfg s a).bind (fun s' => (system cfg).exec s' l) = _
  rw [h]
  rfl

/-! ### join and leave -/

/-- The loop has no room left. -/
theorem call_returns {i k n : Nat} {c : Connection} (hi : s.conns i = some ⟨n, c⟩)
    (hmain : c.main ≠ .absent) (hk : c.callers k = .join [] ∨ c.callers k = .leave []) :
    ∃ s', step cfg s (.conn i (.caller k)) = some s' ∧ occupancy s' n = occupancy s n := by
  have hdone : Connection.step (cfg.config n) c (.caller k) =
      some (c.setCaller k (.done (.ok ()))) := by
    rcases hk with hk | hk <;> simp [Connection.step, Connection.callerStep, hk]
  have hnone : Connection.effect c (.caller k) = none := by
    rcases hk with hk | hk <;> simp [Connection.effect, hk]
  obtain ⟨s', h, -, ho⟩ := step_occupancy_rest hi rfl hmain hdone hnone rfl
  exact ⟨s', h, ho⟩

/-- The loop of `join`: two accesses a room. -/
theorem join_loop {i k n : Nat} (rooms : List String) {c : Connection}
    (hi : s.conns i = some ⟨n, c⟩) (hk : c.callers k = .join rooms) (hmain : c.main ≠ .absent) :
    ∃ s', (system cfg).exec s (List.replicate (2 * rooms.length + 1) (.conn i (.caller k))) =
        some s' ∧ occupancy s' n = (occupancy s n).join i rooms := by
  induction rooms generalizing s c with
  | nil =>
    obtain ⟨s₁, h₁, ho₁⟩ := call_returns hi hmain (.inl hk)
    exact ⟨s₁, exec_cons h₁, ho₁⟩
  | cons room rooms ih =>
    let c₁ := c.setCaller k (.joinInsert room rooms)
    let c₂ := { c₁ with joinedRooms := c₁.joinedRooms.insert room }.setCaller k (.join rooms)
    have hadd : Connection.step (cfg.config n) c (.caller k) = some c₁ := by
      simp [Connection.step, Connection.callerStep, hk, c₁]
    have hinsert : Connection.step (cfg.config n) c₁ (.caller k) = some c₂ := by
      simp [Connection.step, Connection.callerStep, c₁, c₂, Connection.setCaller]
    obtain ⟨s₁, h₁, hi₁, ho₁⟩ := step_occupancy hi rfl hmain hadd
    obtain ⟨s₂, h₂, hi₂, ho₂⟩ := step_occupancy hi₁ rfl hmain hinsert
    obtain ⟨s', hexec, ho'⟩ := ih hi₂ (by simp [c₂, Connection.setCaller]) hmain
    refine ⟨s', ?_, ?_⟩
    · rw [List.length_cons, show 2 * (rooms.length + 1) + 1 = 2 * rooms.length + 1 + 1 + 1 by omega,
        List.replicate_succ, List.replicate_succ, exec_cons h₁, exec_cons h₂]
      exact hexec
    · have hroom : occupancy s₂ n = (occupancy s n).joinRoom i room := by
        have he : Connection.effect c (.caller k) = some (.addToRoom room) := by
          simp [Connection.effect, hk]
        have he₁ : Connection.effect c₁ (.caller k) = none := by
          simp [Connection.effect, c₁, Connection.setCaller]
        have hjoined : c₂.joinedRooms = ((occupancy s n).joinedRooms i).insert room := by
          rw [joinedRooms_occupancy hi]
          rfl
        rw [ho₂, ho₁, he, he₁, hjoined, Function.update_idem]
        rfl
      rw [ho', hroom]
      rfl

/-- The loop of `leave`: three accesses a room. -/
theorem leave_loop {i k n : Nat} (rooms : List String) {c : Connection}
    (hi : s.conns i = some ⟨n, c⟩) (hk : c.callers k = .leave rooms) (hmain : c.main ≠ .absent) :
    ∃ s', (system cfg).exec s (List.replicate (3 * rooms.length + 1) (.conn i (.caller k))) =
        some s' ∧ occupancy s' n = (occupancy s n).leave i rooms := by
  induction rooms generalizing s c with
  | nil =>
    obtain ⟨s₁, h₁, ho₁⟩ := call_returns hi hmain (.inr hk)
    exact ⟨s₁, exec_cons h₁, ho₁⟩
  | cons room rooms ih =>
    let c₁ := c.setCaller k (.leaveDrop room rooms)
    let c₂ := c₁.setCaller k (.leaveRemove room rooms)
    let c₃ := { c₂ with joinedRooms := c₂.joinedRooms.erase room }.setCaller k (.leave rooms)
    have hremove : Connection.step (cfg.config n) c (.caller k) = some c₁ := by
      simp [Connection.step, Connection.callerStep, hk, c₁]
    have hdrop : Connection.step (cfg.config n) c₁ (.caller k) = some c₂ := by
      simp [Connection.step, Connection.callerStep, c₁, c₂, Connection.setCaller]
    have herase : Connection.step (cfg.config n) c₂ (.caller k) = some c₃ := by
      simp [Connection.step, Connection.callerStep, c₂, c₃, Connection.setCaller]
    obtain ⟨s₁, h₁, hi₁, ho₁⟩ := step_occupancy hi rfl hmain hremove
    obtain ⟨s₂, h₂, hi₂, ho₂⟩ := step_occupancy hi₁ rfl hmain hdrop
    obtain ⟨s₃, h₃, hi₃, ho₃⟩ := step_occupancy hi₂ rfl hmain herase
    obtain ⟨s', hexec, ho'⟩ := ih hi₃ (by simp [c₃, Connection.setCaller]) hmain
    refine ⟨s', ?_, ?_⟩
    · rw [List.length_cons,
        show 3 * (rooms.length + 1) + 1 = 3 * rooms.length + 1 + 1 + 1 + 1 by omega,
        List.replicate_succ, List.replicate_succ, List.replicate_succ, exec_cons h₁, exec_cons h₂,
        exec_cons h₃]
      exact hexec
    · have hroom : occupancy s₃ n = (occupancy s n).leaveRoom i room := by
        have he : Connection.effect c (.caller k) = some (.removeFromRoom room) := by
          simp [Connection.effect, hk]
        have he₁ : Connection.effect c₁ (.caller k) = some (.dropRoomIfEmpty room) := by
          simp [Connection.effect, c₁, Connection.setCaller]
        have he₂ : Connection.effect c₂ (.caller k) = none := by
          simp [Connection.effect, c₂, Connection.setCaller]
        have hjoined : c₃.joinedRooms = ((occupancy s n).joinedRooms i).erase room := by
          rw [joinedRooms_occupancy hi]
          rfl
        rw [ho₃, ho₂, ho₁, he, he₁, he₂, hjoined, Function.update_idem, Function.update_idem]
        rfl
      rw [ho', hroom]
      rfl

theorem ne_absent_of_created {c : Connection} (h : c.main.created = true) : c.main ≠ .absent := by
  intro habs
  rw [habs] at h
  cases h

/-- A call begins on a connection that exists, in a free slot. -/
theorem start_occupancy {i k n : Nat} {job : Job} {c : Connection} (hi : s.conns i = some ⟨n, c⟩)
    (hk : c.callers k = .idle) (hcreated : c.main.created = true) (hjob : publicJob job = true) :
    ∃ s₁, step cfg s (.conn i (.start k job)) = some s₁ ∧
      s₁.conns i = some ⟨n, c.setCaller k (Connection.entry (cfg.config n) job)⟩ ∧
      occupancy s₁ n = occupancy s n := by
  apply step_occupancy_rest hi
  · exact hjob
  · exact ne_absent_of_created hcreated
  · simp [Connection.step, hk, hcreated]
  · rfl
  · rfl

/-- What a call does that runs alone, from what it does after its first step. -/
theorem call_run (job : Job) (f : Occupancy → Occupancy) {i k n : Nat} {c : Connection}
    {l : List ServerAction} (hi : s.conns i = some ⟨n, c⟩) (hk : c.callers k = .idle)
    (hcreated : c.main.created = true) (hjob : publicJob job = true)
    (hrest : ∀ s₁ : Runtime,
      s₁.conns i = some ⟨n, c.setCaller k (Connection.entry (cfg.config n) job)⟩ →
        ∃ s', (system cfg).exec s₁ l = some s' ∧ occupancy s' n = f (occupancy s₁ n)) :
    ∃ s', (system cfg).exec s (.conn i (.start k job) :: l) = some s' ∧
      occupancy s' n = f (occupancy s n) := by
  obtain ⟨s₁, h₁, hi₁, ho₁⟩ := start_occupancy hi hk hcreated hjob
  obtain ⟨s', hexec, ho'⟩ := hrest s₁ hi₁
  refine ⟨s', ?_, ?_⟩
  · rw [exec_cons h₁]
    exact hexec
  · rw [ho', ho₁]

/-- A call of `join` that runs alone. -/
theorem join_run {i k n : Nat} (rooms : List String) {c : Connection}
    (hi : s.conns i = some ⟨n, c⟩) (hk : c.callers k = .idle) (hcreated : c.main.created = true) :
    ∃ s', (system cfg).exec s (.conn i (.start k (.join rooms)) ::
        List.replicate (2 * rooms.length + 1) (.conn i (.caller k))) = some s' ∧
      occupancy s' n = (occupancy s n).join i rooms := by
  refine call_run (.join rooms) (·.join i rooms) hi hk hcreated rfl fun s₁ hi₁ => ?_
  exact join_loop rooms hi₁ (by simp [Connection.setCaller, Connection.entry])
    (ne_absent_of_created hcreated)

/-- A call of `leave` that runs alone. -/
theorem leave_run {i k n : Nat} (rooms : List String) {c : Connection}
    (hi : s.conns i = some ⟨n, c⟩) (hk : c.callers k = .idle) (hcreated : c.main.created = true) :
    ∃ s', (system cfg).exec s (.conn i (.start k (.leave rooms)) ::
        List.replicate (3 * rooms.length + 1) (.conn i (.caller k))) = some s' ∧
      occupancy s' n = (occupancy s n).leave i rooms := by
  refine call_run (.leave rooms) (·.leave i rooms) hi hk hcreated rfl fun s₁ hi₁ => ?_
  exact leave_loop rooms hi₁ (by simp [Connection.setCaller, Connection.entry])
    (ne_absent_of_created hcreated)

/-! ### cleanup -/

/-- A step of the main task, after its first. -/
theorem main_occupancy {i n : Nat} {c c' : Connection} (hi : s.conns i = some ⟨n, c⟩)
    (hmain : c.main ≠ .absent) (hc : Connection.mainGo (cfg.config n) c = some c') :
    ∃ s', step cfg s (.conn i (.main .go)) = some s' ∧ s'.conns i = some ⟨n, c'⟩ ∧
      occupancy s' n = ⟨accessed (occupancy s n).ns i (Connection.effect c (.main .go)),
        Function.update (occupancy s n).joinedRooms i c'.joinedRooms⟩ :=
  step_occupancy hi (by simp [permits, hmain]) hmain hc

theorem main_occupancy_rest {i n : Nat} {c c' : Connection} (hi : s.conns i = some ⟨n, c⟩)
    (hmain : c.main ≠ .absent) (hc : Connection.mainGo (cfg.config n) c = some c')
    (he : Connection.effect c (.main .go) = none) (hj : c'.joinedRooms = c.joinedRooms) :
    ∃ s', step cfg s (.conn i (.main .go)) = some s' ∧ s'.conns i = some ⟨n, c'⟩ ∧
      occupancy s' n = occupancy s n :=
  step_occupancy_rest hi (by simp [permits, hmain]) hmain hc he hj

/-- The loop of `cleanup`: two accesses a room. -/
theorem leaveRooms_loop {i n : Nat} (rooms : List String) {c : Connection}
    (hi : s.conns i = some ⟨n, c⟩) (hmain : c.main = .leaveRooms rooms) :
    ∃ s', (system cfg).exec s (List.replicate (2 * rooms.length) (.conn i (.main .go))) = some s' ∧
      s'.conns i = some ⟨n, { c with main := .leaveRooms [] }⟩ ∧
      occupancy s' n = ⟨(occupancy s n).ns.leaveRooms rooms i, (occupancy s n).joinedRooms⟩ := by
  induction rooms generalizing s c with
  | nil =>
    refine ⟨s, rfl, ?_, rfl⟩
    rw [hi, ← hmain]
  | cons room rooms ih =>
    let c₁ := { c with main := .dropRoom room rooms }
    let c₂ := { c with main := .leaveRooms rooms }
    have hremove : Connection.mainGo (cfg.config n) c = some c₁ := by
      simp [Connection.mainGo, hmain, c₁]
    obtain ⟨s₁, h₁, hi₁, ho₁⟩ := main_occupancy hi (by simp [hmain]) hremove
    obtain ⟨s₂, h₂, hi₂, ho₂⟩ := @main_occupancy cfg s₁ i n c₁ c₂ hi₁ (by simp [c₁]) rfl
    obtain ⟨s', hexec, hi', ho'⟩ := ih hi₂ rfl
    refine ⟨s', ?_, hi', ?_⟩
    · rw [List.length_cons, show 2 * (rooms.length + 1) = 2 * rooms.length + 1 + 1 by omega,
        List.replicate_succ, List.replicate_succ, exec_cons h₁, exec_cons h₂]
      exact hexec
    · have he : Connection.effect c (.main .go) = some (.removeFromRoom room) := by
        simp [Connection.effect, hmain]
      have he₁ : Connection.effect c₁ (.main .go) = some (.dropRoomIfEmpty room) := rfl
      have hjoined : c.joinedRooms = (occupancy s n).joinedRooms i := (joinedRooms_occupancy hi).symm
      have hroom : occupancy s₂ n =
          ⟨(occupancy s n).ns.removeConnectionIdFromRoom room i, (occupancy s n).joinedRooms⟩ := by
        rw [ho₂, ho₁, he, he₁]
        change Occupancy.mk _ (Function.update (Function.update _ i c.joinedRooms) i c.joinedRooms) = _
        rw [Function.update_idem, hjoined, Function.update_eq_self]
        rfl
      rw [ho', hroom]
      rfl

/-- `cleanup` up to its snapshot: the connection leaves the registries. -/
theorem cleanup_head {i n : Nat} {c : Connection} (hi : s.conns i = some ⟨n, c⟩)
    (hmain : c.main = .cleanupStore) :
    ∃ s' c', (system cfg).exec s (List.replicate 5 (.conn i (.main .go))) = some s' ∧
      s'.conns i = some ⟨n, c'⟩ ∧ c'.main = .leaveRooms c.joinedRooms ∧
      c'.joinedRooms = c.joinedRooms ∧ c'.onCloseHandler = c.onCloseHandler ∧
      occupancy s' n = ⟨(occupancy s n).ns.removeConnection i, (occupancy s n).joinedRooms⟩ := by
  let c₁ := { c with main := .remove .connections, state := .closing }
  let c₂ := { c₁ with
    main := .remove .runtimeIds, log := .registry (.remove .connections) :: c.log }
  let c₃ := { c₂ with
    main := .remove .connectionIds, log := .registry (.remove .runtimeIds) :: c₂.log }
  let c₄ := { c₃ with
    main := .snapshotRooms, log := .registry (.remove .connectionIds) :: c₃.log }
  let c₅ := { c₄ with main := .leaveRooms c.joinedRooms }
  have hstore : Connection.mainGo (cfg.config n) c = some c₁ := by
    simp [Connection.mainGo, hmain, c₁]
  obtain ⟨s₁, h₁, hi₁, ho₁⟩ := main_occupancy_rest hi (by simp [hmain]) hstore
    (by simp [Connection.effect, hmain]) rfl
  obtain ⟨s₂, h₂, hi₂, ho₂⟩ := @main_occupancy cfg s₁ i n c₁ c₂ hi₁ (by simp [c₁]) rfl
  obtain ⟨s₃, h₃, hi₃, ho₃⟩ := @main_occupancy cfg s₂ i n c₂ c₃ hi₂ (by simp [c₂]) rfl
  obtain ⟨s₄, h₄, hi₄, ho₄⟩ := @main_occupancy cfg s₃ i n c₃ c₄ hi₃ (by simp [c₃]) rfl
  obtain ⟨s₅, h₅, hi₅, ho₅⟩ := @main_occupancy_rest cfg s₄ i n c₄ c₅ hi₄ (by simp [c₄]) rfl rfl rfl
  refine ⟨s₅, c₅, ?_, hi₅, rfl, rfl, rfl, ?_⟩
  · change (system cfg).exec s [_, _, _, _, _] = _
    rw [exec_cons h₁, exec_cons h₂, exec_cons h₃, exec_cons h₄, exec_cons h₅]
    rfl
  · have hjoined : c.joinedRooms = (occupancy s n).joinedRooms i := (joinedRooms_occupancy hi).symm
    rw [ho₅, ho₄, ho₃, ho₂, ho₁]
    change Occupancy.mk ((occupancy s n).ns.removeConnection i) (Function.update (Function.update
      (Function.update _ i c.joinedRooms) i c.joinedRooms) i c.joinedRooms) = _
    rw [Function.update_idem, Function.update_idem, hjoined, Function.update_eq_self]

theorem abortInitTimeout_keeps (c : Connection) :
    c.abortInitTimeout.joinedRooms = c.joinedRooms ∧
      c.abortInitTimeout.onCloseHandler = c.onCloseHandler := by
  unfold Connection.abortInitTimeout
  split <;> exact ⟨rfl, rfl⟩

/-- The steps of `cleanup` from the end of its loop, with the outcome of the close handler. -/
def tailActions (i : Nat) (handler : Bool) (o : Outcome) : List ServerAction :=
  List.replicate 5 (.conn i (.main .go)) ++
    ((if handler then [.conn i (.main (.closeHandler o))] else []) ++ [.conn i (.main .go)])

/-- It clears `joined_rooms` and touches no room any more. -/
theorem cleanup_tail {i n : Nat} {c : Connection} (hi : s.conns i = some ⟨n, c⟩)
    (hmain : c.main = .leaveRooms []) (o : Outcome) :
    ∃ s' c', (system cfg).exec s (tailActions i c.onCloseHandler o) = some s' ∧
      s'.conns i = some ⟨n, c'⟩ ∧ c'.main = .finished ∧
      occupancy s' n =
        ⟨(occupancy s n).ns, Function.update (occupancy s n).joinedRooms i []⟩ := by
  let c₁ := { c with main := .clearRooms }
  let c₂ := { c with main := .abortInitTimeout, joinedRooms := [] }
  let c₃ := { c₂.abortInitTimeout with main := .cancel }
  let c₄ := { c₃ with main := .onClose, cancelled := true }
  obtain ⟨hrooms, hhandler⟩ := abortInitTimeout_keeps c₂
  have hend : Connection.mainGo (cfg.config n) c = some c₁ := by
    simp [Connection.mainGo, hmain, c₁]
  obtain ⟨s₁, h₁, hi₁, ho₁⟩ := main_occupancy_rest hi (by simp [hmain]) hend
    (by simp [Connection.effect, hmain]) rfl
  obtain ⟨s₂, h₂, hi₂, ho₂⟩ := @main_occupancy cfg s₁ i n c₁ c₂ hi₁ (by simp [c₁]) rfl
  obtain ⟨s₃, h₃, hi₃, ho₃⟩ :=
    @main_occupancy_rest cfg s₂ i n c₂ c₃ hi₂ (by simp [c₂]) rfl rfl hrooms
  obtain ⟨s₄, h₄, hi₄, ho₄⟩ := @main_occupancy_rest cfg s₃ i n c₃ c₄ hi₃ (by simp [c₃]) rfl rfl rfl
  have ho : occupancy s₄ n =
      ⟨(occupancy s n).ns, Function.update (occupancy s n).joinedRooms i []⟩ := by
    rw [ho₄, ho₃, ho₂, ho₁]
    rfl
  change c₃.onCloseHandler = c.onCloseHandler at hhandler
  cases hc : c.onCloseHandler with
  | false =>
    let c₅ := { c₄ with main := .storeClosed }
    let c₆ := { c₅ with main := .finished, state := .closed }
    rw [hc] at hhandler
    have hskip : Connection.mainGo (cfg.config n) c₄ = some c₅ := by
      simp [Connection.mainGo, c₄, c₅, hhandler]
    obtain ⟨s₅, h₅, hi₅, ho₅⟩ := main_occupancy_rest hi₄ (by simp [c₄]) hskip rfl rfl
    obtain ⟨s₆, h₆, hi₆, ho₆⟩ :=
      @main_occupancy_rest cfg s₅ i n c₅ c₆ hi₅ (by simp [c₅]) rfl rfl rfl
    refine ⟨s₆, c₆, ?_, hi₆, rfl, by rw [ho₆, ho₅, ho]⟩
    change (system cfg).exec s [_, _, _, _, _, _] = _
    rw [exec_cons h₁, exec_cons h₂, exec_cons h₃, exec_cons h₄, exec_cons h₅, exec_cons h₆]
    rfl
  | true =>
    let c₅ := { c₄ with
      main := .awaitingOnClose, onCloseHandler := false, log := .invoked .onClose none :: c₄.log }
    let c₆ := { c₅ with main := .storeClosed, log := .returned .onClose o :: c₅.log }
    let c₇ := { c₆ with main := .finished, state := .closed }
    rw [hc] at hhandler
    have hinvoke : Connection.mainGo (cfg.config n) c₄ = some c₅ := by
      simp [Connection.mainGo, c₄, c₅, hhandler]
    have hreturn : Connection.step (cfg.config n) c₅ (.main (.closeHandler o)) = some c₆ := by
      simp [Connection.step, Connection.mainStep, c₅, c₆]
    obtain ⟨s₅, h₅, hi₅, ho₅⟩ := main_occupancy_rest hi₄ (by simp [c₄]) hinvoke rfl rfl
    obtain ⟨s₆, h₆, hi₆, ho₆⟩ := step_occupancy_rest hi₅ rfl (by simp [c₅]) hreturn rfl rfl
    obtain ⟨s₇, h₇, hi₇, ho₇⟩ :=
      @main_occupancy_rest cfg s₆ i n c₆ c₇ hi₆ (by simp [c₆]) rfl rfl rfl
    refine ⟨s₇, c₇, ?_, hi₇, rfl, by rw [ho₇, ho₆, ho₅, ho]⟩
    change (system cfg).exec s [_, _, _, _, _, _, _] = _
    rw [exec_cons h₁, exec_cons h₂, exec_cons h₃, exec_cons h₄, exec_cons h₅, exec_cons h₆,
      exec_cons h₇]
    rfl

/-- A `cleanup` that runs alone. -/
theorem cleanup_run {i n : Nat} {c : Connection} (hi : s.conns i = some ⟨n, c⟩)
    (hmain : c.main = .cleanupStore) (o : Outcome) :
    ∃ s' c', (system cfg).exec s (List.replicate 5 (.conn i (.main .go)) ++
        (List.replicate (2 * c.joinedRooms.length) (.conn i (.main .go)) ++
          tailActions i c.onCloseHandler o)) = some s' ∧
      s'.conns i = some ⟨n, c'⟩ ∧ c'.main = .finished ∧
      occupancy s' n = (occupancy s n).cleanup i := by
  obtain ⟨s₁, c₁, h₁, hi₁, hmain₁, hjoined, hhandler, ho₁⟩ := cleanup_head hi hmain
  obtain ⟨s₂, h₂, hi₂, ho₂⟩ := leaveRooms_loop c.joinedRooms hi₁ hmain₁
  obtain ⟨s₃, c₃, h₃, hi₃, hmain₃, ho₃⟩ := cleanup_tail hi₂ rfl o
  refine ⟨s₃, c₃, ?_, hi₃, hmain₃, ?_⟩
  · rw [System.exec_append h₁, System.exec_append h₂, ← hhandler]
    exact h₃
  · rw [ho₃, ho₂, ho₁, Occupancy.cleanup, joinedRooms_occupancy hi]

end Runtime

end WsIo.Server
