import WsIo.Server.RuntimeSteps

/-!
# The room map

`add_connection_id_to_room` is one access to the room map, `remove_connection_id_from_room`
is two: it takes the id out of the room and then deletes the room if it is empty. Any
number of these calls run at once. `RoomMap` is the map with the calls that are between
their two accesses; `room_map_consistent` says that the membership of every id in every room
is what the last action of the run about it says, and that an empty room is only ever left to
a call that has yet to delete it.
-/

namespace WsIo.Server

open Async Core

/-- The ids in a room; a room that is not in the map has none. -/
def Namespace.members (x : Namespace) (room : String) : Finset Nat := (x.rooms room).getD ∅

open WsIo.Server.Runtime

/-! ## One access -/

/-- An access changes the membership of its own id in its own room only. -/
theorem mem_members_access (x : Namespace) (i j : Nat) (op : RegistryOp) (room : String) :
    j ∈ (Namespace.access x i op).members room ↔
      if j = i ∧ op = .addToRoom room then True
      else if j = i ∧ op = .removeFromRoom room then False
      else j ∈ x.members room := by
  cases op with
  | insert r => cases r <;> simp [Namespace.access, Namespace.members]
  | remove r => cases r <;> simp [Namespace.access, Namespace.members]
  | addToRoom room' =>
    by_cases hr : room = room'
    · subst hr
      simp [Namespace.access, Namespace.members, or_iff_not_imp_left]
    · simp [Namespace.access, Namespace.members, hr, Ne.symm hr]
  | removeFromRoom room' =>
    by_cases hr : room = room'
    · subst hr
      cases hx : x.rooms room <;> simp [Namespace.access, Namespace.members, hx]
    · simp [Namespace.access, Namespace.members, hr, Ne.symm hr]
  | dropRoomIfEmpty room' =>
    by_cases hr : room = room'
    · subst hr
      cases hx : x.rooms room with
      | none => simp [Namespace.access, Namespace.members, hx]
      | some ids =>
        by_cases he : ids = ∅ <;> simp [Namespace.access, Namespace.members, hx, he, Option.filter]
    · simp [Namespace.access, Namespace.members, hr]

/-- An access leaves an empty room in the map only by taking the last id out of it. -/
theorem rooms_access_empty {x : Namespace} {i : Nat} {op : RegistryOp} {room : String}
    (h : (Namespace.access x i op).rooms room = some ∅) :
    (x.rooms room = some ∅ ∧ op ≠ .dropRoomIfEmpty room) ∨ op = .removeFromRoom room := by
  cases op with
  | insert r => cases r <;> exact .inl ⟨h, by simp⟩
  | remove r => cases r <;> exact .inl ⟨h, by simp⟩
  | addToRoom room' =>
    by_cases hr : room = room'
    · subst hr
      simp [Namespace.access] at h
    · exact .inl ⟨by simpa [Namespace.access, hr] using h, by simp⟩
  | removeFromRoom room' =>
    by_cases hr : room = room'
    · exact .inr (by rw [hr])
    · exact .inl ⟨by simpa [Namespace.access, hr] using h, by simp⟩
  | dropRoomIfEmpty room' =>
    by_cases hr : room = room'
    · subst hr
      simp [Namespace.access] at h
    · refine .inl ⟨by simpa [Namespace.access, hr] using h, ?_⟩
      simpa using Ne.symm hr

/-! ## The map and its calls -/

/-- The room map of a namespace, and the calls of `remove_connection_id_from_room` that have
made the first of their two accesses. -/
structure RoomMap where
  map : Namespace
  removing : Nat → Option (Nat × String)

/-- One access of some call: to add an id, to take an id out, to delete an empty room. -/
inductive RoomAction
  | add (id : Nat) (room : String)
  | remove (k id : Nat) (room : String)
  | removeIf (k : Nat)
  deriving DecidableEq, Repr

namespace RoomMap

def access (s : RoomMap) (id : Nat) (op : RegistryOp) : RoomMap :=
  { s with map := Namespace.access s.map id op }

def step (s : RoomMap) : RoomAction → Option RoomMap
  -- add_connection_id_to_room
  | .add id room => some (s.access id (.addToRoom room))
  -- remove_connection_id_from_room
  | .remove k id room =>
    match s.removing k with
    | none => some { s.access id (.removeFromRoom room) with
        removing := Function.update s.removing k (some (id, room)) }
    | some _ => none
  | .removeIf k =>
    match s.removing k with
    | none => none
    | some (id, room) => some { s.access id (.dropRoomIfEmpty room) with
        removing := Function.update s.removing k none }

/-- The calls on one room map under every interleaving. -/
def system : System RoomMap RoomAction where
  init := ⟨initialNamespace, fun _ => none⟩
  step := step

/-- The first access of `remove_connection_id_from_room`, which takes the id out. -/
def takesOut (id : Nat) (room : String) : RoomAction → Bool
  | .remove _ id' room' => id' = id && room' = room
  | _ => false

theorem members_access (s : RoomMap) (i : Nat) (op : RegistryOp) (id : Nat) (room : String) :
    id ∈ (s.access i op).map.members room ↔
      if id = i ∧ op = .addToRoom room then True
      else if id = i ∧ op = .removeFromRoom room then False
      else id ∈ s.map.members room := mem_members_access s.map i id op room

/-- What one action does to the membership of every id in every room. -/
theorem members_step {s s' : RoomMap} {a : RoomAction} (h : step s a = some s') (id : Nat)
    (room : String) : id ∈ s'.map.members room ↔
      a = .add id room ∨ ¬ takesOut id room a = true ∧ id ∈ s.map.members room := by
  cases a with
  | add id' room' =>
    cases h
    rw [members_access]
    by_cases he : id = id' ∧ room' = room
    · obtain ⟨rfl, rfl⟩ := he
      simp
    · have hne : ¬ (id' = id ∧ room' = room) := fun hn => he ⟨hn.1.symm, hn.2⟩
      simp [takesOut, he, hne]
  | remove k id' room' =>
    simp only [step] at h
    split at h
    · cases h
      change id ∈ (s.access id' (.removeFromRoom room')).map.members room ↔ _
      rw [members_access]
      by_cases he : id = id' ∧ room' = room
      · obtain ⟨rfl, rfl⟩ := he
        simp [takesOut]
      · have hne : ¬ (id' = id ∧ room' = room) := fun hn => he ⟨hn.1.symm, hn.2⟩
        simp [takesOut, he, hne]
    · cases h
  | removeIf k =>
    simp only [step] at h
    split at h
    · cases h
    · rename_i id' room' _
      cases h
      change id ∈ (s.access id' (.dropRoomIfEmpty room')).map.members room ↔ _
      rw [members_access]
      simp [takesOut]

/-! ## Empty rooms -/

/-- An empty room is some call's to delete. -/
def Accounted (s : RoomMap) : Prop :=
  ∀ room, s.map.rooms room = some ∅ → ∃ k id, s.removing k = some (id, room)

theorem access_empty {s : RoomMap} {i : Nat} {op : RegistryOp} {room : String}
    (h : (s.access i op).map.rooms room = some ∅) :
    (s.map.rooms room = some ∅ ∧ op ≠ .dropRoomIfEmpty room) ∨ op = .removeFromRoom room :=
  rooms_access_empty h

theorem accounted_step {s s' : RoomMap} {a : RoomAction} (h : step s a = some s')
    (hi : Accounted s) : Accounted s' := by
  intro r hr
  cases a with
  | add id room =>
    cases h
    rcases access_empty hr with ⟨hr, -⟩ | hr
    · exact hi r hr
    · cases hr
  | remove k id room =>
    simp only [step] at h
    split at h
    · rename_i hk
      cases h
      change (s.access id (.removeFromRoom room)).map.rooms r = some ∅ at hr
      rcases access_empty hr with ⟨hr, -⟩ | hr
      · -- the call that was to delete the room still is
        obtain ⟨k', id', hk'⟩ := hi r hr
        have hne : k' ≠ k := by
          rintro rfl
          rw [hk] at hk'
          cases hk'
        exact ⟨k', id', (Function.update_of_ne hne _ _).trans hk'⟩
      · cases hr
        exact ⟨k, id, Function.update_self ..⟩
    · cases h
  | removeIf k =>
    simp only [step] at h
    split at h
    · cases h
    · rename_i id room hk
      cases h
      change (s.access id (.dropRoomIfEmpty room)).map.rooms r = some ∅ at hr
      rcases access_empty hr with ⟨hr, hne⟩ | hr
      · -- another room, which another call is to delete
        obtain ⟨k', id', hk'⟩ := hi r hr
        have hne : k' ≠ k := by
          rintro rfl
          rw [hk] at hk'
          cases hk'
          exact hne rfl
        exact ⟨k', id', (Function.update_of_ne hne _ _).trans hk'⟩
      · cases hr

/-- **The room map under concurrent adds and removes.** After every step of every
interleaving of the calls, an id is in a room exactly if some action of the run has added it
to the room and none after that has taken it out, so deleting an empty room never discards an
id; and while no call is between its two accesses no room of the map is empty. -/
theorem room_map_consistent {l : List (RoomMap × RoomAction)} {s : RoomMap}
    (h : system.RunWhen (fun _ _ => True) l s) :
    (∀ id room, id ∈ s.map.members room ↔
      System.Lasting (fun p => p.2 = .add id room) (fun p => takesOut id room p.2 = true) l) ∧
      ((∀ k, s.removing k = none) → ∀ room, s.map.rooms room ≠ some ∅) := by
  refine ⟨fun id room => ?_, fun hidle room hr => ?_⟩
  · refine h.lasting (P := fun s => id ∈ s.map.members room) ?_ ?_
    · simp [system, initialNamespace, Namespace.members]
    · intro t a t' _ _ hs
      exact members_step hs id room
  have hi : Accounted s := by
    refine h.reachableWhen.invariant (I := Accounted) (fun room hr => ?_)
      fun _ _ _ _ _ hs hi => accounted_step hs hi
    cases hr
  obtain ⟨k, id, hk⟩ := hi room hr
  rw [hidle k] at hk
  cases hk

/-- The room is emptied by one call and refilled before that call deletes it. -/
theorem room_map_consistent_run :
    ∃ l s, system.RunWhen (fun _ _ => True) l s ∧
      l.map Prod.snd = [.removeIf 0, .add 2 "a", .remove 0 1 "a", .add 1 "a"] ∧
      2 ∈ s.map.members "a" ∧ 1 ∉ s.map.members "a" := by
  obtain ⟨s, hs⟩ := Option.isSome_iff_exists.mp (show (system.exec system.init
    [.add 1 "a", .remove 0 1 "a", .add 2 "a", .removeIf 0]).isSome = true by decide)
  have hrun := System.RunWhen.exec .init hs
  have hmem := (room_map_consistent hrun).1
  refine ⟨_, s, hrun, rfl, (hmem 2 "a").mpr ?_, fun hin => ?_⟩
  · decide
  · have hlasting := (hmem 1 "a").mp hin
    revert hlasting
    decide

end RoomMap

end WsIo.Server
