import WsIo.Server.Registration
import WsIo.Server.Rooms

/-!
# The rooms of a connection

`join` adds the id of the connection to a room of the namespace and then the room to the
connection's `joined_rooms`; `leave` takes the id out of the room and then the room out of
the set. `cleanup` leaves the rooms that the set holds. Handlers run in tasks of their
own, so a `join` and a `leave` of one room can cross and leave map and set different
(`joined_rooms_differ`); apart from such crossings they agree (`joined_rooms_mirror`).

`join` looks at no state: one that runs after `cleanup` has looked at the set puts the id
of a dead connection into a room for ever (`room_kept_after_cleanup`). Otherwise a
connection that is closed is in no room (`no_room_after_cleanup`).
-/

namespace WsIo.Server

open Async Core

/-! ## Membership over a step of the server -/

/-- Whether the id is in the room after an access. -/
def accessed (op : Option RegistryOp) (room : String) (before : Prop) : Prop :=
  if op = some (.addToRoom room) then True
  else if op = some (.removeFromRoom room) then False
  else before

/-- The access moves no id into or out of a room. -/
def Untouched (op : Option RegistryOp) : Prop :=
  ∀ room, op ≠ some (.addToRoom room) ∧ op ≠ some (.removeFromRoom room)

theorem Untouched.accessed_iff {op : Option RegistryOp} (h : Untouched op) (room : String)
    (before : Prop) : accessed op room before ↔ before := by
  simp [accessed, h room]

namespace Runtime

variable {cfg : ServerConfig} {s s' : Runtime}

/-- Connection `i` is in the room of the namespace. -/
def InRoom (s : Runtime) (n i : Nat) (room : String) : Prop := i ∈ (s.namespaces n).members room

theorem Quiet.inRoom (h : Quiet s s') (n i : Nat) (room : String) :
    InRoom s' n i room ↔ InRoom s n i room := by
  unfold InRoom Namespace.members
  rw [(h.registries n).2.2]

theorem inRoom_access (home i : Nat) (op : Option RegistryOp) (n j : Nat) (room : String) :
    InRoom (s.access home i op) n j room ↔
      if j = i ∧ n = home then accessed op room (InRoom s n j room) else InRoom s n j room := by
  cases op with
  | none => simp [access, accessed]
  | some op =>
    unfold InRoom
    rw [access_namespaces]
    by_cases hn : n = home
    · rw [if_pos hn, mem_members_access, ← hn]
      by_cases hj : j = i
      · simp [hj, hn, accessed]
      · simp [hj]
    · simp [hn]

/-- Rooms hold ids of connections of their namespace. -/
def Housed (s : Runtime) : Prop :=
  ∀ n i room, InRoom s n i room → ∃ m, s.conns i = some m ∧ m.home = n

/-- How a step changes the rooms that a connection is in: by the connection's own access. -/
theorem step_inRoom {a : ServerAction} (h : step cfg s a = some s') {i : Nat} {m' : Member}
    (hi : s'.conns i = some m') :
    (s.conns i = none ∧ m'.conn = .initial (cfg.config m'.home) ∧
        ∀ n room, InRoom s' n i room ↔ InRoom s n i room) ∨
      ∃ m, s.conns i = some m ∧ m'.home = m.home ∧
        ((m'.conn = m.conn ∧ ∀ n room, InRoom s' n i room ↔ InRoom s n i room) ∨
          ∃ b, (a = .conn i b ∨ ∃ key job, Targets a i key ∧ b = .start key job) ∧
            Connection.step (cfg.config m.home) m.conn b = some m'.conn ∧
            ∀ n room, InRoom s' n i room ↔ if n = m.home then
              accessed (Connection.effect m.conn b) room (InRoom s n i room)
              else InRoom s n i room) := by
  rcases step_cases h with ⟨j, n, -, -, hj, rfl⟩ | ⟨j, b, m, c, rfl, hm, rfl⟩ |
    ⟨n, job, j, key, m, c, ht, hst, hq⟩ | hq
  · rw [setConn_conns] at hi
    split at hi
    · rename_i he
      cases hi
      exact .inl ⟨he ▸ hj, rfl, fun _ _ => Iff.rfl⟩
    · exact .inr ⟨m', hi, rfl, .inl ⟨rfl, fun _ _ => Iff.rfl⟩⟩
  · have hroom : ∀ n room, InRoom (((s.setConn j ⟨m.home, c⟩).access m.home j
        (Connection.effect m.conn b)).spawn m j b) n i room ↔
        if i = j ∧ n = m.home then
          accessed (Connection.effect m.conn b) room (InRoom s n i room) else InRoom s n i room := by
      intro n room
      rw [(Quiet.spawn _ m j b).inRoom, inRoom_access]
      rfl
    rw [spawn_conns, access_conns, setConn_conns] at hi
    split at hi
    · rename_i he
      cases hi
      refine .inr ⟨m, he ▸ hm.conn, rfl, .inr ⟨b, .inl (by rw [he]), hm.step, fun n room => ?_⟩⟩
      rw [hroom]
      simp [he]
    · rename_i he
      refine .inr ⟨m', hi, rfl, .inl ⟨rfl, fun n room => ?_⟩⟩
      rw [hroom]
      simp [he]
  · rw [hq.conns, setConn_conns] at hi
    have hroom : ∀ n room, InRoom s' n i room ↔ InRoom s n i room := fun n room =>
      hq.inRoom n i room
    split at hi
    · rename_i he
      cases hi
      refine .inr ⟨m, he ▸ hst.conn, rfl, .inr ⟨_, .inr ⟨key, job, he ▸ ht, rfl⟩, hst.step,
        fun n room => ?_⟩⟩
      rw [hroom]
      simp [Connection.effect, accessed]
    · exact .inr ⟨m', hi, rfl, .inl ⟨rfl, hroom⟩⟩
  · rw [hq.conns] at hi
    exact .inr ⟨m', hi, rfl, .inl ⟨rfl, fun n room => hq.inRoom n i room⟩⟩

theorem housed_step {a : ServerAction} (h : step cfg s a = some s') (hh : Housed s) : Housed s' := by
  intro n i room hin
  have hold : InRoom s n i room → ∃ m, s'.conns i = some m ∧ m.home = n := by
    intro hin
    obtain ⟨m, hm, rfl⟩ := hh n i room hin
    exact step_persists h hm
  rcases step_cases h with ⟨j, n', -, -, hj, rfl⟩ | ⟨j, b, m, c, rfl, hm, rfl⟩ |
    ⟨n', job, j, key, m, c, -, hst, hq⟩ | hq
  · exact hold hin
  · rw [(Quiet.spawn _ m j b).inRoom, inRoom_access] at hin
    by_cases hij : i = j ∧ n = m.home
    · refine ⟨⟨m.home, c⟩, ?_, hij.2.symm⟩
      rw [spawn_conns, access_conns, setConn_conns, if_pos hij.1]
    · rw [if_neg hij] at hin
      exact hold hin
  · rw [hq.inRoom] at hin
    exact hold hin
  · rw [hq.inRoom] at hin
    exact hold hin

theorem housed_of_reachable {guard : Runtime → ServerAction → Prop}
    (h : (system cfg).ReachableWhen guard s) : Housed s := by
  refine h.invariant (I := Housed) ?_ fun _ _ _ _ _ hs hi => housed_step hs hi
  intro n i room hin
  simp [InRoom, Namespace.members, system, initial, initialNamespace] at hin

/-- The rule for invariants of a connection and the rooms it is in: what holds of a new
connection in no room, and is kept by every step with its access, holds in every run of
the server, under any condition that the server's steps impose. -/
theorem rooms_invariant {guard : Runtime → ServerAction → Prop}
    {g : Connection → (String → Prop) → Action → Prop} {I : Connection → (String → Prop) → Prop}
    (hconn : ∀ s i b m, guard s (.conn i b) → s.conns i = some m →
      g m.conn (InRoom s m.home i) b)
    (hstart : ∀ c M key job, g c M (.start key job))
    (hinit : ∀ n M, (∀ room, ¬ M room) → I (.initial (cfg.config n)) M)
    (hstep : ∀ n c a c' M M', Connection.step (cfg.config n) c a = some c' → g c M a →
      (∀ room, M' room ↔ accessed (Connection.effect c a) room (M room)) → I c M → I c' M')
    (hsame : ∀ c M M', (∀ room, M' room ↔ M room) → I c M → I c M')
    (h : (system cfg).ReachableWhen guard s) {i : Nat} {m : Member} (hi : s.conns i = some m) :
    I m.conn (InRoom s m.home i) := by
  induction h generalizing m with
  | init => cases hi
  | step hr hg hs ih =>
    rcases step_inRoom hs hi with ⟨hnone, hc, hroom⟩ | ⟨m₀, hm₀, hhome, he⟩
    · rw [hc]
      refine hinit _ _ fun room hin => ?_
      obtain ⟨m₁, hm₁, -⟩ := housed_of_reachable hr m.home i room ((hroom _ _).mp hin)
      rw [hnone] at hm₁
      cases hm₁
    · have hprev := ih hm₀
      rw [hhome]
      rcases he with ⟨hc, hroom⟩ | ⟨b, hb, hc, hroom⟩
      · rw [hc]
        exact hsame _ _ _ (fun room => hroom _ room) hprev
      · refine hstep _ _ b _ _ _ hc ?_ (fun room => ?_) hprev
        · rcases hb with rfl | ⟨key, job, -, rfl⟩
          · exact hconn _ _ _ _ hg hm₀
          · exact hstart _ _ _ _
        · rw [hroom, if_pos rfl]

end Runtime

/-! ## One connection -/

/-- Where a call stands in a `join` or `leave` of a room. -/
inductive RoomPc
  | outside
  | joining (room : String)
  | dropping (room : String)
  | leaving (room : String)
  deriving DecidableEq, Repr

def RoomPc.room : RoomPc → Option String
  | .outside => none
  | .joining room | .dropping room | .leaving room => some room

/-- A call between the accesses of a `join` or a `leave`. -/
def Caller.roomPc : Caller → RoomPc
  | .joinInsert room _ => .joining room
  | .leaveDrop room _ => .dropping room
  | .leaveRemove room _ => .leaving room
  | _ => .outside

/-- The call is a `join` or a `leave` that has not returned. -/
def Caller.inRooms : Caller → Bool
  | .join _ | .joinInsert _ _ | .leave _ | .leaveDrop _ _ | .leaveRemove _ _ => true
  | _ => false

/-- The rooms that `cleanup` has yet to leave, once it has taken them from the set. -/
def MainPc.leaves : MainPc → Option (List String)
  | .leaveRooms rest | .dropRoom _ rest => some rest
  | .clearRooms | .abortInitTimeout | .cancel | .onClose | .awaitingOnClose | .storeClosed
  | .finished | .closePanicked => some []
  | _ => none

theorem MainPc.leaves_of_live {pc : MainPc} (h : pc.cleaning = false) : pc.leaves = none := by
  cases pc <;> first | rfl | cases h

namespace Connection

variable {cfg : NamespaceConfig} {c c' : Connection}

/-- The accesses of `join` and `leave`. -/
inductive RoomMove (c c' : Connection) (k : Nat) : Option RegistryOp → Prop
  | add (room : String) (rest : List String) (pc : c.callers k = .join (room :: rest))
      (eq : c' = c.setCaller k (.joinInsert room rest)) : RoomMove c c' k (some (.addToRoom room))
  | joined (room : String) (rest : List String) (pc : c.callers k = .joinInsert room rest)
      (eq : c' = { c with joinedRooms := c.joinedRooms.insert room }.setCaller k (.join rest)) :
      RoomMove c c' k none
  | remove (room : String) (rest : List String) (pc : c.callers k = .leave (room :: rest))
      (eq : c' = c.setCaller k (.leaveDrop room rest)) :
      RoomMove c c' k (some (.removeFromRoom room))
  | drop (room : String) (rest : List String) (pc : c.callers k = .leaveDrop room rest)
      (eq : c' = c.setCaller k (.leaveRemove room rest)) :
      RoomMove c c' k (some (.dropRoomIfEmpty room))
  | left (room : String) (rest : List String) (pc : c.callers k = .leaveRemove room rest)
      (eq : c' = { c with joinedRooms := c.joinedRooms.erase room }.setCaller k (.leave rest)) :
      RoomMove c c' k none

/-- The step makes no access to a room, and no `join` or `leave` moves. -/
structure RoomRest (c c' : Connection) (a : Action) : Prop where
  main : c'.main = c.main
  joined : c'.joinedRooms = c.joinedRooms
  effect : Untouched (effect c a)
  pcs : ∀ k, (c'.callers k).roomPc = (c.callers k).roomPc

theorem callerStep_rooms {k : Nat} (h : callerStep cfg c k = some c') :
    RoomMove c c' k (effect c (.caller k)) ∨ RoomRest c c' (.caller k) := by
  have hrest : c'.joinedRooms = c.joinedRooms → Untouched (effect c (.caller k)) →
      (∀ j, (c'.callers j).roomPc = (c.callers j).roomPc) → RoomRest c c' (.caller k) :=
    fun h₁ h₂ h₃ => ⟨(callerStep_frame h).1, h₁, h₂, h₃⟩
  unfold callerStep at h
  split at h
  case h_7 room rest hk =>
    cases h
    rw [show effect c (.caller k) = some (.addToRoom room) by simp [effect, hk]]
    exact .inl (.add room rest hk rfl)
  case h_8 room rest hk =>
    cases h
    rw [show effect c (.caller k) = none by simp [effect, hk]]
    exact .inl (.joined room rest hk rfl)
  case h_10 room rest hk =>
    cases h
    rw [show effect c (.caller k) = some (.removeFromRoom room) by simp [effect, hk]]
    exact .inl (.remove room rest hk rfl)
  case h_11 room rest hk =>
    cases h
    rw [show effect c (.caller k) = some (.dropRoomIfEmpty room) by simp [effect, hk]]
    exact .inl (.drop room rest hk rfl)
  case h_12 room rest hk =>
    cases h
    rw [show effect c (.caller k) = none by simp [effect, hk]]
    exact .inl (.left room rest hk rfl)
  all_goals
    refine .inr (hrest ?_ ?_ ?_)
    · grind [ensure, sendPacket_ok, enqueue_ok, setCaller, closeAt]
    · grind [effect, Untouched]
    · grind [ensure, callers_sendPacket, callers_enqueue, Caller.roomPc]

/-- Where a step leaves the rooms: the main task may clear the set, a call makes an access
of its `join` or `leave`, or nothing changes. -/
theorem step_rooms {a : Action} (h : step cfg c a = some c') :
    (∃ i, a = .main i ∧ c'.callers = c.callers ∧
        (c'.joinedRooms = c.joinedRooms ∨ c.main = .clearRooms)) ∨
      (∃ k, a = .caller k ∧ RoomMove c c' k (effect c a)) ∨ RoomRest c c' a := by
  cases a with
  | main i =>
    refine .inl ⟨i, rfl, mainStep_callers h, ?_⟩
    simp only [step] at h
    cases i with
    | go =>
      simp only [mainStep] at h
      unfold mainGo at h
      obtain ⟨w, t, hw⟩ := abortInitTimeout_eq c
      split at h
      all_goals grind [tryTransition, ensure, sendPacket_ok, closeAt]
    | _ => grind [mainStep]
  | caller k =>
    rcases callerStep_rooms h with hm | hr
    · exact .inr (.inl ⟨k, rfl, hm⟩)
    · exact .inr (.inr hr)
  | read i =>
    obtain ⟨hm, -, -, hcallers, -⟩ := readStep_frame h
    refine .inr (.inr ⟨hm, ?_, ?_, fun k => by rw [hcallers]⟩)
    · cases i with
      | go =>
        simp only [step, readStep] at h
        unfold readGo at h
        obtain ⟨w, t, hw⟩ := abortInitTimeout_eq c
        split at h
        all_goals grind [transition_cases, invoke_cases, ensure, sendPacket_ok]
      | _ => grind [step, readStep]
    · cases i <;> grind [effect, Untouched]
  | write i =>
    obtain ⟨e, pc, -, rfl, -⟩ := writeStep_some h
    exact .inr (.inr ⟨rfl, rfl, by simp [effect, Untouched], fun _ => rfl⟩)
  | watch i =>
    obtain ⟨e, pc, -, rfl, -⟩ := watchStep_some h
    exact .inr (.inr ⟨rfl, rfl, by simp [effect, Untouched], fun _ => rfl⟩)
  | start k job =>
    refine .inr (.inr ⟨step_main h (by simp), ?_, by simp [effect, Untouched], fun j => ?_⟩)
    · grind [step, setCaller]
    · cases job <;> grind [step, entry, Caller.roomPc]
  | drop k =>
    refine .inr (.inr ⟨step_main h (by simp), ?_, by simp [effect, Untouched], fun j => ?_⟩)
    · grind [step, setCaller]
    · simp only [step] at h
      split at h
      · rename_i hk
        cases h
        rw [callers_setCaller]
        split
        · rename_i hj
          rw [hj]
          cases hc : c.callers k <;> simp [hc, callerAwaits] at hk <;> rfl
        · rfl
      · cases h

/-! ## The set mirrors the map -/

/-- Some call is between the accesses of a `join` or a `leave` of the room. -/
def Busy (c : Connection) (room : String) : Prop := ∃ k, (c.callers k).roomPc.room = some room

/-- A `join` adds the id to a room only while no `leave` of the room is between its
accesses, and a `leave` takes it out only while no `join` is. -/
def RoomsApart (c : Connection) : Action → Prop
  | .caller k =>
    match c.callers k with
    | .join (room :: _) => ∀ j, (c.callers j).roomPc ≠ .dropping room ∧
        (c.callers j).roomPc ≠ .leaving room
    | .leave (room :: _) => ∀ j, (c.callers j).roomPc ≠ .joining room
    | _ => True
  | _ => True

/-- The set and the rooms agree, except where a call is between its accesses; there the
rooms are as the call left them. -/
structure Mirrored (c : Connection) (M : String → Prop) : Prop where
  nodup : c.joinedRooms.Nodup
  joining : ∀ k room, (c.callers k).roomPc = .joining room → M room
  leaving : ∀ k room, (c.callers k).roomPc = .dropping room ∨ (c.callers k).roomPc = .leaving room →
    ¬ M room
  settled : ∀ room, ¬ Busy c room → (M room ↔ room ∈ c.joinedRooms)

theorem Mirrored.same {M M' : String → Prop} (h : Mirrored c M) (hj : c'.joinedRooms = c.joinedRooms)
    (hp : ∀ k, (c'.callers k).roomPc = (c.callers k).roomPc) (hM : ∀ room, M' room ↔ M room) :
    Mirrored c' M' := by
  refine ⟨hj ▸ h.nodup, fun k room hk => ?_, fun k room hk => ?_, fun room hb => ?_⟩
  · rw [hp] at hk
    exact (hM room).mpr (h.joining k room hk)
  · rw [hp] at hk
    rw [hM]
    exact h.leaving k room hk
  · rw [hM, hj]
    refine h.settled room fun ⟨k, hk⟩ => hb ⟨k, ?_⟩
    rwa [hp]

theorem roomPc_setCaller (c : Connection) (k j : Nat) (x : Caller) :
    ((c.setCaller k x).callers j).roomPc = if j = k then x.roomPc else (c.callers j).roomPc := by
  rw [callers_setCaller]
  split <;> rfl

theorem RoomMove.other {k j : Nat} {op : Option RegistryOp} (h : RoomMove c c' k op) (hj : j ≠ k) :
    (c'.callers j).roomPc = (c.callers j).roomPc := by
  cases h <;> subst_vars <;> rw [roomPc_setCaller, if_neg hj]

/-- A call that moves over an access of one room keeps the agreement if it keeps it there. -/
theorem Mirrored.moved {M M' : String → Prop} {rooms : List String} {k : Nat} {x : Caller}
    (hi : Mirrored c M) (room : String)
    (hold : (c.callers k).roomPc.room = none ∨ (c.callers k).roomPc.room = some room)
    (hnew : x.roomPc.room = none ∨ x.roomPc.room = some room)
    (hM : ∀ r, r ≠ room → (M' r ↔ M r)) (hnodup : rooms.Nodup)
    (hrooms : ∀ r, r ≠ room → (r ∈ rooms ↔ r ∈ c.joinedRooms))
    (hjoining : x.roomPc = .joining room ∨ (∃ j, (c.callers j).roomPc = .joining room) → M' room)
    (hleaving : x.roomPc = .dropping room ∨ x.roomPc = .leaving room ∨
      (∃ j, (c.callers j).roomPc = .dropping room ∨ (c.callers j).roomPc = .leaving room) → ¬ M' room)
    (hsettled : x.roomPc.room = none → (M' room ↔ room ∈ rooms)) :
    Mirrored ({ c with joinedRooms := rooms }.setCaller k x) M' := by
  have hpc : ∀ j, (({ c with joinedRooms := rooms }.setCaller k x).callers j).roomPc =
      if j = k then x.roomPc else (c.callers j).roomPc := fun j => roomPc_setCaller _ k j x
  refine ⟨hnodup, fun j r hj => ?_, fun j r hj => ?_, fun r hb => ?_⟩
  · rw [hpc] at hj
    by_cases hr : r = room
    · subst hr
      split at hj
      · exact hjoining (.inl hj)
      · exact hjoining (.inr ⟨j, hj⟩)
    · rw [hM r hr]
      split at hj
      · rw [hj] at hnew
        simp [RoomPc.room, hr] at hnew
      · exact hi.joining j r hj
  · rw [hpc] at hj
    by_cases hr : r = room
    · subst hr
      split at hj
      · exact hleaving (hj.elim .inl fun h => .inr (.inl h))
      · exact hleaving (.inr (.inr ⟨j, hj⟩))
    · rw [hM r hr]
      split at hj
      · rcases hj with hj | hj <;> rw [hj] at hnew <;> simp [RoomPc.room, hr] at hnew
      · exact hi.leaving j r hj
  · by_cases hr : r = room
    · subst hr
      refine hsettled (hnew.resolve_right fun h => hb ⟨k, ?_⟩)
      rw [hpc, if_pos rfl, h]
    · refine (hM r hr).trans ((hi.settled r ?_).trans (hrooms r hr).symm)
      rintro ⟨j, hj⟩
      by_cases hjk : j = k
      · subst hjk
        rw [hj] at hold
        simp [hr] at hold
      · refine hb ⟨j, ?_⟩
        rw [hpc, if_neg hjk, hj]

theorem mirrored_move {k : Nat} {op : Option RegistryOp} {M M' : String → Prop}
    (h : RoomMove c c' k op) (hg : RoomsApart c (.caller k))
    (hM : ∀ room, M' room ↔ accessed op room (M room)) (hi : Mirrored c M) : Mirrored c' M' := by
  cases h with
  | add room rest hk heq =>
    subst heq
    simp only [RoomsApart, hk] at hg
    have hin : M' room := (hM room).mpr (by simp [accessed])
    refine hi.moved room ?_ (.inr rfl) (fun r hr => ?_) hi.nodup (fun _ _ => Iff.rfl)
      (fun _ => hin) (fun hl => ?_) (fun hn => by cases hn)
    · exact .inl (by rw [hk]; rfl)
    · rw [hM]
      simp [accessed, Ne.symm hr]
    · -- the step waits for every `leave` of the room
      rcases hl with hl | hl | ⟨j, hl | hl⟩
      · cases hl
      · cases hl
      · exact absurd hl (hg j).1
      · exact absurd hl (hg j).2
  | joined room rest hk heq =>
    subst heq
    have hin : M' room := by
      rw [hM]
      simpa [accessed] using hi.joining k room (by rw [hk]; rfl)
    refine hi.moved room ?_ (.inl rfl) (fun r hr => ?_) (hi.nodup.insert) (fun r hr => ?_)
      (fun _ => hin) (fun hl => ?_) (fun _ => ?_)
    · exact .inr (by rw [hk]; rfl)
    · rw [hM]
      simp [accessed]
    · rw [List.mem_insert_iff, or_iff_right hr]
    · rw [hM]
      rcases hl with hl | hl | ⟨j, hl⟩
      · cases hl
      · cases hl
      · simpa [accessed] using hi.leaving j room hl
    · simp [hin]
  | remove room rest hk heq =>
    subst heq
    simp only [RoomsApart, hk] at hg
    have hout : ¬ M' room := by
      rw [hM]
      simp [accessed]
    refine hi.moved room ?_ (.inr rfl) (fun r hr => ?_) hi.nodup (fun _ _ => Iff.rfl)
      (fun hl => ?_) (fun _ => hout) (fun hn => by cases hn)
    · exact .inl (by rw [hk]; rfl)
    · rw [hM]
      simp [accessed, Ne.symm hr]
    · -- the step waits for every `join` of the room
      rcases hl with hl | ⟨j, hl⟩
      · cases hl
      · exact absurd hl (hg j)
  | drop room rest hk heq =>
    subst heq
    have hsame : ∀ r, M' r ↔ M r := fun r => by
      rw [hM]
      simp [accessed]
    have hout : ¬ M' room := by
      rw [hsame]
      exact hi.leaving k room (.inl (by rw [hk]; rfl))
    refine hi.moved room ?_ (.inr rfl) (fun r _ => hsame r) hi.nodup (fun _ _ => Iff.rfl)
      (fun hl => ?_) (fun _ => hout) (fun hn => by cases hn)
    · exact .inr (by rw [hk]; rfl)
    · rw [hsame]
      rcases hl with hl | ⟨j, hl⟩
      · cases hl
      · exact hi.joining j room hl
  | left room rest hk heq =>
    subst heq
    have hsame : ∀ r, M' r ↔ M r := fun r => by
      rw [hM]
      simp [accessed]
    have hout : ¬ M' room := by
      rw [hsame]
      exact hi.leaving k room (.inr (by rw [hk]; rfl))
    refine hi.moved room ?_ (.inl rfl) (fun r _ => hsame r) (hi.nodup.erase room)
      (fun r hr => ?_) (fun hl => ?_) (fun _ => hout) (fun _ => ?_)
    · exact .inr (by rw [hk]; rfl)
    · rw [hi.nodup.mem_erase_iff, and_iff_right hr]
    · rw [hsame]
      rcases hl with hl | ⟨j, hl⟩
      · cases hl
      · exact hi.joining j room hl
    · rw [hi.nodup.mem_erase_iff]
      simp [hout]

/-- How the main task goes through the rooms: it takes them from the set, leaves one after
the other, and touches no room otherwise. -/
theorem mainStep_leaves {i : MainInput} (h : mainStep cfg c i = some c') :
    (c'.main.leaves = c.main.leaves ∧ Untouched (effect c (.main i))) ∨
      (i = .go ∧ c.main = .snapshotRooms ∧ c'.main.leaves = some c.joinedRooms ∧
        Untouched (effect c (.main i))) ∨
      ∃ room rest, c.main.leaves = some (room :: rest) ∧ c'.main.leaves = some rest ∧
        effect c (.main i) = some (.removeFromRoom room) := by
  cases i with
  | go =>
    simp only [mainStep] at h
    unfold mainGo at h
    obtain ⟨w, t, hw⟩ := abortInitTimeout_eq c
    split at h
    case h_16 hm =>
      cases h
      exact .inr (.inl ⟨rfl, hm, rfl, by simp [Untouched, effect, hm]⟩)
    case h_18 room rest hm =>
      cases h
      exact .inr (.inr ⟨room, rest, by rw [hm]; rfl, rfl, by simp [effect, hm]⟩)
    all_goals
      refine .inl ⟨?_, ?_⟩
      · grind [tryTransition, ensure, sendPacket_ok, MainPc.leaves, afterRemove_cases]
      · grind [Untouched, effect]
  | _ =>
    refine .inl ⟨?_, by simp [Untouched, effect]⟩
    grind [mainStep, MainPc.leaves]

/-- Only the main task goes through the rooms. -/
theorem step_leaves {a : Action} (h : step cfg c a = some c') (ha : ∀ i, a ≠ .main i) :
    c'.main.leaves = c.main.leaves := by
  rw [step_main h ha]

/-- Until `cleanup` takes the rooms from the set, the set and the map agree. -/
theorem mirrored_step {a : Action} {M M' : String → Prop} (h : step cfg c a = some c')
    (hg : RoomsApart c a) (hM : ∀ room, M' room ↔ accessed (effect c a) room (M room))
    (hi : c.main.leaves = none → Mirrored c M) (hc : c'.main.leaves = none) :
    Mirrored c' M' := by
  have hsame : Untouched (effect c a) → ∀ room, M' room ↔ M room := fun he room =>
    (hM room).trans (he.accessed_iff room _)
  rcases step_rooms h with ⟨i, rfl, hcallers, hj⟩ | ⟨k, rfl, hmove⟩ | hrest
  · rcases mainStep_leaves h with ⟨hl, he⟩ | ⟨-, -, hl, -⟩ | ⟨room, rest, -, hl, -⟩
    · rw [hl] at hc
      refine (hi hc).same (hj.resolve_right fun hm => ?_) (fun k => by rw [hcallers]) (hsame he)
      rw [hm] at hc
      cases hc
    · rw [hl] at hc
      cases hc
    · rw [hl] at hc
      cases hc
  · rw [step_leaves h (by simp)] at hc
    exact mirrored_move hmove hg hM (hi hc)
  · rw [hrest.main] at hc
    exact (hi hc).same hrest.joined hrest.pcs (hsame hrest.effect)

/-! ## Cleanup leaves every room -/

theorem effect_add {k : Nat} {room : String} (h : effect c (.caller k) = some (.addToRoom room)) :
    ∃ rest, c.callers k = .join (room :: rest) := by
  simp only [effect] at h
  split at h <;> cases h
  exact ⟨_, ‹_›⟩

/-- `cleanup` takes the rooms from the set when every room that holds the id is in it, and
later a `join` adds the id only to a room that `cleanup` has yet to leave. -/
def LeavesAll (c : Connection) (M : String → Prop) : Action → Prop
  | .main _ => c.main = .snapshotRooms → ∀ room, M room → room ∈ c.joinedRooms
  | .caller k =>
    match c.callers k with
    | .join (room :: _) => ∀ rest, c.main.leaves = some rest → room ∈ rest
    | _ => True
  | _ => True

theorem leaves_step {a : Action} {M M' : String → Prop} (h : step cfg c a = some c')
    (hg : LeavesAll c M a) (hM : ∀ room, M' room ↔ accessed (effect c a) room (M room))
    (hi : ∀ rest, c.main.leaves = some rest → ∀ room, M room → room ∈ rest) {rest : List String}
    (hl : c'.main.leaves = some rest) {room : String} (hin : M' room) : room ∈ rest := by
  rw [hM] at hin
  have hsame : c'.main.leaves = c.main.leaves → Untouched (effect c a) → room ∈ rest := by
    intro he hu
    rw [hu.accessed_iff] at hin
    exact hi rest (he ▸ hl) room hin
  rcases step_rooms h with ⟨i, rfl, -, -⟩ | ⟨k, rfl, hmove⟩ | hrest
  · rcases mainStep_leaves h with ⟨he, hu⟩ | ⟨-, hm, he, hu⟩ | ⟨r, rest', hr, he, hop⟩
    · exact hsame he hu
    · rw [hu.accessed_iff] at hin
      rw [he] at hl
      cases hl
      exact hg hm room hin
    · rw [he] at hl
      cases hl
      have hne : room ≠ r := by
        rintro rfl
        simp [hop, accessed] at hin
      have hin : M room := by simpa [hop, accessed, Ne.symm hne] using hin
      exact (List.mem_cons.mp (hi _ hr room hin)).resolve_left hne
  · have hl' : c.main.leaves = some rest := by
      rw [← hl]
      exact (step_leaves h (by simp)).symm
    by_cases hadd : effect c (.caller k) = some (.addToRoom room)
    · -- the room that a `join` adds the id to is still to be left
      obtain ⟨rest', hk⟩ := effect_add hadd
      simp only [LeavesAll, hk] at hg
      exact hg rest hl'
    · refine hi rest hl' room ?_
      unfold accessed at hin
      rw [if_neg hadd] at hin
      split at hin
      · cases hin
      · exact hin
  · exact hsame (by rw [hrest.main]) hrest.effect

/-- Calls that were never started. -/
theorem idle_of_reachable {n : Nat}
    (h : (system cfg).ReachableWhen (fun _ a => ∀ k job, a = .start k job → k < n) c) {k : Nat}
    (hk : n ≤ k) : c.callers k = .idle := by
  refine h.invariant (I := fun c => c.callers k = .idle) rfl ?_
  intro c a c' _ ha hs hi
  by_cases hstart : ∃ job, a = .start k job
  · obtain ⟨job, rfl⟩ := hstart
    have := ha k job rfl
    omega
  · push Not at hstart
    exact step_idle hs hi hstart

end Connection

namespace Runtime

variable {cfg : ServerConfig} {s s' : Runtime}

/-- No `join` and `leave` of one room by one connection cross: neither makes its access to
the room while the other is between its accesses. -/
def RoomsApart (s : Runtime) : ServerAction → Prop
  | .conn i a => ∀ m, s.conns i = some m → m.conn.RoomsApart a
  | _ => True

theorem mirrored_of_reachable (h : (system cfg).ReachableWhen RoomsApart s) {i : Nat} {m : Member}
    (hm : s.conns i = some m) (hl : m.conn.main.leaves = none) :
    m.conn.Mirrored (InRoom s m.home i) := by
  refine rooms_invariant (g := fun c _ a => c.RoomsApart a)
    (I := fun c M => c.main.leaves = none → c.Mirrored M) ?_ ?_ ?_ ?_ ?_ h hm hl
  · intro s i b m hg hi
    exact hg m hi
  · intro c M key job
    trivial
  · intro n M hnone _
    refine ⟨List.nodup_nil, fun k r hk => ?_, fun k r _ => hnone r, fun r _ => ?_⟩
    · cases hk
    · simp [hnone r, Connection.initial]
  · intro n c a c' M M' hs hg hM hi hc
    exact Connection.mirrored_step hs hg hM hi hc
  · intro c M M' hM hi hc
    exact (hi hc).same rfl (fun _ => rfl) hM

/-- **`joined_rooms` mirrors the room map.** In every run of the server in which no `join`
and `leave` of one room by one connection cross: before a connection's cleanup, while no
call on it is between its accesses to a room, the room holds its id exactly if its
`joined_rooms` holds the room. -/
theorem joined_rooms_mirror {cfg : ServerConfig} {s : Runtime}
    (h : (system cfg).ReachableWhen RoomsApart s) {i : Nat} {m : Member}
    (hm : s.conns i = some m) (hlive : m.conn.main.cleaning = false) {room : String}
    (hidle : ¬ m.conn.Busy room) :
    InRoom s m.home i room ↔ room ∈ m.conn.joinedRooms :=
  (mirrored_of_reachable h hm (MainPc.leaves_of_live hlive)).settled room hidle

/-- Only calls below `n` are made on connections. -/
def callersBelow (n : Nat) : ServerAction → Bool
  | .conn _ (.start k _) | .call _ (.target _ k) | .child _ _ (.target _ k) => k < n
  | _ => true

theorem idle_of_reachable {n : Nat}
    (h : (system cfg).ReachableWhen (fun _ a => callersBelow n a = true) s) {i : Nat} {m : Member}
    (hm : s.conns i = some m) {k : Nat} (hk : n ≤ k) : m.conn.callers k = .idle := by
  refine Connection.idle_of_reachable (conn_reachable ?_ ?_ h hm) hk
  · intro s i b m hg _ j job hj
    subst hj
    simpa [callersBelow] using hg
  · intro s a i c key job hg ht j job' hj
    cases hj
    rcases ht with ⟨k, rfl⟩ | ⟨k, l, rfl⟩ <;> simpa [callersBelow] using hg

theorem roomsApart_of_single {a : ServerAction}
    (h : (system cfg).ReachableWhen (fun _ a => callersBelow 1 a = true) s)
    : RoomsApart s a := by
  cases a with
  | conn i b =>
    intro m hm
    cases b with
    | caller k =>
      have hk : k = 0 ∨ m.conn.callers k = .idle := by
        rcases Nat.eq_zero_or_pos k with h0 | h0
        · exact .inl h0
        · exact .inr (idle_of_reachable h hm h0)
      have hout : ∀ j, j ≠ 0 → (m.conn.callers j).roomPc = .outside := by
        intro j hj
        rw [idle_of_reachable h hm (by omega)]
        rfl
      unfold Connection.RoomsApart
      dsimp only
      split
      · rename_i room rest hc
        obtain rfl := hk.resolve_right (by simp [hc])
        intro j
        by_cases hj : j = 0
        · simp [hj, hc, Caller.roomPc]
        · simp [hout j hj]
      · rename_i room rest hc
        obtain rfl := hk.resolve_right (by simp [hc])
        intro j
        by_cases hj : j = 0
        · simp [hj, hc, Caller.roomPc]
        · simp [hout j hj]
      · trivial
    | _ => trivial
  | _ => trivial

theorem joined_rooms_mirror_run :
    ∃ s m, (system (.postcard false)).Reachable s ∧ s.conns 0 = some m ∧
      m.conn.joinedRooms = ["a"] ∧ InRoom s m.home 0 "a" := by
  obtain ⟨s, hr, hs⟩ := System.exists_reachableWhen_of_execWhen
    (S := system (.postcard false)) (g := fun _ => callersBelow 1)
    (l := List.flatten [readyRun, [.conn 0 (.start 0 (.join ["a"]))],
      List.replicate 3 (.conn 0 (.caller 0))])
    (p := fun s => (s.conns 0).any fun m => m.conn.joinedRooms = ["a"] &&
      m.conn.main.cleaning = false && (m.conn.callers 0).roomPc = .outside) (by decide +kernel)
  obtain ⟨m, hm, hf⟩ := (Option.any_eq_true _ _).mp hs
  simp only [Bool.and_eq_true, decide_eq_true_eq] at hf
  have hidle : ¬ m.conn.Busy "a" := by
    rintro ⟨k, hk⟩
    by_cases h0 : k = 0
    · rw [h0, hf.2] at hk
      cases hk
    · rw [idle_of_reachable hr hm (by omega)] at hk
      cases hk
  have happly := joined_rooms_mirror (hr.imp fun _ _ hs _ => roomsApart_of_single hs) hm hf.1.2 hidle
  exact ⟨s, m, hr.reachable, hm, hf.1.1, happly.mpr (by rw [hf.1.1]; exact List.mem_singleton.mpr rfl)⟩

/-- A `leave` of the room runs between the two accesses of a `join`: the set keeps a room
that does not hold the id. -/
theorem joined_rooms_differ :
    ¬ ∀ s m, (system (.postcard false)).Reachable s → s.conns 0 = some m →
      m.conn.main.cleaning = false → (∀ k, (m.conn.callers k).inRooms = false) →
        ∀ room, InRoom s m.home 0 room ↔ room ∈ m.conn.joinedRooms := by
  intro h
  obtain ⟨s, hr, hs⟩ := System.exists_reachableWhen_of_execWhen
    (S := system (.postcard false)) (g := fun _ => callersBelow 2)
    (l := List.flatten [readyRun,
      [.conn 0 (.start 0 (.join ["a"])), .conn 0 (.start 1 (.leave ["a"])), .conn 0 (.caller 0)],
      List.replicate 4 (.conn 0 (.caller 1)), List.replicate 2 (.conn 0 (.caller 0))])
    (p := fun s => (s.conns 0).any fun m : Member => m.conn.main.cleaning = false &&
      (m.conn.callers 0).inRooms = false && (m.conn.callers 1).inRooms = false &&
      decide ("a" ∈ m.conn.joinedRooms) &&
      decide (0 ∉ (s.namespaces m.home).members "a")) (by decide +kernel)
  obtain ⟨m, hm, hf⟩ := (Option.any_eq_true _ _).mp hs
  simp only [Bool.and_eq_true, decide_eq_true_eq] at hf
  obtain ⟨⟨⟨⟨hlive, h0⟩, h1⟩, hin⟩, hout⟩ := hf
  refine hout ((h s m hr.reachable hm hlive (fun k => ?_) "a").mpr hin)
  match k with
  | 0 => exact h0
  | 1 => exact h1
  | k + 2 => rw [idle_of_reachable hr hm (by omega)]; rfl

/-- Every cleanup takes all rooms of its connection from the set, and no `join` adds a
connection to a room that its cleanup will not leave any more. -/
def LeavesAll (s : Runtime) : ServerAction → Prop
  | .conn i a => ∀ m, s.conns i = some m → m.conn.LeavesAll (InRoom s m.home i) a
  | _ => True

/-- **A closed connection is in no room.** In every run of the server in which each
cleanup, when it reads `joined_rooms`, finds there every room that holds the connection's
id, and no `join` adds the id after that to a room the cleanup has left or will not leave:
once the cleanup has returned, no room holds the id. -/
theorem no_room_after_cleanup {cfg : ServerConfig} {s : Runtime}
    (h : (system cfg).ReachableWhen LeavesAll s) {i : Nat} {m : Member}
    (hm : s.conns i = some m) (hf : m.conn.main = .finished) (n : Nat) (room : String) :
    ¬ InRoom s n i room := by
  have hhome : ∀ r, ¬ InRoom s m.home i r := by
    intro r hin
    refine List.not_mem_nil (a := r) ?_
    refine rooms_invariant (g := fun c M a => c.LeavesAll M a)
      (I := fun c M => ∀ rest, c.main.leaves = some rest → ∀ room, M room → room ∈ rest)
      ?_ ?_ ?_ ?_ ?_ h hm [] (by rw [hf]; rfl) r hin
    · intro s i b m hg hi
      exact hg m hi
    · intro c M key job
      trivial
    · intro n M hnone rest hl room hin
      exact absurd hin (hnone room)
    · intro n c a c' M M' hs hg hM hi rest hl room hin
      exact Connection.leaves_step hs hg hM hi hl hin
    · intro c M M' hM hi rest hl room hin
      exact hi rest hl room ((hM room).mp hin)
  intro hin
  obtain ⟨m', hm', rfl⟩ := housed_of_reachable h n i room hin
  rw [hm] at hm'
  cases hm'
  exact hhome room hin

/-- One caller, which is outside its `join`s when cleanup reads the set and stands still
from then on. -/
def singleCaller (s : Runtime) : ServerAction → Bool
  | .conn i (.main _) => (s.conns i).all fun m =>
      m.conn.main ≠ .snapshotRooms || (m.conn.callers 0).roomPc = .outside
  | .conn i (.caller _) => (s.conns i).all fun m => m.conn.main.leaves = none
  | a => callersBelow 1 a

theorem callersBelow_of_singleCaller {a : ServerAction} (h : singleCaller s a = true) :
    callersBelow 1 a = true := by
  unfold singleCaller at h
  split at h
  · rfl
  · rfl
  · exact h

theorem leavesAll_of_single {a : ServerAction}
    (h : (system cfg).ReachableWhen (fun s a => singleCaller s a = true) s)
    (ha : singleCaller s a = true) : LeavesAll s a := by
  have hbelow : (system cfg).ReachableWhen (fun _ a => callersBelow 1 a = true) s :=
    h.mono fun _ _ => callersBelow_of_singleCaller
  cases a with
  | conn i b =>
    intro m hm
    cases b with
    | main i =>
      intro hsnap room hin
      have hapart : (system cfg).ReachableWhen RoomsApart s :=
        hbelow.imp fun _ _ hs _ => roomsApart_of_single hs
      have hidle : (m.conn.callers 0).roomPc = .outside := by
        simpa [singleCaller, hm, hsnap] using ha
      refine ((mirrored_of_reachable hapart hm (by rw [hsnap]; rfl)).settled room ?_).mp hin
      rintro ⟨k, hk⟩
      by_cases h0 : k = 0
      · rw [h0, hidle] at hk
        cases hk
      · rw [idle_of_reachable hbelow hm (by omega)] at hk
        cases hk
    | caller k =>
      have hl : m.conn.main.leaves = none := by simpa [singleCaller, hm] using ha
      unfold Connection.LeavesAll
      dsimp only
      split
      · intro rest hrest
        rw [hl] at hrest
        cases hrest
      · trivial
    | _ => trivial
  | _ => trivial

theorem no_room_after_cleanup_run :
    ∃ s m, (system (.postcard false)).Reachable s ∧ s.conns 0 = some m ∧
      m.conn.main = .finished ∧ m.conn.callers 0 = .join [] ∧ ∀ room, ¬ InRoom s m.home 0 room := by
  obtain ⟨s, hr, hs⟩ := System.exists_reachableWhen_of_execWhen
    (S := system (.postcard false)) (g := singleCaller)
    (l := List.flatten [readyRun, [.conn 0 (.start 0 (.join ["a"]))],
      List.replicate 2 (.conn 0 (.caller 0)), cleanupRun, List.replicate 2 (.conn 0 (.main .go))])
    (p := fun s => (s.conns 0).any fun m : Member => m.conn.main = .finished &&
      match m.conn.callers 0 with | .join [] => true | _ => false) (by decide +kernel)
  obtain ⟨m, hm, hf⟩ := (Option.any_eq_true _ _).mp hs
  simp only [Bool.and_eq_true, decide_eq_true_eq] at hf
  refine ⟨s, m, hr.reachable, hm, hf.1, ?_, fun room => ?_⟩
  · revert hf
    cases m.conn.callers 0 with
    | join rooms => cases rooms <;> simp
    | _ => simp
  · exact no_room_after_cleanup (hr.imp fun _ _ hs ha => leavesAll_of_single hs ha) hm hf.1 _ room

/-- A holder of the connection joins a room after the cleanup has returned. -/
theorem room_kept_after_cleanup :
    ¬ ∀ s m, (system (.postcard false)).Reachable s → s.conns 0 = some m →
      m.conn.main = .finished → ∀ room, ¬ InRoom s m.home 0 room := by
  intro h
  obtain ⟨s, hr, hs⟩ := System.exists_reachable_of_exec (S := system (.postcard false))
    (l := List.flatten [readyRun, cleanupRun,
      [.conn 0 (.start 0 (.join ["a"])), .conn 0 (.caller 0)]])
    (p := fun s => (s.conns 0).any fun m : Member => m.conn.main = .finished &&
      decide (0 ∈ (s.namespaces m.home).members "a")) (by decide +kernel)
  obtain ⟨m, hm, hf⟩ := (Option.any_eq_true _ _).mp hs
  simp only [Bool.and_eq_true, decide_eq_true_eq] at hf
  exact h s m hr hm hf.1 "a" hf.2

end Runtime

end WsIo.Server
