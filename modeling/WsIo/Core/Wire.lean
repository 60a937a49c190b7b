import WsIo.Core.Endpoint

/-!
# Packets on the wire

Which packet type a received message carries, and that this is decided by the call that
enqueued it: a message enqueued for an init packet is handled as an init packet by the
other end, and so on. Both ends use the same codec.
-/

namespace WsIo.Core

/-- The packet type that a call sends, if it sends a packet. -/
def Origin.type : Origin → Option WsIoPacketType
  | .init => some .init
  | .ready => some .ready
  | .event => some .event
  | .disconnect => some .disconnect
  | .ping => none
  | .close => none

/-- The read loop hands the message on as a packet of the given type. -/
def carries (codec : PacketCodec) (heartbeats : Bool) (t : WsIoPacketType) (m : Message) : Bool :=
  match packetBytes heartbeats m with
  | none => false
  | some bytes =>
    match codec.decode bytes with
    | .error _ => false
    | .ok p => p.type = t

/-- The message is the one that its origin encodes. -/
def Authentic (codec : PacketCodec) (m : Outgoing) : Prop :=
  match m.origin with
  | .close => m.message = .close
  | .ping => m.message = .binary [0x01]
  | o => ∃ p : WsIoPacket, o.type = some p.type ∧ encodePacketToMessage codec p = .ok m.message

theorem carries_encoded {codec : PacketCodec} {p : WsIoPacket} {m : Message}
    (h : encodePacketToMessage codec p = .ok m) (heartbeats : Bool) (t : WsIoPacketType) :
    carries codec heartbeats t m = decide (p.type = t) := by
  obtain ⟨bytes, hb, hd⟩ := decode_packetBytes h heartbeats
  simp only [carries, hb, hd]

/-- What the other end makes of a message is decided by its origin. A heartbeat is no
packet only where heartbeats are skipped. -/
theorem Authentic.carries_eq {codec : PacketCodec} {m : Outgoing} (h : Authentic codec m)
    (heartbeats : Bool) (hping : heartbeats = false → m.origin ≠ .ping) (t : WsIoPacketType) :
    carries codec heartbeats t m.message = decide (m.origin.type = some t) := by
  obtain ⟨origin, message⟩ := m
  have hpacket : (∃ p : WsIoPacket, origin.type = some p.type ∧
      encodePacketToMessage codec p = .ok message) →
      carries codec heartbeats t message = decide (origin.type = some t) := by
    rintro ⟨p, hp, he⟩
    rw [carries_encoded he, hp]
    simp
  cases origin with
  | close =>
    have hm : message = .close := h
    rw [hm]
    rfl
  | ping =>
    have hm : message = .binary [0x01] := h
    cases heartbeats with
    | true =>
      rw [hm]
      rfl
    | false => exact absurd rfl (hping rfl)
  | init => exact hpacket h
  | ready => exact hpacket h
  | event => exact hpacket h
  | disconnect => exact hpacket h

/-- How many messages of an origin a list holds. -/
def countOf (o : Origin) (l : List Outgoing) : Nat := l.countP (·.origin = o)

@[simp, grind =] theorem countOf_nil (o : Origin) : countOf o [] = 0 := rfl

@[simp, grind =] theorem countOf_cons (o : Origin) (m : Outgoing) (l : List Outgoing) :
    countOf o (m :: l) = countOf o l + if m.origin = o then 1 else 0 := by
  simp [countOf, List.countP_cons]

@[simp, grind =] theorem countOf_append (o : Origin) (l l' : List Outgoing) :
    countOf o (l ++ l') = countOf o l + countOf o l' := List.countP_append

theorem countOf_pos {o : Origin} {l : List Outgoing} :
    0 < countOf o l ↔ ∃ m ∈ l, m.origin = o := by
  simp [countOf, List.countP_pos_iff]

end WsIo.Core
