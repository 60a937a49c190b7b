import Mathlib.Data.List.Basic

/-!
# Packets, codecs and websocket messages

The packets of `wsio-core/src/packet/mod.rs`, the messages of the websocket layer, and
what the protocol relies on from a packet codec. The serde backends behind
`WsIoPacketCodec` are outside the repository: `PacketCodec` carries the two functions
and, as fields, the facts documented for every backend (decoding gives back what was
encoded, and each of the three tuple elements takes at least one byte).
-/

namespace WsIo.Core

/-- The bytes of a frame or of a payload. -/
abbrev Bytes := List UInt8

/-- The errors an operation returns, by where they come from. -/
inductive Error
  | text (message : String)
  | transition
  | elapsed
  | handler
  | codec
  | closed
  deriving DecidableEq, Repr

/-- `WsIoPacketType`. -/
inductive WsIoPacketType
  | disconnect
  | event
  | init
  | ready
  deriving DecidableEq, Repr

/-- The `#[repr(u8)]` value of a packet type. -/
def WsIoPacketType.toByte : WsIoPacketType → UInt8
  | .disconnect => 0
  | .event => 1
  | .init => 2
  | .ready => 3

/-- `Deserialize_repr` of a packet type. -/
def decodeType (b : UInt8) : Option WsIoPacketType :=
  if b = 0 then some .disconnect
  else if b = 1 then some .event
  else if b = 2 then some .init
  else if b = 3 then some .ready
  else none

theorem decodeType_toByte (t : WsIoPacketType) : decodeType t.toByte = some t := by
  cases t <;> rfl

/-- `WsIoPacket`. -/
structure WsIoPacket where
  data : Option Bytes
  key : Option String
  type : WsIoPacketType
  deriving DecidableEq, Repr

namespace WsIoPacket

def new (type : WsIoPacketType) (key : Option String) (data : Option Bytes) : WsIoPacket :=
  { data, key, type }

def newDisconnect : WsIoPacket := new .disconnect none none

def newEvent (event : String) (data : Option Bytes) : WsIoPacket := new .event (some event) data

def newInit (data : Option Bytes) : WsIoPacket := new .init none data

def newReady : WsIoPacket := new .ready none none

end WsIoPacket

/-- A packet codec: what `WsIoPacketCodec` offers, with the laws of its serde backend. -/
structure PacketCodec where
  isText : Bool
  encode : WsIoPacket → Except Error Bytes
  decode : Bytes → Except Error WsIoPacket
  decode_encode : ∀ {p bytes}, encode p = .ok bytes → decode bytes = .ok p
  length_encode : ∀ {p bytes}, encode p = .ok bytes → 3 ≤ bytes.length

/-- tungstenite's `Message`; a text message is given by its UTF-8 bytes. -/
inductive Message
  | text (bytes : Bytes)
  | binary (bytes : Bytes)
  | close
  | ping
  | pong
  deriving DecidableEq, Repr

/-- What the reader half of a websocket stream yields: `none` at the end of the stream,
`some none` for a transport error. -/
abbrev Frame := Option (Option Message)

/-- `encode_packet_to_message`, the same code in the namespace and in the client runtime. -/
def encodePacketToMessage (codec : PacketCodec) (packet : WsIoPacket) : Except Error Message :=
  match codec.encode packet with
  | .error e => .error e
  | .ok bytes => if codec.isText then .ok (.text bytes) else .ok (.binary bytes)

/-- The packet a received message carries, when the read loop hands it to
`handle_incoming_packet`. The server skips one-byte binary frames (`heartbeats`), the
client does not. -/
def packetBytes (heartbeats : Bool) : Message → Option Bytes
  | .binary bytes => if heartbeats && bytes.length == 1 then none else some bytes
  | .text bytes => some bytes
  | _ => none

/-- Both read loops hand every encoded packet to `handle_incoming_packet`, where it
decodes to the packet that was sent. -/
theorem decode_packetBytes {codec : PacketCodec} {packet : WsIoPacket} {m : Message}
    (h : encodePacketToMessage codec packet = .ok m) (heartbeats : Bool) :
    ∃ bytes, packetBytes heartbeats m = some bytes ∧ codec.decode bytes = .ok packet := by
  unfold encodePacketToMessage at h
  split at h
  · cases h
  · rename_i bytes hb
    have hlen := codec.length_encode hb
    have hdec := codec.decode_encode hb
    split at h
    · cases h
      exact ⟨bytes, rfl, hdec⟩
    · cases h
      refine ⟨bytes, ?_, hdec⟩
      have hne : bytes.length ≠ 1 := by omega
      simp [packetBytes, hne]

end WsIo.Core
