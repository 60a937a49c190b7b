import WsIo.Core.Postcard

/-!
# The five packet codecs

`WsIoPacketCodec` and the modules behind it. Each module hands the tuple of a packet (its
type as a `u8`, its key, its data) to a serde library outside the repository;
`SerdeLibrary.Lawful` is what is assumed of that library. `WsIoPacketCodec.toPacketCodec`:
every codec over a lawful library is a `PacketCodec`, so what is proved of any `PacketCodec`
holds under each of the five.
-/

namespace WsIo.Core

/-! ## Serde libraries -/

/-- The tuple that a serde library sees. -/
abbrev SerdeTuple := UInt8 × Option String × Option Bytes

/-- A serde library, at the one type that the codecs use it for. -/
structure SerdeLibrary where
  serialize : SerdeTuple → Except Error Bytes
  deserialize : Bytes → Except Error SerdeTuple

def isUtf8 (bytes : Bytes) : Bool := (String.fromUTF8? ⟨bytes.toArray⟩).isSome

/-- What is assumed of a library: it reads back what it wrote, each of the three elements
takes at least one byte, and a text format writes valid UTF-8. -/
structure SerdeLibrary.Lawful (lib : SerdeLibrary) (isText : Bool) : Prop where
  deserialize_serialize : ∀ {t bytes}, lib.serialize t = .ok bytes → lib.deserialize bytes = .ok t
  elements : ∀ {t bytes}, lib.serialize t = .ok bytes → ∃ type key data : Bytes,
    type ≠ [] ∧ key ≠ [] ∧ data ≠ [] ∧ (type ++ key ++ data).Sublist bytes
  utf8 : isText = true → ∀ {t bytes}, lib.serialize t = .ok bytes → isUtf8 bytes = true

theorem SerdeLibrary.Lawful.length {lib : SerdeLibrary} {isText : Bool} (h : lib.Lawful isText)
    {t : SerdeTuple} {bytes : Bytes} (hs : lib.serialize t = .ok bytes) : 3 ≤ bytes.length := by
  obtain ⟨type, key, data, htype, hkey, hdata, hsub⟩ := h.elements hs
  have hlen := hsub.length_le
  rw [List.length_append, List.length_append] at hlen
  have h₁ := List.length_pos_iff.mpr htype
  have h₂ := List.length_pos_iff.mpr hkey
  have h₃ := List.length_pos_iff.mpr hdata
  omega

/-! ## The tuples of a packet -/

/-- The tuple structs `InnerPacket` and `InnerPacketRef`. -/
abbrev InnerPacket := WsIoPacketType × Option String × Option Bytes

namespace WsIoPacket

def fromInner (inner : InnerPacket) : WsIoPacket where
  data := inner.2.2
  key := inner.2.1
  type := inner.1

def toInnerRef (packet : WsIoPacket) : InnerPacket := (packet.type, packet.key, packet.data)

theorem fromInner_toInnerRef (packet : WsIoPacket) : fromInner packet.toInnerRef = packet := rfl

end WsIoPacket

/-- `Serialize` of `InnerPacketRef`, the type by `Serialize_repr`. -/
def serializeInner (lib : SerdeLibrary) (inner : InnerPacket) : Except Error Bytes :=
  lib.serialize (inner.1.toByte, inner.2.1, inner.2.2)

/-- `Deserialize` of `InnerPacket`, the type by `Deserialize_repr`. -/
def deserializeInner (lib : SerdeLibrary) (bytes : Bytes) : Except Error InnerPacket :=
  match lib.deserialize bytes with
  | .error e => .error e
  | .ok (b, key, data) =>
    match decodeType b with
    | none => .error .codec
    | some type => .ok (type, key, data)

theorem deserializeInner_serializeInner {lib : SerdeLibrary} {isText : Bool}
    (h : lib.Lawful isText) {inner : InnerPacket} {bytes : Bytes}
    (hs : serializeInner lib inner = .ok bytes) : deserializeInner lib bytes = .ok inner := by
  simp only [deserializeInner, h.deserialize_serialize hs, decodeType_toByte]

/-! ## The codecs -/

/-- The libraries behind the five codecs. -/
structure SerdeLibraries where
  ciborium : SerdeLibrary
  rmpSerde : SerdeLibrary
  postcard : SerdeLibrary
  serdeJson : SerdeLibrary
  sonicRs : SerdeLibrary

/-- The module of one codec: its `IS_TEXT` and the library it uses. -/
structure CodecModule where
  isText : Bool
  library : SerdeLibraries → SerdeLibrary

namespace CodecModule

def decode (m : CodecModule) (libs : SerdeLibraries) (bytes : Bytes) : Except Error WsIoPacket :=
  (deserializeInner (m.library libs) bytes).map .fromInner

def encode (m : CodecModule) (libs : SerdeLibraries) (packet : WsIoPacket) : Except Error Bytes :=
  serializeInner (m.library libs) packet.toInnerRef

end CodecModule

def WsIoPacketCborCodec : CodecModule := ⟨false, (·.ciborium)⟩
def WsIoPacketMsgpackCodec : CodecModule := ⟨false, (·.rmpSerde)⟩
def WsIoPacketPostcardCodec : CodecModule := ⟨false, (·.postcard)⟩
def WsIoPacketSerdeJsonCodec : CodecModule := ⟨true, (·.serdeJson)⟩
def WsIoPacketSonicRsCodec : CodecModule := ⟨true, (·.sonicRs)⟩

/-- `WsIoPacketCodec`. -/
inductive WsIoPacketCodec
  | cbor
  | msgpack
  | postcard
  | serdeJson
  | sonicRs
  deriving DecidableEq, Repr

namespace WsIoPacketCodec

def decode (libs : SerdeLibraries) : WsIoPacketCodec → Bytes → Except Error WsIoPacket
  | .cbor => WsIoPacketCborCodec.decode libs
  | .msgpack => WsIoPacketMsgpackCodec.decode libs
  | .postcard => WsIoPacketPostcardCodec.decode libs
  | .serdeJson => WsIoPacketSerdeJsonCodec.decode libs
  | .sonicRs => WsIoPacketSonicRsCodec.decode libs

def encode (libs : SerdeLibraries) : WsIoPacketCodec → WsIoPacket → Except Error Bytes
  | .cbor => WsIoPacketCborCodec.encode libs
  | .msgpack => WsIoPacketMsgpackCodec.encode libs
  | .postcard => WsIoPacketPostcardCodec.encode libs
  | .serdeJson => WsIoPacketSerdeJsonCodec.encode libs
  | .sonicRs => WsIoPacketSonicRsCodec.encode libs

def isText : WsIoPacketCodec → Bool
  | .cbor => WsIoPacketCborCodec.isText
  | .msgpack => WsIoPacketMsgpackCodec.isText
  | .postcard => WsIoPacketPostcardCodec.isText
  | .serdeJson => WsIoPacketSerdeJsonCodec.isText
  | .sonicRs => WsIoPacketSonicRsCodec.isText

/-- The library behind a codec. -/
def library (libs : SerdeLibraries) : WsIoPacketCodec → SerdeLibrary
  | .cbor => libs.ciborium
  | .msgpack => libs.rmpSerde
  | .postcard => libs.postcard
  | .serdeJson => libs.serdeJson
  | .sonicRs => libs.sonicRs

variable {libs : SerdeLibraries} {codec : WsIoPacketCodec}

theorem encode_eq (packet : WsIoPacket) :
    codec.encode libs packet = serializeInner (codec.library libs) packet.toInnerRef := by
  cases codec <;> rfl

theorem decode_eq (bytes : Bytes) :
    codec.decode libs bytes = (deserializeInner (codec.library libs) bytes).map .fromInner := by
  cases codec <;> rfl

/-- The assumption on the library behind the codec. -/
def Lawful (libs : SerdeLibraries) (codec : WsIoPacketCodec) : Prop :=
  (codec.library libs).Lawful codec.isText

theorem decode_encode (h : codec.Lawful libs) {packet : WsIoPacket} {bytes : Bytes}
    (he : codec.encode libs packet = .ok bytes) : codec.decode libs bytes = .ok packet := by
  rw [encode_eq] at he
  rw [decode_eq, deserializeInner_serializeInner h he]
  rfl

/-- The codec as the rest of the development sees it. -/
def toPacketCodec (h : codec.Lawful libs) : PacketCodec where
  isText := codec.isText
  encode := codec.encode libs
  decode := codec.decode libs
  decode_encode := decode_encode h
  length_encode := by
    intro packet bytes he
    rw [encode_eq] at he
    exact h.length he

end WsIoPacketCodec

/-! ## postcard -/

namespace Postcard

/-- The postcard library. -/
def library : SerdeLibrary where
  serialize t :=
    let key := t.2.1.map keyBytes
    if key.all fits && t.2.2.all fits then
      .ok (t.1 :: (encodeOption key ++ encodeOption t.2.2))
    else .error .codec
  deserialize
    | [] => .error .codec
    | b :: rest =>
      match decodeOption rest with
      | none => .error .codec
      | some (key, rest) =>
        match decodeOption rest with
        | none => .error .codec
        | some (data, _) =>
          match key with
          | none => .ok (b, none, data)
          | some bytes =>
            match decodeKey bytes with
            | none => .error .codec
            | some key => .ok (b, some key, data)

theorem library_lawful : library.Lawful false where
  deserialize_serialize := by
    rintro ⟨b, key, data⟩ bytes hs
    simp only [library] at hs
    split at hs
    · rename_i hf
      cases hs
      rw [Bool.and_eq_true] at hf
      have hkey : decodeOption (encodeOption (key.map keyBytes) ++ encodeOption data) =
          some (key.map keyBytes, encodeOption data) := by
        refine decodeOption_encodeOption _ _ fun bytes hb => ?_
        rw [hb] at hf
        exact hf.1
      have hdata : decodeOption (encodeOption data) = some (data, []) := by
        have hrest := decodeOption_encodeOption data [] fun bytes hb => by
          rw [hb] at hf
          exact hf.2
        rwa [List.append_nil] at hrest
      simp only [library, hkey, hdata]
      cases key with
      | none => rfl
      | some k => simp only [Option.map_some, decodeKey_keyBytes]
    · cases hs
  elements := by
    rintro ⟨b, key, data⟩ bytes hs
    simp only [library] at hs
    split at hs
    · cases hs
      have hne : ∀ o, encodeOption o ≠ [] := fun o =>
        List.length_pos_iff.mp (length_encodeOption o)
      exact ⟨[b], _, _, List.cons_ne_nil _ _, hne _, hne _, .refl _⟩
    · cases hs
  utf8 := nofun

/-- A library that is not built in. -/
def missing : SerdeLibrary := ⟨fun _ => .error .codec, fun _ => .error .codec⟩

/-- The libraries of a build with the postcard codec only. -/
def libraries : SerdeLibraries := ⟨missing, missing, library, missing, missing⟩

theorem encode_libraries (packet : WsIoPacket) :
    WsIoPacketCodec.postcard.encode libraries packet = encode packet := rfl

theorem decode_libraries (bytes : Bytes) :
    WsIoPacketCodec.postcard.decode libraries bytes = decode bytes := by
  rw [WsIoPacketCodec.decode_eq]
  cases bytes with
  | nil => rfl
  | cons b rest =>
    dsimp only [WsIoPacketCodec.library, libraries, deserializeInner, library, decode]
    rcases decodeOption rest with - | ⟨key, tail⟩
    · cases decodeType b <;> rfl
    · -- the order of the two failures does not show
      rcases htype : decodeType b with - | type
      all_goals
        dsimp only
        rcases decodeOption tail with - | ⟨data, -⟩
        · rfl
        · cases key with
          | none =>
            dsimp only
            rw [htype]
            rfl
          | some bytes =>
            dsimp only
            cases decodeKey bytes with
            | none => rfl
            | some key =>
              dsimp only
              rw [htype]
              rfl

/-- The codec of the concrete runs is `WsIoPacketCodec::Postcard` over this library. -/
theorem toPacketCodec_postcard :
    @WsIoPacketCodec.toPacketCodec libraries .postcard library_lawful = postcard := by
  have hencode : WsIoPacketCodec.postcard.encode libraries = encode := funext encode_libraries
  have hdecode : WsIoPacketCodec.postcard.decode libraries = decode := funext decode_libraries
  simp only [WsIoPacketCodec.toPacketCodec, postcard, hencode, hdecode]
  rfl

end Postcard

end WsIo.Core
