import Mathlib.Algebra.Group.Nat.Defs
import WsIo.Core.Packet

/-!
# The postcard codec

The wire format of `WsIoPacketPostcardCodec`: the three elements of `InnerPacket` in
order, the packet type as one byte, an optional string and an optional byte list each
as a tag byte, a varint length and the bytes. `from_bytes` ignores what follows.

`postcard` shows that the laws of `PacketCodec` are those of a real backend, and it is
the codec of the concrete runs in this development.
-/

namespace WsIo.Core.Postcard

/-- A length in base 128, lowest digit first, in at most the given number of bytes. -/
def encodeVarint : Nat → Nat → Bytes
  | 0, _ => []
  | fuel + 1, n =>
    if n < 128 then [UInt8.ofNat n]
    else UInt8.ofNat (n % 128 + 128) :: encodeVarint fuel (n / 128)

def decodeVarint : Nat → Bytes → Option (Nat × Bytes)
  | 0, _ => none
  | _ + 1, [] => none
  | fuel + 1, b :: rest =>
    if b.toNat < 128 then some (b.toNat, rest)
    else
      match decodeVarint fuel rest with
      | none => none
      | some (n, rest) => some (b.toNat - 128 + 128 * n, rest)

theorem decodeVarint_encodeVarint (fuel n : Nat) (rest : Bytes) (h : n < 128 ^ (fuel + 1)) :
    decodeVarint (fuel + 1) (encodeVarint (fuel + 1) n ++ rest) = some (n, rest) := by
  -- one byte a round; the last round has a digit below 128
  induction fuel generalizing n with
  | zero =>
    have hn : n < 128 := by simpa using h
    have hb : (UInt8.ofNat n).toNat = n := by simp; omega
    simp [encodeVarint, decodeVarint, hn, hb]
  | succ fuel ih =>
    unfold encodeVarint
    split
    · rename_i hn
      have hb : (UInt8.ofNat n).toNat = n := by simp; omega
      simp [decodeVarint, hb, hn]
    · rename_i hn
      have hb : (UInt8.ofNat (n % 128 + 128)).toNat = n % 128 + 128 := by simp; omega
      have hd : n / 128 < 128 ^ (fuel + 1) := by
        rw [Nat.div_lt_iff_lt_mul (by decide)]
        rwa [Nat.pow_succ] at h
      have hlarge : ¬ n % 128 + 128 < 128 := by omega
      rw [List.cons_append, decodeVarint, hb, if_neg hlarge, ih _ hd]
      simp only [Option.some.injEq, Prod.mk.injEq, and_true]
      omega

/-- The lengths that `usize` can hold; ten varint bytes suffice for them. -/
def fits (bytes : Bytes) : Bool := bytes.length < 2 ^ 64

def encodeOption : Option Bytes → Bytes
  | none => [0]
  | some bytes => 1 :: (encodeVarint 10 bytes.length ++ bytes)

def decodeOption : Bytes → Option (Option Bytes × Bytes)
  | [] => none
  | tag :: rest =>
    if tag = 0 then some (none, rest)
    else if tag = 1 then
      match decodeVarint 10 rest with
      | none => none
      | some (n, rest) =>
        if n ≤ rest.length ∧ n < 2 ^ 64 then some (some (rest.take n), rest.drop n) else none
    else none

theorem decodeOption_encodeOption (o : Option Bytes) (rest : Bytes)
    (h : ∀ bytes, o = some bytes → fits bytes = true) :
    decodeOption (encodeOption o ++ rest) = some (o, rest) := by
  cases o with
  | none => rfl
  | some bytes =>
    have hf : bytes.length < 2 ^ 64 := by simpa [fits] using h bytes rfl
    have hv := decodeVarint_encodeVarint 9 bytes.length (bytes ++ rest) (by
      have : (2 : Nat) ^ 64 ≤ 128 ^ 10 := by decide
      omega)
    have hone : ¬ (1 : UInt8) = 0 := by decide
    simp only [encodeOption, List.cons_append, List.append_assoc, decodeOption, hone, if_false,
      if_true, hv]
    rw [if_pos ⟨by simp, hf⟩]
    simp

def keyBytes (key : String) : Bytes := key.toByteArray.data.toList

def decodeKey (bytes : Bytes) : Option String := String.fromUTF8? ⟨bytes.toArray⟩

theorem decodeKey_keyBytes (key : String) : decodeKey (keyBytes key) = some key := by
  have hb : (⟨(keyBytes key).toArray⟩ : ByteArray) = key.toByteArray := by simp [keyBytes]
  unfold decodeKey String.fromUTF8?
  rw [hb, dif_pos key.isValidUTF8]
  rfl

/-- `to_allocvec(&packet.to_inner_ref())`. -/
def encode (p : WsIoPacket) : Except Error Bytes :=
  let key := p.key.map keyBytes
  if (key.all fits) && (p.data.all fits) then
    .ok (p.type.toByte :: (encodeOption key ++ encodeOption p.data))
  else .error .codec

/-- `WsIoPacket::from_inner(from_bytes(bytes)?)`. -/
def decode : Bytes → Except Error WsIoPacket
  | [] => .error .codec
  | b :: rest =>
    match decodeType b, decodeOption rest with
    | some type, some (key, rest) =>
      match decodeOption rest with
      | some (data, _) =>
        match key with
        | none => .ok { data, key := none, type }
        | some bytes =>
          match decodeKey bytes with
          | some key => .ok { data, key := some key, type }
          | none => .error .codec
      | none => .error .codec
    | _, _ => .error .codec

theorem decode_encode {p : WsIoPacket} {bytes : Bytes} (h : encode p = .ok bytes) :
    decode bytes = .ok p := by
  obtain ⟨data, key, type⟩ := p
  unfold encode at h
  dsimp only at h
  split at h
  · rename_i hf
    cases h
    rw [Bool.and_eq_true] at hf
    have hkey : decodeOption (encodeOption (key.map keyBytes) ++ encodeOption data) =
        some (key.map keyBytes, encodeOption data) := by
      refine decodeOption_encodeOption _ _ ?_
      intro b hb
      rw [hb] at hf
      exact hf.1
    have hdata : decodeOption (encodeOption data) = some (data, []) := by
      have := decodeOption_encodeOption data [] (by
        intro b hb
        rw [hb] at hf
        exact hf.2)
      rwa [List.append_nil] at this
    simp only [decode, decodeType_toByte, hkey, hdata]
    cases key with
    | none => rfl
    | some k => simp only [Option.map_some, decodeKey_keyBytes]
  · cases h

theorem length_encodeOption (o : Option Bytes) : 1 ≤ (encodeOption o).length := by
  cases o <;> simp [encodeOption]

theorem length_encode {p : WsIoPacket} {bytes : Bytes} (h : encode p = .ok bytes) :
    3 ≤ bytes.length := by
  have h₁ := length_encodeOption (p.key.map keyBytes)
  have h₂ := length_encodeOption p.data
  unfold encode at h
  dsimp only at h
  split at h
  · cases h
    simp only [List.length_cons, List.length_append]
    omega
  · cases h

/-- `WsIoPacketCodec::Postcard`. -/
def postcard : PacketCodec where
  isText := false
  encode := encode
  decode := decode
  decode_encode := decode_encode
  length_encode := length_encode

example : postcard.encode (.newInit none) = .ok [2, 0, 0] := by decide

end WsIo.Core.Postcard
