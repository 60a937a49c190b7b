import Mathlib.Data.List.Basic

/-!
# UTF-8 text

A string is the list of its characters; `utf8` gives its bytes and `decodeUtf8Lossy` reads
bytes as text, with one `U+FFFD` for each maximal ill-formed part.

* `decodeUtf8Lossy_utf8`: reading the bytes of a text gives the text back.
* `ascii_decodeUtf8Lossy`: the ASCII bytes of the read text are the ASCII bytes read, in
  order.
-/

namespace WsIo.Encoding

set_option maxRecDepth 4000

/-- A string, as the list of its characters. -/
abbrev Text := List Char

def utf8 (s : Text) : List UInt8 := s.flatMap String.utf8EncodeChar

def isAscii (b : UInt8) : Bool := b < 0x80

/-- The ASCII bytes, in order. -/
def ascii (l : List UInt8) : List UInt8 := l.filter isAscii

def decodeChar? (l : List UInt8) : Option Char := l.toByteArray.utf8DecodeChar? 0

/-- The byte continues a sequence. -/
def isContinuation (b : UInt8) : Bool := 0x80 ≤ b && b ≤ 0xBF

/-- The second byte of a sequence of three or four bytes with the given first byte: overlong
forms, surrogates and values above `U+10FFFF` are ill-formed from here on. -/
def isSecond (b c : UInt8) : Bool :=
  if b = 0xE0 then 0xA0 ≤ c && c ≤ 0xBF
  else if b = 0xED then 0x80 ≤ c && c ≤ 0x9F
  else if b = 0xF0 then 0x90 ≤ c && c ≤ 0xBF
  else if b = 0xF4 then 0x80 ≤ c && c ≤ 0x8F
  else 0xE1 ≤ b && b ≤ 0xF3 && isContinuation c

/-- How many bytes after the first belong to the ill-formed part that begins here. -/
def illFormed (b : UInt8) : List UInt8 → Nat
  | c :: d :: _ => if isSecond b c then (if 0xF0 ≤ b && isContinuation d then 2 else 1) else 0
  | [c] => if isSecond b c then 1 else 0
  | [] => 0

/-- Read the bytes after the first `skip`. -/
def decodeFrom : Nat → List UInt8 → Text
  | _, [] => []
  | skip + 1, _ :: rest => decodeFrom skip rest
  | 0, b :: rest =>
    match decodeChar? (b :: rest) with
    | some c => c :: decodeFrom (c.utf8Size - 1) rest
    | none => '\uFFFD' :: decodeFrom (illFormed b rest) rest

/-- `String::from_utf8_lossy`. -/
def decodeUtf8Lossy (l : List UInt8) : Text := decodeFrom 0 l

@[simp] theorem utf8_nil : utf8 [] = [] := rfl

@[simp] theorem utf8_cons (c : Char) (s : Text) :
    utf8 (c :: s) = String.utf8EncodeChar c ++ utf8 s := List.flatMap_cons

@[simp] theorem utf8_append (s t : Text) : utf8 (s ++ t) = utf8 s ++ utf8 t :=
  List.flatMap_append

@[simp] theorem ascii_append (l l' : List UInt8) : ascii (l ++ l') = ascii l ++ ascii l' :=
  List.filter_append ..

theorem decodeFrom_drop (n : Nat) (l : List UInt8) : decodeFrom n l = decodeFrom 0 (l.drop n) := by
  induction l generalizing n with
  | nil => cases n <;> rfl
  | cons b rest ih =>
    cases n with
    | zero => rfl
    | succ n => exact ih n

/-! ## Well-formed bytes -/

theorem decodeChar?_utf8EncodeChar (c : Char) (l : List UInt8) :
    decodeChar? (String.utf8EncodeChar c ++ l) = some c := by
  rw [decodeChar?, List.toByteArray_append]
  exact ByteArray.utf8DecodeChar?_utf8EncodeChar_append

theorem utf8EncodeChar_of_decodeChar? {l : List UInt8} {c : Char} (h : decodeChar? l = some c) :
    ∃ rest, l = String.utf8EncodeChar c ++ rest := by
  obtain ⟨rest, hrest⟩ := ByteArray.exists_of_utf8DecodeChar?_eq_some h
  refine ⟨rest.data.toList, ?_⟩
  have hdata := congrArg (fun b => b.data.toList) hrest
  simpa using hdata

theorem utf8EncodeChar_cons (c : Char) :
    ∃ b rest, String.utf8EncodeChar c = b :: rest ∧ rest.length = c.utf8Size - 1 := by
  have hlength := String.length_utf8EncodeChar c
  have hpos := c.utf8Size_pos
  cases h : String.utf8EncodeChar c with
  | nil =>
    rw [h] at hlength
    simp only [List.length_nil] at hlength
    omega
  | cons b rest =>
    rw [h] at hlength
    simp only [List.length_cons] at hlength
    exact ⟨b, rest, rfl, by omega⟩

/-- Reading the bytes of a text gives the text back. -/
theorem decodeUtf8Lossy_utf8 (s : Text) : decodeUtf8Lossy (utf8 s) = s := by
  induction s with
  | nil => rfl
  | cons c s ih =>
    obtain ⟨b, rest, henc, hlength⟩ := utf8EncodeChar_cons c
    have hdecode := decodeChar?_utf8EncodeChar c (utf8 s)
    rw [utf8_cons, henc, List.cons_append]
    rw [henc, List.cons_append] at hdecode
    rw [decodeUtf8Lossy, decodeFrom, hdecode]
    simp only [List.cons.injEq, true_and]
    rw [decodeFrom_drop, ← hlength, List.drop_left]
    exact ih

/-! ## The ASCII bytes of what is read -/

theorem forall_uint8 {P : UInt8 → Prop} (h : ∀ n < 256, P (UInt8.ofNat n)) (b : UInt8) : P b := by
  have hb := h b.toNat b.toNat_lt
  rwa [UInt8.ofNat_toNat] at hb

theorem utf8EncodeChar_ascii : ∀ n < 128,
    String.utf8EncodeChar (Char.ofNat n) = [UInt8.ofNat n] := by decide

theorem decodeChar?_ascii {b : UInt8} (hb : isAscii b = true) (rest : List UInt8) :
    decodeChar? (b :: rest) = some (Char.ofNat b.toNat) := by
  have hlt : b.toNat < 128 := by simpa [isAscii, UInt8.lt_iff_toNat_lt] using hb
  have henc := utf8EncodeChar_ascii b.toNat hlt
  rw [UInt8.ofNat_toNat] at henc
  have hdecode := decodeChar?_utf8EncodeChar (Char.ofNat b.toNat) rest
  rwa [henc] at hdecode

/-- An ASCII byte of a text is one of its characters. -/
theorem eq_of_mem_utf8EncodeChar {b : UInt8} (hb : isAscii b = true) {c : Char}
    (h : b ∈ String.utf8EncodeChar c) : c = Char.ofNat b.toNat := by
  have hrest : ∀ x : UInt8, isAscii (x &&& 0x1f ||| 0xc0) = false ∧
      isAscii (x &&& 0x0f ||| 0xe0) = false ∧ isAscii (x &&& 0x07 ||| 0xf0) = false ∧
      isAscii (x &&& 0x3f ||| 0x80) = false := by
    apply forall_uint8
    decide
  have hsize : c.utf8Size = 1 := by
    rcases c.utf8Size_eq with hs | hs | hs | hs
    · exact hs
    · rw [String.utf8EncodeChar_eq_cons_cons hs] at h
      grind
    · rw [String.utf8EncodeChar_eq_cons_cons_cons hs] at h
      grind
    · rw [String.utf8EncodeChar_eq_cons_cons_cons_cons hs] at h
      grind
  have henc := String.utf8EncodeChar_eq_singleton hsize
  rw [henc, List.mem_singleton] at h
  have hdecode := decodeChar?_utf8EncodeChar c []
  rw [henc, List.singleton_append, ← h, decodeChar?_ascii hb] at hdecode
  exact (Option.some.inj hdecode).symm

theorem mem_utf8 {n : Nat} (hn : n < 128) {s : Text} :
    UInt8.ofNat n ∈ utf8 s ↔ Char.ofNat n ∈ s := by
  have hb : isAscii (UInt8.ofNat n) = true := by
    simp [isAscii, UInt8.lt_iff_toNat_lt, Nat.mod_eq_of_lt (show n < 256 by omega), hn]
  have hback : (UInt8.ofNat n).toNat = n := by simp [Nat.mod_eq_of_lt (show n < 256 by omega)]
  constructor
  · intro h
    obtain ⟨c, hc, hmem⟩ := List.mem_flatMap.mp h
    rw [eq_of_mem_utf8EncodeChar hb hmem, hback] at hc
    exact hc
  · intro h
    refine List.mem_flatMap.mpr ⟨_, h, ?_⟩
    rw [utf8EncodeChar_ascii n hn]
    exact List.mem_singleton_self _

theorem isContinuation_not_ascii {b : UInt8} (h : isContinuation b = true) : isAscii b = false := by
  revert h b
  apply forall_uint8
  decide

theorem isSecond_not_ascii {b c : UInt8} (h : isSecond b c = true) : isAscii c = false := by
  unfold isSecond isContinuation at h
  unfold isAscii
  simp only [UInt8.lt_iff_toNat_lt, UInt8.le_iff_toNat_le, decide_eq_false_iff_not] at *
  grind

theorem ascii_cons_of_not {b : UInt8} (hb : isAscii b = false) (l : List UInt8) :
    ascii (b :: l) = ascii l := List.filter_cons_of_neg (by rw [hb]; exact Bool.false_ne_true)

/-- An ill-formed part has no ASCII byte. -/
theorem ascii_drop_illFormed {b : UInt8} (hb : isAscii b = false) (rest : List UInt8) :
    ascii (rest.drop (illFormed b rest)) = ascii (b :: rest) := by
  rw [ascii_cons_of_not hb]
  match rest with
  | [] => rfl
  | [c] =>
    rw [illFormed]
    split
    · rename_i hc
      exact (ascii_cons_of_not (isSecond_not_ascii hc) []).symm
    · rfl
  | c :: d :: l =>
    rw [illFormed]
    split
    · rename_i hc
      rw [ascii_cons_of_not (isSecond_not_ascii hc)]
      split
      · rename_i hd
        rw [Bool.and_eq_true] at hd
        exact (ascii_cons_of_not (isContinuation_not_ascii hd.2) l).symm
      · rfl
    · rfl

/-- The ASCII bytes of what is read are the ASCII bytes of the input, in order. -/
theorem ascii_decodeUtf8Lossy (l : List UInt8) : ascii (utf8 (decodeUtf8Lossy l)) = ascii l := by
  suffices ∀ n, ascii (utf8 (decodeFrom n l)) = ascii (l.drop n) from this 0
  induction l with
  | nil => intro n; cases n <;> rfl
  | cons b rest ih =>
    intro n
    cases n with
    | succ n => exact ih n
    | zero =>
      rw [List.drop_zero]
      cases hc : decodeChar? (b :: rest) with
      | some c =>
        obtain ⟨tail, htail⟩ := utf8EncodeChar_of_decodeChar? hc
        obtain ⟨b', rest', henc, hlength⟩ := utf8EncodeChar_cons c
        rw [decodeFrom, hc]
        simp only [utf8_cons, ascii_append]
        rw [ih, htail, ascii_append]
        rw [henc, List.cons_append, List.cons.injEq] at htail
        rw [htail.2, ← hlength, List.drop_left]
      | none =>
        rw [decodeFrom, hc]
        simp only [utf8_cons, ascii_append]
        rw [ih]
        have hb : isAscii b = false := by
          rw [Bool.eq_false_iff]
          intro hb
          rw [decodeChar?_ascii hb] at hc
          cases hc
        exact ascii_drop_illFormed hb rest

end WsIo.Encoding
