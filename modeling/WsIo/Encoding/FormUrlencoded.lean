import Mathlib.Data.List.TakeWhile
import WsIo.Encoding.Split
import WsIo.Encoding.Utf8

/-!
# Form-urlencoded queries

`parse` reads the pairs of a query: pieces between `&`, name and value around the first `=`,
`+` for a space and `%XX` for a byte. `setQuery` writes a text as the query of a URL: it
escapes what a query may not contain, and leaves `&`, `=`, `+` and `%` as they are.

* `parse_setQuery`: the escapes that `setQuery` adds do not change what is read.
* `parse_append`, `parse_intercalate`: what is joined by `&` is read one after the other.
-/

namespace WsIo.Encoding

set_option maxRecDepth 4000

abbrev ampersand : UInt8 := 0x26
abbrev equals : UInt8 := 0x3D
abbrev plus : UInt8 := 0x2B
abbrev percent : UInt8 := 0x25
abbrev space : UInt8 := 0x20

/-! ## Percent-decoding -/

def hexValue? (b : UInt8) : Option UInt8 :=
  if 0x30 ≤ b && b ≤ 0x39 then some (b - 0x30)
  else if 0x41 ≤ b && b ≤ 0x46 then some (b - 0x37)
  else if 0x61 ≤ b && b ≤ 0x66 then some (b - 0x57)
  else none

/-- The byte that two hexadecimal digits after a `%` stand for. -/
def escape? : List UInt8 → Option UInt8
  | h :: l :: _ =>
    match hexValue? h, hexValue? l with
    | some x, some y => some (x * 16 + y)
    | _, _ => none
  | _ => none

/-- Decode the bytes after the first `skip`; a `%` without two digits stays. -/
def percentDecodeFrom : Nat → List UInt8 → List UInt8
  | _, [] => []
  | skip + 1, _ :: rest => percentDecodeFrom skip rest
  | 0, b :: rest =>
    if b = percent then
      match escape? rest with
      | some v => v :: percentDecodeFrom 2 rest
      | none => percent :: percentDecodeFrom 0 rest
    else b :: percentDecodeFrom 0 rest

def percentDecode (l : List UInt8) : List UInt8 := percentDecodeFrom 0 l

def hasEscape : List UInt8 → Bool
  | [] => false
  | b :: rest => b = percent && (escape? rest).isSome || hasEscape rest

def replacePlus (l : List UInt8) : List UInt8 := l.map fun b => if b = plus then space else b

/-- A name or a value of a query. -/
def decode (l : List UInt8) : Text := decodeUtf8Lossy (percentDecode (replacePlus l))

/-- One piece of a query: what stands before the first `=` and what stands after it. -/
def parsePair (s : List UInt8) : Text × Text :=
  (decode (s.takeWhile (· ≠ equals)), decode ((s.dropWhile (· ≠ equals)).drop 1))

/-- `form_urlencoded::parse`. -/
def parse (query : List UInt8) : List (Text × Text) := (segments ampersand query).map parsePair

/-! ## Writing a query -/

def hexDigit (n : UInt8) : UInt8 := if n < 10 then 0x30 + n else 0x37 + n

def percentEncode (b : UInt8) : List UInt8 := [percent, hexDigit (b / 16), hexDigit (b % 16)]

/-- Controls, space, quotes, `#`, `<`, `>` and everything that is not ASCII. -/
def isEscaped (b : UInt8) : Bool :=
  b ≤ space || b = 0x22 || b = 0x23 || b = 0x27 || b = 0x3C || b = 0x3E || 0x7F ≤ b

def encodeByte (b : UInt8) : List UInt8 := if isEscaped b then percentEncode b else [b]

def isTabOrNewline (c : Char) : Bool := c = '\t' || c = '\n' || c = '\r'

theorem all_untabbed_iff {t : Text} :
    t.all (fun c => !isTabOrNewline c) = true ↔ ∀ c ∈ t, isTabOrNewline c = false := by
  simp

/-- What is left of the text when tabs and newlines are removed from it. -/
def stripped (strips : Bool) (t : Text) : Text :=
  if strips then t.filter fun c => !isTabOrNewline c else t

/-- `Url::set_query` of a special URL. A URL parser removes ASCII tabs and newlines from its
input; `strips` is whether the setter does, or escapes them as it does the other controls. -/
def setQuery (strips : Bool) (query : Text) : List UInt8 :=
  (utf8 (stripped strips query)).flatMap encodeByte

/-! ## Escapes -/

@[simp] theorem percentDecode_nil : percentDecode [] = [] := rfl

theorem percentDecodeFrom_drop (n : Nat) (l : List UInt8) :
    percentDecodeFrom n l = percentDecode (l.drop n) := by
  induction l generalizing n with
  | nil => cases n <;> rfl
  | cons b rest ih =>
    cases n with
    | zero => rfl
    | succ n => exact ih n

theorem percentDecode_cons_of_ne {b : UInt8} (hb : b ≠ percent) (rest : List UInt8) :
    percentDecode (b :: rest) = b :: percentDecode rest := by
  rw [percentDecode, percentDecodeFrom, if_neg hb]
  rfl

theorem percentDecode_of_escape {rest : List UInt8} {v : UInt8} (h : escape? rest = some v) :
    percentDecode (percent :: rest) = v :: percentDecode (rest.drop 2) := by
  rw [percentDecode, percentDecodeFrom, if_pos rfl, h]
  simp only [percentDecodeFrom_drop]

theorem percentDecode_of_none {rest : List UInt8} (h : escape? rest = none) :
    percentDecode (percent :: rest) = percent :: percentDecode rest := by
  rw [percentDecode, percentDecodeFrom, if_pos rfl, h]
  rfl

/-- The induction that follows `percentDecode`. -/
theorem percentDecode_induction {P : List UInt8 → Prop} (nil : P [])
    (plain : ∀ b rest, b ≠ percent → P rest → P (b :: rest))
    (escaped : ∀ h l rest v, escape? (h :: l :: rest) = some v → P rest →
      P (percent :: h :: l :: rest))
    (lone : ∀ rest, escape? rest = none → P rest → P (percent :: rest)) (l : List UInt8) : P l := by
  induction hn : l.length using Nat.strongRecOn generalizing l with
  | _ n ih =>
    cases l with
    | nil => exact nil
    | cons b rest =>
      have hrest : P rest := ih rest.length (by rw [← hn]; exact Nat.lt_succ_self _) rest rfl
      by_cases hb : b = percent
      · subst hb
        cases he : escape? rest with
        | none => exact lone rest he hrest
        | some v =>
          match rest with
          | h :: l :: rest' =>
            refine escaped h l rest' v he (ih rest'.length ?_ rest' rfl)
            rw [← hn, List.length_cons, List.length_cons, List.length_cons]
            omega
      · exact plain b rest hb hrest

theorem hexValue?_isAscii {b : UInt8} (h : (hexValue? b).isSome = true) :
    isAscii b = true ∧ isEscaped b = false ∧ b ≠ plus ∧ b ≠ ampersand := by
  revert h b
  apply forall_uint8
  decide

theorem escape?_digits {h l : UInt8} {rest : List UInt8} {v : UInt8}
    (he : escape? (h :: l :: rest) = some v) :
    (hexValue? h).isSome = true ∧ (hexValue? l).isSome = true := by
  rw [escape?] at he
  split at he
  · rename_i hx hy
    rw [hx, hy]
    exact ⟨rfl, rfl⟩
  · cases he

theorem escape?_percentEncode (b : UInt8) (rest : List UInt8) :
    escape? (hexDigit (b / 16) :: hexDigit (b % 16) :: rest) = some b := by
  rw [escape?]
  revert b
  apply forall_uint8
  decide

theorem percentDecode_of_not_hasEscape {l : List UInt8} (h : hasEscape l = false) :
    percentDecode l = l := by
  induction l with
  | nil => rfl
  | cons b rest ih =>
    rw [hasEscape, Bool.or_eq_false_iff] at h
    by_cases hb : b = percent
    · subst hb
      have hnone : escape? rest = none := by simpa using h.1
      rw [percentDecode_of_none hnone, ih h.2]
    · rw [percentDecode_cons_of_ne hb, ih h.2]

/-! ## What the escapes of a query are read as -/

theorem hexValue?_percent : hexValue? percent = none := rfl

theorem hexValue?_of_isEscaped {b : UInt8} (h : isEscaped b = true) : hexValue? b = none := by
  cases hv : hexValue? b with
  | none => rfl
  | some v =>
    have hn := (hexValue?_isAscii (b := b) (by rw [hv]; rfl)).2.1
    rw [h] at hn
    cases hn

theorem escape?_of_first {h : UInt8} (hh : hexValue? h = none) (l : List UInt8) :
    escape? (h :: l) = none := by
  cases l with
  | nil => rfl
  | cons d l => rw [escape?, hh]

theorem escape?_of_second {l : UInt8} (hl : hexValue? l = none) (h : UInt8) (rest : List UInt8) :
    escape? (h :: l :: rest) = none := by
  rw [escape?, hl]
  cases hexValue? h <;> rfl

/-- Only the first two bytes matter. -/
theorem escape?_congr (h l : UInt8) (rest rest' : List UInt8) :
    escape? (h :: l :: rest) = escape? (h :: l :: rest') := by
  rw [escape?, escape?]

theorem escape?_flatMap_encodeByte (l : List UInt8) :
    escape? (l.flatMap encodeByte) = escape? l := by
  match l with
  | [] => rfl
  | [h] =>
    rw [List.flatMap_cons, encodeByte]
    split
    · exact escape?_of_first hexValue?_percent _
    · rfl
  | h :: d :: rest =>
    rw [List.flatMap_cons, List.flatMap_cons, encodeByte, encodeByte]
    split
    · rename_i hh
      rw [escape?_of_first (hexValue?_of_isEscaped hh)]
      exact escape?_of_first hexValue?_percent _
    · split
      · rename_i hd
        rw [escape?_of_second (hexValue?_of_isEscaped hd)]
        exact escape?_of_second hexValue?_percent _ _
      · exact escape?_congr _ _ _ _

theorem hexValue?_replaced (b : UInt8) :
    hexValue? (if b = plus then space else b) = hexValue? b := by
  revert b
  apply forall_uint8
  decide

theorem escape?_replacePlus (l : List UInt8) : escape? (replacePlus l) = escape? l := by
  match l with
  | [] => rfl
  | [h] => rfl
  | h :: d :: rest =>
    rw [replacePlus, List.map_cons, List.map_cons, escape?, escape?, hexValue?_replaced,
      hexValue?_replaced]

theorem replacePlus_cons_of_ne {b : UInt8} (hb : b ≠ plus) (l : List UInt8) :
    replacePlus (b :: l) = b :: replacePlus l := by
  rw [replacePlus, List.map_cons, if_neg hb]
  rfl

theorem replacePlus_plus (l : List UInt8) : replacePlus (plus :: l) = space :: replacePlus l := rfl

theorem replacePlus_percentEncode (b : UInt8) (l : List UInt8) :
    replacePlus (percentEncode b ++ l) = percentEncode b ++ replacePlus l := by
  have hdigits : hexDigit (b / 16) ≠ plus ∧ hexDigit (b % 16) ≠ plus := by
    revert b
    apply forall_uint8
    decide
  change replacePlus (percent :: hexDigit (b / 16) :: hexDigit (b % 16) :: l) = _
  rw [replacePlus_cons_of_ne (by decide), replacePlus_cons_of_ne hdigits.1,
    replacePlus_cons_of_ne hdigits.2]
  rfl

/-- What `setQuery` escapes is read as itself. -/
theorem percentDecode_flatMap_encodeByte (l : List UInt8) :
    percentDecode (replacePlus (l.flatMap encodeByte)) = percentDecode (replacePlus l) := by
  induction l using percentDecode_induction with
  | nil => rfl
  | plain b rest hb ih =>
    rw [List.flatMap_cons, encodeByte]
    split
    · rename_i he
      have hplus : b ≠ plus := by
        rintro rfl
        cases he
      rw [replacePlus_percentEncode, replacePlus_cons_of_ne hplus, percentDecode_cons_of_ne hb]
      change percentDecode (percent :: hexDigit (b / 16) :: hexDigit (b % 16) ::
        replacePlus (rest.flatMap encodeByte)) = _
      rw [percentDecode_of_escape (escape?_percentEncode b _)]
      exact congrArg (b :: ·) ih
    · rw [List.singleton_append]
      by_cases hp : b = plus
      · rw [hp, replacePlus_plus, replacePlus_plus, percentDecode_cons_of_ne (by decide),
          percentDecode_cons_of_ne (by decide), ih]
      · rw [replacePlus_cons_of_ne hp, replacePlus_cons_of_ne hp, percentDecode_cons_of_ne hb,
          percentDecode_cons_of_ne hb, ih]
  | escaped h l rest v he ih =>
    obtain ⟨hh, hl⟩ := escape?_digits he
    obtain ⟨-, hh', hhp, -⟩ := hexValue?_isAscii hh
    obtain ⟨-, hl', hlp, -⟩ := hexValue?_isAscii hl
    have henc : (percent :: h :: l :: rest).flatMap encodeByte =
        percent :: h :: l :: rest.flatMap encodeByte := by
      simp [encodeByte, hh', hl', show isEscaped percent = false from rfl]
    have hrep : ∀ m : List UInt8, replacePlus (percent :: h :: l :: m) =
        percent :: h :: l :: replacePlus m := by
      intro m
      rw [replacePlus_cons_of_ne (by decide), replacePlus_cons_of_ne hhp,
        replacePlus_cons_of_ne hlp]
    rw [henc, hrep, hrep, percentDecode_of_escape (escape?_congr h l _ rest ▸ he),
      percentDecode_of_escape (escape?_congr h l _ rest ▸ he)]
    exact congrArg (v :: ·) ih
  | lone rest hn ih =>
    rw [List.flatMap_cons, show encodeByte percent = [percent] from rfl, List.singleton_append,
      replacePlus_cons_of_ne (by decide), replacePlus_cons_of_ne (by decide),
      percentDecode_of_none, percentDecode_of_none, ih]
    · rw [escape?_replacePlus, hn]
    · rw [escape?_replacePlus, escape?_flatMap_encodeByte, hn]

theorem decode_flatMap_encodeByte (l : List UInt8) : decode (l.flatMap encodeByte) = decode l := by
  rw [decode, decode, percentDecode_flatMap_encodeByte]

/-! ## Pieces and pairs -/

theorem parsePair_of_not_mem {s : List UInt8} (h : equals ∉ s) : parsePair s = (decode s, []) := by
  have hall := all_ne_of_not_mem h
  rw [parsePair, List.takeWhile_eq_self_iff.mpr hall, List.dropWhile_eq_nil_iff.mpr hall]
  rfl

theorem parsePair_append {name : List UInt8} (h : equals ∉ name) (value : List UInt8) :
    parsePair (name ++ equals :: value) = (decode name, decode value) := by
  have hall := all_ne_of_not_mem h
  rw [parsePair, List.takeWhile_append_of_pos hall, List.dropWhile_append_of_pos hall]
  simp

theorem equals_mem_encodeByte {b : UInt8} (h : equals ∈ encodeByte b) : b = equals := by
  revert h b
  apply forall_uint8
  decide

theorem ampersand_mem_encodeByte {b : UInt8} (h : ampersand ∈ encodeByte b) : b = ampersand := by
  revert h b
  apply forall_uint8
  decide

theorem encodeByte_ne_nil (b : UInt8) : encodeByte b ≠ [] := by
  rw [encodeByte]
  split <;> exact List.cons_ne_nil _ _

theorem equals_mem_flatMap {s : List UInt8} (h : equals ∈ s.flatMap encodeByte) : equals ∈ s := by
  obtain ⟨b, hb, he⟩ := List.mem_flatMap.mp h
  exact equals_mem_encodeByte he ▸ hb

theorem parsePair_flatMap_encodeByte (s : List UInt8) :
    parsePair (s.flatMap encodeByte) = parsePair s := by
  by_cases h : equals ∈ s
  · obtain ⟨name, value, rfl, hname⟩ := List.eq_append_cons_of_mem h
    rw [List.flatMap_append, List.flatMap_cons, show encodeByte equals = [equals] from rfl,
      List.singleton_append, parsePair_append hname,
      parsePair_append fun he => hname (equals_mem_flatMap he), decode_flatMap_encodeByte,
      decode_flatMap_encodeByte]
  · rw [parsePair_of_not_mem h, parsePair_of_not_mem fun he => h (equals_mem_flatMap he),
      decode_flatMap_encodeByte]

theorem segments_flatMap_encodeByte (l : List UInt8) :
    segments ampersand (l.flatMap encodeByte) =
      (segments ampersand l).map (·.flatMap encodeByte) := by
  rw [segments, splitOn_flatMap rfl fun b hb he => hb (ampersand_mem_encodeByte he),
    List.filter_map, segments]
  congr 1
  apply List.filter_congr
  intro s _
  cases s with
  | nil => rfl
  | cons b s => simp [encodeByte_ne_nil]

/-- The escapes that `setQuery` adds do not change what is read. -/
theorem parse_setQuery (strips : Bool) (t : Text) :
    parse (setQuery strips t) = parse (utf8 (stripped strips t)) := by
  rw [parse, setQuery, segments_flatMap_encodeByte, List.map_map, parse]
  apply List.map_congr_left
  intro s _
  exact parsePair_flatMap_encodeByte s

@[simp] theorem parse_nil : parse [] = [] := rfl

/-- Pairs on both sides of an `&` are read one after the other. -/
theorem parse_append (l l' : List UInt8) :
    parse (l ++ ampersand :: l') = parse l ++ parse l' := by
  rw [parse, segments, List.splitOn_append_cons_self, List.filter_append, List.map_append]
  rfl

theorem parse_of_not_mem {l : List UInt8} (h : ampersand ∉ l) (hne : l ≠ []) :
    parse l = [parsePair l] := by
  rw [parse, segments, List.splitOn_eq_singleton h, List.filter_cons_of_pos (by simpa using hne)]
  rfl

theorem stripped_append (strips : Bool) (s t : Text) :
    stripped strips (s ++ t) = stripped strips s ++ stripped strips t := by
  cases strips with
  | false => rfl
  | true => exact List.filter_append ..

/-- Texts joined by `&` are read one after the other. -/
theorem parse_intercalate (strips : Bool) (ts : List Text) :
    parse (utf8 (stripped strips (['&'].intercalate ts))) =
      ts.flatMap fun t => parse (utf8 (stripped strips t)) := by
  induction ts with
  | nil => cases strips <;> rfl
  | cons t ts ih =>
    cases ts with
    | nil => simp
    | cons t' ts =>
      have hsep : utf8 (stripped strips ['&']) = [ampersand] := by cases strips <;> rfl
      rw [List.intercalate_cons_of_ne_nil (List.cons_ne_nil t' ts), stripped_append,
        stripped_append, utf8_append, utf8_append, hsep, List.append_assoc, List.singleton_append,
        parse_append, ih]
      rfl

end WsIo.Encoding
