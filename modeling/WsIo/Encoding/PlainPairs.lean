import Mathlib.Algebra.GroupWithZero.Nat
import WsIo.Encoding.FormUrlencoded

/-!
# Pairs written without escapes

What becomes of decoded pairs that are written as `name=value`, joined by `&`, and read as a
form-urlencoded query again.

* `total_parse`: reading does not make the pairs heavier than the text.
* `parse_raw_iff`: which pairs are read back from their text.
* `flatMap_raw_iff`: a list of pairs is read back only pair by pair.
* `decode_eq_iff`, `decode_ne_of_ampersand`: what `+` and `&` change in a value.
-/

namespace WsIo.Encoding

set_option maxRecDepth 4000

/-! ## The weight of a text

The number of its ASCII bytes. Decoding an escape makes a text lighter, and a byte that is
not ASCII weighs nothing, so the replacement of ill-formed bytes does not count. -/

def weight (l : List UInt8) : Nat := (ascii l).length

@[simp] theorem weight_nil : weight [] = 0 := rfl

@[simp] theorem weight_append (l l' : List UInt8) : weight (l ++ l') = weight l + weight l' := by
  simp [weight]

theorem weight_cons (b : UInt8) (l : List UInt8) :
    weight (b :: l) = weight [b] + weight l := weight_append [b] l

theorem weight_singleton_le (b : UInt8) : weight [b] ≤ 1 := List.length_filter_le _ _

theorem weight_of_isAscii {b : UInt8} (h : isAscii b = true) : weight [b] = 1 := by
  simp [weight, ascii, h]

theorem weight_percentDecode (l : List UInt8) :
    weight (percentDecode l) ≤ weight l ∧
      (hasEscape l = true → weight (percentDecode l) < weight l) := by
  induction l using percentDecode_induction with
  | nil => exact ⟨le_refl _, fun h => by cases h⟩
  | plain b rest hb ih =>
    rw [percentDecode_cons_of_ne hb, weight_cons b, weight_cons b rest]
    refine ⟨by omega, fun h => ?_⟩
    rw [hasEscape, decide_eq_false hb, Bool.false_and, Bool.false_or] at h
    have := ih.2 h
    omega
  | escaped h l rest v he ih =>
    obtain ⟨hh, hl⟩ := escape?_digits he
    have h₁ := weight_of_isAscii (hexValue?_isAscii hh).1
    have h₂ := weight_of_isAscii (hexValue?_isAscii hl).1
    have hv := weight_singleton_le v
    have hp : weight [percent] = 1 := rfl
    have hsum : weight (percent :: h :: l :: rest) = 3 + weight rest := by
      rw [weight_cons, weight_cons h, weight_cons l]
      omega
    have hlt : weight (percentDecode (percent :: h :: l :: rest)) < 3 + weight rest := by
      rw [percentDecode_of_escape he, weight_cons, List.drop_succ_cons, List.drop_succ_cons,
        List.drop_zero]
      omega
    rw [hsum]
    exact ⟨hlt.le, fun _ => hlt⟩
  | lone rest hn ih =>
    rw [percentDecode_of_none hn, weight_cons percent, weight_cons percent rest]
    refine ⟨by omega, fun h => ?_⟩
    rw [hasEscape, hn, Option.isSome_none, Bool.and_false, Bool.false_or] at h
    have := ih.2 h
    omega

theorem weight_replacePlus (l : List UInt8) : weight (replacePlus l) = weight l := by
  induction l with
  | nil => rfl
  | cons b l ih =>
    by_cases hb : b = plus
    · rw [hb, replacePlus_plus, weight_cons, weight_cons plus, ih]
      rfl
    · rw [replacePlus_cons_of_ne hb, weight_cons, weight_cons b l, ih]

theorem hasEscape_replacePlus (l : List UInt8) : hasEscape (replacePlus l) = hasEscape l := by
  induction l with
  | nil => rfl
  | cons b l ih =>
    by_cases hb : b = plus
    · rw [hb, replacePlus_plus, hasEscape, hasEscape, ih]
      rfl
    · rw [replacePlus_cons_of_ne hb, hasEscape, hasEscape, ih, escape?_replacePlus]

theorem weight_decode (l : List UInt8) :
    weight (utf8 (decode l)) ≤ weight l ∧
      (hasEscape l = true → weight (utf8 (decode l)) < weight l) := by
  have h := weight_percentDecode (replacePlus l)
  rw [weight_replacePlus, hasEscape_replacePlus] at h
  rw [decode, weight, ascii_decodeUtf8Lossy]
  exact h

def pairWeight : Text × Text → Nat
  | (name, value) => weight (utf8 name) + weight (utf8 value) + 1

def total (ps : List (Text × Text)) : Nat := (ps.map pairWeight).sum

theorem pairWeight_parsePair (s : List UInt8) :
    pairWeight (parsePair s) ≤ weight s + if equals ∈ s then 0 else 1 := by
  by_cases h : equals ∈ s
  · obtain ⟨name, value, rfl, hname⟩ := List.eq_append_cons_of_mem h
    have hn := (weight_decode name).1
    have hv := (weight_decode value).1
    have he : weight [equals] = 1 := rfl
    rw [if_pos h, parsePair_append hname, pairWeight, weight_append, weight_cons equals]
    omega
  · have hs := (weight_decode s).1
    rw [if_neg h, parsePair_of_not_mem h, pairWeight, utf8_nil, weight_nil]
    omega

/-- The pairs that are read from a text are no heavier than the text, when it has an `=`. -/
theorem total_parse (l : List UInt8) :
    total (parse l) ≤ weight l + if equals ∈ l then 0 else 1 := by
  induction hn : l.length using Nat.strongRecOn generalizing l with
  | _ n ih =>
    have hpiece : ∀ s, ampersand ∉ s → total (parse s) ≤ weight s + if equals ∈ s then 0 else 1 := by
      intro s hs
      cases s with
      | nil => exact Nat.zero_le _
      | cons b s =>
        rw [parse_of_not_mem hs (List.cons_ne_nil b s)]
        exact pairWeight_parsePair (b :: s)
    by_cases h : ampersand ∈ l
    · obtain ⟨s, l', rfl, hs⟩ := List.eq_append_cons_of_mem h
      have hl' := ih l'.length (by rw [← hn, List.length_append, List.length_cons]; omega) l' rfl
      have hs' := hpiece s hs
      have ha : weight [ampersand] = 1 := rfl
      have hmem : equals ∈ s ++ ampersand :: l' ↔ equals ∈ s ∨ equals ∈ l' := by
        simp [show equals ≠ ampersand by decide]
      rw [parse_append, total, List.map_append, List.sum_append, weight_append, weight_cons]
      change total (parse s) + total (parse l') ≤ _
      simp only [hmem]
      split at hs' <;> split at hl' <;> simp_all <;> omega
    · exact hpiece l h

/-! ## Pairs written without escapes -/

/-- `name=value`. -/
def raw (p : Text × Text) : Text := p.1 ++ '=' :: p.2

/-- Nothing in the pair means anything else when it is read from the text `name=value`. -/
structure Plain (strips : Bool) (p : Text × Text) : Prop where
  ampersand : '&' ∉ p.1 ∧ '&' ∉ p.2
  equals : '=' ∉ p.1
  plus : '+' ∉ p.1 ∧ '+' ∉ p.2
  escape : hasEscape (utf8 p.1) = false ∧ hasEscape (utf8 p.2) = false
  kept : strips = true → ∀ c ∈ p.1 ++ p.2, isTabOrNewline c = false

instance (strips : Bool) (p : Text × Text) : Decidable (Plain strips p) :=
  decidable_of_iff
    (('&' ∉ p.1 ∧ '&' ∉ p.2) ∧ '=' ∉ p.1 ∧ ('+' ∉ p.1 ∧ '+' ∉ p.2) ∧
      (hasEscape (utf8 p.1) = false ∧ hasEscape (utf8 p.2) = false) ∧
      (strips = true → (p.1 ++ p.2).all (fun c => !isTabOrNewline c) = true))
    ⟨fun ⟨h₁, h₂, h₃, h₄, h₅⟩ => ⟨h₁, h₂, h₃, h₄, fun hs => all_untabbed_iff.mp (h₅ hs)⟩,
      fun ⟨h₁, h₂, h₃, h₄, h₅⟩ => ⟨h₁, h₂, h₃, h₄, fun hs => all_untabbed_iff.mpr (h₅ hs)⟩⟩

theorem ampersand_mem_utf8 {s : Text} : ampersand ∈ utf8 s ↔ '&' ∈ s :=
  mem_utf8 (show 0x26 < 128 by decide)

theorem equals_mem_utf8 {s : Text} : equals ∈ utf8 s ↔ '=' ∈ s :=
  mem_utf8 (show 0x3D < 128 by decide)

theorem plus_mem_utf8 {s : Text} : plus ∈ utf8 s ↔ '+' ∈ s :=
  mem_utf8 (show 0x2B < 128 by decide)

theorem utf8_raw (p : Text × Text) : utf8 (raw p) = utf8 p.1 ++ equals :: utf8 p.2 := by
  rw [raw, utf8_append, utf8_cons]
  rfl

theorem weight_raw (p : Text × Text) : weight (utf8 (raw p)) = pairWeight p := by
  have he : weight [equals] = 1 := rfl
  rw [utf8_raw, weight_append, weight_cons equals, pairWeight]
  omega

theorem replacePlus_of_not_mem {l : List UInt8} (h : plus ∉ l) : replacePlus l = l := by
  have hid : ∀ b ∈ l, (if b = plus then space else b) = id b := by
    intro b hb
    rw [if_neg, id]
    rintro rfl
    exact h hb
  rw [replacePlus, List.map_congr_left hid, List.map_id]

theorem plus_not_mem_replacePlus (l : List UInt8) : plus ∉ replacePlus l := by
  intro h
  obtain ⟨b, -, hb⟩ := List.mem_map.mp h
  split at hb
  · cases hb
  · rename_i hne
    exact hne hb

theorem decode_utf8 {s : Text} (hp : '+' ∉ s) (he : hasEscape (utf8 s) = false) :
    decode (utf8 s) = s := by
  rw [decode, replacePlus_of_not_mem fun h => hp (plus_mem_utf8.mp h),
    percentDecode_of_not_hasEscape he, decodeUtf8Lossy_utf8]

/-- What is read as itself and has no escape has no `+`. -/
theorem plus_not_mem_of_decode {s : Text} (hs : decode (utf8 s) = s)
    (he : hasEscape (utf8 s) = false) : '+' ∉ s := by
  intro hp
  have hascii : ascii (utf8 s) = ascii (replacePlus (utf8 s)) := by
    conv_lhs => rw [← hs]
    rw [decode, ascii_decodeUtf8Lossy, percentDecode_of_not_hasEscape]
    rw [hasEscape_replacePlus, he]
  have hmem : plus ∈ ascii (utf8 s) :=
    List.mem_filter.mpr ⟨plus_mem_utf8.mpr hp, rfl⟩
  rw [hascii] at hmem
  exact plus_not_mem_replacePlus _ (List.mem_filter.mp hmem).1

theorem weight_tabOrNewline {c : Char} (h : isTabOrNewline c = true) :
    weight (String.utf8EncodeChar c) = 1 := by
  rw [isTabOrNewline, Bool.or_eq_true, Bool.or_eq_true, decide_eq_true_eq, decide_eq_true_eq,
    decide_eq_true_eq] at h
  rcases h with (rfl | rfl) | rfl <;> decide

/-- Removing a tab or a newline makes the text lighter. -/
theorem weight_stripped (strips : Bool) (t : Text) :
    weight (utf8 (stripped strips t)) ≤ weight (utf8 t) ∧
      (weight (utf8 (stripped strips t)) = weight (utf8 t) → strips = true →
        ∀ c ∈ t, isTabOrNewline c = false) := by
  cases strips with
  | false => exact ⟨le_refl _, fun _ h => by cases h⟩
  | true =>
    simp only [stripped, if_pos]
    induction t with
    | nil => exact ⟨le_refl _, fun _ _ c hc => by cases hc⟩
    | cons c t ih =>
      cases hc : isTabOrNewline c with
      | true =>
        have hw := weight_tabOrNewline hc
        rw [List.filter_cons_of_neg (by simp [hc]), utf8_cons, weight_append]
        refine ⟨by omega, fun h => ?_⟩
        omega
      | false =>
        rw [List.filter_cons_of_pos (by simp [hc]), utf8_cons, utf8_cons, weight_append,
          weight_append]
        refine ⟨by omega, fun h _ d hd => ?_⟩
        rcases List.mem_cons.mp hd with rfl | hd
        · exact hc
        · exact ih.2 (by omega) trivial d hd

theorem stripped_of_kept {strips : Bool} {t : Text}
    (h : strips = true → ∀ c ∈ t, isTabOrNewline c = false) : stripped strips t = t := by
  cases strips with
  | false => rfl
  | true =>
    rw [stripped, if_pos rfl, List.filter_eq_self]
    intro c hc
    rw [h rfl c hc]
    rfl

theorem equals_mem_stripped (strips : Bool) (p : Text × Text) :
    equals ∈ utf8 (stripped strips (raw p)) := by
  rw [equals_mem_utf8, stripped]
  have hmem : '=' ∈ raw p := List.mem_append_right _ List.mem_cons_self
  split
  · exact List.mem_filter.mpr ⟨hmem, rfl⟩
  · exact hmem

theorem equals_not_mem_of_parse_nil {l : List UInt8} (h : parse l = []) : equals ∉ l := by
  intro he
  rw [parse, List.map_eq_nil_iff] at h
  have hall := eq_sep_of_segments_nil h
  exact absurd (hall equals he) (by decide)

/-- The text of one pair, read as one pair of the same weight, is read as one piece. -/
theorem ampersand_not_mem_of_parse {l : List UInt8} {p : Text × Text} (h : parse l = [p])
    (he : equals ∈ l) (hw : weight l ≤ pairWeight p) : ampersand ∉ l := by
  intro ha
  obtain ⟨a, b, rfl⟩ := List.append_of_mem ha
  have hamp : weight [ampersand] = 1 := rfl
  rw [weight_append, weight_cons] at hw
  have hmem : equals ∈ a ∨ equals ∈ b := by simpa [show equals ≠ ampersand by decide] using he
  rw [parse_append] at h
  have hta := total_parse a
  have htb := total_parse b
  -- one side reads no pair, so it has no `=`, and the other is lighter than the pair it reads
  rcases List.append_eq_singleton_iff.mp h with ⟨hna, hpb⟩ | ⟨hpa, hnb⟩
  · have hb := hmem.resolve_left (equals_not_mem_of_parse_nil hna)
    rw [hpb, if_pos hb] at htb
    simp only [total, List.map_cons, List.map_nil, List.sum_cons, List.sum_nil] at htb
    omega
  · have ha := hmem.resolve_right (equals_not_mem_of_parse_nil hnb)
    rw [hpa, if_pos ha] at hta
    simp only [total, List.map_cons, List.map_nil, List.sum_cons, List.sum_nil] at hta
    omega

/-- A pair read as itself from one piece has no `=` in its name and no escape. -/
theorem plain_of_parsePair {p : Text × Text} (h : parsePair (utf8 (raw p)) = p) :
    '=' ∉ p.1 ∧ (hasEscape (utf8 p.1) = false ∧ hasEscape (utf8 p.2) = false) ∧
      '+' ∉ p.1 ∧ '+' ∉ p.2 := by
  have hequals : equals ∈ utf8 (raw p) := by simp [utf8_raw]
  obtain ⟨name, value, hsplit, hname⟩ := List.eq_append_cons_of_mem hequals
  have he : weight [equals] = 1 := rfl
  have hsum : weight name + weight value + 1 = pairWeight p := by
    rw [← weight_raw, hsplit, weight_append, weight_cons equals]
    omega
  rw [hsplit, parsePair_append hname] at h
  obtain ⟨hn, hn'⟩ := weight_decode name
  obtain ⟨hv, hv'⟩ := weight_decode value
  rw [← h, pairWeight] at hsum
  have hnone : hasEscape name = false ∧ hasEscape value = false := by
    constructor
    all_goals
      rw [Bool.eq_false_iff]
      intro hesc
    · have := hn' hesc
      omega
    · have := hv' hesc
      omega
  have hp₁ : decode name = p.1 := congrArg Prod.fst h
  have hp₂ : decode value = p.2 := congrArg Prod.snd h
  have hfree : equals ∉ utf8 p.1 := by
    intro hmem
    obtain ⟨a, b, hab, ha⟩ := List.eq_append_cons_of_mem hmem
    rw [utf8_raw, hab, List.append_assoc, List.cons_append] at hsplit
    obtain ⟨rfl, -⟩ := append_cons_inj ha hname hsplit
    have hlight : weight (utf8 p.1) = weight a + 1 + weight b := by
      rw [hab, weight_append, weight_cons equals]
      omega
    rw [← hp₁] at hlight
    omega
  rw [utf8_raw] at hsplit
  obtain ⟨rfl, rfl⟩ := append_cons_inj hfree hname hsplit
  exact ⟨fun h => hfree (equals_mem_utf8.mpr h), hnone, plus_not_mem_of_decode hp₁ hnone.1,
    plus_not_mem_of_decode hp₂ hnone.2⟩

/-- Which pairs are read back from the text `name=value`. -/
theorem parse_raw_iff (strips : Bool) (p : Text × Text) :
    parse (utf8 (stripped strips (raw p))) = [p] ↔ Plain strips p := by
  constructor
  · intro h
    obtain ⟨hle, hkept⟩ := weight_stripped strips (raw p)
    have htotal := total_parse (utf8 (stripped strips (raw p)))
    rw [weight_raw] at hle hkept
    have hequals := equals_mem_stripped strips p
    rw [h, if_pos hequals] at htotal
    simp only [total, List.map_cons, List.map_nil, List.sum_cons, List.sum_nil] at htotal
    have hall := hkept (by omega)
    have hself := stripped_of_kept hall
    rw [hself] at h hequals
    have hamp := ampersand_not_mem_of_parse h hequals (weight_raw p).le
    rw [parse_of_not_mem hamp (List.ne_nil_of_mem hequals), List.cons.injEq] at h
    obtain ⟨heq, hesc, hplus⟩ := plain_of_parsePair h.1
    rw [ampersand_mem_utf8, raw, List.mem_append, List.mem_cons, not_or, not_or] at hamp
    refine ⟨⟨hamp.1, hamp.2.2⟩, heq, hplus, hesc, fun hs c hc => hall hs c ?_⟩
    rcases List.mem_append.mp hc with hc | hc
    · exact List.mem_append_left _ hc
    · exact List.mem_append_right _ (List.mem_cons_of_mem _ hc)
  · intro h
    have hself : stripped strips (raw p) = raw p := by
      apply stripped_of_kept
      intro hs c hc
      rcases List.mem_append.mp hc with hc | hc
      · exact h.kept hs c (List.mem_append_left _ hc)
      · rcases List.mem_cons.mp hc with rfl | hc
        · rfl
        · exact h.kept hs c (List.mem_append_right _ hc)
    have hamp : ampersand ∉ utf8 (raw p) := by
      rw [ampersand_mem_utf8, raw, List.mem_append, List.mem_cons]
      simpa using h.ampersand
    have hequals : equals ∉ utf8 p.1 := fun he => h.equals (equals_mem_utf8.mp he)
    rw [hself, parse_of_not_mem hamp, utf8_raw, parsePair_append hequals,
      decode_utf8 h.plus.1 h.escape.1, decode_utf8 h.plus.2 h.escape.2]
    rw [utf8_raw]
    simp

/-! ## Lists of pairs written without escapes -/

theorem total_append (ps qs : List (Text × Text)) : total (ps ++ qs) = total ps + total qs := by
  rw [total, List.map_append, List.sum_append]
  rfl

theorem total_cons (p : Text × Text) (ps : List (Text × Text)) :
    total (p :: ps) = pairWeight p + total ps := rfl

theorem pairWeight_pos (p : Text × Text) : 0 < pairWeight p := Nat.succ_pos _

theorem eq_nil_of_total {ps : List (Text × Text)} (h : total ps = 0) : ps = [] := by
  cases ps with
  | nil => rfl
  | cons p ps =>
    have := pairWeight_pos p
    rw [total_cons] at h
    omega

theorem total_raw (strips : Bool) (p : Text × Text) :
    total (parse (utf8 (stripped strips (raw p)))) ≤ pairWeight p := by
  have htotal := total_parse (utf8 (stripped strips (raw p)))
  have hle := (weight_stripped strips (raw p)).1
  rw [if_pos (equals_mem_stripped strips p)] at htotal
  rw [weight_raw] at hle
  omega

theorem total_filter (keep : Text × Text → Bool) (ps : List (Text × Text)) :
    total (ps.filter keep) ≤ total ps ∧ (total (ps.filter keep) = total ps → ps.filter keep = ps) := by
  induction ps with
  | nil => exact ⟨le_refl _, fun _ => rfl⟩
  | cons p ps ih =>
    have hp := pairWeight_pos p
    rw [total_cons]
    cases hk : keep p with
    | true =>
      rw [List.filter_cons_of_pos hk, total_cons]
      exact ⟨by omega, fun h => by rw [ih.2 (by omega)]⟩
    | false =>
      rw [List.filter_cons_of_neg (by rw [hk]; exact Bool.false_ne_true)]
      exact ⟨by omega, fun h => by omega⟩

theorem total_flatMap {f : Text × Text → List (Text × Text)} {ps : List (Text × Text)}
    (hf : ∀ p ∈ ps, total (f p) ≤ pairWeight p) : total (ps.flatMap f) ≤ total ps := by
  induction ps with
  | nil => exact le_refl _
  | cons p ps ih =>
    have hp := hf p List.mem_cons_self
    have hps := ih fun q hq => hf q (List.mem_cons_of_mem p hq)
    rw [List.flatMap_cons, total_append, total_cons]
    omega

/-- When no pair is read as something heavier, a list can only be read back pair by pair. -/
theorem flatMap_eq_self {f : Text × Text → List (Text × Text)} {ps : List (Text × Text)}
    (hf : ∀ p ∈ ps, total (f p) ≤ pairWeight p) (h : ps.flatMap f = ps) :
    ∀ p ∈ ps, f p = [p] := by
  induction ps with
  | nil => exact fun p hp => absurd hp List.not_mem_nil
  | cons p ps ih =>
    have hp := hf p List.mem_cons_self
    have hps : ∀ q ∈ ps, total (f q) ≤ pairWeight q := fun q hq => hf q (List.mem_cons_of_mem p hq)
    rw [List.flatMap_cons] at h
    cases hfp : f p with
    | nil =>
      -- nothing makes up for a pair that is lost
      have hle := total_flatMap hps
      have hpos := pairWeight_pos p
      rw [hfp, List.nil_append] at h
      rw [h, total_cons] at hle
      omega
    | cons q qs =>
      rw [hfp, List.cons_append, List.cons.injEq] at h
      obtain ⟨rfl, hrest⟩ := h
      rw [hfp, total_cons] at hp
      have hnil : qs = [] := eq_nil_of_total (by omega)
      subst hnil
      intro r hr
      rcases List.mem_cons.mp hr with rfl | hr
      · exact hfp
      · exact ih hps hrest r hr

/-- The kept pairs of a list are read back from its text when each of them is plain, and only
then. -/
theorem flatMap_raw_iff (strips : Bool) (keep : Text × Text → Bool) {ps : List (Text × Text)}
    (hkeep : ∀ p ∈ ps, keep p = true) :
    (ps.flatMap fun p => (parse (utf8 (stripped strips (raw p)))).filter keep) = ps ↔
      ∀ p ∈ ps, Plain strips p := by
  constructor
  · intro h p hp
    have hle : ∀ q ∈ ps, total ((parse (utf8 (stripped strips (raw q)))).filter keep) ≤
        pairWeight q := by
      intro q _
      have h₁ := (total_filter keep (parse (utf8 (stripped strips (raw q))))).1
      have h₂ := total_raw strips q
      omega
    have hself := flatMap_eq_self hle h p hp
    have hfilter := total_filter keep (parse (utf8 (stripped strips (raw p))))
    have hraw := total_raw strips p
    rw [← parse_raw_iff, ← hself]
    refine (hfilter.2 ?_).symm
    have htotal : total [p] = pairWeight p := rfl
    rw [hself, htotal] at hfilter ⊢
    omega
  · intro h
    have hself : ∀ p ∈ ps, (parse (utf8 (stripped strips (raw p)))).filter keep = [p] := by
      intro p hp
      rw [(parse_raw_iff strips p).mpr (h p hp), List.filter_cons_of_pos (hkeep p hp),
        List.filter_nil]
    rw [List.flatMap_congr hself, List.flatMap_singleton']

/-! ## Reading a value with and without `+` -/

theorem escape?_append_ampersand (l l' : List UInt8) :
    escape? (l ++ ampersand :: l') = escape? l := by
  match l with
  | [] => exact escape?_of_first rfl _
  | [h] => exact escape?_of_second rfl _ _
  | h :: d :: rest => exact escape?_congr h d _ _

theorem percentDecode_append_ampersand (l l' : List UInt8) :
    percentDecode (l ++ ampersand :: l') = percentDecode l ++ ampersand :: percentDecode l' := by
  induction l using percentDecode_induction with
  | nil => exact percentDecode_cons_of_ne (by decide) l'
  | plain b rest hb ih =>
    rw [List.cons_append, percentDecode_cons_of_ne hb, percentDecode_cons_of_ne hb, ih]
    rfl
  | escaped h d rest v he ih =>
    have he' : escape? (h :: d :: (rest ++ ampersand :: l')) = some v := escape?_congr h d _ rest ▸ he
    rw [percentDecode_of_escape he]
    change percentDecode (percent :: h :: d :: (rest ++ ampersand :: l')) = _
    rw [percentDecode_of_escape he']
    exact congrArg (v :: ·) ih
  | lone rest hn ih =>
    rw [List.cons_append, percentDecode_of_none hn, percentDecode_of_none, ih]
    · rfl
    · rw [escape?_append_ampersand, hn]

/-- A `+` is read as a space of the same weight; what `%2B` stands for is counted on both
sides. -/
theorem percentDecode_replacePlus (l : List UInt8) :
    weight (percentDecode (replacePlus l)) = weight (percentDecode l) ∧
      (percentDecode (replacePlus l)).count plus + l.count plus = (percentDecode l).count plus := by
  induction l using percentDecode_induction with
  | nil => exact ⟨rfl, rfl⟩
  | plain b rest hb ih =>
    by_cases hp : b = plus
    · subst hp
      have hs : weight [space] = weight [plus] := rfl
      rw [replacePlus_plus, percentDecode_cons_of_ne (by decide), percentDecode_cons_of_ne hb,
        weight_cons space, weight_cons plus, List.count_cons_of_ne (by decide),
        List.count_cons_self, List.count_cons_self]
      omega
    · rw [replacePlus_cons_of_ne hp, percentDecode_cons_of_ne hb, percentDecode_cons_of_ne hb,
        weight_cons b, weight_cons b (percentDecode rest), List.count_cons_of_ne hp,
        List.count_cons_of_ne hp, List.count_cons_of_ne hp]
      omega
  | escaped h d rest v he ih =>
    obtain ⟨hh, hd⟩ := escape?_digits he
    obtain ⟨-, -, hhp, -⟩ := hexValue?_isAscii hh
    obtain ⟨-, -, hdp, -⟩ := hexValue?_isAscii hd
    have hrep : percentDecode (replacePlus (percent :: h :: d :: rest)) =
        v :: percentDecode (replacePlus rest) := by
      rw [replacePlus_cons_of_ne (by decide), replacePlus_cons_of_ne hhp,
        replacePlus_cons_of_ne hdp, percentDecode_of_escape (escape?_congr h d _ rest ▸ he)]
      rfl
    have hdec : percentDecode (percent :: h :: d :: rest) = v :: percentDecode rest :=
      percentDecode_of_escape he
    have hpercent : percent ≠ plus := by decide
    have hcount : (percent :: h :: d :: rest).count plus = rest.count plus := by
      rw [List.count_cons_of_ne hpercent, List.count_cons_of_ne hhp, List.count_cons_of_ne hdp]
    rw [hcount, hrep, hdec, weight_cons v, weight_cons v (percentDecode rest), List.count_cons,
      List.count_cons]
    omega
  | lone rest hn ih =>
    have hpercent : percent ≠ plus := by decide
    rw [replacePlus_cons_of_ne hpercent, percentDecode_of_none (by rw [escape?_replacePlus, hn]),
      percentDecode_of_none hn, weight_cons percent, weight_cons percent (percentDecode rest),
      List.count_cons_of_ne hpercent, List.count_cons_of_ne hpercent,
      List.count_cons_of_ne hpercent]
    omega

/-- What stands before an `&` is not read as the whole. -/
theorem decode_ne_of_ampersand (l l' : List UInt8) :
    decode l ≠ decodeUtf8Lossy (percentDecode (l ++ ampersand :: l')) := by
  intro h
  have hweight := congrArg (fun t => weight (utf8 t)) h
  have ha : weight [ampersand] = 1 := rfl
  simp only [decode, weight, ascii_decodeUtf8Lossy] at hweight
  change weight (percentDecode (replacePlus l)) = weight (percentDecode (l ++ ampersand :: l'))
    at hweight
  rw [percentDecode_append_ampersand, weight_append, weight_cons ampersand,
    (percentDecode_replacePlus l).1] at hweight
  omega

/-- A text is read as a value the way its escapes are decoded when it has no `+`, and only
then. -/
theorem decode_eq_iff (l : List UInt8) :
    decode l = decodeUtf8Lossy (percentDecode l) ↔ plus ∉ l := by
  constructor
  · intro h hp
    have hascii := congrArg (fun t => (ascii (utf8 t)).count plus) h
    simp only [decode, ascii_decodeUtf8Lossy] at hascii
    rw [ascii, ascii, List.count_filter rfl, List.count_filter rfl] at hascii
    have hcount := (percentDecode_replacePlus l).2
    have hpos := List.count_pos_iff.mpr hp
    omega
  · intro h
    rw [decode, replacePlus_of_not_mem h]

end WsIo.Encoding
