import Mathlib.Data.List.Basic

/-!
# Splitting at a separator

The non-empty pieces of a list between its separators, and the list that is built from them
with one separator before each. `canonical_eq_iff`: two lists have the same pieces exactly
when they have the same canonical form.
-/

namespace WsIo.Encoding

variable {α : Type*} {sep : α} {l l' : List α}

/-- A list splits at its first separator in one way. -/
theorem append_cons_inj {a a' b b' : List α} (ha : sep ∉ a) (ha' : sep ∉ a')
    (h : a ++ sep :: b = a' ++ sep :: b') : a = a' ∧ b = b' := by
  induction a generalizing a' with
  | nil =>
    cases a' with
    | nil => exact ⟨rfl, (List.cons.inj h).2⟩
    | cons x a' =>
      refine absurd ?_ ha'
      rw [(List.cons.inj h).1]
      exact List.mem_cons_self
  | cons x a ih =>
    cases a' with
    | nil =>
      refine absurd ?_ ha
      rw [(List.cons.inj h).1]
      exact List.mem_cons_self
    | cons y a' =>
      obtain ⟨hxy, hrest⟩ := List.cons.inj h
      obtain ⟨rfl, rfl⟩ := ih (fun hm => ha (List.mem_cons_of_mem _ hm))
        (fun hm => ha' (List.mem_cons_of_mem _ hm)) hrest
      exact ⟨by rw [hxy], rfl⟩

theorem mem_intercalate {x : α} (hx : x ≠ sep) {ls : List (List α)} :
    x ∈ [sep].intercalate ls ↔ ∃ s ∈ ls, x ∈ s := by
  induction ls with
  | nil => simp
  | cons s ls ih =>
    cases ls with
    | nil => simp
    | cons s' ls =>
      rw [List.intercalate_cons_cons, List.mem_append, List.mem_append, ih, List.mem_singleton]
      simp [hx]

variable [DecidableEq α]

theorem all_ne_of_not_mem (h : sep ∉ l) : ∀ x ∈ l, decide (x ≠ sep) = true := by
  intro x hx
  rw [decide_eq_true_eq]
  rintro rfl
  exact h hx

theorem not_mem_of_mem_splitOn {s : List α} (hs : s ∈ l.splitOn sep) : sep ∉ s := by
  induction l generalizing s with
  | nil =>
    rw [List.splitOn_nil, List.mem_singleton] at hs
    rw [hs]
    exact List.not_mem_nil
  | cons x l ih =>
    rw [List.splitOn_cons_eq_if_modifyHead] at hs
    split at hs
    · rcases List.mem_cons.mp hs with rfl | hs
      · exact List.not_mem_nil
      · exact ih hs
    · rename_i hx
      cases hl : l.splitOn sep with
      | nil => exact absurd hl (List.splitOn_ne_nil sep l)
      | cons t ts =>
        rw [hl, List.modifyHead_cons] at hs
        rcases List.mem_cons.mp hs with rfl | hs
        · rw [List.mem_cons, not_or]
          refine ⟨fun h => hx (beq_iff_eq.mpr h.symm), ih ?_⟩
          rw [hl]
          exact List.mem_cons_self
        · apply ih
          rw [hl]
          exact List.mem_cons_of_mem t hs

/-- What stands before the first separator belongs to the first piece. -/
theorem splitOn_append_of_not_mem (h : sep ∉ l) (l' : List α) :
    (l ++ l').splitOn sep = (l'.splitOn sep).modifyHead (l ++ ·) := by
  induction l with
  | nil =>
    rw [List.nil_append]
    cases l'.splitOn sep <;> rfl
  | cons x l ih =>
    rw [List.mem_cons, not_or] at h
    rw [List.cons_append, List.splitOn_cons_eq_if_modifyHead,
      if_neg (by simpa using Ne.symm h.1), ih h.2]
    cases l'.splitOn sep <;> rfl

/-- A map of elements to lists that leaves the separator alone, and makes no other, commutes
with splitting. -/
theorem splitOn_flatMap {f : α → List α} (hsep : f sep = [sep]) (hf : ∀ x, x ≠ sep → sep ∉ f x)
    (l : List α) : (l.flatMap f).splitOn sep = (l.splitOn sep).map (·.flatMap f) := by
  induction l with
  | nil => rfl
  | cons x l ih =>
    rw [List.flatMap_cons, List.splitOn_cons_eq_if_modifyHead]
    by_cases hx : x = sep
    · rw [hx, hsep, if_pos (beq_self_eq_true sep), List.singleton_append,
        List.splitOn_cons_eq_if_modifyHead, if_pos (beq_self_eq_true sep), ih]
      rfl
    · rw [if_neg (by simpa using hx)]
      rw [splitOn_append_of_not_mem (hf x hx), ih]
      cases l.splitOn sep <;> rfl

/-! ## Canonical forms -/

/-- The non-empty pieces between the separators. -/
def segments (sep : α) (l : List α) : List (List α) :=
  (l.splitOn sep).filter fun s => !s.isEmpty

/-- The pieces, with one separator before each; the separator alone when there is none. -/
def canonical (sep : α) (l : List α) : List α := sep :: [sep].intercalate (segments sep l)

theorem mem_segments {s : List α} : s ∈ segments sep l ↔ s ∈ l.splitOn sep ∧ s ≠ [] := by
  simp [segments, List.mem_filter]

/-- Without a non-empty piece there is nothing but separators. -/
theorem eq_sep_of_segments_nil (h : segments sep l = []) : ∀ x ∈ l, x = sep := by
  induction l with
  | nil => exact fun x hx => absurd hx List.not_mem_nil
  | cons y l ih =>
    rw [segments, List.splitOn_cons_eq_if_modifyHead] at h
    split at h
    · rename_i hy
      rw [List.filter_cons_of_neg (by simp)] at h
      intro x hx
      rcases List.mem_cons.mp hx with rfl | hx
      · exact beq_iff_eq.mp hy
      · exact ih h x hx
    · cases hl : l.splitOn sep with
      | nil => exact absurd hl (List.splitOn_ne_nil sep l)
      | cons s ss =>
        rw [hl, List.modifyHead_cons, List.filter_cons_of_pos (by simp)] at h
        cases h

/-- The pieces of a canonical form, the empty one before its first separator included. -/
theorem splitOn_canonical (h : segments sep l ≠ []) :
    (canonical sep l).splitOn sep = [] :: segments sep l := by
  have hcons := List.splitOn_append_cons_self (a := sep) [] ([sep].intercalate (segments sep l))
  rw [List.nil_append, List.splitOn_nil] at hcons
  rw [canonical, hcons, List.splitOn_intercalate sep _ h]
  · rfl
  · exact fun s hs => not_mem_of_mem_splitOn (mem_segments.mp hs).1

theorem canonical_of_nil (h : segments sep l = []) : canonical sep l = [sep] := by
  rw [canonical, h]
  rfl

/-- A canonical form has the elements of the list, its separators apart. -/
theorem mem_canonical {x : α} (hx : x ≠ sep) : x ∈ canonical sep l ↔ x ∈ l := by
  rw [canonical, List.mem_cons, mem_intercalate hx]
  have hmem : x ∈ l ↔ ∃ s ∈ l.splitOn sep, x ∈ s := by
    have hself : [sep].intercalate (l.splitOn sep) = l := List.intercalate_splitOn sep
    conv_lhs => rw [← hself]
    exact mem_intercalate hx
  rw [hmem]
  constructor
  · rintro (h | ⟨s, hs, hxs⟩)
    · exact absurd h hx
    · exact ⟨s, (mem_segments.mp hs).1, hxs⟩
  · rintro ⟨s, hs, hxs⟩
    exact .inr ⟨s, mem_segments.mpr ⟨hs, List.ne_nil_of_mem hxs⟩, hxs⟩

/-- A canonical form has the pieces it is built from. -/
theorem segments_canonical (sep : α) (l : List α) :
    segments sep (canonical sep l) = segments sep l := by
  by_cases h : segments sep l = []
  · rw [canonical_of_nil h, h]
    simp [segments, List.splitOn_cons_eq_if_modifyHead]
  · rw [segments, splitOn_canonical h, List.filter_cons_of_neg (by simp), List.filter_eq_self]
    intro s hs
    simpa using (mem_segments.mp hs).2

theorem canonical_canonical (sep : α) (l : List α) :
    canonical sep (canonical sep l) = canonical sep l := by
  rw [canonical, segments_canonical]
  rfl

/-- Equal canonical forms are equal lists of pieces. -/
theorem canonical_eq_iff : canonical sep l = canonical sep l' ↔ segments sep l = segments sep l' := by
  constructor
  · intro h
    calc segments sep l = segments sep (canonical sep l) := (segments_canonical sep l).symm
      _ = segments sep (canonical sep l') := by rw [h]
      _ = segments sep l' := segments_canonical sep l'
  · intro h
    rw [canonical, canonical, h]

/-- After its first separator a canonical form has no empty piece. -/
theorem canonical_split {a b : List α} (h : canonical sep l = a ++ sep :: b) (hl : segments sep l ≠ []) :
    [] ∉ b.splitOn sep := by
  have hsplit := splitOn_canonical hl
  rw [h, List.splitOn_append_cons_self] at hsplit
  cases ha : a.splitOn sep with
  | nil => exact absurd ha (List.splitOn_ne_nil sep a)
  | cons t ts =>
    rw [ha, List.cons_append, List.cons.injEq] at hsplit
    intro hmem
    have hseg : [] ∈ segments sep l := hsplit.2 ▸ List.mem_append_right ts hmem
    exact (mem_segments.mp hseg).2 rfl

/-- No two separators stand side by side in a canonical form. -/
theorem canonical_no_double (sep : α) (l : List α) : ¬ [sep, sep] <:+: canonical sep l := by
  rintro ⟨a, b, h⟩
  by_cases hl : segments sep l = []
  · have hlength := congrArg List.length h
    rw [canonical_of_nil hl] at hlength
    simp only [List.length_append, List.length_cons, List.length_nil] at hlength
    omega
  · rw [List.append_assoc] at h
    apply canonical_split h.symm hl
    change [] ∈ (sep :: b).splitOn sep
    rw [List.splitOn_cons_eq_if_modifyHead, if_pos (beq_self_eq_true sep)]
    exact List.mem_cons_self

/-- A canonical form ends with the separator only when it is the separator. -/
theorem canonical_trailing {a : List α} (h : canonical sep l = a ++ [sep]) :
    canonical sep l = [sep] := by
  by_cases hl : segments sep l = []
  · exact canonical_of_nil hl
  · refine absurd ?_ (canonical_split h hl)
    rw [List.splitOn_nil]
    exact List.mem_singleton_self []

end WsIo.Encoding
