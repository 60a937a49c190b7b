import WsIo.Encoding.PlainPairs

/-!
# The client builder

`WsIoClientBuilder::new` reads the pairs of the URL's query, drops those named `namespace`,
adds the normalised path under that name and writes all of them back as `name=value`, without
escapes of its own.

* `normalizeUrlPath_canonical`: `normalize_url_path` is a canonical form of the path.
* `query_preserved_iff`: when the pairs that the caller put into the URL are still those of
  the URL that is connected to.
-/

namespace WsIo.Client

open Encoding

/-- A `Url`. Its parser leaves no tab and no newline in the path. -/
structure Url where
  scheme : String
  path : Text
  query : Option (List UInt8)
  path_parsed : ∀ c ∈ path, isTabOrNewline c = false

def Url.queryPairs (url : Url) : List (Text × Text) := parse (url.query.getD [])

def namespaceKey : Text := "namespace".toList

/-- Every pair but those of the namespace. -/
def notNamespace (p : Text × Text) : Bool := p.1 ≠ namespaceKey

namespace WsIoClientBuilder

def normalizeUrlPath (path : Text) : Text :=
  '/' :: ['/'].intercalate ((path.splitOn '/').filter fun s => !s.isEmpty)

/-- `new`: the URL that is connected to. -/
def new (strips : Bool) (url : Url) : Except String Url :=
  if url.scheme ≠ "ws" ∧ url.scheme ≠ "wss" then .error ("Invalid URL scheme: " ++ url.scheme)
  else
    let queryPairs := url.queryPairs.filter notNamespace ++
      [(namespaceKey, normalizeUrlPath url.path)]
    let query := ['&'].intercalate (queryPairs.map raw)
    .ok { url with
      query := some (setQuery strips query)
      path := "/ws.io".toList
      path_parsed := all_untabbed_iff.mp (by decide) }

/-! ## Paths -/

theorem normalizeUrlPath_eq (path : Text) : normalizeUrlPath path = canonical '/' path := rfl

/-- **`normalize_url_path` is a canonical form**: one slash before each segment of the path, and
nothing else. -/
theorem normalizeUrlPath_canonical :
    (∀ p, (normalizeUrlPath p).head? = some '/' ∧ ¬ ['/', '/'] <:+: normalizeUrlPath p ∧
      ((normalizeUrlPath p).getLast? = some '/' ↔ normalizeUrlPath p = ['/']) ∧
      segments '/' (normalizeUrlPath p) = segments '/' p) ∧
    (∀ p, normalizeUrlPath (normalizeUrlPath p) = normalizeUrlPath p) ∧
    (∀ p q, normalizeUrlPath p = normalizeUrlPath q ↔ segments '/' p = segments '/' q) := by
  refine ⟨fun p => ⟨rfl, canonical_no_double '/' p, ⟨fun h => ?_, fun h => ?_⟩,
    segments_canonical '/' p⟩, canonical_canonical '/', fun p q => canonical_eq_iff⟩
  · obtain ⟨a, ha⟩ := List.getLast?_eq_some_iff.mp h
    exact canonical_trailing ha
  · rw [h]
    rfl

theorem normalizeUrlPath_kept (url : Url) :
    ∀ c ∈ normalizeUrlPath url.path, isTabOrNewline c = false := by
  intro c hc
  by_cases hs : c = '/'
  · rw [hs]
    rfl
  · exact url.path_parsed c ((mem_canonical hs).mp hc)

/-! ## The query that is written -/

/-- The pairs of the URL that `new` keeps. -/
def kept (url : Url) : List (Text × Text) := url.queryPairs.filter notNamespace

/-- What is read from the text `name=value` of a pair. -/
def again (strips : Bool) (p : Text × Text) : List (Text × Text) :=
  parse (utf8 (stripped strips (raw p)))

/-- What the query of the new URL is read as: every kept pair a second time, then the pair of
the namespace. -/
theorem new_queryPairs {strips : Bool} {url url' : Url} (h : new strips url = .ok url') :
    url'.queryPairs = (kept url).flatMap (again strips) ++
      again strips (namespaceKey, normalizeUrlPath url.path) := by
  unfold new at h
  split at h
  · cases h
  · cases h
    change parse (setQuery strips (['&'].intercalate _)) = _
    rw [parse_setQuery, parse_intercalate, List.flatMap_map, List.flatMap_append,
      List.flatMap_singleton]
    rfl

theorem namespaceKey_kept : ∀ c ∈ namespaceKey, isTabOrNewline c = false :=
  all_untabbed_iff.mp (by decide)

theorem decode_namespaceKey : decode (utf8 namespaceKey) = namespaceKey := by
  apply decode_utf8
  · decide
  · decide +kernel

/-- The path as a value: up to its first `&`, after which it is read as further pairs. -/
theorem again_namespace (strips : Bool) (url : Url) :
    again strips (namespaceKey, normalizeUrlPath url.path) =
      (namespaceKey, decode (utf8 ((normalizeUrlPath url.path).takeWhile (· ≠ '&')))) ::
        parse (utf8 (((normalizeUrlPath url.path).dropWhile (· ≠ '&')).drop 1)) := by
  have hself : stripped strips (raw (namespaceKey, normalizeUrlPath url.path)) =
      raw (namespaceKey, normalizeUrlPath url.path) := by
    apply stripped_of_kept
    intro _ c hc
    rcases List.mem_append.mp hc with hc | hc
    · exact namespaceKey_kept c hc
    · rcases List.mem_cons.mp hc with rfl | hc
      · rfl
      · exact normalizeUrlPath_kept url c hc
  have hequals : equals ∉ utf8 namespaceKey := by
    rw [equals_mem_utf8]
    decide
  have hsingle : ∀ value : Text, '&' ∉ value →
      parse (utf8 namespaceKey ++ equals :: utf8 value) = [(namespaceKey, decode (utf8 value))] := by
    intro value hvalue
    have hamp : ampersand ∉ utf8 namespaceKey ++ equals :: utf8 value := by
      intro hm
      rcases List.mem_append.mp hm with hm | hm
      · exact absurd (ampersand_mem_utf8.mp hm) (by decide)
      · rcases List.mem_cons.mp hm with hm | hm
        · cases hm
        · exact hvalue (ampersand_mem_utf8.mp hm)
    rw [parse_of_not_mem hamp (List.append_ne_nil_of_right_ne_nil _ (List.cons_ne_nil _ _)),
      parsePair_append hequals, decode_namespaceKey]
  rw [again, hself, utf8_raw]
  generalize normalizeUrlPath url.path = path
  by_cases h : '&' ∈ path
  · obtain ⟨before, after, rfl, hbefore⟩ := List.eq_append_cons_of_mem h
    have hall := all_ne_of_not_mem hbefore
    have hutf8 : utf8 (before ++ '&' :: after) = utf8 before ++ ampersand :: utf8 after := by
      rw [utf8_append, utf8_cons]
      rfl
    rw [hutf8, ← List.cons_append, ← List.append_assoc, parse_append, hsingle before hbefore,
      List.takeWhile_append_of_pos hall, List.dropWhile_append_of_pos hall]
    simp
  · have hall := all_ne_of_not_mem h
    rw [hsingle path h, List.takeWhile_eq_self_iff.mpr hall, List.dropWhile_eq_nil_iff.mpr hall]
    rfl

/-- The pairs that the path adds to the query: what is read from it after an `&`. -/
def pathPairs (url : Url) : List (Text × Text) :=
  (parse (utf8 (((normalizeUrlPath url.path).dropWhile (· ≠ '&')).drop 1))).filter notNamespace

theorem new_kept {strips : Bool} {url url' : Url} (h : new strips url = .ok url') :
    kept url' = ((kept url).flatMap fun p => (again strips p).filter notNamespace) ++
      pathPairs url := by
  rw [kept, new_queryPairs h, again_namespace, List.filter_append, List.filter_flatMap,
    List.filter_cons_of_neg (by simp [notNamespace])]
  rfl

/-- **When the caller's query survives.** The pairs of the new URL are those of the given URL
exactly when the path adds no pair and no kept pair holds a character that is read otherwise
without its escape; or, by coincidence, when the pairs that the path adds are the last of the
kept ones and the rest is what is read from all of them. The second case is as small as it can
be: it asks that the path adds pairs and only then repeats the equation. -/
theorem query_preserved_iff {strips : Bool} {url url' : Url} (h : new strips url = .ok url') :
    kept url' = kept url ↔
      pathPairs url = [] ∧ (∀ p ∈ kept url, Plain strips p) ∨
      pathPairs url ≠ [] ∧ ∃ front, kept url = front ++ pathPairs url ∧
        ((kept url).flatMap fun p => (again strips p).filter notNamespace) = front := by
  rw [new_kept h]
  have hkeep : ∀ p ∈ kept url, notNamespace p = true := fun p hp => (List.mem_filter.mp hp).2
  by_cases hpath : pathPairs url = []
  · rw [hpath, List.append_nil]
    have hplain := flatMap_raw_iff strips notNamespace hkeep
    constructor
    · exact fun hself => .inl ⟨rfl, hplain.mp hself⟩
    · rintro (⟨-, hall⟩ | ⟨hne, -⟩)
      · exact hplain.mpr hall
      · exact absurd rfl hne
  · constructor
    · exact fun hself => .inr ⟨hpath, _, hself.symm, rfl⟩
    · rintro (⟨hnil, -⟩ | ⟨-, front, hsplit, hfront⟩)
      · exact absurd hnil hpath
      · rw [hfront]
        exact hsplit.symm

/-- `ws://localhost/socket` with the given query. -/
def socketUrl (query : String) : Url where
  scheme := "ws"
  path := "/socket".toList
  query := some (utf8 query.toList)
  path_parsed := all_untabbed_iff.mp (by decide)

theorem query_preserved_plain : ∃ url', new true (socketUrl "room=a%20b&id") = .ok url' ∧
    kept (socketUrl "room=a%20b&id") = [("room".toList, "a b".toList), ("id".toList, [])] ∧
    kept url' = kept (socketUrl "room=a%20b&id") :=
  ⟨_, rfl, by decide +kernel,
    (query_preserved_iff rfl).mpr (.inl ⟨by decide +kernel, by decide +kernel⟩)⟩

/-- Of the token `a%2Bb` the plus is written without its escape, and read as a space. -/
theorem query_not_preserved :
    (¬ ∀ url url', new false url = .ok url' → kept url' = kept url) ∧
    (¬ ∀ url url', new true url = .ok url' → kept url' = kept url) := by
  constructor
  all_goals
    intro h
    have hself := h (socketUrl "token=a%2Bb") _ rfl
    revert hself
    decide +kernel

end WsIoClientBuilder

end WsIo.Client
