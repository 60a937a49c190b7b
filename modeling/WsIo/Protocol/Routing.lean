import WsIo.Client.Builder
import WsIo.Server.Request

/-!
# Which namespace a client reaches

The server takes the namespace of an upgrade request from the first pair of its query that is
named `namespace`; the client builder writes that pair last, after the pairs of its caller, and
writes all of them without escapes. `namespace_agrees_iff`: when the server finds the path of
the client's URL.
-/

namespace WsIo

open Encoding Client.WsIoClientBuilder

/-- The namespace that a client URL names. -/
def urlNamespace (url : Client.Url) : Text :=
  decodeUtf8Lossy (percentDecode (utf8 (normalizeUrlPath url.path)))

/-- The first pair that is named `namespace` when the kept pairs are read from their texts. -/
def overriding (strips : Bool) (url : Client.Url) : Option (Text × Text) :=
  ((kept url).flatMap (again strips)).find? fun p => p.1 = Client.namespaceKey

theorem namespacePath_new {strips : Bool} {url url' : Client.Url} (h : new strips url = .ok url') :
    Server.namespacePath url'.query = some ((overriding strips url).elim
      (decode (utf8 ((normalizeUrlPath url.path).takeWhile (· ≠ '&')))) Prod.snd) := by
  have hpairs := new_queryPairs h
  rw [again_namespace, Client.Url.queryPairs] at hpairs
  obtain ⟨q, hq⟩ : ∃ q, url'.query = some q := by
    unfold new at h
    split at h
    · cases h
    · cases h
      exact ⟨_, rfl⟩
  have hpath : Server.namespacePath (some q) =
      ((parse q).find? fun p => p.1 = Client.namespaceKey).map Prod.snd := rfl
  rw [hq, Option.getD_some] at hpairs
  rw [hq, hpath, hpairs, List.find?_append, overriding]
  cases ((kept url).flatMap (again strips)).find? fun p => p.1 = Client.namespaceKey with
  | none =>
    rw [Option.none_or, List.find?_cons_of_pos (by simp)]
    rfl
  | some p => rfl

theorem mem_utf8_normalizeUrlPath (path : Text) :
    ('&' ∈ normalizeUrlPath path ↔ '&' ∈ path) ∧ ('+' ∈ normalizeUrlPath path ↔ '+' ∈ path) :=
  ⟨mem_canonical (by decide), mem_canonical (by decide)⟩

/-- The path is read as itself when it has no `&` and no `+`. -/
theorem decode_path_iff (path : Text) :
    decode (utf8 ((normalizeUrlPath path).takeWhile (· ≠ '&'))) =
      decodeUtf8Lossy (percentDecode (utf8 (normalizeUrlPath path))) ↔ '&' ∉ path ∧ '+' ∉ path := by
  rw [← (mem_utf8_normalizeUrlPath path).1, ← (mem_utf8_normalizeUrlPath path).2]
  generalize normalizeUrlPath path = p
  by_cases h : '&' ∈ p
  · obtain ⟨before, after, rfl, hbefore⟩ := List.eq_append_cons_of_mem h
    have hutf8 : utf8 (before ++ '&' :: after) = utf8 before ++ ampersand :: utf8 after := by
      rw [utf8_append, utf8_cons]
      rfl
    rw [List.takeWhile_append_of_pos (all_ne_of_not_mem hbefore), hutf8,
      List.takeWhile_cons_of_neg (by simp), List.append_nil]
    exact ⟨fun he => absurd he (decode_ne_of_ampersand _ _), fun hn => absurd h hn.1⟩
  · rw [List.takeWhile_eq_self_iff.mpr (all_ne_of_not_mem h), decode_eq_iff, plus_mem_utf8]
    exact ⟨fun hp => ⟨h, hp⟩, fun hp => hp.2⟩

/-- **When client and server agree on the namespace.** The path has no `&` and no `+`, and no
kept pair of the query turns into a pair named `namespace`; or, by coincidence, the first one
that does holds the namespace of the path. The second case is as small as it can be: it asks
for such a pair and only then repeats the equation, since the value of the pair is the
caller's. -/
theorem namespace_agrees_iff {strips : Bool} {url url' : Client.Url}
    (h : new strips url = .ok url') :
    Server.namespacePath url'.query = some (urlNamespace url) ↔
      ((∀ p ∈ kept url, ∀ q ∈ again strips p, q.1 ≠ Client.namespaceKey) ∧
        '&' ∉ url.path ∧ '+' ∉ url.path) ∨
      ∃ p, overriding strips url = some p ∧ p.2 = urlNamespace url := by
  rw [namespacePath_new h, Option.some.injEq]
  cases hover : overriding strips url with
  | none =>
    have hnone : ∀ p ∈ kept url, ∀ q ∈ again strips p, q.1 ≠ Client.namespaceKey := by
      intro p hp q hq
      have hfind := List.find?_eq_none.mp hover q (List.mem_flatMap.mpr ⟨p, hp, hq⟩)
      simpa using hfind
    rw [Option.elim_none, urlNamespace, decode_path_iff]
    constructor
    · exact fun hpath => .inl ⟨hnone, hpath⟩
    · rintro (⟨-, hpath⟩ | ⟨p, hp, -⟩)
      · exact hpath
      · cases hp
  | some p =>
    rw [Option.elim_some]
    constructor
    · exact fun he => .inr ⟨p, rfl, he⟩
    · rintro (⟨hnone, -⟩ | ⟨q, hq, he⟩)
      · obtain ⟨q, hq, hmem⟩ := List.mem_flatMap.mp (List.mem_of_find?_eq_some hover)
        have hkey : p.1 = Client.namespaceKey := by simpa using List.find?_some hover
        exact absurd hkey (hnone q hq p hmem)
      · cases hq
        exact he

theorem namespace_agrees_plain : ∃ url', new true (socketUrl "x=1") = .ok url' ∧
    Server.namespacePath url'.query = some "/socket".toList := by
  have hnamespace : urlNamespace (socketUrl "x=1") = "/socket".toList := by decide +kernel
  refine ⟨_, rfl, ?_⟩
  rw [← hnamespace]
  exact (namespace_agrees_iff rfl).mpr (.inl ⟨by decide +kernel, by decide, by decide⟩)

/-- `ws://localhost/a+b`. -/
def plusUrl : Client.Url where
  scheme := "ws"
  path := "/a+b".toList
  query := none
  path_parsed := all_untabbed_iff.mp (by decide)

/-- The server looks for `/a b` when the client's path is `/a+b`, and for `/admin` when a value
of the client's query is an escaped `&namespace=/admin`. -/
theorem namespace_disagrees :
    (¬ ∀ url url', new false url = .ok url' →
      Server.namespacePath url'.query = some (urlNamespace url)) ∧
    (¬ ∀ url url', new true url = .ok url' →
      Server.namespacePath url'.query = some (urlNamespace url)) ∧
    ∃ url', new true (socketUrl "x=%26namespace%3D%2Fadmin") = .ok url' ∧
      Server.namespacePath url'.query = some "/admin".toList ∧
      urlNamespace (socketUrl "x=%26namespace%3D%2Fadmin") = "/socket".toList := by
  refine ⟨fun h => ?_, fun h => ?_, _, rfl, by decide +kernel, by decide +kernel⟩
  all_goals
    have hplus := h plusUrl _ rfl
    revert hplus
    decide +kernel

end WsIo
