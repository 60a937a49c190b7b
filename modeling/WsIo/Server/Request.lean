import Mathlib.Data.Finset.Card
import Mathlib.Data.List.DropRight
import WsIo.Encoding.FormUrlencoded
import WsIo.Server.Runtime

/-!
# Upgrade requests

`request.rs`: `dispatch_request` checks a request, looks up the namespace that its query
names, lets `handle_on_upgrade_request` spawn the task of the request into the namespace's
task set, and answers. The call awaits the lock of the task set; `checkRequest` is what it
does before, on the request and the map of namespaces.

* `dispatch_request_status`: the answer is that of the first requirement that fails, and a
  task is spawned when none does, into the namespace of the request only.
* `dispatch_request_steps`: the call is the two steps that the server makes for a request.
-/

namespace WsIo.Server

open Async Core Encoding

inductive HeaderName
  | connection
  | upgrade
  | secWebsocketAccept
  | secWebsocketKey
  | secWebsocketVersion
  | other (name : String)
  deriving DecidableEq, Repr

def isHeaderByte (b : UInt8) : Bool := 0x20 ≤ b && b ≠ 0x7F || b = 0x09

/-- A byte that `to_str` accepts. -/
def isVisible (b : UInt8) : Bool := 0x20 ≤ b && b < 0x7F || b = 0x09

/-- A `HeaderValue`: no control byte but the tab. -/
structure HeaderValue where
  bytes : Bytes
  valid : ∀ b ∈ bytes, isHeaderByte b = true
  deriving DecidableEq, Repr

namespace HeaderValue

def fromStr (text : Bytes) : Option HeaderValue :=
  if h : text.all isHeaderByte = true then some ⟨text, List.all_eq_true.mp h⟩ else none

def toStr (v : HeaderValue) : Option Bytes := if v.bytes.all isVisible then some v.bytes else none

end HeaderValue

inductive StatusCode
  | switchingProtocols
  | badRequest
  | notFound
  | methodNotAllowed
  | internalServerError
  deriving DecidableEq, Repr

def StatusCode.code : StatusCode → Nat
  | .switchingProtocols => 101
  | .badRequest => 400
  | .notFound => 404
  | .methodNotAllowed => 405
  | .internalServerError => 500

/-- What `dispatch_request` reads of a request; `onUpgrade` is the presence of hyper's
`OnUpgrade` extension. Header values stand in the order in which they came. -/
structure HttpRequest where
  method : String
  headers : List (HeaderName × HeaderValue)
  query : Option Bytes
  onUpgrade : Bool
  deriving DecidableEq, Repr

structure Response where
  status : StatusCode
  headers : List (HeaderName × HeaderValue)
  deriving DecidableEq, Repr

/-! ## Headers -/

def toAsciiLower (b : UInt8) : UInt8 := if 0x41 ≤ b && b ≤ 0x5A then b + 0x20 else b

def eqIgnoreAsciiCase (l l' : Bytes) : Bool := l.map toAsciiLower = l'.map toAsciiLower

def isWhitespace (b : UInt8) : Bool := b = 0x20 || 0x09 ≤ b && b ≤ 0x0D

def trim (l : Bytes) : Bytes := (l.dropWhile isWhitespace).rdropWhile isWhitespace

abbrev comma : UInt8 := 0x2C

namespace HttpRequest

/-- `HeaderMap::get`: the first value. -/
def get (request : HttpRequest) (name : HeaderName) : Option HeaderValue :=
  request.headers.lookup name

/-- `HeaderMap::get_all`. -/
def getAll (request : HttpRequest) (name : HeaderName) : List HeaderValue :=
  (request.headers.filter fun p => p.1 = name).map Prod.snd

end HttpRequest

def checkHeaderToken (request : HttpRequest) (name : HeaderName) (expectedToken : Bytes) : Bool :=
  (request.getAll name).any fun value =>
    match value.toStr with
    | some text => (text.splitOn comma).any fun token => eqIgnoreAsciiCase (trim token) expectedToken
    | none => false

def checkHeaderValue (request : HttpRequest) (name : HeaderName) (expectedValue : Bytes) : Bool :=
  match request.get name with
  | some value => eqIgnoreAsciiCase value.bytes expectedValue
  | none => false

/-! ## Dispatch -/

abbrev websocket : Bytes := utf8 "websocket".toList
abbrev upgradeToken : Bytes := utf8 "upgrade".toList
abbrev version13 : Bytes := utf8 "13".toList

/-- The value of the first pair of the query that is named `namespace`. -/
def namespacePath (query : Option Bytes) : Option Text :=
  query.bind fun q => ((parse q).find? fun p => p.1 = "namespace".toList).map Prod.snd

/-- `get_namespace`. -/
def getNamespace (s : Runtime) (path : Text) : Option Nat := s.paths.lookup (String.ofList path)

/-- Where the checks of `dispatch_request` end: in an answer, or at the upgrade of a request
with its websocket key, in a namespace. -/
inductive Dispatch
  | respond (status : StatusCode)
  | upgrade (n : Nat) (key : Bytes)
  deriving DecidableEq, Repr

def checkRequest (s : Runtime) (request : HttpRequest) : Dispatch :=
  if request.method ≠ "GET" then .respond .methodNotAllowed
  else if !checkHeaderValue request .upgrade websocket ||
      !checkHeaderToken request .connection upgradeToken ||
      !checkHeaderValue request .secWebsocketVersion version13 then .respond .badRequest
  else
    match (request.get .secWebsocketKey).bind HeaderValue.toStr with
    | none => .respond .badRequest
    | some key =>
      match namespacePath request.query with
      | none => .respond .badRequest
      | some path =>
        match getNamespace s path with
        | none => .respond .notFound
        | some n => if request.onUpgrade then .upgrade n key else .respond .internalServerError

/-- `handle_on_upgrade_request` of request `i`: it waits while the lock of the task set is
held, and spawns the task. -/
def handleOnUpgradeRequest (cfg : ServerConfig) (s : Runtime) (n i : Nat) : Option Runtime :=
  if (s.namespaces n).taskSetLocked then none
  else some ((s.setConn i ⟨n, { Connection.initial (cfg.config n) with main := .upgrading }⟩).setNamespace
    n { s.namespaces n with taskSet := insert i (s.namespaces n).taskSet })

def respond (status : StatusCode) : Response := ⟨status, []⟩

def headerUpgrade : HeaderValue := ⟨utf8 "Upgrade".toList, by decide +kernel⟩

def headerWebsocket : HeaderValue := ⟨websocket, by decide +kernel⟩

/-- `dispatch_request` of request `i`: `s₀` is the state in which it looks up the namespace,
`s` the one in which it acquires the lock of the task set, or answers without it; `none` while
it waits. -/
def dispatchRequest (deriveAcceptKey : Bytes → Bytes) (cfg : ServerConfig) (s₀ s : Runtime)
    (i : Nat) (request : HttpRequest) : Option (Runtime × Response) :=
  match checkRequest s₀ request with
  | .respond status => some (s, respond status)
  | .upgrade n key =>
    (handleOnUpgradeRequest cfg s n i).map fun s' =>
      match HeaderValue.fromStr (deriveAcceptKey key) with
      | none => (s', respond .internalServerError)
      | some accept => (s', ⟨.switchingProtocols, [(.connection, headerUpgrade),
          (.secWebsocketAccept, accept), (.upgrade, headerWebsocket)]⟩)

/-! ## What a request must have -/

/-- The answer that a list of requirements gives: that of the first one that is not met. -/
inductive Answers : List (Prop × StatusCode) → StatusCode → Prop
  | met : Answers [] .switchingProtocols
  | fails {P : Prop} {c : StatusCode} {l : List (Prop × StatusCode)} (h : ¬ P) : Answers ((P, c) :: l) c
  | next {P : Prop} {c status : StatusCode} {l : List (Prop × StatusCode)} (h : P)
      (rest : Answers l status) : Answers ((P, c) :: l) status

/-- The first value of the header is the expected one, in any case. -/
def HasValue (request : HttpRequest) (name : HeaderName) (expected : Bytes) : Prop :=
  ∃ v, request.headers.lookup name = some v ∧ v.bytes.map toAsciiLower = expected.map toAsciiLower

/-- Some value of the header is visible text and has the expected token between its commas. -/
def HasToken (request : HttpRequest) (name : HeaderName) (expected : Bytes) : Prop :=
  ∃ v, (name, v) ∈ request.headers ∧ (∀ b ∈ v.bytes, isVisible b = true) ∧
    ∃ token ∈ v.bytes.splitOn comma, (trim token).map toAsciiLower = expected.map toAsciiLower

/-- The first namespace that the query names is registered. -/
def Resolves (s : Runtime) (request : HttpRequest) (n : Nat) : Prop :=
  ∃ path, namespacePath request.query = some path ∧ s.paths.lookup (String.ofList path) = some n

/-- What an upgrade request must have, in the order of the checks, with the answers to those
that do not. -/
def requirements (s : Runtime) (request : HttpRequest) : List (Prop × StatusCode) := [
  (request.method = "GET", .methodNotAllowed),
  (HasValue request .upgrade websocket, .badRequest),
  (HasToken request .connection upgradeToken, .badRequest),
  (HasValue request .secWebsocketVersion version13, .badRequest),
  (∃ v, request.headers.lookup .secWebsocketKey = some v ∧ ∀ b ∈ v.bytes, isVisible b = true,
    .badRequest),
  (∃ path, namespacePath request.query = some path, .badRequest),
  (∃ n, Resolves s request n, .notFound),
  (request.onUpgrade = true, .internalServerError)]

theorem Answers.all_met {l : List (Prop × StatusCode)} {status : StatusCode}
    (hl : ∀ p ∈ l, p.2 ≠ .switchingProtocols) (h : Answers l status) :
    status = .switchingProtocols ↔ ∀ p ∈ l, p.1 := by
  induction h with
  | met => simp
  | @fails P c l hP =>
    constructor
    · intro hc
      exact absurd hc (hl (P, c) List.mem_cons_self)
    · intro hall
      exact absurd (hall (P, c) List.mem_cons_self) hP
  | @next P c status l hP _ ih =>
    rw [ih fun p hp => hl p (List.mem_cons_of_mem _ hp)]
    simp [hP]

theorem checkHeaderValue_iff (request : HttpRequest) (name : HeaderName) (expected : Bytes) :
    checkHeaderValue request name expected = true ↔ HasValue request name expected := by
  unfold checkHeaderValue HttpRequest.get HasValue
  cases request.headers.lookup name with
  | none => simp
  | some v => simp [eqIgnoreAsciiCase]

theorem toStr_eq_some {v : HeaderValue} {text : Bytes} :
    v.toStr = some text ↔ text = v.bytes ∧ ∀ b ∈ v.bytes, isVisible b = true := by
  unfold HeaderValue.toStr
  by_cases h : v.bytes.all isVisible = true
  · rw [if_pos h, Option.some.injEq]
    rw [List.all_eq_true] at h
    exact ⟨fun he => ⟨he.symm, h⟩, fun he => he.1.symm⟩
  · rw [if_neg h]
    rw [List.all_eq_true] at h
    constructor
    · intro he
      cases he
    · exact fun he => absurd he.2 h

theorem checkHeaderToken_iff (request : HttpRequest) (name : HeaderName) (expected : Bytes) :
    checkHeaderToken request name expected = true ↔ HasToken request name expected := by
  unfold checkHeaderToken HttpRequest.getAll HasToken
  rw [List.any_eq_true]
  constructor
  · rintro ⟨v, hv, hcheck⟩
    obtain ⟨⟨name', v'⟩, hp, rfl⟩ := List.mem_map.mp hv
    rw [List.mem_filter, decide_eq_true_eq] at hp
    obtain ⟨hmem, rfl⟩ := hp
    split at hcheck
    · rename_i text htext
      obtain ⟨rfl, hvisible⟩ := toStr_eq_some.mp htext
      obtain ⟨token, ht, he⟩ := List.any_eq_true.mp hcheck
      exact ⟨v', hmem, hvisible, token, ht, of_decide_eq_true he⟩
    · cases hcheck
  · rintro ⟨v, hmem, hvisible, token, ht, he⟩
    refine ⟨v, List.mem_map.mpr ⟨(name, v), List.mem_filter.mpr ⟨hmem, ?_⟩, rfl⟩, ?_⟩
    · exact decide_eq_true rfl
    · rw [toStr_eq_some.mpr ⟨rfl, hvisible⟩]
      exact List.any_eq_true.mpr ⟨token, ht, decide_eq_true he⟩

/-! ## The answer -/

/-- What the end of the checks says about the requirements. -/
def Dispatch.Sound (s : Runtime) (request : HttpRequest) : Dispatch → Prop
  | .respond status => Answers (requirements s request) status ∧ status ≠ .switchingProtocols
  | .upgrade n _ => Answers (requirements s request) .switchingProtocols ∧ Resolves s request n

theorem checkHeaderValue_eq_false {request : HttpRequest} {name : HeaderName} {expected : Bytes}
    (h : ¬ HasValue request name expected) : checkHeaderValue request name expected = false := by
  rw [Bool.eq_false_iff]
  exact fun hc => h ((checkHeaderValue_iff _ _ _).mp hc)

theorem checkHeaderToken_eq_false {request : HttpRequest} {name : HeaderName} {expected : Bytes}
    (h : ¬ HasToken request name expected) : checkHeaderToken request name expected = false := by
  rw [Bool.eq_false_iff]
  exact fun hc => h ((checkHeaderToken_iff _ _ _).mp hc)

theorem websocketKey_eq_some {request : HttpRequest} {key : Bytes} :
    (request.get .secWebsocketKey).bind HeaderValue.toStr = some key ↔
      ∃ v, request.headers.lookup .secWebsocketKey = some v ∧ key = v.bytes ∧
        ∀ b ∈ v.bytes, isVisible b = true := by
  simp only [HttpRequest.get, Option.bind_eq_some_iff, toStr_eq_some]

theorem checkRequest_sound (s : Runtime) (request : HttpRequest) :
    (checkRequest s request).Sound s request := by
  rw [checkRequest]
  by_cases hmethod : request.method = "GET"
  swap
  · rw [if_pos hmethod]
    exact ⟨.fails hmethod, by decide⟩
  rw [if_neg (not_not.mpr hmethod)]
  by_cases hupgrade : HasValue request .upgrade websocket
  swap
  · rw [checkHeaderValue_eq_false hupgrade, Bool.not_false, Bool.true_or, Bool.true_or, if_pos rfl]
    exact ⟨.next hmethod (.fails hupgrade), by decide⟩
  rw [(checkHeaderValue_iff _ _ _).mpr hupgrade, Bool.not_true, Bool.false_or]
  by_cases hconnection : HasToken request .connection upgradeToken
  swap
  · rw [checkHeaderToken_eq_false hconnection, Bool.not_false, Bool.true_or, if_pos rfl]
    exact ⟨.next hmethod (.next hupgrade (.fails hconnection)), by decide⟩
  rw [(checkHeaderToken_iff _ _ _).mpr hconnection, Bool.not_true, Bool.false_or]
  by_cases hversion : HasValue request .secWebsocketVersion version13
  swap
  · rw [checkHeaderValue_eq_false hversion, Bool.not_false, if_pos rfl]
    exact ⟨.next hmethod (.next hupgrade (.next hconnection (.fails hversion))), by decide⟩
  rw [(checkHeaderValue_iff _ _ _).mpr hversion, if_neg (by decide)]
  -- the requirements that are met so far, in front of the others
  have hmet : ∀ {l : List (Prop × StatusCode)} {status : StatusCode}, Answers l status →
      Answers ((request.method = "GET", .methodNotAllowed) ::
        (HasValue request .upgrade websocket, .badRequest) ::
        (HasToken request .connection upgradeToken, .badRequest) ::
        (HasValue request .secWebsocketVersion version13, .badRequest) :: l) status :=
    fun h => .next hmethod (.next hupgrade (.next hconnection (.next hversion h)))
  split
  · rename_i hkey
    refine ⟨hmet (.fails ?_), by decide⟩
    rintro ⟨v, hv, hvisible⟩
    rw [websocketKey_eq_some.mpr ⟨v, hv, rfl, hvisible⟩] at hkey
    cases hkey
  · rename_i key hkey
    obtain ⟨v, hv, -, hvisible⟩ := websocketKey_eq_some.mp hkey
    split
    · rename_i hpath
      refine ⟨hmet (.next ⟨v, hv, hvisible⟩ (.fails ?_)), by decide⟩
      rintro ⟨path, hp⟩
      rw [hpath] at hp
      cases hp
    · rename_i path hpath
      split
      · rename_i hnamespace
        refine ⟨hmet (.next ⟨v, hv, hvisible⟩ (.next ⟨path, hpath⟩ (.fails ?_))), by decide⟩
        rintro ⟨n, path', hp, hn⟩
        rw [hpath, Option.some.injEq] at hp
        rw [getNamespace, hp, hn] at hnamespace
        cases hnamespace
      · rename_i n hnamespace
        have hresolves : Resolves s request n := ⟨path, hpath, hnamespace⟩
        have hrest : ∀ {l : List (Prop × StatusCode)} {status : StatusCode}, Answers l status →
            Answers ((requirements s request).take 7 ++ l) status :=
          fun h => hmet (.next ⟨v, hv, hvisible⟩ (.next ⟨path, hpath⟩ (.next ⟨n, hresolves⟩ h)))
        split
        · rename_i hon
          exact ⟨hrest (.next hon .met), hresolves⟩
        · rename_i hon
          exact ⟨hrest (.fails hon), by decide⟩

/-- One task is spawned into the task set of namespace `n`, and nothing else happens to the
namespaces. -/
structure SpawnsTask (s s' : Runtime) (n i : Nat) : Prop where
  spawned : s'.namespaces n =
    { s.namespaces n with taskSet := insert i (s.namespaces n).taskSet }
  added : (s'.namespaces n).taskSet.card = (s.namespaces n).taskSet.card + 1
  others : ∀ n', n' ≠ n → s'.namespaces n' = s.namespaces n'

theorem handleOnUpgradeRequest_spawns {cfg : ServerConfig} {s s' : Runtime} {n i : Nat}
    (hnew : i ∉ (s.namespaces n).taskSet) (h : handleOnUpgradeRequest cfg s n i = some s') :
    SpawnsTask s s' n i := by
  unfold handleOnUpgradeRequest at h
  split at h
  · cases h
  · cases h
    have hself : (Function.update s.namespaces n
        { s.namespaces n with taskSet := insert i (s.namespaces n).taskSet }) n =
        { s.namespaces n with taskSet := insert i (s.namespaces n).taskSet } :=
      Function.update_self ..
    refine ⟨hself, ?_, fun n' hn => Function.update_of_ne hn ..⟩
    change ((Function.update s.namespaces n _) n).taskSet.card = _
    rw [hself]
    exact Finset.card_insert_of_notMem hnew

def isBase64 (b : UInt8) : Bool :=
  0x41 ≤ b && b ≤ 0x5A || 0x61 ≤ b && b ≤ 0x7A || 0x30 ≤ b && b ≤ 0x39 || b = 0x2B || b = 0x2F ||
    b = 0x3D

theorem isHeaderByte_of_isBase64 {b : UInt8} (h : isBase64 b = true) : isHeaderByte b = true := by
  revert h b
  apply forall_uint8
  decide +kernel

theorem requirements_codes (s : Runtime) (request : HttpRequest) :
    ∀ p ∈ requirements s request, p.2 ≠ .switchingProtocols := by
  intro p hp
  simp only [requirements, List.mem_cons, List.not_mem_nil, or_false] at hp
  rcases hp with rfl | rfl | rfl | rfl | rfl | rfl | rfl | rfl <;> exact nofun

/-- **The answer to an upgrade request.** It is that of the first requirement that the request
fails, in the order of the checks, and 101 when it meets all of them; then one task is spawned
into the namespace that the query names, and otherwise nothing is touched. The call waits only
for the lock of that namespace's task set. -/
theorem dispatch_request_status {deriveAcceptKey : Bytes → Bytes} {cfg : ServerConfig}
    {s₀ s : Runtime} {i : Nat} {request : HttpRequest}
    (hbase64 : ∀ key, ∀ b ∈ deriveAcceptKey key, isBase64 b = true)
    (hnew : ∀ n, i ∉ (s.namespaces n).taskSet) :
    (dispatchRequest deriveAcceptKey cfg s₀ s i request = none →
      ∃ n, Resolves s₀ request n ∧ (s.namespaces n).taskSetLocked = true) ∧
    ∀ s' r, dispatchRequest deriveAcceptKey cfg s₀ s i request = some (s', r) →
      Answers (requirements s₀ request) r.status ∧
      (r.status = .switchingProtocols ↔ ∀ p ∈ requirements s₀ request, p.1) ∧
      (r.status = .switchingProtocols → ∃ n, Resolves s₀ request n ∧ SpawnsTask s s' n i) ∧
      (r.status ≠ .switchingProtocols → s' = s) := by
  have hsound := checkRequest_sound s₀ request
  unfold dispatchRequest
  cases hd : checkRequest s₀ request with
  | respond status =>
    rw [hd] at hsound
    obtain ⟨hanswers, hne⟩ := hsound
    refine ⟨nofun, fun s' r h => ?_⟩
    cases h
    exact ⟨hanswers, hanswers.all_met (requirements_codes s₀ request),
      fun he => absurd he hne, fun _ => rfl⟩
  | upgrade n key =>
    rw [hd] at hsound
    obtain ⟨hanswers, hresolves⟩ := hsound
    obtain ⟨accept, haccept⟩ : ∃ accept, HeaderValue.fromStr (deriveAcceptKey key) = some accept := by
      refine ⟨_, dif_pos (List.all_eq_true.mpr fun b hb => ?_)⟩
      exact isHeaderByte_of_isBase64 (hbase64 key b hb)
    simp only [haccept, Option.map_eq_none_iff, Option.map_eq_some_iff]
    constructor
    · intro h
      refine ⟨n, hresolves, ?_⟩
      unfold handleOnUpgradeRequest at h
      split at h
      · assumption
      · cases h
    · rintro s' r ⟨s₁, hs₁, he⟩
      cases he
      exact ⟨hanswers, hanswers.all_met (requirements_codes s₀ request),
        fun _ => ⟨n, hresolves, handleOnUpgradeRequest_spawns (hnew n) hs₁⟩,
        fun hne => absurd rfl hne⟩

/-- The call is two steps of the server: the namespace is resolved in one state, and the task
is spawned in a later one. -/
theorem dispatch_request_steps {cfg : ServerConfig} {s₀ s : Runtime} {n i : Nat}
    {request : HttpRequest} (hn : Resolves s₀ request n) (hnew : s₀.conns i = none)
    (hwaits : s.conns i = some ⟨n, .initial (cfg.config n)⟩) :
    (∃ path, Runtime.step cfg s₀ (.resolve i path) =
      some (s₀.setConn i ⟨n, .initial (cfg.config n)⟩)) ∧
    Runtime.step cfg s (.conn i (.main .go)) = handleOnUpgradeRequest cfg s n i := by
  obtain ⟨path, -, hlookup⟩ := hn
  constructor
  · refine ⟨String.ofList path, ?_⟩
    simp only [Runtime.step, hnew, hlookup]
  · have hpermits : Runtime.permits s ⟨n, .initial (cfg.config n)⟩ (.main .go) =
        !(s.namespaces n).taskSetLocked := rfl
    simp only [Runtime.step, hwaits, hpermits, handleOnUpgradeRequest]
    by_cases hl : (s.namespaces n).taskSetLocked = true
    · rw [if_pos hl, hl]
      rfl
    · rw [if_neg hl, if_pos (by simpa using hl)]
      simp only [Runtime.connStep, hwaits]
      rfl

/-! ## Two requests -/

/-- A runtime with one namespace, at `/`. -/
def oneNamespace : Runtime := { Runtime.initial with paths := [("/", 0)] }

/-- The accept key of the sample key. -/
def sampleAcceptKey (_ : Bytes) : Bytes := utf8 "s3pPLMBiTxaQ9kYGzzhZRbK+xOo=".toList

theorem sampleAcceptKey_base64 : ∀ b ∈ sampleAcceptKey [], isBase64 b = true := by decide +kernel

/-- A request with the sample key and the given `Connection` header. -/
def upgradeRequest (connection : HeaderValue) : HttpRequest where
  method := "GET"
  headers := [(.upgrade, headerWebsocket), (.connection, connection),
    (.secWebsocketVersion, ⟨version13, by decide +kernel⟩),
    (.secWebsocketKey, ⟨utf8 "dGhlIHNhbXBsZSBub25jZQ==".toList, by decide +kernel⟩)]
  query := some (utf8 "namespace=%2F".toList)
  onUpgrade := true

theorem dispatch_request_status_sample : ∃ s' r,
    dispatchRequest sampleAcceptKey (.postcard false) oneNamespace oneNamespace 7
      (upgradeRequest headerUpgrade) = some (s', r) ∧
    r.status.code = 101 ∧ (∀ p ∈ requirements oneNamespace (upgradeRequest headerUpgrade), p.1) ∧
    ∃ n, Resolves oneNamespace (upgradeRequest headerUpgrade) n ∧ SpawnsTask oneNamespace s' n 7 := by
  have hstatus := @dispatch_request_status sampleAcceptKey (.postcard false) oneNamespace
    oneNamespace 7 (upgradeRequest headerUpgrade) (fun _ => sampleAcceptKey_base64)
    (fun _ => Finset.notMem_empty 7)
  have hanswer : (dispatchRequest sampleAcceptKey (.postcard false) oneNamespace oneNamespace 7
      (upgradeRequest headerUpgrade)).map (fun p => p.2.status) = some .switchingProtocols := by
    decide +kernel
  obtain ⟨⟨s', r⟩, hdispatch, hr⟩ := Option.map_eq_some_iff.mp hanswer
  obtain ⟨-, hiff, hspawns, -⟩ := hstatus.2 s' r hdispatch
  change r.status = .switchingProtocols at hr
  refine ⟨s', r, hdispatch, ?_, hiff.mp hr, hspawns hr⟩
  rw [hr]
  rfl

/-- `upgrade` and a comma before a byte that is not ASCII: the token is there, but `to_str`
refuses the value. -/
def opaqueConnection : HeaderValue := ⟨upgradeToken ++ [comma, 0xFF], by decide +kernel⟩

/-- A `Connection` value with the token is not enough when it is not visible text. -/
theorem connection_token_not_enough :
    ¬ ∀ (s₀ s : Runtime) (i : Nat) (request : HttpRequest) (s' : Runtime) (r : Response),
      dispatchRequest sampleAcceptKey (.postcard false) s₀ s i request = some (s', r) →
      (r.status = .switchingProtocols ↔
        request.method = "GET" ∧ HasValue request .upgrade websocket ∧
        HasValue request .secWebsocketVersion version13 ∧
        (∃ v, (.connection, v) ∈ request.headers ∧ ∃ token ∈ v.bytes.splitOn comma,
          (trim token).map toAsciiLower = upgradeToken.map toAsciiLower) ∧
        (∃ v, request.headers.lookup .secWebsocketKey = some v ∧ ∀ b ∈ v.bytes, isVisible b = true) ∧
        (∃ n, Resolves s₀ request n) ∧ request.onUpgrade = true) := by
  intro h
  have hanswer : (dispatchRequest sampleAcceptKey (.postcard false) oneNamespace oneNamespace 7
      (upgradeRequest opaqueConnection)).map (fun p => p.2.status) = some .badRequest := by
    decide +kernel
  obtain ⟨⟨s', r⟩, hdispatch, hr⟩ := Option.map_eq_some_iff.mp hanswer
  have hstatus := (h _ _ _ _ _ _ hdispatch).mpr ⟨rfl, ⟨_, rfl, rfl⟩, ⟨_, rfl, rfl⟩,
    ⟨opaqueConnection, by decide, upgradeToken, by decide +kernel, by decide +kernel⟩,
    ⟨_, rfl, by decide +kernel⟩, ⟨0, "/".toList, by decide +kernel, by decide +kernel⟩, rfl⟩
  change r.status = .badRequest at hr
  rw [hr] at hstatus
  cases hstatus

end WsIo.Server
