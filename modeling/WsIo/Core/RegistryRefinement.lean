import WsIo.Core.Registrations
import WsIo.Core.RegistryLocks

/-!
# Sections under a lock are atomic

Every state that the calls of a registry reach lock by lock is the state of an
`EventRegistry`, whose steps are whole sections. A call of the lock level takes its step of
the section level where it changes or reads what others see: `on` where it inserts the
handler, `off_by_handler_id` where it removes the handler, where it looks whether the entry
is empty, and where it removes the entry, a dispatch where it finds the entry, its task
where it reads the handlers.

Between the lookup of `on` and its insertion the map of the lock level is ahead by an empty
entry and an id (`RegistryPc.ahead`). Nobody sees that: `on` has the write lock.
-/

namespace WsIo.Core

open Async

variable {κ : Type} {D : DataTypes κ}

/-! ## The map ahead of its sections -/

/-- The map with the entry that `on` needs. -/
def EventMap.ready (m : EventMap D) (event : String) (t : D.TypeId) : EventMap D :=
  match m.eventEntries.lookup event with
  | some _ => m
  | none => m.insertEntry event t

namespace RegistryPc

/-- Between the lookup of `on` and its insertion. -/
def installs : RegistryPc D → Bool
  | .onFetchAdd .. | .onWriteHandlers .. | .onInsert .. => true
  | _ => false

/-- What a call has done to the map before its section counts. -/
def ahead : RegistryPc D → EventMap D → EventMap D
  | .onFetchAdd event _ t, m => m.ready event t
  | .onWriteHandlers event _ t _, m | .onInsert event _ t _, m => (m.ready event t).fetchAdd
  | _, m => m

/-- Between the first access of `off_by_handler_id` and its second. -/
def checking : RegistryPc D → Bool
  | .idRemoved .. | .idReadHandlers .. | .idIsEmpty .. => true
  | _ => false

/-- In an `off_by_handler_id` that may still remove something. -/
def removes : RegistryPc D → Bool
  | .idRead .. | .idGet .. | .idWriteHandlers .. | .idRemove .. | .idRemoved ..
  | .idReadHandlers .. | .idIsEmpty .. | .idWrite .. | .idEntry .. | .idEntryRead ..
  | .idEntryIsEmpty .. | .idEntryRemove .. => true
  | .idChecked _ _ again | .idDrop _ again => again
  | .idEntryChecked _ _ isEmpty => isEmpty
  | _ => false

def isReturned : RegistryPc D → Bool
  | .returned _ => true
  | _ => false

variable {m : EventMap D} {pc : RegistryPc D}

theorem isReturned_iff : pc.isReturned = true ↔ ∃ result, pc = .returned result := by
  cases pc <;> simp [isReturned]

theorem ahead_of_not_installs (h : pc.installs = false) : pc.ahead m = m := by
  cases pc with
  | onFetchAdd | onWriteHandlers | onInsert => cases h
  | _ => rfl

theorem mapHold_of_installs (h : pc.installs = true) : pc.mapHold = .write := by
  cases pc with
  | onFetchAdd | onWriteHandlers | onInsert => rfl
  | _ => cases h

theorem mapHold_of_checking (h : pc.checking = true) : pc.mapHold = .read := by
  cases pc with
  | idRemoved | idReadHandlers | idIsEmpty => rfl
  | _ => cases h

theorem ahead_after : pc.after.ahead m = pc.ahead m := by
  cases pc with
  | idDrop event again => cases again <;> rfl
  | idEntryChecked event e isEmpty => cases isEmpty <;> rfl
  | dispatchDrop event codec data entry => cases entry <;> rfl
  | _ => rfl

theorem installs_after : pc.after.installs = pc.installs := by
  cases pc with
  | idDrop event again => cases again <;> rfl
  | idEntryChecked event e isEmpty => cases isEmpty <;> rfl
  | dispatchDrop event codec data entry => cases entry <;> rfl
  | _ => rfl

theorem checking_after : pc.after.checking = pc.checking := by
  cases pc with
  | idDrop event again => cases again <;> rfl
  | idEntryChecked event e isEmpty => cases isEmpty <;> rfl
  | dispatchDrop event codec data entry => cases entry <;> rfl
  | _ => rfl

theorem removes_after : pc.after.removes = pc.removes := by
  cases pc with
  | idDrop event again => cases again <;> rfl
  | idEntryChecked event e isEmpty => cases isEmpty <;> rfl
  | dispatchDrop event codec data entry => cases entry <;> rfl
  | _ => rfl

end RegistryPc

section Ready

variable (m : EventMap D) (event : String) (t : D.TypeId)

theorem ready_log : (m.ready event t).log = m.log := by
  rw [EventMap.ready]
  split <;> rfl

theorem ready_nextHandlerId : (m.ready event t).nextHandlerId = m.nextHandlerId := by
  rw [EventMap.ready]
  split <;> rfl

theorem ready_note (ev : RegistryEvent D) :
    (m.note ev).ready event t = (m.ready event t).note ev := by
  rw [EventMap.ready, EventMap.ready]
  change (match m.eventEntries.lookup event with | some _ => _ | none => _) = _
  cases m.eventEntries.lookup event <;> rfl

theorem ready_entries {e : Nat} (he : e < m.allocated) :
    (m.ready event t).entries e = m.entries e := by
  rw [EventMap.ready]
  split
  · rfl
  · rw [EventMap.entries_insertEntry, if_neg (Nat.ne_of_lt he)]

end Ready

namespace RegistryPc

variable {m : EventMap D} (pc : RegistryPc D)

theorem ahead_log : (pc.ahead m).log = m.log := by
  cases pc with
  | onFetchAdd event e t => exact ready_log m event t
  | onWriteHandlers event e t serial | onInsert event e t serial => exact ready_log m event t
  | _ => rfl

theorem ahead_note (ev : RegistryEvent D) : pc.ahead (m.note ev) = (pc.ahead m).note ev := by
  cases pc with
  | onFetchAdd event e t => exact ready_note m event t ev
  | onWriteHandlers event e t serial | onInsert event e t serial =>
    exact congrArg EventMap.fetchAdd (ready_note m event t ev)
  | _ => rfl

theorem ahead_entries {e : Nat} (he : e < m.allocated) : (pc.ahead m).entries e = m.entries e := by
  cases pc with
  | onFetchAdd event e t => exact ready_entries m event t he
  | onWriteHandlers event e t serial | onInsert event e t serial =>
    exact ready_entries m event t he
  | _ => rfl

end RegistryPc

/-! ## What every section keeps -/

namespace EventMap

def Mapped (m : EventMap D) : Prop :=
  ∀ event e, m.eventEntries.lookup event = some e → e < m.allocated

/-- Entries and history only grow, and an entry keeps its decoder. -/
structure Grows (m m' : EventMap D) : Prop where
  log : m.log ⊆ m'.log
  allocated : m.allocated ≤ m'.allocated
  decoder : ∀ e < m.allocated, (m'.entries e).dataDecoder = (m.entries e).dataDecoder
  mapped : m.Mapped → m'.Mapped

variable {m : EventMap D}

theorem Grows.refl (m : EventMap D) : Grows m m :=
  ⟨List.Subset.refl _, Nat.le_refl _, fun _ _ => rfl, id⟩

theorem Grows.note (m : EventMap D) (ev : RegistryEvent D) : Grows m (m.note ev) :=
  ⟨List.subset_cons_self _ _, Nat.le_refl _, fun _ _ => rfl, id⟩

theorem Grows.insertHandler (m : EventMap D) (event : String) (e : Nat) (t : D.TypeId) :
    Grows m (m.insertHandler event e t) :=
  ⟨List.subset_cons_self _ _, Nat.le_refl _, fun e' _ => (insertHandler_entry event e e' t).1, id⟩

theorem Grows.insertEntry (m : EventMap D) (event : String) (t : D.TypeId) :
    Grows m (m.insertEntry event t) where
  log := List.Subset.refl _
  allocated := Nat.le_succ _
  decoder e he := by
    rw [entries_insertEntry, if_neg (Nat.ne_of_lt he)]
  mapped h event' e he := by
    rw [lookup_insertEntry] at he
    split at he
    · cases he
      exact Nat.lt_succ_self _
    · exact (h event' e he).trans (Nat.lt_succ_self _)

theorem Grows.trans {m₁ m₂ m₃ : EventMap D} (h : Grows m₁ m₂) (h' : Grows m₂ m₃) :
    Grows m₁ m₃ where
  log := List.Subset.trans h.log h'.log
  allocated := h.allocated.trans h'.allocated
  decoder e he := (h'.decoder e (he.trans_le h.allocated)).trans (h.decoder e he)
  mapped := h'.mapped ∘ h.mapped

theorem Grows.on (m : EventMap D) (event : String) (t : D.TypeId) : Grows m (m.on event t) := by
  rw [EventMap.on]
  split
  · split
    · exact .note m _
    · exact .insertHandler m event _ t
  · exact (Grows.insertEntry m event t).trans (.insertHandler _ event m.allocated t)

theorem Grows.unmap {m' : EventMap D} (event : String)
    (heq : m'.eventEntries = m.eventEntries.filter (·.1 ≠ event)) (hlog : m.log ⊆ m'.log)
    (halloc : m'.allocated = m.allocated) (hentries : m'.entries = m.entries) : Grows m m' where
  log := hlog
  allocated := halloc.ge
  decoder e _ := by rw [hentries]
  mapped h event' e he := by
    rw [heq] at he
    rw [halloc]
    exact h event' e (lookup_unmap he).2

theorem Grows.off (m : EventMap D) (event : String) : Grows m (m.off event) :=
  .unmap event rfl (List.subset_cons_self _ _) rfl rfl

theorem Grows.removeHandler (m : EventMap D) (event : String) (id : Nat) :
    Grows m (m.removeHandler event id) := by
  obtain ⟨hmap, halloc, -, hlog, hentry⟩ := removeHandler_frame (m := m) event id
  refine ⟨?_, halloc.ge, fun e _ => (hentry e).1, fun h event' e he => ?_⟩
  · rw [hlog]
    exact List.subset_cons_self _ _
  · rw [hmap] at he
    rw [halloc]
    exact h event' e he

theorem Grows.removeEntry (m : EventMap D) (event : String) : Grows m (m.removeEntry event) := by
  rw [EventMap.removeEntry]
  split
  · split
    · exact .unmap event rfl (List.Subset.refl _) rfl rfl
    · exact .refl m
  · exact .refl m

end EventMap

/-! ## The relation between the levels -/

/-- The entry that `on` works on: the one of the event, or the one it makes. -/
def Opens (m : EventMap D) (event : String) (e : Nat) (t : D.TypeId) : Prop :=
  m.eventEntries.lookup event = some e ∧ (m.entries e).dataTypeId = t ∨
    m.eventEntries.lookup event = none ∧ e = m.allocated

/-- The id of a registration in the history. -/
def Issued (m : EventMap D) (id : Nat) : Prop :=
  ∃ serial event t, .registered serial event t ∈ m.log ∧ id = serial % 2 ^ 32

theorem decode_congr {entry entry' : EventEntry D} (h : entry'.dataDecoder = entry.dataDecoder)
    (codec : κ) (data : Option Bytes) : entry.decode codec data = entry'.decode codec data := by
  cases data with
  | none => rfl
  | some bytes => exact congrFun (congrFun h.symm codec) bytes

/-- The task of dispatch `k` has captured entry `e`. -/
def Pending (a : EventRegistry D) (k : Nat) (event : String) (e : Nat) (codec : κ)
    (data : Option Bytes) : Prop :=
  a.tasks k = .pending event e codec data ∧ e < a.allocated

/-- What the point a call is at says about the registry of the section level. -/
def Agrees (a : EventRegistry D) (k : Nat) : RegistryPc D → Prop
  | .onFetchAdd event e t => Opens a.toEventMap event e t
  | .onWriteHandlers event e t serial | .onInsert event e t serial =>
    Opens a.toEventMap event e t ∧ serial = a.nextHandlerId
  | .onInserted event _ t serial => .registered serial event t ∈ a.log
  | .idRead .. | .idGet .. => a.calls k = .idle
  | .idWriteHandlers event _ e | .idRemove event _ e =>
    a.calls k = .idle ∧ a.eventEntries.lookup event = some e
  | .idRemoved event e | .idReadHandlers event e | .idIsEmpty event e =>
    a.calls k = .checking event e
  | .idChecked event _ again | .idDrop event again =>
    a.calls k = if again then .removing event else .done
  | .idWrite event | .idEntry event => a.calls k = .removing event
  | .idEntryRead event e | .idEntryIsEmpty event e =>
    a.calls k = .removing event ∧ a.eventEntries.lookup event = some e
  | .idEntryChecked event e isEmpty => isEmpty = true → a.calls k = .removing event ∧
    a.eventEntries.lookup event = some e ∧ (a.entries e).handlers.isEmpty
  | .idEntryRemove event e => a.calls k = .removing event ∧
    a.eventEntries.lookup event = some e ∧ (a.entries e).handlers.isEmpty
  | .dispatchRead .. | .dispatchGet .. => a.tasks k = .idle
  | .dispatchDrop event codec data entry => ∀ e, entry = some e → Pending a k event e codec data
  | .taskDecode event e codec data => Pending a k event e codec data
  | .taskRead e data | .taskCollect e data => ∃ event codec bytes,
    Pending a k event e codec bytes ∧ (a.entries e).decode codec bytes = some data
  | .unlock (some id) | .returned (some id) => Issued a.toEventMap id
  | _ => True

/-- The lock level refines the section level: the map is the one of the section level, but
for what an `on` in progress has done to it. -/
structure Refines (s : LockState RegistryLock (EventMap D) (RegistryPc D))
    (a : EventRegistry D) : Prop where
  mem : ∃ q : RegistryPc D, s.mem = q.ahead a.toEventMap ∧
    (q.installs = true → ∃ (t : Nat) (th : Thread (RegistryPc D)),
      s.threads[t]? = some th ∧ th.pc = q) ∧
    ∀ (t : Nat) (th : Thread (RegistryPc D)), s.threads[t]? = some th →
      th.pc.installs = true → th.pc = q
  agrees : ∀ (t : Nat) (th : Thread (RegistryPc D)), s.threads[t]? = some th → Agrees a t th.pc
  readers : ∀ t : Nat, t ∈ a.readers ↔
    ∃ th : Thread (RegistryPc D), s.threads[t]? = some th ∧ th.pc.checking = true
  past : ∀ (t : Nat) (th : Thread (RegistryPc D)), s.threads[t]? = some th →
    th.pc.removes = false → (a.calls t).inProgress = false
  idle : ∀ t, s.threads.length ≤ t → a.calls t = .idle ∧ a.tasks t = .idle
  mapped : a.Mapped

/-! ## What a section leaves to the other calls -/

/-- The step of call `k`, which has the lock of the map as `hold`, from `a` to `a'`. -/
structure Leaves (a a' : EventRegistry D) (k : Nat) (hold : Hold) : Prop where
  calls : ∀ j ≠ k, a'.calls j = a.calls j
  tasks : ∀ j ≠ k, a'.tasks j = a.tasks j
  grows : a.toEventMap.Grows a'.toEventMap
  map : hold ≠ .write → a'.eventEntries = a.eventEntries
  rest : hold = .free → a'.entries = a.entries ∧ a'.allocated = a.allocated ∧
    a'.nextHandlerId = a.nextHandlerId

theorem Leaves.pending {a a' : EventRegistry D} {k j : Nat} {hold : Hold}
    (h : Leaves a a' k hold) (hj : j ≠ k) {event : String} {e : Nat} {codec : κ}
    {data : Option Bytes} (hp : Pending a j event e codec data) :
    Pending a' j event e codec data :=
  ⟨(h.tasks j hj).trans hp.1, hp.2.trans_le h.grows.allocated⟩

theorem Leaves.issued {a a' : EventRegistry D} {k : Nat} {hold : Hold} (h : Leaves a a' k hold)
    {id : Nat} (hi : Issued a.toEventMap id) : Issued a'.toEventMap id := by
  obtain ⟨serial, event, t, hmem, hid⟩ := hi
  exact ⟨serial, event, t, h.grows.log hmem, hid⟩

theorem Leaves.opens {a a' : EventRegistry D} {k : Nat} (h : Leaves a a' k .free)
    {event : String} {e : Nat} {t : D.TypeId} (ho : Opens a.toEventMap event e t) :
    Opens a'.toEventMap event e t := by
  obtain ⟨hentries, halloc, -⟩ := h.rest rfl
  rw [Opens, h.map (by simp), hentries, halloc]
  exact ho

/-- A call that may go on beside `k` agrees with the registry after the step of `k`. -/
theorem Leaves.agrees {a a' : EventRegistry D} {k j : Nat} {hold : Hold}
    (h : Leaves a a' k hold) (hj : j ≠ k) {pc : RegistryPc D}
    (hwrite : pc.mapHold = .write → hold = .free) (hread : pc.mapHold = .read → hold ≠ .write)
    (hp : Agrees a j pc) : Agrees a' j pc := by
  cases pc with
  | onFetchAdd event e t =>
    cases hwrite rfl
    exact h.opens hp
  | onWriteHandlers event e t serial | onInsert event e t serial =>
    cases hwrite rfl
    exact ⟨h.opens hp.1, hp.2.trans (h.rest rfl).2.2.symm⟩
  | onInserted event e t serial => exact h.grows.log hp
  | idRead event id => exact (h.calls j hj).trans hp
  | idGet event id => exact (h.calls j hj).trans hp
  | idWriteHandlers event id e | idRemove event id e =>
    exact ⟨(h.calls j hj).trans hp.1, (h.map (hread rfl)).symm ▸ hp.2⟩
  | idRemoved event e | idReadHandlers event e | idIsEmpty event e =>
    exact (h.calls j hj).trans hp
  | idChecked event e again => exact (h.calls j hj).trans hp
  | idDrop event again => exact (h.calls j hj).trans hp
  | idWrite event | idEntry event => exact (h.calls j hj).trans hp
  | idEntryRead event e | idEntryIsEmpty event e =>
    cases hwrite rfl
    exact ⟨(h.calls j hj).trans hp.1, (h.map (by simp)).symm ▸ hp.2⟩
  | idEntryChecked event e isEmpty =>
    cases hwrite rfl
    intro he
    obtain ⟨hcalls, hlookup, hempty⟩ := hp he
    exact ⟨(h.calls j hj).trans hcalls, (h.map (by simp)).symm ▸ hlookup,
      (h.rest rfl).1.symm ▸ hempty⟩
  | idEntryRemove event e =>
    cases hwrite rfl
    obtain ⟨hcalls, hlookup, hempty⟩ := hp
    exact ⟨(h.calls j hj).trans hcalls, (h.map (by simp)).symm ▸ hlookup,
      (h.rest rfl).1.symm ▸ hempty⟩
  | dispatchRead | dispatchGet => exact (h.tasks j hj).trans hp
  | dispatchDrop event codec data entry =>
    intro e he
    exact h.pending hj (hp e he)
  | taskDecode event e codec data => exact h.pending hj hp
  | taskRead e data | taskCollect e data =>
    obtain ⟨event, codec, bytes, hpending, hdata⟩ := hp
    refine ⟨event, codec, bytes, h.pending hj hpending, ?_⟩
    exact decode_congr (h.grows.decoder e hpending.2) codec bytes ▸ hdata
  | unlock result | returned result =>
    cases result with
    | none => trivial
    | some id => exact h.issued hp
  | onWrite | onEntry | offWrite | offRemove | taskCollected => trivial

/-! ## The steps of the section level -/

/-- What the section level does when call `k` computes: nothing or one of its steps, after
which the call agrees with it at its new point. -/
structure Follows (a : EventRegistry D) (k : Nat) (hold : Hold) (pc' : RegistryPc D)
    (a' : EventRegistry D) : Prop where
  step : a' = a ∨ ∃ act, EventRegistry.step a act = some a'
  agrees : Agrees a' k pc'
  leaves : Leaves a a' k hold
  readers : ∀ j, j ∈ a'.readers ↔ if j = k then pc'.checking = true else j ∈ a.readers
  past : pc'.removes = false → (a'.calls k).inProgress = false

variable {a : EventRegistry D} {k : Nat} {hold : Hold} {pc' : RegistryPc D}

theorem Follows.stay (hp : Agrees a k pc') (hk : k ∈ a.readers ↔ pc'.checking = true)
    (ho : pc'.removes = false → (a.calls k).inProgress = false) : Follows a k hold pc' a where
  step := .inl rfl
  agrees := hp
  leaves := ⟨fun _ _ => rfl, fun _ _ => rfl, .refl _, fun _ => rfl, fun _ => ⟨rfl, rfl, rfl⟩⟩
  readers j := by
    split
    · next h => rw [h, hk]
    · rfl
  past := ho

/-- A section of a call that has the write lock of the map. -/
theorem Follows.section (act : EventAction D) {m' : EventMap D} {calls : Nat → OffCall}
    (hs : EventRegistry.step a act = some { a with toEventMap := m', calls := calls })
    (hgrows : a.toEventMap.Grows m') (hcalls : ∀ j ≠ k, calls j = a.calls j)
    (hp : Agrees { a with toEventMap := m', calls := calls } k pc') (hc : pc'.checking = false)
    (ho : pc'.removes = false → (calls k).inProgress = false) (hr : a.readers = ∅) :
    Follows a k .write pc' { a with toEventMap := m', calls := calls } where
  step := .inr ⟨act, hs⟩
  agrees := hp
  leaves := ⟨hcalls, fun _ _ => rfl, hgrows, fun h => absurd rfl h, fun h => by cases h⟩
  readers j := by
    rw [hr, hc]
    simp
  past := ho

/-- The section level follows a step on the memory `m` at `pc`. -/
def Followed (a : EventRegistry D) (k : Nat) (m : EventMap D) (pc : RegistryPc D) : Prop :=
  ∃ a', Follows a k pc.mapHold (pc.compute k m).2 a' ∧
    (pc.compute k m).1 = (pc.compute k m).2.ahead a'.toEventMap

theorem followed_onEntry {event : String} {t : D.TypeId} (hr : a.readers = ∅)
    (ho : (a.calls k).inProgress = false) :
    Followed a k a.toEventMap (.onEntry event t) := by
  rw [Followed]
  cases he : a.eventEntries.lookup event with
  | none =>
    simp only [RegistryPc.compute, he]
    refine ⟨a, .stay (.inr ⟨he, rfl⟩) (by simp [hr, RegistryPc.checking]) (fun _ => ho), ?_⟩
    simp only [RegistryPc.ahead, EventMap.ready, he]
  | some e =>
    by_cases ht : (a.entries e).dataTypeId = t
    · simp only [RegistryPc.compute, he, ht, ne_eq, not_true_eq_false, if_false]
      refine ⟨a, .stay (.inl ⟨he, ht⟩) (by simp [hr, RegistryPc.checking]) (fun _ => ho), ?_⟩
      simp only [RegistryPc.ahead, EventMap.ready, he]
    · simp only [RegistryPc.compute, he, ne_eq, ht, not_false_eq_true, if_true]
      have hon : a.toEventMap.on event t = a.toEventMap.note (.refused event t) := by
        simp only [EventMap.on, he, ne_eq, ht, not_false_eq_true, if_true]
      refine ⟨_, .section (.on event t) ?_ (.note a.toEventMap (.refused event t))
        (fun _ _ => rfl) trivial rfl (fun _ => ho) hr, rfl⟩
      simp [EventRegistry.step, hr, hon]

theorem followed_onFetchAdd {event : String} {e : Nat} {t : D.TypeId}
    (hp : Agrees a k (.onFetchAdd event e t)) (hr : a.readers = ∅)
    (ho : (a.calls k).inProgress = false) :
    Followed a k (a.ready event t) (.onFetchAdd event e t) := by
  refine ⟨a, .stay ⟨hp, ready_nextHandlerId a.toEventMap event t⟩ ?_ (fun _ => ho), rfl⟩
  simp [hr, RegistryPc.compute, RegistryPc.checking]

/-- The three steps of `on` come to its section. -/
theorem insertAt_ready {m : EventMap D} {event : String} {e : Nat} {t : D.TypeId}
    (ho : Opens m event e t) :
    (m.ready event t).fetchAdd.insertAt event e t m.nextHandlerId = m.on event t := by
  rcases ho with ⟨he, ht⟩ | ⟨he, rfl⟩
  · simp only [EventMap.ready, EventMap.on, he, ht, ne_eq, not_true_eq_false, if_false]
    rfl
  · simp only [EventMap.ready, EventMap.on, he]
    rfl

theorem registered_on {m : EventMap D} {event : String} {e : Nat} {t : D.TypeId}
    (ho : Opens m event e t) :
    RegistryEvent.registered m.nextHandlerId event t ∈ (m.on event t).log := by
  rw [← insertAt_ready ho]
  exact List.mem_cons_self

theorem followed_onInsert {event : String} {e : Nat} {t : D.TypeId} {serial : Nat}
    (hp : Agrees a k (.onInsert event e t serial)) (hr : a.readers = ∅)
    (ho : (a.calls k).inProgress = false) :
    Followed a k (a.ready event t).fetchAdd (.onInsert event e t serial) := by
  obtain ⟨hopens, rfl⟩ := hp
  refine ⟨_, .section (.on event t) ?_ (.on a.toEventMap event t) (fun _ _ => rfl)
    (registered_on hopens) rfl (fun _ => ho) hr, insertAt_ready hopens⟩
  simp [EventRegistry.step, hr]

theorem followed_offRemove {event : String} (hr : a.readers = ∅)
    (ho : (a.calls k).inProgress = false) :
    Followed a k a.toEventMap (.offRemove event) := by
  refine ⟨_, .section (.off event) ?_ (.off a.toEventMap event) (fun _ _ => rfl) trivial rfl
    (fun _ => ho) hr, rfl⟩
  simp [EventRegistry.step, hr]

theorem followed_idGet {event : String} {id : Nat} (hp : Agrees a k (.idGet event id))
    (hk : k ∉ a.readers) : Followed a k a.toEventMap (.idGet event id) := by
  have hidle : a.calls k = .idle := hp
  rw [Followed]
  cases he : a.eventEntries.lookup event with
  | some e =>
    simp only [RegistryPc.compute, he]
    exact ⟨a, .stay ⟨hidle, he⟩ (by simp [hk, RegistryPc.checking]) (fun h => by cases h), rfl⟩
  | none =>
    simp only [RegistryPc.compute, he]
    have hremove : a.toEventMap.removeHandler event id = a.toEventMap.note (.removed event id) := by
      simp only [EventMap.removeHandler, he]
    refine ⟨{ a with
      toEventMap := a.toEventMap.note (.removed event id)
      calls := Function.update a.calls k (.removing event) },
      ⟨.inr ⟨.offByHandlerId k event id, ?_⟩, ?_, ?_, ?_, fun h => by cases h⟩, rfl⟩
    · simp [EventRegistry.step, hidle, he, hremove]
    · simp [Agrees]
    · exact ⟨fun j hj => Function.update_of_ne hj _ _, fun _ _ => rfl,
        .note a.toEventMap (.removed event id), fun _ => rfl, fun h => by cases h⟩
    · intro j
      split
      · next h => simp [h, hk, RegistryPc.checking]
      · rfl

theorem followed_idRemove {event : String} {id e : Nat} (hp : Agrees a k (.idRemove event id e)) :
    Followed a k a.toEventMap (.idRemove event id e) := by
  obtain ⟨hidle, he⟩ := hp
  have hremove : a.toEventMap.removeHandler event id = a.toEventMap.removeAt event e id := by
    simp only [EventMap.removeHandler, he]
    rfl
  have hframe := EventMap.removeHandler_frame (m := a.toEventMap) event id
  rw [hremove] at hframe
  refine ⟨{ a with
    toEventMap := a.toEventMap.removeAt event e id
    calls := Function.update a.calls k (.checking event e)
    readers := insert k a.readers },
    ⟨.inr ⟨.offByHandlerId k event id, ?_⟩, ?_, ?_, ?_, fun h => by cases h⟩, rfl⟩
  · simp [EventRegistry.step, hidle, he, hremove]
  · simp [Agrees, RegistryPc.compute]
  · exact ⟨fun j hj => Function.update_of_ne hj _ _, fun _ _ => rfl,
      hremove ▸ .removeHandler a.toEventMap event id, fun _ => hframe.1, fun h => by cases h⟩
  · intro j
    split
    · next h => simp [h, RegistryPc.compute, RegistryPc.checking]
    · next h => simp [h]

theorem followed_idIsEmpty {event : String} {e : Nat} (hp : Agrees a k (.idIsEmpty event e)) :
    Followed a k a.toEventMap (.idIsEmpty event e) := by
  have hchecking : a.calls k = .checking event e := hp
  refine ⟨{ a with
    calls := Function.update a.calls k
      (if (a.entries e).handlers.isEmpty then .removing event else .done)
    readers := a.readers.erase k }, ⟨.inr ⟨.checkEmpty k, ?_⟩, ?_, ?_, ?_, fun h => ?_⟩, rfl⟩
  · simp [EventRegistry.step, hchecking]
  · simp [Agrees, RegistryPc.compute]
  · exact ⟨fun j hj => Function.update_of_ne hj _ _, fun _ _ => rfl, .refl a.toEventMap,
      fun _ => rfl, fun h => by cases h⟩
  · intro j
    by_cases h : j = k
    · simp [h, RegistryPc.compute, RegistryPc.checking]
    · simp [h]
  · have hsome : (a.entries e).handlers.isEmpty = false := h
    simp [hsome, OffCall.inProgress]

/-- The second part of `off_by_handler_id`, where it removes nothing. -/
theorem follows_removeEntry (pc' : RegistryPc D) {event : String} (hcalls : a.calls k = .removing event)
    (hr : a.readers = ∅) (hsame : a.toEventMap.removeEntry event = a.toEventMap)
    (hp : ∀ b : EventRegistry D, Agrees b k pc') (hc : pc'.checking = false) :
    ∃ a', Follows a k .write pc' a' ∧ a'.toEventMap = a.toEventMap := by
  refine ⟨{ a with calls := Function.update a.calls k .done },
    .section (.removeEntry k) ?_ (.refl a.toEventMap) (fun j hj => Function.update_of_ne hj _ _)
      (hp _) hc (fun _ => by simp [OffCall.inProgress]) hr, rfl⟩
  simp [EventRegistry.step, hcalls, hr, hsame]

theorem followed_idEntry {event : String} (hp : Agrees a k (.idEntry event))
    (hr : a.readers = ∅) : Followed a k a.toEventMap (.idEntry event) := by
  have hcalls : a.calls k = .removing event := hp
  rw [Followed]
  cases he : a.eventEntries.lookup event with
  | some e =>
    simp only [RegistryPc.compute, he]
    exact ⟨a, .stay ⟨hcalls, he⟩ (by simp [hr, RegistryPc.checking]) (fun h => by cases h), rfl⟩
  | none =>
    simp only [RegistryPc.compute, he]
    have hsame : a.toEventMap.removeEntry event = a.toEventMap := by
      simp only [EventMap.removeEntry, he]
    obtain ⟨a', hf, hmap⟩ := follows_removeEntry (.unlock none) hcalls hr hsame
      (fun _ => trivial) rfl
    exact ⟨a', hf, hmap.symm⟩

theorem followed_idEntryIsEmpty {event : String} {e : Nat}
    (hp : Agrees a k (.idEntryIsEmpty event e)) (hr : a.readers = ∅) :
    Followed a k a.toEventMap (.idEntryIsEmpty event e) := by
  obtain ⟨hcalls, he⟩ := hp
  rw [Followed]
  cases hempty : (a.entries e).handlers.isEmpty with
  | true =>
    simp only [RegistryPc.compute, hempty]
    exact ⟨a, .stay (fun _ => ⟨hcalls, he, hempty⟩) (by simp [hr, RegistryPc.checking])
      (fun h => by cases h), rfl⟩
  | false =>
    simp only [RegistryPc.compute, hempty]
    have hsame : a.toEventMap.removeEntry event = a.toEventMap := by
      simp only [EventMap.removeEntry, he, hempty, Bool.false_eq_true, if_false]
    obtain ⟨a', hf, hmap⟩ := follows_removeEntry (.idEntryChecked event e false) hcalls hr
      hsame (fun _ h => by cases h) rfl
    exact ⟨a', hf, hmap.symm⟩

theorem followed_idEntryRemove {event : String} {e : Nat}
    (hp : Agrees a k (.idEntryRemove event e)) (hr : a.readers = ∅) :
    Followed a k a.toEventMap (.idEntryRemove event e) := by
  obtain ⟨hcalls, he, hempty⟩ := hp
  have hremove : a.toEventMap.removeEntry event = a.toEventMap.erase event := by
    simp only [EventMap.removeEntry, he, hempty, if_true]
    rfl
  refine ⟨{ a with
    toEventMap := a.toEventMap.erase event
    calls := Function.update a.calls k .done },
    .section (.removeEntry k) ?_ (hremove ▸ .removeEntry a.toEventMap event)
      (fun j hj => Function.update_of_ne hj _ _) trivial rfl
      (fun _ => by simp [OffCall.inProgress]) hr, rfl⟩
  simp [EventRegistry.step, hcalls, hr, hremove]

theorem followed_dispatchGet {event : String} {codec : κ} {data : Option Bytes}
    (hp : Agrees a k (.dispatchGet event codec data)) (hm : a.Mapped) (hk : k ∉ a.readers)
    (ho : (a.calls k).inProgress = false) :
    Followed a k a.toEventMap (.dispatchGet event codec data) := by
  have hidle : a.tasks k = .idle := hp
  rw [Followed]
  cases he : a.eventEntries.lookup event with
  | none =>
    simp only [RegistryPc.compute, he]
    refine ⟨{ a with tasks := Function.update a.tasks k .done },
      ⟨.inr ⟨.dispatch k event codec data, ?_⟩, ?_, ?_, ?_, fun _ => ho⟩, rfl⟩
    · simp [EventRegistry.step, hidle, he]
    · intro e he
      cases he
    · exact ⟨fun _ _ => rfl, fun j hj => Function.update_of_ne hj _ _, .refl a.toEventMap,
        fun _ => rfl, fun h => by cases h⟩
    · intro j
      split
      · next h => simp [h, hk, RegistryPc.checking]
      · rfl
  | some e =>
    simp only [RegistryPc.compute, he]
    refine ⟨{ a with
      toEventMap := a.toEventMap.note (.dispatched k event)
      tasks := Function.update a.tasks k (.pending event e codec data) },
      ⟨.inr ⟨.dispatch k event codec data, ?_⟩, ?_, ?_, ?_, fun _ => ho⟩, rfl⟩
    · simp [EventRegistry.step, hidle, he]
    · intro e' he'
      cases he'
      exact ⟨Function.update_self _ _ _, hm event e he⟩
    · exact ⟨fun _ _ => rfl, fun j hj => Function.update_of_ne hj _ _, .note a.toEventMap _,
        fun _ => rfl, fun h => by cases h⟩
    · intro j
      split
      · next h => simp [h, hk, RegistryPc.checking]
      · rfl

/-! ## The task of a dispatch -/

theorem runTask_eq (entry : EventEntry D) (codec : κ) (data : Option Bytes) :
    entry.runTask codec data = match entry.decode codec data with
      | none => []
      | some data => entry.handlers.map fun p => (p.2.serial, p.2.call data) := rfl

theorem follows_run (pc' : RegistryPc D) {event : String} {e : Nat} {codec : κ} {data : Option Bytes}
    (hp : Pending a k event e codec data) (hk : k ∉ a.readers)
    (hpc : ∀ b : EventRegistry D, Agrees b k pc') (hc : pc'.checking = false)
    (ho : (a.calls k).inProgress = false) :
    ∃ a', Follows a k .free pc' a' ∧
      a'.toEventMap = a.toEventMap.note (.ran k ((a.entries e).runTask codec data)) := by
  refine ⟨{ a with
    toEventMap := a.toEventMap.note (.ran k ((a.entries e).runTask codec data))
    tasks := Function.update a.tasks k .done }, ⟨.inr ⟨.run k, ?_⟩, hpc _, ?_, ?_, fun _ => ho⟩, rfl⟩
  · simp [EventRegistry.step, hp.1]
  · exact ⟨fun _ _ => rfl, fun j hj => Function.update_of_ne hj _ _, .note a.toEventMap _,
      fun _ => rfl, fun _ => ⟨rfl, rfl, rfl⟩⟩
  · intro j
    split
    · next h => simp [h, hk, hc]
    · rfl

/-- A task runs beside a call that is ahead of its section. -/
theorem followed_task {m : EventMap D} {pc q : RegistryPc D} (hm : m = q.ahead a.toEventMap)
    (hdem : pc.demand = .compute) (hfree : pc.mapHold = .free) (hp : Agrees a k pc)
    (hk : k ∉ a.readers) (ho : (a.calls k).inProgress = false) :
    ∃ a', Follows a k .free (pc.compute k m).2 a' ∧
      ∀ q : RegistryPc D, m = q.ahead a.toEventMap →
        (pc.compute k m).1 = q.ahead a'.toEventMap := by
  have hentries : ∀ e < a.allocated, m.entries e = a.entries e := by
    intro e he
    rw [hm, q.ahead_entries he]
  cases pc with
  | taskDecode event e codec data =>
    have hpending : Pending a k event e codec data := hp
    simp only [RegistryPc.compute, hentries e hpending.2]
    cases hdecode : (a.entries e).decode codec data with
    | some d =>
      exact ⟨a, .stay ⟨event, codec, data, hpending, hdecode⟩ (by simp [hk, RegistryPc.checking])
        (fun _ => ho), fun _ hq => hq⟩
    | none =>
      obtain ⟨a', hf, hmap⟩ := follows_run (.returned none) hpending hk (fun _ => trivial) rfl ho
      refine ⟨a', hf, fun q hq => ?_⟩
      rw [hmap, q.ahead_note, ← hq, runTask_eq, hdecode]
  | taskCollect e data =>
    obtain ⟨event, codec, bytes, hpending, hdecode⟩ := hp
    simp only [RegistryPc.compute, hentries e hpending.2]
    obtain ⟨a', hf, hmap⟩ := follows_run (.taskCollected e) hpending hk (fun _ => trivial) rfl ho
    refine ⟨a', hf, fun q hq => ?_⟩
    rw [hmap, q.ahead_note, ← hq, runTask_eq, hdecode]
  | onWrite | offWrite | idRead | idWrite | dispatchRead | taskRead | taskCollected | returned =>
    cases hdem
  | _ => cases hfree

/-- The section level follows a step on the memory under the lock of the map. -/
theorem followed_compute {pc : RegistryPc D} (hdem : pc.demand = .compute)
    (hhold : pc.mapHold ≠ .free) (hp : Agrees a k pc) (hm : a.Mapped)
    (hw : pc.mapHold = .write → a.readers = ∅) (hk : k ∈ a.readers ↔ pc.checking = true)
    (ho : pc.removes = false → (a.calls k).inProgress = false) :
    Followed a k (pc.ahead a.toEventMap) pc := by
  cases pc with
  | onEntry event t => exact followed_onEntry (hw rfl) (ho rfl)
  | onFetchAdd event e t => exact followed_onFetchAdd hp (hw rfl) (ho rfl)
  | onInsert event e t serial => exact followed_onInsert hp (hw rfl) (ho rfl)
  | offRemove event => exact followed_offRemove (hw rfl) (ho rfl)
  | idGet event id => exact followed_idGet hp (by simp [hk, RegistryPc.checking])
  | idRemove event id e => exact followed_idRemove hp
  | idIsEmpty event e => exact followed_idIsEmpty hp
  | idEntry event => exact followed_idEntry hp (hw rfl)
  | idEntryIsEmpty event e => exact followed_idEntryIsEmpty hp (hw rfl)
  | idEntryRemove event e => exact followed_idEntryRemove hp (hw rfl)
  | dispatchGet event codec data =>
    exact followed_dispatchGet hp hm (by simp [hk, RegistryPc.checking]) (ho rfl)
  | taskDecode | taskCollect => exact absurd rfl hhold
  | _ => cases hdem

end WsIo.Core
