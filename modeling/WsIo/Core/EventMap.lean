import WsIo.Core.EventRegistry

/-!
# The map of the registry and its history

The handlers of an event are those registered for its name and not removed since, by
`off` or by `off_by_handler_id` (`live`). The map of the registry holds exactly these
(`Sound.listed`), and an entry that has left the map gets no more handlers (`Captured`).
-/

namespace WsIo.Core

open Async

namespace EventMap

variable {κ : Type} {D : DataTypes κ} {m : EventMap D}

/-! ## The history -/

/-- The handler was registered for the event and not removed since. -/
def live (serial : Nat) (event : String) : List (RegistryEvent D) → Bool
  | [] => false
  | .registered n ev _ :: log => (n = serial && ev = event) || live serial event log
  | .off ev :: log => ev ≠ event && live serial event log
  | .removed ev id :: log => !(ev = event && id = serial % 2 ^ 32) && live serial event log
  | _ :: log => live serial event log

def isOn : RegistryEvent D → Bool
  | .registered _ _ _ | .refused _ _ => true
  | _ => false

def isRegistered : RegistryEvent D → Bool
  | .registered _ _ _ => true
  | _ => false

theorem countP_isRegistered_le (log : List (RegistryEvent D)) :
    log.countP isRegistered ≤ log.countP isOn := by
  refine List.countP_mono_left fun ev _ hev => ?_
  cases ev with
  | registered => rfl
  | _ => cases hev

theorem registered_of_live {serial : Nat} {event : String} {log : List (RegistryEvent D)}
    (h : live serial event log = true) : ∃ t, .registered serial event t ∈ log := by
  induction log with
  | nil => cases h
  | cons ev log ih =>
    have hrest : live serial event log = true → ∃ t, .registered serial event t ∈ ev :: log :=
      fun h => (ih h).imp fun t ht => List.mem_cons_of_mem _ ht
    cases ev with
    | registered n ev t =>
      simp only [live, Bool.or_eq_true, Bool.and_eq_true, decide_eq_true_eq] at h
      rcases h with ⟨rfl, rfl⟩ | h
      · exact ⟨t, List.mem_cons_self⟩
      · exact hrest h
    | off ev =>
      simp only [live, Bool.and_eq_true] at h
      exact hrest h.2
    | removed ev id =>
      simp only [live, Bool.and_eq_true] at h
      exact hrest h.2
    | _ => exact hrest h

/-! ## The map -/

/-- What holds of the map as long as the ids have not wrapped. -/
structure Sound (m : EventMap D) : Prop where
  fresh : ∀ serial event t, .registered serial event t ∈ m.log → serial < m.nextHandlerId
  unique : ∀ serial event t event' t', .registered serial event t ∈ m.log →
    .registered serial event' t' ∈ m.log → event = event' ∧ t = t'
  mapped : ∀ event e, m.eventEntries.lookup event = some e → e < m.allocated
  distinct : ∀ event event' e, m.eventEntries.lookup event = some e →
    m.eventEntries.lookup event' = some e → event = event'
  decoder : ∀ e, (m.entries e).dataDecoder = decodeDataAsAnyArc (m.entries e).dataTypeId
  typed : ∀ e, ∀ p ∈ (m.entries e).handlers, p.1 = p.2.serial ∧
    p.2.dataTypeId = (m.entries e).dataTypeId ∧
    ∃ event, .registered p.2.serial event p.2.dataTypeId ∈ m.log
  keys : ∀ e, ((m.entries e).handlers.map (·.2.serial)).Nodup
  listed : ∀ serial event, live serial event m.log = true ↔
    ∃ e, m.eventEntries.lookup event = some e ∧ ∃ p ∈ (m.entries e).handlers, p.2.serial = serial

theorem Sound.serial_lt (h : Sound m) {e : Nat} {p : Nat × EventHandler D}
    (hp : p ∈ (m.entries e).handlers) : p.2.serial < m.nextHandlerId := by
  obtain ⟨-, -, event, hreg⟩ := h.typed e p hp
  exact h.fresh _ _ _ hreg

theorem sound_new : Sound (new : EventMap D) where
  fresh := fun _ _ _ h => by cases h
  unique := fun _ _ _ _ _ h => by cases h
  mapped := fun _ _ h => by cases h
  distinct := fun _ _ _ h => by cases h
  decoder := fun _ => rfl
  typed := fun _ _ h => by cases h
  keys := fun _ => List.nodup_nil
  listed := fun serial event => by simp [new, live]

/-- An event of the history that neither registers nor removes. -/
theorem Sound.note (h : Sound m) {ev : RegistryEvent D}
    (hr : ∀ serial event t, ev ≠ .registered serial event t)
    (hl : ∀ serial event, live serial event (ev :: m.log) = live serial event m.log) :
    Sound (m.note ev) := by
  have hmem : ∀ serial event t, .registered serial event t ∈ ev :: m.log ↔
      .registered serial event t ∈ m.log := by
    intro serial event t
    rw [List.mem_cons, or_iff_right (Ne.symm (hr serial event t))]
  refine ⟨fun serial event t hs => h.fresh serial event t ((hmem _ _ _).mp hs),
    fun serial event t event' t' hs hs' => h.unique serial event t event' t' ((hmem _ _ _).mp hs)
      ((hmem _ _ _).mp hs'), h.mapped, h.distinct, h.decoder, fun e p hp => ?_, h.keys,
    fun serial event => ?_⟩
  · obtain ⟨h₁, h₂, event, hreg⟩ := h.typed e p hp
    exact ⟨h₁, h₂, event, (hmem _ _ _).mpr hreg⟩
  · exact (hl serial event ▸ h.listed serial event :)

theorem entries_setHandlers (e e' : Nat) (handlers : List (Nat × EventHandler D)) :
    (m.setHandlers e handlers).entries e' =
      if e' = e then { m.entries e with handlers := handlers } else m.entries e' :=
  Function.update_apply ..

theorem mem_insertHandler (h : Sound m) (hid : m.nextHandlerId < 2 ^ 32) (event : String)
    (e e' : Nat) (t : D.TypeId) (p : Nat × EventHandler D) :
    p ∈ ((m.insertHandler event e t).entries e').handlers ↔
      (e' = e ∧ p = (m.nextHandlerId, ⟨m.nextHandlerId, t⟩)) ∨ p ∈ (m.entries e').handlers := by
  change p ∈ ((m.setHandlers e _).entries e').handlers ↔ _
  rw [entries_setHandlers, Nat.mod_eq_of_lt hid]
  by_cases he : e' = e
  · subst he
    simp only [if_true, List.mem_cons, List.mem_filter, true_and]
    refine or_congr_right ⟨fun hp => hp.1, fun hp => ⟨hp, ?_⟩⟩
    have hlt := h.serial_lt hp
    rw [← (h.typed e' p hp).1] at hlt
    simp only [ne_eq, decide_not, Bool.not_eq_eq_eq_not, Bool.not_true, decide_eq_false_iff_not]
    omega
  · simp [he]

/-- Nothing but its handlers changes in an entry. -/
theorem insertHandler_entry (event : String) (e e' : Nat) (t : D.TypeId) :
    ((m.insertHandler event e t).entries e').dataDecoder = (m.entries e').dataDecoder ∧
      ((m.insertHandler event e t).entries e').dataTypeId = (m.entries e').dataTypeId := by
  change ((m.setHandlers e _).entries e').dataDecoder = _ ∧
    ((m.setHandlers e _).entries e').dataTypeId = _
  rw [entries_setHandlers]
  by_cases he : e' = e
  · subst he
    simp
  · simp [he]

/-- A handler of the right type is added to the entry of its event. -/
theorem Sound.insertHandler (h : Sound m) (hid : m.nextHandlerId < 2 ^ 32) {event : String} {e : Nat}
    {t : D.TypeId} (hm : m.eventEntries.lookup event = some e)
    (ht : (m.entries e).dataTypeId = t) : Sound (m.insertHandler event e t) := by
  have hmem := mem_insertHandler h hid event e (t := t)
  have hentry := insertHandler_entry (m := m) event e (t := t)
  have hreg : ∀ serial event' t', .registered serial event' t' ∈ (m.insertHandler event e t).log ↔
      (serial = m.nextHandlerId ∧ event' = event ∧ t' = t) ∨
        .registered serial event' t' ∈ m.log := by
    intro serial event' t'
    change _ ∈ _ :: m.log ↔ _
    rw [List.mem_cons, RegistryEvent.registered.injEq]
  refine ⟨fun serial event' t' hs => ?_, fun serial ev₁ t₁ ev₂ t₂ h₁ h₂ => ?_, h.mapped, h.distinct,
    fun e' => ?_, fun e' p hp => ?_, fun e' => ?_, fun serial event' => ?_⟩
  · change serial < m.nextHandlerId + 1
    rcases (hreg _ _ _).mp hs with ⟨rfl, -⟩ | hs
    · omega
    · have := h.fresh _ _ _ hs
      omega
  · rcases (hreg _ _ _).mp h₁ with ⟨hs₁, he₁, ht₁⟩ | hold₁ <;>
      rcases (hreg _ _ _).mp h₂ with ⟨hs₂, he₂, ht₂⟩ | hold₂
    · exact ⟨he₁.trans he₂.symm, ht₁.trans ht₂.symm⟩
    · have := h.fresh _ _ _ hold₂
      omega
    · have := h.fresh _ _ _ hold₁
      omega
    · exact h.unique _ _ _ _ _ hold₁ hold₂
  · rw [(hentry e').1, (hentry e').2]
    exact h.decoder e'
  · rw [(hentry e').2]
    rcases (hmem e' p).mp hp with ⟨rfl, rfl⟩ | hp
    · exact ⟨rfl, ht.symm, event, (hreg _ _ _).mpr (.inl ⟨rfl, rfl, rfl⟩)⟩
    · obtain ⟨h₁, h₂, event', hreg'⟩ := h.typed e' p hp
      exact ⟨h₁, h₂, event', (hreg _ _ _).mpr (.inr hreg')⟩
  · change (((m.setHandlers e _).entries e').handlers.map _).Nodup
    rw [entries_setHandlers]
    by_cases he : e' = e
    · simp only [he, if_true, List.map_cons, List.nodup_cons]
      refine ⟨fun hmem' => ?_, (h.keys e).sublist (List.filter_sublist.map _)⟩
      obtain ⟨p, hp, hserial⟩ := List.mem_map.mp hmem'
      have := h.serial_lt (List.mem_filter.mp hp).1
      omega
    · simp only [he, if_false]
      exact h.keys e'
  · change ((m.nextHandlerId = serial && event = event') || live serial event' m.log) = true ↔
      ∃ e', m.eventEntries.lookup event' = some e' ∧ _
    rw [Bool.or_eq_true, h.listed, Bool.and_eq_true, decide_eq_true_eq, decide_eq_true_eq]
    constructor
    · rintro (⟨rfl, rfl⟩ | ⟨e', he', p, hp, hserial⟩)
      · exact ⟨e, hm, _, (hmem e _).mpr (.inl ⟨rfl, rfl⟩), rfl⟩
      · exact ⟨e', he', p, (hmem e' p).mpr (.inr hp), hserial⟩
    · rintro ⟨e', he', p, hp, hserial⟩
      rcases (hmem e' p).mp hp with ⟨rfl, rfl⟩ | hp
      · exact .inl ⟨hserial, h.distinct _ _ _ hm he'⟩
      · exact .inr ⟨e', he', p, hp, hserial⟩

theorem lookup_insertEntry (event event' : String) (t : D.TypeId) :
    (m.insertEntry event t).eventEntries.lookup event' =
      if event' = event then some m.allocated else m.eventEntries.lookup event' :=
  lookup_cons_ite ..

theorem entries_insertEntry (event : String) (t : D.TypeId) (e : Nat) :
    (m.insertEntry event t).entries e = if e = m.allocated then .new t else m.entries e :=
  Function.update_apply ..

/-- A name that is not in the map gets a new entry. -/
theorem Sound.insertEntry (h : Sound m) {event : String} (t : D.TypeId)
    (hm : m.eventEntries.lookup event = none) : Sound (m.insertEntry event t) := by
  have hold : ∀ event' e, m.eventEntries.lookup event' = some e → e ≠ m.allocated := by
    intro event' e he
    have := h.mapped event' e he
    omega
  refine ⟨h.fresh, h.unique, fun event' e he => ?_, fun event₁ event₂ e h₁ h₂ => ?_, fun e => ?_,
    fun e p hp => ?_, fun e => ?_, fun serial event' => ?_⟩
  · change e < m.allocated + 1
    rw [lookup_insertEntry] at he
    split at he
    · cases he
      omega
    · have := h.mapped event' e he
      omega
  · rw [lookup_insertEntry] at h₁ h₂
    split at h₁ <;> split at h₂
    · simp_all
    · cases h₁
      exact absurd rfl (hold _ _ h₂)
    · cases h₂
      exact absurd rfl (hold _ _ h₁)
    · exact h.distinct _ _ _ h₁ h₂
  · rw [entries_insertEntry]
    split
    · rfl
    · exact h.decoder e
  · rw [entries_insertEntry] at hp ⊢
    split at hp
    · cases hp
    · rename_i he
      rw [if_neg he]
      exact h.typed e p hp
  · rw [entries_insertEntry]
    split
    · exact List.nodup_nil
    · exact h.keys e
  · refine (h.listed serial event').trans ?_
    constructor
    · rintro ⟨e, he, hp⟩
      refine ⟨e, ?_, by rwa [entries_insertEntry, if_neg (hold _ _ he)]⟩
      rw [lookup_insertEntry, if_neg, he]
      rintro rfl
      rw [hm] at he
      cases he
    · rintro ⟨e, he, p, hp, hserial⟩
      rw [lookup_insertEntry] at he
      split at he
      · cases he
        rw [entries_insertEntry, if_pos rfl] at hp
        cases hp
      · rw [entries_insertEntry, if_neg (hold _ _ he)] at hp
        exact ⟨e, he, p, hp, hserial⟩

theorem Sound.on (h : Sound m) (event : String) (t : D.TypeId)
    (hid : (m.on event t).nextHandlerId ≤ 2 ^ 32) : Sound (m.on event t) := by
  unfold EventMap.on at hid ⊢
  split at hid
  · rename_i e he
    split at hid
    · rename_i ht
      rw [if_pos ht]
      exact h.note (by simp) (fun _ _ => rfl)
    · rename_i ht
      rw [if_neg ht]
      exact h.insertHandler hid he (not_not.mp ht)
  · rename_i hm
    refine (h.insertEntry t hm).insertHandler hid ?_ ?_
    · rw [lookup_insertEntry, if_pos rfl]
    · rw [entries_insertEntry, if_pos rfl]
      rfl

/-- A name whose handlers are all gone, for the history, leaves the map. -/
theorem Sound.unmap (h : Sound m) {event : String} {log : List (RegistryEvent D)}
    (hreg : ∀ serial event t, .registered serial event t ∈ log ↔
      .registered serial event t ∈ m.log)
    (hlive : ∀ serial event', live serial event' log = true ↔
      event' ≠ event ∧ live serial event' m.log = true) :
    Sound { m with eventEntries := m.eventEntries.filter (·.1 ≠ event), log := log } := by
  have hlookup : ∀ event' e, (m.eventEntries.filter (·.1 ≠ event)).lookup event' = some e ↔
      event' ≠ event ∧ m.eventEntries.lookup event' = some e := by
    intro event' e
    rw [lookup_filter]
    by_cases he : event' = event <;> simp [he]
  refine ⟨fun _ _ _ hs => h.fresh _ _ _ ((hreg _ _ _).mp hs), fun _ _ _ _ _ h₁ h₂ =>
    h.unique _ _ _ _ _ ((hreg _ _ _).mp h₁) ((hreg _ _ _).mp h₂),
    fun _ _ he => h.mapped _ _ ((hlookup _ _).mp he).2,
    fun _ _ _ h₁ h₂ => h.distinct _ _ _ ((hlookup _ _).mp h₁).2 ((hlookup _ _).mp h₂).2, h.decoder,
    fun e p hp => ?_, h.keys, fun serial event' => ?_⟩
  · obtain ⟨h₁, h₂, event', hr⟩ := h.typed e p hp
    exact ⟨h₁, h₂, event', (hreg _ _ _).mpr hr⟩
  · rw [hlive, h.listed]
    constructor
    · rintro ⟨hne, e, he, hp⟩
      exact ⟨e, (hlookup _ _).mpr ⟨hne, he⟩, hp⟩
    · rintro ⟨e, he, hp⟩
      obtain ⟨hne, he⟩ := (hlookup _ _).mp he
      exact ⟨hne, e, he, hp⟩

theorem Sound.off (h : Sound m) (event : String) : Sound (m.off event) := by
  refine h.unmap (fun _ _ _ => by simp) fun serial event' => ?_
  simp [live, ne_comm]

theorem Sound.removeEntry (h : Sound m) (event : String) : Sound (m.removeEntry event) := by
  unfold EventMap.removeEntry
  split
  · rename_i e he
    split
    · rename_i hempty
      refine h.unmap (fun _ _ _ => Iff.rfl) fun serial event' => ?_
      refine ⟨fun hl => ⟨?_, hl⟩, fun hl => hl.2⟩
      -- an empty entry has no handler that is live
      rintro rfl
      obtain ⟨e', he', p, hp, -⟩ := (h.listed serial event').mp hl
      rw [he] at he'
      cases he'
      rw [List.isEmpty_iff.mp hempty] at hp
      cases hp
    · exact h
  · exact h

theorem mem_removeHandler {event : String} {id e : Nat} (he : m.eventEntries.lookup event = some e)
    (e' : Nat) (p : Nat × EventHandler D) :
    p ∈ ((m.removeHandler event id).entries e').handlers ↔
      p ∈ (m.entries e').handlers ∧ (e' = e → p.1 ≠ id) := by
  unfold EventMap.removeHandler
  rw [he]
  change p ∈ ((m.setHandlers e _).entries e').handlers ↔ _
  rw [entries_setHandlers]
  by_cases hee : e' = e
  · subst hee
    simp
  · simp [hee]

/-- Nothing but the handlers and the history changes. -/
theorem removeHandler_frame (event : String) (id : Nat) :
    (m.removeHandler event id).eventEntries = m.eventEntries ∧
      (m.removeHandler event id).allocated = m.allocated ∧
      (m.removeHandler event id).nextHandlerId = m.nextHandlerId ∧
      (m.removeHandler event id).log = .removed event id :: m.log ∧
      ∀ e, ((m.removeHandler event id).entries e).dataDecoder = (m.entries e).dataDecoder ∧
        ((m.removeHandler event id).entries e).dataTypeId = (m.entries e).dataTypeId ∧
        ((m.removeHandler event id).entries e).handlers.Sublist (m.entries e).handlers := by
  unfold EventMap.removeHandler
  split
  · rename_i e₀ _
    refine ⟨rfl, rfl, rfl, rfl, fun e => ?_⟩
    change ((m.setHandlers e₀ _).entries e).dataDecoder = _ ∧ _
    rw [show ∀ x, ((m.setHandlers e₀ x).note (.removed event id)).entries e =
      (m.setHandlers e₀ x).entries e from fun _ => rfl, entries_setHandlers]
    by_cases he : e = e₀
    · subst he
      simp
    · simp [he]
  · exact ⟨rfl, rfl, rfl, rfl, fun e => ⟨rfl, rfl, List.Sublist.refl _⟩⟩

theorem live_removed {serial id : Nat} {event event' : String} {log : List (RegistryEvent D)}
    (hs : serial < 2 ^ 32) :
    live serial event' (.removed event id :: log) = true ↔
      ¬ (event = event' ∧ id = serial) ∧ live serial event' log = true := by
  simp only [live, Bool.and_eq_true, Bool.not_eq_true', Bool.and_eq_false_iff,
    decide_eq_false_iff_not, Nat.mod_eq_of_lt hs, not_and_or]

theorem Sound.removeHandler (h : Sound m) (hid : m.nextHandlerId ≤ 2 ^ 32) (event : String)
    (id : Nat) : Sound (m.removeHandler event id) := by
  obtain ⟨hmap, halloc, hnext, hlog, hentry⟩ := removeHandler_frame (m := m) event id
  have hreg : ∀ serial event' t, .registered serial event' t ∈ (m.removeHandler event id).log ↔
      .registered serial event' t ∈ m.log := by
    intro serial event' t
    rw [hlog]
    simp
  have hmem : ∀ e p, p ∈ ((m.removeHandler event id).entries e).handlers →
      p ∈ (m.entries e).handlers := fun e p hp => (hentry e).2.2.subset hp
  refine ⟨fun _ _ _ hs => ?_, fun _ _ _ _ _ h₁ h₂ => ?_, fun event' e he => ?_,
    fun event₁ event₂ e h₁ h₂ => ?_, fun e => ?_, fun e p hp => ?_, fun e => ?_,
    fun serial event' => ?_⟩
  · rw [hnext]
    exact h.fresh _ _ _ ((hreg _ _ _).mp hs)
  · exact h.unique _ _ _ _ _ ((hreg _ _ _).mp h₁) ((hreg _ _ _).mp h₂)
  · rw [hmap] at he
    rw [halloc]
    exact h.mapped event' e he
  · rw [hmap] at h₁ h₂
    exact h.distinct event₁ event₂ e h₁ h₂
  · rw [(hentry e).1, (hentry e).2.1]
    exact h.decoder e
  · rw [(hentry e).2.1]
    obtain ⟨h₁, h₂, event', hr⟩ := h.typed e p (hmem e p hp)
    exact ⟨h₁, h₂, event', (hreg _ _ _).mpr hr⟩
  · exact (h.keys e).sublist ((hentry e).2.2.map _)
  · rw [hlog, hmap]
    constructor
    · intro hl
      have hlive : live serial event' m.log = true := by
        simp only [live, Bool.and_eq_true] at hl
        exact hl.2
      obtain ⟨e, he, p, hp, hserial⟩ := (h.listed serial event').mp hlive
      have hlt := h.serial_lt hp
      rw [live_removed (by omega)] at hl
      refine ⟨e, he, p, ?_, hserial⟩
      cases hm : m.eventEntries.lookup event with
      | none =>
        unfold EventMap.removeHandler
        rw [hm]
        exact hp
      | some e₀ =>
        refine (mem_removeHandler hm e p).mpr ⟨hp, fun hee hpid => hl.1 ⟨?_, ?_⟩⟩
        · exact h.distinct _ _ _ hm (hee ▸ he)
        · rw [← hpid, (h.typed e p hp).1, hserial]
    · rintro ⟨e, he, p, hp, hserial⟩
      have hold := hmem e p hp
      have hlt := h.serial_lt hold
      rw [live_removed (by omega)]
      refine ⟨?_, (h.listed serial event').mpr ⟨e, he, p, hold, hserial⟩⟩
      rintro ⟨rfl, rfl⟩
      refine ((mem_removeHandler he e p).mp hp).2 rfl ?_
      rw [(h.typed e p hold).1, hserial]

/-! ## What a dispatch has captured -/

/-- The entry that a dispatch of the event captured when the history was `past`. -/
structure Captured (m : EventMap D) (event : String) (e : Nat) (past : List (RegistryEvent D)) :
    Prop where
  subset : past ⊆ m.log
  allocated : e < m.allocated
  owner : ∀ event', m.eventEntries.lookup event' = some e → event' = event
  handlers : ∀ p ∈ (m.entries e).handlers, ∃ t, .registered p.2.serial event t ∈ m.log
  kept : ∀ p ∈ (m.entries e).handlers, live p.2.serial event past = true ∨
    ∀ event' t, .registered p.2.serial event' t ∉ past
  type : ∀ serial t, live serial event past = true → .registered serial event t ∈ past →
    (m.entries e).dataTypeId = t
  alive : ∀ serial t, .registered serial event t ∈ past → live serial event m.log = true →
    live serial event past = true
  current : ∀ serial, live serial event past = true → live serial event m.log = true →
    m.eventEntries.lookup event = some e

/-- A dispatch captures the entry of its event. -/
theorem Sound.captured (h : Sound m) {event : String} {e : Nat}
    (he : m.eventEntries.lookup event = some e) : Captured m event e m.log where
  subset := List.Subset.refl _
  allocated := h.mapped event e he
  owner := fun event' he' => h.distinct event' event e he' he
  handlers := fun p hp => registered_of_live ((h.listed _ _).mpr ⟨e, he, p, hp, rfl⟩)
  kept := fun p hp => .inl ((h.listed _ _).mpr ⟨e, he, p, hp, rfl⟩)
  type := fun serial t hl hr => by
    obtain ⟨e', he', p, hp, rfl⟩ := (h.listed serial event).mp hl
    rw [he] at he'
    cases he'
    obtain ⟨-, htype, event', hr'⟩ := h.typed e p hp
    rw [← htype]
    exact (h.unique _ _ _ _ _ hr' hr).2
  alive := fun _ _ _ hl => hl
  current := fun _ _ _ => he

section Captured

variable {event : String} {e : Nat} {past : List (RegistryEvent D)}

/-- What a step may do to a captured entry: take handlers out of it, and forget handlers. -/
theorem Captured.shrink (h : Captured m event e past) {m' : EventMap D} (hlog : m.log ⊆ m'.log)
    (halloc : m'.allocated = m.allocated)
    (hmap : ∀ event' e', m'.eventEntries.lookup event' = some e' →
      m.eventEntries.lookup event' = some e')
    (hentry : ∀ p ∈ (m'.entries e).handlers, p ∈ (m.entries e).handlers)
    (htype : (m'.entries e).dataTypeId = (m.entries e).dataTypeId)
    (hlive : ∀ serial, live serial event m'.log = true → live serial event m.log = true ∧
      (m.eventEntries.lookup event = some e → m'.eventEntries.lookup event = some e)) :
    Captured m' event e past where
  subset := fun _ hev => hlog (h.subset hev)
  allocated := by
    rw [halloc]
    exact h.allocated
  owner := fun event' he' => h.owner event' (hmap event' e he')
  handlers := fun p hp => (h.handlers p (hentry p hp)).imp fun _ ht => hlog ht
  kept := fun p hp => h.kept p (hentry p hp)
  type := fun serial t hl hr => htype.trans (h.type serial t hl hr)
  alive := fun serial t hr hl => h.alive serial t hr (hlive serial hl).1
  current := fun serial hpast hnow => by
    obtain ⟨hl, hstays⟩ := hlive serial hnow
    exact hstays (h.current serial hpast hl)

theorem Captured.note (h : Captured m event e past) {ev : RegistryEvent D}
    (hl : ∀ serial event, live serial event (ev :: m.log) = live serial event m.log) :
    Captured (m.note ev) event e past := by
  refine h.shrink (List.subset_cons_self _ _) rfl (fun _ _ he => he) (fun _ hp => hp) rfl ?_
  intro serial hnow
  refine ⟨?_, id⟩
  rw [← hl]
  exact hnow

theorem Captured.off (h : Captured m event e past) (event' : String) :
    Captured (m.off event') event e past := by
  have hlookup : ∀ ev, (m.off event').eventEntries.lookup ev =
      if ev = event' then none else m.eventEntries.lookup ev := fun ev => lookup_filter ..
  refine h.shrink (List.subset_cons_self _ _) rfl (fun ev e' he => ?_) (fun _ hp => hp) rfl ?_
  · rw [hlookup] at he
    split at he
    · cases he
    · exact he
  · intro serial hnow
    have hnow : event' ≠ event ∧ live serial event m.log = true := by
      simpa [EventMap.off, EventMap.note, live] using hnow
    refine ⟨hnow.2, fun he => ?_⟩
    rw [hlookup, if_neg hnow.1.symm, he]

theorem Captured.removeEntry (h : Captured m event e past) (hs : Sound m) (event' : String) :
    Captured (m.removeEntry event') event e past := by
  unfold EventMap.removeEntry
  split
  · rename_i e₀ he₀
    split
    · rename_i hempty
      refine h.shrink (List.Subset.refl _) rfl (fun ev e' he => ?_) (fun _ hp => hp) rfl ?_
      · change (m.eventEntries.filter _).lookup ev = some e' at he
        rw [lookup_filter] at he
        split at he
        · cases he
        · exact he
      · intro serial hnow
        refine ⟨hnow, fun he => ?_⟩
        change (m.eventEntries.filter _).lookup event = some e
        rw [lookup_filter, if_neg, he]
        -- the entry of a live handler is not empty
        rintro rfl
        obtain ⟨e', he', p, hp, -⟩ := (hs.listed serial event).mp hnow
        rw [he₀] at he'
        cases he'
        rw [List.isEmpty_iff.mp hempty] at hp
        cases hp
    · exact h
  · exact h

theorem Captured.removeHandler (h : Captured m event e past) (event' : String) (id : Nat) :
    Captured (m.removeHandler event' id) event e past := by
  obtain ⟨hmap, halloc, -, hlog, hentry⟩ := removeHandler_frame (m := m) event' id
  refine h.shrink ?_ halloc (fun ev e' he => hmap ▸ he) (fun p hp => (hentry e).2.2.subset hp)
    (hentry e).2.1 ?_
  · rw [hlog]
    exact List.subset_cons_self _ _
  · intro serial hnow
    rw [hlog] at hnow
    simp only [live, Bool.and_eq_true] at hnow
    exact ⟨hnow.2, fun he => hmap ▸ he⟩

/-- A handler that a later `on` adds to a captured entry is one of the event. -/
theorem Captured.insertHandler (h : Captured m event e past) (hs : Sound m)
    (hid : m.nextHandlerId < 2 ^ 32) {event' : String} {e' : Nat} {t : D.TypeId}
    (he' : m.eventEntries.lookup event' = some e') :
    Captured (m.insertHandler event' e' t) event e past := by
  have hmem := mem_insertHandler hs hid event' e' (t := t)
  have hnew : ∀ ev t, .registered m.nextHandlerId ev t ∉ past := fun ev t hin =>
    Nat.lt_irrefl _ (hs.fresh _ _ _ (h.subset hin))
  have hlive : ∀ serial, live serial event (m.insertHandler event' e' t).log = true →
      serial = m.nextHandlerId ∨ live serial event m.log = true := by
    intro serial hnow
    change ((m.nextHandlerId = serial && event' = event) || live serial event m.log) = true at hnow
    rw [Bool.or_eq_true, Bool.and_eq_true, decide_eq_true_eq] at hnow
    exact hnow.imp_left fun hn => hn.1.symm
  refine ⟨fun _ hev => List.mem_cons_of_mem _ (h.subset hev), h.allocated, h.owner, fun p hp => ?_,
    fun p hp => ?_, fun serial t' hl hr => ?_, fun serial t' hr hnow => ?_,
    fun serial hpast hnow => ?_⟩
  · rcases (hmem e p).mp hp with ⟨rfl, rfl⟩ | hp
    · refine ⟨t, ?_⟩
      rw [← h.owner event' he']
      exact List.mem_cons_self
    · exact (h.handlers p hp).imp fun _ ht => List.mem_cons_of_mem _ ht
  · rcases (hmem e p).mp hp with ⟨rfl, rfl⟩ | hp
    · exact .inr hnew
    · exact h.kept p hp
  · rw [(insertHandler_entry event' e' e t).2]
    exact h.type serial t' hl hr
  · rcases hlive serial hnow with rfl | hl
    · exact absurd hr (hnew event t')
    · exact h.alive serial t' hr hl
  · rcases hlive serial hnow with rfl | hl
    · obtain ⟨t', ht'⟩ := registered_of_live hpast
      exact absurd ht' (hnew event t')
    · exact h.current serial hpast hl

theorem Captured.insertEntry (h : Captured m event e past) {event' : String}
    (t : D.TypeId) (hm : m.eventEntries.lookup event' = none) :
    Captured (m.insertEntry event' t) event e past := by
  have hne : e ≠ m.allocated := by
    have := h.allocated
    omega
  refine ⟨h.subset, ?_, fun ev hev => ?_, ?_, ?_, ?_, h.alive, fun serial hpast hnow => ?_⟩
  · change e < m.allocated + 1
    have := h.allocated
    omega
  · rw [lookup_insertEntry] at hev
    split at hev
    · cases hev
      exact absurd rfl hne
    · exact h.owner ev hev
  · rw [entries_insertEntry, if_neg hne]
    exact h.handlers
  · rw [entries_insertEntry, if_neg hne]
    exact h.kept
  · rw [entries_insertEntry, if_neg hne]
    exact h.type
  · have he := h.current serial hpast hnow
    rw [lookup_insertEntry, if_neg, he]
    rintro rfl
    rw [hm] at he
    cases he

theorem Captured.on (h : Captured m event e past) (hs : Sound m) (event' : String) (t : D.TypeId)
    (hid : (m.on event' t).nextHandlerId ≤ 2 ^ 32) : Captured (m.on event' t) event e past := by
  unfold EventMap.on at hid ⊢
  split at hid
  · rename_i e' he'
    split at hid
    · rename_i ht
      rw [if_pos ht]
      exact h.note fun _ _ => rfl
    · rename_i ht
      rw [if_neg ht]
      exact h.insertHandler hs hid he'
  · rename_i hm
    refine (h.insertEntry t hm).insertHandler (hs.insertEntry t hm) hid ?_
    rw [lookup_insertEntry, if_pos rfl]

end Captured

/-! ## The history of a step -/

/-- The ids are handed out in order, one for each registration of the history. -/
structure Noted (m m' : EventMap D) : Prop where
  ids : m.nextHandlerId ≤ m'.nextHandlerId
  counted : m.nextHandlerId ≤ m.log.countP isRegistered →
    m'.nextHandlerId ≤ m'.log.countP isRegistered

theorem Noted.note {ev : RegistryEvent D} (hev : isRegistered ev = false) :
    Noted m (m.note ev) := by
  refine ⟨Nat.le_refl _, fun h => ?_⟩
  change m.nextHandlerId ≤ (ev :: m.log).countP isRegistered
  rw [List.countP_cons_of_neg (by simp [hev])]
  exact h

theorem Noted.on (event : String) (t : D.TypeId) : Noted m (m.on event t) := by
  unfold EventMap.on
  split
  · split
    · exact .note rfl
    · refine ⟨Nat.le_succ _, fun h => ?_⟩
      change m.nextHandlerId + 1 ≤ (_ :: m.log).countP isRegistered
      rw [List.countP_cons_of_pos rfl]
      exact Nat.succ_le_succ h
  · refine ⟨Nat.le_succ _, fun h => ?_⟩
    change m.nextHandlerId + 1 ≤ (_ :: m.log).countP isRegistered
    rw [List.countP_cons_of_pos rfl]
    exact Nat.succ_le_succ h

theorem Noted.off (event : String) : Noted m (m.off event) := ⟨Nat.le_refl _, id⟩

theorem Noted.removeHandler (event : String) (id : Nat) : Noted m (m.removeHandler event id) := by
  obtain ⟨-, -, hnext, hlog, -⟩ := removeHandler_frame (m := m) event id
  refine ⟨hnext.ge, fun h => ?_⟩
  rw [hnext, hlog]
  exact h

theorem Noted.removeEntry (event : String) : Noted m (m.removeEntry event) := by
  unfold EventMap.removeEntry
  split
  · split <;> exact ⟨Nat.le_refl _, id⟩
  · exact ⟨Nat.le_refl _, id⟩

end EventMap

/-! ## The registry -/

namespace EventRegistry

open EventMap

variable {κ : Type} {D : DataTypes κ} {s s' : EventRegistry D}

/-- What a step keeps of the map, as long as the ids have not wrapped. -/
structure MapKept (s s' : EventRegistry D) : Prop where
  noted : Noted s.toEventMap s'.toEventMap
  sound : s'.nextHandlerId ≤ 2 ^ 32 → Sound s.toEventMap → Sound s'.toEventMap
  captured : ∀ event e past, s'.nextHandlerId ≤ 2 ^ 32 → Sound s.toEventMap →
    Captured s.toEventMap event e past → Captured s'.toEventMap event e past

theorem MapKept.of_eq (h : s'.toEventMap = s.toEventMap) : MapKept s s' := by
  refine ⟨?_, ?_, ?_⟩ <;> rw [h]
  · exact ⟨Nat.le_refl _, id⟩
  · exact fun _ hs => hs
  · exact fun _ _ _ _ _ hc => hc

theorem MapKept.of_note {ev : RegistryEvent D} (h : s'.toEventMap = s.toEventMap.note ev)
    (hr : ∀ serial event t, ev ≠ .registered serial event t) (hev : isRegistered ev = false)
    (hl : ∀ serial event, live serial event (ev :: s.log) = live serial event s.log) :
    MapKept s s' := by
  refine ⟨?_, ?_, ?_⟩ <;> rw [h]
  · exact .note hev
  · exact fun _ hs => hs.note hr hl
  · exact fun _ _ _ _ _ hc => hc.note hl

theorem step_mapKept {a : EventAction D} (h : step s a = some s') : MapKept s s' := by
  cases a with
  | on event t =>
    simp only [step] at h
    split at h <;> cases h
    exact ⟨.on event t, fun hid hs => hs.on event t hid, fun _ _ _ hid hs hc => hc.on hs event t hid⟩
  | off event =>
    simp only [step] at h
    split at h <;> cases h
    exact ⟨.off event, fun _ hs => hs.off event, fun _ _ _ _ _ hc => hc.off event⟩
  | offByHandlerId k event id =>
    simp only [step] at h
    have hmap : ∀ (s₁ : EventRegistry D), s₁.toEventMap = s.toEventMap.removeHandler event id →
        MapKept s s₁ := by
      intro s₁ hm
      obtain ⟨-, -, hnext, -⟩ := removeHandler_frame (m := s.toEventMap) event id
      refine ⟨hm ▸ .removeHandler event id, fun hid hs => ?_, fun ev e past _ _ hc => ?_⟩
      · rw [hm] at hid ⊢
        exact hs.removeHandler (hnext ▸ hid) event id
      · rw [hm]
        exact hc.removeHandler event id
    split at h
    · split at h <;> cases h <;> exact hmap _ rfl
    · cases h
  | checkEmpty k =>
    simp only [step] at h
    split at h <;> cases h
    exact .of_eq rfl
  | removeEntry k =>
    simp only [step] at h
    split at h
    · rename_i event _
      split at h <;> cases h
      exact ⟨.removeEntry event, fun _ hs => hs.removeEntry event,
        fun _ _ _ _ hs hc => hc.removeEntry hs event⟩
    · cases h
  | dispatch k event codec data =>
    simp only [step] at h
    split at h
    · split at h <;> cases h
      · exact .of_eq rfl
      · exact .of_note rfl (by simp) rfl fun _ _ => rfl
    · cases h
  | run k =>
    simp only [step] at h
    split at h <;> cases h
    exact .of_note rfl (by simp) rfl fun _ _ => rfl

theorem step_ids {a : EventAction D} (h : step s a = some s') :
    s.nextHandlerId ≤ s'.nextHandlerId := (step_mapKept h).noted.ids

/-- The map is sound as long as the ids have not wrapped. -/
structure Invariant (s : EventRegistry D) : Prop where
  counted : s.nextHandlerId ≤ s.log.countP isRegistered
  sound : s.nextHandlerId ≤ 2 ^ 32 → Sound s.toEventMap

theorem invariant_of_reachable (h : (system D).Reachable s) : Invariant s := by
  refine h.invariant (I := Invariant) ⟨Nat.zero_le _, fun _ => sound_new⟩ ?_
  intro s a s' _ hs hi
  have hkept := step_mapKept hs
  exact ⟨hkept.noted.counted hi.counted, fun hid => hkept.sound hid
    (hi.sound (hkept.noted.ids.trans hid))⟩

end EventRegistry

end WsIo.Core
