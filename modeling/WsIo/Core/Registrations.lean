import WsIo.Core.EventMap

/-!
# Which handlers and entries a registry holds

`off_by_handler_id` takes the handler out, looks whether that was the last one, releases its
lock, takes the write lock and looks again. In between others may register and remove. Nothing
is lost by it and nothing is left over (`registrations_kept`): a handler is registered until it
is removed, and an entry without handlers is still some removal's to delete.
-/

namespace WsIo.Core

open Async

namespace EventMap

variable {κ : Type} {D : DataTypes κ} {m : EventMap D}

/-- The type assertion of `on` holds. -/
def Accepts (m : EventMap D) (event : String) (t : D.TypeId) : Prop :=
  ∀ e, m.eventEntries.lookup event = some e → (m.entries e).dataTypeId = t

theorem on_of_accepts {event : String} {t : D.TypeId} (h : m.Accepts event t) :
    (m.on event t).nextHandlerId = m.nextHandlerId + 1 ∧
      (m.on event t).log = .registered m.nextHandlerId event t :: m.log := by
  unfold EventMap.on
  split
  · rename_i e he
    rw [if_neg (not_not.mpr (h e he))]
    exact ⟨rfl, rfl⟩
  · exact ⟨rfl, rfl⟩

theorem on_of_not_accepts {event : String} {t : D.TypeId} (h : ¬ m.Accepts event t) :
    m.on event t = m.note (.refused event t) := by
  unfold Accepts at h
  push Not at h
  obtain ⟨e, he, hne⟩ := h
  unfold EventMap.on
  simp only [he]
  rw [if_pos hne]

/-- The handler with the id, which `on` registered for the event, is in the map. -/
def Registered (m : EventMap D) (event : String) (id : Nat) : Prop :=
  ∃ e, m.eventEntries.lookup event = some e ∧ ∃ p ∈ (m.entries e).handlers,
    p.1 = id ∧ p.2.serial = id

/-- A mapped entry without handlers. -/
def Empty (m : EventMap D) (event : String) (e : Nat) : Prop :=
  m.eventEntries.lookup event = some e ∧ (m.entries e).handlers = []

theorem Sound.registered_iff (h : Sound m) (event : String) (id : Nat) :
    m.Registered event id ↔ live id event m.log = true := by
  rw [h.listed]
  constructor
  · rintro ⟨e, he, p, hp, -, hserial⟩
    exact ⟨e, he, p, hp, hserial⟩
  · rintro ⟨e, he, p, hp, hserial⟩
    exact ⟨e, he, p, hp, (h.typed e p hp).1.trans hserial, hserial⟩

/-! ## Empty entries -/

theorem handlers_insertHandler (event : String) (e e' : Nat) (t : D.TypeId) :
    ((m.insertHandler event e t).entries e').handlers = [] ↔
      e' ≠ e ∧ (m.entries e').handlers = [] := by
  change ((m.setHandlers e _).entries e').handlers = [] ↔ _
  rw [entries_setHandlers]
  by_cases he : e' = e
  · simp [he]
  · simp [he]

/-- `on` adds a handler to its entry, so it leaves no entry empty that was not. -/
theorem empty_on {event event' : String} {t : D.TypeId} {e : Nat}
    (h : (m.on event t).Empty event' e) : m.Empty event' e := by
  obtain ⟨hlookup, hnil⟩ := h
  unfold EventMap.on at hlookup hnil
  split at hlookup
  · rename_i e₀ he₀
    rw [he₀] at hnil
    dsimp only at hnil
    split at hlookup
    · rename_i ht
      rw [if_pos ht] at hnil
      exact ⟨hlookup, hnil⟩
    · rename_i ht
      rw [if_neg ht, handlers_insertHandler] at hnil
      exact ⟨hlookup, hnil.2⟩
  · rename_i hnone
    rw [hnone] at hnil
    dsimp only at hnil
    rw [handlers_insertHandler, entries_insertEntry] at hnil
    obtain ⟨hne, hnil⟩ := hnil
    rw [if_neg hne] at hnil
    refine ⟨?_, hnil⟩
    change (m.insertEntry event t).eventEntries.lookup event' = some e at hlookup
    rw [lookup_insertEntry] at hlookup
    split at hlookup
    · exact absurd (Option.some.inj hlookup).symm hne
    · exact hlookup

theorem lookup_unmap {event event' : String} {e : Nat}
    (h : (m.eventEntries.filter (·.1 ≠ event)).lookup event' = some e) :
    event' ≠ event ∧ m.eventEntries.lookup event' = some e := by
  rw [lookup_filter] at h
  split at h
  · cases h
  · rename_i hne
    exact ⟨hne, h⟩

theorem empty_off {event event' : String} {e : Nat} (h : (m.off event).Empty event' e) :
    m.Empty event' e := ⟨(lookup_unmap h.1).2, h.2⟩

/-- `removeEntry` does not leave the entry of its event empty. -/
theorem empty_removeEntry {event event' : String} {e : Nat}
    (h : (m.removeEntry event).Empty event' e) : m.Empty event' e ∧ event' ≠ event := by
  obtain ⟨hlookup, hnil⟩ := h
  unfold EventMap.removeEntry at hlookup hnil
  split at hlookup
  · rename_i e₀ he₀
    rw [he₀] at hnil
    dsimp only at hnil
    split at hlookup
    · rename_i hempty
      rw [if_pos hempty] at hnil
      obtain ⟨hne, hlookup⟩ := lookup_unmap hlookup
      exact ⟨⟨hlookup, hnil⟩, hne⟩
    · rename_i hempty
      rw [if_neg hempty] at hnil
      refine ⟨⟨hlookup, hnil⟩, ?_⟩
      rintro rfl
      rw [he₀] at hlookup
      cases hlookup
      exact hempty (List.isEmpty_iff.mpr hnil)
  · rename_i hnone
    rw [hnone] at hnil
    refine ⟨⟨hlookup, hnil⟩, ?_⟩
    rintro rfl
    rw [hnone] at hlookup
    cases hlookup

/-- `removeHandler` empties the entry of its event only. -/
theorem empty_removeHandler {event event' : String} {id e : Nat}
    (h : (m.removeHandler event id).Empty event' e) :
    m.Empty event' e ∨ m.eventEntries.lookup event = some e := by
  obtain ⟨hlookup, hnil⟩ := h
  rw [(removeHandler_frame event id).1] at hlookup
  by_cases he : m.eventEntries.lookup event = some e
  · exact .inr he
  · refine .inl ⟨hlookup, ?_⟩
    cases he₀ : m.eventEntries.lookup event with
    | none =>
      unfold EventMap.removeHandler at hnil
      rw [he₀] at hnil
      exact hnil
    | some e₀ =>
      rw [List.eq_nil_iff_forall_not_mem] at hnil ⊢
      intro p hp
      refine hnil p ((mem_removeHandler he₀ e p).mpr ⟨hp, fun hee => ?_⟩)
      rw [hee] at he
      exact absurd he₀ he

end EventMap

/-! ## Calls of `off_by_handler_id` -/

/-- The call is between its first step and its last. -/
def OffCall.inProgress : OffCall → Bool
  | .checking _ _ | .removing _ => true
  | .idle | .done => false

namespace EventRegistry

open EventMap

variable {κ : Type} {D : DataTypes κ} {s s' : EventRegistry D}

/-- Every empty entry is some call's to look at, or to remove. -/
def Accounted (s : EventRegistry D) : Prop :=
  ∀ event e, s.Empty event e →
    ∃ k, s.calls k = .checking event e ∨ s.calls k = .removing event

/-- The steps that leave the calls where they are. -/
theorem Accounted.of_calls (h : Accounted s) (hc : s'.calls = s.calls)
    (he : ∀ event e, s'.Empty event e → s.Empty event e) : Accounted s' := by
  intro event e hempty
  rw [hc]
  exact h event e (he event e hempty)

theorem accounted_step {a : EventAction D} (h : step s a = some s') (hs : Sound s.toEventMap)
    (ha : Accounted s) : Accounted s' := by
  cases a with
  | on event t =>
    simp only [step] at h
    split at h <;> cases h
    exact ha.of_calls rfl fun _ _ => empty_on
  | off event =>
    simp only [step] at h
    split at h <;> cases h
    exact ha.of_calls rfl fun _ _ => empty_off
  | offByHandlerId k event id =>
    simp only [step] at h
    split at h
    · rename_i hidle
      have hkeep : ∀ event' e x, s.Empty event' e → ∃ j,
          Function.update s.calls k x j = .checking event' e ∨
            Function.update s.calls k x j = .removing event' := by
        intro event' e x hempty
        obtain ⟨j, hj⟩ := ha event' e hempty
        refine ⟨j, ?_⟩
        rw [Function.update_of_ne]
        · exact hj
        · rintro rfl
          rw [hidle] at hj
          rcases hj with hj | hj <;> cases hj
      split at h
      · rename_i e₀ he₀
        cases h
        intro event' e hempty
        rcases empty_removeHandler hempty with hempty' | he
        · exact hkeep event' e _ hempty'
        · -- the call that took the last handler out
          have hlookup : s.eventEntries.lookup event' = some e := by
            rw [← (removeHandler_frame (m := s.toEventMap) event id).1]
            exact hempty.1
          rw [hs.distinct event' event e hlookup he]
          rw [he₀] at he
          cases he
          exact ⟨k, .inl (Function.update_self ..)⟩
      · rename_i hnone
        cases h
        intro event' e hempty
        rcases empty_removeHandler hempty with hempty' | he
        · exact hkeep event' e _ hempty'
        · rw [hnone] at he
          cases he
    · cases h
  | checkEmpty k =>
    simp only [step] at h
    split at h
    · rename_i event₀ e₀ hk
      cases h
      intro event e hempty
      obtain ⟨j, hj⟩ := ha event e hempty
      refine ⟨j, ?_⟩
      dsimp only
      by_cases hjk : j = k
      · subst hjk
        rw [hk] at hj
        rcases hj with hj | hj <;> cases hj
        rw [Function.update_self, if_pos (List.isEmpty_iff.mpr hempty.2)]
        exact .inr rfl
      · rw [Function.update_of_ne hjk]
        exact hj
    · cases h
  | removeEntry k =>
    simp only [step] at h
    split at h
    · rename_i event₀ hk
      split at h <;> cases h
      intro event e hempty
      obtain ⟨hempty', hne⟩ := empty_removeEntry hempty
      obtain ⟨j, hj⟩ := ha event e hempty'
      refine ⟨j, ?_⟩
      dsimp only
      rw [Function.update_of_ne]
      · exact hj
      · rintro rfl
        rw [hk] at hj
        rcases hj with hj | hj <;> cases hj
        exact hne rfl
    · cases h
  | dispatch k event codec data =>
    simp only [step] at h
    split at h
    · split at h <;> cases h <;> exact ha.of_calls rfl fun _ _ hempty => hempty
    · cases h
  | run k =>
    simp only [step] at h
    split at h <;> cases h
    exact ha.of_calls rfl fun _ _ hempty => hempty

theorem accounted_of_reachable (h : (system D).Reachable s) (hid : s.nextHandlerId ≤ 2 ^ 32) :
    Accounted s := by
  induction h with
  | init =>
    rintro event e ⟨he, -⟩
    cases he
  | step hr _ hs ih =>
    have hid' := (step_ids hs).trans hid
    exact accounted_step hs ((invariant_of_reachable hr).sound hid') (ih hid')

/-! ## Registrations along a run -/

/-- The step takes back the registration with the id. -/
def unregisters (event : String) (id : Nat) : EventAction D → Bool
  | .off event' => event' = event
  | .offByHandlerId _ event' id' => event' = event && id' = id
  | _ => false

theorem live_on (m : EventMap D) (event event' : String) (t : D.TypeId) {id : Nat}
    (hid : id < m.nextHandlerId) : live id event' (m.on event t).log = live id event' m.log := by
  have hne : (m.nextHandlerId = id ∧ event = event') = False := by
    rw [eq_iff_iff, iff_false]
    rintro ⟨he, -⟩
    omega
  unfold EventMap.on
  split
  · split
    · rfl
    · change (_ && _ || live id event' m.log) = _
      rw [← Bool.decide_and]
      simp [hne]
  · change (_ && _ || live id event' m.log) = _
    rw [← Bool.decide_and]
    simp only [EventMap.insertEntry, hne, decide_false, Bool.false_or]

theorem live_step {a : EventAction D} (h : step s a = some s') (event : String) {id : Nat}
    (hid : id < s.nextHandlerId) (hid' : id < 2 ^ 32) :
    live id event s'.log = (!unregisters event id a && live id event s.log) := by
  cases a with
  | on event' t =>
    simp only [step] at h
    split at h <;> cases h
    exact live_on s.toEventMap event' event t hid
  | off event' =>
    simp only [step] at h
    split at h <;> cases h
    simp [EventMap.off, EventMap.note, live, unregisters]
  | offByHandlerId k event' id' =>
    simp only [step] at h
    have hlog : live id event (s.removeHandler event' id').log =
        (!unregisters event id (.offByHandlerId k event' id' : EventAction D) &&
          live id event s.log) := by
      rw [(removeHandler_frame event' id').2.2.2.1]
      simp only [live, unregisters, Nat.mod_eq_of_lt hid']
    split at h
    · split at h <;> cases h <;> exact hlog
    · cases h
  | checkEmpty k =>
    simp only [step] at h
    split at h <;> cases h
    simp [unregisters]
  | removeEntry k =>
    simp only [step] at h
    split at h
    · rename_i event' _
      split at h <;> cases h
      have hlog : (s.removeEntry event').log = s.log := by
        unfold EventMap.removeEntry
        split
        · split <;> rfl
        · rfl
      simp only [hlog, unregisters, Bool.not_false, Bool.true_and]
    · cases h
  | dispatch k event' codec data =>
    simp only [step] at h
    split at h
    · split at h <;> cases h <;> rfl
    · cases h
  | run k =>
    simp only [step] at h
    split at h <;> cases h
    rfl

/-- Along a run a registration stays until a step takes it back. -/
theorem live_since {later earlier : List (EventRegistry D × EventAction D)}
    {t t' : EventRegistry D} {a : EventAction D}
    (h : (system D).RunWhen (fun _ _ => True) (later ++ (t, a) :: earlier) s)
    (ht : step t a = some t') (event : String) {id : Nat} (hid : id < t'.nextHandlerId)
    (hfew : s.nextHandlerId ≤ 2 ^ 32) :
    t'.nextHandlerId ≤ s.nextHandlerId ∧
      live id event s.log =
        (later.all (fun p => !unregisters event id p.2) && live id event t'.log) := by
  induction later generalizing s with
  | nil =>
    cases h with
    | step _ _ hs =>
      obtain rfl : t' = s := Option.some.inj (ht.symm.trans hs)
      exact ⟨Nat.le_refl _, rfl⟩
  | cons p later ih =>
    cases h with
    | step hr _ hs =>
      have hmono := step_ids hs
      obtain ⟨hle, hlive⟩ := ih hr (hmono.trans hfew)
      refine ⟨hle.trans hmono, ?_⟩
      rw [live_step hs event (by omega) (by omega), hlive, List.all_cons, Bool.and_assoc]

theorem on_accepted {event : String} {ty : D.TypeId} (h : step s (.on event ty) = some s')
    (ha : s.Accepts event ty) :
    s'.nextHandlerId = s.nextHandlerId + 1 ∧ live s.nextHandlerId event s'.log = true := by
  simp only [step] at h
  split at h <;> cases h
  obtain ⟨hnext, hlog⟩ := on_of_accepts ha
  refine ⟨hnext, ?_⟩
  change live _ event (s.on event ty).log = true
  simp [hlog, live]

/-- The step registers a handler with the id and the payload type for the event. -/
def registers (event : String) (ty : D.TypeId) (id : Nat) (p : EventRegistry D × EventAction D) :
    Prop :=
  p.2 = .on event ty ∧ p.1.Accepts event ty ∧ p.1.nextHandlerId = id

/-- Only `on` hands out ids. -/
theorem step_quiet {a : EventAction D} (h : step s a = some s') (ha : a.isOn = false) :
    s'.nextHandlerId = s.nextHandlerId ∧ ∀ id event ty,
      .registered id event ty ∈ s'.log ↔ .registered id event ty ∈ s.log := by
  cases a with
  | on => cases ha
  | off event =>
    simp only [step] at h
    split at h <;> cases h
    exact ⟨rfl, fun id event' ty => by simp [EventMap.off, EventMap.note]⟩
  | offByHandlerId k event id =>
    obtain ⟨-, -, hnext, hlog, -⟩ := removeHandler_frame (m := s.toEventMap) event id
    have hmap : s'.toEventMap = s.removeHandler event id := by
      simp only [step] at h
      split at h
      · split at h <;> cases h <;> rfl
      · cases h
    rw [hmap, hnext, hlog]
    exact ⟨rfl, fun id event' ty => by simp⟩
  | checkEmpty k =>
    simp only [step] at h
    split at h <;> cases h
    exact ⟨rfl, fun _ _ _ => Iff.rfl⟩
  | removeEntry k =>
    simp only [step] at h
    split at h
    · rename_i event _
      split at h <;> cases h
      change (s.removeEntry event).nextHandlerId = _ ∧ ∀ id event' ty,
        .registered id event' ty ∈ (s.removeEntry event).log ↔ _
      unfold EventMap.removeEntry
      split
      · split <;> exact ⟨rfl, fun _ _ _ => Iff.rfl⟩
      · exact ⟨rfl, fun _ _ _ => Iff.rfl⟩
    · cases h
  | dispatch k event codec data =>
    simp only [step] at h
    split at h
    · split at h <;> cases h
      · exact ⟨rfl, fun _ _ _ => Iff.rfl⟩
      · exact ⟨rfl, fun id event' ty => by simp [EventMap.note]⟩
    · cases h
  | run k =>
    simp only [step] at h
    split at h <;> cases h
    exact ⟨rfl, fun id event' ty => by simp [EventMap.note]⟩

theorem registered_step {a : EventAction D} (h : step s a = some s') (event : String)
    (ty : D.TypeId) (id : Nat) : .registered id event ty ∈ s'.log ↔
      registers event ty id (s, a) ∨ .registered id event ty ∈ s.log := by
  cases ha : a.isOn with
  | false =>
    rw [(step_quiet h ha).2]
    refine (or_iff_right ?_).symm
    rintro ⟨rfl, -⟩
    cases ha
  | true =>
    cases a with
    | on event' ty' =>
      simp only [step] at h
      split at h <;> cases h
      change _ ∈ (s.on event' ty').log ↔ _
      unfold registers
      by_cases hacc : s.Accepts event' ty'
      · rw [(on_of_accepts hacc).2, List.mem_cons, RegistryEvent.registered.injEq,
          EventAction.on.injEq]
        refine or_congr_left ⟨?_, ?_⟩
        · rintro ⟨rfl, rfl, rfl⟩
          exact ⟨⟨rfl, rfl⟩, hacc, rfl⟩
        · rintro ⟨⟨rfl, rfl⟩, -, rfl⟩
          exact ⟨rfl, rfl, rfl⟩
      · rw [on_of_not_accepts hacc, EventAction.on.injEq]
        simp only [EventMap.note, List.mem_cons, reduceCtorEq, false_or]
        refine (or_iff_right ?_).symm
        rintro ⟨⟨rfl, rfl⟩, hacc', -⟩
        exact hacc hacc'
    | _ => cases ha

theorem ids_le_countP {l : List (EventRegistry D × EventAction D)}
    (h : (system D).RunWhen (fun _ _ => True) l s) :
    s.nextHandlerId ≤ l.countP fun p => p.2.isOn := by
  induction h with
  | init => exact Nat.zero_le _
  | @step l s s' a _ _ hs ih =>
    rw [List.countP_cons]
    cases ha : a.isOn with
    | false =>
      rw [(step_quiet hs ha).1]
      simpa using ih
    | true =>
      have hle : s'.nextHandlerId ≤ s.nextHandlerId + 1 := by
        cases a with
        | on event ty =>
          have hon : step s (.on event ty) = some s' := hs
          simp only [step] at hon
          split at hon <;> cases hon
          change (s.on event ty).nextHandlerId ≤ _
          by_cases hacc : s.Accepts event ty
          · rw [(on_of_accepts hacc).1]
          · rw [on_of_not_accepts hacc]
            exact Nat.le_succ _
        | _ => cases ha
      simp only [if_true]
      omega

/-- The registrations of the history are those of the run. -/
theorem registered_of_run {l : List (EventRegistry D × EventAction D)}
    (h : (system D).RunWhen (fun _ _ => True) l s) (event : String) (ty : D.TypeId) (id : Nat) :
    .registered id event ty ∈ s.log ↔ ∃ p ∈ l, registers event ty id p := by
  induction h with
  | init => simp [system, EventRegistry.new, EventMap.new]
  | step _ _ hs ih =>
    rw [registered_step hs, ih]
    simp

/-- A step of the run registers the handler and none after it takes it back. -/
def RegisteredAfter (event : String) (ty : D.TypeId) (id : Nat) :
    List (EventRegistry D × EventAction D) → Prop :=
  System.Lasting (registers event ty id) fun p => unregisters event id p.2 = true

/-- The handlers that have not been taken back are those that a step of the run registers and
none after it unregisters. -/
theorem live_of_run {l : List (EventRegistry D × EventAction D)}
    (h : (system D).RunWhen (fun _ _ => True) l s) (hid : s.nextHandlerId ≤ 2 ^ 32)
    (event : String) (ty : D.TypeId) (id : Nat) :
    (.registered id event ty ∈ s.log ∧ live id event s.log = true) ↔
      RegisteredAfter event ty id l := by
  refine h.lasting (P := fun s => .registered id event ty ∈ s.log ∧ live id event s.log = true)
    (by rintro ⟨⟨⟩, -⟩) fun t a t' ht hmem hs => ?_
  have hle := h.le_of_mem (f := fun s => s.nextHandlerId) (fun _ _ _ => step_ids) hmem hs
  have hle' : t.nextHandlerId ≤ t'.nextHandlerId := step_ids hs
  have hsound := (invariant_of_reachable ht).sound (by omega)
  rw [registered_step hs]
  by_cases hreg : registers event ty id (t, a)
  · obtain ⟨ha, hacc, hnext⟩ := hreg
    obtain rfl : a = .on event ty := ha
    have hlive := (on_accepted hs hacc).2
    rw [show t.nextHandlerId = id from hnext] at hlive
    simp [registers, hacc, hlive, show t.nextHandlerId = id from hnext]
  · simp only [hreg, false_or, Bool.not_eq_true]
    constructor
    · rintro ⟨hin, hlive⟩
      have hlt := hsound.fresh _ _ _ hin
      rw [live_step hs event hlt (by omega), Bool.and_eq_true, Bool.not_eq_true'] at hlive
      exact ⟨hlive.1, hin, hlive.2⟩
    · rintro ⟨hkeep, hin, hlive⟩
      have hlt := hsound.fresh _ _ _ hin
      rw [live_step hs event hlt (by omega), hkeep, hlive]
      exact ⟨hin, rfl⟩

/-- **No registration is lost and no empty entry is left.** In every history with fewer than
`2 ^ 32` calls of `on`: a handler that `on` has added is registered exactly as long as no `off`
of its event and no `off_by_handler_id` with its event and id comes; while no
`off_by_handler_id` is in progress every entry has a handler, and its handlers were registered
for its event with its payload type; and an `on` that the type assertion refuses changes
nothing. -/
theorem registrations_kept {l : List (EventRegistry D × EventAction D)}
    (h : (system D).RunWhen (fun _ _ => True) l s) (hfew : s.log.countP isOn < 2 ^ 32) :
    (∀ later t event ty earlier, l = later ++ (t, .on event ty) :: earlier → t.Accepts event ty →
      (s.Registered event t.nextHandlerId ↔
        ∀ p ∈ later, unregisters event t.nextHandlerId p.2 = false)) ∧
    ((∀ k, (s.calls k).inProgress = false) →
      ∀ event e, s.eventEntries.lookup event = some e → (s.entries e).handlers ≠ [] ∧
        ∀ p ∈ (s.entries e).handlers,
          .registered p.2.serial event (s.entries e).dataTypeId ∈ s.log) ∧
    ∀ event ty s', ¬ s.Accepts event ty → step s (.on event ty) = some s' →
      s' = { s with log := .refused event ty :: s.log } := by
  have hi := invariant_of_reachable h.reachableWhen
  have hid : s.nextHandlerId ≤ 2 ^ 32 :=
    hi.counted.trans ((countP_isRegistered_le _).trans hfew.le)
  have hsound := hi.sound hid
  refine ⟨?_, fun hdone event e he => ⟨fun hnil => ?_, fun p hp => ?_⟩, ?_⟩
  · rintro later t event ty earlier rfl hacc
    obtain ⟨t', ht⟩ := h.step_of_mem
    obtain ⟨hnext, hlive⟩ := on_accepted ht hacc
    have hlt : t.nextHandlerId < t'.nextHandlerId := by omega
    have hsince := (live_since h ht event hlt hid).2
    rw [hsound.registered_iff, hsince, hlive, Bool.and_true]
    simp
  · obtain ⟨k, hk⟩ := accounted_of_reachable h.reachableWhen hid event e ⟨he, hnil⟩
    have hk' := hdone k
    rcases hk with hk | hk <;> rw [hk] at hk' <;> cases hk'
  · obtain ⟨-, htype, event', hreg⟩ := hsound.typed e p hp
    obtain ⟨ty, hreg'⟩ := registered_of_live ((hsound.listed _ _).mpr ⟨e, he, p, hp, rfl⟩)
    obtain ⟨rfl, -⟩ := hsound.unique _ _ _ _ _ hreg hreg'
    rw [← htype]
    exact hreg
  · intro event ty s' hrefused hs
    simp only [step] at hs
    split at hs <;> cases hs
    rw [on_of_not_accepts hrefused]
    rfl

/-- Two types, the unit type and the type of byte strings, with a codec that copies. -/
def byteTypes : DataTypes Unit where
  TypeId := Bool
  decEq := inferInstance
  Value := fun t => if t then Bytes else Unit
  unit := false
  empty := ()
  decodeData := fun t _ bytes =>
    match t with
    | true => some bytes
    | false => if bytes = [] then some () else none

theorem registrations_kept_run : ∃ l s, (system byteTypes).RunWhen (fun _ _ => True) l s ∧
    s.Registered "ping" 0 := by
  -- the second handler is taken out; a removal for another event ends after a third came
  let S := system byteTypes
  let t : EventRegistry byteTypes := { (new : EventRegistry byteTypes) with
    toEventMap := EventMap.on .new "ping" true }
  let rest : List (EventAction byteTypes) := [.on "ping" true, .offByHandlerId 0 "ping" 1,
    .checkEmpty 0, .offByHandlerId 1 "pong" 0, .on "ping" true, .removeEntry 1]
  have hstep : S.step S.init (.on "ping" true) = some t := rfl
  have hfew : (S.exec t rest).map (fun s => decide (s.log.countP isOn < 2 ^ 32)) = some true := by
    decide +kernel
  have hkept : (S.trail t rest).all (fun p => !unregisters "ping" 0 p.2) = true := by
    decide +kernel
  obtain ⟨s, hexec, hs⟩ := Option.map_eq_some_iff.mp hfew
  have hrun := System.RunWhen.exec (.step .init trivial hstep) hexec
  refine ⟨_, s, hrun, ?_⟩
  have hregistered := (registrations_kept hrun (of_decide_eq_true hs)).1 (S.trail t rest) S.init
    "ping" true [] rfl (by rintro e ⟨⟩)
  refine hregistered.mpr fun p hp => ?_
  have hp' : unregisters "ping" 0 p.2 = false := by simpa using List.all_eq_true.mp hkept p hp
  exact hp'

end EventRegistry

end WsIo.Core
