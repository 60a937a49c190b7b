import WsIo.Core.Registrations

/-!
# What a dispatch calls

A dispatch captures the entry of its event; its task decodes the payload and reads the
handlers of that entry whenever it runs, which may be after the event was removed and
registered again with another type. It calls the right handlers with the right data all the
same (`dispatch_calls_registered`).
-/

namespace WsIo.Core

open Async

namespace EventRegistry

open EventMap

variable {κ : Type} {D : DataTypes κ} {s s' : EventRegistry D}

/-! ## The task of a dispatch -/

/-- A task that has begun changes only when it runs. -/
theorem step_task {a : EventAction D} (h : step s a = some s') {k : Nat}
    (hk : s.tasks k ≠ .idle) :
    s'.tasks k = s.tasks k ∨ a = .run k ∧ s'.tasks k = .done := by
  cases a with
  | on event t | off event | checkEmpty j =>
    simp only [step] at h
    split at h <;> cases h
    exact .inl rfl
  | offByHandlerId j event id =>
    simp only [step] at h
    split at h
    · split at h <;> cases h <;> exact .inl rfl
    · cases h
  | removeEntry j =>
    simp only [step] at h
    split at h
    · split at h <;> cases h
      exact .inl rfl
    · cases h
  | dispatch j event codec data =>
    simp only [step] at h
    split at h
    · rename_i hidle
      have hne : k ≠ j := by
        rintro rfl
        exact hk hidle
      split at h <;> cases h <;> exact .inl (Function.update_of_ne hne ..)
    · cases h
  | run j =>
    simp only [step] at h
    split at h <;> cases h
    by_cases hkj : k = j
    · subst hkj
      exact .inr ⟨rfl, Function.update_self ..⟩
    · exact .inl (Function.update_of_ne hkj ..)

/-- Until it runs, the task has the entry, the codec and the data of its dispatch. -/
theorem task_since {later earlier : List (EventRegistry D × EventAction D)} {t : EventRegistry D}
    {k : Nat} {event : String} {codec : κ} {data : Option Bytes}
    (h : (system D).RunWhen (fun _ _ => True) (later ++ (t, .dispatch k event codec data) :: earlier) s)
    (hid : s.nextHandlerId ≤ 2 ^ 32) :
    s.tasks k = .done ∧ (t.eventEntries.lookup event = none ∨ ∃ p ∈ later, p.2 = .run k) ∨
      ∃ e, s.tasks k = .pending event e codec data ∧ t.eventEntries.lookup event = some e ∧
        Captured s.toEventMap event e t.log := by
  induction later generalizing s with
  | nil =>
    cases h with
    | step hr _ hs =>
      have hdispatch : step t (.dispatch k event codec data) = some s := hs
      have hids := (step_ids hdispatch).trans hid
      simp only [step] at hdispatch
      split at hdispatch
      · split at hdispatch <;> cases hdispatch
        · rename_i hnone
          exact .inl ⟨Function.update_self .., .inl hnone⟩
        · rename_i e he
          have hsound := (invariant_of_reachable hr.reachableWhen).sound hids
          exact .inr ⟨e, Function.update_self .., he, (hsound.captured he).note fun _ _ => rfl⟩
      · cases hdispatch
  | cons p later ih =>
    cases h with
    | step hr _ hs =>
      have hids := (step_ids hs).trans hid
      have hsound := (invariant_of_reachable hr.reachableWhen).sound hids
      rcases ih hr hids with ⟨hdone, hwhy⟩ | ⟨e, hpending, he, hcap⟩
      · refine .inl ⟨?_, hwhy.imp_right ?_⟩
        · rcases step_task hs (k := k) (by simp [hdone]) with hsame | ⟨-, hdone'⟩
          · rw [hsame, hdone]
          · exact hdone'
        · rintro ⟨q, hq, hrun⟩
          exact ⟨q, List.mem_cons_of_mem _ hq, hrun⟩
      · rcases step_task hs (k := k) (by simp [hpending]) with hsame | ⟨hrun, hdone⟩
        · refine .inr ⟨e, hsame.trans hpending, he, ?_⟩
          exact (step_mapKept hs).captured event e _ hid hsound hcap
        · exact .inl ⟨hdone, .inr ⟨_, List.mem_cons_self, hrun⟩⟩

/-! ## What a task calls -/

/-- The data for a handler of type `t`: the decoded payload, or the unit value if there is
no payload. -/
def payload (t : D.TypeId) (codec : κ) : Option Bytes → Option (AnyArc D)
  | some bytes => (D.decodeData t codec bytes).map fun v => ⟨t, v⟩
  | none => if t = D.unit then some ⟨D.unit, D.empty⟩ else none

/-- A handler is started with data of its own type, and skips other data. -/
theorem call_eq (h : EventHandler D) (data : AnyArc D) :
    h.call data = if data.typeId = h.dataTypeId then .started data else .skipped := by
  unfold EventHandler.call AnyArc.downcast
  by_cases ht : data.typeId = h.dataTypeId
  · obtain ⟨t, v⟩ := data
    obtain ⟨serial, t'⟩ := h
    dsimp only at ht
    subst ht
    simp
  · simp [ht]

theorem runTask_started {entry : EventEntry D}
    (hd : entry.dataDecoder = decodeDataAsAnyArc entry.dataTypeId)
    (ht : ∀ p ∈ entry.handlers, p.2.dataTypeId = entry.dataTypeId) {codec : κ} {data : Option Bytes}
    {d : AnyArc D} (hp : payload entry.dataTypeId codec data = some d) :
    entry.runTask codec data = entry.handlers.map fun p => (p.2.serial, .started d) := by
  have htype : d.typeId = entry.dataTypeId := by
    cases data with
    | some bytes =>
      obtain ⟨v, -, rfl⟩ := Option.map_eq_some_iff.mp hp
      rfl
    | none =>
      simp only [payload] at hp
      split at hp <;> cases hp
      exact Eq.symm ‹_›
  have hcalls : (entry.handlers.map fun p => (p.2.serial, p.2.call d)) =
      entry.handlers.map fun p => (p.2.serial, .started d) := by
    refine List.map_congr_left fun p hmem => ?_
    rw [call_eq, if_pos (htype.trans (ht p hmem).symm)]
  cases data with
  | some bytes =>
    simp only [EventEntry.runTask, hd]
    rw [show decodeDataAsAnyArc entry.dataTypeId codec bytes = some d from hp]
    exact hcalls
  | none =>
    simp only [payload] at hp
    split at hp <;> cases hp
    exact hcalls

theorem runTask_skipped {entry : EventEntry D}
    (hd : entry.dataDecoder = decodeDataAsAnyArc entry.dataTypeId)
    (ht : ∀ p ∈ entry.handlers, p.2.dataTypeId = entry.dataTypeId) {codec : κ} {data : Option Bytes}
    (hp : payload entry.dataTypeId codec data = none) {q : Nat × Invocation D}
    (hq : q ∈ entry.runTask codec data) : q.2 = .skipped := by
  cases data with
  | some bytes =>
    simp only [EventEntry.runTask, hd] at hq
    rw [show decodeDataAsAnyArc entry.dataTypeId codec bytes = none from hp] at hq
    cases hq
  | none =>
    have hne : entry.dataTypeId ≠ D.unit := by
      intro he
      simp [payload, he] at hp
    obtain ⟨p, hmem, rfl⟩ := List.mem_map.mp hq
    dsimp only
    rw [call_eq, if_neg]
    rw [ht p hmem]
    exact Ne.symm hne

/-- Every handler of the entry is called once. -/
theorem calls_of_handler {handlers : List (Nat × EventHandler D)}
    (hn : (handlers.map (·.2.serial)).Nodup) {p : Nat × EventHandler D} (hp : p ∈ handlers)
    (x : Invocation D) :
    (handlers.map fun p => (p.2.serial, x)).filter (fun q => q.1 = p.2.serial) =
      [(p.2.serial, x)] := by
  induction handlers with
  | nil => cases hp
  | cons q handlers ih =>
    rw [List.map_cons, List.nodup_cons] at hn
    rw [List.map_cons, List.filter_cons]
    rcases List.mem_cons.mp hp with rfl | hp
    · have hnone : (handlers.map fun q => (q.2.serial, x)).filter (fun q => q.1 = p.2.serial) =
          [] := by
        rw [List.filter_eq_nil_iff]
        intro r hr
        obtain ⟨q, hq, rfl⟩ := List.mem_map.mp hr
        rw [decide_eq_true_eq]
        intro he
        exact hn.1 (he ▸ List.mem_map_of_mem hq)
      rw [if_pos (decide_eq_true rfl), hnone]
    · have hne : q.2.serial ≠ p.2.serial := by
        intro he
        exact hn.1 (he ▸ List.mem_map_of_mem hp)
      rw [if_neg (by simpa using hne)]
      exact ih hn.2 hp

section Captured

variable {m : EventMap D} {event : String} {e : Nat} {past : List (RegistryEvent D)} {codec : κ}
  {data : Option Bytes}

/-- The handlers of an entry have its type. -/
theorem types_of_sound (h : Sound m) (e : Nat) :
    ∀ p ∈ (m.entries e).handlers, p.2.dataTypeId = (m.entries e).dataTypeId :=
  fun p hp => (h.typed e p hp).2.1

/-- A handler that was there at the dispatch and still is gets the decoded payload once. -/
theorem calls_once (h : Sound m) (hc : Captured m event e past) {id : Nat} {ty : D.TypeId}
    {d : AnyArc D} (hr : .registered id event ty ∈ past) (hpast : live id event past = true)
    (hl : live id event m.log = true) (hp : payload ty codec data = some d) :
    ((m.entries e).runTask codec data).filter (fun q => q.1 = id) = [(id, .started d)] := by
  obtain rfl := hc.type id ty hpast hr
  obtain ⟨e', he', p, hmem, rfl⟩ := (h.listed id event).mp hl
  rw [hc.current _ hpast hl] at he'
  cases he'
  rw [runTask_started (h.decoder e) (types_of_sound h e) hp]
  exact calls_of_handler (h.keys e) hmem _

/-- A handler that is started was registered for the event, with a type that the payload
decodes to, and not taken back before the dispatch. -/
theorem calls_started (h : Sound m) (hc : Captured m event e past) {id : Nat} {d : AnyArc D}
    (hq : (id, .started d) ∈ (m.entries e).runTask codec data) :
    ∃ ty, .registered id event ty ∈ m.log ∧ payload ty codec data = some d ∧
      ∀ ev t, .registered id ev t ∈ past → live id event past = true := by
  cases hp : payload (m.entries e).dataTypeId codec data with
  | none => cases runTask_skipped (h.decoder e) (types_of_sound h e) hp hq
  | some d' =>
    rw [runTask_started (h.decoder e) (types_of_sound h e) hp] at hq
    obtain ⟨p, hmem, hpq⟩ := List.mem_map.mp hq
    cases hpq
    obtain ⟨-, htype, event', hr'⟩ := h.typed e p hmem
    obtain ⟨ty, hr⟩ := hc.handlers p hmem
    obtain ⟨-, rfl⟩ := h.unique _ _ _ _ _ hr' hr
    refine ⟨_, hr, htype ▸ hp, fun ev t hin => ?_⟩
    exact (hc.kept p hmem).resolve_right fun hnot => hnot ev t hin

theorem calls_undecoded (h : Sound m) (hc : Captured m event e past) {id : Nat} {ty : D.TypeId}
    (hr : .registered id event ty ∈ past) (hpast : live id event past = true)
    (hp : payload ty codec data = none) {q : Nat × Invocation D}
    (hq : q ∈ (m.entries e).runTask codec data) : q.2 = .skipped := by
  obtain rfl := hc.type id ty hpast hr
  exact runTask_skipped (h.decoder e) (types_of_sound h e) hp hq

theorem calls_not_panicked (h : Sound m) {q : Nat × Invocation D}
    (hq : q ∈ (m.entries e).runTask codec data) : q.2 ≠ .panicked := by
  cases hp : payload (m.entries e).dataTypeId codec data with
  | none =>
    rw [runTask_skipped (h.decoder e) (types_of_sound h e) hp hq]
    simp
  | some d =>
    rw [runTask_started (h.decoder e) (types_of_sound h e) hp] at hq
    obtain ⟨p, -, rfl⟩ := List.mem_map.mp hq
    simp

end Captured

/-- **A dispatch calls exactly the registered handlers.** In every run of a registry with
fewer than `2 ^ 32` calls of `on`, for every dispatch of it: if a handler is registered for
the event at the dispatch, then the task waits until it runs. When it runs, a handler that
is registered for the event at the dispatch and not taken back since is called exactly once,
with the payload decoded as its type, if it decodes so or if there is none and the type is
the unit type. Every handler that is started was registered by a call of `on` of the run,
which was for this event and with a type that the payload decodes to, and which, if it came
before the dispatch, was not taken back before it. Nothing is started if the payload does
not decode as the type of the event, and no downcast fails. -/
theorem dispatch_calls_registered {κ : Type} {D : DataTypes κ} {s : EventRegistry D}
    {l : List (EventRegistry D × EventAction D)} (h : (system D).RunWhen (fun _ _ => True) l s)
    (hfew : (l.countP fun p => p.2.isOn) < 2 ^ 32)
    {later earlier : List (EventRegistry D × EventAction D)} {t : EventRegistry D} {k : Nat}
    {event : String} {codec : κ} {data : Option Bytes}
    (hl : l = later ++ (t, .dispatch k event codec data) :: earlier) :
    ((∃ ty id, RegisteredAfter event ty id earlier) → (∀ p ∈ later, p.2 ≠ .run k) →
      ∃ s', step s (.run k) = some s') ∧
    ∀ s', step s (.run k) = some s' → ∃ calls, s'.log = .ran k calls :: s.log ∧
      (∀ ty id d, RegisteredAfter event ty id earlier →
        (∀ p ∈ later, unregisters event id p.2 = false) → payload ty codec data = some d →
          calls.filter (fun q => q.1 = id) = [(id, .started d)]) ∧
      (∀ id d, (id, .started d) ∈ calls →
        (∃ ev ty, ∃ p ∈ l, registers ev ty id p) ∧
        ∀ ev ty, ∀ p ∈ l, registers ev ty id p → ev = event ∧ payload ty codec data = some d ∧
          (p ∈ earlier → RegisteredAfter ev ty id earlier)) ∧
      (∀ ty id, RegisteredAfter event ty id earlier → payload ty codec data = none →
        ∀ q ∈ calls, ∀ d, q.2 ≠ .started d) ∧
      ∀ q ∈ calls, q.2 ≠ .panicked := by
  have hid : s.nextHandlerId ≤ 2 ^ 32 := (ids_le_countP h).trans hfew.le
  have hlog := registered_of_run h
  have hlive := live_of_run h hid
  subst hl
  have hpast := h.before
  obtain ⟨t', ht⟩ := h.step_of_mem
  have hid' : t.nextHandlerId ≤ 2 ^ 32 := by
    have hle := h.le_of_mem (f := fun s => s.nextHandlerId) (fun _ _ _ => step_ids) (by simp) ht
    have hdispatch : step t (.dispatch k event codec data) = some t' := ht
    exact (step_ids hdispatch).trans (hle.trans hid)
  have hlogPast := registered_of_run hpast
  have hlivePast := live_of_run hpast hid'
  have hsoundPast := (invariant_of_reachable hpast.reachableWhen).sound hid'
  have hsound := (invariant_of_reachable h.reachableWhen).sound hid
  refine ⟨?_, fun s' hs => ?_⟩
  · rintro ⟨ty, id, hreg⟩ hwait
    obtain ⟨-, hl⟩ := (hlivePast event ty id).mpr hreg
    obtain ⟨e, he, -⟩ := (hsoundPast.listed id event).mp hl
    rcases task_since h hid with ⟨-, hnone | ⟨p, hp, hrun⟩⟩ | ⟨e, hk, -⟩
    · rw [he] at hnone
      cases hnone
    · exact absurd hrun (hwait p hp)
    · simp [step, hk]
  · rcases task_since h hid with ⟨hdone, -⟩ | ⟨e, hk, he, hcap⟩
    · simp [step, hdone] at hs
    simp only [step, hk, Option.some.injEq] at hs
    subst hs
    refine ⟨_, rfl, fun ty id d hreg hkept hp => ?_, fun id d hq => ?_,
      fun ty id hreg hp q hq d hqd => ?_, fun q hq => calls_not_panicked hsound hq⟩
    · obtain ⟨hr, hlPast⟩ := (hlivePast event ty id).mpr hreg
      have hnow : RegisteredAfter event ty id
          (later ++ (t, .dispatch k event codec data) :: earlier) := by
        refine System.Lasting.append (.inr ⟨by simp [unregisters], hreg⟩) fun p hmem => ?_
        simp [hkept p hmem]
      exact calls_once hsound hcap hr hlPast ((hlive event ty id).mpr hnow).2 hp
    · obtain ⟨ty, hr, hp, hpastLive⟩ := calls_started hsound hcap hq
      refine ⟨⟨event, ty, (hlog _ _ _).mp hr⟩, fun ev ty' q hql hreg => ?_⟩
      -- an id belongs to one call of `on`
      obtain ⟨rfl, rfl⟩ := hsound.unique _ _ _ _ _ hr ((hlog ev ty' _).mpr ⟨q, hql, hreg⟩)
      refine ⟨rfl, hp, fun hearlier => ?_⟩
      have hrPast := (hlogPast _ _ _).mpr ⟨q, hearlier, hreg⟩
      exact (hlivePast _ _ _).mp ⟨hrPast, hpastLive _ _ hrPast⟩
    · obtain ⟨hr, hlPast⟩ := (hlivePast event ty id).mpr hreg
      rw [calls_undecoded hsound hcap hr hlPast hp hq] at hqd
      cases hqd

theorem dispatch_calls_registered_run :
    ∃ l, ∃ s s' : EventRegistry byteTypes, ∃ calls,
      (system byteTypes).RunWhen (fun _ _ => True) l s ∧ step s (.run 0) = some s' ∧
      s'.log = .ran 0 calls :: s.log ∧
      calls.filter (fun q => q.1 = 0) = [(0, .started ⟨true, ([] : Bytes)⟩)] := by
  -- a second handler comes and goes before the task runs
  let S := system byteTypes
  let t : EventRegistry byteTypes := { (new : EventRegistry byteTypes) with
    toEventMap := EventMap.on .new "ping" true }
  let dispatch : EventAction byteTypes := .dispatch 0 "ping" () (some [])
  let rest : List (EventAction byteTypes) := [.on "ping" true, .on "pong" false,
    .offByHandlerId 0 "ping" 1, .checkEmpty 0]
  have hfirst : S.step S.init (.on "ping" true) = some t := rfl
  have hexec : ((S.step t dispatch).bind fun u => S.exec u rest).isSome = true := by
    decide +kernel
  obtain ⟨s, hs⟩ := Option.isSome_iff_exists.mp hexec
  obtain ⟨u, hu, hs⟩ := Option.bind_eq_some_iff.mp hs
  have hrun := System.RunWhen.exec (.step (.step .init trivial hfirst) trivial hu) hs
  have hreg : RegisteredAfter "ping" (D := byteTypes) true 0 [(S.init, .on "ping" true)] :=
    .inl ⟨rfl, by rintro e ⟨⟩, rfl⟩
  have hfew : ((S.trail u rest ++ [(t, dispatch), (S.init, .on "ping" true)]).countP
      fun p => p.2.isOn) < 2 ^ 32 := by
    have hlength : (S.trail u rest).length ≤ 4 := S.length_trail_le u rest
    refine List.countP_le_length.trans_lt ?_
    simp only [List.length_append, List.length_cons, List.length_nil]
    omega
  obtain ⟨hwaits, hcalls⟩ := dispatch_calls_registered hrun hfew rfl
  have hlater : ∀ p ∈ S.trail u rest, p.2 ≠ .run 0 ∧ unregisters "ping" 0 p.2 = false := by
    intro p hp
    have hmem := System.mem_trail hp
    simp only [rest, List.mem_cons, List.not_mem_nil, or_false] at hmem
    rcases hmem with h | h | h | h <;> rw [h] <;> simp [unregisters]
  obtain ⟨s', hstep⟩ := hwaits ⟨true, 0, hreg⟩ fun p hp => (hlater p hp).1
  obtain ⟨calls, hlog, hcalled, -⟩ := hcalls s' hstep
  exact ⟨_, s, s', calls, hrun, hstep, hlog,
    hcalled true 0 _ hreg (fun p hp => (hlater p hp).2) rfl⟩

end EventRegistry

end WsIo.Core
