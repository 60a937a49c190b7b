import WsIo.Core.RegistryAtomic

/-!
# What the calls of a registry leave behind

Lock by lock, `on` makes its change with the step that inserts the handler, and `off` and
`off_by_handler_id` make theirs with the step that takes handlers out. A call that returns has
made its step (`made_of_run`); once all have returned, the map is what these steps say in the
order they were made, whatever the calls did with the locks in between
(`EventRegistry.returned_map_exact`).
-/

namespace WsIo.Core

open Async

variable {κ : Type} {D : DataTypes κ}

/-! ## The steps that change the registrations -/

/-- A state of the registry, lock by lock, and the action taken in it. -/
abbrev LockStep (D : DataTypes κ) : Type :=
  LockState RegistryLock (EventMap D) (RegistryPc D) × LockAction (RegistryCall D)

/-- Where the thread stands that makes the step. -/
def LockStep.point (p : LockStep D) : Option (RegistryPc D) :=
  match p.2 with
  | .call _ => none
  | .advance k => (p.1.threads[k]?).map (·.pc)

namespace RegistryPc

/-- `on` has found its entry and inserts a handler. -/
def inserting : RegistryPc D → Bool
  | .onInsert .. => true
  | _ => false

/-- `on` inserts the handler with the id. -/
def inserts (event : String) (id : Nat) : RegistryPc D → Bool
  | .onInsert event' _ _ serial => event' = event && serial = id
  | _ => false

/-- `off` or `off_by_handler_id` takes the handler out. -/
def takesOut (event : String) (id : Nat) : RegistryPc D → Bool
  | .offRemove event' => event' = event
  | .idRemove event' id' _ => event' = event && id' = id
  | _ => false

end RegistryPc

/-- Some step of the run inserts the handler and none after it takes it out. -/
def StaysIn (event : String) (id : Nat) : List (LockStep D) → Prop :=
  System.Lasting (fun p => p.point.any (RegistryPc.inserts event id) = true)
    fun p => p.point.any (RegistryPc.takesOut event id) = true

instance StaysIn.decidable (event : String) (id : Nat) (l : List (LockStep D)) :
    Decidable (StaysIn event id l) := System.Lasting.decidable l

/-- Thread `k` makes the step from the point. -/
def LockStep.Makes (k : Nat) (pc : RegistryPc D) (p : LockStep D) : Prop :=
  p.2 = .advance k ∧ p.point = some pc

/-- Thread `k` has made the change that its call is for: `on` has inserted its handler or was
refused by the type assertion, `off` has removed the entry, `off_by_handler_id` has taken the
handler out or has found no entry. -/
def Made (k : Nat) (steps : List (LockStep D)) : RegistryCall D → Prop
  | .on event ty => ∃ p ∈ steps, (∃ e serial, LockStep.Makes k (.onInsert event e ty serial) p) ∨
      LockStep.Makes k (.onEntry event ty) p ∧ ¬ p.1.mem.Accepts event ty
  | .off event => ∃ p ∈ steps, LockStep.Makes k (.offRemove event) p
  | .offByHandlerId event id => ∃ p ∈ steps, (∃ e, LockStep.Makes k (.idRemove event id e) p) ∨
      LockStep.Makes k (.idGet event id) p ∧ p.1.mem.eventEntries.lookup event = none
  | .dispatch .. => True

/-- The call has its change still ahead of it. -/
inductive Ahead : RegistryCall D → RegistryPc D → Prop
  | onWrite (event : String) (ty : D.TypeId) : Ahead (.on event ty) (.onWrite event ty)
  | onEntry (event : String) (ty : D.TypeId) : Ahead (.on event ty) (.onEntry event ty)
  | onFetchAdd (event : String) (e : Nat) (ty : D.TypeId) :
      Ahead (.on event ty) (.onFetchAdd event e ty)
  | onWriteHandlers (event : String) (e : Nat) (ty : D.TypeId) (serial : Nat) :
      Ahead (.on event ty) (.onWriteHandlers event e ty serial)
  | onInsert (event : String) (e : Nat) (ty : D.TypeId) (serial : Nat) :
      Ahead (.on event ty) (.onInsert event e ty serial)
  | offWrite (event : String) : Ahead (.off event) (.offWrite event)
  | offRemove (event : String) : Ahead (.off event) (.offRemove event)
  | idRead (event : String) (id : Nat) : Ahead (.offByHandlerId event id) (.idRead event id)
  | idGet (event : String) (id : Nat) : Ahead (.offByHandlerId event id) (.idGet event id)
  | idWriteHandlers (event : String) (id e : Nat) :
      Ahead (.offByHandlerId event id) (.idWriteHandlers event id e)
  | idRemove (event : String) (id e : Nat) :
      Ahead (.offByHandlerId event id) (.idRemove event id e)

/-! ## Every call makes its change -/

theorem Made.later {k : Nat} {b : RegistryCall D} {steps : List (LockStep D)} {p : LockStep D}
    (h : Made k steps b) : Made k (p :: steps) b := by
  cases b with
  | on | off | offByHandlerId =>
    obtain ⟨q, hq, hmade⟩ := h
    exact ⟨q, List.mem_cons_of_mem _ hq, hmade⟩
  | dispatch => trivial

theorem ahead_enter (b : RegistryCall D) (k : Nat) (steps : List (LockStep D)) :
    Ahead b (.enter b) ∨ Made k steps b := by
  cases b with
  | on event ty => exact .inl (.onWrite event ty)
  | off event => exact .inl (.offWrite event)
  | offByHandlerId event id => exact .inl (.idRead event id)
  | dispatch => exact .inr trivial

theorem Ahead.after {b : RegistryCall D} {pc : RegistryPc D} (h : Ahead b pc)
    (hd : pc.demand ≠ .compute) : Ahead b pc.after := by
  cases h with
  | onWrite event ty => exact .onEntry event ty
  | onWriteHandlers event e ty serial => exact .onInsert event e ty serial
  | offWrite event => exact .offRemove event
  | idRead event id => exact .idGet event id
  | idWriteHandlers event id e => exact .idRemove event id e
  | onEntry | onFetchAdd | onInsert | offRemove | idGet | idRemove => exact absurd rfl hd

/-- A step on the memory leads to the change or makes it. -/
theorem Ahead.compute {b : RegistryCall D} {pc : RegistryPc D} (h : Ahead b pc)
    (hd : pc.demand = .compute) {k : Nat} {p : LockStep D} (hp : p.Makes k pc)
    (steps : List (LockStep D)) :
    Ahead b (pc.compute k p.1.mem).2 ∨ Made k (p :: steps) b := by
  cases h with
  | onEntry event ty =>
    simp only [RegistryPc.compute]
    split
    · rename_i e he
      split
      · rename_i hne
        refine .inr ⟨p, List.mem_cons_self, .inr ⟨hp, fun hacc => hne (hacc e he)⟩⟩
      · exact .inl (.onFetchAdd event e ty)
    · exact .inl (.onFetchAdd event _ ty)
  | onFetchAdd event e ty => exact .inl (.onWriteHandlers event e ty _)
  | onInsert event e ty serial => exact .inr ⟨p, List.mem_cons_self, .inl ⟨e, serial, hp⟩⟩
  | offRemove event => exact .inr ⟨p, List.mem_cons_self, hp⟩
  | idGet event id =>
    simp only [RegistryPc.compute]
    split
    · rename_i e _
      exact .inl (.idWriteHandlers event id e)
    · rename_i hnone
      exact .inr ⟨p, List.mem_cons_self, .inr ⟨hp, hnone⟩⟩
  | idRemove event id e => exact .inr ⟨p, List.mem_cons_self, .inl ⟨e, hp⟩⟩
  | onWrite | onWriteHandlers | offWrite | idRead | idWriteHandlers => cases hd

/-- A call of the run has its change ahead of it or has made it. -/
theorem made_of_run {later earlier : List (LockStep D)}
    {s u : LockState RegistryLock (EventMap D) (RegistryPc D)} {b : RegistryCall D}
    (h : (lockedRegistry D).RunWhen (fun _ _ => True) (later ++ (u, .call b) :: earlier) s) :
    ∃ th, s.threads[u.threads.length]? = some th ∧
      (Ahead b th.pc ∨ Made u.threads.length later b) := by
  induction later generalizing s with
  | nil =>
    cases h with
    | step _ _ hs =>
      cases hs
      exact ⟨⟨.enter b, false⟩, by simp [registryProgram], ahead_enter b _ _⟩
  | cons p later ih =>
    cases h with
    | @step _ v _ _ hr _ hs =>
      obtain ⟨th, ht, hth⟩ := ih hr
      obtain ⟨th', ht', hmove⟩ := LockProgram.step_thread hs ht
      refine ⟨th', ht', ?_⟩
      rcases hth with hahead | hmade
      · rcases hmove with hpc | ⟨rfl, ⟨hd, hpc⟩ | ⟨hd, hpc⟩⟩
        · exact .inl (hpc ▸ hahead)
        · have hmakes : LockStep.Makes u.threads.length th.pc (v, .advance u.threads.length) :=
            ⟨rfl, by simp [LockStep.point, ht]⟩
          exact hpc ▸ hahead.compute hd hmakes later
        · exact .inl (hpc ▸ hahead.after hd)
      · exact .inr hmade.later

/-! ## The history of the steps -/

open EventMap

namespace RegistryPc

/-- What a step on the memory does to the registrations that its history has not taken back. -/
theorem live_compute {pc : RegistryPc D} {k : Nat} {m : EventMap D} {event : String} {id : Nat}
    (hd : pc.demand = .compute) (hid : live id event m.log = true → id < 2 ^ 32)
    (hget : ∀ id', pc = .idGet event id' → m.eventEntries.lookup event = none →
      live id event m.log = false) :
    live id event (pc.compute k m).1.log = true ↔ pc.inserts event id = true ∨
      ¬ pc.takesOut event id = true ∧ live id event m.log = true := by
  have hremoved : ∀ event' id', live id event (.removed event' id' :: m.log) = true ↔
      ¬ (event' = event ∧ id' = id) ∧ live id event m.log = true := by
    intro event' id'
    by_cases hl : live id event m.log = true
    · exact live_removed (hid hl)
    · simp [live, hl]
  cases pc with
  | onEntry event' ty =>
    simp only [compute]
    split
    · split <;> simp [EventMap.note, live, inserts, takesOut]
    · simp [EventMap.insertEntry, inserts, takesOut]
  | onFetchAdd event' e ty => simp [compute, EventMap.fetchAdd, inserts, takesOut]
  | onInsert event' e ty serial =>
    simp [compute, EventMap.insertAt, EventMap.setHandlers, EventMap.note, live, inserts, takesOut,
      and_comm]
  | offRemove event' =>
    simp [compute, EventMap.off, EventMap.note, live, inserts, takesOut]
  | idGet event' id' =>
    simp only [compute]
    split
    · simp [inserts, takesOut]
    · rename_i hnone
      refine (hremoved event' id').trans ?_
      by_cases he : event' = event ∧ id' = id
      · obtain ⟨rfl, rfl⟩ := he
        simp [hget id' rfl hnone, inserts]
      · simp [he, inserts, takesOut]
  | idRemove event' id' e =>
    simp only [compute]
    exact (hremoved event' id').trans (by simp [inserts, takesOut])
  | idIsEmpty | idEntryRemove => simp [compute, EventMap.erase, inserts, takesOut]
  | idEntry event' =>
    simp only [compute]
    split <;> simp [inserts, takesOut]
  | idEntryIsEmpty => simp [compute, inserts, takesOut]
  | dispatchGet event' codec data =>
    simp only [compute]
    split <;> simp [EventMap.note, live, inserts, takesOut]
  | taskDecode event' e codec data =>
    simp only [compute]
    split <;> simp [EventMap.note, live, inserts, takesOut]
  | taskCollect e data => simp [compute, EventMap.note, live, inserts, takesOut]
  | _ => cases hd

theorem demand_of_inserting {pc : RegistryPc D} (h : pc.inserting = true) :
    pc.demand = .compute := by
  cases pc with
  | onInsert => rfl
  | _ => cases h

theorem demand_of_inserts {pc : RegistryPc D} {event : String} {id : Nat}
    (h : pc.inserts event id = true) : pc.demand = .compute := by
  cases pc with
  | onInsert => rfl
  | _ => cases h

theorem demand_of_takesOut {pc : RegistryPc D} {event : String} {id : Nat}
    (h : pc.takesOut event id = true) : pc.demand = .compute := by
  cases pc with
  | offRemove | idRemove => rfl
  | _ => cases h

/-- Only the insertion of a handler is noted as a registration. -/
theorem countP_compute {pc : RegistryPc D} {k : Nat} {m : EventMap D}
    (hd : pc.demand = .compute) : (pc.compute k m).1.log.countP isRegistered =
      m.log.countP isRegistered + if pc.inserting then 1 else 0 := by
  have hnoted : ∀ ev : RegistryEvent D, isRegistered ev = false →
      (ev :: m.log).countP isRegistered = m.log.countP isRegistered + 0 := fun ev hev =>
    List.countP_cons_of_neg (by simp [hev])
  cases pc with
  | onEntry event ty =>
    simp only [compute]
    split
    · split
      · exact hnoted _ rfl
      · rfl
    · rfl
  | onInsert event e ty serial => exact List.countP_cons_of_pos rfl
  | offRemove event => exact hnoted _ rfl
  | idGet event id =>
    simp only [compute]
    split
    · rfl
    · exact hnoted _ rfl
  | idRemove event id e => exact hnoted _ rfl
  | idEntry event =>
    simp only [compute]
    split <;> rfl
  | dispatchGet event codec data =>
    simp only [compute]
    split
    · exact hnoted _ rfl
    · rfl
  | taskDecode event e codec data =>
    simp only [compute]
    split
    · rfl
    · exact hnoted _ rfl
  | taskCollect e data => exact hnoted _ rfl
  | onFetchAdd | idIsEmpty | idEntryIsEmpty | idEntryRemove => rfl
  | _ => cases hd

end RegistryPc

variable {s s' : LockState RegistryLock (EventMap D) (RegistryPc D)}

/-- A step on the memory or none. -/
theorem step_point {a : LockAction (RegistryCall D)} (h : (lockedRegistry D).step s a = some s') :
    (∃ (k : Nat) (th : Thread (RegistryPc D)), s.threads[k]? = some th ∧
      LockStep.point (s, a) = some th.pc ∧ th.pc.demand = .compute ∧
      s'.mem = (th.pc.compute k s.mem).1) ∨
    (∀ pc, LockStep.point (s, a) = some pc → pc.demand ≠ .compute) ∧ s'.mem = s.mem := by
  rcases LockProgram.step_mem h with ⟨k, th, rfl, ht, hd, hm⟩ | ⟨hd, hm⟩
  · exact .inl ⟨k, th, ht, by simp [LockStep.point, ht], hd, hm⟩
  · refine .inr ⟨fun pc hpc => ?_, hm⟩
    cases a with
    | call b => cases hpc
    | advance k =>
      obtain ⟨th, ht, rfl⟩ := Option.map_eq_some_iff.mp hpc
      exact hd k th rfl ht

theorem any_point_eq_false {a : LockAction (RegistryCall D)} {f : RegistryPc D → Bool}
    (hf : ∀ pc, f pc = true → pc.demand = .compute)
    (hd : ∀ pc, LockStep.point (s, a) = some pc → pc.demand ≠ .compute) :
    (LockStep.point (s, a)).any f = false := by
  cases hp : LockStep.point (s, a) with
  | none => rfl
  | some pc =>
    rw [Option.any_some, Bool.eq_false_iff]
    exact fun hpc => hd pc hp (hf pc hpc)

theorem countP_step {a : LockAction (RegistryCall D)} (h : (lockedRegistry D).step s a = some s') :
    s'.mem.log.countP isRegistered = s.mem.log.countP isRegistered +
      if (LockStep.point (s, a)).any RegistryPc.inserting then 1 else 0 := by
  rcases step_point h with ⟨k, th, -, hp, hd, hm⟩ | ⟨hd, hm⟩
  · rw [hm, hp]
    exact RegistryPc.countP_compute hd
  · rw [hm, any_point_eq_false (fun pc hpc => RegistryPc.demand_of_inserting hpc) hd]
    rfl

/-- The registrations of the history are the insertions of the run. -/
theorem countP_of_run {l : List (LockStep D)}
    (h : (lockedRegistry D).RunWhen (fun _ _ => True) l s) :
    s.mem.log.countP isRegistered = l.countP fun p => p.point.any RegistryPc.inserting := by
  induction h with
  | init => rfl
  | step _ _ hs ih =>
    rw [countP_step hs, ih, List.countP_cons]

/-- What a step does to the registrations that have not been taken back. -/
theorem live_point_step (hr : (lockedRegistry D).Reachable s)
    (hfew : s.mem.log.countP isRegistered ≤ 2 ^ 32) {a : LockAction (RegistryCall D)}
    (h : (lockedRegistry D).step s a = some s') (event : String) (id : Nat) :
    live id event s'.mem.log = true ↔
      (LockStep.point (s, a)).any (RegistryPc.inserts event id) = true ∨
      ¬ (LockStep.point (s, a)).any (RegistryPc.takesOut event id) = true ∧
        live id event s.mem.log = true := by
  rcases step_point h with ⟨k, th, ht, hp, hd, hm⟩ | ⟨hd, hm⟩
  · obtain ⟨b, hb, href⟩ := exists_refines hr
    have hlog : b.log = s.mem.log := by
      obtain ⟨q, hq, -⟩ := href.mem
      rw [hq, q.ahead_log]
    have hi := EventRegistry.invariant_of_reachable hb
    have hid : b.nextHandlerId ≤ 2 ^ 32 := hi.counted.trans (hlog ▸ hfew)
    have hsound := hi.sound hid
    rw [hm, hp]
    refine RegistryPc.live_compute hd (fun hl => ?_) fun id' hpc hnone => ?_
    · obtain ⟨ty, hreg⟩ := registered_of_live hl
      have hlt := hsound.fresh _ _ _ (hlog ▸ hreg)
      omega
    · -- the read lock of the map shows the call the map of the section level
      have hk := LockProgram.kept_of_reachable RegistryPc.disciplined hr
      have hmem := href.mem_eq hk ht (by simp [hpc, RegistryPc.mapHold])
      rw [hpc] at hmem
      rw [Bool.eq_false_iff]
      intro hl
      obtain ⟨e, he, -⟩ := (hsound.listed _ _).mp (hlog ▸ hl)
      rw [hmem] at hnone
      exact absurd he (by rw [show b.eventEntries.lookup event = none from hnone]; simp)
  · rw [hm, any_point_eq_false (fun pc hpc => RegistryPc.demand_of_inserts hpc) hd,
      any_point_eq_false (fun pc hpc => RegistryPc.demand_of_takesOut hpc) hd]
    simp

/-- The registrations that have not been taken back are what the steps of the run say. -/
theorem staysIn_of_run {l : List (LockStep D)}
    (h : (lockedRegistry D).RunWhen (fun _ _ => True) l s)
    (hfew : s.mem.log.countP isRegistered ≤ 2 ^ 32) (event : String) (id : Nat) :
    live id event s.mem.log = true ↔ StaysIn event id l := by
  have hmono : ∀ t a t', (lockedRegistry D).step t a = some t' →
      t.mem.log.countP isRegistered ≤ t'.mem.log.countP isRegistered := by
    intro t a t' ht
    rw [countP_step ht]
    exact Nat.le_add_right _ _
  refine h.lasting (P := fun s => live id event s.mem.log = true)
    (by simp [lockedRegistry, LockProgram.system, EventMap.new, live]) ?_
  intro t a t' hr hin hs
  have hle := h.le_of_mem hmono hin hs
  exact live_point_step hr ((hmono _ _ _ hs).trans (hle.trans hfew)) hs event id

/-- When all calls have returned, the map is that of the section level, and none of its calls
is in progress. -/
theorem Refines.returned {a : EventRegistry D} (h : Refines s a)
    (hret : ∀ th ∈ s.threads, ∃ result, th.pc = .returned result) :
    s.mem = a.toEventMap ∧ ∀ k, (a.calls k).inProgress = false := by
  refine ⟨?_, fun k => ?_⟩
  · obtain ⟨q, hq, hfrom, -⟩ := h.mem
    cases hi : q.installs with
    | false => rw [hq, RegistryPc.ahead_of_not_installs hi]
    | true =>
      obtain ⟨t, th, ht, rfl⟩ := hfrom hi
      obtain ⟨result, hpc⟩ := hret th (List.mem_of_getElem? ht)
      rw [hpc] at hi
      cases hi
  · by_cases hlt : k < s.threads.length
    · have ht : s.threads[k]? = some s.threads[k] := List.getElem?_eq_getElem hlt
      obtain ⟨result, hpc⟩ := hret _ (List.getElem_mem hlt)
      exact h.past k _ ht (by rw [hpc]; rfl)
    · rw [(h.idle k (Nat.le_of_not_lt hlt)).1]
      rfl

namespace EventRegistry

/-- **What the calls leave behind.** Once every call of a run has returned, with at most
`2 ^ 32` handlers registered in it: a handler is in the map exactly if some `on` has inserted it
and no `off` or `off_by_handler_id` has taken it out after that, an event without such a
handler has no entry, and every call has made its own insertion or removal. -/
theorem returned_map_exact {κ : Type} {D : DataTypes κ} {l : List (LockStep D)}
    {s : LockState RegistryLock (EventMap D) (RegistryPc D)}
    (h : (lockedRegistry D).RunWhen (fun _ _ => True) l s)
    (hret : ∀ th ∈ s.threads, ∃ result, th.pc = .returned result)
    (hfew : (l.countP fun p => p.point.any RegistryPc.inserting) ≤ 2 ^ 32) :
    (∀ event id, s.mem.Registered event id ↔ StaysIn event id l) ∧
    (∀ event, (∃ e, s.mem.eventEntries.lookup event = some e) ↔ ∃ id, StaysIn event id l) ∧
    ∀ later u b earlier, l = later ++ (u, .call b) :: earlier →
      Made u.threads.length later b := by
  obtain ⟨a, ha, href⟩ := exists_refines h.reachableWhen
  obtain ⟨hmem, hover⟩ := href.returned hret
  rw [← countP_of_run h] at hfew
  have hlive := staysIn_of_run h hfew
  have hi := invariant_of_reachable ha
  have hid : a.nextHandlerId ≤ 2 ^ 32 := by
    rw [hmem] at hfew
    exact hi.counted.trans hfew
  have hsound := hi.sound hid
  rw [hmem] at hlive ⊢
  refine ⟨fun event id => (hsound.registered_iff event id).trans (hlive event id),
    fun event => ⟨?_, ?_⟩, ?_⟩
  · rintro ⟨e, he⟩
    -- an entry without handlers would be some call's to remove
    have hne : (a.entries e).handlers ≠ [] := by
      intro hnil
      obtain ⟨k, hcall⟩ := accounted_of_reachable ha hid event e ⟨he, hnil⟩
      have hdone := hover k
      rcases hcall with hcall | hcall <;> rw [hcall] at hdone <;> cases hdone
    obtain ⟨p, hp⟩ := List.exists_mem_of_ne_nil _ hne
    exact ⟨p.2.serial, (hlive _ _).mp ((hsound.listed _ _).mpr ⟨e, he, p, hp, rfl⟩)⟩
  · rintro ⟨id, hstays⟩
    obtain ⟨e, he, -⟩ := (hsound.listed _ _).mp ((hlive _ _).mpr hstays)
    exact ⟨e, he⟩
  · rintro later u b earlier rfl
    obtain ⟨th, ht, hahead | hmade⟩ := made_of_run h
    · obtain ⟨result, hpc⟩ := hret th (List.mem_of_getElem? ht)
      rw [hpc] at hahead
      cases hahead
    · exact hmade

/-- A second handler is being registered while `off_by_handler_id` takes out the first. -/
theorem returned_map_exact_run :
    ∃ l, ∃ s : LockState RegistryLock (EventMap byteTypes) (RegistryPc byteTypes),
      (lockedRegistry byteTypes).RunWhen (fun _ _ => True) l s ∧ s.mem.Registered "ping" 1 ∧
      ¬ s.mem.Registered "ping" 0 ∧ ∃ e, s.mem.eventEntries.lookup "ping" = some e := by
  obtain ⟨l, s, hrun, hret, hl⟩ := System.exists_run_of_exec (S := lockedRegistry byteTypes)
    (l := List.flatten [[.call (.on "ping" true)], List.replicate 9 (.advance 0),
      [.call (.offByHandlerId "ping" 0), .call (.on "ping" true), .advance 1, .advance 2],
      List.replicate 9 (.advance 1), List.replicate 8 (.advance 2), List.replicate 7 (.advance 1)])
    (p := fun s => s.threads.all fun th => th.pc.isReturned)
    (q := fun l => decide (StaysIn "ping" 1 l) && !decide (StaysIn "ping" 0 l) &&
      decide ((l.countP fun p => (LockStep.point p).any RegistryPc.inserting) ≤ 2 ^ 32)) (by decide +kernel)
  simp only [Bool.and_eq_true, Bool.not_eq_true', decide_eq_true_eq, decide_eq_false_iff_not] at hl
  obtain ⟨⟨hstays, hgone⟩, hfew⟩ := hl
  obtain ⟨hreg, hentry, -⟩ := returned_map_exact hrun
    (fun th hth => RegistryPc.isReturned_iff.mp (List.all_eq_true.mp hret th hth)) hfew
  exact ⟨l, s, hrun, (hreg _ _).mpr hstays, fun h => hgone ((hreg _ _).mp h),
    (hentry _).mpr ⟨1, hstays⟩⟩

end EventRegistry

end WsIo.Core
