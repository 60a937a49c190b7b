import WsIo.Core.RegistryRefinement

/-!
# The registry lock by lock refines the registry by sections

`EventRegistry.sections_atomic`: what the calls of a registry reach lock by lock is reached
by whole sections, with the same history.
-/

namespace WsIo.Core

open Async

variable {κ : Type} {D : DataTypes κ} {a : EventRegistry D} {k : Nat}

/-! ## Simulation -/

variable {s s' : LockState RegistryLock (EventMap D) (RegistryPc D)}

/-- A step on a lock does not change what a call says. -/
theorem agrees_after {pc : RegistryPc D} (hp : Agrees a k pc) : Agrees a k pc.after := by
  cases pc with
  | onInserted event e t serial => exact ⟨serial, event, t, hp, rfl⟩
  | idDrop event again =>
    cases again with
    | true => exact hp
    | false => trivial
  | idEntryChecked event e isEmpty =>
    cases isEmpty with
    | true => exact hp rfl
    | false => trivial
  | dispatchDrop event codec data entry =>
    cases entry with
    | none => trivial
    | some e => exact hp e rfl
  | unlock result =>
    cases result with
    | none => trivial
    | some id => exact hp
  | onWrite | offWrite | taskCollected => trivial
  | _ => exact hp

/-- The locks of the map keep the other calls apart from one that has it. -/
theorem apart (hk : (registryProgram D).Kept RegistryPc.holds s) {t u : Nat}
    {th x : Thread (RegistryPc D)} (ht : s.threads[t]? = some th) (hu : s.threads[u]? = some x)
    (hne : u ≠ t) (hw : x.pc.mapHold = .write) : th.pc.mapHold = .free := by
  cases hth : th.pc.mapHold with
  | free => rfl
  | read => exact absurd hth (hk.no_reader (l := .eventEntries) hu ht hw)
  | write => exact absurd (hk.writer_unique (l := .eventEntries) hu ht hw hth) hne

theorem Refines.next (hk : (registryProgram D).Kept RegistryPc.holds s) (h : Refines s a)
    {t : Nat} {th th' : Thread (RegistryPc D)} (ht : s.threads[t]? = some th)
    (hthreads : s'.threads = s.threads.set t th') {a' : EventRegistry D}
    (hf : Follows a t th.pc.mapHold th'.pc a')
    (hmem : (th.pc.mapHold ≠ .free ∧ s'.mem = th'.pc.ahead a'.toEventMap) ∨
      (th.pc.installs = false ∧ th'.pc.installs = false ∧
        ∀ q : RegistryPc D, s.mem = q.ahead a.toEventMap → s'.mem = q.ahead a'.toEventMap)) :
    Refines s' a' := by
  have hlt : t < s.threads.length := (List.getElem?_eq_some_iff.mp ht).1
  have hself : s'.threads[t]? = some th' := by rw [hthreads, List.getElem?_set_self hlt]
  have hother : ∀ u ≠ t, s'.threads[u]? = s.threads[u]? := by
    intro u hu
    rw [hthreads, List.getElem?_set_ne (Ne.symm hu)]
  obtain ⟨q, hq, hfrom, huniq⟩ := h.mem
  refine ⟨?_, ?_, ?_, ?_, ?_, hf.leaves.grows.mapped h.mapped⟩
  · rcases hmem with ⟨hhold, hm⟩ | ⟨hi, hi', hm⟩
    · refine ⟨th'.pc, hm, fun _ => ⟨t, th', hself, rfl⟩, fun u x hu hx => ?_⟩
      by_cases hut : u = t
      · subst hut
        rw [hself] at hu
        cases hu
        rfl
      · rw [hother u hut] at hu
        exact absurd (apart hk ht hu hut (RegistryPc.mapHold_of_installs hx)) hhold
    · refine ⟨q, hm q hq, fun hqi => ?_, fun u x hu hx => ?_⟩
      · obtain ⟨u, x, hu, rfl⟩ := hfrom hqi
        have hut : u ≠ t := by
          rintro rfl
          rw [ht] at hu
          cases hu
          rw [hi] at hqi
          cases hqi
        exact ⟨u, x, (hother u hut).trans hu, rfl⟩
      · have hut : u ≠ t := by
          rintro rfl
          rw [hself] at hu
          cases hu
          rw [hi'] at hx
          cases hx
        exact huniq u x ((hother u hut).symm.trans hu) hx
  · intro u x hu
    by_cases hut : u = t
    · subst hut
      rw [hself] at hu
      cases hu
      exact hf.agrees
    · rw [hother u hut] at hu
      refine hf.leaves.agrees hut (fun hw => apart hk ht hu hut hw) (fun hr hw => ?_)
        (h.agrees u x hu)
      exact hk.no_reader (l := .eventEntries) ht hu hw hr
  · intro u
    rw [hf.readers u]
    by_cases hut : u = t
    · subst hut
      rw [if_pos rfl]
      constructor
      · intro hc
        exact ⟨th', hself, hc⟩
      · rintro ⟨x, hx, hc⟩
        rw [hself] at hx
        cases hx
        exact hc
    · rw [if_neg hut, hother u hut]
      exact h.readers u
  · intro u x hu hx
    by_cases hut : u = t
    · subst hut
      rw [hself] at hu
      cases hu
      exact hf.past hx
    · rw [hother u hut] at hu
      rw [hf.leaves.calls u hut]
      exact h.past u x hu hx
  · intro u hu
    rw [hthreads, List.length_set] at hu
    have hut : u ≠ t := by omega
    rw [hf.leaves.calls u hut, hf.leaves.tasks u hut]
    exact h.idle u hu

theorem Refines.checks (h : Refines s a) {t : Nat} {th : Thread (RegistryPc D)}
    (ht : s.threads[t]? = some th) : t ∈ a.readers ↔ th.pc.checking = true := by
  rw [h.readers]
  constructor
  · rintro ⟨x, hx, hc⟩
    rw [ht] at hx
    cases hx
    exact hc
  · intro hc
    exact ⟨th, ht, hc⟩

/-- A step on a lock is no step of the section level. -/
theorem Refines.move (hk : (registryProgram D).Kept RegistryPc.holds s) (h : Refines s a)
    {t : Nat} {th th' : Thread (RegistryPc D)} (ht : s.threads[t]? = some th)
    (hthreads : s'.threads = s.threads.set t th') (hmem : s'.mem = s.mem)
    (hpc : th'.pc = th.pc ∨ th'.pc = th.pc.after) : Refines s' a := by
  have hahead : th'.pc.ahead a.toEventMap = th.pc.ahead a.toEventMap := by
    rcases hpc with hpc | hpc <;> rw [hpc]
    exact RegistryPc.ahead_after
  have hinstalls : th'.pc.installs = th.pc.installs := by
    rcases hpc with hpc | hpc <;> rw [hpc]
    exact RegistryPc.installs_after
  have hchecking : th'.pc.checking = th.pc.checking := by
    rcases hpc with hpc | hpc <;> rw [hpc]
    exact RegistryPc.checking_after
  have hagrees : Agrees a t th'.pc := by
    rcases hpc with hpc | hpc <;> rw [hpc]
    · exact h.agrees t th ht
    · exact agrees_after (h.agrees t th ht)
  have hreads : t ∈ a.readers ↔ th'.pc.checking = true := by
    rw [h.checks ht, hchecking]
  have hover : th'.pc.removes = false → (a.calls t).inProgress = false := by
    rcases hpc with hpc | hpc <;> rw [hpc]
    · exact h.past t th ht
    · rw [RegistryPc.removes_after]
      exact h.past t th ht
  refine h.next hk ht hthreads (.stay hagrees hreads hover) ?_
  cases hi : th.pc.installs with
  | true =>
    obtain ⟨q, hq, -, huniq⟩ := h.mem
    rw [← huniq t th ht hi] at hq
    refine .inl ⟨by simp [RegistryPc.mapHold_of_installs hi], ?_⟩
    rw [hmem, hq, hahead]
  | false =>
    exact .inr ⟨rfl, hinstalls.trans hi, fun q hq => hmem.trans hq⟩

theorem enter_quiet (b : RegistryCall D) :
    (RegistryPc.enter b).installs = false ∧ (RegistryPc.enter b).checking = false := by
  cases b <;> exact ⟨rfl, rfl⟩

theorem Refines.call (h : Refines s a) (b : RegistryCall D) :
    Refines { s with threads := s.threads ++ [⟨.enter b, false⟩] } a := by
  obtain ⟨q, hq, hfrom, huniq⟩ := h.mem
  obtain ⟨hinstalls, hchecking⟩ := enter_quiet b
  have hcases : ∀ {u : Nat} {x : Thread (RegistryPc D)},
      (s.threads ++ [⟨.enter b, false⟩])[u]? = some x →
        s.threads[u]? = some x ∨ s.threads.length ≤ u ∧ x.pc = .enter b := by
    intro u x hu
    rw [List.getElem?_append] at hu
    split at hu
    · exact .inl hu
    · next hge =>
      rw [List.mem_singleton.mp (List.mem_of_getElem? hu)]
      exact .inr ⟨Nat.le_of_not_lt hge, rfl⟩
  refine ⟨⟨q, hq, fun hqi => ?_, fun u x hu hx => ?_⟩, fun u x hu => ?_, fun u => ?_,
    fun u x hu hx => ?_, fun u hu => ?_, h.mapped⟩
  · obtain ⟨u, x, hu, hx⟩ := hfrom hqi
    exact ⟨u, x, (List.getElem?_append_left (List.getElem?_eq_some_iff.mp hu).1).trans hu, hx⟩
  · rcases hcases hu with hu | ⟨-, hpc⟩
    · exact huniq u x hu hx
    · rw [hpc, hinstalls] at hx
      cases hx
  · rcases hcases hu with hu | ⟨hle, hpc⟩
    · exact h.agrees u x hu
    · rw [hpc]
      obtain ⟨hcalls, htasks⟩ := h.idle u hle
      cases b with
      | on | off => trivial
      | offByHandlerId => exact hcalls
      | dispatch => exact htasks
  · have happ : (∃ x, (s.threads ++ [⟨.enter b, false⟩])[u]? = some x ∧ x.pc.checking = true) ↔
        ∃ x, s.threads[u]? = some x ∧ x.pc.checking = true :=
      LockProgram.exists_append (by simp [hchecking])
    exact (h.readers u).trans happ.symm
  · rcases hcases hu with hu | ⟨hle, -⟩
    · exact h.past u x hu hx
    · rw [(h.idle u hle).1]
      rfl
  · rw [List.length_append] at hu
    exact h.idle u (by omega)

/-- Under the lock of the map the memory is what the call has made of the section level's. -/
theorem Refines.mem_eq (hk : (registryProgram D).Kept RegistryPc.holds s) (h : Refines s a)
    {t : Nat} {th : Thread (RegistryPc D)} (ht : s.threads[t]? = some th)
    (hhold : th.pc.mapHold ≠ .free) : s.mem = th.pc.ahead a.toEventMap := by
  obtain ⟨q, hq, hfrom, huniq⟩ := h.mem
  cases hqi : q.installs with
  | true =>
    obtain ⟨u, x, hu, rfl⟩ := hfrom hqi
    by_cases hut : u = t
    · subst hut
      rw [ht] at hu
      cases hu
      exact hq
    · exact absurd (apart hk ht hu hut (RegistryPc.mapHold_of_installs hqi)) hhold
  | false =>
    have hi : th.pc.installs = false := by
      cases hi : th.pc.installs with
      | false => rfl
      | true =>
        rw [← huniq t th ht hi, hi] at hqi
        exact hqi
    rw [hq, RegistryPc.ahead_of_not_installs hqi, RegistryPc.ahead_of_not_installs hi]

/-- A call with the write lock of the map is alone with it. -/
theorem Refines.no_readers (hk : (registryProgram D).Kept RegistryPc.holds s) (h : Refines s a)
    {t : Nat} {th : Thread (RegistryPc D)} (ht : s.threads[t]? = some th)
    (hw : th.pc.mapHold = .write) : a.readers = ∅ := by
  apply Finset.eq_empty_of_forall_notMem
  intro u hu
  obtain ⟨x, hx, hc⟩ := (h.readers u).mp hu
  exact hk.no_reader (l := .eventEntries) ht hx hw (RegistryPc.mapHold_of_checking hc)

theorem Refines.compute (hk : (registryProgram D).Kept RegistryPc.holds s) (h : Refines s a)
    {t : Nat} {th : Thread (RegistryPc D)} (ht : s.threads[t]? = some th)
    (hdem : th.pc.demand = .compute) :
    ∃ a', (a' = a ∨ ∃ act, EventRegistry.step a act = some a') ∧
      Refines ((s.setMem (th.pc.compute t s.mem).1).setThread t
        ⟨(th.pc.compute t s.mem).2, false⟩) a' := by
  by_cases hfree : th.pc.mapHold = .free
  · have hquiet : ∀ pc : RegistryPc D, pc.mapHold = .free → pc.installs = false := by
      intro pc hpc
      cases hi : pc.installs with
      | false => rfl
      | true =>
        rw [RegistryPc.mapHold_of_installs hi] at hpc
        cases hpc
    have hremoves : th.pc.removes = false := by
      cases hpc : th.pc with
      | idRead | idWrite =>
        rw [hpc] at hdem
        cases hdem
      | idGet | idWriteHandlers | idRemove | idRemoved | idReadHandlers | idIsEmpty | idChecked
      | idDrop | idEntry | idEntryRead | idEntryIsEmpty | idEntryChecked | idEntryRemove =>
        rw [hpc] at hfree
        cases hfree
      | _ => rfl
    have hnotin : t ∉ a.readers := by
      intro hmem
      have hread := RegistryPc.mapHold_of_checking ((h.checks ht).mp hmem)
      rw [hfree] at hread
      cases hread
    obtain ⟨q, hq, -⟩ := h.mem
    obtain ⟨a', hf, hm⟩ := followed_task hq hdem hfree (h.agrees t th ht) hnotin
      (h.past t th ht hremoves)
    have hfree' := (RegistryPc.holds_compute t s.mem hdem).1.trans hfree
    rw [← hfree] at hf
    exact ⟨a', hf.step, h.next hk ht rfl hf (.inr ⟨hquiet _ hfree, hquiet _ hfree', hm⟩)⟩
  · obtain ⟨a', hf, hm⟩ := followed_compute hdem hfree (h.agrees t th ht) h.mapped
      (h.no_readers hk ht) (h.checks ht) (h.past t th ht)
    rw [← h.mem_eq hk ht hfree] at hf hm
    refine ⟨a', hf.step, h.next hk ht rfl hf (.inl ⟨hfree, ?_⟩)⟩
    exact hm

/-- A step of the lock level is a step of the section level or none. -/
theorem refines_step (hk : (registryProgram D).Kept RegistryPc.holds s) (h : Refines s a)
    {act : LockAction (RegistryCall D)} (hs : (lockedRegistry D).step s act = some s') :
    ∃ a', (a' = a ∨ ∃ b, EventRegistry.step a b = some a') ∧ Refines s' a' := by
  rcases LockProgram.step_cases hs with ⟨b, -, rfl⟩ | ⟨t, th, -, ht, hadv⟩
  · exact ⟨a, .inl rfl, h.call b⟩
  cases hadv with
  | compute hdem => exact h.compute hk ht hdem
  | claim l hdem hc hn => exact ⟨a, .inl rfl, h.move hk ht rfl rfl (.inl rfl)⟩
  | read l hdem hn | write l hdem hc hr | endRead l hdem | endWrite l hdem =>
    exact ⟨a, .inl rfl, h.move hk ht rfl rfl (.inr rfl)⟩

theorem refines_init : Refines (lockedRegistry D).init (EventRegistry.new : EventRegistry D) := by
  have hnone : ∀ t : Nat, (lockedRegistry D).init.threads[t]? = none := fun _ => rfl
  refine ⟨⟨.returned none, rfl, fun h => ?_, fun t th ht => ?_⟩, fun t th ht => ?_, fun t => ?_,
    fun _ _ _ _ => rfl, fun _ _ => ⟨rfl, rfl⟩, fun event e he => ?_⟩
  · cases h
  · rw [hnone] at ht
    cases ht
  · rw [hnone] at ht
    cases ht
  · simp [hnone, EventRegistry.new]
  · cases he

theorem exists_refines (h : (lockedRegistry D).Reachable s) :
    ∃ a, (EventRegistry.system D).Reachable a ∧ Refines s a := by
  refine h.invariant (I := fun s => ∃ a, (EventRegistry.system D).Reachable a ∧ Refines s a)
    ⟨_, .init, refines_init⟩ ?_
  rintro s act s' hr hs ⟨a, ha, href⟩
  have hk := LockProgram.kept_of_reachable RegistryPc.disciplined hr
  obtain ⟨a', hstep, href'⟩ := refines_step hk href hs
  rcases hstep with rfl | ⟨b, hb⟩
  · exact ⟨a', ha, href'⟩
  · exact ⟨a', ha.next hb, href'⟩

namespace EventRegistry

open EventMap

/-- Whatever the calls reach lock by lock, the section level reaches: with the same history,
and with the same map unless a call has claimed the lock of the map. The ids that `on` has
returned are those of its registrations. -/
theorem sections_atomic {κ : Type} {D : DataTypes κ}
    {s : LockState RegistryLock (EventMap D) (RegistryPc D)}
    (h : (lockedRegistry D).Reachable s) :
    ∃ a, (system D).Reachable a ∧ a.log = s.mem.log ∧
      ((s.locks .eventEntries).writer = none → a.toEventMap = s.mem) ∧
      ∀ (t : Nat) (th : Thread (RegistryPc D)) (id : Nat), s.threads[t]? = some th →
        th.pc = .returned (some id) →
          ∃ serial event ty, .registered serial event ty ∈ a.log ∧ id = serial % 2 ^ 32 := by
  have hk := LockProgram.kept_of_reachable RegistryPc.disciplined h
  obtain ⟨a, ha, href⟩ := exists_refines h
  obtain ⟨q, hq, hfrom, -⟩ := href.mem
  refine ⟨a, ha, ?_, fun hw => ?_, fun t th id ht hpc => ?_⟩
  · rw [hq, q.ahead_log]
  · cases hi : q.installs with
    | false => rw [hq, RegistryPc.ahead_of_not_installs hi]
    | true =>
      obtain ⟨t, th, ht, rfl⟩ := hfrom hi
      have howner := (hk.owner (l := .eventEntries) ht).mpr
        (.inl (RegistryPc.mapHold_of_installs hi))
      rw [hw] at howner
      cases howner
  · have hagrees := href.agrees t th ht
    rw [hpc] at hagrees
    exact hagrees

/-- A second handler is being registered while `off_by_handler_id` takes out the first. -/
theorem sections_atomic_run : ∃ s : LockState RegistryLock (EventMap byteTypes) (RegistryPc byteTypes),
    (lockedRegistry byteTypes).Reachable s ∧
    (∃ a, (system byteTypes).Reachable a ∧ a.log = s.mem.log ∧
      ((s.locks .eventEntries).writer = none → a.toEventMap = s.mem) ∧
      ∀ (t : Nat) (th : Thread (RegistryPc byteTypes)) (id : Nat), s.threads[t]? = some th →
        th.pc = .returned (some id) →
          ∃ serial event ty, .registered serial event ty ∈ a.log ∧ id = serial % 2 ^ 32) := by
  obtain ⟨s, hr, -⟩ := System.exists_reachable_of_exec (S := lockedRegistry byteTypes)
    (l := List.flatten [[.call (.on "ping" true)], List.replicate 9 (.advance 0),
      [.call (.offByHandlerId "ping" 0), .call (.on "ping" true), .advance 1, .advance 2],
      List.replicate 9 (.advance 1), List.replicate 3 (.advance 2)])
    (p := fun s => s.mem.log.length == 2) (by decide +kernel)
  exact ⟨s, hr, sections_atomic hr⟩

end EventRegistry

end WsIo.Core
