import WsIo.Client.Handover

/-!
# What a disconnect drops

`disconnect_drops_pending`: no message reaches a session of a later period than that of its
`emit`. `Current` says that everything on its way belongs to the present period and that
nothing is once a `disconnect` has drained the buffer.
-/

namespace WsIo.Client.Runtime

open Async Core

variable {cfg : ClientConfig} {s s' : Runtime} {k p : Nat}

/-! ## Messages on their way -/

/-- The period of an `emit` that has passed its check and has not ended. -/
def pending : Emit → Option Nat
  | .encode _ _ period => some period
  | .send m => some m.period
  | .idle | .check _ _ | .done _ | .dropped => none

/-- No `disconnect` ends its drain while an `emit` is between its check and its enqueue. -/
def DrainsAll (s : Runtime) (a : ClientAction) : Prop :=
  ∀ k packet, a = .call k → s.calls k = .disconnect packet .drain → s.buffer.recv = none →
    ∀ j, pending (s.emits j) = none

/-- Nothing is on its way from an `emit` to a session. -/
structure Idle (s : Runtime) : Prop where
  emits : ∀ k, pending (s.emits k) = none
  buffer : s.buffer.queue = []
  held : ∀ p, heldBy (s.senders p).pc = []

/-- What is on its way belongs to the present period, and nothing is once a `disconnect`
has drained the buffer. -/
structure Current (s : Runtime) : Prop where
  emits : ∀ k n, pending (s.emits k) = some n → n = s.period
  buffer : ∀ m ∈ s.buffer.queue, m.period = s.period
  held : ∀ p, ∀ m ∈ heldBy (s.senders p).pc, m.period = s.period
  idle : (s.status = .stopped ∨ ∃ k, drained (s.calls k) = true) → Idle s

theorem stopping_of_drained {c : Call} (h : drained c = true) : stopping c = true := by
  cases c with
  | disconnect packet pc => cases pc <;> first | rfl | cases h
  | _ => cases h

/-- A period with the status `Running` has not been drained. -/
theorem Control.undrained (hc : Control s) (hrun : s.status = .running) :
    ¬ (s.status = .stopped ∨ ∃ k, drained (s.calls k) = true) := by
  rintro (hst | ⟨k, hk⟩)
  · rw [hrun] at hst
    cases hst
  · have := hc.status k .stopping (statusAt_stopping.mpr (stopping_of_drained hk))
    rw [hrun] at this
    cases this

theorem current_sender (h : senderStep cfg s p = some s') (hi : Current s) : Current s' := by
  have ho := senderStep_only h
  obtain ⟨pc, hs, hcases⟩ := senderStep_delivery h
  have hheld : ∀ q, q ≠ p → heldBy (s'.senders q).pc = heldBy (s.senders q).pc := by
    intro q hq
    rw [hs, Function.update_of_ne hq]
  have hself : (s'.senders p).pc = pc := by rw [hs, Function.update_self]
  -- what the task holds afterwards it held before, or took from the buffer
  have hflow : (∀ m ∈ heldBy pc, m ∈ heldBy (s.senders p).pc ∨ m ∈ s.buffer.queue) ∧
      ∀ m ∈ s'.buffer.queue, m ∈ s.buffer.queue := by
    rcases hcases with ⟨-, rfl, -, -, hb, -⟩ | ⟨m, -, rfl, hr, -, -⟩ | ⟨-, -, hk, -, hb, -⟩ |
      ⟨m, i, -, -, rfl, -, hb, -⟩
    · exact ⟨by simp [heldBy], by simp [hb]⟩
    · obtain ⟨hq, -⟩ := Channel.recv_some hr
      refine ⟨fun m' hm' => .inr ?_, fun m' hm' => ?_⟩
      · simp only [heldBy, List.mem_singleton] at hm'
        rw [hq, hm']
        exact List.mem_cons_self
      · rw [hq]
        exact List.mem_cons_of_mem _ hm'
    · exact ⟨fun m hm => .inl (hk ▸ hm), by simp [hb]⟩
    · exact ⟨by simp [heldBy], by simp [hb]⟩
  refine ⟨?_, fun m hm => ?_, fun q m hm => ?_, fun hd => ?_⟩
  · rw [ho.emits, ho.period]
    exact hi.emits
  · rw [ho.period]
    exact hi.buffer m (hflow.2 m hm)
  · rw [ho.period]
    by_cases hq : q = p
    · subst hq
      rw [hself] at hm
      rcases hflow.1 m hm with hm | hm
      · exact hi.held q m hm
      · exact hi.buffer m hm
    · rw [hheld q hq] at hm
      exact hi.held q m hm
  · rw [ho.status, ho.calls] at hd
    obtain ⟨h₁, h₂, h₃⟩ := hi.idle hd
    refine ⟨by rw [ho.emits]; exact h₁, List.eq_nil_iff_forall_not_mem.mpr fun m hm => ?_,
      fun q => ?_⟩
    · have := hflow.2 m hm
      rw [h₂] at this
      cases this
    · by_cases hq : q = p
      · subst hq
        rw [hself]
        refine List.eq_nil_iff_forall_not_mem.mpr fun m hm => ?_
        rcases hflow.1 m hm with hm | hm
        · rw [h₃] at hm
          cases hm
        · rw [h₂] at hm
          cases hm
      · rw [hheld q hq]
        exact h₃ q

theorem Idle.current (h : Idle s) : Current s where
  emits := by
    intro k n hk
    rw [h.emits] at hk
    cases hk
  buffer := by
    rw [h.buffer]
    simp
  held := by
    intro p
    rw [h.held]
    simp
  idle := fun _ => h

/-- Nothing new is on its way. -/
theorem Current.mono (hi : Current s) (he : s'.emits = s.emits) (hp : s'.period = s.period)
    (hb : ∀ m ∈ s'.buffer.queue, m ∈ s.buffer.queue)
    (hh : ∀ p, ∀ m ∈ heldBy (s'.senders p).pc, m ∈ heldBy (s.senders p).pc)
    (hd : s'.status = .stopped ∨ (∃ k, drained (s'.calls k) = true) → Idle s) : Current s' := by
  refine ⟨?_, fun m hm => ?_, fun p m hm => ?_, fun h => ?_⟩
  · rw [he, hp]
    exact hi.emits
  · rw [hp]
    exact hi.buffer m (hb m hm)
  · rw [hp]
    exact hi.held p m (hh p m hm)
  · obtain ⟨h₁, h₂, h₃⟩ := hd h
    refine ⟨by rw [he]; exact h₁, List.eq_nil_iff_forall_not_mem.mpr fun m hm => ?_,
      fun p => List.eq_nil_iff_forall_not_mem.mpr fun m hm => ?_⟩
    · have := hb m hm
      rw [h₂] at this
      cases this
    · have := hh p m hm
      rw [h₃] at this
      cases this

/-- An `emit` that keeps its period or is no longer pending. -/
theorem Current.setEmit {e : Emit} (hi : Current s)
    (he : pending e = none ∨ pending e = pending (s.emits k)) : Current (s.setEmit k e) := by
  have hpend : ∀ j n, pending ((s.setEmit k e).emits j) = some n →
      pending (s.emits j) = some n := by
    intro j n hj
    simp only [Runtime.setEmit, Function.update_apply] at hj
    split at hj
    · rename_i hjk
      subst hjk
      rcases he with he | he
      · rw [he] at hj
        cases hj
      · rw [← he]
        exact hj
    · exact hj
  refine ⟨fun j n hj => hi.emits j n (hpend j n hj), hi.buffer, hi.held, fun hd => ?_⟩
  obtain ⟨h₁, h₂, h₃⟩ := hi.idle hd
  refine ⟨fun j => ?_, h₂, h₃⟩
  cases hj : pending ((s.setEmit k e).emits j) with
  | none => rfl
  | some n =>
    have := hpend j n hj
    rw [h₁] at this
    cases this

theorem current_emitStep {x : EmitInput} (h : emitStep cfg s k x = some s') (hc : Control s)
    (hi : Current s) : Current s' := by
  rcases emitStep_cases h with ⟨event, data, -, hrun, rfl⟩ | ⟨r, rfl⟩ |
    ⟨event, data, n, m, hk, rfl⟩ | ⟨m, buffer, hk, hb, rfl⟩
  · -- the check passes in the present period
    refine ⟨fun j n hj => ?_, hi.buffer, hi.held, fun hd => absurd hd (hc.undrained hrun)⟩
    simp only [Runtime.setEmit, Function.update_apply] at hj
    split at hj
    · cases hj
      rfl
    · exact hi.emits j n hj
  · exact hi.setEmit (.inl rfl)
  · refine hi.setEmit (.inr ?_)
    rw [hk]
    rfl
  · have hm : m.period = s.period := hi.emits k m.period (by rw [hk]; rfl)
    have hq := (Channel.trySend_ok hb).2.2.1
    have hdone := hi.setEmit (k := k) (e := .done (.ok ())) (.inl rfl)
    refine ⟨hdone.emits, fun m' hm' => ?_, hi.held, fun hd => ?_⟩
    · change m' ∈ buffer.queue at hm'
      rw [hq, List.mem_append, List.mem_singleton] at hm'
      rcases hm' with hm' | rfl
      · exact hi.buffer m' hm'
      · exact hm
    · have := (hi.idle hd).emits k
      rw [hk] at this
      cases this

theorem current_call {a : ClientAction} (ha : DrainsAll s a) (hak : a = .call k)
    (h : callStep s k = some s') (hc : Control s) (hl : RxLock s) (hi : Current s) :
    Current s' := by
  have hother : ∀ c, drained c = false → ∀ j, drained (Function.update s.calls k c j) = true →
      drained (s.calls j) = true := by
    intro c hcd j hj
    rw [Function.update_apply] at hj
    split at hj
    · rw [hcd] at hj
      cases hj
    · exact hj
  have hidle : s.status = .stopped ∨ (∃ j, drained (s.calls j) = true) → Idle s := hi.idle
  rcases callStep_delivery h with ⟨hk, rfl⟩ | ⟨hk, rfl⟩ | ⟨packet, p, hk, rfl⟩ |
    ⟨packet, hk, -, rfl⟩ | ⟨packet, m, buffer, hk, hr, rfl⟩ | ⟨packet, hk, rfl⟩ | ⟨c, hb⟩
  · -- a period begins after the drain of the one before
    have hst := hc.status k .stopped (by rw [hk]; rfl)
    obtain ⟨h₁, h₂, h₃⟩ := hi.idle (.inl hst)
    exact Idle.current ⟨h₁, h₂, h₃⟩
  · refine hi.mono rfl rfl (fun _ hm => hm) (fun q m hm => ?_) (fun hd => hidle ?_)
    · simp only [setCall, spawnSender, Function.update_apply] at hm
      split at hm
      · cases hm
      · exact hm
    · exact hd.imp id (Exists.imp (hother _ rfl))
  · refine hi.mono rfl rfl (fun _ hm => hm) (fun q m hm => ?_) (fun hd => hidle ?_)
    · simp only [setCall, abortSender, Function.update_apply] at hm
      split at hm
      · rename_i hq
        subst hq
        exact hm
      · exact hm
    · exact hd.imp id (Exists.imp (hother _ rfl))
  · refine hi.mono rfl rfl (fun _ hm => hm) (fun _ _ hm => hm) (fun hd => hidle ?_)
    exact hd.imp id (Exists.imp (hother _ rfl))
  · refine hi.mono rfl rfl (fun m' hm' => ?_) (fun _ _ hm => hm) hidle
    rw [(Channel.recv_some hr).1]
    exact List.mem_cons_of_mem _ hm'
  · obtain ⟨h₁, h₂, h₃⟩ := hi.idle (.inr ⟨k, by rw [hk]; rfl⟩)
    exact Idle.current ⟨h₁, h₂, h₃⟩
  · have hemits := (callStep_sessions h).2.2.2
    refine hi.mono hemits hb.period (by rw [hb.buffer]; exact fun _ hm => hm)
      (by rw [hb.senders]; exact fun _ _ hm => hm) fun hd => ?_
    rcases hd with hst | ⟨j, hj⟩
    · refine hidle (.inl ?_)
      rcases hb.status with he | he
      · rw [← he]
        exact hst
      · rw [he] at hst
        cases hst
    · rw [hb.calls, Function.update_apply] at hj
      split at hj
      · rename_i hjk
        rcases hb.drained hj with hd | ⟨packet, hk, hr⟩
        · exact hidle (.inr ⟨k, hd⟩)
        · -- the drain ends: the lock keeps every send task out of the buffer
          refine ⟨ha k packet hak hk hr, Channel.recv_none hr, fun p => ?_⟩
          have hrx := (hl.calls k).mp (by rw [hk]; rfl)
          cases hpc : (s.senders p).pc with
          | load m armed | attempt m armed i | arm m | wait m armed =>
            have := (hl.senders p).mp (by rw [hpc]; rfl)
            rw [hrx] at this
            cases this
          | _ => rfl
      · exact hidle (.inr ⟨j, hj⟩)

theorem Begins.undrained {a : ClientAction} {c : Call} (h : Begins s a k c) : drained c = false := by
  rcases h with ⟨r, -, rfl⟩ | ⟨i, b, m, -, -, -, rfl⟩
  · cases r <;> rfl
  · rfl

theorem current_step {a : ClientAction} (ha : DrainsAll s a) (h : step cfg s a = some s')
    (hc : Control s) (hl : RxLock s) (hi : Current s) : Current s' := by
  -- a step that leaves the buffer and the emits alone
  have hquiet : SameDelivery s s' → s'.status = s.status → s'.emits = s.emits →
      (s'.calls = s.calls ∨ ∃ k c, drained c = false ∧ s'.calls = Function.update s.calls k c) →
      Current s' := by
    intro hsame hst he hcalls
    refine hi.mono he hsame.period (by rw [hsame.buffer]; exact fun _ hm => hm)
      (by rw [hsame.senders]; exact fun _ _ hm => hm) fun hd => hi.idle ?_
    rw [hst] at hd
    refine hd.imp id (Exists.imp fun j hj => ?_)
    rcases hcalls with hk | ⟨k, c, hcd, hk⟩
    · rw [← hk]
      exact hj
    · rw [hk, Function.update_apply] at hj
      split at hj
      · rw [hcd] at hj
        cases hj
      · exact hj
  cases a with
  | call k => exact current_call ha rfl h hc hl hi
  | sender p => exact current_sender h hi
  | emitStep k x => exact current_emitStep h hc hi
  | stopSender p =>
    have ho := stopSender_only h
    obtain ⟨-, -, -, hs, -, hb, -⟩ := stopSender_delivery h
    refine hi.mono ho.emits ho.period (by rw [hb]; exact fun _ hm => hm) (fun q m hm => ?_) ?_
    · rw [hs, Function.update_apply] at hm
      split at hm
      · cases hm
      · exact hm
    · rw [ho.status, ho.calls]
      exact hi.idle
  | session i b k =>
    have ho := memberStep_only h
    refine hquiet ⟨ho.buffer, ho.rxLock, ho.senders, ho.accepted, ho.handed, ho.period⟩ ho.status
      ho.emits ?_
    obtain ⟨-, hk | ⟨c, -, hb, hk⟩⟩ := memberStep_control h
    · exact .inl hk
    · exact .inr ⟨k, c, hb.undrained, hk⟩
  | loop p x =>
    rcases loopStep_cases h with ⟨-, ⟨pc, -, rfl⟩ | ⟨i, -, -, rfl⟩⟩
    · exact hquiet ⟨rfl, rfl, rfl, rfl, rfl, rfl⟩ rfl rfl (.inl rfl)
    · exact hquiet ⟨rfl, rfl, rfl, rfl, rfl, rfl⟩ rfl rfl (.inl rfl)
  | start k r =>
    simp only [step] at h
    split at h
    · cases h
      exact hquiet ⟨rfl, rfl, rfl, rfl, rfl, rfl⟩ rfl rfl
        (.inr ⟨k, entry r, by cases r <;> rfl, rfl⟩)
    · cases h
  | drop k =>
    simp only [step] at h
    split at h
    · cases h
      refine hi.mono rfl rfl (fun _ hm => hm) (fun _ _ hm => hm) fun hd => hi.idle ?_
      refine hd.imp id (Exists.imp fun j hj => ?_)
      simp only [dropCall, setCall, Function.update_apply] at hj
      split at hj
      · cases hj
      · exact hj
    · cases h
  | emit k event data =>
    simp only [step] at h
    split at h
    · cases h
      exact hi.setEmit (.inl rfl)
    · cases h
  | emitDrop k =>
    simp only [step] at h
    split at h
    · cases h
      exact hi.setEmit (.inl rfl)
    · cases h
  | cancel token =>
    simp only [step] at h
    split at h
    · cases h
      exact hquiet ⟨rfl, rfl, rfl, rfl, rfl, rfl⟩ rfl rfl (.inl rfl)
    · cases h

theorem current_of_reachable (h : (system cfg).ReachableWhen DrainsAll s) : Current s :=
  h.invariant (I := Current) (Idle.current ⟨fun _ => rfl, rfl, fun _ => rfl⟩)
    fun _ _ _ hr ha hs hi =>
      current_step ha hs (control_of_reachable hr) (rxLock_of_reachable hr) hi

/-- No message was handed to a session of a later period than that of its `emit`. -/
def OwnPeriod (s : Runtime) : Prop :=
  ∀ e ∈ s.handed, ∃ x, s.sessions e.1 = some x ∧ x.period ≤ e.2.period

theorem ownPeriod_step {a : ClientAction} (h : step cfg s a = some s') (hcur : Current s)
    (henq : Enqueued s') (hi : OwnPeriod s) : OwnPeriod s' := by
  have hkeep : ∀ e ∈ s.handed, ∃ x, s'.sessions e.1 = some x ∧ x.period ≤ e.2.period := by
    intro e he
    obtain ⟨x, hx, hp⟩ := hi e he
    obtain ⟨x', hx', rfl | ⟨b, -, hmoved⟩⟩ := step_member h hx
    · exact ⟨x', hx', hp⟩
    · exact ⟨x', hx', by rw [hmoved.period]; exact hp⟩
  by_cases hsender : ∃ p, a = .sender p
  · obtain ⟨p, rfl⟩ := hsender
    have hper := (senderStep_only h).period
    obtain ⟨pc, -, hcases⟩ := senderStep_delivery h
    intro e he
    rcases hcases with ⟨-, -, -, -, -, hh⟩ | ⟨m, -, -, -, -, hh⟩ | ⟨-, -, -, -, -, hh⟩ |
      ⟨m, i, -, hheld, -, -, -, hh⟩
    · exact hkeep e (hh ▸ he)
    · exact hkeep e (hh ▸ he)
    · exact hkeep e (hh ▸ he)
    · have he' := he
      rw [hh, List.mem_append, List.mem_singleton] at he'
      rcases he' with he' | rfl
      · exact hkeep e he'
      · -- the message is of this period, the session not of a later one
        obtain ⟨x, hx⟩ := Option.ne_none_iff_exists'.mp (henq.created _ he)
        have hm : m.period = s.period :=
          hcur.held p m (by rw [hheld]; exact List.mem_singleton_self m)
        refine ⟨x, hx, ?_⟩
        rw [hm, ← hper]
        exact henq.period i x hx
  · push Not at hsender
    intro e he
    rcases step_handed h hsender with ⟨hh, -⟩ | ⟨hh, -, -⟩
    · exact hkeep e (hh ▸ he)
    · rw [hh] at he
      cases he

/-- **A disconnect drops what was pending.** As long as no `disconnect` ends its drain
while an `emit` is between its check and its enqueue, no event message is handed to a
session created in a later period than the one in which its `emit` passed the check. -/
theorem disconnect_drops_pending (cfg : ClientConfig) (s : Runtime)
    (h : (system cfg).ReachableWhen DrainsAll s) (i : Nat) (m : Buffered)
    (hm : (i, m) ∈ s.handed) : ∃ x, s.sessions i = some x ∧ x.period ≤ m.period := by
  have hi : OwnPeriod s := h.invariant (I := OwnPeriod) (by simp [OwnPeriod, system, initial])
    fun s a s' hr ha hs hi => ownPeriod_step hs (current_of_reachable hr)
      (enqueued_of_reachable (.step hr ha hs)) hi
  exact hi (i, m) hm

/-- No step of the run ends a drain. -/
def noDrain (s : Runtime) : ClientAction → Bool
  | .call k => match s.calls k with
    | .disconnect _ .drain => false
    | _ => true
  | _ => true

theorem drainsAll_of_noDrain (s : Runtime) (a : ClientAction) (h : noDrain s a = true) :
    DrainsAll s a := by
  intro k packet ha hk
  subst ha
  simp [noDrain, hk] at h

/-- A message of the second period, after a first one that was drained. -/
theorem disconnect_drops_pending_run :
    ∃ s i m x, (system (.postcard false)).ReachableWhen DrainsAll s ∧ s.period = 2 ∧
      (i, m) ∈ s.handed ∧ s.sessions i = some x ∧ x.period ≤ m.period := by
  have hdrain : (system (.postcard false)).ReachableWhen DrainsAll _ :=
    System.ReachableWhen.execWhen (g := noDrain) drainsAll_of_noDrain .init
      (rfl : (system (.postcard false)).execWhen noDrain (initial (.postcard false))
        (callRun 0 8 .connect ++ callRun 1 6 .disconnect) = some _)
  have hdrained : (system (.postcard false)).ReachableWhen DrainsAll _ :=
    .step (a := .call 1) hdrain (fun _ _ _ _ _ _ => rfl) rfl
  obtain ⟨s, hr, hs⟩ := hdrained.exists_execWhen (g := noDrain)
    (l := List.flatten [[.call 1, .loop 1 .go, .call 1, .call 1, .stopSender 1],
      callRun 2 8 .connect, [.loop 2 .go, .loop 2 (.connected 0)], readyRun 0, emitRun 0,
      [.emitStep 0 .go], List.replicate 5 (.sender 2)])
    (p := fun s : Runtime => decide (s.period = 2 ∧ s.handed ≠ [])) drainsAll_of_noDrain
    (by decide +kernel)
  obtain ⟨hper, hne⟩ := of_decide_eq_true hs
  obtain ⟨⟨i, m⟩, hm⟩ := List.exists_mem_of_ne_nil s.handed hne
  obtain ⟨x, hx, hle⟩ := disconnect_drops_pending _ s hr i m hm
  exact ⟨s, i, m, x, hr, hper, hm, hx, hle⟩

/-- An `emit` of the first period that waits with its message until `disconnect` has
drained the buffer reaches the session of the second period. -/
theorem disconnect_keeps_pending :
    ¬ ∀ s, (system (.postcard false)).Reachable s → ∀ i m, (i, m) ∈ s.handed →
      ∃ x, s.sessions i = some x ∧ x.period ≤ m.period := by
  intro h
  obtain ⟨s, hr, hs⟩ := System.exists_reachable_of_exec (S := system (.postcard false))
    (l := List.flatten [callRun 0 8 .connect, emitRun 0, callRun 1 8 .disconnect,
      [.loop 1 .go, .call 1, .call 1, .stopSender 1], callRun 2 8 .connect, [.emitStep 0 .go],
      [.loop 2 .go, .loop 2 (.connected 0)], readyRun 0, List.replicate 5 (.sender 2)])
    (p := fun s => decide (∃ e ∈ s.handed, e.2.period = 1 ∧
      (s.sessions e.1).map (·.period) = some 2)) (by decide +kernel)
  obtain ⟨⟨i, m⟩, he, hm, hx⟩ := of_decide_eq_true hs
  obtain ⟨x, hx', hle⟩ := h s hr i m he
  have hm' : m.period = 1 := hm
  rw [hx', Option.map_some, Option.some.injEq] at hx
  omega

end WsIo.Client.Runtime
