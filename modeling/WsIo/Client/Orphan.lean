import WsIo.Client.Completion

/-!
# A send task without a handle

`connect` spawns the send task and then stores its handle. A `connect` that is dropped at the
store leaves a task that no `disconnect` aborts: once it has the receiver it keeps it, and a
`disconnect` that has stored `Stopping` never returns (`orphan_blocks_disconnect`).
-/

namespace WsIo.Client

open Async Core

namespace Runtime

variable {cfg : ClientConfig} {s s' : Runtime} {k p : Nat}

/-! ## The slot of the send task -/

/-- A call fills the slot with the handle that it holds, which is that of the task it has
spawned. -/
theorem callStep_slot (h : callStep s k = some s') :
    (∀ p, s'.sendEventMessageTask = some p →
        s.sendEventMessageTask = some p ∨ s.calls k = .connect (.storeSender p)) ∧
      ∀ p, s'.calls k = .connect (.storeSender p) →
        s.calls k = .connect .spawnSender ∧ p = s.period := by
  have hquiet : ∀ {r : Runtime} {c : Call},
      r.sendEventMessageTask = s.sendEventMessageTask ∨ r.sendEventMessageTask = none →
      r.calls k = c → (∀ p, c ≠ .connect (.storeSender p)) →
      (∀ p, r.sendEventMessageTask = some p →
          s.sendEventMessageTask = some p ∨ s.calls k = .connect (.storeSender p)) ∧
        ∀ p, r.calls k = .connect (.storeSender p) →
          s.calls k = .connect .spawnSender ∧ p = s.period := by
    intro r c hslot hc hne
    refine ⟨fun p hp => ?_, fun p hp => absurd (hc.symm.trans hp) (hne p)⟩
    rcases hslot with hslot | hslot <;> rw [hslot] at hp
    · exact .inl hp
    · cases hp
  have hself : ∀ (r : Runtime) (c : Call), (r.setCall k c).calls k = c := fun r c =>
    Function.update_self ..
  unfold callStep at h
  split at h
  · rename_i pc hk
    cases pc <;> simp only [connectStep] at h
    case spawnSender =>
      cases h
      refine ⟨fun p hp => .inl hp, fun p hp => ⟨hk, ?_⟩⟩
      rw [hself] at hp
      cases hp
      rfl
    case storeSender q =>
      cases h
      refine ⟨fun p hp => .inr ?_, fun p hp => ?_⟩
      · cases hp
        exact hk
      · rw [finishCall, hself] at hp
        cases hp
    case lock => split at h <;> cases h; exact hquiet (.inl rfl) (hself ..) (by simp)
    case get => split at h <;> cases h <;> exact hquiet (.inl rfl) (hself ..) (by simp)
    all_goals cases h; exact hquiet (.inl rfl) (hself ..) (by simp)
  · rename_i packet pc hk
    cases pc <;> simp only [disconnectStep] at h
    case drain =>
      split at h <;> cases h
      · exact hquiet (.inl rfl) hk (by simp)
      · exact hquiet (.inl rfl) (hself ..) (by simp)
    case abortSender =>
      split at h <;> cases h
      · exact hquiet (.inl rfl) (hself ..) (by simp)
      · exact hquiet (.inr rfl) (hself ..) (by simp)
    case lock | lockRx | awaitLoop =>
      split at h <;> cases h
      exact hquiet (.inl rfl) (hself ..) (by simp)
    case get | takeLoop => split at h <;> cases h <;> exact hquiet (.inl rfl) (hself ..) (by simp)
    all_goals cases h; exact hquiet (.inl rfl) (hself ..) (by simp)
  all_goals cases h

/-- A step that is not one of a call leaves the slot alone and starts no store. -/
theorem step_slot_other {a : ClientAction} (h : step cfg s a = some s') (ha : ∀ k, a ≠ .call k) :
    s'.sendEventMessageTask = s.sendEventMessageTask ∧
      ∀ k p, s'.calls k = .connect (.storeSender p) → s.calls k = .connect (.storeSender p) := by
  have hupd : ∀ {j : Nat} {c : Call}, s'.calls = Function.update s.calls j c →
      (∀ p, c ≠ .connect (.storeSender p)) →
      ∀ k p, s'.calls k = .connect (.storeSender p) → s.calls k = .connect (.storeSender p) := by
    intro j c hc hne k p hk
    by_cases hkj : k = j
    · rw [hc, hkj, Function.update_self] at hk
      exact absurd hk (hne p)
    · rwa [hc, Function.update_of_ne hkj] at hk
  rcases step_control h with ⟨hsame, hc⟩ | ⟨j, c, hsame, -, hb, hc⟩ | ⟨j, rfl, -⟩ | ⟨j, rfl, -, rfl⟩
  · exact ⟨hsame.sendEventMessageTask, fun k p hk => by rwa [hc] at hk⟩
  · refine ⟨hsame.sendEventMessageTask, hupd hc fun p => ?_⟩
    rcases hb with ⟨r, -, rfl⟩ | ⟨i, b, m, -, -, -, rfl⟩
    · cases r <;> simp [entry]
    · simp
  · exact absurd rfl (ha j)
  · exact ⟨rfl, hupd rfl (by simp)⟩

/-! ## A task that is there -/

theorem step_sender_present {a : ClientAction} (h : step cfg s a = some s')
    (hp : (s.senders p).pc ≠ .absent) : (s'.senders p).pc ≠ .absent := by
  rcases step_sender h p with hs | ⟨pc, -, hs, -, -, hne, -⟩ | ⟨-, -, hs⟩ | ⟨k, -, -, hs⟩ |
    ⟨k, -, -, -, hs⟩ <;> rw [hs]
  · exact hp
  · exact hne
  · simp
  · exact hp
  · simp

/-- A send task that runs goes on, with what it holds, unless its handle is in the slot. -/
theorem step_sender_runs {a : ClientAction} (h : step cfg s a = some s') (hr : RxLock s)
    (hslot : s.sendEventMessageTask ≠ some p) (hp : (s.senders p).runs = true) :
    (s'.senders p).runs = true ∧
      ((s.senders p).pc.holdsRx = true → (s'.senders p).pc.holdsRx = true) := by
  obtain ⟨ha, hpresent, -⟩ := runs_iff.mp hp
  rcases step_sender h p with hs | ⟨pc, -, hs, -, -, h₁, h₂, h₃⟩ | ⟨-, ha', -⟩ | ⟨k, -, hslot', -⟩ |
    ⟨k, -, hk, rfl, -⟩
  · rw [hs]
    exact ⟨hp, id⟩
  · rw [hs, runs_iff]
    exact ⟨⟨ha, h₁, h₂⟩, h₃⟩
  · rw [ha] at ha'
    cases ha'
  · exact absurd hslot' hslot
  · exact absurd (hr.spawning k (by rw [hk]; rfl)) hpresent

/-! ## The handle on its way -/

/-- The slot holds the handle of a task that has been spawned, and a handle that a `connect` is
about to store is of a task that runs and that the slot does not name. -/
structure Stored (s : Runtime) : Prop where
  slot : ∀ q, s.sendEventMessageTask = some q → (s.senders q).pc ≠ .absent
  storing : ∀ k q, s.calls k = .connect (.storeSender q) →
    (s.senders q).runs = true ∧ s.sendEventMessageTask ≠ some q

theorem stored_step {a : ClientAction} (h : step cfg s a = some s') (hc : Control s)
    (hr : RxLock s) (hi : Stored s) : Stored s' := by
  by_cases ha : ∃ k, a = .call k
  · obtain ⟨k, rfl⟩ := ha
    obtain ⟨hslot, hstore⟩ := callStep_slot h
    obtain ⟨-, c, hcalls, -⟩ := callStep_packet h
    refine ⟨fun q hq => step_sender_present h ?_, fun j q hj => ?_⟩
    · rcases hslot q hq with hq | hk
      · exact hi.slot q hq
      · exact (runs_iff.mp (hi.storing k q hk).1).2.1
    · by_cases hjk : j = k
      · -- the call has just spawned the task of the period
        subst hjk
        obtain ⟨hk, rfl⟩ := hstore q hj
        have hsome : callStep s j = some s' := h
        rw [callStep, hk] at hsome
        cases hsome
        refine ⟨by simp [setCall, spawnSender, Sender.runs], fun hq => ?_⟩
        exact hi.slot _ hq (hr.spawning j (by rw [hk]; rfl))
      · rw [hcalls, Function.update_of_ne hjk] at hj
        obtain ⟨hruns, hne⟩ := hi.storing j q hj
        refine ⟨(step_sender_runs h hr hne hruns).1, fun hq => ?_⟩
        rcases hslot q hq with hq | hk
        · exact hne hq
        · -- only one of them can be inside
          have hin := hc.outside (k := j) (by rw [hj]; rfl) (j := k) (Ne.symm hjk)
          rw [hk] at hin
          cases hin
  · push Not at ha
    obtain ⟨hslot, hstore⟩ := step_slot_other h ha
    refine ⟨fun q hq => step_sender_present h (hi.slot q (hslot ▸ hq)), fun j q hj => ?_⟩
    obtain ⟨hruns, hne⟩ := hi.storing j q (hstore j q hj)
    exact ⟨(step_sender_runs h hr hne hruns).1, by rwa [hslot]⟩

theorem stored_of_reachable {guard : Runtime → ClientAction → Prop}
    (h : (system cfg).ReachableWhen guard s) : Stored s :=
  h.invariant (I := Stored) ⟨by simp [system, initial], by simp [system, initial]⟩
    fun _ _ _ hr _ hs hi => stored_step hs (control_of_reachable hr) (rxLock_of_reachable hr) hi

/-! ## A task without a handle -/

/-- The task runs, and neither the slot nor a call has its handle. -/
structure Orphan (s : Runtime) (p : Nat) : Prop where
  runs : (s.senders p).runs = true
  unslotted : s.sendEventMessageTask ≠ some p
  unstored : ∀ k, s.calls k ≠ .connect (.storeSender p)

/-- A `connect` dropped at the store of the handle leaves an orphan. -/
theorem orphan_of_drop (hc : Control s) (hi : Stored s) (hk : s.calls k = .connect (.storeSender p))
    (h : step cfg s (.drop k) = some s') : Orphan s' p := by
  obtain ⟨hruns, hne⟩ := hi.storing k p hk
  obtain rfl : s.dropCall k = s' := by
    simp only [step] at h
    split at h
    · exact Option.some.inj h
    · cases h
  refine ⟨hruns, hne, fun j hj => ?_⟩
  by_cases hjk : j = k
  · simp [dropCall, setCall, hjk] at hj
  · have hj' : s.calls j = .connect (.storeSender p) := by
      rw [← hj]
      exact (Function.update_of_ne hjk ..).symm
    have hout := hc.outside (k := k) (by rw [hk]; rfl) hjk
    rw [hj'] at hout
    cases hout

theorem orphan_step {a : ClientAction} (h : step cfg s a = some s') (hr : RxLock s)
    (hi : Orphan s p) : Orphan s' p := by
  have hruns := (step_sender_runs h hr hi.unslotted hi.runs).1
  by_cases ha : ∃ k, a = .call k
  · obtain ⟨k, rfl⟩ := ha
    obtain ⟨hslot, hstore⟩ := callStep_slot h
    obtain ⟨-, c, hcalls, -⟩ := callStep_packet h
    refine ⟨hruns, fun hp => ?_, fun j hj => ?_⟩
    · rcases hslot p hp with hp | hk
      · exact hi.unslotted hp
      · exact hi.unstored k hk
    · by_cases hjk : j = k
      · subst hjk
        obtain ⟨hk, rfl⟩ := hstore p hj
        exact (runs_iff.mp hi.runs).2.1 (hr.spawning j (by rw [hk]; rfl))
      · rw [hcalls, Function.update_of_ne hjk] at hj
        exact hi.unstored j hj
  · push Not at ha
    obtain ⟨hslot, hstore⟩ := step_slot_other h ha
    exact ⟨hruns, by rw [hslot]; exact hi.unslotted, fun j hj => hi.unstored j (hstore j p hj)⟩

/-! ## disconnect never returns -/

/-- A `disconnect` that has stored `Stopping` goes on, is dropped, or returns from its last
step. -/
theorem step_stopping {a : ClientAction} (h : step cfg s a = some s')
    (hk : stopping (s.calls k) = true) :
    stopping (s'.calls k) = true ∨ s'.calls k = .dropped ∨
      ∃ packet, s.calls k = .disconnect packet .storeStopped := by
  rcases step_control h with ⟨-, hc⟩ | ⟨j, c, -, hidle, -, hc⟩ | ⟨j, -, hj⟩ | ⟨j, -, -, rfl⟩
  · exact .inl (by rwa [hc])
  · have hkj : k ≠ j := by
      rintro rfl
      rw [hidle] at hk
      cases hk
    exact .inl (by rwa [hc, Function.update_of_ne hkj])
  · by_cases hkj : k = j
    · subst hkj
      have hself : ∀ (r : Runtime) (c : Call), (r.setCall k c).calls k = c := fun r c =>
        Function.update_self ..
      unfold callStep at hj
      split at hj
      · rename_i pc hcall
        rw [hcall] at hk
        cases hk
      · rename_i packet pc hcall
        rw [hcall] at hk
        cases pc <;> simp only [disconnectStep] at hj
        case lock | get | storeStopping => cases hk
        case storeStopped => exact .inr (.inr ⟨packet, hcall⟩)
        case drain =>
          split at hj <;> cases hj
          · exact .inl (by rw [hcall]; rfl)
          · exact .inl (by rw [hself]; rfl)
        case abortSender | takeLoop => split at hj <;> cases hj <;> exact .inl (by rw [hself]; rfl)
        case lockRx | awaitLoop => split at hj <;> cases hj; exact .inl (by rw [hself]; rfl)
        case cancel =>
          cases hj
          exact .inl (by rw [hself]; rfl)
      all_goals cases hj
    · obtain ⟨-, c, hc, -⟩ := callStep_packet hj
      exact .inl (by rwa [hc, Function.update_of_ne hkj])
  · by_cases hkj : k = j
    · exact .inr (.inl (by simp [dropCall, setCall, hkj]))
    · refine .inl ?_
      rw [← hk]
      exact congrArg stopping (Function.update_of_ne hkj ..)

/-- Only the last step of a `disconnect` stores `Stopped`. -/
theorem step_stopped {a : ClientAction} (h : step cfg s a = some s') (hs : s'.status = .stopped) :
    s.status = .stopped ∨ ∃ k packet, s.calls k = .disconnect packet .storeStopped := by
  rcases step_control h with ⟨hsame, -⟩ | ⟨-, -, hsame, -⟩ | ⟨k, -, hk⟩ | ⟨k, -, -, rfl⟩
  · exact .inl (hsame.status ▸ hs)
  · exact .inl (hsame.status ▸ hs)
  · rcases callStep_delivery hk with ⟨-, rfl⟩ | ⟨-, rfl⟩ | ⟨packet, q, -, rfl⟩ | ⟨packet, -, -, rfl⟩ |
      ⟨packet, m, buffer, -, -, rfl⟩ | ⟨packet, hk, -⟩ | ⟨c, hb⟩
    · cases hs
    · exact .inl hs
    · exact .inl hs
    · exact .inl hs
    · exact .inl hs
    · exact .inr ⟨k, packet, hk⟩
    · rcases hb.status with hst | hst
      · exact .inl (hst ▸ hs)
      · rw [hst] at hs
        cases hs
  · exact .inl hs

/-- While a send task holds the receiver no `disconnect` is at its last step. -/
theorem not_at_last (hr : RxLock s) (hh : (s.senders p).pc.holdsRx = true) (k : Nat)
    (packet : Option Nat) : s.calls k ≠ .disconnect packet .storeStopped := by
  intro hk
  have hcall := (hr.calls k).mp (by rw [hk]; rfl)
  rw [(hr.senders p).mp hh] at hcall
  cases hcall

/-- The orphan has the receiver, and a `disconnect` that has stored `Stopping` goes on. -/
structure Blocked (s₀ : Runtime) (p : Nat) (s : Runtime) : Prop where
  orphan : Orphan s p
  holds : (s.senders p).pc.holdsRx = true
  status : s₀.status ≠ .stopped → s.status ≠ .stopped
  stopping : ∀ k, stopping (s₀.calls k) = true →
    stopping (s.calls k) = true ∨ s.calls k = .dropped

theorem blocked_step {s₀ : Runtime} {a : ClientAction} (h : step cfg s a = some s')
    (hr : RxLock s) (hi : Blocked s₀ p s) : Blocked s₀ p s' := by
  have hlast := not_at_last hr hi.holds
  refine ⟨orphan_step h hr hi.orphan, ?_, fun hs hs' => ?_, fun k hk => ?_⟩
  · exact (step_sender_runs h hr hi.orphan.unslotted hi.orphan.runs).2 hi.holds
  · rcases step_stopped h hs' with hs' | ⟨k, packet, hk⟩
    · exact hi.status hs hs'
    · exact hlast k packet hk
  · rcases hi.stopping k hk with hk | hk
    · rcases step_stopping h hk with hk' | hk' | ⟨packet, hk'⟩
      · exact .inl hk'
      · exact .inr hk'
      · exact absurd hk' (hlast k packet)
    · refine .inr ((step_other_call h ?_ ?_ (by simp [hk])).trans hk)
      · rintro rfl
        simp [step, callStep, hk] at h
      · rintro rfl
        simp [step, awaits, hk] at h

/-- **A `connect` dropped with the handle of its send task blocks every later `disconnect`.**
In every run after the drop the task runs on and nothing aborts it. Once it has taken the
receiver it keeps it, the status does not become `Stopped` again, and a `disconnect` that has
stored `Stopping` never returns. -/
theorem orphan_blocks_disconnect {cfg : ClientConfig} {s s₁ s₂ : Runtime} {k p : Nat}
    (hr : (system cfg).Reachable s) (hk : s.calls k = .connect (.storeSender p))
    (hd : step cfg s (.drop k) = some s₁) (h₂ : (system cfg).PathWhen (fun _ _ => True) s₁ s₂) :
    (s₂.senders p).runs = true ∧
      (s₂.rxLock = some (.sender p) → ∀ s₃, (system cfg).PathWhen (fun _ _ => True) s₂ s₃ →
        s₃.rxLock = some (.sender p) ∧ (s₂.status ≠ .stopped → s₃.status ≠ .stopped) ∧
          ∀ j, stopping (s₂.calls j) = true →
            stopping (s₃.calls j) = true ∨ s₃.calls j = .dropped) := by
  have hr₁ : (system cfg).Reachable s₁ := hr.next (a := .drop k) hd
  have hr₂ : (system cfg).Reachable s₂ := hr₁.path (fun _ _ _ => trivial) h₂
  have horphan : Orphan s₂ p :=
    h₂.keeps (fun _ _ _ hr _ hs hi => orphan_step hs (rxLock_of_reachable hr) hi) hr₁
      (orphan_of_drop (control_of_reachable hr) (stored_of_reachable hr) hk hd)
  refine ⟨horphan.runs, fun hrx s₃ h₃ => ?_⟩
  have hr₃ : (system cfg).Reachable s₃ := hr₂.path (fun _ _ _ => trivial) h₃
  have hblocked : Blocked s₂ p s₃ :=
    h₃.keeps (fun _ _ _ hr _ hs hi => blocked_step hs (rxLock_of_reachable hr) hi) hr₂
      ⟨horphan, ((rxLock_of_reachable hr₂).senders p).mpr hrx, id, fun _ => .inl⟩
  exact ⟨((rxLock_of_reachable hr₃).senders p).mp hblocked.holds, hblocked.status,
    hblocked.stopping⟩

/-- The `disconnect` waits for the receiver that the task of the first period holds. -/
def waitsForOrphan (s : Runtime) : Bool :=
  s.calls 1 = .disconnect none .lockRx && s.rxLock = some (.sender 1) && s.status = .stopping

/-- The `connect` is at its last store, and dropped there it leads to such a wait. -/
def losesHandle (cfg : ClientConfig) (s : Runtime) : Bool :=
  s.calls 0 = .connect (.storeSender 1) &&
    ((step cfg s (.drop 0)).bind fun s₁ =>
      (system cfg).exec s₁ (.sender 1 :: callRun 1 5 .disconnect)).any waitsForOrphan

theorem orphan_blocks_disconnect_run :
    ∃ s₂, (system (.postcard false)).Reachable s₂ ∧ s₂.calls 1 = .disconnect none .lockRx ∧
      ∀ s₃, (system (.postcard false)).PathWhen (fun _ _ => True) s₂ s₃ →
        s₃.status ≠ .stopped ∧ (stopping (s₃.calls 1) = true ∨ s₃.calls 1 = .dropped) := by
  obtain ⟨s, hr, hs⟩ := System.exists_reachable_of_exec (S := system (.postcard false))
    (l := callRun 0 7 .connect) (p := losesHandle (.postcard false)) (by decide +kernel)
  simp only [losesHandle, Bool.and_eq_true, decide_eq_true_eq] at hs
  obtain ⟨hk, hs⟩ := hs
  obtain ⟨s₂, hs, hwaits⟩ := (Option.any_eq_true ..).mp hs
  obtain ⟨s₁, hd, hexec⟩ := Option.bind_eq_some_iff.mp hs
  simp only [waitsForOrphan, Bool.and_eq_true, decide_eq_true_eq] at hwaits
  obtain ⟨⟨hcall, hrx⟩, hstopping⟩ := hwaits
  have hpath := System.path_of_exec hexec
  have hr₁ : (system (.postcard false)).Reachable s₁ := hr.next (a := .drop 0) hd
  refine ⟨s₂, hr₁.path (fun _ _ _ => trivial) hpath, hcall, fun s₃ h₃ => ?_⟩
  obtain ⟨-, hstatus, hstop⟩ := (orphan_blocks_disconnect hr hk hd hpath).2 hrx s₃ h₃
  exact ⟨hstatus (by rw [hstopping]; simp), hstop 1 (by rw [hcall]; rfl)⟩

end Runtime

end WsIo.Client
