import WsIo.Client.RuntimeSteps

/-!
# connect and disconnect under the operate lock

* `Control`: the calls that hold `operate_lock` exclude each other, and the status, the
  cancel token and the two task slots are what the call inside relies on, in every
  reachable state.
* `operate_lock_free_settled`: a free lock leaves the status `Running` or `Stopped`, and no
  call panics, as long as no `disconnect` is dropped between its two stores.
* `disconnect_packet_ends_own_period`: a Disconnect packet stops the period of its session
  only, as long as no `connect` and no late packet comes between.
-/

namespace WsIo.Client.Runtime

open Async Core

variable {cfg : ClientConfig} {s s' : Runtime} {k : Nat}

/-! ## The call inside -/

/-- The status that a call found or stored and that holds while it is inside. -/
def statusAt : Call → Option RuntimeStatus
  | .connect .storeRunning => some .stopped
  | .connect .storeToken | .connect .spawnLoop | .connect (.storeLoop _) | .connect .spawnSender
  | .connect (.storeSender _) => some .running
  | .disconnect _ .storeStopping => some .running
  | .disconnect _ .lock | .disconnect _ .get => none
  | .disconnect _ _ => some .stopping
  | _ => none

theorem statusAt_inside {c : Call} {st : RuntimeStatus} (h : statusAt c = some st) :
    inside c = true := by
  cases c with
  | connect pc => cases pc <;> simp_all [statusAt, inside]
  | disconnect packet pc => cases pc <;> simp_all [statusAt, inside]
  | _ => cases h

theorem statusAt_stopping {c : Call} : statusAt c = some .stopping ↔ stopping c = true := by
  cases c with
  | connect pc => cases pc <;> simp [statusAt, stopping]
  | disconnect packet pc => cases pc <;> simp [statusAt, stopping]
  | _ => simp [statusAt, stopping]

/-- The calls exclude each other; the status is what the one inside relies on, and the
cancel token is the one of the period except where `connect` is about to store it. -/
structure Control (s : Runtime) : Prop where
  exclusive : ∀ k, inside (s.calls k) = true ↔ s.operateLock = some k
  status : ∀ k st, statusAt (s.calls k) = some st → s.status = st
  token : (∀ k, s.calls k ≠ .connect .storeToken) → s.cancelToken = s.period

theorem control_initial (cfg : ClientConfig) : Control (initial cfg) where
  exclusive := by simp [initial, inside]
  status := by simp [initial, statusAt]
  token := fun _ => rfl

theorem Control.outside (hc : Control s) (hk : inside (s.calls k) = true) {j : Nat} (hj : j ≠ k) :
    inside (s.calls j) = false := by
  cases hin : inside (s.calls j) with
  | false => rfl
  | true =>
    have h₁ := (hc.exclusive j).mp hin
    rw [(hc.exclusive k).mp hk] at h₁
    exact absurd (Option.some.inj h₁).symm hj

theorem Control.unlocked (hc : Control s) (h : s.operateLock = none) (j : Nat) :
    inside (s.calls j) = false := by
  cases hin : inside (s.calls j) with
  | false => rfl
  | true =>
    rw [(hc.exclusive j).mp hin] at h
    cases h

/-- While a call other than a `connect` at its token is inside, the token is the one of
the period. -/
theorem Control.token_inside (hc : Control s) (hk : inside (s.calls k) = true)
    (hne : s.calls k ≠ .connect .storeToken) : s.cancelToken = s.period := by
  refine hc.token fun j hj => ?_
  by_cases hjk : j = k
  · exact hne (hjk ▸ hj)
  · have := hc.outside hk hjk
    rw [hj] at this
    cases this

/-- The call inside moves on, or a call takes the free lock. -/
theorem Control.move {c : Call} (hc : Control s)
    (hk : inside (s.calls k) = true ∨ s.operateLock = none)
    (hcalls : s'.calls = Function.update s.calls k c)
    (hlock : s'.operateLock = if inside c then some k else none)
    (hst : ∀ st, statusAt c = some st → s'.status = st)
    (htok : c ≠ .connect .storeToken → s'.cancelToken = s'.period) : Control s' := by
  have hout : ∀ j, j ≠ k → inside (s.calls j) = false := by
    intro j hj
    rcases hk with hk | hk
    · exact hc.outside hk hj
    · exact hc.unlocked hk j
  have hself : s'.calls k = c := by rw [hcalls, Function.update_self]
  have hother : ∀ j, j ≠ k → s'.calls j = s.calls j := by
    intro j hj
    rw [hcalls, Function.update_of_ne hj]
  refine ⟨fun j => ?_, fun j st hj => ?_, fun hne => htok (hself ▸ hne k)⟩
  · by_cases hjk : j = k
    · subst hjk
      rw [hself, hlock]
      split <;> simp_all
    · rw [hother j hjk, hlock, hout j hjk]
      split
      · simp [Ne.symm hjk]
      · simp
  · by_cases hjk : j = k
    · subst hjk
      exact hst st (hself ▸ hj)
    · rw [hother j hjk] at hj
      have := statusAt_inside hj
      rw [hout j hjk] at this
      cases this

/-- A call that is not inside changes to one that is not inside. -/
theorem Control.outer {c : Call} (hc : Control s) (hsame : SameControl s s')
    (hk : inside (s.calls k) = false) (hcalls : s'.calls = Function.update s.calls k c)
    (hin : inside c = false) : Control s' := by
  have hother : ∀ j, j ≠ k → s'.calls j = s.calls j := by
    intro j hj
    rw [hcalls, Function.update_of_ne hj]
  have hself : s'.calls k = c := by rw [hcalls, Function.update_self]
  refine ⟨fun j => ?_, fun j st hj => ?_, fun hne => ?_⟩
  · rw [hsame.operateLock]
    by_cases hjk : j = k
    · subst hjk
      rw [hself, hin, ← hc.exclusive, hk]
    · rw [hother j hjk]
      exact hc.exclusive j
  · rw [hsame.status]
    by_cases hjk : j = k
    · subst hjk
      rw [hself] at hj
      have := statusAt_inside hj
      rw [hin] at this
      cases this
    · exact hc.status j st (hother j hjk ▸ hj)
  · rw [hsame.cancelToken, hsame.period]
    refine hc.token fun j hj => ?_
    by_cases hjk : j = k
    · subst hjk
      rw [hj] at hk
      cases hk
    · exact hne j (hother j hjk ▸ hj)

theorem control_connect {pc : ConnectPc} (hk : s.calls k = .connect pc)
    (h : connectStep s k pc = some s') (hc : Control s) : Control s' := by
  by_cases hl : pc = .lock
  · subst hl
    simp only [connectStep] at h
    split at h
    · rename_i hfree
      cases h
      refine hc.move (.inr hfree) rfl rfl (by simp [statusAt]) fun _ => ?_
      exact hc.token fun j hj => by
        have := hc.unlocked hfree j
        rw [hj] at this
        cases this
    · cases h
  have hin : inside (s.calls k) = true := by
    rw [hk]
    cases pc <;> first | rfl | exact absurd rfl hl
  have htok : pc ≠ .storeToken → s.cancelToken = s.period := fun hne =>
    hc.token_inside hin (by rw [hk]; simpa using hne)
  have hst : ∀ st, statusAt (.connect pc) = some st → s.status = st := fun st h =>
    hc.status k st (hk ▸ h)
  cases pc <;> simp only [connectStep] at h
  case lock => exact absurd rfl hl
  case get =>
    split at h
    · cases h
      exact hc.move (.inl hin) rfl rfl (by simp [statusAt]) fun _ => htok (by simp)
    · rename_i hs
      cases h
      refine hc.move (.inl hin) rfl ((hc.exclusive k).mp hin) ?_ fun _ => htok (by simp)
      intro st h
      cases h
      exact hs
    · cases h
      exact hc.move (.inl hin) rfl rfl (by simp [statusAt]) fun _ => htok (by simp)
  case storeRunning =>
    cases h
    exact hc.move (.inl hin) rfl ((hc.exclusive k).mp hin) (by simp [statusAt, setCall])
      fun h => absurd rfl h
  case storeToken =>
    cases h
    exact hc.move (.inl hin) rfl ((hc.exclusive k).mp hin) hst fun _ => rfl
  case storeSender =>
    cases h
    exact hc.move (.inl hin) rfl rfl (by simp [statusAt]) fun _ => htok (by simp)
  all_goals
    cases h
    exact hc.move (.inl hin) rfl ((hc.exclusive k).mp hin) hst fun _ => htok (by simp)

theorem control_disconnect {packet : Option Nat} {pc : DisconnectPc}
    (hk : s.calls k = .disconnect packet pc)
    (h : disconnectStep s k packet pc = some s') (hc : Control s) : Control s' := by
  by_cases hl : pc = .lock
  · subst hl
    simp only [disconnectStep] at h
    split at h
    · rename_i hfree
      cases h
      refine hc.move (.inr hfree) rfl rfl (by simp [statusAt]) fun _ => ?_
      exact hc.token fun j hj => by
        have := hc.unlocked hfree j
        rw [hj] at this
        cases this
    · cases h
  have hin : inside (s.calls k) = true := by
    rw [hk]
    cases pc <;> first | rfl | exact absurd rfl hl
  have htok : s.cancelToken = s.period := hc.token_inside hin (by rw [hk]; simp)
  have hst : ∀ st, statusAt (.disconnect packet pc) = some st → s.status = st := fun st h =>
    hc.status k st (hk ▸ h)
  have hlock := (hc.exclusive k).mp hin
  cases pc <;> simp only [disconnectStep] at h
  case lock => exact absurd rfl hl
  case get =>
    split at h
    · cases h
      exact hc.move (.inl hin) rfl rfl (by simp [statusAt]) fun _ => htok
    · rename_i hs
      cases h
      refine hc.move (.inl hin) rfl hlock ?_ fun _ => htok
      intro st h
      cases h
      exact hs
    · cases h
      exact hc.move (.inl hin) rfl rfl (by simp [statusAt]) fun _ => htok
  case storeStopping =>
    cases h
    exact hc.move (.inl hin) rfl hlock (by simp [statusAt, setCall]) fun _ => htok
  case abortSender =>
    split at h <;> cases h <;> exact hc.move (.inl hin) rfl hlock hst fun _ => htok
  case lockRx =>
    split at h
    · cases h
      exact hc.move (.inl hin) rfl hlock hst fun _ => htok
    · cases h
  case drain =>
    split at h
    · cases h
      refine hc.move (c := s.calls k) (.inl hin) (Function.update_eq_self k s.calls).symm ?_ ?_
        fun _ => htok
      · rw [hin]
        exact hlock
      · exact hc.status k
    · cases h
      exact hc.move (.inl hin) rfl hlock hst fun _ => htok
  case takeLoop =>
    split at h <;> cases h <;> exact hc.move (.inl hin) rfl hlock hst fun _ => htok
  case awaitLoop =>
    split at h
    · cases h
      exact hc.move (.inl hin) rfl hlock hst fun _ => htok
    · cases h
  case storeStopped =>
    cases h
    exact hc.move (.inl hin) rfl rfl (by simp [statusAt]) fun _ => htok
  case cancel =>
    cases h
    exact hc.move (.inl hin) rfl hlock hst fun _ => htok

theorem Control.same (hc : Control s) (h : SameControl s s') (hk : s'.calls = s.calls) :
    Control s' := by
  refine ⟨?_, ?_, ?_⟩
  · rw [hk, h.operateLock]
    exact hc.exclusive
  · rw [hk, h.status]
    exact hc.status
  · rw [hk, h.cancelToken, h.period]
    exact hc.token

theorem Begins.outside {a : ClientAction} {c : Call} (h : Begins s a k c) : inside c = false := by
  rcases h with ⟨r, -, rfl⟩ | ⟨i, b, m, -, -, -, rfl⟩
  · cases r <;> rfl
  · rfl

theorem control_drop (ha : awaits (s.calls k) = true) (hc : Control s) : Control (s.dropCall k) := by
  cases hin : inside (s.calls k) with
  | true =>
    refine hc.move (c := .dropped) (.inl hin) rfl ?_ (by simp [statusAt])
      fun _ => hc.token_inside hin ?_
    · simp only [dropCall, setCall, hin]
      rfl
    intro hk
    rw [hk] at ha
    cases ha
  | false =>
    refine hc.outer ⟨rfl, rfl, ?_, rfl, rfl, rfl⟩ hin rfl rfl
    simp [dropCall, hin, setCall]

theorem control_step {a : ClientAction} (h : step cfg s a = some s') (hc : Control s) :
    Control s' := by
  rcases step_control h with ⟨hsame, hk⟩ | ⟨k, c, hsame, hidle, hb, hk⟩ | ⟨k, -, hk⟩ |
    ⟨k, -, ha, rfl⟩
  · exact hc.same hsame hk
  · exact hc.outer hsame (by rw [hidle]; rfl) hk hb.outside
  · unfold callStep at hk
    split at hk
    · rename_i pc hpc
      exact control_connect hpc hk hc
    · rename_i packet pc hpc
      exact control_disconnect hpc hk hc
    all_goals cases hk
  · exact control_drop ha hc

/-- The calls exclude each other in every reachable state. -/
theorem control_of_reachable {guard : Runtime → ClientAction → Prop}
    (h : (system cfg).ReachableWhen guard s) : Control s :=
  h.invariant (I := Control) (control_initial cfg) fun _ _ _ _ _ hs hi => control_step hs hi

/-! ## No wedge -/

/-- The step does not drop a `disconnect` between its store of `Stopping` and its store of
`Stopped`. -/
def CompletesStop (s : Runtime) (a : ClientAction) : Prop :=
  ∀ k, a = .drop k → stopping (s.calls k) = false

/-- `Stopping` belongs to a `disconnect` that will store `Stopped`, and no `unreachable!()`
was reached. -/
structure Settled (s : Runtime) : Prop where
  owned : s.status = .stopping → ∃ k, stopping (s.calls k) = true
  intact : ∀ k, s.calls k ≠ .panicked

theorem Settled.not_stopping (hs : Settled s) (hc : Control s) (hk : inside (s.calls k) = true)
    (hne : stopping (s.calls k) = false) : s.status ≠ .stopping := by
  intro hst
  obtain ⟨j, hj⟩ := hs.owned hst
  by_cases hjk : j = k
  · rw [hjk, hne] at hj
    cases hj
  · have := statusAt_inside (statusAt_stopping.mpr hj)
    rw [hc.outside hk hjk] at this
    cases this

theorem Settled.free (hs : Settled s) (hc : Control s) (h : s.operateLock = none) :
    s.status ≠ .stopping := by
  intro hst
  obtain ⟨j, hj⟩ := hs.owned hst
  have := statusAt_inside (statusAt_stopping.mpr hj)
  rw [hc.unlocked h j] at this
  cases this

/-- A call moves to `c`: the status it relies on there says who owns `Stopping`. -/
theorem Settled.move {c : Call} (hs : Settled s) (hc : Control s')
    (hcalls : s'.calls = Function.update s.calls k c) (hne : c ≠ .panicked)
    (hst : statusAt c = none → s'.status ≠ .stopping) : Settled s' := by
  have hself : s'.calls k = c := by rw [hcalls, Function.update_self]
  refine ⟨fun hstop => ⟨k, ?_⟩, fun j => ?_⟩
  · rw [hself, ← statusAt_stopping]
    cases hat : statusAt c with
    | none => exact absurd hstop (hst hat)
    | some st =>
      rw [← hstop]
      exact congrArg some (hc.status k st (hself ▸ hat)).symm
  · by_cases hjk : j = k
    · rw [hjk, hself]
      exact hne
    · rw [hcalls, Function.update_of_ne hjk]
      exact hs.intact j

theorem settled_connect {pc : ConnectPc} (hk : s.calls k = .connect pc)
    (h : connectStep s k pc = some s') (hc : Control s) (hs : Settled s) : Settled s' := by
  have hc' := control_connect hk h hc
  cases pc <;> simp only [connectStep] at h
  case lock =>
    split at h
    · rename_i hfree
      cases h
      exact hs.move hc' rfl (by simp) fun _ => hs.free hc hfree
    · cases h
  case get =>
    have hne := hs.not_stopping hc (k := k) (by rw [hk]; rfl) (by rw [hk]; rfl)
    split at h
    · cases h
      exact hs.move hc' rfl (by simp) fun _ => hne
    · cases h
      exact hs.move hc' rfl (by simp) fun _ => hne
    · rename_i hst
      exact absurd hst hne
  case storeSender =>
    have hne := hs.not_stopping hc (k := k) (by rw [hk]; rfl) (by rw [hk]; rfl)
    cases h
    exact hs.move hc' rfl (by simp) fun _ => hne
  all_goals
    cases h
    exact hs.move hc' rfl (by simp) (by simp [statusAt])

theorem settled_disconnect {packet : Option Nat} {pc : DisconnectPc}
    (hk : s.calls k = .disconnect packet pc)
    (h : disconnectStep s k packet pc = some s') (hc : Control s) (hs : Settled s) :
    Settled s' := by
  have hc' := control_disconnect hk h hc
  cases pc <;> simp only [disconnectStep] at h
  case lock =>
    split at h
    · rename_i hfree
      cases h
      exact hs.move hc' rfl (by simp) fun _ => hs.free hc hfree
    · cases h
  case get =>
    have hne := hs.not_stopping hc (k := k) (by rw [hk]; rfl) (by rw [hk]; rfl)
    split at h
    · cases h
      exact hs.move hc' rfl (by simp) fun _ => hne
    · cases h
      exact hs.move hc' rfl (by simp) fun _ => hne
    · rename_i hst
      exact absurd hst hne
  case abortSender =>
    split at h <;> cases h <;> exact hs.move hc' rfl (by simp) (by simp [statusAt])
  case lockRx =>
    split at h
    · cases h
      exact hs.move hc' rfl (by simp) (by simp [statusAt])
    · cases h
  case drain =>
    split at h
    · cases h
      exact ⟨hs.owned, hs.intact⟩
    · cases h
      exact hs.move hc' rfl (by simp) (by simp [statusAt])
  case takeLoop =>
    split at h <;> cases h <;> exact hs.move hc' rfl (by simp) (by simp [statusAt])
  case awaitLoop =>
    split at h
    · cases h
      exact hs.move hc' rfl (by simp) (by simp [statusAt])
    · cases h
  case storeStopped =>
    cases h
    exact hs.move hc' rfl (by simp) fun _ => by simp [finishCall, setCall]
  all_goals
    cases h
    exact hs.move hc' rfl (by simp) (by simp [statusAt])

theorem settled_step {a : ClientAction} (ha : CompletesStop s a) (h : step cfg s a = some s')
    (hc : Control s) (hs : Settled s) : Settled s' := by
  rcases step_control h with ⟨hsame, hk⟩ | ⟨k, c, hsame, hidle, hb, hk⟩ | ⟨k, -, hk⟩ |
    ⟨k, rfl, hk, rfl⟩
  · refine ⟨?_, ?_⟩
    · rw [hsame.status, hk]
      exact hs.owned
    · rw [hk]
      exact hs.intact
  · refine ⟨fun hst => ?_, fun j => ?_⟩
    · rw [hsame.status] at hst
      obtain ⟨j, hj⟩ := hs.owned hst
      refine ⟨j, ?_⟩
      rw [hk, Function.update_of_ne]
      · exact hj
      · rintro rfl
        rw [hidle] at hj
        cases hj
    · rw [hk]
      by_cases hjk : j = k
      · subst hjk
        rw [Function.update_self]
        rintro rfl
        rcases hb with ⟨r, -, hr⟩ | ⟨i, b, m, -, -, -, hr⟩
        · cases r <;> cases hr
        · cases hr
      · rw [Function.update_of_ne hjk]
        exact hs.intact j
  · unfold callStep at hk
    split at hk
    · rename_i pc hpc
      exact settled_connect hpc hk hc hs
    · rename_i packet pc hpc
      exact settled_disconnect hpc hk hc hs
    all_goals cases hk
  · -- the dropped call had not stored `Stopping`
    have hne := ha k rfl
    refine ⟨fun hst => ?_, fun j => ?_⟩
    · obtain ⟨j, hj⟩ := hs.owned hst
      refine ⟨j, ?_⟩
      have hjk : j ≠ k := by
        rintro rfl
        rw [hne] at hj
        cases hj
      simpa [dropCall, setCall, Function.update_of_ne hjk] using hj
    · by_cases hjk : j = k
      · subst hjk
        simp [dropCall, setCall]
      · simpa [dropCall, setCall, Function.update_of_ne hjk] using hs.intact j

/-- **connect and disconnect do not wedge.** As long as no `disconnect` is dropped between
its store of `Stopping` and its store of `Stopped`, a free `operate_lock` leaves the status
`Running` or `Stopped`, and no call takes an `unreachable!()` arm. -/
theorem operate_lock_free_settled (cfg : ClientConfig) (s : Runtime)
    (h : (system cfg).ReachableWhen CompletesStop s) :
    (s.operateLock = none → s.status = .running ∨ s.status = .stopped) ∧
      ∀ k, s.calls k ≠ .panicked := by
  have hs : Settled s := h.invariant (I := Settled)
    ⟨by simp [system, initial], by simp [system, initial]⟩
    fun s a s' hr ha hstep hi => settled_step ha hstep (control_of_reachable hr) hi
  refine ⟨fun hfree => ?_, hs.intact⟩
  have hne := hs.free (control_of_reachable h) hfree
  cases hst : s.status with
  | running => exact .inl rfl
  | stopped => exact .inr rfl
  | stopping => exact absurd hst hne

/-- The steps of a call from its start. -/
def callRun (k n : Nat) (r : Request) : List ClientAction :=
  .start k r :: List.replicate n (.call k)

/-- A `disconnect` is dropped while it waits for the lock that a `connect` holds. -/
theorem operate_lock_free_settled_run :
    ∃ s, (system (.postcard false)).ReachableWhen CompletesStop s ∧ s.operateLock = none ∧
      s.calls 1 = .dropped ∧ (s.status = .running ∨ s.status = .stopped) ∧
      ∀ k, s.calls k ≠ .panicked := by
  obtain ⟨s, hr, hs⟩ := System.exists_reachableWhen_of_execWhen
    (S := system (.postcard false))
    (g := fun s a => match a with | .drop k => !stopping (s.calls k) | _ => true)
    (l := List.flatten [callRun 0 4 .connect, [.start 1 .disconnect, .drop 1],
      List.replicate 4 (.call 0)])
    (p := fun s => decide (s.operateLock = none ∧ s.calls 1 = .dropped)) (by decide +kernel)
  have hr' : (system (.postcard false)).ReachableWhen CompletesStop s := by
    refine hr.mono fun s a ha k hk => ?_
    subst hk
    simpa using ha
  obtain ⟨hfree, hdrop⟩ := of_decide_eq_true hs
  obtain ⟨h₁, h₂⟩ := operate_lock_free_settled _ s hr'
  exact ⟨s, hr', hfree, hdrop, h₁ hfree, h₂⟩

/-- An event handler that awaits `disconnect` is dropped by the token that this
`disconnect` cancels, at its wait for the buffer; the next `connect` panics. -/
theorem operate_lock_free_wedged :
    ¬ ∀ s, (system (.postcard false)).Reachable s →
      (s.operateLock = none → s.status = .running ∨ s.status = .stopped) ∧
        ∀ k, s.calls k ≠ .panicked := by
  intro h
  obtain ⟨s, hr, hs⟩ := System.exists_reachable_of_exec (S := system (.postcard false))
    (l := List.flatten [callRun 0 8 .connect, [.sender 1], callRun 1 5 .disconnect, [.drop 1],
      callRun 2 2 .connect])
    (p := fun s => decide (s.calls 2 = .panicked)) (by decide +kernel)
  exact (h s hr).2 2 (of_decide_eq_true hs)

/-! ## Disconnect packets -/

/-- Only the store of `Running` begins a period, and a call keeps the packet it was
spawned for. -/
theorem callStep_packet (h : callStep s k = some s') :
    (s'.period = s.period ∨ s.calls k = .connect .storeRunning) ∧
      ∃ c, s'.calls = Function.update s.calls k c ∧
        ∀ packet pc, c = .disconnect packet pc → ∃ pc', s.calls k = .disconnect packet pc' := by
  unfold callStep at h
  split at h
  · rename_i pc hk
    cases pc <;> simp only [connectStep] at h
    case lock =>
      split at h
      · cases h
        exact ⟨.inl rfl, _, rfl, by simp⟩
      · cases h
    case get => split at h <;> cases h <;> exact ⟨.inl rfl, _, rfl, by simp⟩
    case storeRunning =>
      cases h
      exact ⟨.inr hk, _, rfl, by simp⟩
    all_goals
      cases h
      exact ⟨.inl rfl, _, rfl, by simp⟩
  · rename_i packet pc hk
    have hkeep : ∀ pc', ∀ packet₁ pc₁, Call.disconnect packet pc' = .disconnect packet₁ pc₁ →
        ∃ pc', s.calls k = .disconnect packet₁ pc' := by
      intro pc' packet₁ pc₁ h
      cases h
      exact ⟨pc, hk⟩
    cases pc <;> simp only [disconnectStep] at h
    case lock =>
      split at h
      · cases h
        exact ⟨.inl rfl, _, rfl, hkeep _⟩
      · cases h
    case get =>
      split at h
      · cases h
        exact ⟨.inl rfl, _, rfl, by simp⟩
      · cases h
        exact ⟨.inl rfl, _, rfl, hkeep _⟩
      · cases h
        exact ⟨.inl rfl, _, rfl, by simp⟩
    case abortSender => split at h <;> cases h <;> exact ⟨.inl rfl, _, rfl, hkeep _⟩
    case lockRx =>
      split at h
      · cases h
        exact ⟨.inl rfl, _, rfl, hkeep _⟩
      · cases h
    case drain =>
      split at h
      · cases h
        exact ⟨.inl rfl, s.calls k, (Function.update_eq_self k s.calls).symm,
          fun _ pc' h => ⟨pc', h⟩⟩
      · cases h
        exact ⟨.inl rfl, _, rfl, hkeep _⟩
    case takeLoop => split at h <;> cases h <;> exact ⟨.inl rfl, _, rfl, hkeep _⟩
    case awaitLoop =>
      split at h
      · cases h
        exact ⟨.inl rfl, _, rfl, hkeep _⟩
      · cases h
    case storeStopped =>
      cases h
      exact ⟨.inl rfl, _, rfl, by simp⟩
    all_goals
      cases h
      exact ⟨.inl rfl, _, rfl, hkeep _⟩
  all_goals cases h

/-- No `connect` begins a period while the `disconnect` of a Disconnect packet waits for
`operate_lock`, and no session receives a Disconnect packet in a later period than its own. -/
def PacketsOnTime (s : Runtime) (a : ClientAction) : Prop :=
  (∀ k, a = .call k → s.calls k = .connect .storeRunning →
    ∀ j i, s.calls j ≠ .disconnect (some i) .lock) ∧
  (∀ i b k m, a = .session i b k → s.sessions i = some m →
    Session.effect m.session b = some .disconnect → m.period = s.period)

/-- A `disconnect` that a packet spawned runs in the period of its session. -/
def OnTime (s : Runtime) : Prop :=
  ∀ k i pc, s.calls k = .disconnect (some i) pc → ∃ m, s.sessions i = some m ∧ m.period = s.period

theorem onTime_step {a : ClientAction} (ha : PacketsOnTime s a) (h : step cfg s a = some s')
    (hc : Control s) (hi : OnTime s) : OnTime s' := by
  -- the session stays, with its period
  have hkeep : ∀ i, s'.period = s.period → (∃ m, s.sessions i = some m ∧ m.period = s.period) →
      ∃ m, s'.sessions i = some m ∧ m.period = s'.period := by
    rintro i hp ⟨m, hm, hper⟩
    obtain ⟨m', hm', rfl | ⟨b, -, hmoved⟩⟩ := step_member h hm
    · exact ⟨m', hm', by rw [hper, hp]⟩
    · exact ⟨m', hm', by rw [hmoved.period, hper, hp]⟩
  intro j i pc hj
  rcases step_control h with ⟨hsame, hk⟩ | ⟨k, c, hsame, hidle, hb, hk⟩ | ⟨k, rfl, hk⟩ |
    ⟨k, rfl, -, rfl⟩
  · rw [hk] at hj
    exact hkeep i hsame.period (hi j i pc hj)
  · rw [hk] at hj
    by_cases hjk : j = k
    · subst hjk
      rw [Function.update_self] at hj
      rcases hb with ⟨r, -, rfl⟩ | ⟨i', b, m, rfl, hm, heff, rfl⟩
      · cases r <;> cases hj
      · cases hj
        exact hkeep i hsame.period ⟨m, hm, ha.2 i b j m rfl hm heff⟩
    · rw [Function.update_of_ne hjk] at hj
      exact hkeep i hsame.period (hi j i pc hj)
  · obtain ⟨hper, c, hcalls, hpacket⟩ := callStep_packet hk
    have hbefore : ∃ pc', s.calls j = .disconnect (some i) pc' := by
      rw [hcalls] at hj
      by_cases hjk : j = k
      · subst hjk
        rw [Function.update_self] at hj
        exact hpacket _ _ hj
      · rw [Function.update_of_ne hjk] at hj
        exact ⟨pc, hj⟩
    obtain ⟨pc', hpc'⟩ := hbefore
    rcases hper with hper | hrun
    · exact hkeep i hper (hi j i pc' hpc')
    · -- a new period: the packet's call is neither waiting nor inside
      have hjk : j ≠ k := by
        rintro rfl
        rw [hrun] at hpc'
        cases hpc'
      have hout := hc.outside (k := k) (by rw [hrun]; rfl) hjk
      have hlock := ha.1 k rfl hrun j i
      rw [hpc'] at hout hlock
      cases pc' <;> first | exact absurd rfl hlock | cases hout
  · by_cases hjk : j = k
    · subst hjk
      simp [dropCall, setCall] at hj
    · refine hkeep i rfl (hi j i pc ?_)
      simpa [dropCall, setCall, Function.update_of_ne hjk] using hj

/-- **A Disconnect packet ends its own period.** As long as no `connect` overtakes the
`disconnect` of a packet and no packet arrives in a later period than that of its session,
a `disconnect` that a packet of session `i` spawned and that is past `operate_lock` finds,
stops and cancels the period of session `i`. -/
theorem disconnect_packet_ends_own_period (cfg : ClientConfig) (s : Runtime)
    (h : (system cfg).ReachableWhen PacketsOnTime s) (k i : Nat) (pc : DisconnectPc)
    (hk : s.calls k = .disconnect (some i) pc) (hpc : pc ≠ .lock) :
    ∃ m, s.sessions i = some m ∧ m.period = s.period ∧ s.cancelToken = m.period := by
  have hi : OnTime s := h.invariant (I := OnTime) (by simp [OnTime, system, initial])
    fun s a s' hr ha hstep hi => onTime_step ha hstep (control_of_reachable hr) hi
  obtain ⟨m, hm, hper⟩ := hi k i pc hk
  refine ⟨m, hm, hper, ?_⟩
  rw [hper]
  refine (control_of_reachable h).token_inside (k := k) ?_ (by rw [hk]; simp)
  rw [hk]
  cases pc <;> first | rfl | exact absurd rfl hpc

/-- Steps of session `i`; a Disconnect packet among them spawns call `k`. -/
def sessionRun (i k : Nat) (l : List Action) : List ClientAction := l.map (.session i · k)

/-- A connect, a session, and a Disconnect packet that this session receives. -/
def packetRun : List ClientAction := callRun 0 8 .connect ++
  [.loop 1 .go, .loop 1 (.connected 0)] ++
  sessionRun 0 2 (List.replicate 10 (.owner .go) ++
    [.read (.frame (some (some (.binary [0, 0, 0])))), .read .go])

theorem disconnect_packet_ends_own_period_run :
    ∃ s m, (system (.postcard false)).ReachableWhen PacketsOnTime s ∧
      s.calls 2 = .disconnect (some 0) .cancel ∧ s.sessions 0 = some m ∧ m.period = s.period ∧
      s.cancelToken = m.period := by
  -- the first period begins before there is any other call
  have hstart : (system (.postcard false)).ReachableWhen PacketsOnTime _ :=
    .step (a := .call 0) (.step (a := .call 0) (.step (a := .call 0) (.step (a := .start 0 .connect)
      .init (by simp [PacketsOnTime]) rfl) (by simp [PacketsOnTime, setCall, entry, system]) rfl)
      (by simp [PacketsOnTime, setCall, entry, system]) rfl)
      (by
        simp only [PacketsOnTime, setCall, entry, system, Function.update_apply, initial]
        refine ⟨fun k _ _ j i => ?_, by simp⟩
        by_cases hj : j = 0 <;> simp [hj]) rfl
  -- the rest of the run begins no period
  obtain ⟨s, hr, hs⟩ := hstart.exists_execWhen
    (g := fun s a => match a with
      | .call k => s.calls k ≠ .connect .storeRunning
      | .session i b _ => match s.sessions i with
        | some m => Session.effect m.session b ≠ some .disconnect || m.period = s.period
        | none => true
      | _ => true)
    (l := List.flatten [packetRun.drop 4, [.call 2, .call 2, .call 2, .call 2]])
    (p := fun s : Runtime => decide (s.calls 2 = .disconnect (some 0) .cancel))
    (by
      intro s a ha
      refine ⟨fun k hk hrun => ?_, fun i b k m hk hm heff => ?_⟩
      · subst hk
        simp [hrun] at ha
      · subst hk
        simpa [hm, heff] using ha)
    (by decide +kernel)
  have hcall := of_decide_eq_true hs
  obtain ⟨m, hm, h₁, h₂⟩ := disconnect_packet_ends_own_period _ s hr 2 0 _ hcall (by simp)
  exact ⟨s, m, hr, hcall, hm, h₁, h₂⟩

/-- A packet's `disconnect` waits while the user disconnects and connects again; then it
stops the new period. -/
theorem disconnect_packet_ends_later_period :
    ¬ ∀ s, (system (.postcard false)).Reachable s → ∀ k i pc,
      s.calls k = .disconnect (some i) pc → pc ≠ .lock →
      ∃ m, s.sessions i = some m ∧ m.period = s.period ∧ s.cancelToken = m.period := by
  intro h
  obtain ⟨s, hr, hs⟩ := System.exists_reachable_of_exec (S := system (.postcard false))
    (l := List.flatten [packetRun, callRun 1 5 .disconnect, [.stopSender 1],
      List.replicate 3 (.call 1),
      sessionRun 0 2 (List.flatten [[.owner .cancelled], List.replicate 3 (.owner .go),
        [.owner .elapsed, .read .stop, .write .stop], List.replicate 10 (.owner .go)]),
      [.loop 1 .go, .loop 1 .go, .call 1, .call 1], callRun 3 8 .connect,
      [.call 2, .call 2, .call 2]])
    (p := fun s => decide (s.calls 2 = .disconnect (some 0) .abortSender) &&
      match s.sessions 0 with
      | some m => decide (m.period ≠ s.period)
      | none => false) (by decide +kernel)
  rw [Bool.and_eq_true] at hs
  obtain ⟨m, hm, hper, -⟩ := h s hr 2 0 _ (of_decide_eq_true hs.1) (by simp)
  have hne := hs.2
  rw [hm] at hne
  exact of_decide_eq_true hne hper

end WsIo.Client.Runtime
