import WsIo.Client.Delivery

/-!
# The wake-up of the send task

The send task waits on a `Notified` created before its second attempt. A wake-up is lost
when the session is ready and has called `notify_waiters`, and the task still waits on a
`Notified` created after that call. `send_task_not_left_waiting`: this does not happen as
long as a session is published before it calls `notify_waiters` and no second attempt meets
a ready session whose write task has ended.
-/

namespace WsIo.Client

open Async Core

/-- `run_connection` has published the session. -/
def OwnerPc.published (pc : OwnerPc) : Bool :=
  !pc.beforeWrite && pc ≠ .publish

/-- The read task is past the transition to `Ready`. -/
def ReadPc.readied : ReadPc → Bool
  | .abortReadyTimeout | .notify | .spawnOnReady => true
  | _ => false

namespace Session

variable {cfg : ClientConfig} {s s' : Session}

/-- The state is `Ready`, or the session is going down. -/
def ReadyOrDown (st : SessionState) : Prop := st = .ready ∨ isDown st = true

theorem step_published {a : Action} (h : step cfg s a = some s')
    (hp : s.owner.published = true) : s'.owner.published = true := by
  by_cases ha : ∃ i, a = .owner i
  · obtain ⟨i, rfl⟩ := ha
    simp only [step] at h
    cases i with
    | go =>
      simp only [ownerStep] at h
      unfold ownerGo at h
      split at h
      all_goals grind [OwnerPc.published, OwnerPc.beforeWrite, OwnerPc.beforeRead, → awaitTask_cases]
    | _ => grind [ownerStep, OwnerPc.published, OwnerPc.beforeWrite, OwnerPc.beforeRead]
  · push Not at ha
    rw [(step_not_owner h ha).1]
    exact hp

/-- A published session that is ready or going down stays so, and one that is going down
does not become ready. -/
theorem step_readyOrDown {a : Action} (h : step cfg s a = some s')
    (hp : s.owner.published = true) (hs : ReadyOrDown s.state) :
    ReadyOrDown s'.state ∧ (s.state ≠ .ready → s'.state ≠ .ready) := by
  by_cases ha : ∃ i, a = .read i
  · obtain ⟨i, rfl⟩ := ha
    rcases readStep_state h with he | ⟨d, -, -, he, -⟩ | ⟨d, -, -, he, -⟩ | ⟨-, -, he, -⟩
    · rw [he]
      exact ⟨hs, id⟩
    all_goals
      rw [he] at hs
      rcases hs with hs | hs <;> cases hs
  · push Not at ha
    rcases (step_outside h ha).2 with he | he | ⟨ho, -, -⟩
    · rw [he]
      exact ⟨hs, id⟩
    · refine ⟨.inr he, fun _ hr => ?_⟩
      rw [hr] at he
      cases he
    · rw [ho] at hp
      cases hp

theorem handleFrame_readied (cfg : ClientConfig) (f : Frame) :
    (handleFrame cfg f).readied = false := by
  rcases handleFrame_cases cfg f with h | h | h | ⟨e, d, m, h, -⟩ | ⟨d, m, h, -⟩ | ⟨m, h, -⟩ <;>
    rw [h] <;> rfl

theorem readStep_readied {i : ReadInput} (h : readStep cfg s i = some s')
    (hr : s'.read.readied = true) :
    s'.state = .ready ∨ (s.read.readied = true ∧ s'.state = s.state) := by
  cases i with
  | go =>
    simp only [readStep] at h
    unfold readGo at h
    obtain ⟨w, t, hw⟩ := abortInitTimeout_eq s
    obtain ⟨w', t', hw'⟩ := abortReadyTimeout_eq s
    split at h
    all_goals grind [transition_cases, sendPacket_ok, ReadPc.readied]
  | frame f =>
    simp only [readStep] at h
    split at h
    · cases h
      simp [handleFrame_readied] at hr
    · cases h
  | outcome o d => grind [readStep, ReadPc.readied]
  | stop => grind [readStep, ReadPc.readied]

/-- Past its transition to `Ready` the read task sees a ready session or one going down. -/
theorem readied_of_reachable {guard : Session → Action → Prop}
    (h : (system cfg).ReachableWhen guard s) (hr : s.read.readied = true) :
    ReadyOrDown s.state := by
  revert hr
  refine h.invariant (I := fun s => s.read.readied = true → ReadyOrDown s.state) ?_ ?_
  · intro hr
    cases hr
  · intro s a s' hreach _ hstep ih hr
    by_cases ha : ∃ i, a = .read i
    · obtain ⟨i, rfl⟩ := ha
      rcases readStep_readied hstep hr with he | ⟨hr', he⟩
      · exact .inl he
      · rw [he]
        exact ih hr'
    · push Not at ha
      obtain ⟨hread, hstate⟩ := step_outside hstep ha
      rcases hread with hread | ⟨-, -, hread⟩
      · rw [hread] at hr
        rcases hstate with he | he | ⟨ho, -, -⟩
        · rw [he]
          exact ih hr
        · exact .inr he
        · have := (reads_of_reachable hreach).unread (by rw [ho]; rfl)
          rw [this] at hr
          cases hr
      · rw [hread] at hr
        cases hr

theorem effect_publish {a : Action} (h : effect s a = some .publish) :
    a = .owner .go ∧ s.owner = .publish := by
  unfold effect at h
  split at h
  · split at h
    · rename_i ho
      exact ⟨rfl, ho⟩
    all_goals cases h
  · split at h <;> cases h
  · cases h

theorem effect_notify {a : Action} (h : effect s a = some .notify) :
    a = .read .go ∧ s.read = .notify := by
  unfold effect at h
  split at h
  · split at h <;> cases h
  · split at h
    · rename_i hr
      exact ⟨rfl, hr⟩
    all_goals cases h
  · cases h

end Session

namespace Runtime

variable {cfg : ClientConfig} {s s' : Runtime} {p : Nat}

/-- The `Notified` of the send task, by the number of notifications before it. -/
def armedAt : SenderPc → Option Nat
  | .load _ armed | .attempt _ armed _ => armed
  | .wait _ armed => some armed
  | .absent | .lockRx | .recv | .arm _ | .ended => none

/-- Only sessions write the slot and notify. -/
theorem step_slot {a : ClientAction} (h : step cfg s a = some s') :
    (s'.session = s.session ∧ s'.notifications = s.notifications ∧ ∀ i b k, a ≠ .session i b k) ∨
      ∃ i b k x x', a = .session i b k ∧ s.sessions i = some x ∧ s'.sessions i = some x' ∧
        Moved cfg x x' b ∧ s'.session = slotAfter i s.session (Session.effect x.session b) ∧
        s'.notifications =
          if Session.effect x.session b = some .notify then s.notifications + 1
          else s.notifications := by
  cases a with
  | session i b k =>
    obtain ⟨x, x', hx, -, hmoved, hs, hslot, hn⟩ := memberStep_sessions h
    exact .inr ⟨i, b, k, x, x', rfl, hx, by rw [hs, Function.update_self], hmoved, hslot, hn⟩
  | sender p => exact .inl ⟨(senderStep_only h).session, (senderStep_only h).notifications, by simp⟩
  | stopSender p => exact .inl ⟨(stopSender_only h).session, (stopSender_only h).notifications, by simp⟩
  | call k => exact .inl ⟨(callStep_sessions h).2.1, (callStep_sessions h).2.2.1, by simp⟩
  | emitStep k x => exact .inl ⟨(emitStep_only h).session, (emitStep_only h).notifications, by simp⟩
  | loop p x =>
    rcases loopStep_cases h with ⟨-, ⟨pc, -, rfl⟩ | ⟨i, -, -, rfl⟩⟩
    · exact .inl ⟨rfl, rfl, by simp⟩
    · exact .inl ⟨rfl, rfl, by simp⟩
  | _ =>
    simp only [step] at h
    split at h
    · cases h
      exact .inl ⟨rfl, rfl, by simp⟩
    · cases h

/-! ## The send task and the notifications -/

/-- A send task creates its `Notified` at the present count. -/
def Armed (s : Runtime) : Prop :=
  ∀ p g, armedAt (s.senders p).pc = some g → g ≤ s.notifications

theorem armedAt_missed (m : Buffered) (armed : Option Nat) : armedAt (missed m armed) = armed := by
  cases armed <;> rfl

/-- What a step of a send task does to its `Notified`: nothing, or it creates or drops one. -/
theorem senderStep_armed (h : senderStep cfg s p = some s') :
    armedAt (s'.senders p).pc = armedAt (s.senders p).pc ∨ armedAt (s'.senders p).pc = none ∨
      armedAt (s'.senders p).pc = some s.notifications := by
  rcases senderStep_cases h with ⟨-, -, rfl⟩ | ⟨m, buffer, -, -, rfl⟩ | ⟨m, armed, hpc, -, rfl⟩ |
    ⟨m, armed, i, x, c, hpc, -, -, -, rfl⟩ | ⟨m, armed, i, x, c, hpc, hx, hc, rfl⟩ | ⟨m, -, rfl⟩ |
    ⟨m, armed, -, -, rfl⟩
  · exact .inr (.inl (by simp [setSender, armedAt]))
  · exact .inr (.inl (by simp [setSender, armedAt]))
  · refine .inl ?_
    rw [hpc]
    simp only [setSender, Function.update_self]
    exact armedAt_missed m armed
  · exact .inl (by simp [setSender, hpc, armedAt])
  · have hx' : (s.setMember i { x with session := c }).sessions i =
        some { x with session := c } := by
      simp [setMember]
    rcases afterAttempt_cases p m armed hx' with ⟨u, -, he⟩ | ⟨e, -, he⟩ | ⟨-, he⟩
    · rw [he]
      exact .inr (.inl (by simp [setSender, armedAt]))
    · rw [he]
      refine .inl ?_
      rw [hpc]
      simp only [setSender, Function.update_self]
      exact armedAt_missed m armed
    · rw [he]
      exact .inl rfl
  · exact .inr (.inr (by simp [setSender, armedAt]))
  · exact .inr (.inl (by simp [setSender, armedAt]))

theorem notifications_le {a : ClientAction} (h : step cfg s a = some s') :
    s.notifications ≤ s'.notifications := by
  rcases step_slot h with ⟨-, hn, -⟩ | ⟨i, b, k, x, x', -, -, -, -, -, hn⟩
  · exact Nat.le_of_eq hn.symm
  · rw [hn]
    split
    · exact Nat.le_succ _
    · exact Nat.le_refl _

/-- A `Notified` after a step was created before it or at the count before it. -/
theorem armed_before {a : ClientAction} (h : step cfg s a = some s') (hi : Armed s) {g : Nat}
    (hg : armedAt (s'.senders p).pc = some g) : g ≤ s.notifications := by
  by_cases ha : a = .sender p
  · subst ha
    rcases senderStep_armed h with he | he | he
    · exact hi p g (he ▸ hg)
    · rw [he] at hg
      cases hg
    · rw [he] at hg
      cases hg
      exact Nat.le_refl _
  by_cases ha' : a = .stopSender p
  · subst ha'
    obtain ⟨-, -, -, hs, -⟩ := stopSender_delivery h
    rw [hs, Function.update_self] at hg
    cases hg
  rcases step_senders_other h ha ha' with hs | hs
  · rw [hs] at hg
    exact hi p g hg
  · rw [hs] at hg
    cases hg

theorem armed_of_reachable {guard : Runtime → ClientAction → Prop}
    (h : (system cfg).ReachableWhen guard s) : Armed s :=
  h.invariant (I := Armed) (by simp [Armed, system, initial, armedAt]) fun _ _ _ _ _ hs hi _ _ hg =>
    Nat.le_trans (armed_before hs hi hg) (notifications_le hs)

/-- The session in the slot has been published. -/
def SlotPublished (s : Runtime) : Prop :=
  ∀ i, s.session = some i → ∃ x, s.sessions i = some x ∧ x.session.owner.published = true

theorem slotPublished_step {a : ClientAction} (h : step cfg s a = some s')
    (hi : SlotPublished s) : SlotPublished s' := by
  have hkeep : ∀ i, s.session = some i →
      ∃ x, s'.sessions i = some x ∧ x.session.owner.published = true := by
    intro i hslot
    obtain ⟨x, hx, hp⟩ := hi i hslot
    obtain ⟨x', hx', rfl | ⟨b, -, hmoved⟩⟩ := step_member h hx
    · exact ⟨x', hx', hp⟩
    · exact ⟨x', hx', Session.step_published hmoved.step hp⟩
  intro i hslot
  rcases step_slot h with ⟨hs, -, -⟩ | ⟨j, b, k, x, x', -, hx, hx', hmoved, hs, -⟩
  · exact hkeep i (hs ▸ hslot)
  · rw [hs] at hslot
    cases heff : Session.effect x.session b with
    | none =>
      rw [heff] at hslot
      exact hkeep i hslot
    | some op =>
      rw [heff] at hslot
      cases op with
      | publish =>
        cases hslot
        obtain ⟨rfl, ho⟩ := Session.effect_publish heff
        refine ⟨x', hx', ?_⟩
        have hstep := hmoved.step
        simp only [Session.step, Session.ownerStep, Session.ownerGo, ho,
          Option.some.injEq] at hstep
        rw [← hstep]
        rfl
      | clear => cases hslot
      | notify => exact hkeep i hslot
      | disconnect => exact hkeep i hslot

theorem slotPublished_of_reachable {guard : Runtime → ClientAction → Prop}
    (h : (system cfg).ReachableWhen guard s) : SlotPublished s :=
  h.invariant (I := SlotPublished) (by simp [SlotPublished, system, initial])
    fun _ _ _ _ _ hs hi => slotPublished_step hs hi

/-! ## No lost wake-up -/

/-- A session calls `notify_waiters` when it is in the slot, and the send task makes no
second attempt on a ready session whose write task has ended. -/
def WakesInTime (s : Runtime) (a : ClientAction) : Prop :=
  (∀ i b k x, a = .session i b k → s.sessions i = some x →
    Session.effect x.session b = some .notify → s.session = some i) ∧
  (∀ p m g i x, a = .sender p → (s.senders p).pc = .attempt m (some g) i →
    s.sessions i = some x → x.session.state = .ready → x.session.channel.closed = false)

/-- A session that has notified is published, and ready or going down. -/
def NotifiedReady (s : Runtime) : Prop :=
  ∀ i x, s.sessions i = some x → x.notified = true →
    x.session.owner.published = true ∧ Session.ReadyOrDown x.session.state

theorem notifiedReady_step {guard : Runtime → ClientAction → Prop} {a : ClientAction}
    (hreach : (system cfg).ReachableWhen guard s) (ha : WakesInTime s a)
    (h : step cfg s a = some s') (hi : NotifiedReady s) : NotifiedReady s' := by
  intro i x' hx' hn
  rcases step_member_before h hx' with hx | ⟨p, -, -, rfl⟩ | ⟨b, x, hx, hd, hmoved⟩
  · exact hi i x' hx hn
  · cases hn
  · have hbefore : x.session.owner.published = true ∧ Session.ReadyOrDown x.session.state := by
      rcases hmoved.notified.mp hn with hn | heff
      · exact hi i x hx hn
      · obtain ⟨rfl, hread⟩ := Session.effect_notify heff
        rcases hd with ⟨k, rfl⟩ | ⟨q, y, -, hq⟩ | ⟨q, -, hq⟩ | ⟨q, -, hq⟩
        · obtain ⟨x₁, hx₁, hp⟩ := slotPublished_of_reachable hreach i
            (ha.1 i _ k x rfl hx heff)
          rw [hx] at hx₁
          cases hx₁
          have hr := member_reachable (g := fun _ _ => True) (fun _ _ _ _ _ _ _ _ => trivial)
            hreach hx
          exact ⟨hp, Session.readied_of_reachable hr (by rw [hread]; rfl)⟩
        all_goals cases hq
    exact ⟨Session.step_published hmoved.step hbefore.1,
      (Session.step_readyOrDown hmoved.step hbefore.1 hbefore.2).1⟩

/-- Where a notified session in the slot comes from: a notification in this step, or the
same session in the slot before. -/
theorem notified_before {a : ClientAction} (h : step cfg s a = some s') (hslot : SlotPublished s)
    (hi : NotifiedReady s) {i : Nat} {x' : Member} (hs' : s'.session = some i)
    (hx' : s'.sessions i = some x') (hn' : x'.notified = true) :
    s'.notifications = s.notifications + 1 ∨
      (s'.notifications = s.notifications ∧ s.session = some i ∧
        ∃ x, s.sessions i = some x ∧ x.notified = true ∧
          (x.session.state ≠ .ready → x'.session.state ≠ .ready)) := by
  -- the session in the slot, when this step does not notify
  have hkeep : s'.notifications = s.notifications → s.session = some i →
      (∀ b x, Drives a i b → s.sessions i = some x → Session.effect x.session b ≠ some .notify) →
      s'.notifications = s.notifications ∧ s.session = some i ∧
        ∃ x, s.sessions i = some x ∧ x.notified = true ∧
          (x.session.state ≠ .ready → x'.session.state ≠ .ready) := by
    intro hcount hs hquiet
    refine ⟨hcount, hs, ?_⟩
    obtain ⟨x, hx, -⟩ := hslot i hs
    obtain ⟨x₁, hx₁, rfl | ⟨b, hd, hmoved⟩⟩ := step_member h hx
    · rw [hx'] at hx₁
      cases hx₁
      exact ⟨x', hx, hn', id⟩
    · rw [hx'] at hx₁
      cases hx₁
      have hn : x.notified = true := by
        rcases hmoved.notified.mp hn' with hn | heff
        · exact hn
        · exact absurd heff (hquiet b x hd hx)
      obtain ⟨hp, hst⟩ := hi i x hx hn
      exact ⟨x, hx, hn, (Session.step_readyOrDown hmoved.step hp hst).2⟩
  rcases step_slot h with ⟨hs, hcount, hno⟩ | ⟨j, b, k, x, x₁, rfl, hx, hx₁, hmoved, hs, hcount⟩
  · refine .inr (hkeep hcount (hs ▸ hs') fun b x hd _ heff => ?_)
    rcases hd with ⟨k, rfl⟩ | ⟨q, y, -, rfl⟩ | ⟨q, -, rfl⟩ | ⟨q, -, rfl⟩
    · exact hno i b k rfl
    all_goals cases heff
  · by_cases heff : Session.effect x.session b = some .notify
    · rw [if_pos heff] at hcount
      exact .inl hcount
    · rw [if_neg heff] at hcount
      have hquiet : ∀ b' x', Drives (.session j b k) i b' → s.sessions i = some x' →
          Session.effect x'.session b' ≠ some .notify := by
        intro b' x₂ hd hx₂
        rcases hd with ⟨k', hk⟩ | ⟨q, y, hq, -⟩ | ⟨q, hq, -⟩ | ⟨q, hq, -⟩
        · cases hk
          rw [hx] at hx₂
          cases hx₂
          exact heff
        all_goals cases hq
      rw [hs] at hs'
      cases hop : Session.effect x.session b with
      | none =>
        rw [hop] at hs'
        exact .inr (hkeep hcount hs' hquiet)
      | some op =>
        rw [hop] at hs'
        cases op with
        | publish =>
          -- a session that is being published has not notified
          cases hs'
          obtain ⟨-, ho⟩ := Session.effect_publish hop
          rw [hx'] at hx₁
          cases hx₁
          rcases hmoved.notified.mp hn' with hn | hn
          · have := (hi i x hx hn).1
            rw [ho] at this
            cases this
          · exact absurd hn heff
        | clear => cases hs'
        | notify => exact absurd hop heff
        | disconnect => exact .inr (hkeep hcount hs' hquiet)

/-- With a notified session in the slot, a send task whose `Notified` has not fired is
making its attempt on this session, or waits because this session is not ready. -/
structure Waking (s : Runtime) : Prop where
  waiting : ∀ i x, s.session = some i → s.sessions i = some x → x.notified = true →
    ∀ p m, (s.senders p).pc = .wait m s.notifications → x.session.state ≠ .ready
  trying : ∀ i x, s.session = some i → s.sessions i = some x → x.notified = true →
    ∀ p m j, (s.senders p).pc = .attempt m (some s.notifications) j → j = i

/-- How a send task comes to wait on a fresh `Notified`, or to its second attempt, while a
notified session is in the slot. -/
theorem senderStep_waking (h : senderStep cfg s p = some s') (ha : WakesInTime s (.sender p))
    (hat : Attempts s) (hi : Waking s) {i : Nat} {x : Member} (hslot : s.session = some i)
    (hx : s.sessions i = some x) (hn : x.notified = true) :
    (∀ m, (s'.senders p).pc = .wait m s.notifications → x.session.state ≠ .ready) ∧
      ∀ m j, (s'.senders p).pc = .attempt m (some s.notifications) j → j = i := by
  rcases senderStep_cases h with ⟨-, -, rfl⟩ | ⟨m', buffer, -, -, rfl⟩ |
    ⟨m', armed, -, hnone, -⟩ | ⟨m', armed, j, y, c, -, hslot', -, -, rfl⟩ |
    ⟨m', armed, j, y, c, hpc, hy, hc, rfl⟩ | ⟨m', -, rfl⟩ | ⟨m', armed, -, -, rfl⟩
  case inr.inr.inl =>
    rw [hslot] at hnone
    cases hnone
  case inr.inr.inr.inl =>
    rw [hslot] at hslot'
    cases hslot'
    refine ⟨by simp [setSender], fun m j hj => ?_⟩
    simp only [setSender, Function.update_self, SenderPc.attempt.injEq] at hj
    exact hj.2.2.symm
  case inr.inr.inr.inr.inl =>
    obtain ⟨y', hy', he⟩ := hat p m' armed j hpc
    rw [hy] at hy'
    cases hy'
    rcases attempt_cases s armed j hc he with ⟨-, -, -, -, hafter⟩ | ⟨hfail, -, -, hafter⟩ |
      ⟨-, hafter⟩
    · -- the check has passed: the task goes on with the same attempt
      rw [hafter]
      refine ⟨fun m hm => ?_, fun m j' hj => hi.trying i x hslot hx hn p m j' hj⟩
      have hm' : (s.senders p).pc = .wait m s.notifications := hm
      rw [hpc] at hm'
      cases hm'
    · rw [hafter]
      refine ⟨fun m hm => ?_, fun m j' hj => ?_⟩
      · -- the second attempt failed on the session in the slot
        simp only [setSender, Function.update_self] at hm
        cases armed with
        | none => cases hm
        | some g =>
          cases hm
          obtain rfl := hi.trying i x hslot hx hn p m' j hpc
          rw [hx] at hy
          cases hy
          intro hready
          rcases hfail with hne | hcl
          · exact hne hready
          · rw [ha.2 p m' _ j x rfl hpc hx hready] at hcl
            cases hcl
      · simp only [setSender, Function.update_self] at hj
        cases armed <;> cases hj
    · rw [hafter]
      exact ⟨by simp [setSender], by simp [setSender]⟩
  all_goals exact ⟨by simp [setSender], by simp [setSender]⟩

theorem waking_step {a : ClientAction} (ha : WakesInTime s a) (h : step cfg s a = some s')
    (harmed : Armed s) (hslot : SlotPublished s) (hready : NotifiedReady s) (hat : Attempts s)
    (hi : Waking s) : Waking s' := by
  -- both parts at once, for the session in the slot after the step
  have hboth : ∀ i x', s'.session = some i → s'.sessions i = some x' → x'.notified = true → ∀ p,
      (∀ m, (s'.senders p).pc = .wait m s'.notifications → x'.session.state ≠ .ready) ∧
        ∀ m j, (s'.senders p).pc = .attempt m (some s'.notifications) j → j = i := by
    intro i x' hs' hx' hn' p
    rcases notified_before h hslot hready hs' hx' hn' with hfresh | ⟨hcount, hs, x, hx, hn, hst⟩
    · -- no `Notified` is as young as the notification of this step
      refine ⟨fun m hm => ?_, fun m j hj => ?_⟩
      · have := armed_before h harmed (p := p) (g := s'.notifications) (by rw [hm]; rfl)
        omega
      · have := armed_before h harmed (p := p) (g := s'.notifications) (by rw [hj]; rfl)
        omega
    · rw [hcount]
      by_cases hsend : a = .sender p
      · subst hsend
        obtain ⟨h₁, h₂⟩ := senderStep_waking h ha hat hi hs hx hn
        exact ⟨fun m hm => hst (h₁ m hm), h₂⟩
      by_cases hstop : a = .stopSender p
      · subst hstop
        obtain ⟨-, -, -, hsenders, -⟩ := stopSender_delivery h
        rw [hsenders, Function.update_self]
        exact ⟨by simp, by simp⟩
      rcases step_senders_other h hsend hstop with hpc | hpc
      · rw [hpc]
        exact ⟨fun m hm => hst (hi.waiting i x hs hx hn p m hm), hi.trying i x hs hx hn p⟩
      · rw [hpc]
        exact ⟨by simp, by simp⟩
  exact ⟨fun i x hs hx hn p => (hboth i x hs hx hn p).1, fun i x hs hx hn p =>
    (hboth i x hs hx hn p).2⟩

/-- **No lost wake-up of the send task.** As long as every session is in the slot when it
calls `notify_waiters`, and no second attempt meets a ready session whose write task has
ended: while the slot holds a ready session that has called `notify_waiters`, no send task
waits on a notification that has not fired. -/
theorem send_task_not_left_waiting (cfg : ClientConfig) (s : Runtime)
    (h : (system cfg).ReachableWhen WakesInTime s) (i : Nat) (x : Member)
    (hslot : s.session = some i) (hx : s.sessions i = some x) (hready : x.session.state = .ready)
    (hn : x.notified = true) (p : Nat) (m : Buffered) (g : Nat)
    (hp : (s.senders p).pc = .wait m g) : g ≠ s.notifications := by
  have hi : NotifiedReady s ∧ Waking s := h.invariant (I := fun s => NotifiedReady s ∧ Waking s)
    ⟨by simp [NotifiedReady, system, initial], ⟨by simp [system, initial], by simp [system, initial]⟩⟩
    fun s a s' hr ha hs hi => ⟨notifiedReady_step hr ha hs hi.1,
      waking_step ha hs (armed_of_reachable hr) (slotPublished_of_reachable hr) hi.1
        (attempts_of_reachable hr) hi.2⟩
  rintro rfl
  exact hi.2.waiting i x hslot hx hn p m hp hready

/-- No session notifies outside the slot, and no send task makes an attempt. -/
def wakesInTime (s : Runtime) : ClientAction → Bool
  | .session i b _ =>
    match s.sessions i with
    | some x => Session.effect x.session b ≠ some .notify || s.session = some i
    | none => true
  | .sender p =>
    match (s.senders p).pc with
    | .attempt _ _ _ => false
    | _ => true
  | _ => true

/-- The send task of the first period waits beside a ready and notified session. -/
def waitsBesideReady (armed : Nat → Bool) (s : Runtime) : Bool :=
  match s.sessions 0, (s.senders 1).pc with
  | some x, .wait _ g =>
    decide (s.session = some 0 ∧ x.session.state = .ready) && x.notified && armed g
  | _, _ => false

theorem exists_of_waitsBesideReady {armed : Nat → Bool} (h : waitsBesideReady armed s = true) :
    ∃ x m g, s.session = some 0 ∧ s.sessions 0 = some x ∧ x.session.state = .ready ∧
      x.notified = true ∧ (s.senders 1).pc = .wait m g ∧ armed g = true := by
  unfold waitsBesideReady at h
  split at h
  · rename_i x m g hx hpc
    rw [Bool.and_eq_true, Bool.and_eq_true, decide_eq_true_eq] at h
    obtain ⟨⟨⟨hslot, hst⟩, hn⟩, hg⟩ := h
    exact ⟨x, m, g, hslot, hx, hst, hn, hpc, hg⟩
  · cases h

/-- The send task waits with a message while no session is there; then a session becomes
ready after it was published. -/
theorem send_task_not_left_waiting_run :
    ∃ s x m g, (system (.postcard false)).ReachableWhen WakesInTime s ∧ s.session = some 0 ∧
      s.sessions 0 = some x ∧ x.session.state = .ready ∧ x.notified = true ∧
      (s.senders 1).pc = .wait m g ∧ g ≠ s.notifications := by
  obtain ⟨s, hr, hs⟩ := System.exists_reachableWhen_of_execWhen (S := system (.postcard false))
    (g := wakesInTime)
    (l := List.flatten [callRun 0 8 .connect, [.emit 0 "a" none],
      List.replicate 3 (.emitStep 0 .go), List.replicate 5 (.sender 1),
      [.loop 1 .go, .loop 1 (.connected 0)],
      sessionRun 0 0 (List.flatten [List.replicate 10 (.owner .go),
        [.read (.frame (some (some (.binary [2, 0, 0]))))], List.replicate 8 (.read .go),
        [.read (.frame (some (some (.binary [3, 0, 0]))))], List.replicate 5 (.read .go)])])
    (p := waitsBesideReady fun _ => true) (by decide +kernel)
  have hr' : (system (.postcard false)).ReachableWhen WakesInTime s := by
    refine hr.mono fun s a ha => ⟨fun i b k x hb hx heff => ?_, fun p m g i x hp hpc => ?_⟩
    · subst hb
      simpa [wakesInTime, hx, heff] using ha
    · subst hp
      simp [wakesInTime, hpc] at ha
  obtain ⟨x, m, g, hslot, hx, hst, hn, hpc, -⟩ := exists_of_waitsBesideReady hs
  exact ⟨s, x, m, g, hr', hslot, hx, hst, hn, hpc,
    send_task_not_left_waiting _ s hr' 0 x hslot hx hst hn 1 m g hpc⟩

/-- The read task gets the whole handshake and notifies before `run_connection` stores the
session: the send task, which found no session, waits beside a ready one. -/
theorem send_task_left_waiting :
    ¬ ∀ s, (system (.postcard false)).Reachable s → ∀ i x, s.session = some i →
      s.sessions i = some x → x.session.state = .ready → x.notified = true →
      ∀ p m g, (s.senders p).pc = .wait m g → g ≠ s.notifications := by
  intro h
  obtain ⟨s, hr, hs⟩ := System.exists_reachable_of_exec (S := system (.postcard false))
    (l := List.flatten [callRun 0 8 .connect, [.emit 0 "a" none],
      List.replicate 3 (.emitStep 0 .go), [.loop 1 .go, .loop 1 (.connected 0)],
      sessionRun 0 0 (List.flatten [List.replicate 8 (.owner .go),
        [.read (.frame (some (some (.binary [2, 0, 0]))))], List.replicate 8 (.read .go),
        [.read (.frame (some (some (.binary [3, 0, 0]))))], List.replicate 5 (.read .go)]),
      List.replicate 5 (.sender 1), sessionRun 0 0 [.owner .go]])
    (p := fun s => waitsBesideReady (fun g => g = s.notifications) s) (by decide +kernel)
  obtain ⟨x, m, g, hslot, hx, hst, hn, hpc, hg⟩ := exists_of_waitsBesideReady hs
  exact h s hr 0 x hslot hx hst hn 1 m g hpc (of_decide_eq_true hg)

end Runtime

end WsIo.Client
