import WsIo.Client.Teardown
import WsIo.Client.Wakeup

/-!
# What the call inside finds

A call of `connect` or `disconnect` that holds `operate_lock` can come to its end because
whatever it waits for can. Behind this are four facts about every reachable state:

* `Handles`: the slots of the two tasks belong to the call inside. Past the abort of
  `disconnect` no send task runs that has not been aborted, the loop whose handle it awaits
  is the one of the period, and the cancel token is cancelled.
* `Emitting`: a session runs an `emit_event_message` only while the send task makes the
  attempt.
* `LoopSession`: a loop inside `run_connection` has its session, which is not over.
* `Tokens`: the `select!` of a session waits on a token of its own period or a later one.
-/

namespace WsIo.Client

/-- A send task that runs and that no abort has reached. -/
def Sender.runs (x : Sender) : Bool := !x.aborted && x.pc ≠ .absent && x.pc ≠ .ended

/-- The owner comes to its `select!` by loading the token. -/
theorem Session.step_select {cfg : ClientConfig} {s s' : Session} {a : Action}
    (h : step cfg s a = some s') (hs : s'.owner = .select) (ha : ∃ j, a = .owner j) :
    s.owner = .loadToken := by
  obtain ⟨j, rfl⟩ := ha
  simp only [step] at h
  cases j with
  | go =>
    simp only [ownerStep] at h
    unfold ownerGo at h
    split at h
    all_goals grind [→ awaitTask_cases]
  | _ => grind [ownerStep]

namespace Runtime

open Async Core

variable {cfg : ClientConfig} {s s' : Runtime} {k p : Nat}

/-- No `connect` is dropped with the handle of its send task. -/
def KeepsSender (s : Runtime) (a : ClientAction) : Prop :=
  ∀ k p, a = .drop k → s.calls k ≠ .connect (.storeSender p)

/-! ## The call inside -/

/-- The call that holds `operate_lock`. -/
def current (s : Runtime) : Call := s.operateLock.elim .idle s.calls

theorem current_of_inside (hc : Control s) (hk : inside (s.calls k) = true) :
    s.current = s.calls k := by
  rw [current, (hc.exclusive k).mp hk]
  rfl

theorem current_free (h : s.operateLock = none) : s.current = .idle := by
  rw [current, h]
  rfl

theorem current_setCall (h : s.operateLock = some k) (c : Call) : (s.setCall k c).current = c := by
  simp [current, setCall, h]

theorem current_finishCall (s : Runtime) (k : Nat) (c : Call) : (s.finishCall k c).current = .idle :=
  rfl

/-- A call that does not hold the lock changes, the one that holds it does not. -/
theorem current_update {c : Call} (hc : Control s) (hlock : s'.operateLock = s.operateLock)
    (hout : inside (s.calls k) = false) (hcalls : s'.calls = Function.update s.calls k c) :
    s'.current = s.current := by
  unfold current
  rw [hlock, hcalls]
  cases ho : s.operateLock with
  | none => rfl
  | some j =>
    have hne : j ≠ k := by
      rintro rfl
      rw [(hc.exclusive j).mpr ho] at hout
      cases hout
    exact Function.update_of_ne hne ..

/-- How a step moves the call inside. -/
theorem step_current {a : ClientAction} (h : step cfg s a = some s') (hc : Control s) :
    (SameControl s s' ∧ s'.current = s.current ∧ ∀ k, a ≠ .call k) ∨
      (∃ k, a = .call k ∧ callStep s k = some s') ∨
      (∃ k, a = .drop k ∧ inside (s.calls k) = true ∧ s' = s.dropCall k ∧ s'.current = .idle) := by
  rcases step_control h with ⟨hsame, hk⟩ | ⟨k, c, hsame, hidle, hb, hk⟩ | ⟨k, rfl, hk⟩ |
    ⟨k, rfl, -, rfl⟩
  · by_cases ha : ∃ k, a = .call k
    · obtain ⟨k, rfl⟩ := ha
      exact .inr (.inl ⟨k, rfl, h⟩)
    · push Not at ha
      refine .inl ⟨hsame, ?_, ha⟩
      rw [current, hsame.operateLock, hk]
      rfl
  · by_cases ha : ∃ k, a = .call k
    · obtain ⟨k, rfl⟩ := ha
      exact .inr (.inl ⟨k, rfl, h⟩)
    · push Not at ha
      exact .inl ⟨hsame, current_update hc hsame.operateLock (by rw [hidle]; rfl) hk, ha⟩
  · exact .inr (.inl ⟨k, rfl, hk⟩)
  · cases hin : inside (s.calls k) with
    | true =>
      refine .inr (.inr ⟨k, rfl, hin, rfl, ?_⟩)
      simp [current, dropCall, setCall, hin]
    | false =>
      have hlock : (s.dropCall k).operateLock = s.operateLock := by simp [dropCall, hin, setCall]
      exact .inl ⟨⟨rfl, rfl, hlock, rfl, rfl, rfl⟩, current_update hc hlock hin rfl, by simp⟩

/-- What a call step finds: the lock is free and the call waits for it, or the call is the
one inside. -/
theorem callStep_current (h : callStep s k = some s') (hc : Control s) :
    (s.operateLock = none ∧ (s.calls k = .connect .lock ∨ ∃ packet, s.calls k = .disconnect packet .lock)) ∨
      (inside (s.calls k) = true ∧ s.operateLock = some k ∧ s.current = s.calls k) := by
  cases hin : inside (s.calls k) with
  | true => exact .inr ⟨rfl, (hc.exclusive k).mp hin, current_of_inside hc hin⟩
  | false =>
    refine .inl ?_
    unfold callStep at h
    split at h
    · rename_i pc hk
      cases pc <;> rw [hk] at hin <;> cases hin
      simp only [connectStep] at h
      split at h
      · rename_i hfree
        exact ⟨hfree, .inl hk⟩
      · cases h
    · rename_i packet pc hk
      cases pc <;> rw [hk] at hin <;> cases hin
      simp only [disconnectStep] at h
      split at h
      · rename_i hfree
        exact ⟨hfree, .inr ⟨packet, hk⟩⟩
      · cases h
    all_goals cases h

/-! ## What a step leaves -/

/-- A loop that is there stays. -/
theorem step_loops_present {a : ClientAction} (h : step cfg s a = some s')
    (hp : s.loops p ≠ .absent) : s'.loops p ≠ .absent := by
  have hupd : ∀ q pc, s'.loops = Function.update s.loops q pc → pc ≠ .absent →
      s'.loops p ≠ .absent := by
    intro q pc hl hne
    rw [hl, Function.update_apply]
    split
    · exact hne
    · exact hp
  rcases step_loops h with hl | ⟨k, -, -, hl⟩ | ⟨q, pc, x, -, -, hpc, hl⟩ |
    ⟨i, b, k, m, c, -, -, -, -, ⟨-, hl⟩ | ⟨-, hl⟩⟩
  · rwa [hl]
  · exact hupd _ _ hl (by simp)
  · refine hupd _ _ hl ?_
    rintro rfl
    rcases hpc with hb | hb | ⟨i, hb, -⟩ <;> cases hb
  · exact hupd _ _ hl (by simp)
  · exact hupd _ _ hl (by simp)

/-- A call spawns the send task of the period, or it aborts the task of the slot. -/
theorem callStep_senders (h : callStep s k = some s') :
    s'.senders = s.senders ∨
      (s.calls k = .connect .spawnSender ∧
        s'.senders = Function.update s.senders s.period ⟨.lockRx, false⟩) ∨
      ∃ p, s.sendEventMessageTask = some p ∧
        s'.senders = Function.update s.senders p ⟨(s.senders p).pc, true⟩ := by
  unfold callStep at h
  split at h
  · rename_i pc hk
    cases pc <;> simp only [connectStep] at h
    case lock => split at h <;> cases h; exact .inl rfl
    case get => split at h <;> cases h <;> exact .inl rfl
    case spawnSender =>
      cases h
      exact .inr (.inl ⟨hk, rfl⟩)
    all_goals cases h; exact .inl rfl
  · rename_i packet pc _
    cases pc <;> simp only [disconnectStep] at h
    case abortSender =>
      split at h
      · cases h
        exact .inl rfl
      · rename_i p hp
        cases h
        exact .inr (.inr ⟨p, hp, rfl⟩)
    case lock | lockRx | awaitLoop => split at h <;> cases h; exact .inl rfl
    case get | drain | takeLoop => split at h <;> cases h <;> exact .inl rfl
    all_goals cases h; exact .inl rfl
  all_goals cases h

theorem runs_iff {x : Sender} :
    x.runs = true ↔ x.aborted = false ∧ x.pc ≠ .absent ∧ x.pc ≠ .ended := by
  simp [Sender.runs, and_assoc]

/-- What a step does to a send task: nothing, a step of its own, its end after an abort, the
abort by its handle in the slot, or its spawn. -/
theorem step_sender {a : ClientAction} (h : step cfg s a = some s') (p : Nat) :
    s'.senders p = s.senders p ∨
      (∃ pc, a = .sender p ∧ s'.senders p = ⟨pc, (s.senders p).aborted⟩ ∧
        (s.senders p).pc ≠ .absent ∧ (s.senders p).pc ≠ .ended ∧ pc ≠ .absent ∧ pc ≠ .ended ∧
        ((s.senders p).pc.holdsRx = true → pc.holdsRx = true)) ∨
      (a = .stopSender p ∧ (s.senders p).aborted = true ∧ s'.senders p = ⟨.ended, true⟩) ∨
      (∃ k, a = .call k ∧ s.sendEventMessageTask = some p ∧
        s'.senders p = ⟨(s.senders p).pc, true⟩) ∨
      (∃ k, a = .call k ∧ s.calls k = .connect .spawnSender ∧ p = s.period ∧
        s'.senders p = ⟨.lockRx, false⟩) := by
  have hother : ∀ {q : Nat} {x : Sender}, p ≠ q → s'.senders = Function.update s.senders q x →
      s'.senders p = s.senders p := by
    intro q x hpq hs
    rw [hs, Function.update_of_ne hpq]
  rcases step_delivery h with ⟨hsame, -, -⟩ | ⟨k, m, buffer, -, -, rfl⟩ | ⟨q, rfl, hq⟩ |
    ⟨q, rfl, hq⟩ | ⟨k, rfl, hk⟩ | ⟨k, -, -, rfl⟩
  · exact .inl (by rw [hsame.senders])
  · exact .inl rfl
  · obtain ⟨pc, hs, hcases⟩ := senderStep_delivery hq
    by_cases hpq : p = q
    · subst hpq
      refine .inr (.inl ⟨pc, rfl, by rw [hs, Function.update_self], ?_⟩)
      rcases hcases with ⟨h₁, rfl, -⟩ | ⟨m, h₁, rfl, -⟩ | ⟨h₁, h₂, -⟩ | ⟨m, i, h₁, -, rfl, -⟩
      · simp [h₁, SenderPc.holdsRx]
      · simp [h₁, SenderPc.holdsRx]
      · refine ⟨?_, ?_, ?_, ?_, fun _ => h₂⟩ <;> intro he
        · rw [he] at h₁
          cases h₁
        · rw [he] at h₁
          cases h₁
        · rw [he] at h₂
          cases h₂
        · rw [he] at h₂
          cases h₂
      · refine ⟨?_, ?_, by simp, by simp, fun _ => rfl⟩ <;> intro he <;> rw [he] at h₁ <;> cases h₁
    · exact .inl (hother hpq hs)
  · obtain ⟨ha, -, -, hs, -⟩ := stopSender_delivery hq
    by_cases hpq : p = q
    · subst hpq
      exact .inr (.inr (.inl ⟨rfl, ha, by rw [hs, Function.update_self]⟩))
    · exact .inl (hother hpq hs)
  · rcases callStep_senders hk with hs | ⟨hspawn, hs⟩ | ⟨q, hq, hs⟩
    · exact .inl (by rw [hs])
    · by_cases hp : p = s.period
      · exact .inr (.inr (.inr (.inr ⟨k, rfl, hspawn, hp, by rw [hs, ← hp, Function.update_self]⟩)))
      · exact .inl (hother hp hs)
    · by_cases hpq : p = q
      · subst hpq
        exact .inr (.inr (.inr (.inl ⟨k, rfl, hq, by rw [hs, Function.update_self]⟩)))
      · exact .inl (hother hpq hs)
  · exact .inl rfl

/-- Only `connect` starts a send task. -/
theorem step_runs {a : ClientAction} (h : step cfg s a = some s') (ha : ∀ k, a ≠ .call k)
    (hp : (s'.senders p).runs = true) : (s.senders p).runs = true := by
  rcases step_sender h p with hs | ⟨pc, -, hs, h₁, h₂, -⟩ | ⟨-, -, hs⟩ | ⟨k, rfl, -⟩ | ⟨k, rfl, -⟩
  · rwa [hs] at hp
  · rw [hs] at hp
    exact runs_iff.mpr ⟨(runs_iff.mp hp).1, h₁, h₂⟩
  · rw [hs] at hp
    cases hp
  · exact absurd rfl (ha k)
  · exact absurd rfl (ha k)

/-- A cancelled token stays cancelled. -/
theorem step_cancelled {a : ClientAction} (h : step cfg s a = some s') {t : Nat}
    (ht : s.cancelled t = true) : s'.cancelled t = true := by
  have hset : ∀ u, Function.update s.cancelled u true t = true := by
    intro u
    rw [Function.update_apply]
    split
    · rfl
    · exact ht
  cases a with
  | call k =>
    simp only [step, callStep] at h
    split at h
    · rename_i pc _
      cases pc <;> simp only [connectStep] at h
      case lock => split at h <;> cases h; exact ht
      case get => split at h <;> cases h <;> exact ht
      all_goals cases h; exact ht
    · rename_i packet pc _
      cases pc <;> simp only [disconnectStep] at h
      case lock | lockRx | awaitLoop => split at h <;> cases h; exact ht
      case get | abortSender | drain | takeLoop => split at h <;> cases h <;> exact ht
      case cancel =>
        cases h
        exact hset _
      all_goals cases h; exact ht
    all_goals cases h
  | loop q x =>
    rcases loopStep_cases h with ⟨-, ⟨pc, -, rfl⟩ | ⟨i, -, -, rfl⟩⟩ <;> exact ht
  | session i b k =>
    obtain ⟨m, c, -, -, -, rfl⟩ := memberStep_some h
    have haccess : ∀ (r : Runtime) op, (r.access i k { m with session := c } op).cancelled =
        r.cancelled := by
      intro r op
      cases op with
      | none => rfl
      | some op => cases op <;> rfl
    have howner : ∀ r : Runtime, (r.afterOwner i m.session.owner { m with session := c }).cancelled =
        r.cancelled := by
      intro r
      unfold afterOwner
      split
      · rfl
      split
      · rfl
      split <;> rfl
    split
    · rw [howner, haccess]
      exact ht
    · rw [haccess]
      exact ht
  | sender q => rw [(senderStep_only h).cancelled]; exact ht
  | stopSender q => rw [(stopSender_only h).cancelled]; exact ht
  | emitStep k x =>
    rcases emitStep_cases h with ⟨_, _, -, -, rfl⟩ | ⟨_, rfl⟩ | ⟨_, _, _, _, -, rfl⟩ |
      ⟨_, _, -, -, rfl⟩ <;> exact ht
  | cancel u =>
    simp only [step] at h
    split at h
    · cases h
      exact hset u
    · cases h
  | _ =>
    simp only [step] at h
    split at h <;> cases h
    exact ht

/-! ## The handles -/

/-- The call relies on the empty slot of the send task. -/
def senderless : Call → Bool
  | .connect .lock | .connect .get => false
  | .connect _ => true
  | .disconnect _ .lock | .disconnect _ .get | .disconnect _ .storeStopping
  | .disconnect _ .abortSender => false
  | .disconnect _ _ => true
  | _ => false

/-- The `disconnect` has cancelled the token. -/
def cancelling : Call → Bool
  | .disconnect _ .lockRx | .disconnect _ .drain | .disconnect _ .takeLoop
  | .disconnect _ (.awaitLoop _) | .disconnect _ .storeStopped => true
  | _ => false

/-- What the slots of the two tasks hold, by the call inside. -/
structure Handles (s : Runtime) : Prop where
  loopSlot : slotless s.current = true ∨ s.status = .stopped → s.connectionLoopTask = none
  senderSlot : senderless s.current = true ∨ s.status = .stopped → s.sendEventMessageTask = none
  loopHandle : ∀ p, s.connectionLoopTask = some p ∨ handleOf s.current = some p →
    p = s.period ∧ s.loops p ≠ .absent
  sender : ∀ p, (s.senders p).runs = true →
    s.sendEventMessageTask = some p ∨ s.current = .connect (.storeSender p)
  cancelled : cancelling s.current = true → s.cancelled s.cancelToken = true

/-- A step that leaves the call inside and its cells alone. -/
theorem Handles.keep (hi : Handles s) (hsame : SameControl s s') (hcur : s'.current = s.current)
    (hloops : ∀ p, s.loops p ≠ .absent → s'.loops p ≠ .absent)
    (hruns : ∀ p, (s'.senders p).runs = true → (s.senders p).runs = true)
    (hcan : ∀ t, s.cancelled t = true → s'.cancelled t = true) : Handles s' := by
  refine ⟨?_, ?_, fun p hp => ?_, fun p hp => ?_, fun hp => ?_⟩
  · rw [hcur, hsame.status, hsame.connectionLoopTask]
    exact hi.loopSlot
  · rw [hcur, hsame.status, hsame.sendEventMessageTask]
    exact hi.senderSlot
  · rw [hcur, hsame.connectionLoopTask] at hp
    rw [hsame.period]
    exact (hi.loopHandle p hp).imp_right (hloops p)
  · rw [hcur, hsame.sendEventMessageTask]
    exact hi.sender p (hruns p hp)
  · rw [hcur] at hp
    rw [hsame.cancelToken]
    exact hcan _ (hi.cancelled hp)

theorem Handles.of_current {c : Call} (hcur : s'.current = c)
    (h₁ : slotless c = true ∨ s'.status = .stopped → s'.connectionLoopTask = none)
    (h₂ : senderless c = true ∨ s'.status = .stopped → s'.sendEventMessageTask = none)
    (h₃ : ∀ p, s'.connectionLoopTask = some p ∨ handleOf c = some p →
      p = s'.period ∧ s'.loops p ≠ .absent)
    (h₄ : ∀ p, (s'.senders p).runs = true →
      s'.sendEventMessageTask = some p ∨ c = .connect (.storeSender p))
    (h₅ : cancelling c = true → s'.cancelled s'.cancelToken = true) : Handles s' := by
  subst hcur
  exact ⟨h₁, h₂, h₃, h₄, h₅⟩

theorem handles_connect {pc : ConnectPc} (hk : s.calls k = .connect pc)
    (h : connectStep s k pc = some s') (hc : Control s) (hi : Handles s) : Handles s' := by
  have hstep : callStep s k = some s' := by
    rw [callStep, hk]
    exact h
  obtain ⟨h₁, h₂, h₃, h₄, h₅⟩ := hi
  rcases callStep_current hstep hc with ⟨hfree, hlock | ⟨packet, hlock⟩⟩ | ⟨hin, hlock, hcur⟩
  · -- the call takes the free lock
    rw [hk] at hlock
    cases hlock
    rw [current_free hfree] at h₁ h₂ h₃ h₄
    simp only [connectStep, hfree, if_true] at h
    cases h
    exact .of_current (current_setCall rfl _) h₁ h₂ h₃
      (fun p hp => .inl ((h₄ p hp).resolve_right (by simp))) (fun hp => by cases hp)
  · rw [hk] at hlock
    cases hlock
  have hst : ∀ st, statusAt (.connect pc) = some st → s.status = st := by
    intro st h
    exact hc.status k st (hk ▸ h)
  rw [hk] at hcur
  rw [hcur] at h₁ h₂ h₃ h₄ h₅
  cases pc <;> simp only [connectStep] at h
  case lock =>
    rw [hk] at hin
    cases hin
  case get =>
    have hslot : ∀ p, (s.senders p).runs = true → s.sendEventMessageTask = some p :=
      fun p hp => (h₄ p hp).resolve_right (by simp)
    split at h
    · cases h
      exact .of_current (current_finishCall ..) h₁ h₂ h₃ (fun p hp => .inl (hslot p hp))
        (fun hp => by cases hp)
    · rename_i hs
      cases h
      exact .of_current (current_setCall hlock _) (fun _ => h₁ (.inr hs)) (fun _ => h₂ (.inr hs)) h₃
        (fun p hp => .inl (hslot p hp)) (fun hp => by cases hp)
    · cases h
      exact .of_current (current_finishCall ..) h₁ h₂ h₃ (fun p hp => .inl (hslot p hp))
        (fun hp => by cases hp)
  case storeRunning =>
    cases h
    have hloop := h₁ (.inl rfl)
    have hsender := h₂ (.inl rfl)
    refine .of_current (current_setCall hlock _) (fun _ => hloop) (fun _ => hsender)
      (fun p hp => ?_) (fun p hp => ?_) (fun hp => by cases hp)
    · -- both slots are empty, so no handle of the period before is left
      rcases hp with hp | hp
      · rw [show s.connectionLoopTask = some p from hp] at hloop
        cases hloop
      · cases hp
    · exact .inl ((h₄ p hp).resolve_right (by simp))
  case storeToken =>
    cases h
    exact .of_current (current_setCall hlock _) (fun _ => h₁ (.inl rfl)) (fun _ => h₂ (.inl rfl)) h₃
      (fun p hp => .inl ((h₄ p hp).resolve_right (by simp))) (fun hp => by cases hp)
  case spawnLoop =>
    cases h
    have hloop := h₁ (.inl rfl)
    refine .of_current (current_setCall hlock _) (fun _ => hloop) (fun _ => h₂ (.inl rfl))
      (fun p hp => ?_) (fun p hp => .inl ((h₄ p hp).resolve_right (by simp))) (fun hp => by cases hp)
    rcases hp with hp | hp
    · rw [show s.connectionLoopTask = some p from hp] at hloop
      cases hloop
    · cases hp
      refine ⟨rfl, ?_⟩
      simp [setCall, setLoop]
  case storeLoop handle =>
    cases h
    have hrun := hst .running rfl
    refine .of_current (current_setCall hlock _) ?_ (fun _ => h₂ (.inl rfl)) (fun p hp => ?_)
      (fun p hp => .inl ((h₄ p hp).resolve_right (by simp))) (fun hp => by cases hp)
    · simp [slotless, setCall, hrun]
    · rcases hp with hp | hp
      · cases hp
        exact h₃ handle (.inr rfl)
      · cases hp
  case spawnSender =>
    cases h
    have hrun := hst .running rfl
    refine .of_current (current_setCall hlock _) ?_ (fun _ => h₂ (.inl rfl)) h₃ (fun p hp => ?_)
      (fun hp => by cases hp)
    · simp [slotless, setCall, Runtime.spawnSender, hrun]
    · by_cases hpp : p = s.period
      · exact .inr (by rw [hpp])
      · have hsame : ((s.spawnSender s.period).setCall k (.connect (.storeSender s.period))).senders p =
            s.senders p := Function.update_of_ne hpp ..
        rw [hsame] at hp
        exact .inl ((h₄ p hp).resolve_right (by simp))
  case storeSender handle =>
    cases h
    have hrun := hst .running rfl
    have hsender := h₂ (.inl rfl)
    refine .of_current (current_finishCall ..) ?_ ?_ h₃ (fun p hp => ?_) (fun hp => by cases hp)
    · simp [slotless, finishCall, setCall, hrun]
    · simp [senderless, finishCall, setCall, hrun]
    · rcases h₄ p hp with hp | hp
      · rw [hsender] at hp
        cases hp
      · cases hp
        exact .inl rfl

theorem handles_disconnect {packet : Option Nat} {pc : DisconnectPc}
    (hk : s.calls k = .disconnect packet pc) (h : disconnectStep s k packet pc = some s')
    (hc : Control s) (hi : Handles s) : Handles s' := by
  have hstep : callStep s k = some s' := by
    rw [callStep, hk]
    exact h
  obtain ⟨h₁, h₂, h₃, h₄, h₅⟩ := hi
  rcases callStep_current hstep hc with ⟨hfree, hlock | ⟨packet', hlock⟩⟩ | ⟨hin, hlock, hcur⟩
  · rw [hk] at hlock
    cases hlock
  · rw [hk] at hlock
    cases hlock
    rw [current_free hfree] at h₁ h₂ h₃ h₄
    simp only [disconnectStep, hfree, if_true] at h
    cases h
    exact .of_current (current_setCall rfl _) h₁ h₂ h₃
      (fun p hp => .inl ((h₄ p hp).resolve_right (by simp))) (fun hp => by cases hp)
  have hst : ∀ st, statusAt (.disconnect packet pc) = some st → s.status = st := by
    intro st h
    exact hc.status k st (hk ▸ h)
  rw [hk] at hcur
  rw [hcur] at h₁ h₂ h₃ h₄ h₅
  have hslot : ∀ p, (s.senders p).runs = true → s.sendEventMessageTask = some p :=
    fun p hp => (h₄ p hp).resolve_right (by simp)
  cases pc <;> simp only [disconnectStep] at h
  case lock =>
    rw [hk] at hin
    cases hin
  case get =>
    split at h
    · cases h
      exact .of_current (current_finishCall ..) h₁ h₂ h₃ (fun p hp => .inl (hslot p hp))
        (fun hp => by cases hp)
    · cases h
      exact .of_current (current_setCall hlock _) h₁ h₂ h₃ (fun p hp => .inl (hslot p hp))
        (fun hp => by cases hp)
    · cases h
      exact .of_current (current_finishCall ..) h₁ h₂ h₃ (fun p hp => .inl (hslot p hp))
        (fun hp => by cases hp)
  case storeStopping =>
    cases h
    exact .of_current (current_setCall hlock _) (by simp [slotless, setCall])
      (by simp [senderless, setCall]) h₃ (fun p hp => .inl (hslot p hp)) (fun hp => by cases hp)
  case abortSender =>
    have hstop := hst .stopping rfl
    split at h
    · rename_i hnone
      cases h
      exact .of_current (current_setCall hlock _) h₁ (fun _ => hnone) h₃
        (fun p hp => .inl (hslot p hp)) (fun hp => by cases hp)
    · rename_i q hq
      cases h
      refine .of_current (current_setCall hlock _) h₁ (fun _ => rfl) h₃ (fun p hp => ?_)
        (fun hp => by cases hp)
      -- the task in the slot is aborted, and no other runs
      by_cases hpq : p = q
      · subst hpq
        simp [setCall, Runtime.abortSender, Sender.runs] at hp
      · have hsame : (({ s with sendEventMessageTask := none }.abortSender q).setCall k
            (.disconnect packet .cancel)).senders p = s.senders p := Function.update_of_ne hpq ..
        rw [hsame] at hp
        have hsome := hslot p hp
        rw [hq] at hsome
        exact absurd (Option.some.inj hsome).symm hpq
  case cancel =>
    cases h
    refine .of_current (current_setCall hlock _) h₁ h₂ h₃ (fun p hp => .inl (hslot p hp)) fun _ => ?_
    simp [setCall]
  case drain =>
    split at h
    · cases h
      exact .of_current hcur h₁ h₂ h₃ (fun p hp => .inl (hslot p hp)) h₅
    · cases h
      exact .of_current (current_setCall hlock _) h₁ h₂ h₃ (fun p hp => .inl (hslot p hp)) h₅
  case lockRx =>
    split at h
    · cases h
      exact .of_current (current_setCall hlock _) h₁ h₂ h₃ (fun p hp => .inl (hslot p hp)) h₅
    · cases h
  case takeLoop =>
    split at h
    · rename_i hnone
      cases h
      exact .of_current (current_setCall hlock _) (fun _ => hnone) h₂ h₃
        (fun p hp => .inl (hslot p hp)) h₅
    · rename_i q hq
      cases h
      refine .of_current (current_setCall hlock _) (fun _ => rfl) h₂ (fun p hp => ?_)
        (fun p hp => .inl (hslot p hp)) h₅
      rcases hp with hp | hp
      · cases hp
      · cases hp
        exact h₃ q (.inl hq)
  case awaitLoop q =>
    split at h
    · cases h
      refine .of_current (current_setCall hlock _) (fun _ => h₁ (.inl rfl)) h₂ (fun p hp => ?_)
        (fun p hp => .inl (hslot p hp)) h₅
      exact h₃ p (.inl (hp.resolve_right (by simp [handleOf])))
    · cases h
  case storeStopped =>
    cases h
    exact .of_current (current_finishCall ..) (fun _ => h₁ (.inl rfl)) (fun _ => h₂ (.inl rfl)) h₃
      (fun p hp => .inl (hslot p hp)) (fun hp => by cases hp)

theorem handles_drop (hne : ∀ p, s.calls k ≠ .connect (.storeSender p))
    (hin : inside (s.calls k) = true) (hcur : (s.dropCall k).current = .idle) (hc : Control s)
    (hi : Handles s) : Handles (s.dropCall k) := by
  obtain ⟨h₁, h₂, h₃, h₄, -⟩ := hi
  rw [current_of_inside hc hin] at h₄
  refine .of_current hcur (fun h => h₁ (h.imp_left fun h => by cases h))
    (fun h => h₂ (h.imp_left fun h => by cases h)) (fun p hp => h₃ p (hp.imp_right fun h => by cases h))
    (fun p hp => .inl ((h₄ p hp).resolve_right (hne p))) (fun h => by cases h)

theorem handles_step {a : ClientAction} (ha : KeepsSender s a) (h : step cfg s a = some s')
    (hc : Control s) (hi : Handles s) : Handles s' := by
  rcases step_current h hc with ⟨hsame, hcur, hcall⟩ | ⟨k, rfl, hk⟩ | ⟨k, rfl, hin, rfl, hcur⟩
  · exact hi.keep hsame hcur (fun p => step_loops_present h) (fun p => step_runs h hcall)
      (fun t => step_cancelled h)
  · unfold callStep at hk
    split at hk
    · rename_i pc hpc
      exact handles_connect hpc hk hc hi
    · rename_i packet pc hpc
      exact handles_disconnect hpc hk hc hi
    all_goals cases hk
  · exact handles_drop (fun p => ha k p rfl) hin hcur hc hi

theorem handles_initial (cfg : ClientConfig) : Handles (initial cfg) := by
  constructor <;> simp [initial, current, handleOf, Sender.runs, cancelling]

theorem handles_of_reachable (h : (system cfg).ReachableWhen KeepsSender s) : Handles s :=
  h.invariant (I := Handles) (handles_initial cfg) fun _ _ _ hr ha hs hi =>
    handles_step ha hs (control_of_reachable hr) hi

/-! ## The attempts of the send tasks -/

/-- The call of `emit_event_message` has not returned. -/
def emitting : Emitter → Bool
  | .check _ | .send _ => true
  | .idle | .done _ => false

/-- A session runs an `emit_event_message` of a send task only during its attempt. -/
def Emitting (s : Runtime) : Prop :=
  ∀ p i x, s.sessions i = some x → emitting (x.session.emitters p) = true →
    ∃ m armed, (s.senders p).pc = .attempt m armed i

/-- Where the emit of send task `p` stood before a step of another task. -/
theorem step_emitter_before {a : ClientAction} (h : step cfg s a = some s') {i : Nat} {x' : Member}
    (hx' : s'.sessions i = some x') (ha : a ≠ .sender p) (ha' : a ≠ .stopSender p) :
    (∃ x, s.sessions i = some x ∧ x'.session.emitters p = x.session.emitters p) ∨
      x'.session.emitters p = .idle := by
  rcases step_member_before h hx' with hx | ⟨q, -, -, rfl⟩ | ⟨b, x, hx, -, -⟩
  · exact .inl ⟨x', hx, rfl⟩
  · exact .inr rfl
  · obtain ⟨x₁, hx₁, he⟩ := step_emitter_member h hx ha ha'
    rw [hx'] at hx₁
    cases hx₁
    exact .inl ⟨x, hx, he⟩

/-- A send task that is there moves by its own steps. -/
theorem step_senders_same {a : ClientAction} (h : step cfg s a = some s') (hr : RxLock s)
    (ha : a ≠ .sender p) (ha' : a ≠ .stopSender p) (hp : (s.senders p).pc ≠ .absent) :
    (s'.senders p).pc = (s.senders p).pc := by
  rcases step_sender h p with hs | ⟨pc, rfl, -⟩ | ⟨rfl, -⟩ | ⟨k, -, -, hs⟩ | ⟨k, -, hk, rfl, -⟩
  · rw [hs]
  · exact absurd rfl ha
  · exact absurd rfl ha'
  · rw [hs]
  · -- the task of the present period has not been spawned before
    exact absurd (hr.spawning k (by rw [hk]; rfl)) hp

theorem emitting_sender (h : senderStep cfg s p = some s') (hi : Emitting s) {i : Nat} {x' : Member}
    (hx' : s'.sessions i = some x') (he : emitting (x'.session.emitters p) = true) :
    ∃ m armed, (s'.senders p).pc = .attempt m armed i := by
  -- outside an attempt no session emits for this task
  have hidle : ∀ pc, (s.senders p).pc = pc → (∀ m armed, pc ≠ .attempt m armed i) →
      s.sessions i = some x' → False := by
    intro pc hpc hne hx
    obtain ⟨m, armed, hat⟩ := hi p i x' hx he
    exact hne m armed (hpc.symm.trans hat)
  rcases senderStep_cases h with ⟨hpc, -, rfl⟩ | ⟨m, buffer, hpc, -, rfl⟩ | ⟨m, armed, hpc, -, rfl⟩ |
    ⟨m, armed, j, x, c, hpc, -, hx, -, rfl⟩ | ⟨m, armed, j, x, c, hpc, hx, -, rfl⟩ | ⟨m, hpc, rfl⟩ |
    ⟨m, armed, hpc, -, rfl⟩
  · exact (hidle _ hpc (by simp) hx').elim
  · exact (hidle _ hpc (by simp) hx').elim
  · exact (hidle _ hpc (by simp) hx').elim
  · by_cases hij : i = j
    · subst hij
      exact ⟨m, armed, by simp [setSender]⟩
    · have hx₁ : s.sessions i = some x' := by simpa [setSender, setMember, hij] using hx'
      exact (hidle _ hpc (by simp) hx₁).elim
  · have hj : (s.setMember j { x with session := c }).sessions j = some { x with session := c } := by
      simp [setMember]
    rw [sessions_afterAttempt] at hx'
    by_cases hij : i = j
    · subst hij
      rw [hj] at hx'
      cases hx'
      rcases afterAttempt_cases p m armed hj with ⟨u, hu, -⟩ | ⟨e, hu, -⟩ | ⟨-, hsame⟩
      · rw [hu] at he
        cases he
      · rw [hu] at he
        cases he
      · exact ⟨m, armed, by rw [hsame]; exact hpc⟩
    · have hx₁ : s.sessions i = some x' := by simpa [setMember, hij] using hx'
      exact (hidle _ hpc (by simp [Ne.symm hij]) hx₁).elim
  · exact (hidle _ hpc (by simp) hx').elim
  · exact (hidle _ hpc (by simp) hx').elim

theorem emitting_stop (h : stopSender cfg s p = some s') (hi : Emitting s) {i : Nat} {x' : Member}
    (hx' : s'.sessions i = some x') : emitting (x'.session.emitters p) = false := by
  by_contra he
  rw [Bool.not_eq_false] at he
  obtain ⟨-, ⟨hpc, rfl⟩ | ⟨m, armed, j, x, c, hpc, hx, hc, rfl⟩⟩ := stopSender_cases h
  · obtain ⟨m, armed, hat⟩ := hi p i x' hx' he
    rcases hpc with hpc | hpc | ⟨_, _, hpc⟩ <;> rw [hat] at hpc <;> cases hpc
  · by_cases hij : i = j
    · subst hij
      have hself : x' = { x with session := c } :=
        Option.some.inj (hx'.symm.trans (Function.update_self ..))
      subst hself
      simp only [Session.step, Session.emitDrop] at hc
      split at hc
      · cases hc
        simp [Session.setEmitter, emitting] at he
      · cases hc
    · have hx₁ : s.sessions i = some x' := by
        simpa [endSender, setSender, setMember, hij] using hx'
      obtain ⟨_, _, hat⟩ := hi p i x' hx₁ he
      rw [hpc] at hat
      cases hat
      exact hij rfl

theorem emitting_step {a : ClientAction} (h : step cfg s a = some s') (hr : RxLock s)
    (hi : Emitting s) : Emitting s' := by
  intro p i x' hx' he
  by_cases ha : a = .sender p
  · subst ha
    exact emitting_sender h hi hx' he
  by_cases ha' : a = .stopSender p
  · subst ha'
    rw [emitting_stop h hi hx'] at he
    cases he
  rcases step_emitter_before h hx' ha ha' with ⟨x, hx, hsame⟩ | hidle
  · rw [hsame] at he
    obtain ⟨m, armed, hpc⟩ := hi p i x hx he
    exact ⟨m, armed, by rw [step_senders_same h hr ha ha' (by rw [hpc]; simp), hpc]⟩
  · rw [hidle] at he
    cases he

theorem emitting_of_reachable {guard : Runtime → ClientAction → Prop}
    (h : (system cfg).ReachableWhen guard s) : Emitting s :=
  h.invariant (I := Emitting) (by simp [Emitting, system, initial]) fun _ _ _ hr _ hs hi =>
    emitting_step hs (rxLock_of_reachable hr) hi

/-! ## Loops and their sessions -/

/-- A loop inside `run_connection` has its session, and `run_connection` is not over. -/
def LoopSession (s : Runtime) : Prop :=
  ∀ p i, s.loops p = .session i → ∃ m, s.sessions i = some m ∧ m.loop = p ∧
    m.session.owner ≠ .finished ∧ m.session.owner ≠ .panicked

theorem loopSession_step {a : ClientAction} (h : step cfg s a = some s') (hi : LoopSession s) :
    LoopSession s' := by
  intro p i hp
  -- the loop was in the session before
  have hkeep : s.loops p = .session i → ∃ m, s'.sessions i = some m ∧ m.loop = p ∧
      m.session.owner ≠ .finished ∧ m.session.owner ≠ .panicked := by
    intro hl
    obtain ⟨m, hm, hloop, hf, hpan⟩ := hi p i hl
    obtain ⟨m', hm', rfl | ⟨b, hd, hmoved⟩⟩ := step_member h hm
    · exact ⟨m', hm', hloop, hf, hpan⟩
    · refine ⟨m', hm', hmoved.loop.trans hloop, ?_⟩
      by_cases hb : isOwner b = true
      · rcases hd with ⟨k, rfl⟩ | ⟨q, x, -, rfl⟩ | ⟨q, -, rfl⟩ | ⟨q, -, rfl⟩
        · obtain ⟨m₁, c, hm₁, hc, hcases⟩ := memberStep_loops h
          rw [hm] at hm₁
          cases hm₁
          have hsess : m'.session = c := Option.some.inj (hmoved.step.symm.trans hc)
          rw [hsess]
          rcases hcases with ⟨-, hne⟩ | ⟨-, -, hl'⟩ | ⟨-, -, hl'⟩
          · exact hne hb
          · rw [hl', hloop, Function.update_self] at hp
            cases hp
          · rw [hl', hloop, Function.update_self] at hp
            cases hp
        all_goals cases hb
      · have ho := (Session.step_not_owner hmoved.step fun j hj => hb (by rw [hj]; rfl)).1
        rw [ho]
        exact ⟨hf, hpan⟩
  have hother : ∀ q pc, s'.loops = Function.update s.loops q pc →
      (∀ j, pc = .session j → q = p → s'.sessions j = some (newMember cfg s q)) →
      ∃ m, s'.sessions i = some m ∧ m.loop = p ∧
        m.session.owner ≠ .finished ∧ m.session.owner ≠ .panicked := by
    intro q pc hl hnew
    by_cases hpq : p = q
    · subst hpq
      rw [hl, Function.update_self] at hp
      exact ⟨_, hnew i hp rfl, rfl, by simp [newMember, Session.initial],
        by simp [newMember, Session.initial]⟩
    · rw [hl, Function.update_of_ne hpq] at hp
      exact hkeep hp
  rcases step_loops h with hl | ⟨k, -, -, hl⟩ | ⟨q, pc, x, -, -, hpc, hl⟩ |
    ⟨j, b, k, m, c, -, -, -, -, ⟨-, hl⟩ | ⟨-, hl⟩⟩
  · exact hkeep (hl ▸ hp)
  · exact hother _ _ hl (by simp)
  · refine hother _ _ hl fun j hj _ => ?_
    subst hj
    rcases hpc with hb | hb | ⟨j', hb, hs⟩
    · cases hb
    · cases hb
    · cases hb
      rw [hs, Function.update_self]
  · exact hother _ _ hl (by simp)
  · exact hother _ _ hl (by simp)

theorem loopSession_of_reachable {guard : Runtime → ClientAction → Prop}
    (h : (system cfg).ReachableWhen guard s) : LoopSession s :=
  h.invariant (I := LoopSession) (by simp [LoopSession, system, initial]) fun _ _ _ _ _ hs hi =>
    loopSession_step hs hi

/-! ## The tokens of the sessions -/

theorem isOwner_iff {b : Action} : isOwner b = true ↔ ∃ j, b = .owner j := by
  cases b <;> simp [isOwner]

theorem memberStep_token {i : Nat} {b : Action} {m m' : Member}
    (h : memberStep cfg s i b k = some s') (hm : s.sessions i = some m)
    (hm' : s'.sessions i = some m') :
    m'.token = some s.cancelToken ∨
      (m'.token = m.token ∧ (m'.session.owner = .select → m.session.owner = .select)) := by
  obtain ⟨m₁, c, hm₁, -, hc, rfl⟩ := memberStep_some h
  rw [hm] at hm₁
  cases hm₁
  have htoken : ∀ n : Member, n.token = m.token → n.session = c →
      (c.owner = .select → m.session.owner = .select) →
      n.token = some s.cancelToken ∨
        (n.token = m.token ∧ (n.session.owner = .select → m.session.owner = .select)) := by
    intro n ht hn ho
    exact .inr ⟨ht, by rw [hn]; exact ho⟩
  by_cases ho : isOwner b = true
  · rw [if_pos ho, sessions_afterOwner, sessions_access, if_neg (effect_owner ho)] at hm'
    by_cases hl : m.session.owner = .loadToken
    · rw [if_pos hl, Function.update_self] at hm'
      cases hm'
      exact .inl (by rw [(SameControl.access ..).cancelToken]; rfl)
    · rw [if_neg hl] at hm'
      simp only [setMember, Function.update_self, Option.some.injEq] at hm'
      subst hm'
      refine htoken _ rfl rfl fun hs => ?_
      exact absurd (Session.step_select hc hs (isOwner_iff.mp ho)) hl
  · have hsame := (Session.step_not_owner hc fun j hj => ho (by rw [hj]; rfl)).1
    rw [if_neg ho, sessions_access] at hm'
    split at hm'
    · rw [Function.update_self] at hm'
      cases hm'
      exact htoken _ rfl rfl fun hs => hsame ▸ hs
    · simp only [setMember, Function.update_self, Option.some.injEq] at hm'
      subst hm'
      exact htoken _ rfl rfl fun hs => hsame ▸ hs

/-- A send task leaves the owner of a session and its token alone. -/
theorem sender_member {a : ClientAction} (ha : a = .sender p ∨ a = .stopSender p)
    (h : step cfg s a = some s') {i : Nat} {m m' : Member} (hm : s.sessions i = some m)
    (hm' : s'.sessions i = some m') :
    m'.token = m.token ∧ m'.session.owner = m.session.owner := by
  have hkeep : s'.sessions = s.sessions →
      m'.token = m.token ∧ m'.session.owner = m.session.owner := by
    intro hs
    rw [hs, hm] at hm'
    cases hm'
    exact ⟨rfl, rfl⟩
  have hupd : ∀ j b x c, s.sessions j = some x → Session.step cfg x.session b = some c →
      (∀ n, b ≠ .owner n) → s'.sessions = Function.update s.sessions j (some { x with session := c }) →
      m'.token = m.token ∧ m'.session.owner = m.session.owner := by
    intro j b x c hx hc hb hs
    rw [hs] at hm'
    by_cases hij : i = j
    · subst hij
      rw [hm] at hx
      cases hx
      rw [Function.update_self] at hm'
      cases hm'
      exact ⟨rfl, (Session.step_not_owner hc hb).1⟩
    · rw [Function.update_of_ne hij, hm] at hm'
      cases hm'
      exact ⟨rfl, rfl⟩
  rcases ha with rfl | rfl
  · rcases senderStep_cases h with ⟨-, -, rfl⟩ | ⟨_, _, -, -, rfl⟩ | ⟨_, _, -, -, rfl⟩ |
      ⟨_, _, j, x, c, -, -, hx, hc, rfl⟩ | ⟨_, _, j, x, c, -, hx, hc, rfl⟩ | ⟨_, -, rfl⟩ |
      ⟨_, _, -, -, rfl⟩
    case inr.inr.inr.inl => exact hupd j _ x c hx hc (by simp) rfl
    case inr.inr.inr.inr.inl => exact hupd j _ x c hx hc (by simp) (sessions_afterAttempt ..)
    all_goals exact hkeep rfl
  · obtain ⟨-, ⟨-, rfl⟩ | ⟨_, _, j, x, c, -, hx, hc, rfl⟩⟩ := stopSender_cases h
    · exact hkeep rfl
    · exact hupd j _ x c hx hc (by simp) rfl

/-- The loops of a period begin after its token is stored, and so do the sessions of that
loop; a session at its `select!` has loaded a token since. -/
structure Tokens (s : Runtime) : Prop where
  le : s.cancelToken ≤ s.period
  loops : ∀ p, s.loops p ≠ .absent → p ≤ s.cancelToken
  members : ∀ i m, s.sessions i = some m → m.loop ≤ s.cancelToken
  select : ∀ i m, s.sessions i = some m → m.session.owner = .select →
    ∃ t, m.token = some t ∧ m.loop ≤ t ∧ t ≤ s.cancelToken

/-- A later token leaves the sessions and loops that are there where they were. -/
theorem Tokens.grow (hi : Tokens s) (hle : s'.cancelToken ≤ s'.period)
    (hgrow : s.cancelToken ≤ s'.cancelToken)
    (hloops : ∀ p, s'.loops p ≠ .absent → s.loops p ≠ .absent ∨ p ≤ s'.cancelToken)
    (hmembers : ∀ i m, s'.sessions i = some m → m.loop ≤ s.cancelToken ∧
      (m.session.owner = .select → ∃ t, m.token = some t ∧ m.loop ≤ t ∧ t ≤ s.cancelToken)) :
    Tokens s' := by
  refine ⟨hle, fun p hp => ?_, fun i m hm => ?_, fun i m hm ho => ?_⟩
  · rcases hloops p hp with hp | hp
    · exact Nat.le_trans (hi.loops p hp) hgrow
    · exact hp
  · exact Nat.le_trans (hmembers i m hm).1 hgrow
  · obtain ⟨t, ht, hl, hle⟩ := (hmembers i m hm).2 ho
    exact ⟨t, ht, hl, Nat.le_trans hle hgrow⟩

/-- What a step does to the period and the cancel token. -/
theorem step_cancelToken {a : ClientAction} (h : step cfg s a = some s') (hi : s.cancelToken ≤ s.period) :
    s.cancelToken ≤ s'.cancelToken ∧ s'.cancelToken ≤ s'.period := by
  rcases step_control h with ⟨hsame, -⟩ | ⟨k, c, hsame, -⟩ | ⟨k, rfl, hk⟩ | ⟨k, rfl, -, rfl⟩
  · rw [hsame.cancelToken, hsame.period]
    exact ⟨Nat.le_refl _, hi⟩
  · rw [hsame.cancelToken, hsame.period]
    exact ⟨Nat.le_refl _, hi⟩
  · unfold callStep at hk
    split at hk
    · rename_i pc _
      cases pc <;> simp only [connectStep] at hk
      case lock => split at hk <;> cases hk; exact ⟨Nat.le_refl _, hi⟩
      case get => split at hk <;> cases hk <;> exact ⟨Nat.le_refl _, hi⟩
      case storeRunning =>
        cases hk
        exact ⟨Nat.le_refl _, Nat.le_succ_of_le hi⟩
      case storeToken =>
        cases hk
        exact ⟨hi, Nat.le_refl _⟩
      all_goals cases hk; exact ⟨Nat.le_refl _, hi⟩
    · rename_i packet pc _
      cases pc <;> simp only [disconnectStep] at hk
      case lock | lockRx | awaitLoop => split at hk <;> cases hk; exact ⟨Nat.le_refl _, hi⟩
      case get | abortSender | drain | takeLoop =>
        split at hk <;> cases hk <;> exact ⟨Nat.le_refl _, hi⟩
      all_goals cases hk; exact ⟨Nat.le_refl _, hi⟩
    all_goals cases hk
  · exact ⟨Nat.le_refl _, hi⟩

theorem tokens_step {a : ClientAction} (h : step cfg s a = some s') (hc : Control s)
    (hi : Tokens s) : Tokens s' := by
  obtain ⟨hgrow, hle⟩ := step_cancelToken h hi.le
  refine hi.grow hle hgrow (fun p hp => ?_) fun i m' hm' => ?_
  · rcases step_loops h with hl | ⟨k, rfl, hk, hl⟩ | ⟨q, pc, x, -, hb, -, hl⟩ |
      ⟨i, b, k, m, c, -, hm, -, -, ho⟩
    · exact .inl (hl ▸ hp)
    · by_cases hpp : p = s.period
      · -- the token of the period is stored before its loop is spawned
        have htok := hc.token_inside (k := k) (by rw [hk]; rfl) (by rw [hk]; simp)
        exact .inr (by rw [hpp, ← htok]; exact hgrow)
      · rw [hl, Function.update_of_ne hpp] at hp
        exact .inl hp
    · by_cases hpq : p = q
      · subst hpq
        refine .inl fun he => ?_
        rw [he] at hb
        cases hb
      · rw [hl, Function.update_of_ne hpq] at hp
        exact .inl hp
    · by_cases hpm : p = m.loop
      · exact .inr (hpm ▸ Nat.le_trans (hi.members i m hm) hgrow)
      · rcases ho with ⟨-, hl⟩ | ⟨-, hl⟩ <;> rw [hl, Function.update_of_ne hpm] at hp <;>
          exact .inl hp
  · rcases step_member_before h hm' with hm | ⟨p, rfl, -, rfl⟩ | ⟨b, m, hm, hd, hmoved⟩
    · exact ⟨hi.members i m' hm, hi.select i m' hm⟩
    · -- the loop of a new session is there
      refine ⟨hi.loops p fun he => ?_, by simp [newMember, Session.initial]⟩
      have hstep : loopStep cfg s p (.connected i) = some s' := h
      have hb := (loopStep_cases hstep).1
      rw [he] at hb
      cases hb
    · rw [hmoved.loop]
      refine ⟨hi.members i m hm, fun ho => ?_⟩
      have hkeep : m'.token = m.token → m.session.owner = .select →
          ∃ t, m'.token = some t ∧ m.loop ≤ t ∧ t ≤ s.cancelToken := by
        intro ht hs
        rw [ht]
        exact hi.select i m hm hs
      by_cases hs : ∃ k, a = .session i b k
      · obtain ⟨k, rfl⟩ := hs
        rcases memberStep_token h hm hm' with ht | ⟨ht, hs⟩
        · exact ⟨_, ht, hi.members i m hm, Nat.le_refl _⟩
        · exact hkeep ht (hs ho)
      · have hsender : ∃ p, a = .sender p ∨ a = .stopSender p := by
          rcases hd with ⟨k, rfl⟩ | ⟨p, x, rfl, -⟩ | ⟨p, rfl, -⟩ | ⟨p, rfl, -⟩
          · exact absurd ⟨k, rfl⟩ hs
          · exact ⟨p, .inl rfl⟩
          · exact ⟨p, .inl rfl⟩
          · exact ⟨p, .inr rfl⟩
        obtain ⟨p, ha⟩ := hsender
        obtain ⟨ht, hs⟩ := sender_member ha h hm hm'
        exact hkeep ht (hs ▸ ho)

theorem tokens_of_reachable {guard : Runtime → ClientAction → Prop}
    (h : (system cfg).ReachableWhen guard s) : Tokens s := by
  refine h.invariant (I := Tokens) ⟨?_, ?_, ?_, ?_⟩ fun _ _ _ hr _ hs hi =>
    tokens_step hs (control_of_reachable hr) hi
  all_goals simp [system, initial]

end Runtime

end WsIo.Client
