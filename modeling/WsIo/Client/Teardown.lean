import WsIo.Client.Cleanup
import WsIo.Client.Operate

/-!
# Sessions, loops and disconnect

* `Loops`: a session that is not over is the one its connection loop is in, so a loop has
  one session at a time.
* `LoopHandle`: the handle of a running loop is in its slot, with the `connect` that spawned
  the loop or with the `disconnect` that awaits it.
* `sessions_cleaned_up`: every session is cleaned up once, before its loop creates another
  one and before a `disconnect` returns.
-/

namespace WsIo.Client.Runtime

open Async Core

variable {cfg : ClientConfig} {s s' : Runtime} {k : Nat}

/-- Every session ends cleanly, and no `connect` is dropped with the handle of its loop. -/
def CleansUp (s : Runtime) (a : ClientAction) : Prop :=
  (∀ i b k m, a = .session i b k → s.sessions i = some m → Session.EndsCleanly m.session b) ∧
    ∀ k p, a = .drop k → s.calls k ≠ .connect (.storeLoop p)

/-- A step that a send task makes in a session ends nothing. -/
theorem CleansUp.drives {a : ClientAction} {i : Nat} {b : Action} {m : Member}
    (h : CleansUp s a) (hm : s.sessions i = some m) (hd : Drives a i b) :
    Session.EndsCleanly m.session b := by
  rcases hd with ⟨k, rfl⟩ | ⟨p, x, -, rfl⟩ | ⟨p, -, rfl⟩ | ⟨p, -, rfl⟩
  · exact h.1 i b k m rfl hm
  all_goals trivial

theorem endsCleanly_member (h : (system cfg).ReachableWhen CleansUp s) {i : Nat} {m : Member}
    (hm : s.sessions i = some m) :
    (Session.system cfg).ReachableWhen Session.EndsCleanly m.session :=
  member_reachable (fun _ _ _ _ _ ha hm hd => ha.drives hm hd) h hm

/-! ## Loops and their sessions -/

theorem unfinished_of_owner {c c' : Session} {b : Action} (hb : isOwner b = true)
    (h : Session.step cfg c b = some c') : c.owner ≠ .finished := by
  intro hf
  cases b with
  | owner j => cases j <;> simp [Session.step, Session.ownerStep, Session.ownerGo, hf] at h
  | _ => cases hb

/-- The loops of later periods are not there yet, and a session that is not over is the one
its loop is in. -/
structure Loops (s : Runtime) : Prop where
  fresh : ∀ p, s.period < p → s.loops p = .absent
  unspawned : ∀ k, s.calls k = .connect .storeToken ∨ s.calls k = .connect .spawnLoop →
    s.loops s.period = .absent
  running : ∀ i m, s.sessions i = some m → m.session.owner ≠ .finished →
    s.loops m.loop = .session i

/-- A call begins a period, or the calls about to spawn a loop were about to before. -/
theorem callStep_spawning (h : callStep s k = some s') :
    (s.calls k = .connect .storeRunning ∧ s'.period = s.period + 1) ∨
      (s'.period = s.period ∧ ∀ j, s'.calls j = .connect .storeToken ∨
        s'.calls j = .connect .spawnLoop →
        s.calls j = .connect .storeToken ∨ s.calls j = .connect .spawnLoop) := by
  -- where the call stands after the step
  have hmove : ∀ c, s'.calls = Function.update s.calls k c → c ≠ .connect .storeToken →
      (c = .connect .spawnLoop → s.calls k = .connect .storeToken) → ∀ j,
      s'.calls j = .connect .storeToken ∨ s'.calls j = .connect .spawnLoop →
        s.calls j = .connect .storeToken ∨ s.calls j = .connect .spawnLoop := by
    intro c hcalls hne hs j hj
    rw [hcalls] at hj
    by_cases hjk : j = k
    · subst hjk
      rw [Function.update_self] at hj
      exact .inl (hs (hj.resolve_left hne))
    · rwa [Function.update_of_ne hjk] at hj
  unfold callStep at h
  split at h
  · rename_i pc hk
    cases pc <;> simp only [connectStep] at h
    case storeRunning =>
      cases h
      exact .inl ⟨hk, rfl⟩
    case lock =>
      split at h
      · cases h
        exact .inr ⟨rfl, hmove _ rfl (by simp) (by simp)⟩
      · cases h
    case get => split at h <;> cases h <;> exact .inr ⟨rfl, hmove _ rfl (by simp) (by simp)⟩
    case storeToken =>
      cases h
      exact .inr ⟨rfl, hmove _ rfl (by simp) fun _ => hk⟩
    all_goals
      cases h
      exact .inr ⟨rfl, hmove _ rfl (by simp) (by simp)⟩
  · rename_i packet pc hk
    cases pc <;> simp only [disconnectStep] at h
    case lock | lockRx | awaitLoop =>
      split at h
      · cases h
        exact .inr ⟨rfl, hmove _ rfl (by simp) (by simp)⟩
      · cases h
    case get | abortSender | takeLoop =>
      split at h <;> cases h <;> exact .inr ⟨rfl, hmove _ rfl (by simp) (by simp)⟩
    case drain =>
      split at h
      · cases h
        exact .inr ⟨rfl, fun _ => id⟩
      · cases h
        exact .inr ⟨rfl, hmove _ rfl (by simp) (by simp)⟩
    all_goals
      cases h
      exact .inr ⟨rfl, hmove _ rfl (by simp) (by simp)⟩
  all_goals cases h

/-- A step that begins no period leaves the calls that are about to spawn a loop. -/
theorem step_spawning {a : ClientAction} (h : step cfg s a = some s') :
    (s'.period = s.period + 1 ∧ s'.loops = s.loops) ∨
      (s'.period = s.period ∧ ∀ j, s'.calls j = .connect .storeToken ∨
        s'.calls j = .connect .spawnLoop →
        s.calls j = .connect .storeToken ∨ s.calls j = .connect .spawnLoop) := by
  rcases step_control h with ⟨hsame, hk⟩ | ⟨k, c, hsame, hidle, hb, hk⟩ | ⟨k, rfl, hk⟩ |
    ⟨k, rfl, -, rfl⟩
  · exact .inr ⟨hsame.period, fun j hj => by rwa [hk] at hj⟩
  · refine .inr ⟨hsame.period, fun j hj => ?_⟩
    rw [hk] at hj
    by_cases hjk : j = k
    · subst hjk
      rw [Function.update_self] at hj
      have hin := hb.outside
      rcases hj with rfl | rfl <;> cases hin
    · rwa [Function.update_of_ne hjk] at hj
  · rcases callStep_spawning hk with ⟨hrun, hper⟩ | hper
    · refine .inl ⟨hper, ?_⟩
      rcases callStep_loops hk with ⟨hl, -⟩ | ⟨hs, -⟩
      · exact hl
      · rw [hrun] at hs
        cases hs
    · exact .inr hper
  · refine .inr ⟨rfl, fun j hj => ?_⟩
    by_cases hjk : j = k
    · subst hjk
      simp [dropCall, setCall] at hj
    · simpa [dropCall, setCall, Function.update_of_ne hjk] using hj

theorem loops_step {a : ClientAction} (h : step cfg s a = some s') (hc : Control s) (hi : Loops s)
    (hp : ∀ i m, s'.sessions i = some m → m.session.owner ≠ .panicked) : Loops s' := by
  -- a loop that has a session or runs between two is there
  have hthere : ∀ p, s.loops p ≠ .absent → p ≤ s.period := by
    intro p hne
    by_contra hlt
    exact hne (hi.fresh p (by omega))
  have hper : s.period ≤ s'.period := by
    rcases step_spawning h with ⟨e, -⟩ | ⟨e, -⟩ <;> omega
  have hspawn : ∀ j, s'.calls j = .connect .storeToken ∨ s'.calls j = .connect .spawnLoop →
      s.loops s'.period = .absent := by
    intro j hj
    rcases step_spawning h with ⟨e, -⟩ | ⟨e, hback⟩
    · exact hi.fresh _ (by omega)
    · rw [e]
      exact hi.unspawned j (hback j hj)
  -- a session that is not over after the step is new or was not over before
  have hback : ∀ i m', s'.sessions i = some m' → m'.session.owner ≠ .finished →
      s'.loops m'.loop = .session i ∨ s.loops m'.loop = .session i := by
    intro i m' hm' hne
    rcases step_member_before h hm' with hm | ⟨p, rfl, -, rfl⟩ | ⟨b, m, hm, -, hmoved⟩
    · exact .inr (hi.running i m' hm hne)
    · simp only [step, loopStep] at h
      split at h
      · cases h
        exact .inl (Function.update_self ..)
      · cases h
    · refine .inr ?_
      rw [hmoved.loop]
      exact hi.running i m hm fun hf => hne (Session.step_stays_finished hmoved.step hf)
  -- one loop moves
  have hmove : ∀ p pc, s'.loops = Function.update s.loops p pc → p ≤ s.period →
      (∀ j, s'.calls j = .connect .storeToken ∨ s'.calls j = .connect .spawnLoop → p ≠ s'.period) →
      (∀ i m', s'.sessions i = some m' → m'.session.owner ≠ .finished →
        s.loops m'.loop = .session i → m'.loop ≠ p) → Loops s' := by
    intro p pc hl hle hne hses
    refine ⟨fun q hlt => ?_, fun j hj => ?_, fun i m' hm' hf => ?_⟩
    · rw [hl, Function.update_of_ne (by omega)]
      exact hi.fresh q (by omega)
    · rw [hl, Function.update_of_ne (hne j hj).symm]
      exact hspawn j hj
    · rcases hback i m' hm' hf with he | he
      · exact he
      · rw [hl, Function.update_of_ne (hses i m' hm' hf he), he]
  rcases step_loops h with hl | ⟨k, rfl, hk, hl⟩ | ⟨p, pc, x, rfl, hb, hpc, hl⟩ |
    ⟨i, b, k, m, c, rfl, hm, hc', hb, ho⟩
  · refine ⟨fun p hlt => ?_, fun j hj => ?_, fun i m' hm' hne => ?_⟩
    · rw [hl]
      exact hi.fresh p (by omega)
    · rw [hl]
      exact hspawn j hj
    · rcases hback i m' hm' hne with he | he
      · exact he
      · rw [hl, he]
  · -- the loop is spawned: nothing ran under its number, and no other call is inside
    have habs := hi.unspawned k (.inr hk)
    refine hmove _ _ hl (Nat.le_refl _) (fun j hj => ?_) fun i m' _ _ he hp => ?_
    · simp only [step, callStep, hk, connectStep] at h
      cases h
      by_cases hjk : j = k
      · subst hjk
        simp [setCall] at hj
      · have hout := hc.outside (k := k) (by rw [hk]; rfl) hjk
        simp only [setCall, Function.update_of_ne hjk, setLoop] at hj
        rcases hj with hj | hj <;> rw [hj] at hout <;> cases hout
    · rw [hp, habs] at he
      cases he
  · have hne : s.loops p ≠ .absent := by
      intro he
      rw [he] at hb
      cases hb
    refine hmove p pc hl (hthere p hne) (fun j hj he => hne ?_) fun i m' _ _ he hp => ?_
    · rw [he]
      exact hspawn j hj
    · rw [← hp, he] at hb
      cases hb
  · -- the session ends, and its loop was in it
    obtain ⟨m₁, m', hm₁, -, hmoved, hsessions, -, -⟩ := memberStep_sessions h
    rw [hm] at hm₁
    cases hm₁
    have hsess : m'.session = c := Option.some.inj (hmoved.step.symm.trans hc')
    have hm' : s'.sessions i = some m' := by rw [hsessions, Function.update_self]
    have hloop := hi.running i m hm (unfinished_of_owner hb hc')
    rcases ho with ⟨hf, hl⟩ | ⟨hpanic, -⟩
    · have hne : s.loops m.loop ≠ .absent := by
        rw [hloop]
        simp
      refine hmove _ _ hl (hthere _ hne) (fun j hj he => hne ?_) fun i' m'' hm'' hnf he hp => ?_
      · rw [he]
        exact hspawn j hj
      · rw [hp, hloop] at he
        cases he
        rw [hm'] at hm''
        cases hm''
        exact hnf (hsess ▸ hf)
    · exact absurd (hsess ▸ hpanic) (hp i m' hm')

theorem loops_of_reachable (h : (system cfg).ReachableWhen CleansUp s) : Loops s := by
  refine h.invariant (I := Loops) ⟨?_, ?_, ?_⟩ fun s a s' hr ha hs hi => ?_
  · simp [system, initial]
  · simp [system, initial]
  · simp [system, initial]
  · refine loops_step hs (control_of_reachable hr) hi fun i m hm => ?_
    exact (Session.ending_of_reachable (endsCleanly_member (.step hr ha hs) hm)).unpanicked

/-! ## The handle of a loop -/

/-- The loop runs. -/
def alive (pc : LoopPc) : Bool := pc ≠ .absent && pc ≠ .ended

/-- The handle of a loop that a call holds. -/
def handleOf : Call → Option Nat
  | .connect (.storeLoop p) | .disconnect _ (.awaitLoop p) => some p
  | _ => none

/-- The call relies on the empty slot of the connection loop. -/
def slotless : Call → Bool
  | .connect .storeRunning | .connect .storeToken | .connect .spawnLoop | .connect (.storeLoop _) => true
  | .disconnect _ (.awaitLoop _) | .disconnect _ .storeStopped => true
  | _ => false

theorem slotless_inside {c : Call} (h : slotless c = true) : inside c = true := by
  unfold slotless at h
  split at h <;> first | rfl | cases h

theorem handleOf_inside {c : Call} {p : Nat} (h : handleOf c = some p) : inside c = true := by
  unfold handleOf at h
  split at h <;> first | rfl | cases h

theorem stopping_inside {c : Call} (h : stopping c = true) : inside c = true :=
  statusAt_inside (statusAt_stopping.mpr h)

/-- The handle of a running loop is in the slot or with a call, unless a `disconnect` was
dropped after its store of `Stopping`; then no call gets past the status again. -/
structure LoopHandle (s : Runtime) : Prop where
  slot : ∀ k, slotless (s.calls k) = true → s.connectionLoopTask = none
  stopped : s.status = .stopped → s.connectionLoopTask = none
  owned : ∀ p, alive (s.loops p) = true → s.connectionLoopTask = some p ∨
    (∃ k, handleOf (s.calls k) = some p) ∨
    (s.status = .stopping ∧ ∀ k, stopping (s.calls k) = false)

/-- What holds the handle while call `k` is inside. -/
theorem LoopHandle.inside (hi : LoopHandle s)
    (hout : ∀ j, j ≠ k → Runtime.inside (s.calls j) = false) {p : Nat}
    (hp : alive (s.loops p) = true) :
    s.connectionLoopTask = some p ∨ handleOf (s.calls k) = some p ∨
      (s.status = .stopping ∧ stopping (s.calls k) = false) := by
  rcases hi.owned p hp with h | ⟨j, h⟩ | ⟨h, hall⟩
  · exact .inl h
  · refine .inr (.inl ?_)
    by_cases hjk : j = k
    · rwa [hjk] at h
    · have := handleOf_inside h
      rw [hout j hjk] at this
      cases this
  · exact .inr (.inr ⟨h, hall k⟩)

/-- Call `k` moves on alone. -/
theorem LoopHandle.move {c : Call} (hout : ∀ j, j ≠ k → Runtime.inside (s.calls j) = false)
    (hcalls : s'.calls = Function.update s.calls k c)
    (hslot : slotless c = true ∨ s'.status = .stopped → s'.connectionLoopTask = none)
    (howned : ∀ p, alive (s'.loops p) = true → s'.connectionLoopTask = some p ∨
      handleOf c = some p ∨ (s'.status = .stopping ∧ stopping c = false)) : LoopHandle s' := by
  have hself : s'.calls k = c := by rw [hcalls, Function.update_self]
  have hother : ∀ j, j ≠ k → Runtime.inside (s'.calls j) = false := by
    intro j hj
    rw [hcalls, Function.update_of_ne hj]
    exact hout j hj
  refine ⟨fun j hj => ?_, fun h => hslot (.inr h), fun p hp => ?_⟩
  · by_cases hjk : j = k
    · rw [hjk, hself] at hj
      exact hslot (.inl hj)
    · have := slotless_inside hj
      rw [hother j hjk] at this
      cases this
  · rcases howned p hp with h | h | ⟨h, hstop⟩
    · exact .inl h
    · exact .inr (.inl ⟨k, by rw [hself]; exact h⟩)
    · refine .inr (.inr ⟨h, fun j => ?_⟩)
      by_cases hjk : j = k
      · rw [hjk, hself]
        exact hstop
      · cases hs : stopping (s'.calls j) with
        | false => rfl
        | true =>
          have := stopping_inside hs
          rw [hother j hjk] at this
          cases this

theorem loopHandle_connect {pc : ConnectPc} (hk : s.calls k = .connect pc)
    (h : connectStep s k pc = some s') (hc : Control s) (hi : LoopHandle s) : LoopHandle s' := by
  by_cases hl : pc = .lock
  · subst hl
    simp only [connectStep] at h
    split at h
    · rename_i hfree
      cases h
      have hown := fun p => hi.inside (k := k) (fun j _ => hc.unlocked hfree j) (p := p)
      rw [hk] at hown
      refine .move (fun j _ => hc.unlocked hfree j) rfl ?_ fun p hp => hown p hp
      rintro (h | h)
      · cases h
      · exact hi.stopped h
    · cases h
  have hin : inside (s.calls k) = true := by
    rw [hk]
    cases pc <;> first | rfl | exact absurd rfl hl
  have hout : ∀ j, j ≠ k → inside (s.calls j) = false := fun j hj => hc.outside hin hj
  have hown := fun p => hi.inside (k := k) hout (p := p)
  have hst : ∀ st, statusAt (.connect pc) = some st → s.status = st := fun st h =>
    hc.status k st (hk ▸ h)
  have hslot := hi.slot k
  rw [hk] at hown hslot
  cases pc <;> simp only [connectStep] at h
  case lock => exact absurd rfl hl
  case get =>
    split at h
    · rename_i hs
      cases h
      exact .move hout rfl (by simp [slotless, finishCall, setCall, hs]) fun p hp => hown p hp
    · rename_i hs
      cases h
      exact .move hout rfl (fun _ => hi.stopped hs) fun p hp => hown p hp
    · rename_i hs
      cases h
      exact .move hout rfl (by simp [slotless, finishCall, setCall, hs]) fun p hp => hown p hp
  case storeRunning =>
    cases h
    refine .move hout rfl (fun _ => hslot rfl) fun p hp => ?_
    rcases hown p hp with h | h | ⟨h, -⟩
    · exact .inl h
    · cases h
    · rw [hst .stopped rfl] at h
      cases h
  case storeToken =>
    cases h
    exact .move hout rfl (fun _ => hslot rfl) fun p hp => hown p hp
  case spawnLoop =>
    cases h
    refine .move hout rfl (fun _ => hslot rfl) fun p hp => ?_
    by_cases hpp : p = s.period
    · exact .inr (.inl (by rw [hpp]; rfl))
    · have hl : ((s.setLoop s.period .check).setCall k (.connect (.storeLoop s.period))).loops p =
          s.loops p := Function.update_of_ne hpp ..
      rw [hl] at hp
      rcases hown p hp with h | h | h
      · exact .inl h
      · cases h
      · exact .inr (.inr h)
  case storeLoop handle =>
    cases h
    have hrun := hst .running rfl
    refine .move hout rfl (by simp [slotless, setCall, hrun]) fun p hp => ?_
    rcases hown p hp with h | h | h
    · rw [hslot rfl] at h
      cases h
    · exact .inl h
    · exact .inr (.inr h)
  case spawnSender =>
    cases h
    exact .move hout rfl (by simp [slotless, setCall, Runtime.spawnSender, hst .running rfl])
      fun p hp => hown p hp
  case storeSender handle =>
    cases h
    exact .move hout rfl (by simp [slotless, finishCall, setCall, hst .running rfl])
      fun p hp => hown p hp

theorem loopHandle_disconnect {packet : Option Nat} {pc : DisconnectPc}
    (hk : s.calls k = .disconnect packet pc)
    (h : disconnectStep s k packet pc = some s') (hc : Control s) (hi : LoopHandle s) :
    LoopHandle s' := by
  by_cases hl : pc = .lock
  · subst hl
    simp only [disconnectStep] at h
    split at h
    · rename_i hfree
      cases h
      have hown := fun p => hi.inside (k := k) (fun j _ => hc.unlocked hfree j) (p := p)
      rw [hk] at hown
      refine .move (fun j _ => hc.unlocked hfree j) rfl ?_ fun p hp => hown p hp
      rintro (h | h)
      · cases h
      · exact hi.stopped h
    · cases h
  have hin : inside (s.calls k) = true := by
    rw [hk]
    cases pc <;> first | rfl | exact absurd rfl hl
  have hout : ∀ j, j ≠ k → inside (s.calls j) = false := fun j hj => hc.outside hin hj
  have hown := fun p => hi.inside (k := k) hout (p := p)
  have hst : ∀ st, statusAt (.disconnect packet pc) = some st → s.status = st := fun st h =>
    hc.status k st (hk ▸ h)
  have hslot := hi.slot k
  rw [hk] at hown hslot
  cases pc <;> simp only [disconnectStep] at h
  case lock => exact absurd rfl hl
  case get =>
    split at h
    · cases h
      refine .move hout rfl ?_ fun p hp => hown p hp
      rintro (h | h)
      · cases h
      · exact hi.stopped h
    · rename_i hs
      cases h
      exact .move hout rfl (by simp [slotless, setCall, hs]) fun p hp => hown p hp
    · rename_i hs
      cases h
      exact .move hout rfl (by simp [slotless, finishCall, setCall, hs]) fun p hp => hown p hp
  case storeStopping =>
    cases h
    refine .move hout rfl (by simp [slotless, setCall]) fun p hp => ?_
    rcases hown p hp with h | h | ⟨h, -⟩
    · exact .inl h
    · cases h
    · rw [hst .running rfl] at h
      cases h
  case abortSender =>
    split at h <;> cases h <;>
      exact .move hout rfl (by simp [slotless, setCall, Runtime.abortSender, hst .stopping rfl])
        fun p hp => hown p hp
  case lockRx =>
    split at h
    · cases h
      exact .move hout rfl (by simp [slotless, setCall, hst .stopping rfl]) fun p hp => hown p hp
    · cases h
  case drain =>
    split at h
    · cases h
      exact ⟨hi.slot, hi.stopped, hi.owned⟩
    · cases h
      exact .move hout rfl (by simp [slotless, setCall, hst .stopping rfl]) fun p hp => hown p hp
  case takeLoop =>
    split at h
    · rename_i hnone
      cases h
      exact .move hout rfl (fun _ => hnone) fun p hp => hown p hp
    · rename_i q hq
      cases h
      refine .move hout rfl (fun _ => rfl) fun p hp => ?_
      rcases hown p hp with h | h | ⟨-, h⟩
      · rw [hq] at h
        exact .inr (.inl h)
      · cases h
      · cases h
  case awaitLoop q =>
    split at h
    · rename_i hended
      cases h
      refine .move hout rfl (fun _ => hslot rfl) fun p hp => ?_
      rcases hown p hp with h | h | ⟨-, h⟩
      · exact .inl h
      · -- the loop that was awaited runs no more
        cases h
        have hp' : alive (s.loops q) = true := hp
        rw [hended] at hp'
        cases hp'
      · cases h
    · cases h
  case storeStopped =>
    cases h
    refine .move hout rfl (fun _ => hslot rfl) fun p hp => ?_
    rcases hown p hp with h | h | ⟨-, h⟩
    · rw [hslot rfl] at h
      cases h
    · cases h
    · cases h
  case cancel =>
    cases h
    exact .move hout rfl (by simp [slotless, setCall, hst .stopping rfl]) fun p hp => hown p hp

/-- A step outside the lock that spawns no loop. -/
theorem LoopHandle.keep (hi : LoopHandle s) (hslot : s'.connectionLoopTask = s.connectionLoopTask)
    (hst : s'.status = s.status)
    (hcalls : ∀ j, s'.calls j = s.calls j ∨
      Runtime.inside (s.calls j) = false ∧ Runtime.inside (s'.calls j) = false)
    (halive : ∀ p, alive (s'.loops p) = true → alive (s.loops p) = true) : LoopHandle s' := by
  refine ⟨fun j hj => ?_, ?_, fun p hp => ?_⟩
  · rw [hslot]
    rcases hcalls j with he | ⟨-, hin⟩
    · exact hi.slot j (he ▸ hj)
    · rw [slotless_inside hj] at hin
      cases hin
  · rw [hslot, hst]
    exact hi.stopped
  · rw [hslot, hst]
    rcases hi.owned p (halive p hp) with h | ⟨j, h⟩ | ⟨h, hall⟩
    · exact .inl h
    · rcases hcalls j with he | ⟨hin, -⟩
      · exact .inr (.inl ⟨j, by rw [he]; exact h⟩)
      · rw [handleOf_inside h] at hin
        cases hin
    · refine .inr (.inr ⟨h, fun j => ?_⟩)
      rcases hcalls j with he | ⟨-, hin⟩
      · rw [he]
        exact hall j
      · cases hs : stopping (s'.calls j) with
        | false => rfl
        | true =>
          rw [stopping_inside hs] at hin
          cases hin

/-- Only `connect` starts a loop. -/
theorem step_alive {a : ClientAction} (h : step cfg s a = some s') (ha : ∀ k, a ≠ .call k)
    (hi : Loops s) {p : Nat} (hp : alive (s'.loops p) = true) : alive (s.loops p) = true := by
  rcases step_loops h with hl | ⟨k, rfl, -, -⟩ | ⟨q, pc, x, -, hb, -, hl⟩ |
    ⟨i, b, k, m, c, -, hm, hc, hb, ho⟩
  · rwa [hl] at hp
  · exact absurd rfl (ha k)
  · by_cases hpq : p = q
    · subst hpq
      revert hb
      cases s.loops p <;> simp [betweenSessions, alive]
    · rwa [hl, Function.update_of_ne hpq] at hp
  · by_cases hpm : p = m.loop
    · have hloop := hi.running i m hm (unfinished_of_owner hb hc)
      rw [hpm, hloop]
      rfl
    · rcases ho with ⟨-, hl⟩ | ⟨-, hl⟩ <;> rwa [hl, Function.update_of_ne hpm] at hp

theorem loopHandle_drop (ha : awaits (s.calls k) = true)
    (hne : ∀ p, s.calls k ≠ .connect (.storeLoop p)) (hc : Control s) (hi : LoopHandle s) :
    LoopHandle (s.dropCall k) := by
  cases hin : inside (s.calls k) with
  | false =>
    refine hi.keep rfl rfl (fun j => ?_) fun p hp => hp
    by_cases hjk : j = k
    · subst hjk
      exact .inr ⟨hin, by simp [dropCall, setCall, inside]⟩
    · exact .inl (by simp [dropCall, setCall, Function.update_of_ne hjk])
  | true =>
    have hout : ∀ j, j ≠ k → inside (s.calls j) = false := fun j hj => hc.outside hin hj
    refine .move hout rfl ?_ fun p hp => ?_
    · rintro (h | h)
      · cases h
      · exact hi.stopped h
    · rcases hi.inside hout hp with h | h | ⟨h, -⟩
      · exact .inl h
      · -- the handle goes with the `disconnect` that awaits it, which has stored `Stopping`
        refine .inr (.inr ⟨hc.status k .stopping ?_, rfl⟩)
        unfold handleOf at h
        split at h
        · rename_i q hq
          exact absurd hq (hne q)
        · rename_i hq
          rw [hq]
          rfl
        · cases h
      · exact .inr (.inr ⟨h, rfl⟩)

theorem loopHandle_step {a : ClientAction} (ha : CleansUp s a) (h : step cfg s a = some s')
    (hc : Control s) (hl : Loops s) (hi : LoopHandle s) : LoopHandle s' := by
  by_cases hcall : ∃ k, a = .call k
  · obtain ⟨k, rfl⟩ := hcall
    simp only [step, callStep] at h
    split at h
    · rename_i pc hpc
      exact loopHandle_connect hpc h hc hi
    · rename_i packet pc hpc
      exact loopHandle_disconnect hpc h hc hi
    all_goals cases h
  push Not at hcall
  rcases step_control h with ⟨hsame, hk⟩ | ⟨k, c, hsame, hidle, hb, hk⟩ | ⟨k, rfl, -⟩ |
    ⟨k, rfl, hk, rfl⟩
  · exact hi.keep hsame.connectionLoopTask hsame.status (fun j => .inl (congrFun hk j))
      fun p hp => step_alive h hcall hl hp
  · refine hi.keep hsame.connectionLoopTask hsame.status (fun j => ?_)
      fun p hp => step_alive h hcall hl hp
    by_cases hjk : j = k
    · subst hjk
      exact .inr ⟨by rw [hidle]; rfl, by rw [hk, Function.update_self]; exact hb.outside⟩
    · exact .inl (by rw [hk, Function.update_of_ne hjk])
  · exact absurd rfl (hcall k)
  · exact loopHandle_drop hk (fun p => ha.2 k p rfl) hc hi

theorem loopHandle_of_reachable (h : (system cfg).ReachableWhen CleansUp s) : LoopHandle s := by
  refine h.invariant (I := LoopHandle) ⟨?_, ?_, ?_⟩ fun s a s' hr ha hs hi => ?_
  · simp [system, initial]
  · simp [system, initial]
  · simp [system, initial, alive]
  · exact loopHandle_step ha hs (control_of_reachable hr) (loops_of_reachable hr) hi

/-- When a `disconnect` is about to store `Stopped`, no loop runs. -/
theorem no_loop_at_storeStopped (h : (system cfg).ReachableWhen CleansUp s) {packet : Option Nat}
    (hk : s.calls k = .disconnect packet .storeStopped) (p : Nat) : alive (s.loops p) = false := by
  have hc := control_of_reachable h
  have hi := loopHandle_of_reachable h
  have hin : inside (s.calls k) = true := by rw [hk]; rfl
  cases hp : alive (s.loops p) with
  | false => rfl
  | true =>
    have hslot := hi.slot k (by rw [hk]; rfl)
    rcases hi.inside (fun j hj => hc.outside hin hj) hp with h | h | ⟨-, h⟩
    · rw [hslot] at h
      cases h
    · rw [hk] at h
      cases h
    · rw [hk] at h
      cases h

/-! ## Progress -/

/-- There are calls left to be made. -/
theorem exists_idle {guard : Runtime → ClientAction → Prop}
    (h : (system cfg).ReachableWhen guard s) : ∃ n, ∀ k, n ≤ k → s.calls k = .idle := by
  refine h.invariant (I := fun s => ∃ n, ∀ k, n ≤ k → s.calls k = .idle) ⟨0, fun _ _ => rfl⟩ ?_
  rintro s a s' - - hs ⟨n, hn⟩
  have hupd : ∀ k c, s'.calls = Function.update s.calls k c →
      ∃ n, ∀ k, n ≤ k → s'.calls k = .idle := by
    intro k c hk
    refine ⟨max n (k + 1), fun j hj => ?_⟩
    rw [hk, Function.update_of_ne (by omega)]
    exact hn j (by omega)
  rcases step_control hs with ⟨-, hk⟩ | ⟨k, c, -, -, -, hk⟩ | ⟨k, -, hk⟩ | ⟨k, -, -, rfl⟩
  · exact ⟨n, by rw [hk]; exact hn⟩
  · exact hupd k c hk
  · obtain ⟨-, c, hcalls, -⟩ := callStep_packet hk
    exact hupd k c hcalls
  · exact hupd k .dropped rfl

theorem permits_ofTasks {m : Member} {b : Action} (hk : s.calls k = .idle)
    (hb : b.ofTasks = true) : permits s m k b = true := by
  unfold permits
  split <;> first | cases hb | simp [hk]

/-- A step of a session that the runtime permits is a step of the client. -/
theorem memberStep_of_permits {i : Nat} {m : Member} {b : Action} {c : Session}
    (hm : s.sessions i = some m) (hp : permits s m k b = true)
    (hc : Session.step cfg m.session b = some c) :
    ∃ s' m', step cfg s (.session i b k) = some s' ∧ s'.sessions i = some m' ∧ m'.session = c := by
  have hs : ∃ s', memberStep cfg s i b k = some s' := by
    simp only [memberStep, hm, hp, hc, if_true]
    exact ⟨_, rfl⟩
  obtain ⟨s', hs⟩ := hs
  obtain ⟨m₁, m', hm₁, -, hmoved, hsessions, -, -⟩ := memberStep_sessions hs
  rw [hm] at hm₁
  cases hm₁
  exact ⟨s', m', hs, by rw [hsessions, Function.update_self],
    Option.some.inj (hmoved.step.symm.trans hc)⟩

/-- The steps of session `i` that clean up. -/
def OfSession (i : Nat) (s : Runtime) (a : ClientAction) : Prop :=
  CleansUp s a ∧ ∃ b k, a = .session i b k

/-- The `select!` of `run_connection` waits no longer: a stream task has ended, or the
cancel token fired. -/
def Released (s : Runtime) (m : Member) : Prop :=
  m.session.owner = .select ∧ (m.session.read = .ended ∨ m.session.write = .ended ∨
    ∃ token, m.token = some token ∧ s.cancelled token = true)

theorem cleansUp_session {i : Nat} {b : Action} {m : Member} (hm : s.sessions i = some m)
    (hb : Session.EndsCleanly m.session b) : CleansUp s (.session i b k) := by
  refine ⟨fun i' b' k' m' ha hm' => ?_, by simp⟩
  cases ha
  rw [hm] at hm'
  cases hm'
  exact hb

/-- Past the `select!` the tasks of the session bring it to its end. -/
theorem leads_to_finished (h : (system cfg).ReachableWhen CleansUp s) {i : Nat} {m : Member}
    (hm : s.sessions i = some m) (ho : m.session.owner.ending = true) :
    ∃ s', (system cfg).PathWhen (OfSession i) s s' ∧
      ∃ m', s'.sessions i = some m' ∧ m'.session.owner = .finished := by
  refine System.exists_path (P := fun s => ∃ m, s.sessions i = some m ∧
      (m.session.owner.ending = true ∨ m.session.owner = .finished))
    (fun s => match s.sessions i with
      | some m => m.session.rank
      | none => 0) (fun _ _ ha => ha.1) ?_ h ⟨m, hm, .inl ho⟩
  rintro s hr ⟨m, hm, ho | ho⟩
  · obtain ⟨b, c, hb, hclean, hc, hlt, ho'⟩ :=
      Session.ending_advances (endsCleanly_member hr hm) ho
    obtain ⟨n, hn⟩ := exists_idle hr
    obtain ⟨s', m', hs, hm', rfl⟩ := memberStep_of_permits hm
      (permits_ofTasks (hn n (Nat.le_refl n)) hb) hc
    exact .inr ⟨_, s', ⟨cleansUp_session hm hclean, b, n, rfl⟩, hs, ⟨m', hm', ho'⟩,
      by simpa [hm, hm'] using hlt⟩
  · exact .inl ⟨m, hm, ho⟩

/-- The `select!` takes the event that ends it. -/
theorem released_advances (cfg : ClientConfig) {m : Member} (hk : s.calls k = .idle) (hr : Released s m) :
    ∃ b c, permits s m k b = true ∧ Session.EndsCleanly m.session b ∧
      Session.step cfg m.session b = some c ∧ c.owner.ending = true := by
  obtain ⟨ho, hread | hwrite | ⟨token, htok, hcan⟩⟩ := hr
  · exact ⟨.owner .readEnded,
      { m.session with owner := .clear, readHandle := .consumed, writeAborted := true },
      permits_ofTasks hk rfl, by simp [Session.EndsCleanly, ho],
      by simp [Session.step, Session.ownerStep, hread, ho], rfl⟩
  · exact ⟨.owner .writeEnded,
      { m.session with owner := .clear, writeHandle := .consumed, readAborted := true },
      permits_ofTasks hk rfl, by simp [Session.EndsCleanly, ho],
      by simp [Session.step, Session.ownerStep, hwrite, ho], rfl⟩
  · exact ⟨.owner .cancelled, { m.session with owner := .close .get },
      by simp [permits, htok, hcan], trivial, by simp [Session.step, Session.ownerStep, ho], rfl⟩

theorem leads_to_cleanedUp (h : (system cfg).ReachableWhen CleansUp s) {i : Nat} {m : Member}
    (hm : s.sessions i = some m) (ho : m.session.owner.ending = true ∨ Released s m) :
    ∃ s' m', (system cfg).PathWhen (OfSession i) s s' ∧ s'.sessions i = some m' ∧
      Session.CleanedUp cfg m'.session := by
  have hclean : ∀ {s'}, (system cfg).PathWhen (OfSession i) s s' →
      ∀ {m'}, s'.sessions i = some m' → m'.session.owner = .finished →
        Session.CleanedUp cfg m'.session := by
    intro s' hpath m' hm' hf
    exact Session.cleanedUp_of_finished
      (endsCleanly_member (h.path (fun _ _ ha => ha.1) hpath) hm') hf
  rcases ho with ho | hr
  · obtain ⟨s', hpath, m', hm', hf⟩ := leads_to_finished h hm ho
    exact ⟨s', m', hpath, hm', hclean hpath hm' hf⟩
  · obtain ⟨n, hn⟩ := exists_idle h
    obtain ⟨b, c, hp, hb, hc, hend⟩ := released_advances cfg (hn n (Nat.le_refl n)) hr
    obtain ⟨s₁, m₁, hs, hm₁, rfl⟩ := memberStep_of_permits hm hp hc
    have hb' := cleansUp_session (k := n) hm hb
    obtain ⟨s', hpath, m', hm', hf⟩ := leads_to_finished (.step h hb' hs) hm₁ hend
    have hpath' := hpath.head ⟨_, ⟨hb', b, n, rfl⟩, hs⟩
    exact ⟨s', m', hpath', hm', hclean hpath' hm' hf⟩

/-! ## Every session is cleaned up -/

/-- **Every session is cleaned up exactly once.** As long as the graceful shutdown ends by
its timeout, `cleanup` does not overtake the spawn of the ready watchdog nor a `close` call
of a watchdog or of the ping task between its two accesses, the close handler does not panic
and no `connect` is dropped with the handle of its loop: the epilogue of every session runs
in order and at most once, and is complete when the session is over, with the state `Closed`
from then on; this is before its loop creates another session and before a `disconnect`
returns; and from every way out of the `select!` the session's own tasks get there. -/
theorem sessions_cleaned_up (cfg : ClientConfig) (s : Runtime)
    (h : (system cfg).ReachableWhen CleansUp s) (i : Nat) (m : Member)
    (hm : s.sessions i = some m) :
    m.session.owner ≠ .panicked ∧ m.session.epilogue <+: Session.cleanupTrace cfg ∧
      (m.session.owner = .finished → Session.CleanedUp cfg m.session) ∧
      (∀ a s' m', step cfg s a = some s' → s'.sessions i = some m' →
        m.session.owner ≠ .finished → m'.session.owner = .finished → m'.session.state = .closed) ∧
      (∀ j s', step cfg s (.loop m.loop (.connected j)) = some s' →
        Session.CleanedUp cfg m.session) ∧
      (∀ k packet, s.calls k = .disconnect packet .storeStopped →
        Session.CleanedUp cfg m.session) ∧
      (m.session.owner.ending = true ∨ Released s m →
        ∃ s' m', (system cfg).PathWhen (OfSession i) s s' ∧ s'.sessions i = some m' ∧
          Session.CleanedUp cfg m'.session) := by
  have hr := endsCleanly_member h hm
  have hend := Session.ending_of_reachable hr
  have hrun := (loops_of_reachable h).running i m hm
  have hover : s.loops m.loop ≠ .session i → Session.CleanedUp cfg m.session := by
    intro hne
    by_cases hf : m.session.owner = .finished
    · exact Session.cleanedUp_of_finished hr hf
    · exact absurd (hrun hf) hne
  refine ⟨hend.unpanicked, hend.epilogue ▸ Session.traceAt_prefix .., Session.cleanedUp_of_finished hr,
    fun a s' m' hs hm' hn hf => ?_, fun j s' hs => hover fun hl => ?_,
    fun k packet hk => hover fun hl => ?_, leads_to_cleanedUp h hm⟩
  · rcases step_member_before hs hm' with he | ⟨p, -, hnone, -⟩ | ⟨b, m₁, hm₁, -, hmoved⟩
    · rw [hm] at he
      cases he
      exact absurd hf hn
    · rw [hm] at hnone
      cases hnone
    · rw [hm] at hm₁
      cases hm₁
      rw [(Session.step_finished hmoved.step hn hf).2.2]
  · have hstep : loopStep cfg s m.loop (.connected j) = some s' := hs
    have hb := (loopStep_cases hstep).1
    rw [hl] at hb
    cases hb
  · have hal := no_loop_at_storeStopped h hk m.loop
    rw [hl] at hal
    cases hal

/-- A connect, a session, and a `disconnect` that awaits the loop. -/
def disconnectRun : List ClientAction := callRun 0 8 .connect ++
  [.loop 1 .go, .loop 1 (.connected 0)] ++ sessionRun 0 2 (List.replicate 10 (.owner .go)) ++
  callRun 1 5 .disconnect ++ [.stopSender 1] ++ List.replicate 3 (.call 1) ++
  sessionRun 0 2 ([.owner .cancelled] ++ List.replicate 3 (.owner .go))

/-- The graceful shutdown of the session runs into its timeout. -/
theorem sessions_cleaned_up_run :
    ∃ s m, (system (.postcard true)).ReachableWhen CleansUp s ∧ s.sessions 0 = some m ∧
      s.calls 1 = .disconnect none .storeStopped ∧ Session.CleanedUp (.postcard true) m.session := by
  have hinit : (system (.postcard true)).ReachableWhen CleansUp _ := .init
  obtain ⟨s, hr, hs⟩ := hinit.exists_execWhen
    (g := fun s a => match a with
      | .drop _ => false
      | .session i b _ => match s.sessions i with
        | some m => decide (Session.EndsCleanly m.session b)
        | none => true
      | _ => true)
    (l := List.flatten [disconnectRun,
      sessionRun 0 2 (List.flatten [[.owner .elapsed, .read .stop, .write .stop],
        List.replicate 9 (.owner .go), [.owner (.closeHandler .ok), .owner .go]]),
      [.loop 1 .go, .loop 1 .go, .call 1]])
    (p := fun s : Runtime => decide (s.calls 1 = .disconnect none .storeStopped) &&
      (s.sessions 0).isSome)
    (by
      intro s a ha
      refine ⟨fun i b k m hk hm => ?_, fun k p hk => ?_⟩
      · subst hk
        simpa [hm] using ha
      · subst hk
        cases ha)
    (by decide +kernel)
  rw [Bool.and_eq_true] at hs
  obtain ⟨m, hm⟩ := Option.isSome_iff_exists.mp hs.2
  have hcall := of_decide_eq_true hs.1
  obtain ⟨-, -, -, -, -, hclean, -⟩ := sessions_cleaned_up _ s hr 0 m hm
  exact ⟨s, m, hr, hm, hcall, hclean 1 none hcall⟩

/-- The peer answers the close frame: the read task ends inside the graceful shutdown, its
handle is polled again, and `disconnect` is about to return with the session not cleaned up. -/
theorem sessions_not_cleaned_up :
    ¬ ∀ s, (system (.postcard true)).Reachable s → ∀ i m, s.sessions i = some m →
      ∀ k packet, s.calls k = .disconnect packet .storeStopped →
        Session.CleanedUp (.postcard true) m.session := by
  intro h
  obtain ⟨s, hr, hs⟩ := System.exists_reachable_of_exec (S := system (.postcard true))
    (l := List.flatten [disconnectRun,
      sessionRun 0 2 [.read (.frame none), .owner .readEnded, .owner .go], [.call 1]])
    (p := fun s => decide (s.calls 1 = .disconnect none .storeStopped) &&
      match s.sessions 0 with
      | some m => decide (m.session.owner = .panicked ∧ m.session.epilogue = [])
      | none => false) (by decide +kernel)
  rw [Bool.and_eq_true] at hs
  cases hm : s.sessions 0 with
  | none => simp [hm] at hs
  | some m =>
    have hclean := h s hr 0 m hm 1 none (of_decide_eq_true hs.1)
    have hpanic := hs.2
    rw [hm] at hpanic
    have hfin := hclean.finished
    rw [(of_decide_eq_true hpanic).1] at hfin
    cases hfin

end WsIo.Client.Runtime
