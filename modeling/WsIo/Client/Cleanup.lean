import WsIo.Client.Exchange

/-!
# The end of a session

What `run_connection` does after its `select!`, for one session: under `EndsCleanly` the
owner never polls a consumed join handle, the epilogue is `session.store(None)` followed by
one complete `cleanup` (`Ending`), the `Closed` that `cleanup` stores is not overwritten
(`Settled`), and from every way out of the `select!` the tasks of the session lead to its
end (`ending_advances`).
-/

namespace WsIo.Client

open Async Core

/-- The read task has decided to spawn the ready watchdog and has not stored its handle. -/
def ReadPc.spawning : ReadPc → Bool
  | .spawnReadyTimeout _ | .storeReadyTimeout _ => true
  | _ => false

/-- The ping task's `close` has read the state and not stored `Closing` yet. -/
def PingPc.storing : PingPc → Bool
  | .closing .store => true
  | _ => false

/-- The owner is past the `select!` of `run_connection`. -/
def OwnerPc.ending : OwnerPc → Bool
  | .close _ | .graceful | .awaitRead | .awaitWrite | .clear | .cleanupStore | .abortInitTimeout
  | .abortPing | .abortReadyTimeout | .cancel | .onClose | .awaitingOnClose | .storeClosed => true
  | _ => false

/-- `cleanup` has stored `Closing`. -/
def OwnerPc.closing : OwnerPc → Bool
  | .abortInitTimeout | .abortPing | .abortReadyTimeout | .cancel | .onClose | .awaitingOnClose
  | .storeClosed | .finished => true
  | _ => false

/-- `cleanup` has taken the handle of the init watchdog. -/
def OwnerPc.tookInit (pc : OwnerPc) : Bool := pc.closing && pc ≠ .abortInitTimeout

/-- `cleanup` has taken the handle of the ping task. -/
def OwnerPc.tookPing (pc : OwnerPc) : Bool := pc.tookInit && pc ≠ .abortPing

/-- `cleanup` has taken the handle of the ready watchdog. -/
def OwnerPc.tookReady (pc : OwnerPc) : Bool := pc.tookPing && pc ≠ .abortReadyTimeout

theorem OwnerPc.tookReady_closing {pc : OwnerPc} (h : pc.tookReady = true) : pc.closing = true := by
  simp only [tookReady, tookPing, tookInit, Bool.and_eq_true] at h
  exact h.1.1.1

/-- How far the owner is from the end, past its `select!`. -/
def OwnerPc.left : OwnerPc → Nat
  | .close .get => 15
  | .close .store => 14
  | .close .send => 13
  | .graceful => 12
  | .awaitRead => 11
  | .awaitWrite => 10
  | .clear => 9
  | .cleanupStore => 8
  | .abortInitTimeout => 7
  | .abortPing => 6
  | .abortReadyTimeout => 5
  | .cancel => 4
  | .onClose => 3
  | .awaitingOnClose => 2
  | .storeClosed => 1
  | _ => 0

/-- How far the read task is from its end when it is aborted: it stops at its next await. -/
def ReadPc.left : ReadPc → Nat
  | .absent | .ended => 0
  | .next | .abortInitTimeout _ | .awaitingInitHandler | .sendInit _ | .abortReadyTimeout => 1
  | .disconnect | .eventCheck _ _ | .initTransition _ | .storeReadyTimeout _ | .readyTransition
  | .spawnOnReady => 2
  | .initGet _ | .spawnReadyTimeout _ | .readyGet | .notify => 3
  | .awaitReady _ => 4
  | .initHandler _ => 5

/-- The owner has not seen the end of the write task yet. -/
def OwnerPc.ownsWrite : OwnerPc → Bool
  | .clear | .cleanupStore | .panicked => false
  | pc => !pc.closing

/-- The owner has not seen the end of the read task yet. -/
def OwnerPc.ownsRead (pc : OwnerPc) : Bool := pc.ownsWrite && pc ≠ .awaitWrite

/-- A step that needs nothing from the runtime. -/
def Action.ofTasks : Action → Bool
  | .owner .cancelled | .emit _ _ | .emitter _ | .drop _ => false
  | _ => true

namespace Session

variable {cfg : ClientConfig} {s s' : Session}

/-- The epilogue of `run_connection`: `session.store(None)`, then `cleanup`. -/
def cleanupTrace (cfg : ClientConfig) : List Epilogue :=
  [.cleared, .storedClosing, .abortedInitTimeout, .abortedPing, .abortedReadyTimeout, .cancelled] ++
    (if cfg.onSessionCloseHandler then [.closeHandlerInvoked, .closeHandlerReturned] else []) ++
    [.storedClosed]

/-- How much of the epilogue lies behind the owner. -/
def traceAt (cfg : ClientConfig) : OwnerPc → List Epilogue
  | .cleanupStore => (cleanupTrace cfg).take 1
  | .abortInitTimeout => (cleanupTrace cfg).take 2
  | .abortPing => (cleanupTrace cfg).take 3
  | .abortReadyTimeout => (cleanupTrace cfg).take 4
  | .cancel => (cleanupTrace cfg).take 5
  | .onClose => (cleanupTrace cfg).take 6
  | .awaitingOnClose => (cleanupTrace cfg).take 7
  | .storeClosed => (cleanupTrace cfg).dropLast
  | .finished => cleanupTrace cfg
  | _ => []

/-- How many `close` calls of the watchdogs and of the ping task have read the state and not
stored `Closing` yet. -/
def pendingStores (s : Session) : Nat :=
  s.initWatch.storing.toNat + s.readyWatch.storing.toNat + s.ping.storing.toNat

/-- The `select!` of the graceful shutdown ends by its timeout, `cleanup` does not overtake
the read task between the spawn of the ready watchdog and the store of its handle, and the
read task is not stopped there; `cleanup` does not store `Closed` while a `close` call is
about to store `Closing`, and the close handler does not panic. -/
def EndsCleanly (s : Session) : Action → Prop
  | .owner .readEnded | .owner .writeEnded => s.owner ≠ .graceful
  | .owner .go => (s.owner = .abortReadyTimeout → s.read.spawning = false) ∧
      (s.owner = .storeClosed → s.pendingStores = 0)
  | .owner .panicked => False
  | .read .stop => s.read.spawning = false
  | _ => True

instance (s : Session) : (a : Action) → Decidable (EndsCleanly s a)
  | .owner .readEnded | .owner .writeEnded => inferInstanceAs (Decidable (s.owner ≠ .graceful))
  | .owner .go => inferInstanceAs (Decidable ((s.owner = .abortReadyTimeout → s.read.spawning = false) ∧
      (s.owner = .storeClosed → s.pendingStores = 0)))
  | .owner .panicked => inferInstanceAs (Decidable False)
  | .read .stop => inferInstanceAs (Decidable (s.read.spawning = false))
  | .owner .cancelled | .owner .elapsed | .owner (.closeHandler _) | .read .go | .read (.frame _)
  | .read (.outcome _ _) | .write _ | .initWatch _ | .readyWatch _ | .ping _ | .emit _ _ | .emitter _
  | .drop _ => inferInstanceAs (Decidable True)

theorem traceAt_prefix (cfg : ClientConfig) (pc : OwnerPc) : traceAt cfg pc <+: cleanupTrace cfg := by
  unfold traceAt
  split
  case h_8 => exact List.dropLast_prefix _
  case h_9 => exact List.prefix_refl _
  case h_10 => exact List.nil_prefix
  all_goals exact List.take_prefix _ _

/-! ## The owner -/

/-- The join handles that the owner still has to poll have not yielded, and the epilogue is
what the owner has done of it. -/
structure Ending (cfg : ClientConfig) (s : Session) : Prop where
  readHandle : s.owner.ownsRead = true → s.readHandle = .pending
  writeHandle : s.owner.ownsWrite = true → s.writeHandle = .pending
  aborts : s.owner = .awaitRead ∨ s.owner = .awaitWrite →
    s.readAborted = true ∧ s.writeAborted = true
  unpanicked : s.owner ≠ .panicked
  handler : s.owner = .awaitingOnClose → cfg.onSessionCloseHandler = true
  epilogue : s.epilogue = traceAt cfg s.owner

theorem ending_initial (cfg : ClientConfig) : Ending cfg (initial cfg) where
  readHandle := fun _ => rfl
  writeHandle := fun _ => rfl
  aborts := by simp [initial]
  unpanicked := by simp [initial]
  handler := by simp [initial]
  epilogue := rfl

/-- Inside `cleanup` only the epilogue is left to follow. -/
theorem Ending.of_closing (hc : s.owner.closing = true)
    (hh : s.owner = .awaitingOnClose → cfg.onSessionCloseHandler = true)
    (he : s.epilogue = traceAt cfg s.owner) : Ending cfg s := by
  have hw : s.owner.ownsWrite = false := by
    revert hc
    cases s.owner <;> simp [OwnerPc.closing, OwnerPc.ownsWrite]
  refine ⟨?_, ?_, ?_, ?_, hh, he⟩
  · simp [OwnerPc.ownsRead, hw]
  · simp [hw]
  · rintro (h | h) <;> rw [h] at hc <;> cases hc
  · intro h
    rw [h] at hc
    cases hc

theorem ending_go (h : ownerGo cfg s = some s') (hi : Ending cfg s) : Ending cfg s' := by
  obtain ⟨h₁, h₂, h₃, -, -, h₅⟩ := hi
  cases ho : s.owner <;> simp only [ownerGo, ho] at h <;> rw [ho] at h₁ h₂ h₃ h₅
  case absent | initStore | spawnInitTimeout | storeInitTimeout | spawnPing | storePing | spawnRead |
      spawnWrite | publish | loadToken =>
    cases h
    exact ⟨fun _ => h₁ rfl, fun _ => h₂ rfl, by simp, by simp, by simp, h₅⟩
  case close a =>
    split at h <;> cases h <;>
      exact ⟨fun _ => h₁ rfl, fun _ => h₂ rfl, by simp, by simp, by simp, h₅⟩
  case awaitRead =>
    rcases awaitTask_cases h with ⟨-, -, rfl⟩ | ⟨hc, -⟩
    · exact ⟨by simp [OwnerPc.ownsRead], fun _ => h₂ rfl, fun _ => h₃ (.inl rfl), by simp, by simp,
        h₅⟩
    · -- the handle has not been polled before
      rw [h₁ rfl] at hc
      cases hc
  case awaitWrite =>
    rcases awaitTask_cases h with ⟨-, -, rfl⟩ | ⟨hc, -⟩
    · exact ⟨by simp [OwnerPc.ownsRead, OwnerPc.ownsWrite], by simp [OwnerPc.ownsWrite], by simp,
        by simp, by simp, h₅⟩
    · rw [h₂ rfl] at hc
      cases hc
  case clear =>
    cases h
    refine ⟨by simp [OwnerPc.ownsRead, OwnerPc.ownsWrite], by simp [OwnerPc.ownsWrite], by simp,
      by simp, by simp, ?_⟩
    simp [h₅, traceAt, cleanupTrace]
  case cleanupStore | cancel =>
    cases h
    exact .of_closing rfl (by simp) (by simp [h₅, traceAt, cleanupTrace])
  case abortInitTimeout =>
    obtain ⟨w, t, he⟩ := abortInitTimeout_eq s
    cases h
    exact .of_closing rfl (by simp) (by simp [h₅, traceAt, cleanupTrace])
  case abortPing =>
    obtain ⟨w, t, he⟩ := abortPing_eq s
    cases h
    exact .of_closing rfl (by simp) (by simp [h₅, traceAt, cleanupTrace])
  case abortReadyTimeout =>
    obtain ⟨w, t, he⟩ := abortReadyTimeout_eq s
    cases h
    exact .of_closing rfl (by simp) (by simp [h₅, traceAt, cleanupTrace])
  case onClose =>
    split at h
    · rename_i hcfg
      cases h
      exact .of_closing rfl (fun _ => hcfg) (by simp [h₅, traceAt, cleanupTrace, hcfg])
    · rename_i hcfg
      cases h
      exact .of_closing rfl (by simp) (by simp [h₅, traceAt, cleanupTrace, hcfg])
  case storeClosed =>
    cases h
    refine .of_closing rfl (by simp) ?_
    rw [h₅]
    simp only [traceAt, cleanupTrace, List.dropLast_concat]
  all_goals cases h

theorem ending_step {a : Action} (ha : EndsCleanly s a) (h : step cfg s a = some s')
    (hi : Ending cfg s) : Ending cfg s' := by
  by_cases howner : ∃ i, a = .owner i
  · obtain ⟨i, rfl⟩ := howner
    have hi' := hi
    obtain ⟨h₁, h₂, h₃, h₄, hh, h₅⟩ := hi
    simp only [step] at h
    cases i with
    | go => exact ending_go h hi'
    | cancelled =>
      simp only [ownerStep] at h
      split at h
      · rename_i ho
        cases h
        rw [ho] at h₁ h₂ h₅
        exact ⟨fun _ => h₁ rfl, fun _ => h₂ rfl, by simp, by simp, by simp, h₅⟩
      · cases h
    | elapsed =>
      simp only [ownerStep] at h
      split at h
      · rename_i ho
        cases h
        rw [ho] at h₁ h₂ h₅
        exact ⟨fun _ => h₁ rfl, fun _ => h₂ rfl, fun _ => ⟨rfl, rfl⟩, by simp, by simp, h₅⟩
      · cases h
    | readEnded | writeEnded =>
      -- the graceful shutdown is excluded, so this is the outer `select!`
      simp only [ownerStep] at h
      split at h
      · split at h
        · rename_i ho
          cases h
          rw [ho] at h₅
          exact ⟨by simp [OwnerPc.ownsRead, OwnerPc.ownsWrite], by simp [OwnerPc.ownsWrite],
            by simp, by simp, by simp, h₅⟩
        · rename_i ho
          exact absurd ho ha
        · cases h
      · cases h
    | closeHandler o =>
      simp only [ownerStep] at h
      split at h
      · rename_i ho
        cases h
        rw [ho] at h₅
        exact .of_closing rfl (by simp) (by simp [h₅, traceAt, cleanupTrace, hh ho])
      · cases h
    | panicked => exact absurd ha id
  · push Not at howner
    obtain ⟨e₁, e₂, e₃, e₄, e₅, e₆⟩ := step_not_owner h howner
    exact ⟨by rw [e₁, e₃]; exact hi.readHandle, by rw [e₁, e₄]; exact hi.writeHandle,
      by rw [e₁, e₅, e₆]; exact hi.aborts, by rw [e₁]; exact hi.unpanicked,
      by rw [e₁]; exact hi.handler, by rw [e₁, e₂]; exact hi.epilogue⟩

theorem ending_of_reachable (h : (system cfg).ReachableWhen EndsCleanly s) : Ending cfg s :=
  h.invariant (I := Ending cfg) (ending_initial cfg) fun _ _ _ _ ha hs hi => ending_step ha hs hi

/-! ## The tasks that cleanup aborts -/

theorem abortInitTimeout_takes (s : Session) :
    ∃ w, s.abortInitTimeout = { s with initWatchAborted := w, initTimeoutTask := false } ∧
      (s.initTimeoutTask = true ∨ s.initWatchAborted = true → w = true) := by
  unfold abortInitTimeout
  split
  · exact ⟨true, rfl, fun _ => rfl⟩
  · rename_i ht
    rw [Bool.not_eq_true] at ht
    exact ⟨s.initWatchAborted, by rw [← ht], by simp [ht]⟩

theorem abortPing_takes (s : Session) :
    ∃ w, s.abortPing = { s with pingAborted := w, pingTask := false } ∧
      (s.pingTask = true ∨ s.pingAborted = true → w = true) := by
  unfold abortPing
  split
  · exact ⟨true, rfl, fun _ => rfl⟩
  · rename_i ht
    rw [Bool.not_eq_true] at ht
    exact ⟨s.pingAborted, by rw [← ht], by simp [ht]⟩

theorem abortReadyTimeout_takes (s : Session) :
    ∃ w, s.abortReadyTimeout = { s with readyWatchAborted := w, readyTimeoutTask := false } ∧
      (s.readyTimeoutTask = true ∨ s.readyWatchAborted = true → w = true) := by
  unfold abortReadyTimeout
  split
  · exact ⟨true, rfl, fun _ => rfl⟩
  · rename_i ht
    rw [Bool.not_eq_true] at ht
    exact ⟨s.readyWatchAborted, by rw [← ht], by simp [ht]⟩

/-- A watchdog or ping task that was spawned is aborted, or its handle is in its slot or on
the way to it; `cleanup` empties the slots for good. -/
structure Watches (s : Session) : Prop where
  down : s.owner.closing = true → isDown s.state = true
  init : s.initWatch ≠ .absent →
    s.initTimeoutTask = true ∨ s.initWatchAborted = true ∨ s.owner = .storeInitTimeout
  initTaken : s.owner.tookInit = true → s.initTimeoutTask = false
  ping : s.ping ≠ .absent → s.pingTask = true ∨ s.pingAborted = true ∨ s.owner = .storePing
  pingTaken : s.owner.tookPing = true → s.pingTask = false
  ready : s.readyWatch ≠ .absent →
    s.readyTimeoutTask = true ∨ s.readyWatchAborted = true ∨ ∃ d, s.read = .storeReadyTimeout d
  readyTaken : s.owner.tookReady = true → s.readyTimeoutTask = false ∧ s.read.spawning = false

theorem watches_initial (cfg : ClientConfig) : Watches (initial cfg) := by
  constructor <;> simp [initial, OwnerPc.closing, OwnerPc.tookInit, OwnerPc.tookPing, OwnerPc.tookReady]

/-- The watchdogs and the ping task, with the slots of their handles. -/
def slots (s : Session) : (WatchPc × Bool × Bool) × (PingPc × Bool × Bool) × WatchPc × Bool × Bool :=
  ((s.initWatch, s.initTimeoutTask, s.initWatchAborted), (s.ping, s.pingTask, s.pingAborted),
    s.readyWatch, s.readyTimeoutTask, s.readyWatchAborted)

/-- A step of the owner outside `cleanup` that leaves the slots alone. -/
theorem Watches.outside (hi : Watches s) (hc : s'.owner.closing = false)
    (h₁ : s.owner ≠ .storeInitTimeout) (h₂ : s.owner ≠ .storePing) (hs : s'.slots = s.slots)
    (hread : s'.read = s.read) : Watches s' := by
  simp only [slots, Prod.mk.injEq] at hs
  obtain ⟨⟨e₁, e₂, e₃⟩, ⟨e₄, e₅, e₆⟩, e₇, e₈, e₉⟩ := hs
  refine ⟨by simp [hc], ?_, by simp [OwnerPc.tookInit, hc], ?_,
    by simp [OwnerPc.tookPing, OwnerPc.tookInit, hc], ?_,
    by simp [OwnerPc.tookReady, OwnerPc.tookPing, OwnerPc.tookInit, hc]⟩
  · rw [e₁, e₂, e₃]
    intro h
    rcases hi.init h with h | h | h
    · exact .inl h
    · exact .inr (.inl h)
    · exact absurd h h₁
  · rw [e₄, e₅, e₆]
    intro h
    rcases hi.ping h with h | h | h
    · exact .inl h
    · exact .inr (.inl h)
    · exact absurd h h₂
  · rw [e₇, e₈, e₉, hread]
    exact hi.ready

theorem watches_ownerGo (ha : EndsCleanly s (.owner .go)) (h : ownerGo cfg s = some s')
    (hu : s.owner.beforeRead = true → s.read = .absent) (hi : Watches s) : Watches s' := by
  cases ho : s.owner <;> simp only [ownerGo, ho] at h
  case absent | initStore | spawnWrite | publish | loadToken | clear =>
    cases h
    exact hi.outside rfl (by simp [ho]) (by simp [ho]) rfl rfl
  case close a =>
    split at h <;> cases h <;> exact hi.outside rfl (by simp [ho]) (by simp [ho]) rfl rfl
  case awaitRead | awaitWrite =>
    rcases awaitTask_cases h with ⟨-, -, rfl⟩ | ⟨-, rfl⟩ <;>
      exact hi.outside rfl (by simp [ho]) (by simp [ho]) rfl rfl
  all_goals
    obtain ⟨h₁, h₂, h₃, h₄, h₅, h₆, h₇⟩ := hi
    rw [ho] at h₁ h₂ h₃ h₄ h₅ h₇
  case spawnInitTimeout =>
    cases h
    exact ⟨nofun, fun _ => .inr (.inr rfl), nofun, by simpa using h₄, nofun, h₆, nofun⟩
  case storeInitTimeout =>
    cases h
    exact ⟨nofun, fun _ => .inl rfl, nofun, by simpa using h₄, nofun, h₆, nofun⟩
  case spawnPing =>
    cases h
    exact ⟨nofun, by simpa using h₂, nofun, fun _ => .inr (.inr rfl), nofun, h₆, nofun⟩
  case storePing =>
    cases h
    exact ⟨nofun, by simpa using h₂, nofun, fun _ => .inl rfl, nofun, h₆, nofun⟩
  case spawnRead =>
    cases h
    rw [hu (by rw [ho]; rfl)] at h₆
    exact ⟨nofun, by simpa using h₂, nofun, by simpa using h₄, nofun, by simpa using h₆, nofun⟩
  case cleanupStore =>
    cases h
    exact ⟨fun _ => rfl, by simpa using h₂, nofun, by simpa using h₄, nofun, h₆, nofun⟩
  case abortInitTimeout =>
    obtain ⟨w, hw, haborted⟩ := abortInitTimeout_takes s
    rw [hw] at h
    cases h
    refine ⟨fun _ => h₁ rfl, fun hi => .inr (.inl (haborted ?_)), fun _ => rfl, by simpa using h₄, nofun,
      h₆, nofun⟩
    simpa using h₂ hi
  case abortPing =>
    obtain ⟨w, hw, haborted⟩ := abortPing_takes s
    rw [hw] at h
    cases h
    refine ⟨fun _ => h₁ rfl, by simpa using h₂, fun _ => h₃ rfl, fun hi => .inr (.inl (haborted ?_)),
      fun _ => rfl, h₆, nofun⟩
    simpa using h₄ hi
  case abortReadyTimeout =>
    obtain ⟨w, hw, haborted⟩ := abortReadyTimeout_takes s
    rw [hw] at h
    cases h
    refine ⟨fun _ => h₁ rfl, by simpa using h₂, fun _ => h₃ rfl, by simpa using h₄, fun _ => h₅ rfl,
      fun hi => ?_, fun _ => ⟨rfl, ha.1 ho⟩⟩
    rcases h₆ hi with hr | hr | hr
    · exact .inr (.inl (haborted (.inl hr)))
    · exact .inr (.inl (haborted (.inr hr)))
    · exact .inr (.inr hr)
  case cancel =>
    cases h
    exact ⟨fun _ => h₁ rfl, by simpa using h₂, fun _ => h₃ rfl, by simpa using h₄, fun _ => h₅ rfl, h₆,
      fun _ => h₇ rfl⟩
  case onClose =>
    split at h <;> cases h <;>
      exact ⟨fun _ => h₁ rfl, by simpa using h₂, fun _ => h₃ rfl, by simpa using h₄, fun _ => h₅ rfl,
        h₆, fun _ => h₇ rfl⟩
  case storeClosed =>
    cases h
    exact ⟨fun _ => rfl, by simpa using h₂, fun _ => h₃ rfl, by simpa using h₄, fun _ => h₅ rfl, h₆,
      fun _ => h₇ rfl⟩
  all_goals cases h

/-- What the read task does to the slots. -/
theorem readStep_slots {i : ReadInput} (h : readStep cfg s i = some s') :
    (s'.slots = s.slots ∧ (s'.read.spawning = true → isDown s.state = false) ∧
        (i ≠ .stop → s.read.spawning = false)) ∨
      (∃ d, s.read = .abortInitTimeout d ∧
        s' = { s.abortInitTimeout with read := .initHandler d }) ∨
      (∃ d, s.read = .spawnReadyTimeout d ∧
        s' = { s with read := .storeReadyTimeout d, readyWatch := .sleeping }) ∨
      (∃ d, s.read = .storeReadyTimeout d ∧
        s' = { s with read := .sendInit d, readyTimeoutTask := true }) ∨
      (s.read = .abortReadyTimeout ∧ s' = { s.abortReadyTimeout with read := .notify }) := by
  cases i with
  | go =>
    simp only [readStep] at h
    cases hr : s.read <;> simp only [readGo, hr] at h
    case abortInitTimeout d =>
      cases h
      exact .inr (.inl ⟨d, rfl, rfl⟩)
    case spawnReadyTimeout d =>
      cases h
      exact .inr (.inr (.inl ⟨d, rfl, rfl⟩))
    case storeReadyTimeout d =>
      cases h
      exact .inr (.inr (.inr (.inl ⟨d, rfl, rfl⟩)))
    case abortReadyTimeout =>
      cases h
      exact .inr (.inr (.inr (.inr ⟨rfl, rfl⟩)))
    case initTransition d =>
      rcases transition_cases s .awaitingInit .initiating (.abortInitTimeout d) with ⟨-, e⟩ | ⟨-, e⟩ <;>
        rw [e] at h <;> cases h <;> exact .inl ⟨rfl, by simp [ReadPc.spawning], fun _ => rfl⟩
    case readyTransition =>
      rcases transition_cases s .awaitingReady .ready .abortReadyTimeout with ⟨-, e⟩ | ⟨-, e⟩ <;>
        rw [e] at h <;> cases h <;> exact .inl ⟨rfl, by simp [ReadPc.spawning], fun _ => rfl⟩
    case awaitReady d =>
      rcases transition_cases s .initiating .awaitingReady (.spawnReadyTimeout d) with ⟨hs, e⟩ | ⟨-, e⟩
      · rw [e] at h
        cases h
        exact .inl ⟨rfl, fun _ => by rw [hs]; rfl, fun _ => rfl⟩
      · rw [e] at h
        cases h
        exact .inl ⟨rfl, by simp [ReadPc.spawning], fun _ => rfl⟩
    case sendInit d =>
      split at h
      · cases h
      · cases h
        exact .inl ⟨rfl, by simp [ReadPc.spawning], fun _ => rfl⟩
      · rename_i s₁ hs
        obtain ⟨m, ch, -, -, rfl⟩ := sendPacket_ok hs
        cases h
        exact .inl ⟨rfl, by simp [ReadPc.spawning], fun _ => rfl⟩
    case eventCheck event data =>
      split at h
      · split at h <;> cases h <;> exact .inl ⟨rfl, by simp [ReadPc.spawning], fun _ => rfl⟩
      · cases h
        exact .inl ⟨rfl, by simp [ReadPc.spawning], fun _ => rfl⟩
    case initGet | initHandler | readyGet | spawnOnReady =>
      split at h <;> cases h <;> exact .inl ⟨rfl, by simp [ReadPc.spawning], fun _ => rfl⟩
    all_goals
      cases h
      try exact .inl ⟨rfl, by simp [ReadPc.spawning], fun _ => rfl⟩
  | frame f =>
    simp only [readStep] at h
    split at h
    · rename_i hr
      cases h
      refine .inl ⟨rfl, fun hsp => ?_, fun _ => by rw [hr]; rfl⟩
      rcases handleFrame_cases cfg f with h | h | h | ⟨e, d, m, h, -⟩ | ⟨d, m, h, -⟩ | ⟨m, h, -⟩ <;>
        rw [h] at hsp <;> cases hsp
    · cases h
  | outcome o d =>
    simp only [readStep] at h
    split at h
    · rename_i hr
      cases h
      refine .inl ⟨rfl, ?_, fun _ => by rw [hr]; rfl⟩
      dsimp only
      split <;> simp [ReadPc.spawning]
    · cases h
  | stop =>
    simp only [readStep] at h
    split at h
    · cases h
      exact .inl ⟨rfl, by simp [ReadPc.spawning], fun h => absurd rfl h⟩
    · cases h

theorem watches_read {i : ReadInput} (ha : EndsCleanly s (.read i))
    (h : readStep cfg s i = some s') (hi : Watches s) : Watches s' := by
  have ho : s'.owner = s.owner := (readStep_frame h).1
  -- the compare-and-swaps fail once the session is going down
  have hdown : s'.owner.closing = true → isDown s'.state = true := by
    intro hc
    have hd := hi.down (ho ▸ hc)
    rcases readStep_state h with e | ⟨d, -, -, e, -⟩ | ⟨d, -, -, e, -⟩ | ⟨-, -, e, -⟩
    · rw [e]
      exact hd
    all_goals
      rw [e] at hd
      cases hd
  obtain ⟨h₁, h₂, h₃, h₄, h₅, h₆, h₇⟩ := hi
  rcases readStep_slots h with ⟨hs, hsp, hstop⟩ | ⟨d, hr, rfl⟩ | ⟨d, hr, rfl⟩ | ⟨d, hr, rfl⟩ | ⟨hr, rfl⟩
  · simp only [slots, Prod.mk.injEq] at hs
    obtain ⟨⟨e₁, e₂, e₃⟩, ⟨e₄, e₅, e₆⟩, e₇, e₈, e₉⟩ := hs
    refine ⟨hdown, by rw [e₁, e₂, e₃, ho]; exact h₂, by rw [ho, e₂]; exact h₃,
      by rw [e₄, e₅, e₆, ho]; exact h₄, by rw [ho, e₅]; exact h₅, ?_, ?_⟩
    · rw [e₇, e₈, e₉]
      intro hw
      rcases h₆ hw with hw | hw | ⟨d, hw⟩
      · exact .inl hw
      · exact .inr (.inl hw)
      · -- the handle is not given up here
        exfalso
        by_cases hst : i = .stop
        · subst hst
          have hsp : s.read.spawning = false := ha
          rw [hw] at hsp
          cases hsp
        · have := hstop hst
          rw [hw] at this
          cases this
    · rw [ho, e₈]
      intro ht
      refine ⟨(h₇ ht).1, ?_⟩
      cases hsp' : s'.read.spawning with
      | false => rfl
      | true =>
        have hd := h₁ (OwnerPc.tookReady_closing ht)
        rw [hsp hsp'] at hd
        cases hd
  · refine ⟨hdown, ?_, ?_, ?_, ?_, ?_, ?_⟩ <;> grind [abortInitTimeout, ReadPc.spawning]
  · refine ⟨hdown, h₂, h₃, h₄, h₅, fun _ => .inr (.inr ⟨d, rfl⟩), fun ht => ?_⟩
    have := (h₇ ht).2
    rw [hr] at this
    cases this
  · refine ⟨hdown, h₂, h₃, h₄, h₅, fun _ => .inl rfl, fun ht => ?_⟩
    have := (h₇ ht).2
    rw [hr] at this
    cases this
  · refine ⟨hdown, ?_, ?_, ?_, ?_, ?_, ?_⟩ <;> grind [abortReadyTimeout, ReadPc.spawning]

/-- The other tasks spawn no watchdog and touch no slot. -/
theorem step_slots {a : Action} (h : step cfg s a = some s') (hr : ∀ i, a ≠ .read i)
    (ho : ∀ i, a ≠ .owner i) :
    (s'.initWatch ≠ .absent → s.initWatch ≠ .absent) ∧
      (s'.readyWatch ≠ .absent → s.readyWatch ≠ .absent) ∧
      (s'.ping ≠ .absent → s.ping ≠ .absent) ∧
      s'.slots.1.2 = s.slots.1.2 ∧ s'.slots.2.1.2 = s.slots.2.1.2 ∧
      s'.slots.2.2.2 = s.slots.2.2.2 := by
  cases a with
  | owner i => exact absurd rfl (ho i)
  | read i => exact absurd rfl (hr i)
  | write i =>
    obtain ⟨e, pc, -, rfl, -⟩ := writeStep_some h
    exact ⟨id, id, id, rfl, rfl, rfl⟩
  | initWatch i =>
    obtain ⟨e, pc, he, rfl, -⟩ := initWatchStep_some h
    refine ⟨fun _ hw => ?_, id, id, rfl, rfl, rfl⟩
    rw [hw] at he
    cases i <;> simp [Endpoint.watchStep] at he
  | readyWatch i =>
    obtain ⟨e, pc, he, rfl, -⟩ := readyWatchStep_some h
    refine ⟨id, fun _ hw => ?_, id, rfl, rfl, rfl⟩
    rw [hw] at he
    cases i <;> simp [Endpoint.watchStep] at he
  | ping i =>
    refine ⟨?_, ?_, fun _ hw => ?_, ?_, ?_, ?_⟩
    case refine_3 => cases i <;> simp [step, pingStep, hw] at h
    all_goals cases i <;> grind [step, pingStep, enqueue_ok, closeAt, slots]
  | emit k m => grind [step, emitStart, setEmitter, slots]
  | emitter k => grind [step, emitterStep, setEmitter, ensure, enqueue_ok, slots]
  | drop k => grind [step, emitDrop, setEmitter, slots]

theorem watches_step {a : Action} (ha : EndsCleanly s a) (h : step cfg s a = some s')
    (hu : s.owner.beforeRead = true → s.read = .absent) (hi : Watches s) : Watches s' := by
  by_cases hr : ∃ i, a = .read i
  · obtain ⟨i, rfl⟩ := hr
    exact watches_read ha h hi
  by_cases ho : ∃ i, a = .owner i
  · obtain ⟨i, rfl⟩ := ho
    simp only [step] at h
    cases i with
    | go => exact watches_ownerGo ha h hu hi
    | cancelled | elapsed =>
      simp only [ownerStep] at h
      split at h
      · rename_i hpc
        cases h
        exact hi.outside rfl (by simp [hpc]) (by simp [hpc]) rfl rfl
      · cases h
    | readEnded | writeEnded =>
      simp only [ownerStep] at h
      split at h
      · split at h
        · rename_i hpc
          cases h
          exact hi.outside rfl (by simp [hpc]) (by simp [hpc]) rfl rfl
        · rename_i hpc
          cases h
          exact hi.outside rfl (by simp [hpc]) (by simp [hpc]) rfl rfl
        · cases h
      · cases h
    | closeHandler o =>
      simp only [ownerStep] at h
      split at h
      · rename_i hpc
        cases h
        obtain ⟨h₁, h₂, h₃, h₄, h₅, h₆, h₇⟩ := hi
        rw [hpc] at h₁ h₂ h₃ h₄ h₅ h₇
        exact ⟨fun _ => h₁ rfl, by simpa using h₂, fun _ => h₃ rfl, by simpa using h₄,
          fun _ => h₅ rfl, h₆, fun _ => h₇ rfl⟩
      · cases h
    | panicked => exact absurd ha id
  · push Not at hr ho
    obtain ⟨e₁, -⟩ := step_not_owner h ho
    obtain ⟨hread, hstate⟩ := step_outside h hr
    obtain ⟨w₁, w₂, w₃, f₁, f₂, f₃⟩ := step_slots h hr ho
    simp only [slots, Prod.mk.injEq] at f₁ f₂ f₃
    have hread' : s'.read = s.read := by
      rcases hread with e | ⟨e, e', -⟩
      · exact e
      · rw [e₁, e] at e'
        cases e'
    refine ⟨fun hc => ?_, ?_, by rw [e₁, f₁.1]; exact hi.initTaken, ?_,
      by rw [e₁, f₂.1]; exact hi.pingTaken, ?_, by rw [e₁, f₃.1, hread']; exact hi.readyTaken⟩
    · rcases hstate with e | e | ⟨e, e', -⟩
      · rw [e]
        exact hi.down (e₁ ▸ hc)
      · exact e
      · rw [e₁, e] at e'
        cases e'
    · rw [e₁, f₁.1, f₁.2]
      exact fun h => hi.init (w₁ h)
    · rw [e₁, f₂.1, f₂.2]
      exact fun h => hi.ping (w₃ h)
    · rw [f₃.1, f₃.2, hread']
      exact fun h => hi.ready (w₂ h)

theorem watches_of_reachable (h : (system cfg).ReachableWhen EndsCleanly s) : Watches s :=
  h.invariant (I := Watches) (watches_initial cfg) fun _ _ _ hr ha hs hi =>
    watches_step ha hs (reads_of_reachable hr).unread hi

/-! ## The last store -/

/-- The step in which `cleanup` completes stores `Closed`. -/
theorem step_finished {a : Action} (h : step cfg s a = some s') (hn : s.owner ≠ .finished)
    (hf : s'.owner = .finished) :
    a = .owner .go ∧ s.owner = .storeClosed ∧
      s' = { s with
        owner := .finished
        state := .closed
        epilogue := s.epilogue ++ [.storedClosed] } := by
  by_cases ha : ∃ i, a = .owner i
  · obtain ⟨i, rfl⟩ := ha
    simp only [step] at h
    cases i with
    | go =>
      simp only [ownerStep] at h
      unfold ownerGo at h
      split at h
      all_goals grind [→ awaitTask_cases]
    | _ => grind [ownerStep]
  · push Not at ha
    rw [(step_not_owner h ha).1] at hf
    exact absurd hf hn

/-- A session that is over stays over. -/
theorem step_stays_finished {a : Action} (h : step cfg s a = some s') (hf : s.owner = .finished) :
    s'.owner = .finished := by
  by_cases ha : ∃ i, a = .owner i
  · obtain ⟨i, rfl⟩ := ha
    cases i <;> simp [step, ownerStep, ownerGo, hf] at h
  · push Not at ha
    rw [(step_not_owner h ha).1]
    exact hf

/-- When the session is over its state is `Closed`, and no `close` call is about to store. -/
structure Settled (s : Session) : Prop where
  closed : s.owner = .finished → s.state = .closed
  stored : s.owner = .finished → s.pendingStores = 0

theorem pendingStores_eq_zero : s.pendingStores = 0 ↔
    s.initWatch.storing = false ∧ s.readyWatch.storing = false ∧ s.ping.storing = false := by
  simp [pendingStores, and_assoc]

/-- The read task begins no `close` call. -/
theorem readStep_pendingStores {i : ReadInput} (h : readStep cfg s i = some s') :
    s'.pendingStores ≤ s.pendingStores := by
  rcases readStep_slots h with ⟨hs, -, -⟩ | ⟨d, -, rfl⟩ | ⟨d, -, rfl⟩ | ⟨d, -, rfl⟩ | ⟨-, rfl⟩
  · simp only [slots, Prod.mk.injEq] at hs
    simp only [pendingStores, hs.1.1, hs.2.1.1, hs.2.2.1, Nat.le_refl]
  · obtain ⟨w, t, he⟩ := abortInitTimeout_eq s
    rw [he]
    exact Nat.le_refl _
  · simp [pendingStores, WatchPc.storing]
  · exact Nat.le_refl _
  · obtain ⟨w, t, he⟩ := abortReadyTimeout_eq s
    rw [he]
    exact Nat.le_refl _

/-- A `close` call of the ping task reads `Closed` and returns. -/
theorem pingStep_down {i : PingInput} (h : pingStep s i = some s') (hd : isDown s.state = true)
    (hs : s.ping.storing = false) : s'.state = s.state ∧ s'.initWatch = s.initWatch ∧
      s'.readyWatch = s.readyWatch ∧ s'.ping.storing = false := by
  cases i with
  | go =>
    simp only [pingStep] at h
    cases hp : s.ping with
    | closing a =>
      simp only [hp] at h
      cases a with
      | get =>
        simp only [closeAt, Endpoint.close, hd, if_true] at h
        cases h
        exact ⟨rfl, rfl, rfl, rfl⟩
      | store =>
        rw [hp] at hs
        cases hs
      | send =>
        simp only [closeAt, Endpoint.close] at h
        cases h
        exact ⟨Endpoint.state_sendClose _, rfl, rfl, rfl⟩
    | sending =>
      simp only [hp] at h
      split at h
      · cases h
      · cases h
        exact ⟨rfl, rfl, rfl, rfl⟩
      · rename_i s₁ hs₁
        obtain ⟨ch, -, rfl⟩ := enqueue_ok hs₁
        cases h
        exact ⟨rfl, rfl, rfl, rfl⟩
    | sleeping =>
      simp only [hp] at h
      cases h
      exact ⟨rfl, rfl, rfl, rfl⟩
    | _ => simp [hp] at h
  | stop =>
    simp only [pingStep] at h
    split at h
    · cases h
      exact ⟨rfl, rfl, rfl, rfl⟩
    · cases h

/-- Once the state is `Closed` and no `close` call is about to store, this stays. -/
theorem step_settled {a : Action} (h : step cfg s a = some s') (hf : s.owner = .finished)
    (hc : s.state = .closed) (hp : s.pendingStores = 0) :
    s'.state = .closed ∧ s'.pendingStores = 0 := by
  have hd : isDown s.state = true := by rw [hc]; rfl
  obtain ⟨h₁, h₂, h₃⟩ := pendingStores_eq_zero.mp hp
  cases a with
  | owner i => cases i <;> simp [step, ownerStep, ownerGo, hf] at h
  | read i =>
    refine ⟨?_, Nat.le_zero.mp (hp ▸ readStep_pendingStores h)⟩
    rcases readStep_state h with e | ⟨d, -, -, e, -⟩ | ⟨d, -, -, e, -⟩ | ⟨-, -, e, -⟩
    · rw [e, hc]
    all_goals
      rw [e] at hc
      cases hc
  | write i =>
    obtain ⟨e, pc, he, rfl, -⟩ := writeStep_some h
    exact ⟨(Endpoint.writeStep_state he).1.trans hc, hp⟩
  | initWatch i =>
    obtain ⟨e, pc, he, rfl, -⟩ := initWatchStep_some h
    obtain ⟨hst, hpc⟩ := Endpoint.watchStep_down he hd h₁
    exact ⟨hst.trans hc, pendingStores_eq_zero.mpr ⟨hpc, h₂, h₃⟩⟩
  | readyWatch i =>
    obtain ⟨e, pc, he, rfl, -⟩ := readyWatchStep_some h
    obtain ⟨hst, hpc⟩ := Endpoint.watchStep_down he hd h₂
    exact ⟨hst.trans hc, pendingStores_eq_zero.mpr ⟨h₁, hpc, h₃⟩⟩
  | ping i =>
    obtain ⟨hst, e₁, e₂, hpc⟩ := pingStep_down h hd h₃
    exact ⟨hst.trans hc, pendingStores_eq_zero.mpr ⟨by rw [e₁]; exact h₁, by rw [e₂]; exact h₂, hpc⟩⟩
  | emit k m => grind [step, emitStart, setEmitter, pendingStores]
  | emitter k => grind [step, emitterStep, setEmitter, ensure, enqueue_ok, pendingStores]
  | drop k => grind [step, emitDrop, setEmitter, pendingStores]

theorem settled_step {a : Action} (ha : EndsCleanly s a) (h : step cfg s a = some s')
    (hi : Settled s) : Settled s' := by
  by_cases hf : s.owner = .finished
  · obtain ⟨hc, hp⟩ := step_settled h hf (hi.closed hf) (hi.stored hf)
    exact ⟨fun _ => hc, fun _ => hp⟩
  · refine ⟨fun hf' => ?_, fun hf' => ?_⟩ <;> obtain ⟨rfl, ho, rfl⟩ := step_finished h hf hf'
    · rfl
    · exact ha.2 ho

theorem settled_of_reachable (h : (system cfg).ReachableWhen EndsCleanly s) : Settled s :=
  h.invariant (I := Settled) ⟨by simp [system, initial], by simp [system, initial]⟩
    fun _ _ _ _ ha hs hi => settled_step ha hs hi

/-- `cleanup` is complete: its trace is the whole epilogue, the state is `Closed`, and every
task that it had to abort is aborted. -/
structure CleanedUp (cfg : ClientConfig) (s : Session) : Prop where
  finished : s.owner = .finished
  epilogue : s.epilogue = cleanupTrace cfg
  closed : s.state = .closed
  initTimeout : s.initWatch ≠ .absent → s.initWatchAborted = true
  ping : s.ping ≠ .absent → s.pingAborted = true
  readyTimeout : s.readyWatch ≠ .absent → s.readyWatchAborted = true

theorem cleanedUp_of_finished (h : (system cfg).ReachableWhen EndsCleanly s)
    (ho : s.owner = .finished) : CleanedUp cfg s := by
  have he := (ending_of_reachable h).epilogue
  obtain ⟨-, h₂, h₃, h₄, h₅, h₆, h₇⟩ := watches_of_reachable h
  rw [ho] at he h₂ h₃ h₄ h₅ h₇
  refine ⟨ho, he, (settled_of_reachable h).closed ho, fun hw => ?_, fun hw => ?_, fun hw => ?_⟩
  · simpa [h₃ rfl] using h₂ hw
  · simpa [h₅ rfl] using h₄ hw
  · rcases h₆ hw with h | h | ⟨d, h⟩
    · rw [(h₇ rfl).1] at h
      cases h
    · exact h
    · have := (h₇ rfl).2
      rw [h] at this
      cases this

/-! ## The way to the end -/

/-- Both stream tasks have been spawned. -/
structure Spawned (s : Session) : Prop where
  read : s.owner.beforeRead = false → s.read ≠ .absent
  write : s.owner.beforeWrite = false → s.write ≠ .absent

theorem readStep_present {i : ReadInput} (h : readStep cfg s i = some s') : s'.read ≠ .absent := by
  cases i with
  | go =>
    simp only [readStep] at h
    unfold readGo at h
    split at h
    all_goals grind [transition]
  | frame f =>
    simp only [readStep] at h
    split at h
    · cases h
      rcases handleFrame_cases cfg f with h | h | h | ⟨e, d, m, h, -⟩ | ⟨d, m, h, -⟩ | ⟨m, h, -⟩ <;>
        simp [h]
    · cases h
  | outcome o d => grind [readStep]
  | stop => grind [readStep]

/-- The owner spawns the stream tasks, one after the other. -/
theorem ownerStep_spawns {i : OwnerInput} (h : step cfg s (.owner i) = some s') :
    (s'.read = s.read ∧ s'.write = s.write ∧
        (s'.owner.beforeRead = false → s.owner.beforeRead = false) ∧
        (s'.owner.beforeWrite = false → s.owner.beforeWrite = false)) ∨
      (s.owner = .spawnRead ∧ s' = { s with owner := .spawnWrite, read := .next }) ∨
      (s.owner = .spawnWrite ∧ s' = { s with owner := .publish, write := .recv }) := by
  simp only [step] at h
  cases i with
  | go =>
    simp only [ownerStep] at h
    cases ho : s.owner <;> simp only [ownerGo, ho] at h
    case spawnRead =>
      cases h
      exact .inr (.inl ⟨rfl, rfl⟩)
    case spawnWrite =>
      cases h
      exact .inr (.inr ⟨rfl, rfl⟩)
    case close a => split at h <;> cases h <;> exact .inl ⟨rfl, rfl, fun _ => rfl, fun _ => rfl⟩
    case awaitRead | awaitWrite =>
      rcases awaitTask_cases h with ⟨-, -, rfl⟩ | ⟨-, rfl⟩ <;>
        exact .inl ⟨rfl, rfl, fun _ => rfl, fun _ => rfl⟩
    case abortInitTimeout =>
      obtain ⟨w, hw, -⟩ := abortInitTimeout_takes s
      rw [hw] at h
      cases h
      exact .inl ⟨rfl, rfl, fun _ => rfl, fun _ => rfl⟩
    case abortPing =>
      obtain ⟨w, hw, -⟩ := abortPing_takes s
      rw [hw] at h
      cases h
      exact .inl ⟨rfl, rfl, fun _ => rfl, fun _ => rfl⟩
    case abortReadyTimeout =>
      obtain ⟨w, hw, -⟩ := abortReadyTimeout_takes s
      rw [hw] at h
      cases h
      exact .inl ⟨rfl, rfl, fun _ => rfl, fun _ => rfl⟩
    case onClose => split at h <;> cases h <;> exact .inl ⟨rfl, rfl, fun _ => rfl, fun _ => rfl⟩
    case absent | initStore | spawnInitTimeout | storeInitTimeout | spawnPing | storePing =>
      cases h
      refine .inl ⟨rfl, rfl, fun hb => ?_, fun hb => ?_⟩ <;> cases hb
    all_goals
      cases h
      try exact .inl ⟨rfl, rfl, fun _ => rfl, fun _ => rfl⟩
  | cancelled | elapsed | closeHandler o | panicked =>
    simp only [ownerStep] at h
    split at h
    · rename_i ho
      cases h
      exact .inl ⟨rfl, rfl, fun _ => by rw [ho]; rfl, fun _ => by rw [ho]; rfl⟩
    · cases h
  | readEnded | writeEnded =>
    simp only [ownerStep] at h
    split at h
    · split at h
      · rename_i ho
        cases h
        exact .inl ⟨rfl, rfl, fun _ => by rw [ho]; rfl, fun _ => by rw [ho]; rfl⟩
      · rename_i ho
        cases h
        exact .inl ⟨rfl, rfl, fun _ => by rw [ho]; rfl, fun _ => by rw [ho]; rfl⟩
      · cases h
    · cases h

theorem spawned_step {a : Action} (h : step cfg s a = some s') (hi : Spawned s) : Spawned s' := by
  by_cases ha : ∃ i, a = .owner i
  · obtain ⟨i, rfl⟩ := ha
    rcases ownerStep_spawns h with ⟨hr, hw, hbr, hbw⟩ | ⟨ho, rfl⟩ | ⟨ho, rfl⟩
    · exact ⟨fun hb => hr ▸ hi.read (hbr hb), fun hb => hw ▸ hi.write (hbw hb)⟩
    · exact ⟨by simp, by simp [OwnerPc.beforeWrite]⟩
    · exact ⟨fun _ => hi.read (by rw [ho]; rfl), by simp⟩
  · push Not at ha
    have ho := (step_not_owner h ha).1
    refine ⟨fun hb => ?_, fun hb => ?_⟩
    · rw [ho] at hb
      by_cases hr : ∃ i, a = .read i
      · obtain ⟨i, rfl⟩ := hr
        exact readStep_present h
      · push Not at hr
        rcases (step_outside h hr).1 with e | ⟨-, -, e⟩
        · rw [e]
          exact hi.read hb
        · simp [e]
    · rw [ho] at hb
      rcases step_write h with ⟨e, -, -⟩ | ⟨e, -, -, -⟩ | ⟨i, e, pc, -, he, rfl⟩
      · rw [e]
        exact hi.write hb
      · rw [e] at hb
        cases hb
      · have hw := hi.write hb
        intro (hpc : pc = .absent)
        subst hpc
        unfold Endpoint.writeStep at he
        grind

/-- Between its awaits, and while it holds the handle of the ready watchdog, the read task
goes on. -/
theorem readGo_advances (cfg : ClientConfig) (h₀ : s.read ≠ .absent) (h₁ : s.read ≠ .ended)
    (h : ¬ (s.read.awaits = true ∧ s.read.spawning = false)) :
    ∃ s', readGo cfg s = some s' ∧ s'.read.left < s.read.left := by
  cases hr : s.read <;> rw [hr] at h <;> simp only [readGo, hr]
  case absent => exact absurd hr h₀
  case ended => exact absurd hr h₁
  case next | abortInitTimeout | awaitingInitHandler | sendInit | abortReadyTimeout =>
    exact absurd ⟨rfl, rfl⟩ h
  case initTransition | awaitReady | readyTransition =>
    refine ⟨_, rfl, ?_⟩
    unfold transition
    split <;> simp [ReadPc.left]
  case eventCheck event data =>
    split
    · split <;> exact ⟨_, rfl, by simp [ReadPc.left]⟩
    · exact ⟨_, rfl, by simp [ReadPc.left]⟩
  case initGet | initHandler | readyGet | spawnOnReady =>
    split <;> exact ⟨_, rfl, by simp [ReadPc.left]⟩
  all_goals exact ⟨_, rfl, by simp [ReadPc.left]⟩

/-- An aborted read task gets to its end by steps of its own. -/
theorem read_advances (cfg : ClientConfig) (ha : s.readAborted = true) (h₀ : s.read ≠ .absent)
    (h₁ : s.read ≠ .ended) :
    ∃ i s', EndsCleanly s (.read i) ∧ readStep cfg s i = some s' ∧ s'.read.left < s.read.left := by
  by_cases haw : s.read.awaits = true ∧ s.read.spawning = false
  · refine ⟨.stop, { s with read := .ended }, haw.2, by simp [readStep, ha, haw.1], ?_⟩
    revert haw
    cases s.read <;> simp [ReadPc.awaits, ReadPc.spawning, ReadPc.left]
  · obtain ⟨s', hs, hlt⟩ := readGo_advances cfg h₀ h₁ haw
    exact ⟨.go, s', trivial, hs, hlt⟩

/-- How far the session is from its end. -/
def rank (s : Session) : Nat :=
  s.owner.left + s.read.left + (if s.write = .ended then 0 else 1) + s.pendingStores

/-- A step of the read task that brings it closer to its end brings the session closer. -/
theorem rank_read {i : ReadInput} (h : readStep cfg s i = some s')
    (hlt : s'.read.left < s.read.left) : s'.rank < s.rank := by
  obtain ⟨ho, hw, -⟩ := readStep_frame h
  have hp := readStep_pendingStores h
  simp only [rank, ho, hw]
  omega

/-- A step of the owner brings the session closer to its end. -/
structure Advances (s s' : Session) : Prop where
  read : s'.read = s.read
  write : s'.write = s.write
  pending : s'.pendingStores = s.pendingStores
  owner : s'.owner.left < s.owner.left
  ending : s'.owner.ending = true ∨ s'.owner = .finished

theorem Advances.rank (h : Advances s s') : s'.rank < s.rank := by
  have := h.owner
  simp only [Session.rank, h.read, h.write, h.pending]
  omega

/-- The owner goes on wherever it does not wait for a task, a timeout or the handler. -/
theorem ownerGo_advances (cfg : ClientConfig) (ho : s.owner.ending = true)
    (h₁ : s.owner ≠ .graceful) (h₂ : s.owner ≠ .awaitRead) (h₃ : s.owner ≠ .awaitWrite)
    (h₄ : s.owner ≠ .awaitingOnClose) : ∃ s', ownerGo cfg s = some s' ∧ Advances s s' := by
  have hrw : ∀ c : Session, (∃ w t, c = { s with initWatchAborted := w, initTimeoutTask := t }) ∨
      (∃ w t, c = { s with pingAborted := w, pingTask := t }) ∨
      (∃ w t, c = { s with readyWatchAborted := w, readyTimeoutTask := t }) →
      c.read = s.read ∧ c.write = s.write ∧ c.pendingStores = s.pendingStores := by
    rintro c (⟨w, t, rfl⟩ | ⟨w, t, rfl⟩ | ⟨w, t, rfl⟩) <;> exact ⟨rfl, rfl, rfl⟩
  cases hpc : s.owner <;> rw [hpc] at ho <;> try cases ho
  case graceful => exact absurd hpc h₁
  case awaitRead => exact absurd hpc h₂
  case awaitWrite => exact absurd hpc h₃
  case awaitingOnClose => exact absurd hpc h₄
  case close a =>
    simp only [ownerGo, hpc]
    cases a with
    | get =>
      cases hd : isDown s.state <;> simp only [closeAt, Endpoint.close, hd]
      · exact ⟨_, rfl, rfl, rfl, rfl, by simp [hpc, OwnerPc.left], .inl rfl⟩
      · exact ⟨_, rfl, rfl, rfl, rfl, by simp [hpc, OwnerPc.left], .inl rfl⟩
    | _ =>
      simp only [closeAt, Endpoint.close]
      exact ⟨_, rfl, rfl, rfl, rfl, by simp [hpc, OwnerPc.left], .inl rfl⟩
  case onClose =>
    simp only [ownerGo, hpc]
    split <;> exact ⟨_, rfl, rfl, rfl, rfl, by simp [hpc, OwnerPc.left], .inl rfl⟩
  case abortInitTimeout =>
    simp only [ownerGo, hpc]
    obtain ⟨e₁, e₂, e₃⟩ := hrw _ (.inl (abortInitTimeout_eq s))
    exact ⟨_, rfl, e₁, e₂, e₃, by simp [hpc, OwnerPc.left], .inl rfl⟩
  case abortPing =>
    simp only [ownerGo, hpc]
    obtain ⟨e₁, e₂, e₃⟩ := hrw _ (.inr (.inl (abortPing_eq s)))
    exact ⟨_, rfl, e₁, e₂, e₃, by simp [hpc, OwnerPc.left], .inl rfl⟩
  case abortReadyTimeout =>
    simp only [ownerGo, hpc]
    obtain ⟨e₁, e₂, e₃⟩ := hrw _ (.inr (.inr (abortReadyTimeout_eq s)))
    exact ⟨_, rfl, e₁, e₂, e₃, by simp [hpc, OwnerPc.left], .inl rfl⟩
  case storeClosed =>
    simp only [ownerGo, hpc]
    exact ⟨_, rfl, rfl, rfl, rfl, by simp [hpc, OwnerPc.left], .inr rfl⟩
  all_goals
    simp only [ownerGo, hpc]
    exact ⟨_, rfl, rfl, rfl, rfl, by simp [hpc, OwnerPc.left], .inl rfl⟩

/-- A `close` call that has read the state gets to its store. -/
theorem pendingStores_advances (cfg : ClientConfig) (hp : s.pendingStores ≠ 0) :
    ∃ b s', b.ofTasks = true ∧ EndsCleanly s b ∧ step cfg s b = some s' ∧ s'.rank < s.rank ∧
      s'.owner = s.owner := by
  have hwatch : ∀ {pc : WatchPc}, pc.storing = true → pc = .closing .store := by
    intro pc h
    unfold WatchPc.storing at h
    split at h
    · rfl
    · cases h
  cases h₁ : s.initWatch.storing with
  | true =>
    have hpc := hwatch h₁
    exact ⟨.initWatch .go, { s with state := .closing, initWatch := .closing .send }, rfl, trivial,
      by simp [step, initWatchStep, Endpoint.watchStep, Endpoint.close, hpc, Lifecycle.closing],
      by simp [rank, pendingStores, hpc, WatchPc.storing], rfl⟩
  | false =>
    cases h₂ : s.readyWatch.storing with
    | true =>
      have hpc := hwatch h₂
      exact ⟨.readyWatch .go, { s with state := .closing, readyWatch := .closing .send }, rfl, trivial,
        by simp [step, readyWatchStep, Endpoint.watchStep, Endpoint.close, hpc, Lifecycle.closing],
        by simp [rank, pendingStores, hpc, WatchPc.storing], rfl⟩
    | false =>
      have hpc : s.ping = .closing .store := by
        cases h₃ : s.ping.storing with
        | true =>
          unfold PingPc.storing at h₃
          split at h₃
          · assumption
          · cases h₃
        | false => exact absurd (pendingStores_eq_zero.mpr ⟨h₁, h₂, h₃⟩) hp
      exact ⟨.ping .go, { s with state := .closing, ping := .closing .send }, rfl, trivial,
        by simp [step, pingStep, closeAt, Endpoint.close, hpc, Lifecycle.closing],
        by simp [rank, pendingStores, hpc, PingPc.storing], rfl⟩

/-- Past the `select!` some task of the session has a step that brings it closer to its end. -/
theorem ending_advances (h : (system cfg).ReachableWhen EndsCleanly s)
    (ho : s.owner.ending = true) :
    ∃ b s', b.ofTasks = true ∧ EndsCleanly s b ∧ step cfg s b = some s' ∧ s'.rank < s.rank ∧
      (s'.owner.ending = true ∨ s'.owner = .finished) := by
  have hend := ending_of_reachable h
  have hsp : Spawned s := h.invariant (I := Spawned) ⟨by simp [system, initial, OwnerPc.beforeRead],
    by simp [system, initial, OwnerPc.beforeWrite, OwnerPc.beforeRead]⟩
    fun _ _ _ _ _ hs hi => spawned_step hs hi
  have hread : ∀ i s', EndsCleanly s (.read i) → readStep cfg s i = some s' →
      s'.read.left < s.read.left →
      ∃ b s', b.ofTasks = true ∧ EndsCleanly s b ∧ step cfg s b = some s' ∧ s'.rank < s.rank ∧
        (s'.owner.ending = true ∨ s'.owner = .finished) := by
    intro i s' hc hs hlt
    exact ⟨.read i, s', rfl, hc, hs, rank_read hs hlt, .inl (by rw [(readStep_frame hs).1, ho])⟩
  by_cases h₁ : s.owner = .graceful
  · -- the disconnect timeout elapses
    have hs : Advances s { s with owner := .awaitRead, readAborted := true, writeAborted := true } :=
      ⟨rfl, rfl, rfl, by simp [h₁, OwnerPc.left], .inl rfl⟩
    exact ⟨.owner .elapsed, _, rfl, trivial, by simp [step, ownerStep, h₁], hs.rank, hs.ending⟩
  by_cases h₂ : s.owner = .awaitRead
  · by_cases hr : s.read = .ended
    · have hs : Advances s { s with owner := .awaitWrite } :=
        ⟨rfl, rfl, rfl, by simp [h₂, OwnerPc.left], .inl rfl⟩
      have hp := hend.readHandle (by rw [h₂]; rfl)
      exact ⟨.owner .go, _, rfl, by simp [EndsCleanly, h₂],
        by simp [step, ownerStep, ownerGo, h₂, awaitTask, hr, hp, JoinHandle.poll], hs.rank, hs.ending⟩
    · obtain ⟨i, s', hc, hs, hlt⟩ := read_advances cfg (hend.aborts (.inl h₂)).1
        (hsp.read (by rw [h₂]; rfl)) hr
      exact hread i s' hc hs hlt
  by_cases h₃ : s.owner = .awaitWrite
  · by_cases hw : s.write = .ended
    · have hs : Advances s { s with owner := .clear } :=
        ⟨rfl, rfl, rfl, by simp [h₃, OwnerPc.left], .inl rfl⟩
      have hp := hend.writeHandle (by rw [h₃]; rfl)
      exact ⟨.owner .go, _, rfl, by simp [EndsCleanly, h₃],
        by simp [step, ownerStep, ownerGo, h₃, awaitTask, hw, hp, JoinHandle.poll], hs.rank, hs.ending⟩
    · have ha := (hend.aborts (.inr h₃)).2
      have hp := hsp.write (by rw [h₃]; rfl)
      refine ⟨.write .stop, { s with toEndpoint := s.toEndpoint.dropReceiver, write := .ended }, rfl,
        trivial, ?_, by simp [rank, hw, pendingStores], .inl ho⟩
      cases hwp : s.write <;> simp_all [step, writeStep, Endpoint.writeStep]
  by_cases h₄ : s.owner = .awaitingOnClose
  · have hs : Advances s { s with
        owner := .storeClosed
        log := .returned .sessionClose .ok :: s.log
        epilogue := s.epilogue ++ [.closeHandlerReturned] } :=
      ⟨rfl, rfl, rfl, by simp [h₄, OwnerPc.left], .inl rfl⟩
    exact ⟨.owner (.closeHandler .ok), _, rfl, trivial, by simp [step, ownerStep, h₄], hs.rank,
      hs.ending⟩
  · by_cases h₅ : s.owner = .abortReadyTimeout ∧ s.read.spawning = true
    · -- the read task stores the handle first
      obtain ⟨hpc, hspawn⟩ := h₅
      have hne : ∀ pc : ReadPc, pc.spawning = false → s.read ≠ pc := by
        rintro _ hpc' rfl
        rw [hspawn] at hpc'
        cases hpc'
      obtain ⟨s', hs, hlt⟩ := readGo_advances cfg (hne _ rfl) (hne _ rfl) (by simp [hspawn])
      exact hread .go s' trivial hs hlt
    · by_cases h₆ : s.owner = .storeClosed ∧ s.pendingStores ≠ 0
      · -- a `close` call that has read the state stores `Closing` before `cleanup` does `Closed`
        obtain ⟨b, s', hb, hc, hs, hlt, ho'⟩ := pendingStores_advances cfg h₆.2
        exact ⟨b, s', hb, hc, hs, hlt, .inl (by rw [ho', ho])⟩
      · obtain ⟨s', hs, hadv⟩ := ownerGo_advances cfg ho h₁ h₂ h₃ h₄
        refine ⟨.owner .go, s', rfl, ⟨fun hpc => ?_, fun hpc => ?_⟩, hs, hadv.rank, hadv.ending⟩
        · rw [Bool.eq_false_iff]
          exact fun hspawn => h₅ ⟨hpc, hspawn⟩
        · by_contra hne
          exact h₆ ⟨hpc, hne⟩

end Session

end WsIo.Client
