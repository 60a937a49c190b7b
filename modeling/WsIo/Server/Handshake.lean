import Mathlib.Data.List.Nodup
import WsIo.Server.Steps

/-!
# Handshake gating on the server

The handshake of a connection is the straight line of `handle_init_packet`, run by the
read task once: `Progress` says, for every point of the read task, which handlers have
run with which outcome and which states the connection can be in. Everything another
task does to the state keeps it (`Progress.down`, `Progress.awaitInit`).

`handshake_gated` is the resulting guarantee over every run: an event packet is
dispatched, and the ready packet is enqueued, only after each configured handler was
invoked exactly once, in order, and returned `Ok`.
-/

namespace WsIo.Server

open Async Core

namespace Connection

variable {cfg : NamespaceConfig} {c c' : Connection}

/-! ## Milestones -/

/-- The events that the handshake consists of. -/
inductive Milestone
  | invoked (h : Handler)
  | returned (h : Handler) (o : Outcome)
  | ready
  deriving DecidableEq, Repr

/-- The handlers that gate the connection. -/
def gates : Handler → Bool
  | .initResponse | .middleware | .onConnect => true
  | _ => false

def milestone : Obs → Option Milestone
  | .invoked h _ => if gates h then some (.invoked h) else none
  | .returned h o => if gates h then some (.returned h o) else none
  | .enqueued .ready => some .ready
  | _ => none

/-- The milestones of a log, newest first as the log. -/
def milestones (log : List Obs) : List Milestone := log.filterMap milestone

@[simp, grind =] theorem milestones_nil : milestones [] = [] := rfl

@[simp, grind =] theorem milestones_cons (o : Obs) (l : List Obs) :
    milestones (o :: l) = (milestone o).toList ++ milestones l := by
  cases h : milestone o <;> simp [milestones, h]

/-- A configured handler adds its invocation and its `Ok`. -/
def ran (configured : Bool) (h : Handler) (before : List Milestone) : List Milestone :=
  if configured then .returned h .ok :: .invoked h :: before else before

def responded (cfg : NamespaceConfig) : List Milestone :=
  ran cfg.initResponseHandler .initResponse []

def approved (cfg : NamespaceConfig) : List Milestone :=
  ran cfg.middleware .middleware (responded cfg)

/-- All configured handlers ran once, in order, and returned `Ok`. -/
def connected (cfg : NamespaceConfig) : List Milestone :=
  ran cfg.onConnectHandler .onConnect (approved cfg)

theorem nodup_connected (cfg : NamespaceConfig) : (Milestone.ready :: connected cfg).Nodup := by
  unfold connected approved responded ran
  cases cfg.initResponseHandler <;> cases cfg.middleware <;> cases cfg.onConnectHandler <;>
    decide

theorem ready_notMem (cfg : NamespaceConfig) :
    Milestone.ready ∉ responded cfg ∧ .ready ∉ approved cfg ∧ .ready ∉ connected cfg := by
  unfold connected approved responded ran
  cases cfg.initResponseHandler <;> cases cfg.middleware <;> cases cfg.onConnectHandler <;>
    decide

/-- A handler that returned an error, or was cut off, ends the handshake. -/
theorem nodup_returned (cfg : NamespaceConfig) (o : Outcome) :
    [Milestone.returned .initResponse o, .invoked .initResponse].Nodup ∧
      (Milestone.returned .middleware o :: .invoked .middleware :: responded cfg).Nodup ∧
      (Milestone.returned .onConnect o :: .invoked .onConnect :: approved cfg).Nodup := by
  unfold approved responded ran
  cases cfg.initResponseHandler <;> cases cfg.middleware <;> cases o <;> decide

/-! ## The invariant -/

/-- Which milestones are behind the read task, and which states are possible there. -/
def Progress (cfg : NamespaceConfig) : ReadPc → ConnectionState → List Milestone → Prop
  -- between packets: the handshake has not begun, or is complete
  | .absent, s, ms | .next, s, ms | .eventCheck _ _, s, ms | .initGet _, s, ms
  | .initTransition _, s, ms =>
    (ms = [] ∧ (s = .created ∨ s = .awaitingInit ∨ isDown s = true)) ∨
      (ms = .ready :: connected cfg ∧ (s = .ready ∨ isDown s = true))
  | .abortInitTimeout _, s, ms | .initResponse _, s, ms =>
    ms = [] ∧ (s = .initiating ∨ isDown s = true)
  | .awaiting .initResponse, s, ms =>
    cfg.initResponseHandler = true ∧ ms = [.invoked .initResponse] ∧
      (s = .initiating ∨ isDown s = true)
  | .activate, s, ms => ms = responded cfg ∧ (s = .initiating ∨ isDown s = true)
  | .middleware, s, ms => ms = responded cfg ∧ (s = .activating ∨ isDown s = true)
  | .awaiting .middleware, s, ms =>
    cfg.middleware = true ∧ ms = .invoked .middleware :: responded cfg ∧
      (s = .activating ∨ isDown s = true)
  | .ensureActivating, s, ms | .onConnect, s, ms =>
    ms = approved cfg ∧ (s = .activating ∨ isDown s = true)
  | .awaiting .onConnect, s, ms =>
    cfg.onConnectHandler = true ∧ ms = .invoked .onConnect :: approved cfg ∧
      (s = .activating ∨ isDown s = true)
  | .awaiting _, _, _ => False
  | .readyTransition, s, ms => ms = connected cfg ∧ (s = .activating ∨ isDown s = true)
  | .insert _, s, ms | .sendReady, s, ms => ms = connected cfg ∧ (s = .ready ∨ isDown s = true)
  | .spawnOnReady, s, ms => ms = .ready :: connected cfg ∧ (s = .ready ∨ isDown s = true)
  -- a task that ended stays where its last state access left it
  | .ended, s, ms => ms.Nodup ∧ (.ready ∈ ms → s = .ready ∨ isDown s = true)

theorem Progress.down {pc : ReadPc} {s s' : ConnectionState} {ms : List Milestone}
    (h : Progress cfg pc s ms) (hs : isDown s' = true) : Progress cfg pc s' ms := by
  cases pc with
  | awaiting g => cases g <;> simp_all [Progress]
  | _ => simp_all [Progress]; try tauto

theorem Progress.awaitInit {pc : ReadPc} {ms : List Milestone}
    (h : Progress cfg pc .created ms) : Progress cfg pc .awaitingInit ms := by
  cases pc with
  | awaiting g => cases g <;> simp_all [Progress]
  | _ => simp_all [Progress]

theorem Progress.nodup {pc : ReadPc} {s : ConnectionState} {ms : List Milestone}
    (h : Progress cfg pc s ms) : ms.Nodup := by
  have hn := nodup_connected cfg
  have hr := nodup_returned cfg .ok
  cases pc with
  | awaiting g => cases g <;> simp_all [Progress]
  | ended => exact h.1
  | _ =>
    simp_all [Progress, connected, approved, ran]
    try grind

/-! ## Steps of the read task -/

theorem readGo_progress (h : readGo cfg c = some c')
    (hp : Progress cfg c.read c.state (milestones c.log)) :
    Progress cfg c'.read c'.state (milestones c'.log) := by
  have hn := hp.nodup
  unfold readGo at h
  split at h
  case h_1 event data hr => grind [Progress, milestone, isDown_iff]
  case h_2 data hr => grind [Progress, milestone, isDown_iff]
  case h_4 data hr =>
    obtain ⟨w, t, hw⟩ := abortInitTimeout_eq c
    cases h
    simp_all [Progress]
  case h_5 data hr =>
    cases h
    rw [hr] at hp
    rcases invoke_cases c cfg.initResponseHandler .initResponse data .activate with
      ⟨hc, he⟩ | ⟨hc, he⟩
    · rw [he]
      simp_all [Progress, milestone, gates]
    · rw [he]
      simp_all [Progress, responded, ran]
  case h_7 hr =>
    cases h
    rw [hr] at hp
    rcases invoke_cases c cfg.middleware .middleware none .onConnect with ⟨hc, he⟩ | ⟨hc, he⟩
    · rw [he]
      simp_all [Progress, milestone, gates]
    · rw [he]
      simp_all [Progress, approved, ran]
  case h_9 hr =>
    cases h
    rw [hr] at hp
    rcases invoke_cases c cfg.onConnectHandler .onConnect none .readyTransition with
      ⟨hc, he⟩ | ⟨hc, he⟩
    · rw [he]
      simp_all [Progress, milestone, gates]
    · rw [he]
      simp_all [Progress, connected, ran]
  case h_11 r hr =>
    cases h
    rw [hr] at hp
    cases r <;> simp_all [Progress, milestone, afterInsert]
  case h_12 hr =>
    rw [hr] at hp
    split at h
    · cases h
    · cases h
      exact ⟨hn, fun hm => hp.2⟩
    · rename_i c₁ hs
      obtain ⟨m, ch, -, -, rfl⟩ := sendPacket_ok hs
      cases h
      simp_all [Progress, milestone]
  -- the compare-and-swaps, the check of `Activating` and the spawn of the ready handler
  all_goals grind [Progress, milestone, gates, isDown_iff, transition_cases, ensure]

theorem outcome_progress {g : Handler} {o : Outcome} (hr : c.read = .awaiting g)
    (hp : Progress cfg c.read c.state (milestones c.log)) :
    Progress cfg (if o = .ok then afterHandler g else .ended) c.state
      (milestones (.returned g o :: c.log)) := by
  have hn := nodup_returned cfg o
  obtain ⟨hr₁, hr₂, -⟩ := ready_notMem cfg
  rw [hr] at hp
  cases g <;> simp only [Progress] at hp
  all_goals
    obtain ⟨hc, hm, hs⟩ := hp
    split
    · simp_all [Progress, afterHandler, milestone, gates, connected, approved, responded, ran]
    · simp_all [Progress, milestone, gates]

theorem readStep_progress {i : ReadInput} (h : readStep cfg c i = some c')
    (hp : Progress cfg c.read c.state (milestones c.log)) :
    Progress cfg c'.read c'.state (milestones c'.log) := by
  cases i with
  | go => exact readGo_progress h hp
  | frame f =>
    have hn := hp.nodup
    simp only [readStep] at h
    split at h
    · rename_i hr
      cases h
      rw [hr] at hp
      have hlog : milestones (received f ++ c.log) = milestones c.log := by
        unfold received
        split <;> rfl
      change Progress cfg (handleFrame cfg f) c.state (milestones (received f ++ c.log))
      rw [hlog]
      rcases handleFrame_cases cfg f with he | he | ⟨e, d, m, he, -⟩ | ⟨d, m, he, -⟩ <;>
        rw [he] <;> grind [Progress]
    · cases h
  | outcome o =>
    simp only [readStep] at h
    split at h
    · rename_i g hr
      cases h
      exact outcome_progress hr hp
    · cases h
  | stop =>
    have hn := hp.nodup
    simp only [readStep] at h
    split at h
    · cases h
      refine ⟨hn, fun hm => ?_⟩
      obtain ⟨hr₁, hr₂, hr₃⟩ := ready_notMem cfg
      cases hr : c.read <;> rw [hr] at hp
      case awaiting g => cases g <;> simp_all [Progress]
      all_goals simp_all [Progress]
      all_goals grind
    · cases h

/-! ## The log -/

/-- What the other tasks note is no milestone and no dispatch. -/
theorem milestone_outside {o : Obs} (h : o.byReadTask = false) :
    milestone o = none ∧ ∀ e d, o ≠ .dispatched e d := by
  cases o with
  | invoked g d => cases g <;> simp [Obs.byReadTask, milestone, gates] at h ⊢
  | returned g r => cases g <;> simp [Obs.byReadTask, milestone, gates] at h ⊢
  | enqueued o => cases o <;> simp [Obs.byReadTask, milestone] at h ⊢
  | _ => simp [Obs.byReadTask, milestone] at h ⊢

/-- Every dispatch and the ready packet come after the milestones they require. -/
def Gated (cfg : NamespaceConfig) : List Obs → Prop
  | [] => True
  | o :: earlier => Gated cfg earlier ∧
      (∀ e d, o = .dispatched e d → milestones earlier = .ready :: connected cfg) ∧
      (o = .enqueued .ready → milestones earlier = connected cfg)

theorem Gated.dispatched {log later earlier : List Obs} {e : String} {d : Option Bytes}
    (h : Gated cfg log) (hl : log = later ++ .dispatched e d :: earlier) :
    milestones earlier = .ready :: connected cfg := by
  induction later generalizing log with
  | nil =>
    subst hl
    exact h.2.1 e d rfl
  | cons o later ih =>
    subst hl
    exact ih h.1 rfl

theorem Gated.ready {log later earlier : List Obs} (h : Gated cfg log)
    (hl : log = later ++ .enqueued .ready :: earlier) : milestones earlier = connected cfg := by
  induction later generalizing log with
  | nil =>
    subst hl
    exact h.2.2 rfl
  | cons o later ih =>
    subst hl
    exact ih h.1 rfl

theorem readStep_gated {i : ReadInput} (h : readStep cfg c i = some c')
    (hp : Progress cfg c.read c.state (milestones c.log)) (hg : Gated cfg c.log) :
    Gated cfg c'.log := by
  cases i with
  | go =>
    simp only [readStep] at h
    unfold readGo at h
    obtain ⟨w, t, hw⟩ := abortInitTimeout_eq c
    split at h
    all_goals grind [Gated, Progress, isDown_iff, transition_cases, invoke_cases, ensure,
      sendPacket_ok]
  | frame f => grind [readStep, received_cases, Gated]
  | outcome o => grind [readStep, Gated]
  | stop => grind [readStep]

/-! ## Invocations -/

/-- The entry is an invocation of `h`. -/
def invokes (h : Handler) : Obs → Bool
  | .invoked g _ => g = h
  | _ => false

/-- How often a handler was invoked. -/
def invocations (h : Handler) (log : List Obs) : Nat := log.countP (invokes h)

theorem invocations_eq_count {h : Handler} (hg : gates h = true) (log : List Obs) :
    invocations h log = (milestones log).count (.invoked h) := by
  induction log with
  | nil => rfl
  | cons o log ih =>
    unfold invocations at ih ⊢
    rw [List.countP_cons, ih, milestones_cons, List.count_append, Nat.add_comm]
    congr 1
    cases o with
    | invoked g d => by_cases hgh : g = h <;> by_cases hg' : gates g <;> simp_all [invokes, milestone]
    | returned g d => by_cases hg' : gates g <;> simp_all [invokes, milestone]
    | enqueued o => cases o <;> simp [invokes, milestone]
    | _ => simp [invokes, milestone]

theorem count_ready (log : List Obs) :
    log.count (.enqueued .ready) = (milestones log).count .ready := by
  induction log with
  | nil => rfl
  | cons o log ih =>
    rw [List.count_cons, ih, milestones_cons, List.count_append, Nat.add_comm]
    congr 1
    cases o with
    | invoked g d => by_cases hg : gates g <;> simp [milestone, hg]
    | returned g d => by_cases hg : gates g <;> simp [milestone, hg]
    | enqueued o => cases o <;> decide
    | _ => simp [milestone]

@[simp, grind =] theorem invocations_nil (h : Handler) : invocations h [] = 0 := rfl

@[simp, grind =] theorem invocations_cons (h : Handler) (o : Obs) (log : List Obs) :
    invocations h (o :: log) = invocations h log + if invokes h o then 1 else 0 :=
  List.countP_cons

/-- The main task has not yet come to the init-request handler. -/
def beforeRequest : MainPc → Bool
  | .absent | .upgrading | .checkRuntime | .checkNamespace | .reject | .rejected | .spawnRead
  | .spawnWrite | .initEnsure | .initRequest => true
  | _ => false

theorem mainStep_initRequest {i : MainInput} (h : mainStep cfg c i = some c')
    (hi : invocations .initRequest c.log ≤ 1 ∧
      (beforeRequest c.main = true → invocations .initRequest c.log = 0)) :
    invocations .initRequest c'.log ≤ 1 ∧
      (beforeRequest c'.main = true → invocations .initRequest c'.log = 0) := by
  cases i with
  | go =>
    simp only [mainStep] at h
    unfold mainGo at h
    obtain ⟨w, t, hw⟩ := abortInitTimeout_eq c
    split at h
    all_goals grind [tryTransition, ensure, sendPacket_ok, invokes, beforeRequest,
      afterRemove_cases]
  | _ => grind [mainStep, invokes, beforeRequest]

/-- The read task does not run the init request handler. -/
theorem readStep_initRequest {i : ReadInput} (h : readStep cfg c i = some c') :
    invocations .initRequest c'.log = invocations .initRequest c.log := by
  cases i with
  | go =>
    simp only [readStep] at h
    unfold readGo at h
    obtain ⟨w, t, hw⟩ := abortInitTimeout_eq c
    split at h
    all_goals grind [transition_cases, invoke_cases, ensure, sendPacket_ok, invokes]
  | frame f => grind [readStep, received_cases, invokes]
  | outcome o => grind [readStep, invokes]
  | stop => grind [readStep]

theorem step_initRequest {a : Action} (h : step cfg c a = some c')
    (hi : invocations .initRequest c.log ≤ 1 ∧
      (beforeRequest c.main = true → invocations .initRequest c.log = 0)) :
    invocations .initRequest c'.log ≤ 1 ∧
      (beforeRequest c'.main = true → invocations .initRequest c'.log = 0) := by
  by_cases hm : ∃ i, a = .main i
  · obtain ⟨i, rfl⟩ := hm
    exact mainStep_initRequest h hi
  · push Not at hm
    have hlog : invocations .initRequest c'.log = invocations .initRequest c.log := by
      by_cases hr : ∃ i, a = .read i
      · obtain ⟨i, rfl⟩ := hr
        exact readStep_initRequest h
      · push Not at hr
        rcases (step_frame h hm hr).2.2.2 with hl | ⟨o, hl, -⟩
        · rw [hl]
        · rw [hl]
          simp [invokes]
    rw [step_main h hm, hlog]
    exact hi

/-! ## Runs -/

/-- What the handshake keeps over a run. -/
structure Handshaking (cfg : NamespaceConfig) (c : Connection) : Prop where
  progress : Progress cfg c.read c.state (milestones c.log)
  unread : c.main.created = false ∨ c.main = .spawnRead → c.read = .absent
  gated : Gated cfg c.log
  request : invocations .initRequest c.log ≤ 1 ∧
    (beforeRequest c.main = true → invocations .initRequest c.log = 0)

theorem handshaking_initial (cfg : NamespaceConfig) : Handshaking cfg (initial cfg) where
  progress := .inl ⟨rfl, .inl rfl⟩
  unread := fun _ => rfl
  gated := trivial
  request := ⟨Nat.zero_le _, fun _ => rfl⟩

theorem handshaking_step {a : Action} (h : step cfg c a = some c') (hi : Handshaking cfg c) :
    Handshaking cfg c' := by
  refine ⟨?_, step_unread h hi.unread, ?_, step_initRequest h hi.request⟩
  · by_cases ha : ∃ i, a = .read i
    · obtain ⟨i, rfl⟩ := ha
      exact readStep_progress h hi.progress
    · push Not at ha
      obtain ⟨hread, hstate⟩ := step_outside h ha
      have hms : milestones c'.log = milestones c.log := by
        rcases step_outside_log h ha with hl | ⟨o, hl, ho⟩
        · rw [hl]
        · rw [hl, milestones_cons, (milestone_outside ho).1]
          rfl
      have hp := hi.progress
      rw [hms]
      -- the spawn of the read task moves it between two points with the same condition
      have hp' : Progress cfg c'.read c.state (milestones c.log) := by
        rcases hread with hr | ⟨hm, hr⟩
        · rw [hr]
          exact hp
        · rw [hi.unread (.inr hm)] at hp
          rw [hr]
          exact hp
      rcases hstate with hs | hs | ⟨d, -, -, hs, hs'⟩
      · rw [hs]
        exact hp'
      · exact hp'.down hs
      · rw [hs] at hp'
        rw [hs']
        exact hp'.awaitInit
  · by_cases ha : ∃ i, a = .read i
    · obtain ⟨i, rfl⟩ := ha
      exact readStep_gated h hi.progress hi.gated
    · push Not at ha
      rcases step_outside_log h ha with hl | ⟨o, hl, ho⟩
      · rw [hl]
        exact hi.gated
      · rw [hl]
        refine ⟨hi.gated, fun e d he => absurd he ((milestone_outside ho).2 e d), fun he => ?_⟩
        rw [he] at ho
        cases ho

theorem handshaking_of_reachable (h : (system cfg).Reachable c) : Handshaking cfg c :=
  h.invariant (I := Handshaking cfg) (handshaking_initial cfg)
    fun _ _ _ _ hs hi => handshaking_step hs hi

/-- The invocations and returns of the gating handlers, oldest first. -/
def handlerRuns (log : List Obs) : List Milestone :=
  (milestones log).reverse.filter (· ≠ .ready)

/-- The run that opens the gate: each configured handler, in order, invoked once and
returning `Ok`. -/
def handlersPassed (cfg : NamespaceConfig) : List Milestone :=
  (if cfg.initResponseHandler then [.invoked .initResponse, .returned .initResponse .ok] else []) ++
  (if cfg.middleware then [.invoked .middleware, .returned .middleware .ok] else []) ++
  (if cfg.onConnectHandler then [.invoked .onConnect, .returned .onConnect .ok] else [])

theorem handlerRuns_of_milestones {log : List Obs}
    (h : milestones log = connected cfg ∨ milestones log = .ready :: connected cfg) :
    handlerRuns log = handlersPassed cfg := by
  unfold handlerRuns handlersPassed
  rcases h with h | h <;> rw [h] <;> unfold connected approved responded ran <;>
    cases cfg.initResponseHandler <;> cases cfg.middleware <;> cases cfg.onConnectHandler <;>
    decide

/-- **Handshake gating.** In every run of a connection, whatever frames arrive, however
its handlers end and whoever closes it: an event packet is dispatched only after each
configured handler was invoked exactly once, in order, and returned `Ok`; no handler of
the setup is invoked twice; and the ready packet is enqueued at most once, after all of
them succeeded. -/
theorem handshake_gated (h : (system cfg).Reachable c) :
    (∀ later e d earlier, c.log = later ++ .dispatched e d :: earlier →
      handlerRuns earlier = handlersPassed cfg) ∧
    (∀ g ∈ [Handler.initRequest, .initResponse, .middleware, .onConnect],
      invocations g c.log ≤ 1) ∧
    c.log.count (.enqueued .ready) ≤ 1 ∧
    (∀ later earlier, c.log = later ++ .enqueued .ready :: earlier →
      handlerRuns earlier = handlersPassed cfg) := by
  have hi := handshaking_of_reachable h
  have hnodup := hi.progress.nodup
  have honce : ∀ m : Milestone, (milestones c.log).count m ≤ 1 := fun m =>
    List.nodup_iff_count_le_one.mp hnodup m
  refine ⟨?_, ?_, ?_, ?_⟩
  · intro later e d earlier hl
    exact handlerRuns_of_milestones (.inr (hi.gated.dispatched hl))
  · intro g hg
    simp only [List.mem_cons, List.not_mem_nil, or_false] at hg
    rcases hg with rfl | rfl | rfl | rfl
    · exact hi.request.1
    · rw [invocations_eq_count rfl]
      exact honce _
    · rw [invocations_eq_count rfl]
      exact honce _
    · rw [invocations_eq_count rfl]
      exact honce _
  · rw [count_ready]
    exact honce .ready
  · intro later earlier hl
    exact handlerRuns_of_milestones (.inl (hi.gated.ready hl))

/-- A full handshake with every handler, then one event. -/
def handshakeRun : List Action :=
  [.main .go, .main (.upgraded true), .main (.status true), .main (.status true),
    .main .go, .main .go, .main .go, .main .go, .main (.request .ok none), .main .go,
    .main .go, .main .go, .main .go,
    .read (.frame (some (some (.binary [2, 0, 0])))), .read .go, .read .go, .read .go,
    .read .go, .read (.outcome .ok), .read .go, .read .go, .read (.outcome .ok), .read .go,
    .read .go, .read (.outcome .ok), .read .go, .read .go, .read .go, .read .go, .read .go,
    .read .go, .read (.frame (some (some (.binary [1, 1, 1, 97, 0])))), .read .go]

theorem handshake_gated_run : ∃ c, (system (.postcard true)).Reachable c ∧
    .dispatched "a" none ∈ c.log ∧
    (∀ later e d earlier, c.log = later ++ .dispatched e d :: earlier →
      handlerRuns earlier = handlersPassed (.postcard true)) := by
  obtain ⟨c, hr, hc⟩ := System.exists_reachable_of_exec (S := system (.postcard true))
    (l := handshakeRun) (p := fun c => decide (.dispatched "a" none ∈ c.log)) (by decide +kernel)
  exact ⟨c, hr, of_decide_eq_true hc, (handshake_gated hr).1⟩

end Connection

end WsIo.Server
