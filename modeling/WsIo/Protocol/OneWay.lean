import WsIo.Client.Exchange
import WsIo.Protocol.CloseFrame

/-!
# States that are not left

`close` reads the state and stores `Closing` in two accesses, `cleanup` stores `Closing` and
`Closed` unconditionally, and the handshake advances the state by compare-and-swaps.
`closing_never_reopens`: in every run of a connection and of a session, what is going down
stays down, and `Ready` is entered at most once, from the last state of the handshake.
-/

namespace WsIo

open Async Core

/-- What a run shows of its state cell: once the state is `Closing` or `Closed` it is so for
ever, and `Ready` is entered at most once and only from `last`. -/
structure OneWay {σ α : Type*} {τ : Type} [DecidableEq τ] [Lifecycle τ] (S : System σ α)
    (state : σ → τ) (last : τ) (l : List (σ × α)) (s : σ) : Prop where
  down : ∀ later t a earlier, l = later ++ (t, a) :: earlier → isDown (state t) = true →
    isDown (state s) = true
  once : l.countP (S.enters fun s => state s = Lifecycle.ready) ≤ 1
  last : ∀ p ∈ l, S.enters (fun s => state s = Lifecycle.ready) p = true → state p.1 = last

section Rule

variable {σ α : Type*} {τ : Type} [DecidableEq τ] [Lifecycle τ] {S : System σ α} {state : σ → τ}

theorem enters_ready {t : σ} {a : α}
    (h : S.enters (fun s => state s = Lifecycle.ready) (t, a) = true) :
    state t ≠ Lifecycle.ready ∧ ∃ s', S.step t a = some s' ∧ state s' = Lifecycle.ready := by
  rw [System.enters, Bool.and_eq_true, Bool.not_eq_true'] at h
  obtain ⟨hbefore, hafter⟩ := h
  obtain ⟨s', hs, hready⟩ := (Option.any_eq_true _ _).mp hafter
  exact ⟨of_decide_eq_false hbefore, s', hs, of_decide_eq_true hready⟩

/-- The rule for it, from the steps that the states allow. -/
theorem OneWay.of_run {last : τ} {l : List (σ × α)} {s : σ}
    (h : S.RunWhen (fun _ _ => True) l s)
    (hdown : ∀ s a s', S.Reachable s → S.step s a = some s' → isDown (state s) = true →
      isDown (state s') = true)
    (hready : ∀ s a s', S.Reachable s → S.step s a = some s' → state s = Lifecycle.ready →
      state s' = Lifecycle.ready ∨ isDown (state s') = true)
    (hlast : ∀ s a s', S.Reachable s → S.step s a = some s' → state s ≠ Lifecycle.ready →
      state s' = Lifecycle.ready → state s = last) : OneWay S state last l s where
  down := by
    rintro later t a earlier rfl ht
    exact h.forever (P := fun s => isDown (state s) = true) hdown ht
  once := by
    apply h.enters_once (D := fun s => isDown (state s) = true)
    · intro s a s' hr hs hP
      rcases hready s a s' hr hs (of_decide_eq_true hP) with h | h
      · exact .inl (decide_eq_true h)
      · exact .inr h
    · exact hdown
    · intro s hD
      rw [decide_eq_false_iff_not]
      intro he
      rw [he] at hD
      exact absurd hD (by simp [isDown, Lifecycle.ready_ne_closing, Lifecycle.ready_ne_closed])
  last := by
    rintro ⟨t, a⟩ hp he
    obtain ⟨later, earlier, rfl⟩ := List.append_of_mem hp
    obtain ⟨hne, s', hs, hs'⟩ := enters_ready he
    exact hlast t a s' h.before.reachableWhen hs hne hs'

end Rule

/-! ## The connection -/

namespace Server.Connection

variable {cfg : NamespaceConfig} {c c' : Connection}

/-- A step into `Ready` is the third compare-and-swap of `handle_init_packet`. -/
theorem step_to_ready {a : Action} (h : step cfg c a = some c') (hne : c.state ≠ .ready)
    (hr : c'.state = .ready) : c.state = .activating := by
  by_cases ha : ∃ i, a = .read i
  · obtain ⟨i, rfl⟩ := ha
    rcases readStep_state h with hs | ⟨d, -, -, -, hs⟩ | ⟨-, -, -, hs⟩ | ⟨-, -, hs, -⟩
    · exact absurd (hs ▸ hr) hne
    · rw [hs] at hr
      cases hr
    · rw [hs] at hr
      cases hr
    · exact hs
  · push Not at ha
    rcases (step_outside h ha).2 with hs | hs | ⟨d, -, -, -, hs⟩
    · exact absurd (hs ▸ hr) hne
    all_goals
      rw [hr] at hs
      cases hs

theorem step_from_ready {a : Action} (h : step cfg c a = some c') (hr : c.state = .ready) :
    c'.state = .ready ∨ isDown c'.state = true := by
  by_cases ha : ∃ i, a = .read i
  · obtain ⟨i, rfl⟩ := ha
    rcases readStep_state h with hs | ⟨d, -, -, hs, -⟩ | ⟨-, -, hs, -⟩ | ⟨-, -, hs, -⟩
    · exact .inl (hs.trans hr)
    all_goals
      rw [hr] at hs
      cases hs
  · push Not at ha
    rcases (step_outside h ha).2 with hs | hs | ⟨d, -, -, hs, -⟩
    · exact .inl (hs.trans hr)
    · exact .inr hs
    · rw [hr] at hs
      cases hs

end Server.Connection

/-! ## The session -/

namespace Client.Session

variable {cfg : ClientConfig} {s s' : Session}

/-- `init` has not made its first store, and no task that touches the state has been spawned. -/
structure Unstarted (s : Session) : Prop where
  state : s.state = .created
  initWatch : s.initWatch = .absent
  readyWatch : s.readyWatch = .absent
  ping : s.ping = .absent

theorem ownerStep_unstarted {i : OwnerInput} (h : ownerStep cfg s i = some s')
    (ho : s'.owner = .absent ∨ s'.owner = .initStore) :
    s.owner = .absent ∧ s' = { s with owner := .initStore } := by
  cases i with
  | go =>
    simp only [ownerStep] at h
    unfold ownerGo at h
    split at h
    all_goals grind [→ awaitTask_cases]
  | _ => grind [ownerStep]

/-- Before its first store a session stays as `new` made it. -/
theorem step_unstarted {a : Action} (h : step cfg s a = some s') (hx : Reads cfg s)
    (hi : s.owner = .absent ∨ s.owner = .initStore → Unstarted s) :
    s'.owner = .absent ∨ s'.owner = .initStore → Unstarted s' := by
  intro ho
  by_cases ha : ∃ i, a = .owner i
  · obtain ⟨i, rfl⟩ := ha
    obtain ⟨habsent, rfl⟩ := ownerStep_unstarted h ho
    obtain ⟨h₁, h₂, h₃, h₄⟩ := hi (.inl habsent)
    exact ⟨h₁, h₂, h₃, h₄⟩
  · push Not at ha
    rw [(step_not_owner h ha).1] at ho
    have hs := hi ho
    cases a with
    | owner i => exact absurd rfl (ha i)
    | read i =>
      have hr : s.read = .absent := by
        apply hx.unread
        rcases ho with ho | ho <;> rw [ho] <;> rfl
      cases i with
      | go => simp [step, readStep, readGo, hr] at h
      | _ => simp [step, readStep, hr, ReadPc.awaits] at h
    | write i =>
      obtain ⟨e, pc, -, rfl, he⟩ := writeStep_some h
      exact ⟨he.trans hs.state, hs.initWatch, hs.readyWatch, hs.ping⟩
    | initWatch i =>
      obtain ⟨e, pc, he, -⟩ := initWatchStep_some h
      rw [hs.initWatch] at he
      cases i <;> simp [Endpoint.watchStep] at he
    | readyWatch i =>
      obtain ⟨e, pc, he, -⟩ := readyWatchStep_some h
      rw [hs.readyWatch] at he
      cases i <;> simp [Endpoint.watchStep] at he
    | ping i => cases i <;> simp [step, pingStep, hs.ping] at h
    | emit k m =>
      obtain ⟨h₁, h₂, h₃, h₄⟩ := hs
      constructor <;> grind [step, emitStart, setEmitter]
    | emitter k =>
      obtain ⟨h₁, h₂, h₃, h₄⟩ := hs
      constructor <;> grind [step, emitterStep_cases, setEmitter]
    | drop k =>
      obtain ⟨h₁, h₂, h₃, h₄⟩ := hs
      constructor <;> grind [step, emitDrop, setEmitter]

theorem unstarted_of_reachable (h : (system cfg).Reachable s) :
    s.owner = .absent ∨ s.owner = .initStore → Unstarted s := by
  apply h.invariant (I := fun s => s.owner = .absent ∨ s.owner = .initStore → Unstarted s)
  · exact fun _ => ⟨rfl, rfl, rfl, rfl⟩
  · intro s a s' hr hs hi
    exact step_unstarted hs (reads_of_reachable hr) hi

/-- The state after a step, when the session has one to move from: the compare-and-swaps of
the read task, the stores of `Closing` and `Closed`, and the store of `init`, which finds
the state `Created`. -/
theorem step_state {a : Action} (hr : (system cfg).Reachable s) (h : step cfg s a = some s') :
    s'.state = s.state ∨ isDown s'.state = true ∨
      s.state = .created ∧ s'.state = .awaitingInit ∨
      s.state = .awaitingInit ∧ s'.state = .initiating ∨
      s.state = .initiating ∧ s'.state = .awaitingReady ∨
      s.state = .awaitingReady ∧ s'.state = .ready := by
  by_cases ha : ∃ i, a = .read i
  · obtain ⟨i, rfl⟩ := ha
    rcases readStep_state h with hs | ⟨d, -, -, hs⟩ | ⟨d, -, -, hs⟩ | ⟨-, -, hs⟩
    · exact .inl hs
    · exact .inr (.inr (.inr (.inl hs)))
    · exact .inr (.inr (.inr (.inr (.inl hs))))
    · exact .inr (.inr (.inr (.inr (.inr hs))))
  · push Not at ha
    rcases (step_outside h ha).2 with hs | hs | ⟨ho, -, hs⟩
    · exact .inl hs
    · exact .inr (.inl hs)
    · exact .inr (.inr (.inl ⟨(unstarted_of_reachable hr (.inr ho)).state, hs⟩))

theorem step_isDown {a : Action} (hr : (system cfg).Reachable s) (h : step cfg s a = some s')
    (hd : isDown s.state = true) : isDown s'.state = true := by
  rcases step_state hr h with hs | hs | ⟨hs, -⟩ | ⟨hs, -⟩ | ⟨hs, -⟩ | ⟨hs, -⟩
  · exact hs ▸ hd
  · exact hs
  all_goals
    rw [hs] at hd
    cases hd

theorem step_from_ready {a : Action} (hr : (system cfg).Reachable s) (h : step cfg s a = some s')
    (hs : s.state = .ready) : s'.state = .ready ∨ isDown s'.state = true := by
  rcases step_state hr h with hs' | hs' | ⟨hs', -⟩ | ⟨hs', -⟩ | ⟨hs', -⟩ | ⟨hs', -⟩
  · exact .inl (hs'.trans hs)
  · exact .inr hs'
  all_goals
    rw [hs] at hs'
    cases hs'

/-- A step into `Ready` is the compare-and-swap of `handle_ready_packet`. -/
theorem step_to_ready {a : Action} (hr : (system cfg).Reachable s) (h : step cfg s a = some s')
    (hne : s.state ≠ .ready) (hs : s'.state = .ready) : s.state = .awaitingReady := by
  rcases step_state hr h with hs' | hs' | ⟨-, hs'⟩ | ⟨-, hs'⟩ | ⟨-, hs'⟩ | ⟨hs', -⟩
  · exact absurd (hs' ▸ hs) hne
  case inr.inr.inr.inr.inr => exact hs'
  all_goals
    rw [hs] at hs'
    cases hs'

end Client.Session

/-- **A closing connection never reopens.** -/
theorem closing_never_reopens :
    (∀ (cfg : Server.NamespaceConfig) (l : List (Server.Connection × Server.Action))
      (c : Server.Connection), (Server.Connection.system cfg).RunWhen (fun _ _ => True) l c →
        OneWay (Server.Connection.system cfg) (fun c => c.state) .activating l c) ∧
    (∀ (cfg : Client.ClientConfig) (l : List (Client.Session × Client.Action))
      (s : Client.Session), (Client.Session.system cfg).RunWhen (fun _ _ => True) l s →
        OneWay (Client.Session.system cfg) (fun s => s.state) .awaitingReady l s) := by
  constructor
  · intro cfg l c h
    apply OneWay.of_run h
    · exact fun _ _ _ _ hs => Server.Connection.step_isDown hs
    · exact fun _ _ _ _ hs => Server.Connection.step_from_ready hs
    · exact fun _ _ _ _ hs => Server.Connection.step_to_ready hs
  · intro cfg l s h
    apply OneWay.of_run h
    · exact fun _ _ _ hr hs => Client.Session.step_isDown hr hs
    · exact fun _ _ _ hr hs => Client.Session.step_from_ready hr hs
    · exact fun _ _ _ hr hs => Client.Session.step_to_ready hr hs

/-- A handshake and a `close` on both ends: `Ready` is entered, and the state that is left in
the end is `Closing`. -/
theorem closing_never_reopens_run :
    (∃ l c, OneWay (Server.Connection.system (.postcard false)) (fun c => c.state) .activating
      l c ∧ c.state = .closing ∧
      l.countP ((Server.Connection.system (.postcard false)).enters
        fun c => c.state = Lifecycle.ready) = 1) ∧
    (∃ l s, OneWay (Client.Session.system (.postcard false)) (fun s => s.state) .awaitingReady
      l s ∧ s.state = .closing ∧
      l.countP ((Client.Session.system (.postcard false)).enters
        fun s => s.state = Lifecycle.ready) = 1) := by
  constructor
  · let S := Server.Connection.system (.postcard false)
    let run := Server.Connection.readyRun ++ [.start 0 .close, .caller 0, .caller 0, .caller 0]
    have he : ((S.exec S.init run).map fun c => c.state) = some .closing := by decide +kernel
    have hc : (S.trail S.init run).countP (S.enters fun c => c.state = Lifecycle.ready) = 1 := by
      decide +kernel
    obtain ⟨c, hexec, hstate⟩ := Option.map_eq_some_iff.mp he
    have hrun := System.RunWhen.exec .init hexec
    rw [List.append_nil] at hrun
    exact ⟨_, c, closing_never_reopens.1 _ _ c hrun, hstate, hc⟩
  · let S := Client.Session.system (.postcard false)
    let run := Client.Session.readyRun ++ [.owner .cancelled, .owner .go, .owner .go, .owner .go]
    have he : ((S.exec S.init run).map fun s => s.state) = some .closing := by decide +kernel
    have hc : (S.trail S.init run).countP (S.enters fun s => s.state = Lifecycle.ready) = 1 := by
      decide +kernel
    obtain ⟨s, hexec, hstate⟩ := Option.map_eq_some_iff.mp he
    have hrun := System.RunWhen.exec .init hexec
    rw [List.append_nil] at hrun
    exact ⟨_, s, closing_never_reopens.2 _ _ s hrun, hstate, hc⟩

end WsIo
