import WsIo.Client.Delivery

/-!
# The order of buffered messages

`buffer_fifo`: within a period the accepted messages are those handed to sessions, then the
one in the hands of the send task, then those in the buffer. `Fifo` is what a step of a
period keeps of the buffer, `Enqueued` ties `handed` to the channels of the sessions.
-/

namespace WsIo.Client.Runtime

open Async Core

variable {cfg : ClientConfig} {s s' : Runtime} {k p : Nat}

/-! ## First in, first out -/

/-- The message in the hands of the send task that holds the buffer. -/
def held (s : Runtime) : List Buffered :=
  match s.rxLock with
  | some (.sender p) => heldBy (s.senders p).pc
  | _ => []

/-- A period begins without a send task of an earlier one that is aborted and still runs,
or that holds a message. -/
def CleanStart (s : Runtime) (a : ClientAction) : Prop :=
  ∀ k, a = .call k → s.calls k = .connect .storeRunning →
    ∀ p, (s.senders p).pc ≠ .absent → (s.senders p).pc ≠ .ended →
      (s.senders p).aborted = false ∧ heldBy (s.senders p).pc = []

/-- What holds within a period. -/
structure Fifo (s : Runtime) : Prop where
  kept : ∀ p, (s.senders p).pc ≠ .absent → (s.senders p).pc ≠ .ended →
    (s.senders p).aborted = false
  fifo : s.accepted = s.handed.map Prod.snd ++ s.held ++ s.buffer.queue

theorem held_of_holds (hl : RxLock s) (hp : (s.senders p).pc.holdsRx = true) :
    s.held = heldBy (s.senders p).pc := by
  unfold held
  rw [(hl.senders p).mp hp]

theorem fifo_sender (h : senderStep cfg s p = some s') (hl : RxLock s) (hf : Fifo s) : Fifo s' := by
  have hl' := rxLock_sender h hl
  have hacc := (senderStep_only h).accepted
  obtain ⟨pc, hs, hcases⟩ := senderStep_delivery h
  have hself : (s'.senders p).pc = pc := by rw [hs, Function.update_self]
  have halive : (s.senders p).pc ≠ .absent ∧ (s.senders p).pc ≠ .ended := by
    rcases hcases with ⟨hpc, -⟩ | ⟨m, hpc, -⟩ | ⟨hpc, -⟩ | ⟨m, i, hpc, -⟩
    · simp [hpc]
    · simp [hpc]
    · constructor <;> intro hne <;> rw [hne] at hpc <;> cases hpc
    · constructor <;> intro hne <;> rw [hne] at hpc <;> cases hpc
  refine ⟨fun q hq hq' => ?_, ?_⟩
  · by_cases hqp : q = p
    · subst hqp
      rw [hs, Function.update_self]
      exact hf.kept q halive.1 halive.2
    · rw [hs, Function.update_of_ne hqp] at hq hq' ⊢
      exact hf.kept q hq hq'
  · rw [hacc, hf.fifo]
    rcases hcases with ⟨hpc, rfl, hfree, -, hb, hh⟩ | ⟨m, hpc, rfl, hr, -, hh⟩ |
      ⟨hpc, hpc', hkeep, -, hb, hh⟩ | ⟨m, i, hpc, hheld, rfl, -, hb, hh⟩
    · have h₁ : s.held = [] := by
        unfold held
        rw [hfree]
      have h₂ : s'.held = [] := by
        rw [held_of_holds hl' (p := p) (by rw [hself]; rfl), hself]
        rfl
      rw [h₁, h₂, hb, hh]
    · have h₁ : s.held = [] := by
        rw [held_of_holds hl (p := p) (by rw [hpc]; rfl), hpc]
        rfl
      have h₂ : s'.held = [m] := by
        rw [held_of_holds hl' (p := p) (by rw [hself]; rfl), hself]
        rfl
      rw [h₁, h₂, hh, (Channel.recv_some hr).1]
      simp
    · have h₁ : s'.held = s.held := by
        rw [held_of_holds hl' (p := p) (by rw [hself]; exact hpc'), hself, hkeep,
          held_of_holds hl hpc]
      rw [h₁, hb, hh]
    · have h₁ : s.held = [m] := by rw [held_of_holds hl hpc, hheld]
      have h₂ : s'.held = [] := by
        rw [held_of_holds hl' (p := p) (by rw [hself]; rfl), hself]
        rfl
      rw [h₁, h₂, hb, hh]
      simp

theorem SameDelivery.held (h : SameDelivery s s') : s'.held = s.held := by
  unfold Runtime.held
  rw [h.rxLock, h.senders]

theorem Fifo.same (hf : Fifo s) (h : SameDelivery s s') : Fifo s' := by
  refine ⟨?_, ?_⟩
  · rw [h.senders]
    exact hf.kept
  · rw [h.accepted, h.handed, h.held, h.buffer]
    exact hf.fifo

/-- The first store of a period: nothing is in flight but the buffer. -/
theorem fifo_begin {a : Call} (hl : RxLock s)
    (hclean : ∀ p, (s.senders p).pc ≠ .absent → (s.senders p).pc ≠ .ended →
      (s.senders p).aborted = false ∧ heldBy (s.senders p).pc = []) :
    Fifo ({ s with
      status := .running
      period := s.period + 1
      accepted := s.buffer.queue
      handed := [] }.setCall k a) := by
  refine ⟨fun p hp hp' => (hclean p hp hp').1, ?_⟩
  have hheld : s.held = [] := by
    unfold held
    split
    · rename_i p hp
      have hpc := (hl.senders p).mpr hp
      refine (hclean p ?_ ?_).2
      · intro hne
        rw [hne] at hpc
        cases hpc
      · intro hne
        rw [hne] at hpc
        cases hpc
    · rfl
  change s.buffer.queue = [] ++ s.held ++ s.buffer.queue
  rw [hheld]
  rfl

/-- Within a period no call touches the buffer, its lock or a running send task. -/
theorem fifo_call (h : callStep s k = some s') (hc : Control s) (hl : RxLock s)
    (hclean : s.calls k = .connect .storeRunning →
      ∀ p, (s.senders p).pc ≠ .absent → (s.senders p).pc ≠ .ended →
        (s.senders p).aborted = false ∧ heldBy (s.senders p).pc = [])
    (hrun : s'.status = .running) (hf : s.status = .running → Fifo s) : Fifo s' := by
  -- a `disconnect` past its first store excludes the status `Running`
  have hstop : ∀ packet pc, s.calls k = .disconnect packet pc →
      stopping (.disconnect packet pc) = true → s.status = .running → False := by
    intro packet pc hk hpc hr
    have := hc.status k .stopping (by rw [hk]; exact statusAt_stopping.mpr hpc)
    rw [hr] at this
    cases this
  rcases callStep_delivery h with ⟨hk, rfl⟩ | ⟨hk, rfl⟩ | ⟨packet, p, hk, rfl⟩ |
    ⟨packet, hk, -, rfl⟩ | ⟨packet, m, buffer, hk, -, rfl⟩ | ⟨packet, hk, rfl⟩ | ⟨c, hb⟩
  · exact fifo_begin hl (hclean hk)
  · have habs := hl.spawning k (by rw [hk]; rfl)
    have hne : s.rxLock ≠ some (.sender s.period) := by
      rw [Ne, ← hl.senders, habs]
      simp [SenderPc.holdsRx]
    obtain ⟨hkept, hfifo⟩ := hf hrun
    refine ⟨fun p hp hp' => ?_, ?_⟩
    · by_cases hps : p = s.period
      · subst hps
        simp [setCall, spawnSender]
      · simp only [setCall, spawnSender, Function.update_of_ne hps] at hp hp' ⊢
        exact hkept p hp hp'
    · have hheld : ((s.spawnSender s.period).setCall k (.connect (.storeSender s.period))).held =
          s.held := by
        simp only [held, setCall, spawnSender]
        split
        · rename_i p hp
          have hps : p ≠ s.period := fun he => hne (he ▸ hp)
          rw [Function.update_of_ne hps]
        · rfl
      rw [hheld]
      exact hfifo
  · exact absurd hrun fun hr => hstop packet _ hk rfl hr
  · exact absurd hrun fun hr => hstop packet _ hk rfl hr
  · exact absurd hrun fun hr => hstop packet _ hk rfl hr
  · cases hrun
  · refine (hf ?_).same hb.toSameDelivery
    rcases hb.status with hst | hst
    · rw [← hst]
      exact hrun
    · rw [hst] at hrun
      cases hrun

theorem fifo_drop (hc : Control s) (hrun : s.status = .running) (hf : Fifo s) : Fifo (s.dropCall k) := by
  have hrx : holdsRx (s.calls k) = false := by
    cases hk : s.calls k with
    | disconnect packet pc =>
      have hst := hc.status k .stopping
      rw [hk, hrun] at hst
      cases pc <;> first | rfl | cases hst rfl
    | _ => rfl
  have hheld : (s.dropCall k).held = s.held := by simp [held, dropCall, setCall, hrx]
  refine ⟨hf.kept, ?_⟩
  rw [hheld]
  exact hf.fifo

theorem fifo_step {a : ClientAction} (ha : CleanStart s a) (h : step cfg s a = some s')
    (hc : Control s) (hl : RxLock s) (hf : s.status = .running → Fifo s)
    (hrun : s'.status = .running) : Fifo s' := by
  rcases step_delivery h with ⟨hsame, hst, -⟩ | ⟨k, m, buffer, -, hb, rfl⟩ | ⟨p, -, h⟩ |
    ⟨p, -, h⟩ | ⟨k, rfl, h⟩ | ⟨k, -, -, rfl⟩
  · exact (hf (hst ▸ hrun)).same hsame
  · obtain ⟨hkept, hfifo⟩ := hf hrun
    refine ⟨hkept, ?_⟩
    change s.accepted ++ [m] = s.handed.map Prod.snd ++ s.held ++ buffer.queue
    rw [hfifo, (Channel.trySend_ok hb).2.2.1, ← List.append_assoc]
  · have hst := (senderStep_only h).status
    exact fifo_sender h hl (hf (hst ▸ hrun))
  · have hst := (stopSender_only h).status
    obtain ⟨haborted, hne, hne', -⟩ := stopSender_delivery h
    have := (hf (hst ▸ hrun)).kept p hne hne'
    rw [haborted] at this
    cases this
  · exact fifo_call h hc hl (ha k rfl) hrun hf
  · exact fifo_drop hc hrun (hf hrun)

/-! ## The channels of the sessions -/

/-- The event messages among what was enqueued into the channel of a session. -/
def eventsIn (l : List Outgoing) : List Message :=
  (l.filter fun m => m.origin = .event).map (·.message)

/-- What was handed to session `i` since the period began. -/
def handedTo (s : Runtime) (i : Nat) : List Message :=
  (s.handed.filter fun e => e.1 = i).map (·.2.message)

theorem eventsIn_step {x c : Session} {b : Action} (h : Session.step cfg x b = some c)
    (hb : ∀ q, b ≠ .emitter q) : eventsIn c.channel.sent = eventsIn x.channel.sent := by
  rcases Session.step_sent h with hs | ⟨m, hs, hm, -⟩
  · rw [hs]
  · have hne : m.origin ≠ .event := by
      intro ho
      obtain ⟨q, hq⟩ := hm ho
      exact hb q hq
    rw [hs]
    simp [eventsIn, hne]

/-- `handed` is what the channels of the sessions of this period have received. -/
structure Enqueued (s : Runtime) : Prop where
  created : ∀ e ∈ s.handed, s.sessions e.1 ≠ none
  period : ∀ i x, s.sessions i = some x → x.period ≤ s.period
  channel : ∀ i x, s.sessions i = some x → x.period = s.period →
    s.handedTo i = eventsIn x.session.channel.sent

/-- Outside the send tasks, `handed` changes when a period begins only. -/
theorem step_handed {a : ClientAction} (h : step cfg s a = some s') (ha : ∀ p, a ≠ .sender p) :
    (s'.handed = s.handed ∧ s'.period = s.period) ∨
      (s'.handed = [] ∧ s'.period = s.period + 1 ∧ s'.sessions = s.sessions) := by
  rcases step_delivery h with ⟨hsame, -, -⟩ | ⟨k, m, buffer, -, -, rfl⟩ | ⟨p, rfl, -⟩ |
    ⟨p, -, h⟩ | ⟨k, -, h⟩ | ⟨k, -, -, rfl⟩
  · exact .inl ⟨hsame.handed, hsame.period⟩
  · exact .inl ⟨rfl, rfl⟩
  · exact absurd rfl (ha p)
  · exact .inl ⟨(stopSender_delivery h).2.2.2.2.2.2, (stopSender_only h).period⟩
  · rcases callStep_delivery h with ⟨-, rfl⟩ | ⟨-, rfl⟩ | ⟨packet, q, -, rfl⟩ |
      ⟨packet, -, -, rfl⟩ | ⟨packet, m, buffer, -, -, rfl⟩ | ⟨packet, -, rfl⟩ | ⟨c, hb⟩
    · exact .inr ⟨rfl, rfl, rfl⟩
    · exact .inl ⟨rfl, rfl⟩
    · exact .inl ⟨rfl, rfl⟩
    · exact .inl ⟨rfl, rfl⟩
    · exact .inl ⟨rfl, rfl⟩
    · exact .inl ⟨rfl, rfl⟩
    · exact .inl ⟨hb.handed, hb.period⟩
  · exact .inl ⟨rfl, rfl⟩

/-- A send task changes `handed` and the channels together. -/
theorem enqueued_sender (h : senderStep cfg s p = some s') (hat : Attempts s)
    (hi : Enqueued s) : Enqueued s' := by
  have hper := (senderStep_only h).period
  -- a session that moved without an enqueued event message
  have hquiet : ∀ i x c, s.sessions i = some x → eventsIn c.channel.sent =
      eventsIn x.session.channel.sent → s'.handed = s.handed →
      s'.sessions = Function.update s.sessions i (some { x with session := c }) → Enqueued s' := by
    intro i x c hx hev hh hs
    refine ⟨fun e he => ?_, fun j y hy => ?_, fun j y hy hyp => ?_⟩
    · rw [hh] at he
      rw [hs, Function.update_apply]
      split
      · simp
      · exact hi.created e he
    · rw [hs, Function.update_apply] at hy
      rw [hper]
      split at hy
      · cases hy
        exact hi.period i x hx
      · exact hi.period j y hy
    · rw [hs, Function.update_apply] at hy
      rw [hper] at hyp
      unfold handedTo
      rw [hh]
      split at hy
      · rename_i hji
        subst hji
        cases hy
        change s.handedTo j = eventsIn c.channel.sent
        rw [hev]
        exact hi.channel j x hx hyp
      · exact hi.channel j y hy hyp
  rcases senderStep_cases h with ⟨-, -, rfl⟩ | ⟨m, buffer, -, -, rfl⟩ | ⟨m, armed, -, -, rfl⟩ |
    ⟨m, armed, i, x, c, -, -, hx, hc, rfl⟩ | ⟨m, armed, i, x, c, hpc, hx, hc, rfl⟩ | ⟨m, -, rfl⟩ |
    ⟨m, armed, -, -, rfl⟩
  case inr.inr.inr.inl => exact hquiet i x c hx (eventsIn_step hc (by simp)) rfl rfl
  case inr.inr.inr.inr.inl =>
    obtain ⟨x', hx', he⟩ := hat p m armed i hpc
    rw [hx] at hx'
    cases hx'
    rcases attempt_cases s armed i hc he with ⟨-, -, -, hch, ha⟩ | ⟨-, hch, -, ha⟩ | ⟨hch, ha⟩
    · rw [ha] at hquiet ⊢
      exact hquiet i x c hx (by rw [hch]) rfl rfl
    · rw [ha] at hquiet ⊢
      exact hquiet i x c hx (by rw [hch]) rfl rfl
    · rw [ha]
      refine ⟨fun e he => ?_, fun j y hy => ?_, fun j y hy hyp => ?_⟩
      · simp only [setSender, setMember, List.mem_append, List.mem_singleton] at he ⊢
        rw [Function.update_apply]
        split
        · simp
        · rcases he with he | rfl
          · exact hi.created e he
          · rename_i hne
            exact absurd rfl hne
      · simp only [setSender, setMember, Function.update_apply] at hy ⊢
        split at hy
        · cases hy
          exact hi.period i x hx
        · exact hi.period j y hy
      · simp only [setSender, setMember, Function.update_apply] at hy hyp
        simp only [handedTo, setSender, setMember, List.filter_append, List.map_append]
        split at hy
        · rename_i hji
          subst hji
          cases hy
          have hold := hi.channel j x hx hyp
          unfold handedTo at hold
          rw [hold, Channel.sent_trySend hch]
          simp [eventsIn]
        · rename_i hne
          have hold := hi.channel j y hy hyp
          unfold handedTo at hold
          rw [hold]
          simp [Ne.symm hne]
  all_goals exact ⟨hi.created, hi.period, hi.channel⟩

theorem enqueued_step {a : ClientAction} (h : step cfg s a = some s') (hat : Attempts s)
    (hi : Enqueued s) : Enqueued s' := by
  by_cases hsender : ∃ p, a = .sender p
  · obtain ⟨p, rfl⟩ := hsender
    exact enqueued_sender h hat hi
  push Not at hsender
  have hcreated : ∀ i, s.sessions i ≠ none → s'.sessions i ≠ none := by
    intro i hx
    obtain ⟨x, hx⟩ := Option.ne_none_iff_exists'.mp hx
    obtain ⟨x', hx', -⟩ := step_member h hx
    simp [hx']
  -- a session as it is after the step: as before, new, or moved without an event message
  have hbefore : ∀ i x', s'.sessions i = some x' →
      (∃ x, s.sessions i = some x ∧ x'.period = x.period ∧
        eventsIn x'.session.channel.sent = eventsIn x.session.channel.sent) ∨
      (s.sessions i = none ∧ x'.period = s.period ∧ eventsIn x'.session.channel.sent = []) := by
    intro i x' hx'
    rcases step_member_before h hx' with hx | ⟨p, -, hn, rfl⟩ | ⟨b, x, hx, hd, hmoved⟩
    · exact .inl ⟨x', hx, rfl, rfl⟩
    · exact .inr ⟨hn, rfl, rfl⟩
    · refine .inl ⟨x, hx, hmoved.period, eventsIn_step hmoved.step fun q hq => ?_⟩
      subst hq
      rcases hd with ⟨k, rfl⟩ | ⟨q, y, rfl, -⟩ | ⟨q, rfl, -⟩ | ⟨q, -, hq⟩
      · obtain ⟨m, c, -, hp, -, -⟩ := memberStep_some h
        cases hp
      · exact hsender q rfl
      · exact hsender q rfl
      · cases hq
  rcases step_handed h hsender with ⟨hh, hper⟩ | ⟨hh, hper, hs⟩
  · refine ⟨fun e he => hcreated e.1 (hi.created e (hh ▸ he)), fun i x' hx' => ?_,
      fun i x' hx' hp => ?_⟩
    · rw [hper]
      rcases hbefore i x' hx' with ⟨x, hx, hxp, -⟩ | ⟨-, hxp, -⟩
      · rw [hxp]
        exact hi.period i x hx
      · exact Nat.le_of_eq hxp
    · have hto : s'.handedTo i = s.handedTo i := by
        unfold handedTo
        rw [hh]
      rw [hper] at hp
      rcases hbefore i x' hx' with ⟨x, hx, hxp, hev⟩ | ⟨hn, -, hev⟩
      · rw [hto, hev]
        exact hi.channel i x hx (hxp ▸ hp)
      · -- nothing was handed to a session that was not there
        rw [hto, hev, handedTo, List.map_eq_nil_iff, List.filter_eq_nil_iff]
        intro e he hei
        exact hi.created e he (of_decide_eq_true hei ▸ hn)
  · refine ⟨?_, fun i x hx => ?_, fun i x hx hp => ?_⟩
    · rw [hh]
      simp
    · rw [hs] at hx
      rw [hper]
      exact Nat.le_succ_of_le (hi.period i x hx)
    · -- no session of the new period exists yet
      rw [hs] at hx
      have hle := hi.period i x hx
      omega

theorem enqueued_of_reachable {guard : Runtime → ClientAction → Prop}
    (h : (system cfg).ReachableWhen guard s) : Enqueued s :=
  h.invariant (I := Enqueued)
    ⟨by simp [system, initial], by simp [system, initial], by simp [system, initial]⟩
    fun _ _ _ hr _ hs hi => enqueued_step hs (attempts_of_reachable hr) hi

/-- **The buffer is FIFO and hands over exactly once.** As long as no period begins with an
aborted or a burdened send task of an earlier one still running, at every moment of a
period the messages accepted into the buffer, with what it held at the beginning, are those
enqueued into sessions, in this order, then the one that the send task holds, then those
still buffered; only the task that has the buffer's lock holds one, and what was handed to
a session of the period is what its channel received. -/
theorem buffer_fifo (cfg : ClientConfig) (s : Runtime)
    (h : (system cfg).ReachableWhen CleanStart s) (hrun : s.status = .running) :
    s.accepted = s.handed.map Prod.snd ++ s.held ++ s.buffer.queue ∧ s.held.length ≤ 1 ∧
      (∀ p, heldBy (s.senders p).pc ≠ [] → s.held = heldBy (s.senders p).pc) ∧
      ∀ i x, s.sessions i = some x → x.period = s.period →
        s.handedTo i = eventsIn x.session.channel.sent := by
  have hf : s.status = .running → Fifo s := h.invariant
    (I := fun s => s.status = .running → Fifo s) (by simp [system, initial])
    fun s a s' hr ha hs hi hrun =>
      fifo_step ha hs (control_of_reachable hr) (rxLock_of_reachable hr) hi hrun
  refine ⟨(hf hrun).fifo, ?_, fun p hp => ?_, (enqueued_of_reachable h).channel⟩
  · unfold held
    split
    · rename_i p _
      cases (s.senders p).pc <;> simp [heldBy]
    · simp
  · refine held_of_holds (rxLock_of_reachable h) ?_
    cases hpc : (s.senders p).pc <;> simp_all [heldBy, SenderPc.holdsRx]

/-- A complete handshake of session `i`. -/
def readyRun (i : Nat) : List ClientAction := sessionRun i 0 (List.replicate 10 (.owner .go) ++
  [.read (.frame (some (some (.binary [2, 0, 0]))))] ++ List.replicate 8 (.read .go) ++
  [.read (.frame (some (some (.binary [3, 0, 0]))))] ++ List.replicate 5 (.read .go))

/-- An `emit` of the event "a", up to the send. -/
def emitRun (k : Nat) : List ClientAction := [.emit k "a" none, .emitStep k .go, .emitStep k .go]

/-- The step begins no period. -/
def startsClean (s : Runtime) : ClientAction → Bool
  | .call k => s.calls k ≠ .connect .storeRunning
  | _ => true

/-- Three emits: one message is handed to the session, one is held, one is buffered. -/
theorem buffer_fifo_run :
    ∃ s, (system (.postcard false)).ReachableWhen CleanStart s ∧ s.status = .running ∧
      s.handed.length = 1 ∧ s.held.length = 1 ∧ s.buffer.queue.length = 1 ∧
      s.accepted = s.handed.map Prod.snd ++ s.held ++ s.buffer.queue := by
  have hstart : (system (.postcard false)).ReachableWhen CleanStart _ :=
    .step (a := .call 0) (.step (a := .call 0) (.step (a := .call 0) (.step (a := .start 0 .connect)
      .init (by simp [CleanStart]) rfl) (by simp [CleanStart, setCall, entry, system]) rfl)
      (by simp [CleanStart, setCall, entry, system]) rfl)
      (by simp [CleanStart, setCall, system, initial]) rfl
  obtain ⟨s, hr, hs⟩ := hstart.exists_execWhen
    (g := startsClean)
    (l := List.flatten [List.replicate 5 (.call 0), [.loop 1 .go, .loop 1 (.connected 0)],
      readyRun 0, (List.range 3).flatMap (fun k => List.flatten [emitRun k, [.emitStep k .go]]),
      List.replicate 6 (.sender 1)])
    (p := fun s : Runtime => decide (s.status = .running ∧ s.handed.length = 1 ∧
      s.held.length = 1 ∧ s.buffer.queue.length = 1))
    (by
      intro s a ha k hk hrun
      subst hk
      simp [startsClean, hrun] at ha)
    (by decide +kernel)
  obtain ⟨h₁, h₂, h₃, h₄⟩ := of_decide_eq_true hs
  exact ⟨s, hr, h₁, h₂, h₃, h₄, (buffer_fifo _ s hr h₁).1⟩

/-- A send task that was being polled when `disconnect` aborted it takes the buffer's lock
in the next period, receives a message and ends at its next wait: the message is lost. -/
theorem buffer_message_lost :
    ¬ ∀ s, (system (.postcard false)).Reachable s → s.status = .running →
      s.accepted = s.handed.map Prod.snd ++ s.held ++ s.buffer.queue := by
  intro h
  obtain ⟨s, hr, hs⟩ := System.exists_reachable_of_exec (S := system (.postcard false))
    (l := List.flatten [callRun 0 8 .connect, callRun 1 8 .disconnect,
      [.loop 1 .go, .call 1, .call 1], callRun 2 8 .connect, emitRun 0, [.emitStep 0 .go],
      List.replicate 5 (.sender 1), [.stopSender 1]])
    (p := fun s => decide (s.status = .running ∧
      s.accepted ≠ s.handed.map Prod.snd ++ s.held ++ s.buffer.queue)) (by decide +kernel)
  obtain ⟨hrun, hne⟩ := of_decide_eq_true hs
  exact hne (h s hr hrun)

end WsIo.Client.Runtime
