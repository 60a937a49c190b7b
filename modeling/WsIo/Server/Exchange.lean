import WsIo.Core.Wire
import WsIo.Server.Steps

/-!
# What a connection has sent and received

The invariant of one connection that its client relies on: every message in the channel
is the encoding of what its origin stands for, the init packet and the ready packet are
sent at most once, and the state is tied to how many init packets have arrived.
-/

namespace WsIo.Server

open Async Core

/-- The states after the connection accepted an init packet. -/
def ConnectionState.past : ConnectionState → Bool
  | .initiating | .activating | .ready => true
  | _ => false

/-- The read task has an init packet that it has not accepted yet. -/
def ReadPc.entering : ReadPc → Bool
  | .initGet _ | .initTransition _ => true
  | _ => false

/-- The read task runs `handle_init_packet` between its first transition and the send of
the ready packet. -/
def ReadPc.handshaking : ReadPc → Bool
  | .abortInitTimeout _ | .initResponse _ | .activate | .middleware | .ensureActivating
  | .onConnect | .awaiting _ | .readyTransition | .insert _ | .sendReady => true
  | _ => false

/-- The main task has not sent the init packet. -/
def MainPc.beforeInit : MainPc → Bool
  | .initEnsure | .initRequest | .awaitingInitRequest | .initTransition _ | .spawnWatch _
  | .storeWatch _ | .sendInit _ => true
  | pc => pc.beforeWrite

/-- The main task is between the transition to `AwaitingInit` and the init packet. -/
def MainPc.sendingInit : MainPc → Bool
  | .spawnWatch _ | .storeWatch _ | .sendInit _ => true
  | _ => false

namespace Connection

variable {cfg : NamespaceConfig} {c c' : Connection}

/-! ## Received packets -/

def receivedPacket (codec : PacketCodec) (t : WsIoPacketType) : Obs → Bool
  | .received m => carries codec true t m
  | _ => false

/-- How many packets of a type have been received. -/
def packetsReceived (codec : PacketCodec) (t : WsIoPacketType) (log : List Obs) : Nat :=
  log.countP (receivedPacket codec t)

@[simp, grind =] theorem packetsReceived_nil (codec : PacketCodec) (t : WsIoPacketType) :
    packetsReceived codec t [] = 0 := rfl

@[simp, grind =] theorem packetsReceived_cons (codec : PacketCodec) (t : WsIoPacketType) (o : Obs)
    (l : List Obs) : packetsReceived codec t (o :: l) =
      packetsReceived codec t l + if receivedPacket codec t o then 1 else 0 := by
  simp [packetsReceived, List.countP_cons]

/-! ## Sent messages -/

/-- Which call enqueues a message, and where that leaves its task. -/
def Sent (cfg : NamespaceConfig) (c c' : Connection) (m : Outgoing) : Prop :=
  match m.origin with
  | .init => ∃ d, c.main = .sendInit d ∧ c'.main = .select ∧
      encodePacketToMessage cfg.codec (.newInit d) = .ok m.message
  | .ready => c.read = .sendReady ∧ c'.read = .spawnOnReady ∧
      encodePacketToMessage cfg.codec .newReady = .ok m.message
  | .event => ∃ k, c.callers k = .emitSend m.message
  | .disconnect => encodePacketToMessage cfg.codec .newDisconnect = .ok m.message ∨
      ∃ k, c.callers k = .messageSend m.message
  | .ping => False
  | .close => m.message = .close

theorem closeAt_sent (c : Connection) (s : CloseStep) :
    (c.closeAt s).1.channel.sent = c.channel.sent ∨
      (c.closeAt s).1.channel.sent = c.channel.sent ++ [Endpoint.closeMessage] :=
  Endpoint.close_sent c.toEndpoint s

/-- A step enqueues at most one message. -/
theorem step_sent {a : Action} (h : step cfg c a = some c') :
    c'.channel.sent = c.channel.sent ∨
      ∃ m, c'.channel.sent = c.channel.sent ++ [m] ∧ Sent cfg c c' m := by
  cases a with
  | main i =>
    simp only [step] at h
    cases i with
    | go =>
      simp only [mainStep] at h
      unfold mainGo at h
      obtain ⟨w, t, hw⟩ := abortInitTimeout_eq c
      split at h
      all_goals grind [tryTransition, ensure, sendPacket_ok, closeAt_sent, Sent, Endpoint.closeMessage]
    | _ => grind [mainStep]
  | read i =>
    rcases readStep_channel h with hc | ⟨hr, hr', -, m, hm, hc⟩
    · exact .inl (by rw [hc])
    · exact .inr ⟨_, Channel.sent_trySend hc, hr, hr', hm⟩
  | write i =>
    obtain ⟨e, pc, he, rfl, -⟩ := writeStep_some h
    exact .inl (Endpoint.writeStep_state he).2.1
  | watch i =>
    obtain ⟨e, pc, he, rfl, -⟩ := watchStep_some h
    rcases Endpoint.watchStep_cases he with ⟨rfl, -⟩ | ⟨s, -, -, rfl, -⟩
    · exact .inl rfl
    · rcases Endpoint.close_sent c.toEndpoint s with hs | hs
      · exact .inl hs
      · exact .inr ⟨_, hs, rfl⟩
  | start k job => grind [step, setCaller]
  | caller k =>
    simp only [step] at h
    unfold callerStep at h
    split at h
    all_goals grind [ensure, sendPacket_ok, enqueue_ok, closeAt_sent, setCaller, Sent,
      Endpoint.closeMessage]
  | drop k => grind [step, setCaller]

/-- A call that will enqueue a message holds the encoding of its packet. -/
def CallAuthentic (codec : PacketCodec) : Caller → Prop
  | .emitCheck m | .emitSend m => ∃ e d, encodePacketToMessage codec (.newEvent e d) = .ok m
  | .messageSend m => encodePacketToMessage codec .newDisconnect = .ok m
  | _ => True

theorem callAuthentic_entry (job : Job) : CallAuthentic cfg.codec (entry cfg job) := by
  cases job with
  | emit event data =>
    simp only [entry]
    split
    · rename_i m hm
      exact ⟨event, data, hm⟩
    · trivial
  | sendDisconnect =>
    simp only [entry]
    split
    · assumption
    · trivial
  | _ => trivial

theorem step_calls {a : Action} (h : step cfg c a = some c')
    (hc : ∀ k, CallAuthentic cfg.codec (c.callers k)) (k : Nat) :
    CallAuthentic cfg.codec (c'.callers k) := by
  have hk := hc k
  cases a with
  | main i =>
    rw [mainStep_callers h]
    exact hk
  | read i =>
    obtain ⟨-, -, -, hcallers, -⟩ := readStep_frame h
    rw [hcallers]
    exact hk
  | write i =>
    obtain ⟨e, pc, -, rfl, -⟩ := writeStep_some h
    exact hk
  | watch i =>
    obtain ⟨e, pc, -, rfl, -⟩ := watchStep_some h
    exact hk
  | start j job => grind [step, callAuthentic_entry]
  | caller j =>
    have hj := hc j
    simp only [step] at h
    unfold callerStep at h
    split at h
    all_goals grind [ensure, callers_sendPacket, callers_enqueue, CallAuthentic]
  | drop j => grind [step, CallAuthentic]

theorem Sent.authentic {m : Outgoing} (h : Sent cfg c c' m)
    (hc : ∀ k, CallAuthentic cfg.codec (c.callers k)) :
    Authentic cfg.codec m ∧ m.origin ≠ .ping := by
  obtain ⟨origin, message⟩ := m
  cases origin with
  | init =>
    obtain ⟨d, -, -, he⟩ := h
    exact ⟨⟨_, rfl, he⟩, by simp⟩
  | ready => exact ⟨⟨_, rfl, h.2.2⟩, by simp⟩
  | event =>
    obtain ⟨k, hk⟩ := h
    have := hc k
    rw [hk] at this
    obtain ⟨e, d, he⟩ := this
    exact ⟨⟨_, rfl, he⟩, by simp⟩
  | disconnect =>
    refine ⟨⟨.newDisconnect, rfl, ?_⟩, by simp⟩
    rcases h with he | ⟨k, hk⟩
    · exact he
    · have := hc k
      rw [hk] at this
      exact this
  | ping => exact absurd h id
  | close => exact ⟨h, by simp⟩

/-! ## The main task -/

theorem step_beforeInit {a : Action} (h : step cfg c a = some c')
    (hb : c'.main.beforeInit = true) : c.main.beforeInit = true := by
  by_cases ha : ∃ i, a = .main i
  · obtain ⟨i, rfl⟩ := ha
    simp only [step] at h
    cases i with
    | go =>
      simp only [mainStep] at h
      unfold mainGo at h
      split at h
      all_goals grind [tryTransition, ensure, sendPacket_ok, MainPc.beforeInit,
        MainPc.beforeWrite, MainPc.created, afterRemove_cases]
    | _ => grind [mainStep, MainPc.beforeInit, MainPc.beforeWrite, MainPc.created]
  · push Not at ha
    rwa [step_main h ha] at hb

/-- The main task goes on to the init packet only after its transition from `Created`. -/
theorem mainStep_sendingInit {i : MainInput} (h : mainStep cfg c i = some c')
    (hc : c'.main.sendingInit = true) : c.main.sendingInit = true ∨ c'.state ≠ .created := by
  cases i with
  | go =>
    simp only [mainStep] at h
    unfold mainGo at h
    split at h
    all_goals grind [tryTransition, ensure, sendPacket_ok, MainPc.sendingInit, afterRemove_cases]
  | _ => grind [mainStep, MainPc.sendingInit]

/-- The connection leaves `Created` before the main task goes on to the init packet, and
never comes back to it. -/
theorem step_created {a : Action} (h : step cfg c a = some c') :
    (c'.state = .created → c.state = .created) ∧
      (c'.main.sendingInit = true → c.main.sendingInit = true ∨ c'.state ≠ .created) := by
  refine ⟨fun hs => ?_, fun hc => ?_⟩
  · by_cases ha : ∃ i, a = .read i
    · obtain ⟨i, rfl⟩ := ha
      have := readStep_state h
      grind
    · push Not at ha
      rcases (step_outside h ha).2 with hs' | hs' | ⟨d, -, -, hs', -⟩
      · rw [← hs']
        exact hs
      · rw [hs] at hs'
        cases hs'
      · exact hs'
  · by_cases ha : ∃ i, a = .main i
    · obtain ⟨i, rfl⟩ := ha
      exact mainStep_sendingInit h hc
    · push Not at ha
      rw [step_main h ha] at hc
      exact .inl hc

/-! ## The read task -/

/-- How the read task and the state depend on the number `n` of init packets received and
the number `r` of ready packets sent. -/
structure Reading (pc : ReadPc) (s : ConnectionState) (n r : Nat) : Prop where
  entering : pc.entering = true → 1 ≤ n
  handshaking : pc.handshaking = true → 1 ≤ n ∧ r = 0
  past : s.past = true → 1 ≤ n ∧ (pc.entering = true → 2 ≤ n)
  sendReady : pc = .sendReady → s = .ready ∨ isDown s = true
  inserting : ∀ x, pc = .insert x → s = .ready ∨ isDown s = true
  sent : 1 ≤ r → 1 ≤ n ∧ (s = .ready ∨ isDown s = true)
  once : r ≤ 1

theorem Reading.down {pc : ReadPc} {s s' : ConnectionState} {n r : Nat} (h : Reading pc s n r)
    (hs : isDown s' = true) : Reading pc s' n r where
  entering := h.entering
  handshaking := h.handshaking
  past := fun hp => by cases s' <;> simp [ConnectionState.past] at hp hs
  sendReady := fun _ => .inr hs
  inserting := fun _ _ => .inr hs
  sent := fun hr => ⟨(h.sent hr).1, .inr hs⟩
  once := h.once

/-- How the read task moves between two frames. -/
theorem readGo_moves (h : readGo cfg c = some c') :
    (∀ t, packetsReceived cfg.codec t c'.log = packetsReceived cfg.codec t c.log) ∧
      (c'.read.entering = true → c.read.entering = true ∧ c'.state = c.state) ∧
      (c'.read.handshaking = true → c.read.handshaking = true ∨
        c.read.entering = true ∧ c.state = .awaitingInit) ∧
      (c'.read = .sendReady → c.read = .insert .connectionIds ∧ c'.state = c.state) ∧
      (∀ x, c'.read = .insert x → c'.state = .ready ∨ c'.state = c.state ∧ ∃ y, c.read = .insert y) := by
  unfold readGo at h
  obtain ⟨w, t, hw⟩ := abortInitTimeout_eq c
  split at h
  case h_11 r hr =>
    cases h
    cases r <;> simp [afterInsert, receivedPacket, ReadPc.entering, ReadPc.handshaking, hr]
  all_goals grind [transition_cases, invoke_cases, ensure, sendPacket_ok, receivedPacket,
    ReadPc.entering, ReadPc.handshaking]

theorem readGo_reading (h : readGo cfg c = some c')
    (hr : Reading c.read c.state (packetsReceived cfg.codec .init c.log)
      (countOf .ready c.channel.sent)) :
    Reading c'.read c'.state (packetsReceived cfg.codec .init c'.log)
      (countOf .ready c'.channel.sent) := by
  obtain ⟨hn, hent, hhand, hsend, hins⟩ := readGo_moves h
  have hstate := readStep_state (i := .go) h
  have hch : countOf .ready c'.channel.sent = countOf .ready c.channel.sent ∨
      c.read = .sendReady ∧ c'.read = .spawnOnReady ∧ c'.state = c.state ∧
        countOf .ready c'.channel.sent = countOf .ready c.channel.sent + 1 := by
    rcases readStep_channel (i := .go) h with hc | ⟨hr, hr', -, m, -, hc⟩
    · exact .inl (by rw [hc])
    · refine .inr ⟨hr, hr', ?_, by rw [Channel.sent_trySend hc]; simp⟩
      rcases hstate with hs | ⟨d, hs, -⟩ | ⟨hs, -⟩ | ⟨hs, -⟩
      · exact hs
      all_goals rw [hr] at hs; cases hs
  rw [hn]
  obtain ⟨h₁, h₂, h₃, h₄, h₅, h₆, h₇⟩ := hr
  constructor
  all_goals grind [ReadPc.entering, ReadPc.handshaking, ConnectionState.past, isDown_iff]

theorem readStep_reading {i : ReadInput} (h : readStep cfg c i = some c')
    (hr : Reading c.read c.state (packetsReceived cfg.codec .init c.log)
      (countOf .ready c.channel.sent)) :
    Reading c'.read c'.state (packetsReceived cfg.codec .init c'.log)
      (countOf .ready c'.channel.sent) := by
  cases i with
  | go => exact readGo_reading h hr
  | frame f =>
    simp only [readStep] at h
    split at h
    · rename_i hn
      cases h
      obtain ⟨h₁, h₂, h₃, h₄, h₅, h₆, h₇⟩ := hr
      have hf := handleFrame_cases cfg f
      have hl : packetsReceived cfg.codec .init c.log ≤
          packetsReceived cfg.codec .init (received f ++ c.log) := by
        rcases received_cases f with hf | ⟨m, hf⟩ <;> rw [hf] <;> simp
      have hi : ∀ d, handleFrame cfg f = .initGet d →
          packetsReceived cfg.codec .init (received f ++ c.log) =
            packetsReceived cfg.codec .init c.log + 1 := by
        intro d hd
        rw [hd] at hf
        obtain ⟨d', m, -, rfl, hc⟩ : ∃ d' m, ReadPc.initGet d = .initGet d' ∧ f = some (some m) ∧
            carries cfg.codec true .init m = true := by
          simpa using hf
        simp [received, receivedPacket, hc]
      constructor
      all_goals
        simp only
        grind [ReadPc.entering, ReadPc.handshaking]
    · cases h
  | outcome o =>
    simp only [readStep] at h
    split at h
    · rename_i g hg
      cases h
      obtain ⟨h₁, h₂, h₃, h₄, h₅, h₆, h₇⟩ := hr
      have hpc := afterHandler_cases g o
      generalize (if o = .ok then afterHandler g else .ended) = pc at hpc
      constructor
      all_goals grind [receivedPacket, ReadPc.entering, ReadPc.handshaking]
    · cases h
  | stop =>
    simp only [readStep] at h
    split at h
    · cases h
      obtain ⟨h₁, h₂, h₃, h₄, h₅, h₆, h₇⟩ := hr
      constructor
      all_goals grind [ReadPc.entering, ReadPc.handshaking]
    · cases h

/-- Only the read task receives packets. -/
theorem packetsReceived_outside {a : Action} (h : step cfg c a = some c') (ha : ∀ i, a ≠ .read i)
    (t : WsIoPacketType) :
    packetsReceived cfg.codec t c'.log = packetsReceived cfg.codec t c.log := by
  rcases step_outside_log h ha with hl | ⟨o, hl, ho⟩
  · rw [hl]
  · rw [hl, packetsReceived_cons]
    cases o <;> simp [receivedPacket, Obs.byReadTask] at ho ⊢

/-- Packets are received in frames only. -/
theorem packetsReceived_quiet {a : Action} (h : step cfg c a = some c')
    (ha : ∀ f, a ≠ .read (.frame f)) (t : WsIoPacketType) :
    packetsReceived cfg.codec t c'.log = packetsReceived cfg.codec t c.log := by
  by_cases hr : ∃ i, a = .read i
  · obtain ⟨i, rfl⟩ := hr
    cases i with
    | go => exact (readGo_moves h).1 t
    | frame f => exact absurd rfl (ha f)
    | outcome o => grind [step, readStep, receivedPacket]
    | stop => grind [step, readStep]
  · push Not at hr
    exact packetsReceived_outside h hr t

theorem log_frame {f : Frame} (h : step cfg c (.read (.frame f)) = some c') :
    c'.log = received f ++ c.log := by
  grind [step, readStep]

/-- A bail on an init packet is logged where `handle_init_packet` reads the state. -/
theorem step_bailed {a : Action} {e : Error} {st : ConnectionState} (h : step cfg c a = some c')
    (hb : .bailed .init e st ∈ c'.log) : .bailed .init e st ∈ c.log ∨
      c.read.entering = true ∧ st = c.state ∧ st ≠ .awaitingInit := by
  by_cases ha : ∃ i, a = .read i
  · obtain ⟨i, rfl⟩ := ha
    cases i with
    | go =>
      simp only [step, readStep] at h
      unfold readGo at h
      obtain ⟨w, t, hw⟩ := abortInitTimeout_eq c
      split at h
      all_goals grind [transition_cases, invoke_cases, ensure, sendPacket_ok, ReadPc.entering]
    | frame f => grind [step, readStep, received_cases]
    | outcome o => grind [step, readStep]
    | stop => grind [step, readStep]
  · push Not at ha
    rcases step_outside_log h ha with hl | ⟨o, hl, ho⟩
    · rw [hl] at hb
      exact .inl hb
    · rw [hl, List.mem_cons] at hb
      rcases hb with rfl | hb
      · cases ho
      · exact .inl hb

/-- The read task checks the state for an event packet it has received. -/
theorem step_checking {a : Action} (h : step cfg c a = some c')
    (hc : ∀ e d, c.read = .eventCheck e d → 1 ≤ packetsReceived cfg.codec .event c.log)
    (e : Option String) (d : Option Bytes) (hr : c'.read = .eventCheck e d) :
    1 ≤ packetsReceived cfg.codec .event c'.log := by
  by_cases ha : ∃ i, a = .read i
  · obtain ⟨i, rfl⟩ := ha
    cases i with
    | go =>
      simp only [step, readStep] at h
      unfold readGo at h
      obtain ⟨w, t, hw⟩ := abortInitTimeout_eq c
      split at h
      all_goals grind [transition_cases, invoke_cases, ensure, sendPacket_ok, afterInsert_cases]
    | frame f =>
      simp only [step, readStep] at h
      split at h
      · cases h
        have hf := handleFrame_cases cfg f
        rw [show handleFrame cfg f = .eventCheck e d from hr] at hf
        obtain ⟨m, rfl, hm⟩ : ∃ m, f = some (some m) ∧ carries cfg.codec true .event m = true := by
          simpa using hf
        simp [received, receivedPacket, hm]
      · cases h
    | outcome o =>
      simp only [step, readStep] at h
      split at h
      · rename_i g hg
        cases h
        have hpc := afterHandler_cases g o
        rw [show (if o = .ok then afterHandler g else .ended) = .eventCheck e d from hr] at hpc
        simp at hpc
      · cases h
    | stop => grind [step, readStep]
  · push Not at ha
    rw [packetsReceived_outside h ha]
    obtain ⟨hread, -⟩ := step_outside h ha
    rcases hread with hr' | ⟨-, hr'⟩
    · rw [hr'] at hr
      exact hc e d hr
    · rw [hr'] at hr
      cases hr

/-! ## The invariant -/

/-- What one connection keeps, whatever its client sends. -/
structure Exchange (cfg : NamespaceConfig) (c : Connection) : Prop where
  calls : ∀ k, CallAuthentic cfg.codec (c.callers k)
  authentic : ∀ m ∈ c.channel.sent, Authentic cfg.codec m ∧ m.origin ≠ .ping
  initOnce : countOf .init c.channel.sent ≤ 1 ∧
    (c.main.beforeInit = true → countOf .init c.channel.sent = 0)
  initState : c.main.sendingInit = true ∨ 1 ≤ countOf .init c.channel.sent → c.state ≠ .created
  reading : Reading c.read c.state (packetsReceived cfg.codec .init c.log)
    (countOf .ready c.channel.sent)
  checking : ∀ e d, c.read = .eventCheck e d → 1 ≤ packetsReceived cfg.codec .event c.log
  unread : c.main.created = false ∨ c.main = .spawnRead → c.read = .absent

theorem exchange_initial (cfg : NamespaceConfig) : Exchange cfg (initial cfg) where
  calls := fun _ => trivial
  authentic := by simp [initial]
  initOnce := by simp [initial]
  initState := by simp [initial, MainPc.sendingInit]
  reading := by constructor <;> simp [initial, ReadPc.entering, ReadPc.handshaking,
    ConnectionState.past]
  checking := by simp [initial]
  unread := fun _ => rfl

theorem exchange_step {a : Action} (h : step cfg c a = some c') (hx : Exchange cfg c) :
    Exchange cfg c' := by
  have hsent := step_sent h
  obtain ⟨hcreated, hsending⟩ := step_created h
  have hcount : ∀ o, countOf o c'.channel.sent = countOf o c.channel.sent ∨
      ∃ m, Sent cfg c c' m ∧ m.origin = o ∧
        countOf o c'.channel.sent = countOf o c.channel.sent + 1 := by
    intro o
    rcases hsent with hs | ⟨m, hs, hm⟩
    · exact .inl (by rw [hs])
    · rw [hs]
      by_cases ho : m.origin = o
      · exact .inr ⟨m, hm, ho, by simp [ho]⟩
      · exact .inl (by simp [ho])
  -- an init packet is sent from the one point of the main task that sends it
  have hinit : countOf .init c'.channel.sent = countOf .init c.channel.sent ∨
      (c.main.beforeInit = true ∧ c.main.sendingInit = true ∧ c'.main = .select ∧
        countOf .init c'.channel.sent = countOf .init c.channel.sent + 1) := by
    rcases hcount .init with hc | ⟨⟨o, m⟩, hm, rfl, hc⟩
    · exact .inl hc
    · obtain ⟨d, hd, hd', -⟩ := hm
      exact .inr ⟨by rw [hd]; rfl, by rw [hd]; rfl, hd', hc⟩
  refine ⟨fun k => step_calls h hx.calls k, ?_, ?_, ?_, ?_, step_checking h hx.checking,
    step_unread h hx.unread⟩
  · rcases hsent with hs | ⟨m, hs, hm⟩
    · rw [hs]
      exact hx.authentic
    · rw [hs]
      intro m' hm'
      rcases List.mem_append.mp hm' with hm' | hm'
      · exact hx.authentic m' hm'
      · rw [List.mem_singleton] at hm'
        rw [hm']
        exact hm.authentic hx.calls
  · obtain ⟨h₁, h₂⟩ := hx.initOnce
    rcases hinit with hc | ⟨hb, -, hm, hc⟩
    · rw [hc]
      exact ⟨h₁, fun hb => h₂ (step_beforeInit h hb)⟩
    · rw [hc, h₂ hb, hm]
      exact ⟨Nat.le_refl _, by simp [MainPc.beforeInit, MainPc.beforeWrite, MainPc.created]⟩
  · intro hs hcr
    have hcr' := hcreated hcr
    refine hx.initState ?_ hcr'
    rcases hs with hs | hs
    · rcases hsending hs with hs' | hs'
      · exact .inl hs'
      · exact absurd hcr hs'
    · rcases hinit with hc | ⟨-, hm, -⟩
      · exact .inr (by omega)
      · exact .inl hm
  · by_cases ha : ∃ i, a = .read i
    · obtain ⟨i, rfl⟩ := ha
      exact readStep_reading h hx.reading
    · push Not at ha
      obtain ⟨hread, hstate⟩ := step_outside h ha
      rw [packetsReceived_outside h ha]
      have hready : countOf .ready c'.channel.sent = countOf .ready c.channel.sent := by
        rcases hcount .ready with hc | ⟨⟨o, m⟩, hm, rfl, -⟩
        · exact hc
        · obtain ⟨h₁, h₂, -⟩ := hm
          grind
      rw [hready]
      have hr : Reading c'.read c.state (packetsReceived cfg.codec .init c.log)
          (countOf .ready c.channel.sent) := by
        rcases hread with hr | ⟨hm, hr⟩
        · rw [hr]
          exact hx.reading
        · have := hx.reading
          rw [hx.unread (.inr hm)] at this
          rw [hr]
          obtain ⟨-, -, h₃, -, -, h₆, h₇⟩ := this
          exact ⟨by simp [ReadPc.entering], by simp [ReadPc.handshaking],
            by simpa [ReadPc.entering] using h₃, by simp, by simp, h₆, h₇⟩
      rcases hstate with hs | hs | ⟨d, -, -, hs, hs'⟩
      · rw [hs]
        exact hr
      · exact hr.down hs
      · rw [hs] at hr
        rw [hs']
        obtain ⟨h₁, h₂, -, h₄, h₅, h₆, h₇⟩ := hr
        exact ⟨h₁, h₂, by simp [ConnectionState.past], by simpa using h₄, by simpa using h₅,
          by simpa using h₆, h₇⟩

theorem exchange_of_reachable {guard : Connection → Action → Prop}
    (h : (system cfg).ReachableWhen guard c) : Exchange cfg c :=
  h.invariant (I := Exchange cfg) (exchange_initial cfg)
    fun _ _ _ _ _ hs hi => exchange_step hs hi

end Connection

end WsIo.Server
