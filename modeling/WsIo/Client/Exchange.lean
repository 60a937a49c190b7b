import WsIo.Client.Steps
import WsIo.Core.Wire

/-!
# What a session has sent and received

The counterpart of `Server/Exchange.lean`: the session answers at most one init packet,
its state is tied to how many init and ready packets have arrived, and it lets an event
pass only after a ready packet.
-/

namespace WsIo.Client

open Async Core

/-- The states after the session accepted an init packet. -/
def SessionState.past : SessionState → Bool
  | .initiating | .awaitingReady | .ready => true
  | _ => false

/-- The read task has an init packet that it has not accepted yet. -/
def ReadPc.entering : ReadPc → Bool
  | .initGet _ | .initTransition _ => true
  | _ => false

/-- The read task has a ready packet that it has not accepted yet. -/
def ReadPc.readying : ReadPc → Bool
  | .readyGet | .readyTransition => true
  | _ => false

/-- The read task runs `handle_init_packet` up to the transition to `AwaitingReady`. -/
def ReadPc.initiating : ReadPc → Bool
  | .abortInitTimeout _ | .initHandler _ | .awaitingInitHandler | .awaitReady _ => true
  | _ => false

/-- The read task runs the rest of `handle_init_packet`, up to the init response. -/
def ReadPc.responding : ReadPc → Bool
  | .spawnReadyTimeout _ | .storeReadyTimeout _ | .sendInit _ => true
  | _ => false

namespace Session

variable {cfg : ClientConfig} {s s' : Session}

/-! ## Received packets -/

def receivedPacket (codec : PacketCodec) (t : WsIoPacketType) : Obs → Bool
  | .received m => carries codec false t m
  | _ => false

/-- How many packets of a type have been received. -/
def packetsReceived (codec : PacketCodec) (t : WsIoPacketType) (log : List Obs) : Nat :=
  log.countP (receivedPacket codec t)

@[simp, grind =] theorem packetsReceived_nil (codec : PacketCodec) (t : WsIoPacketType) :
    packetsReceived codec t [] = 0 := rfl

@[simp, grind =] theorem packetsReceived_cons (codec : PacketCodec) (t : WsIoPacketType) (o : Obs)
    (l : List Obs) : packetsReceived codec t (o :: l) =
      packetsReceived codec t l + if receivedPacket codec t o then 1 else 0 := by
  simp [packetsReceived, List.countP_cons]

/-- Where a frame sends the read task. -/
theorem handleFrame_cases (cfg : ClientConfig) (f : Frame) :
    handleFrame cfg f = .ended ∨ handleFrame cfg f = .next ∨ handleFrame cfg f = .disconnect ∨
      (∃ e d m, handleFrame cfg f = .eventCheck e d ∧ f = some (some m) ∧
        carries cfg.codec false .event m = true) ∨
      (∃ d m, handleFrame cfg f = .initGet d ∧ f = some (some m) ∧
        carries cfg.codec false .init m = true) ∨
      (∃ m, handleFrame cfg f = .readyGet ∧ f = some (some m) ∧
        carries cfg.codec false .ready m = true) := by
  unfold handleFrame
  split
  · simp
  · simp
  · simp
  · rename_i m hm
    unfold carries
    split
    · simp
    · rename_i bytes hb
      cases hd : cfg.codec.decode bytes with
      | error e => simp
      | ok p =>
        cases ht : p.type with
        | disconnect => simp [ht]
        | ready => exact .inr (.inr (.inr (.inr (.inr ⟨m, by simp [ht], rfl, by simp [hb, hd, ht]⟩))))
        | event =>
          exact .inr (.inr (.inr (.inl ⟨p.key, p.data, m, by simp [ht], rfl, by simp [hb, hd, ht]⟩)))
        | init =>
          exact .inr (.inr (.inr (.inr (.inl ⟨p.data, m, by simp [ht], rfl, by simp [hb, hd, ht]⟩))))

/-! ## Sent messages -/

/-- Which call enqueues a message, and where that leaves its task. -/
def Sent (cfg : ClientConfig) (s s' : Session) (m : Outgoing) : Prop :=
  match m.origin with
  | .init => ∃ d, s.read = .sendInit d ∧ s'.read = .next ∧
      encodePacketToMessage cfg.codec (.newInit d) = .ok m.message
  | .event => ∃ k, s.emitters k = .send m.message
  | .ping => m.message = pingMessage
  | .close => m.message = .close
  | _ => False

theorem closeAt_sent (s : Session) (a : CloseStep) :
    (s.closeAt a).1.channel.sent = s.channel.sent ∨
      (s.closeAt a).1.channel.sent = s.channel.sent ++ [Endpoint.closeMessage] :=
  Endpoint.close_sent s.toEndpoint a

/-- A step enqueues at most one message; an event message is one of an emitter. -/
theorem step_sent {a : Action} (h : step cfg s a = some s') :
    s'.channel.sent = s.channel.sent ∨
      ∃ m, s'.channel.sent = s.channel.sent ++ [m] ∧ (m.origin = .event → ∃ k, a = .emitter k) ∧
        Sent cfg s s' m := by
  cases a with
  | owner i =>
    simp only [step] at h
    cases i with
    | go =>
      simp only [ownerStep] at h
      unfold ownerGo at h
      obtain ⟨w₁, t₁, h₁⟩ := abortInitTimeout_eq s
      obtain ⟨w₂, t₂, h₂⟩ := abortReadyTimeout_eq s
      obtain ⟨w₃, t₃, h₃⟩ := abortPing_eq s
      split at h
      all_goals grind [closeAt_sent, → awaitTask_cases, Sent, Endpoint.closeMessage]
    | _ => grind [ownerStep]
  | read i =>
    rcases readStep_channel h with hc | ⟨d, m, hr, hr', -, hm, hc⟩
    · exact .inl (by rw [hc])
    · exact .inr ⟨_, Channel.sent_trySend hc, by simp, d, hr, hr', hm⟩
  | write i =>
    obtain ⟨e, pc, he, rfl, -⟩ := writeStep_some h
    exact .inl (Endpoint.writeStep_state he).2.1
  | initWatch i =>
    obtain ⟨e, pc, he, rfl, -⟩ := initWatchStep_some h
    rcases Endpoint.watchStep_cases he with ⟨rfl, -⟩ | ⟨a, -, -, rfl, -⟩
    · exact .inl rfl
    · rcases Endpoint.close_sent s.toEndpoint a with hs | hs
      · exact .inl hs
      · exact .inr ⟨_, hs, by simp [Endpoint.closeMessage], rfl⟩
  | readyWatch i =>
    obtain ⟨e, pc, he, rfl, -⟩ := readyWatchStep_some h
    rcases Endpoint.watchStep_cases he with ⟨rfl, -⟩ | ⟨a, -, -, rfl, -⟩
    · exact .inl rfl
    · rcases Endpoint.close_sent s.toEndpoint a with hs | hs
      · exact .inl hs
      · exact .inr ⟨_, hs, by simp [Endpoint.closeMessage], rfl⟩
  | ping i =>
    cases i <;> grind [step, pingStep, enqueue_ok, closeAt_sent, Sent, Endpoint.closeMessage]
  | emit k m => grind [step, emitStart, setEmitter]
  | emitter k =>
    rcases emitterStep_cases h with ⟨m, -, -, rfl⟩ | ⟨m, e, -, -, rfl⟩ | ⟨m, ch, hk, hs, rfl⟩ |
      ⟨m, e, -, -, rfl⟩
    · exact .inl rfl
    · exact .inl rfl
    · exact .inr ⟨_, Channel.sent_trySend hs, fun _ => ⟨k, rfl⟩, k, hk⟩
    · exact .inl rfl
  | drop k => grind [step, emitDrop, setEmitter]

/-! ## The read task -/

/-- How the read task and the state depend on the numbers `n` and `r` of init and ready
packets received and the number `i` of init packets sent. -/
structure Reading (pc : ReadPc) (s : SessionState) (n r i : Nat) : Prop where
  absent : pc = .absent → n = 0 ∧ r = 0 ∧ i = 0
  created : s = .created → pc = .absent
  valid : s ≠ .readying
  entering : pc.entering = true → 1 ≤ n
  initiating : pc.initiating = true → 1 ≤ n ∧ i = 0 ∧ (s = .initiating ∨ isDown s = true)
  responding : pc.responding = true → 1 ≤ n ∧ i = 0 ∧ (s = .awaitingReady ∨ isDown s = true)
  past : s.past = true → 1 ≤ n ∧ (pc.entering = true → 2 ≤ n)
  sent : 1 ≤ i → 1 ≤ n ∧ (s = .awaitingReady ∨ s = .ready ∨ isDown s = true)
  once : i ≤ 1
  readying : pc.readying = true → 1 ≤ r
  ready : s = .ready → 1 ≤ r ∧ (pc.readying = true → 2 ≤ r)
  settled : 1 ≤ r → pc.readying = false → pc ≠ .ended → s = .ready ∨ isDown s = true

theorem Reading.down {pc : ReadPc} {s s' : SessionState} {n r i : Nat} (h : Reading pc s n r i)
    (hs : isDown s' = true) : Reading pc s' n r i := by
  obtain ⟨h₁, -, -, h₄, h₅, h₆, -, h₈, h₉, h₁₀, -, -⟩ := h
  constructor
  all_goals grind [isDown_iff, SessionState.past]

theorem Reading.spawn {s : SessionState} {n r i : Nat} (h : Reading .absent s n r i)
    (hs : s ≠ .created) : Reading .next s n r i := by
  obtain ⟨h₁, -, h₃, -, -, -, h₇, -, -, -, h₁₁, -⟩ := h
  obtain ⟨rfl, rfl, rfl⟩ := h₁ rfl
  constructor
  all_goals grind [ReadPc.entering, ReadPc.initiating, ReadPc.responding, ReadPc.readying]

theorem Reading.begin {s : SessionState} {n r i : Nat} (h : Reading .absent s n r i) :
    Reading .absent .awaitingInit n r i := by
  obtain ⟨rfl, rfl, rfl⟩ := h.absent rfl
  constructor
  all_goals simp [ReadPc.entering, ReadPc.initiating, ReadPc.responding, ReadPc.readying,
    SessionState.past]

/-- How the read task moves between two frames. -/
theorem readGo_moves (h : readGo cfg s = some s') :
    (∀ t, packetsReceived cfg.codec t s'.log = packetsReceived cfg.codec t s.log) ∧
      (s.read ≠ .absent ∧ s.read ≠ .ended ∧ s'.read ≠ .absent) ∧
      (s'.read.entering = true → s.read.entering = true ∧ s'.state = s.state) ∧
      (s'.read.initiating = true → s.read.initiating = true ∧ s'.state = s.state ∨
        s.read.entering = true ∧ s.state = .awaitingInit ∧ s'.state = .initiating) ∧
      (s'.read.responding = true → s.read.responding = true ∧ s'.state = s.state ∨
        s.read.initiating = true ∧ s'.state = .awaitingReady) ∧
      (s'.read.readying = true → s.read.readying = true ∧ s'.state = s.state) ∧
      (s.read.readying = true → s'.read.readying = true ∨ s'.read = .ended ∨ s'.state = .ready) := by
  unfold readGo at h
  obtain ⟨w, t, hw⟩ := abortInitTimeout_eq s
  obtain ⟨w', t', hw'⟩ := abortReadyTimeout_eq s
  split at h
  all_goals grind [transition_cases, sendPacket_ok, receivedPacket, ReadPc.entering,
    ReadPc.initiating, ReadPc.responding, ReadPc.readying]

theorem readGo_reading (h : readGo cfg s = some s')
    (hr : Reading s.read s.state (packetsReceived cfg.codec .init s.log)
      (packetsReceived cfg.codec .ready s.log) (countOf .init s.channel.sent)) :
    Reading s'.read s'.state (packetsReceived cfg.codec .init s'.log)
      (packetsReceived cfg.codec .ready s'.log) (countOf .init s'.channel.sent) := by
  obtain ⟨hn, ⟨ha, he, ha'⟩, hent, hini, hres, hrdy, hset⟩ := readGo_moves h
  have hstate := readStep_state (i := .go) h
  have hch : countOf .init s'.channel.sent = countOf .init s.channel.sent ∨
      (∃ d, s.read = .sendInit d) ∧ s'.read = .next ∧ s'.state = s.state ∧
        countOf .init s'.channel.sent = countOf .init s.channel.sent + 1 := by
    rcases readStep_channel (i := .go) h with hc | ⟨d, m, hr, hr', -, -, hc⟩
    · exact .inl (by rw [hc])
    · refine .inr ⟨⟨d, hr⟩, hr', ?_, by rw [Channel.sent_trySend hc]; simp⟩
      rcases hstate with hs | ⟨d, hs, -⟩ | ⟨d, hs, -⟩ | ⟨hs, -⟩
      · exact hs
      all_goals rw [hr] at hs; cases hs
  rw [hn, hn]
  obtain ⟨h₁, h₂, h₃, h₄, h₅, h₆, h₇, h₈, h₉, h₁₀, h₁₁, h₁₂⟩ := hr
  constructor
  all_goals grind [ReadPc.entering, ReadPc.initiating, ReadPc.responding, ReadPc.readying,
    SessionState.past, isDown_iff]

/-- A ready packet is handed to `handle_ready_packet`. -/
theorem handleFrame_ready {m : Message} (h : carries cfg.codec false .ready m = true) :
    handleFrame cfg (some (some m)) = .readyGet := by
  unfold carries at h
  split at h
  · cases h
  · rename_i bytes hb
    split at h
    · cases h
    · rename_i p hd
      have ht : p.type = .ready := by simpa using h
      cases m with
      | close => cases hb
      | _ => simp [handleFrame, hb, hd, ht]

theorem frame_reading {f : Frame} (hn : s.read = .next)
    (hr : Reading s.read s.state (packetsReceived cfg.codec .init s.log)
      (packetsReceived cfg.codec .ready s.log) (countOf .init s.channel.sent)) :
    Reading (handleFrame cfg f) s.state (packetsReceived cfg.codec .init (received f ++ s.log))
      (packetsReceived cfg.codec .ready (received f ++ s.log)) (countOf .init s.channel.sent) := by
  obtain ⟨h₁, h₂, h₃, h₄, h₅, h₆, h₇, h₈, h₉, h₁₀, h₁₁, h₁₂⟩ := hr
  have hf := handleFrame_cases cfg f
  have hmono : ∀ t, packetsReceived cfg.codec t s.log ≤
      packetsReceived cfg.codec t (received f ++ s.log) := by
    intro t
    rcases received_cases f with hf | ⟨m, hf⟩ <;> rw [hf] <;> simp
  have hgrow : ∀ t m, f = some (some m) → carries cfg.codec false t m = true →
      packetsReceived cfg.codec t (received f ++ s.log) =
        packetsReceived cfg.codec t s.log + 1 := by
    rintro t m rfl hc
    simp [received, receivedPacket, hc]
  -- only a ready packet adds to the ready packets
  have hsame : handleFrame cfg f ≠ .readyGet →
      packetsReceived cfg.codec .ready (received f ++ s.log) =
        packetsReceived cfg.codec .ready s.log := by
    intro hne
    unfold received
    split
    · rename_i m
      by_cases hc : carries cfg.codec false .ready m = true
      · exact absurd (handleFrame_ready hc) hne
      · simp [receivedPacket, hc]
    · rfl
  have hmi := hmono .init
  have hmr := hmono .ready
  constructor
  all_goals grind [ReadPc.entering, ReadPc.initiating, ReadPc.responding, ReadPc.readying]

theorem readStep_reading {i : ReadInput} (h : readStep cfg s i = some s')
    (hr : Reading s.read s.state (packetsReceived cfg.codec .init s.log)
      (packetsReceived cfg.codec .ready s.log) (countOf .init s.channel.sent)) :
    Reading s'.read s'.state (packetsReceived cfg.codec .init s'.log)
      (packetsReceived cfg.codec .ready s'.log) (countOf .init s'.channel.sent) := by
  cases i with
  | go => exact readGo_reading h hr
  | frame f =>
    simp only [readStep] at h
    split at h
    · rename_i hn
      cases h
      exact frame_reading hn hr
    · cases h
  | outcome o response =>
    obtain ⟨h₁, h₂, h₃, h₄, h₅, h₆, h₇, h₈, h₉, h₁₀, h₁₁, h₁₂⟩ := hr
    simp only [readStep] at h
    split at h
    · rename_i hn
      cases h
      have hpc : (if o = .ok then ReadPc.awaitReady response else .ended) = .awaitReady response ∨
          (if o = .ok then ReadPc.awaitReady response else .ended) = .ended := by
        split <;> simp
      generalize (if o = .ok then ReadPc.awaitReady response else .ended) = pc at hpc
      constructor
      all_goals grind [receivedPacket, ReadPc.entering, ReadPc.initiating, ReadPc.responding,
        ReadPc.readying]
    · cases h
  | stop =>
    obtain ⟨h₁, h₂, h₃, h₄, h₅, h₆, h₇, h₈, h₉, h₁₀, h₁₁, h₁₂⟩ := hr
    simp only [readStep] at h
    split at h
    · rename_i ha
      cases h
      constructor
      all_goals grind [ReadPc.entering, ReadPc.initiating, ReadPc.responding, ReadPc.readying,
        ReadPc.awaits]
    · cases h

/-! ## The invariant -/

/-- The read task does nothing before it is spawned. -/
theorem step_unread {a : Action} (h : step cfg s a = some s')
    (hu : s.owner.beforeRead = true → s.read = .absent) :
    s'.owner.beforeRead = true → s'.read = .absent := by
  cases a with
  | owner i =>
    simp only [step] at h
    cases i with
    | go =>
      simp only [ownerStep] at h
      unfold ownerGo at h
      obtain ⟨w₁, t₁, h₁⟩ := abortInitTimeout_eq s
      obtain ⟨w₂, t₂, h₂⟩ := abortReadyTimeout_eq s
      obtain ⟨w₃, t₃, h₃⟩ := abortPing_eq s
      split at h
      all_goals grind [→ awaitTask_cases, OwnerPc.beforeRead]
    | _ => grind [ownerStep, OwnerPc.beforeRead]
  | read i =>
    obtain ⟨hm, -⟩ := readStep_frame h
    rw [hm]
    intro hb
    have hr := hu hb
    cases i with
    | go => simp [step, readStep, readGo, hr] at h
    | _ => grind [step, readStep, ReadPc.awaits]
  | write i => grind [step, writeStep_some]
  | initWatch i => grind [step, initWatchStep_some]
  | readyWatch i => grind [step, readyWatchStep_some]
  | ping i => cases i <;> grind [step, pingStep, enqueue_ok]
  | emit k m => grind [step, emitStart, setEmitter]
  | emitter k => grind [step, emitterStep, setEmitter, ensure, enqueue_ok]
  | drop k => grind [step, emitDrop, setEmitter]

/-- Nothing but the owner's first store happens to a session in `Created`. -/
theorem step_begun {a : Action} (h : step cfg s a = some s')
    (hb : s.owner ≠ .absent → s.owner ≠ .initStore → s.state ≠ .created) :
    s'.owner ≠ .absent → s'.owner ≠ .initStore → s'.state ≠ .created := by
  cases a with
  | owner i =>
    simp only [step] at h
    cases i with
    | go =>
      simp only [ownerStep] at h
      unfold ownerGo at h
      obtain ⟨w₁, t₁, h₁⟩ := abortInitTimeout_eq s
      obtain ⟨w₂, t₂, h₂⟩ := abortReadyTimeout_eq s
      obtain ⟨w₃, t₃, h₃⟩ := abortPing_eq s
      split at h
      all_goals grind [closeAt_state, → awaitTask_cases]
    | _ => grind [ownerStep]
  | read i =>
    obtain ⟨hm, -⟩ := readStep_frame h
    rw [hm]
    grind [readStep_state h]
  | write i => grind [step, writeStep_some]
  | initWatch i => grind [step, initWatchStep_some]
  | readyWatch i => grind [step, readyWatchStep_some]
  | ping i => cases i <;> grind [step, pingStep, enqueue_ok, closeAt_state]
  | emit k m => grind [step, emitStart, setEmitter]
  | emitter k => grind [step, emitterStep, setEmitter, ensure, enqueue_ok]
  | drop k => grind [step, emitDrop, setEmitter]

/-- Only the read task receives packets. -/
theorem packetsReceived_outside {a : Action} (h : step cfg s a = some s') (ha : ∀ i, a ≠ .read i)
    (t : WsIoPacketType) :
    packetsReceived cfg.codec t s'.log = packetsReceived cfg.codec t s.log := by
  rcases step_outside_log h ha with hl | ⟨o, hl, ho⟩
  · rw [hl]
  · rw [hl, packetsReceived_cons]
    cases o <;> simp [receivedPacket, Obs.byReadTask] at ho ⊢

/-- Packets are received in frames only. -/
theorem packetsReceived_quiet {a : Action} (h : step cfg s a = some s')
    (ha : ∀ f, a ≠ .read (.frame f)) (t : WsIoPacketType) :
    packetsReceived cfg.codec t s'.log = packetsReceived cfg.codec t s.log := by
  by_cases hr : ∃ i, a = .read i
  · obtain ⟨i, rfl⟩ := hr
    cases i with
    | go => exact (readGo_moves h).1 t
    | frame f => exact absurd rfl (ha f)
    | outcome o d => grind [step, readStep, receivedPacket]
    | stop => grind [step, readStep]
  · push Not at hr
    exact packetsReceived_outside h hr t

theorem log_frame {f : Frame} (h : step cfg s (.read (.frame f)) = some s') :
    s'.log = received f ++ s.log := by
  grind [step, readStep]

/-- No step forgets a received packet. -/
theorem packetsReceived_mono {a : Action} (h : step cfg s a = some s') (t : WsIoPacketType) :
    packetsReceived cfg.codec t s.log ≤ packetsReceived cfg.codec t s'.log := by
  by_cases ha : ∃ f, a = .read (.frame f)
  · obtain ⟨f, rfl⟩ := ha
    rw [log_frame h]
    rcases received_cases f with hf | ⟨m, hf⟩ <;> simp [hf]
  · push Not at ha
    exact Nat.le_of_eq (packetsReceived_quiet h ha t).symm

/-- A bail is logged where the handler of the packet reads the state. -/
theorem step_bailed {a : Action} {t : WsIoPacketType} {e : Error} {st : SessionState}
    (h : step cfg s a = some s') (ht : t = .init ∨ t = .ready) (hb : .bailed t e st ∈ s'.log) :
    .bailed t e st ∈ s.log ∨
      (t = .init ∧ s.read.entering = true ∧ st = s.state ∧ st ≠ .awaitingInit) ∨
      (t = .ready ∧ s.read.readying = true ∧ st = s.state ∧ st ≠ .awaitingReady) := by
  by_cases ha : ∃ i, a = .read i
  · obtain ⟨i, rfl⟩ := ha
    cases i with
    | go =>
      simp only [step, readStep] at h
      unfold readGo at h
      obtain ⟨w, t, hw⟩ := abortInitTimeout_eq s
      obtain ⟨w', t', hw'⟩ := abortReadyTimeout_eq s
      split at h
      all_goals grind [transition_cases, sendPacket_ok, ReadPc.entering, ReadPc.readying]
    | frame f => grind [step, readStep, received_cases]
    | outcome o d => grind [step, readStep]
    | stop => grind [step, readStep]
  · push Not at ha
    rcases step_outside_log h ha with hl | ⟨o, hl, ho⟩
    · rw [hl] at hb
      exact .inl hb
    · rw [hl, List.mem_cons] at hb
      rcases hb with rfl | hb
      · cases ho
      · exact .inl hb

/-- The message of an event packet. -/
def IsEvent (codec : PacketCodec) (m : Message) : Prop :=
  ∃ e d, encodePacketToMessage codec (.newEvent e d) = .ok m

/-- An emitting call holds the encoding of an event, and is past its check of the state
only after a ready packet. -/
structure EmitterOk (codec : PacketCodec) (log : List Obs) (x : Emitter) : Prop where
  check : ∀ m, x = .check m → IsEvent codec m
  send : ∀ m, x = .send m → IsEvent codec m ∧ 1 ≤ packetsReceived codec .ready log

/-- The emits of a step are emits of event packets. -/
def EmitsEvents (codec : PacketCodec) (a : Action) : Prop :=
  ∀ k m, a = .emit k m → IsEvent codec m

/-- What one session keeps of its handshake, whatever its server sends. -/
structure Reads (cfg : ClientConfig) (s : Session) : Prop where
  reading : Reading s.read s.state (packetsReceived cfg.codec .init s.log)
    (packetsReceived cfg.codec .ready s.log) (countOf .init s.channel.sent)
  unread : s.owner.beforeRead = true → s.read = .absent
  begun : s.owner ≠ .absent → s.owner ≠ .initStore → s.state ≠ .created

theorem reads_initial (cfg : ClientConfig) : Reads cfg (initial cfg) where
  reading := by constructor <;> simp [initial, ReadPc.entering, ReadPc.initiating,
    ReadPc.responding, ReadPc.readying, SessionState.past]
  unread := fun _ => rfl
  begun := fun h => absurd rfl h

theorem reads_step {a : Action} (h : step cfg s a = some s') (hx : Reads cfg s) :
    Reads cfg s' := by
  have hsent := step_sent h
  refine ⟨?_, step_unread h hx.unread, step_begun h hx.begun⟩
  by_cases ha : ∃ i, a = .read i
  · obtain ⟨i, rfl⟩ := ha
    exact readStep_reading h hx.reading
  · push Not at ha
    obtain ⟨hread, hstate⟩ := step_outside h ha
    rw [packetsReceived_outside h ha, packetsReceived_outside h ha]
    have hinit : countOf .init s'.channel.sent = countOf .init s.channel.sent := by
      rcases hsent with hs | ⟨⟨o, m⟩, hs, -, hm⟩
      · rw [hs]
      · by_cases ho : o = .init
        · subst ho
          obtain ⟨d, h₁, h₂, -⟩ := hm
          grind [OwnerPc.beforeRead, hx.unread]
        · rw [hs]
          simp [ho]
    rw [hinit]
    have hr : Reading s'.read s.state (packetsReceived cfg.codec .init s.log)
        (packetsReceived cfg.codec .ready s.log) (countOf .init s.channel.sent) := by
      rcases hread with hr | ⟨ho, -, hr⟩
      · rw [hr]
        exact hx.reading
      · -- the spawn of the read task: nothing has been received, the session has begun
        have hread := hx.unread (by rw [ho]; rfl)
        have hbegun := hx.begun (by rw [ho]; simp) (by rw [ho]; simp)
        have hx' := hx.reading
        rw [hread] at hx'
        rw [hr]
        exact hx'.spawn hbegun
    rcases hstate with hs | hs | ⟨-, ho', hs⟩
    · rw [hs]
      exact hr
    · exact hr.down hs
    · have hread' := step_unread h hx.unread (by rw [ho']; rfl)
      rw [hread'] at hr
      rw [hs, hread']
      exact hr.begin

theorem reads_of_reachable {guard : Session → Action → Prop}
    (h : (system cfg).ReachableWhen guard s) : Reads cfg s :=
  h.invariant (I := Reads cfg) (reads_initial cfg) fun _ _ _ _ _ hs hi => reads_step hs hi

/-- What one session keeps when it emits events only. -/
structure Exchange (cfg : ClientConfig) (s : Session) : Prop extends Reads cfg s where
  emitters : ∀ k, EmitterOk cfg.codec s.log (s.emitters k)
  authentic : ∀ m ∈ s.channel.sent, Authentic cfg.codec m ∧ m.origin ≠ .ready ∧
    m.origin ≠ .disconnect
  events : 1 ≤ countOf .event s.channel.sent → 1 ≤ packetsReceived cfg.codec .ready s.log

theorem exchange_initial (cfg : ClientConfig) : Exchange cfg (initial cfg) where
  toReads := reads_initial cfg
  emitters := fun _ => ⟨by simp [initial], by simp [initial]⟩
  authentic := by simp [initial]
  events := by simp [initial]

theorem step_emitters {a : Action} (h : step cfg s a = some s') (he : EmitsEvents cfg.codec a)
    (hx : Exchange cfg s) (k : Nat) : EmitterOk cfg.codec s'.log (s'.emitters k) := by
  have hmono := packetsReceived_mono h .ready
  have hlift : ∀ x, EmitterOk cfg.codec s.log x → EmitterOk cfg.codec s'.log x := fun x hx =>
    ⟨hx.check, fun m hm => ⟨(hx.send m hm).1, Nat.le_trans (hx.send m hm).2 hmono⟩⟩
  have hk := hlift _ (hx.emitters k)
  cases a with
  | owner i =>
    have : s'.emitters = s.emitters := by
      simp only [step] at h
      cases i with
      | go =>
        simp only [ownerStep] at h
        unfold ownerGo at h
        obtain ⟨w₁, t₁, h₁⟩ := abortInitTimeout_eq s
        obtain ⟨w₂, t₂, h₂⟩ := abortReadyTimeout_eq s
        obtain ⟨w₃, t₃, h₃⟩ := abortPing_eq s
        split at h
        all_goals grind [→ awaitTask_cases]
      | _ => grind [ownerStep]
    rw [this]
    exact hk
  | read i =>
    obtain ⟨-, -, hem, -⟩ := readStep_frame h
    rw [hem]
    exact hk
  | write i =>
    obtain ⟨e, pc, -, rfl, -⟩ := writeStep_some h
    exact hk
  | initWatch i =>
    obtain ⟨e, pc, -, rfl, -⟩ := initWatchStep_some h
    exact hk
  | readyWatch i =>
    obtain ⟨e, pc, -, rfl, -⟩ := readyWatchStep_some h
    exact hk
  | ping i =>
    have : s'.emitters = s.emitters := by
      cases i <;> grind [step, pingStep, enqueue_ok]
    rw [this]
    exact hk
  | emit j m =>
    have hm := he j m rfl
    have : s' = s.setEmitter j (.check m) := by grind [step, emitStart]
    rw [this, emitters_setEmitter]
    split
    · exact ⟨by rintro _ ⟨⟩; exact hm, by rintro _ ⟨⟩⟩
    · exact hx.emitters k
  | emitter j =>
    rcases emitterStep_cases h with ⟨m, hj, hs, rfl⟩ | ⟨m, e, hj, -, rfl⟩ | ⟨m, ch, hj, -, rfl⟩ |
      ⟨m, e, hj, -, rfl⟩
    · rw [emitters_setEmitter]
      split
      · refine ⟨by rintro _ ⟨⟩, ?_⟩
        rintro _ ⟨⟩
        exact ⟨(hx.emitters j).check m hj, (hx.reading.ready hs).1⟩
      · exact hk
    all_goals
      rw [emitters_setEmitter]
      split
      · exact ⟨by rintro _ ⟨⟩, by rintro _ ⟨⟩⟩
      · exact hk
  | drop j =>
    have : s' = s.setEmitter j .idle := by grind [step, emitDrop]
    rw [this, emitters_setEmitter]
    split
    · exact ⟨by rintro _ ⟨⟩, by rintro _ ⟨⟩⟩
    · exact hx.emitters k

theorem Sent.authentic {m : Outgoing} (h : Sent cfg s s' m) (hx : Exchange cfg s) :
    Authentic cfg.codec m ∧ m.origin ≠ .ready ∧ m.origin ≠ .disconnect := by
  obtain ⟨origin, message⟩ := m
  cases origin with
  | init =>
    obtain ⟨d, -, -, he⟩ := h
    exact ⟨⟨_, rfl, he⟩, by simp, by simp⟩
  | event =>
    obtain ⟨k, hk⟩ := h
    obtain ⟨⟨e, d, he⟩, -⟩ := (hx.emitters k).send message hk
    exact ⟨⟨_, rfl, he⟩, by simp, by simp⟩
  | ready => exact absurd h id
  | disconnect => exact absurd h id
  | ping => exact ⟨h, by simp, by simp⟩
  | close => exact ⟨h, by simp, by simp⟩

theorem exchange_step {a : Action} (h : step cfg s a = some s') (he : EmitsEvents cfg.codec a)
    (hx : Exchange cfg s) : Exchange cfg s' := by
  have hsent := step_sent h
  have hmono := packetsReceived_mono h .ready
  refine ⟨reads_step h hx.toReads, fun k => step_emitters h he hx k, ?_, ?_⟩
  · rcases hsent with hs | ⟨m, hs, -, hm⟩
    · rw [hs]
      exact hx.authentic
    · rw [hs]
      intro m' hm'
      rcases List.mem_append.mp hm' with hm' | hm'
      · exact hx.authentic m' hm'
      · rw [List.mem_singleton] at hm'
        rw [hm']
        exact hm.authentic hx
  · intro hc
    refine Nat.le_trans ?_ hmono
    rcases hsent with hs | ⟨⟨o, m⟩, hs, -, hm⟩
    · rw [hs] at hc
      exact hx.events hc
    · by_cases ho : o = .event
      · subst ho
        obtain ⟨k, hk⟩ := hm
        exact ((hx.emitters k).send m hk).2
      · rw [hs] at hc
        exact hx.events (by simpa [ho] using hc)

theorem exchange_of_reachable {guard : Session → Action → Prop}
    (hg : ∀ s a, guard s a → EmitsEvents cfg.codec a)
    (h : (system cfg).ReachableWhen guard s) : Exchange cfg s :=
  h.invariant (I := Exchange cfg) (exchange_initial cfg)
    fun _ _ _ _ ha hs hi => exchange_step hs (hg _ _ ha) hi

end Session

end WsIo.Client
