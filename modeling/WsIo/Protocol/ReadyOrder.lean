import WsIo.Client.Exchange
import WsIo.Server.Exchange
import WsIo.Server.RuntimeSteps

/-!
# Events and the ready packet

`handle_init_packet` moves the state to `Ready`, registers the connection and then sends
the ready packet, three steps of one task. `emit_event_message` asks only for the state,
so an emit or a broadcast that looks at it before the packet is in the channel puts an
event in front of it (`event_before_ready`), and the client, still in `AwaitingReady`,
discards the event. Apart from that window no event overtakes the ready packet
(`event_after_ready`).
-/

namespace WsIo

open Async Core

namespace Core

/-! ## Order in the channel -/

/-- Every event message has the ready packet before it. -/
def ReadyFirst (l : List Outgoing) : Prop :=
  ∀ earlier m later, l = earlier ++ m :: later → m.origin = .event →
    ∃ r ∈ earlier, r.origin = .ready

theorem ReadyFirst.nil : ReadyFirst [] := by
  intro earlier m later h
  cases earlier <;> cases h

theorem ReadyFirst.concat {l : List Outgoing} {m : Outgoing} (h : ReadyFirst l)
    (hm : m.origin = .event → ∃ r ∈ l, r.origin = .ready) : ReadyFirst (l ++ [m]) := by
  intro earlier m' later he ho
  rcases List.eq_nil_or_concat later with rfl | ⟨later, x, rfl⟩
  · obtain ⟨hl, hx⟩ := List.append_inj' he rfl
    cases hx
    rw [← hl]
    exact hm ho
  · rw [List.concat_eq_append, ← List.cons_append, ← List.append_assoc] at he
    obtain ⟨hl, -⟩ := List.append_inj' he rfl
    exact h earlier m' later hl ho

/-- The message is a data frame, text or binary. -/
def Message.isData : Message → Bool
  | .text _ | .binary _ => true
  | _ => false

theorem isData_of_carries {codec : PacketCodec} {heartbeats : Bool} {t : WsIoPacketType}
    {m : Message} (h : carries codec heartbeats t m = true) : m.isData = true := by
  cases m with
  | text bytes => rfl
  | binary bytes => rfl
  | _ => cases h

/-- However far the data frames of such a list were delivered in order, an event among
them comes with the ready packet. -/
theorem ReadyFirst.delivered {codec : PacketCodec} {l : List Outgoing} (h : ReadyFirst l)
    (ha : ∀ m ∈ l, Authentic codec m ∧ m.origin ≠ .ping) {delivered : List Message}
    (hd : delivered <+: (l.map (·.message)).filter Message.isData)
    (he : ∃ m ∈ delivered, carries codec false .event m = true) :
    ∃ m ∈ delivered, carries codec false .ready m = true := by
  have hcarries : ∀ m ∈ l, ∀ t, carries codec false t m.message = decide (m.origin.type = some t) :=
    fun m hm => (ha m hm).1.carries_eq false fun _ => (ha m hm).2
  rw [List.filter_map, List.prefix_map_iff] at hd
  obtain ⟨l₁, hl₁, rfl⟩ := hd
  obtain ⟨l₂, hl₂, rfl⟩ := List.prefix_filter_iff.mp hl₁
  obtain ⟨m, hm, hme⟩ := he
  obtain ⟨x, hx, rfl⟩ := List.mem_map.mp hm
  obtain ⟨hx, -⟩ := List.mem_filter.mp hx
  -- the event stands in the prefix of the channel that was delivered
  obtain ⟨earlier, later, rfl⟩ := List.append_of_mem hx
  obtain ⟨rest, rfl⟩ := hl₂
  have hxe : x.origin = .event := by
    rw [hcarries x (by simp)] at hme
    have ht : x.origin.type = some .event := by simpa using hme
    cases ho : x.origin <;> rw [ho] at ht <;> first | rfl | cases ht
  obtain ⟨r, hr, hro⟩ := h earlier x (later ++ rest) (by simp) hxe
  have hrc : carries codec false .ready r.message = true := by
    rw [hcarries r (by simp [hr]), hro]
    rfl
  refine ⟨r.message, List.mem_map.mpr ⟨r, List.mem_filter.mpr ⟨by simp [hr], ?_⟩, rfl⟩, hrc⟩
  exact isData_of_carries hrc

end Core

/-! ## The server -/

namespace Server.Connection

variable {cfg : NamespaceConfig} {c c' : Connection}

/-- The state check of `emit_event_message` does not run while the state is `Ready` and
the ready packet is not in the channel yet. -/
def emitWaits (c : Connection) : Action → Bool
  | .caller k =>
    match c.callers k with
    | .emitCheck _ => c.state ≠ .ready || 0 < countOf .ready c.channel.sent
    | _ => true
  | _ => true

/-- A call is past the check of `emit_event_message` only by that check. -/
theorem step_emitSend {a : Action} (h : step cfg c a = some c') {k : Nat} {m : Message}
    (hk : c'.callers k = .emitSend m) :
    c.callers k = .emitSend m ∨
      a = .caller k ∧ c.callers k = .emitCheck m ∧ c.state = .ready := by
  cases a with
  | main i =>
    rw [mainStep_callers h] at hk
    exact .inl hk
  | read i =>
    obtain ⟨-, -, -, hcallers, -⟩ := readStep_frame h
    rw [hcallers] at hk
    exact .inl hk
  | write i =>
    obtain ⟨e, pc, -, rfl, -⟩ := writeStep_some h
    exact .inl hk
  | watch i =>
    obtain ⟨e, pc, -, rfl, -⟩ := watchStep_some h
    exact .inl hk
  | start j job => cases job <;> grind [step, entry]
  | caller j =>
    simp only [step] at h
    unfold callerStep at h
    split at h
    all_goals grind [ensure, callers_sendPacket, callers_enqueue]
  | drop j => grind [step]

/-- The order of the channel, and what a call past its check knows. -/
structure Ordered (c : Connection) : Prop where
  passed : ∀ k m, c.callers k = .emitSend m → 0 < countOf .ready c.channel.sent
  ordered : ReadyFirst c.channel.sent

theorem ordered_step {a : Action} (h : step cfg c a = some c') (ha : emitWaits c a = true)
    (hc : Ordered c) : Ordered c' := by
  have hgrows : 0 < countOf .ready c.channel.sent → 0 < countOf .ready c'.channel.sent := by
    intro hr
    obtain ⟨m, hm, ho⟩ := countOf_pos.mp hr
    exact countOf_pos.mpr ⟨m, (step_extends h).sent.subset hm, ho⟩
  refine ⟨fun k m hk => ?_, ?_⟩
  · rcases step_emitSend h hk with hk | ⟨rfl, hk, hs⟩
    · exact hgrows (hc.passed k m hk)
    · refine hgrows ?_
      simpa [emitWaits, hk, hs] using ha
  · rcases step_sent h with hs | ⟨⟨o, m⟩, hs, hm⟩
    · rw [hs]
      exact hc.ordered
    · rw [hs]
      refine hc.ordered.concat ?_
      rintro ⟨⟩
      obtain ⟨k, hk⟩ := hm
      exact countOf_pos.mp (hc.passed k m hk)

theorem ordered_of_reachable
    (h : (system cfg).ReachableWhen (fun c a => emitWaits c a = true) c) : Ordered c := by
  refine h.invariant (I := Ordered) ?_ fun _ _ _ _ ha hs hi => ordered_step hs ha hi
  refine ⟨fun k m hk => ?_, ReadyFirst.nil⟩
  cases hk

end Server.Connection

/-! ## The client -/

namespace Client.Session

variable {cfg : ClientConfig} {s s' : Session}

def receivedMessage : Obs → Option Message
  | .received m => some m
  | _ => none

/-- The data frames received, oldest first. -/
def dataReceived (log : List Obs) : List Message :=
  (log.reverse.filterMap receivedMessage).filter Message.isData

theorem mem_dataReceived {codec : PacketCodec} {t : WsIoPacketType} {log : List Obs} :
    (∃ m ∈ dataReceived log, carries codec false t m = true) ↔ 1 ≤ packetsReceived codec t log := by
  have hpos : 1 ≤ packetsReceived codec t log ↔ ∃ o ∈ log, receivedPacket codec t o = true := by
    exact List.countP_pos_iff
  rw [hpos]
  constructor
  · rintro ⟨m, hm, hc⟩
    obtain ⟨o, ho, hom⟩ := List.mem_filterMap.mp (List.mem_filter.mp hm).1
    refine ⟨o, List.mem_reverse.mp ho, ?_⟩
    cases o with
    | received m' =>
      cases hom
      exact hc
    | _ => cases hom
  · rintro ⟨o, ho, hc⟩
    cases o with
    | received m =>
      refine ⟨m, List.mem_filter.mpr ⟨List.mem_filterMap.mpr ⟨_, List.mem_reverse.mpr ho, rfl⟩, ?_⟩, hc⟩
      exact isData_of_carries hc
    | _ => cases hc

theorem step_log {a : Action} (h : step cfg s a = some s') : s.log <:+ s'.log := by
  by_cases ha : ∃ i, a = .read i
  · obtain ⟨i, rfl⟩ := ha
    cases i with
    | go =>
      simp only [step, readStep] at h
      unfold readGo at h
      obtain ⟨w, t, hw⟩ := abortInitTimeout_eq s
      obtain ⟨w', t', hw'⟩ := abortReadyTimeout_eq s
      split at h
      all_goals grind [transition_cases, sendPacket_ok, List.suffix_cons]
    | frame f =>
      rw [log_frame h]
      exact List.suffix_append _ _
    | outcome o d => grind [step, readStep, List.suffix_cons]
    | stop => grind [step, readStep]
  · push Not at ha
    rcases step_outside_log h ha with hl | ⟨o, hl, -⟩
    · exact hl ▸ List.suffix_rfl
    · exact hl ▸ List.suffix_cons _ _

/-- No step forgets a received frame. -/
theorem dataReceived_step {a : Action} (h : step cfg s a = some s') :
    dataReceived s.log <+: dataReceived s'.log := by
  obtain ⟨l, hl⟩ := step_log h
  rw [← hl]
  unfold dataReceived
  rw [List.reverse_append, List.filterMap_append, List.filter_append]
  exact List.prefix_append _ _

/-- A discarded event is logged where the read task looks at the state for it. -/
theorem step_discarded {a : Action} {st : SessionState} (h : step cfg s a = some s')
    (hd : .discarded st ∈ s'.log) :
    .discarded st ∈ s.log ∨ (∃ e d, s.read = .eventCheck e d) ∧ st = s.state := by
  by_cases ha : ∃ i, a = .read i
  · obtain ⟨i, rfl⟩ := ha
    cases i with
    | go =>
      simp only [step, readStep] at h
      unfold readGo at h
      obtain ⟨w, t, hw⟩ := abortInitTimeout_eq s
      obtain ⟨w', t', hw'⟩ := abortReadyTimeout_eq s
      split at h
      all_goals grind [transition_cases, sendPacket_ok]
    | frame f => grind [step, readStep, received_cases]
    | outcome o d => grind [step, readStep]
    | stop => grind [step, readStep]
  · push Not at ha
    rcases step_outside_log h ha with hl | ⟨o, hl, ho⟩
    · rw [hl] at hd
      exact .inl hd
    · rw [hl, List.mem_cons] at hd
      rcases hd with rfl | hd
      · cases ho
      · exact .inl hd

/-- The read task checks the state for an event packet it has received. -/
theorem step_checking {a : Action} (h : step cfg s a = some s')
    (hc : ∀ e d, s.read = .eventCheck e d → 1 ≤ packetsReceived cfg.codec .event s.log)
    (e : Option String) (d : Option Bytes) (hr : s'.read = .eventCheck e d) :
    1 ≤ packetsReceived cfg.codec .event s'.log := by
  by_cases ha : ∃ i, a = .read i
  · obtain ⟨i, rfl⟩ := ha
    cases i with
    | go =>
      simp only [step, readStep] at h
      unfold readGo at h
      obtain ⟨w, t, hw⟩ := abortInitTimeout_eq s
      obtain ⟨w', t', hw'⟩ := abortReadyTimeout_eq s
      split at h
      all_goals grind [transition_cases, sendPacket_ok]
    | frame f =>
      simp only [step, readStep] at h
      split at h
      · cases h
        have hf := handleFrame_cases cfg f
        rw [show handleFrame cfg f = .eventCheck e d from hr] at hf
        obtain ⟨m, rfl, hm⟩ : ∃ m, f = some (some m) ∧ carries cfg.codec false .event m = true := by
          simpa using hf
        simp [received, receivedPacket, hm]
      · cases h
    | outcome o data => grind [step, readStep]
    | stop => grind [step, readStep]
  · push Not at ha
    rw [packetsReceived_outside h ha]
    rcases (step_outside h ha).1 with hr' | ⟨-, -, hr'⟩
    · rw [hr'] at hr
      exact hc e d hr
    · rw [hr'] at hr
      cases hr

/-- A session whose frames come in an order with the ready packet first discards no event
in `AwaitingReady`. -/
theorem not_discarded {l : List Outgoing} (hl : ReadyFirst l)
    (ha : ∀ m ∈ l, Authentic cfg.codec m ∧ m.origin ≠ .ping) (h : (system cfg).Reachable s)
    (hd : dataReceived s.log <+: (l.map (·.message)).filter Message.isData) :
    .discarded .awaitingReady ∉ s.log := by
  have hchecking : (∀ e d, s.read = .eventCheck e d → 1 ≤ packetsReceived cfg.codec .event s.log) ∧
      (dataReceived s.log <+: (l.map (·.message)).filter Message.isData →
        .discarded .awaitingReady ∉ s.log) := by
    refine h.invariant (I := fun s => (∀ e d, s.read = .eventCheck e d →
      1 ≤ packetsReceived cfg.codec .event s.log) ∧ (dataReceived s.log <+:
        (l.map (·.message)).filter Message.isData → .discarded .awaitingReady ∉ s.log)) ?_ ?_
    · exact ⟨fun e d hr => (by cases hr), fun _ hm => (by cases hm)⟩
    · rintro s a s' hr hs ⟨hc, hi⟩
      refine ⟨step_checking hs hc, fun hd hm => ?_⟩
      have hd' := (dataReceived_step hs).trans hd
      rcases step_discarded hs hm with hm | ⟨⟨e, d, hread⟩, hst⟩
      · exact hi hd' hm
      · -- the event was received, hence the ready packet, hence the state has moved on
        have hready := mem_dataReceived.mp (hl.delivered ha hd' (mem_dataReceived.mpr (hc e d hread)))
        have hreading := (reads_of_reachable hr).reading
        rcases hreading.settled hready (by rw [hread]; rfl) (by rw [hread]; simp) with h₁ | h₁ <;>
          rw [← hst] at h₁ <;> cases h₁
  exact hchecking.2 hd

end Client.Session

namespace Client.Session

/-- A session without handlers that has sent its init packet and receives the given
frames, with the read task's steps after each. -/
def framesRun (frames : List (Message × Nat)) : List Action := List.flatten [
  List.replicate 10 (.owner .go), [.read (.frame (some (some (.binary [2, 0, 0]))))],
  List.replicate 8 (.read .go),
  frames.flatMap fun f => .read (.frame (some (some f.1))) :: List.replicate f.2 (.read .go)]

end Client.Session

/-! ## Both ends -/

namespace Server.Runtime

/-- No state check of `emit_event_message`, of an emit or of a broadcast, runs while its
connection is `Ready` and its ready packet is not in the channel yet. -/
def emitWaits (s : Runtime) : ServerAction → Bool
  | .conn i a =>
    match s.conns i with
    | some m => m.conn.emitWaits a
    | none => true
  | _ => true

/-- **No event overtakes the ready packet.** In every run of the server in which no emit
looks at the state between the transition to `Ready` and the enqueueing of the ready
packet: in the channel of a connection every event comes after the ready packet, and a
client session with the same codec to which the data frames are delivered in that order,
however far, discards no event for being in `AwaitingReady`. -/
theorem event_after_ready {cfg : ServerConfig} {s : Runtime}
    (h : (system cfg).ReachableWhen (fun s a => emitWaits s a = true) s) {i : Nat} {m : Member}
    (hm : s.conns i = some m) :
    (∀ earlier x later, m.conn.channel.sent = earlier ++ x :: later → x.origin = .event →
      ∃ r ∈ earlier, r.origin = .ready) ∧
    ∀ (cfg' : Client.ClientConfig) (t : Client.Session),
      cfg'.codec = (cfg.config m.home).codec → (Client.Session.system cfg').Reachable t →
      Client.Session.dataReceived t.log <+:
        (m.conn.channel.sent.map (·.message)).filter Message.isData →
      .discarded .awaitingReady ∉ t.log := by
  have hconn := conn_reachable (g := fun c a => c.emitWaits a = true) (fun s i b m hg hi => by
    simpa [emitWaits, hi] using hg) (fun _ _ _ _ _ _ _ _ => rfl) h hm
  have hordered := (Connection.ordered_of_reachable hconn).ordered
  refine ⟨hordered, fun cfg' t hcodec ht hd => ?_⟩
  refine Client.Session.not_discarded hordered ?_ ht hd
  rw [hcodec]
  exact (Connection.exchange_of_reachable hconn).authentic

/-- A broadcast emit to the one connection, from its call to the enqueued event. -/
def emitRun : List ServerAction := List.flatten [
  [.start 1 (.emit 0 .new "a" none)], List.replicate 3 (.call 1 .go), [.call 1 (.target 0 0)],
  List.replicate 2 (.conn 0 (.caller 0)), [.call 1 .go]]

theorem event_after_ready_run :
    ∃ s m t, (system (.postcard false)).Reachable s ∧ s.conns 0 = some m ∧
      m.conn.channel.sent = [⟨.init, .binary [2, 0, 0]⟩, ⟨.ready, .binary [3, 0, 0]⟩,
        ⟨.event, .binary [1, 1, 1, 97, 0]⟩] ∧
      (∃ r ∈ m.conn.channel.sent.take 2, r.origin = .ready) ∧
      (Client.Session.system (.postcard false)).Reachable t ∧
      .received (.binary [1, 1, 1, 97, 0]) ∈ t.log ∧ .discarded .awaitingReady ∉ t.log := by
  obtain ⟨s, hr, hs⟩ := System.exists_reachableWhen_of_execWhen
    (S := system (.postcard false)) (g := emitWaits)
    (l := List.flatten [readyRun, List.replicate 5 (.conn 0 (.read .go)), emitRun])
    (p := fun s => (s.conns 0).map (fun m => m.conn.channel.sent) =
      some [⟨.init, .binary [2, 0, 0]⟩, ⟨.ready, .binary [3, 0, 0]⟩,
        ⟨.event, .binary [1, 1, 1, 97, 0]⟩]) (by decide +kernel)
  obtain ⟨m, hm, hsent⟩ := Option.map_eq_some_iff.mp (of_decide_eq_true hs)
  obtain ⟨t, ht, hp⟩ := System.exists_reachable_of_exec
    (S := Client.Session.system (.postcard false))
    (l := Client.Session.framesRun [(.binary [3, 0, 0], 5), (.binary [1, 1, 1, 97, 0], 1)])
    (p := fun t => Client.Session.dataReceived t.log =
      [.binary [2, 0, 0], .binary [3, 0, 0], .binary [1, 1, 1, 97, 0]] &&
        decide (.received (.binary [1, 1, 1, 97, 0]) ∈ t.log)) (by decide +kernel)
  simp only [Bool.and_eq_true, decide_eq_true_eq] at hp
  obtain ⟨hfirst, hclient⟩ := event_after_ready hr hm
  refine ⟨s, m, t, hr.reachable, hm, hsent, ?_, ht, hp.2, hclient _ t rfl ht ?_⟩
  · rw [hsent]
    exact hfirst [_, _] _ [] hsent rfl
  · rw [hp.1, hsent]
    exact ⟨[], rfl⟩

/-- A broadcast to a connection that is registered and has not sent its ready packet: the
event stands before the packet, and a client that has received both in that order has
discarded the event. -/
theorem event_before_ready :
    (¬ ∀ s m, (system (.postcard false)).Reachable s → s.conns 0 = some m →
      ∀ earlier x later, m.conn.channel.sent = earlier ++ x :: later → x.origin = .event →
        ∃ r ∈ earlier, r.origin = .ready) ∧
    (¬ ∀ s m t, (system (.postcard false)).Reachable s → s.conns 0 = some m →
      (Client.Session.system (.postcard false)).Reachable t →
      Client.Session.dataReceived t.log <+:
        (m.conn.channel.sent.map (·.message)).filter Message.isData →
      .discarded .awaitingReady ∉ t.log) := by
  obtain ⟨s, hr, hs⟩ := System.exists_reachable_of_exec (S := system (.postcard false))
    (l := List.flatten [readyRun, List.replicate 3 (.conn 0 (.read .go)), emitRun,
      [.conn 0 (.read .go)]])
    (p := fun s => (s.conns 0).map (fun m => m.conn.channel.sent) =
      some [⟨.init, .binary [2, 0, 0]⟩, ⟨.event, .binary [1, 1, 1, 97, 0]⟩,
        ⟨.ready, .binary [3, 0, 0]⟩]) (by decide +kernel)
  obtain ⟨m, hm, hsent⟩ := Option.map_eq_some_iff.mp (of_decide_eq_true hs)
  refine ⟨fun h => ?_, fun h => ?_⟩
  · obtain ⟨r, hmem, ho⟩ := h s m hr hm [_] _ [_] hsent rfl
    rw [List.mem_singleton.mp hmem] at ho
    cases ho
  · obtain ⟨t, ht, hp⟩ := System.exists_reachable_of_exec
      (S := Client.Session.system (.postcard false))
      (l := Client.Session.framesRun [(.binary [1, 1, 1, 97, 0], 1)])
      (p := fun t => Client.Session.dataReceived t.log =
        [.binary [2, 0, 0], .binary [1, 1, 1, 97, 0]] &&
          decide (.discarded .awaitingReady ∈ t.log)) (by decide +kernel)
    simp only [Bool.and_eq_true, decide_eq_true_eq] at hp
    refine h s m t hr hm ht ?_ hp.2
    rw [hp.1, hsent]
    exact ⟨[.binary [3, 0, 0]], rfl⟩

end Server.Runtime

end WsIo
