import WsIo.Protocol.OneWay
import WsIo.Protocol.Pair
import WsIo.Protocol.ReadyOrder

/-!
# Delivery of events

What becomes of the events that one end emits. A link carries in order what the write
task took from its channel (`Link.InOrder`), the read task of the other end checks its
state for one event packet at a time (`Handles`), and once it has dropped one for the
state it drops every later one (`Delivered`).

* `events_in_order`: the server dispatches a prefix of the events its client enqueued, and
  all that arrived while it is in `Ready`; the client dispatches a subsequence of those
  of its server.
* `events_delivered`: where no emit of the server overtakes the ready packet, the client
  dispatches a prefix as well.
-/

namespace WsIo

open Async Core

namespace Core

/-! ## Events on the wire -/

/-- The name and the data of an event. -/
abbrev Event := String × Option Bytes

def WsIoPacket.event (p : WsIoPacket) : Option Event :=
  if p.type = .event then p.key.map fun e => (e, p.data) else none

/-- The event in a data frame. -/
def messageEvent (codec : PacketCodec) (m : Message) : Option Event :=
  match packetBytes false m with
  | none => none
  | some bytes =>
    match codec.decode bytes with
    | .error _ => none
    | .ok p => p.event

/-- The event that `emit_event_message` put into the channel with a message. -/
def eventOf (codec : PacketCodec) (m : Outgoing) : Option Event :=
  if m.origin = .event then messageEvent codec m.message else none

/-- The events among messages, in their order. -/
def events (codec : PacketCodec) (l : List Outgoing) : List Event := l.filterMap (eventOf codec)

@[simp] theorem events_nil (codec : PacketCodec) : events codec [] = [] := rfl

@[simp] theorem events_append (codec : PacketCodec) (l l' : List Outgoing) :
    events codec (l ++ l') = events codec l ++ events codec l' := List.filterMap_append

theorem events_singleton (codec : PacketCodec) (m : Outgoing) :
    events codec [m] = (eventOf codec m).toList := by
  cases h : eventOf codec m <;> simp [events, h]

theorem messageEvent_encoded {codec : PacketCodec} {p : WsIoPacket} {m : Message}
    (h : encodePacketToMessage codec p = .ok m) : messageEvent codec m = p.event := by
  obtain ⟨bytes, hb, hd⟩ := decode_packetBytes h false
  simp only [messageEvent, hb, hd]

/-- Among messages of emits there is one event for each. -/
theorem length_events {codec : PacketCodec} {l : List Outgoing}
    (h : ∀ m ∈ l, m.origin = .event → Client.Session.IsEvent codec m.message) :
    (events codec l).length = countOf .event l := by
  induction l with
  | nil => rfl
  | cons m l ih =>
    have hl := ih fun m' hm' => h m' (List.mem_cons_of_mem _ hm')
    rw [countOf_cons, ← hl]
    by_cases ho : m.origin = .event
    · obtain ⟨e, d, hm⟩ := h m List.mem_cons_self ho
      have he : eventOf codec m = some (e, d) := by
        rw [eventOf, if_pos ho, messageEvent_encoded hm]
        rfl
      simp [events, he, ho]
    · have he : eventOf codec m = none := if_neg ho
      simp [events, he, ho]

/-! ## The link keeps the order -/

/-- The message went through the channel: every message but the disconnect packet of a
rejected request does. -/
def viaChannel (m : Outgoing) : Bool := m.origin ≠ .disconnect

theorem events_filter (codec : PacketCodec) (l : List Outgoing) :
    events codec (l.filter viaChannel) = events codec l := by
  rw [events, List.filterMap_filter]
  refine List.filterMap_congr fun m _ => ?_
  by_cases ho : m.origin = .event <;> simp [eventOf, viaChannel, ho]

namespace Link

/-- The link holds, in order, what the write task took from its channel, and all of it
until the write task ends. -/
structure InOrder {σ : Type} (e : Endpoint σ) (pc : WritePc) (w : Link) : Prop where
  order : (w.taken pc).filter viaChannel <+: e.channel.received.filter viaChannel
  all : pc ≠ .ended → (w.taken pc).filter viaChannel = e.channel.received.filter viaChannel

section

variable {σ : Type} {e e' : Endpoint σ} {pc pc' : WritePc} {w : Link}

theorem InOrder.of_eq (h : (w.taken pc).filter viaChannel = e.channel.received.filter viaChannel) :
    InOrder e pc w := ⟨by rw [h], fun _ => h⟩

theorem InOrder.empty (e : Endpoint σ) (hr : e.channel.received = []) :
    InOrder e .absent Link.empty := .of_eq (by rw [hr]; rfl)

/-- A step outside the write task, and the spawn of the write task. -/
theorem InOrder.frame (h : InOrder e pc w) (hr : e'.channel.received = e.channel.received)
    (hp : pc' = pc ∨ pc = .absent ∧ inHand pc' = []) : InOrder e' pc' w := by
  rcases hp with rfl | ⟨rfl, hp⟩
  · constructor
    · rw [hr]
      exact h.order
    · rw [hr]
      exact h.all
  · have hall := h.all (by simp)
    have habsent : inHand .absent = [] := rfl
    refine .of_eq ?_
    rw [hr, ← hall]
    simp only [taken, hp, habsent]

theorem InOrder.writeStep {aborted : Bool} {i : WriteInput} (h : InOrder e pc w)
    (hs : e.writeStep pc aborted i = some (e', pc')) : InOrder e' pc' (w.push (written pc i)) := by
  rcases Endpoint.writeStep_cases hs with ⟨m, ch, rfl, rfl, rfl, hr, rfl⟩ |
    ⟨m, rfl, rfl, -, rfl, rfl⟩ | ⟨rfl, rfl, hp⟩
  · -- the next message of the channel
    obtain ⟨-, hrec, -, -, -⟩ := Channel.recv_some hr
    have hall := h.all (by simp)
    refine .of_eq ?_
    simp only [hrec, List.filter_append, ← hall]
    simp [taken, push, written, inHand]
  · -- the message is on its way
    have hall := h.all (by simp)
    refine .of_eq ?_
    rw [← hall]
    simp [taken, push, written, inHand]
  · -- the task ended, with or without having sent its message
    refine ⟨?_, fun hne => absurd rfl hne⟩
    refine List.IsPrefix.trans ?_ h.order
    refine List.IsPrefix.filter _ ?_
    cases i <;> rcases hp with rfl | ⟨m, rfl⟩ <;> simp [taken, push, written, inHand]

/-- The disconnect packet of a rejected request. -/
theorem InOrder.push_disconnect {m : Outgoing} (h : InOrder e pc w) (hm : m.origin = .disconnect) :
    InOrder e pc (w.push [m]) := by
  have he : ((w.push [m]).taken pc).filter viaChannel = (w.taken pc).filter viaChannel := by
    simp [taken, push, viaChannel, hm]
  constructor
  · rw [he]
    exact h.order
  · rw [he]
    exact h.all

/-- The other end reads the oldest message in flight. -/
theorem InOrder.deliver {m : Outgoing} {rest : List Outgoing} (h : InOrder e pc w)
    (hw : w.flight = m :: rest) : InOrder e pc ⟨w.arrived ++ [m], rest⟩ := by
  have he : Link.taken ⟨w.arrived ++ [m], rest⟩ pc = w.taken pc := by
    simp [taken, hw]
  constructor
  · rw [he]
    exact h.order
  · rw [he]
    exact h.all

/-- What arrived is, in order, the first part of what was enqueued. -/
theorem InOrder.arrived (h : InOrder e pc w) :
    w.arrived.filter viaChannel <+: e.channel.sent.filter viaChannel := by
  have ha : w.arrived <+: w.taken pc := by
    rw [taken, List.append_assoc]
    exact List.prefix_append _ _
  have hr : e.channel.received <+: e.channel.sent := List.prefix_append _ _
  exact ((ha.filter _).trans h.order).trans (hr.filter _)

theorem InOrder.arrived_events (h : InOrder e pc w) (codec : PacketCodec) :
    events codec w.arrived <+: events codec e.channel.sent := by
  have hp := h.arrived.filterMap (eventOf codec)
  change events codec (w.arrived.filter viaChannel) <+:
    events codec (e.channel.sent.filter viaChannel) at hp
  rwa [events_filter, events_filter] at hp

/-- No event is lost while the write task runs. -/
theorem InOrder.sent_events (h : InOrder e pc w) (hpc : pc ≠ .ended) (codec : PacketCodec) :
    events codec w.arrived ++ events codec w.flight ++ events codec (inHand pc) ++
      events codec e.channel.queue = events codec e.channel.sent := by
  have hall := congrArg (events codec) (h.all hpc)
  rw [events_filter, events_filter] at hall
  rw [Channel.sent, events_append, ← hall]
  simp [taken]

end

end Link

/-- The link shows the ready packet before any event. -/
theorem ReadyFirst.arrived {l l' : List Outgoing} (h : ReadyFirst l)
    (hl : l'.filter viaChannel <+: l.filter viaChannel) (he : 0 < countOf .event l') :
    0 < countOf .ready l' := by
  obtain ⟨m, hm, ho⟩ := countOf_pos.mp he
  obtain ⟨l₁, ⟨l₂, rfl⟩, hf⟩ := List.prefix_filter_iff.mp hl
  have hm₁ : m ∈ l₁.filter viaChannel := by
    rw [← hf]
    exact List.mem_filter.mpr ⟨hm, by simp [viaChannel, ho]⟩
  obtain ⟨earlier, later, rfl⟩ := List.append_of_mem (List.mem_filter.mp hm₁).1
  obtain ⟨r, hr, hro⟩ := h earlier m (later ++ l₂) (by simp) ho
  have hr₁ : r ∈ l'.filter viaChannel := by
    rw [hf]
    exact List.mem_filter.mpr ⟨by simp [hr], by simp [viaChannel, hro]⟩
  exact countOf_pos.mpr ⟨r, (List.mem_filter.mp hr₁).1, hro⟩

/-! ## The read task, one event at a time -/

/-- What a step does to the events of a read task: `d` are the dispatched ones and `q` is
the one whose check of the state is due. -/
inductive Handles (ready : Prop) (d q : List Event) : List Event → List Event → Prop
  | keep : Handles ready d q d q
  | dispatch (h : ready) : Handles ready d q (d ++ q) []
  | drop (h : ¬ ready) : Handles ready d q d []

theorem Handles.sublist {ready : Prop} {d q d' q' l : List Event} (h : Handles ready d q d' q')
    (hl : (d ++ q).Sublist l) : (d' ++ q').Sublist l := by
  cases h with
  | keep => exact hl
  | dispatch _ => rwa [List.append_nil]
  | drop _ =>
    rw [List.append_nil]
    exact (List.sublist_append_left d q).trans hl

/-- The dispatched events are the first of those that arrived, and but for the one that is
due all of them until the end goes down. -/
structure Delivered (d q arrived : List Event) (down : Bool) : Prop where
  behind : d <+: arrived
  complete : down = false → d ++ q = arrived

/-- The events that a log notes, oldest first. -/
def noted {ω : Type} (f : ω → Option Event) (log : List ω) : List Event := log.reverse.filterMap f

theorem noted_cons {ω : Type} (f : ω → Option Event) (o : ω) (log : List ω) :
    noted f (o :: log) = noted f log ++ (f o).toList := by
  cases h : f o <;> simp [noted, h]

theorem noted_quiet {ω : Type} {f : ω → Option Event} {o : ω} (h : f o = none) (log : List ω) :
    noted f (o :: log) = noted f log := by
  rw [noted_cons, h, Option.toList_none, List.append_nil]

namespace Delivered

variable {ready : Prop} {d q d' q' arrived : List Event} {down down' : Bool}

theorem handles (h : Delivered d q arrived down) (hs : Handles ready d q d' q')
    (hready : ready → down = false) (hdrop : ¬ ready → q ≠ [] → down = true)
    (hdown : down = true → down' = true) : Delivered d' q' arrived down' := by
  have hup : down' = false → down = false := by
    intro hd
    cases down with
    | false => rfl
    | true => rw [hdown rfl] at hd; cases hd
  cases hs with
  | keep => exact ⟨h.behind, fun hd => h.complete (hup hd)⟩
  | dispatch hr =>
    have hall := h.complete (hready hr)
    exact ⟨by rw [hall], fun _ => by rw [List.append_nil, hall]⟩
  | drop hr =>
    refine ⟨h.behind, fun hd => ?_⟩
    by_cases hq : q = []
    · rw [← hq]
      exact h.complete (hup hd)
    · rw [hdown (hdrop hr hq)] at hd
      cases hd

theorem receive (h : Delivered d [] arrived down) (e : List Event) :
    Delivered d e (arrived ++ e) down := by
  refine ⟨h.behind.trans (List.prefix_append _ _), fun hd => ?_⟩
  rw [← h.complete hd, List.append_nil]

end Delivered

end Core

/-! ## The server -/

namespace Server.Connection

variable {cfg : NamespaceConfig} {c c' : Connection}

def dispatchOf : Obs → Option Event
  | .dispatched e d => some (e, d)
  | _ => none

/-- The events handed to the event registry, oldest first. -/
def dispatched (log : List Obs) : List Event := noted dispatchOf log

/-- The event packet for which the read task is about to look at the state. -/
def pending : ReadPc → List Event
  | .eventCheck (some e) d => [(e, d)]
  | _ => []

theorem dispatched_quiet {o : Obs} (h : dispatchOf o = none) (log : List Obs) :
    dispatched (o :: log) = dispatched log := noted_quiet h log

theorem dispatched_received (f : Frame) (log : List Obs) :
    dispatched (received f ++ log) = dispatched log := by
  rcases received_cases f with hf | ⟨m, hf⟩ <;> rw [hf]
  · rfl
  · exact dispatched_quiet rfl log

theorem pending_eventCheck {pc : ReadPc} (h : pending pc ≠ []) : ∃ e d, pc = .eventCheck e d := by
  cases pc with
  | eventCheck e d => exact ⟨e, d, rfl⟩
  | _ => exact absurd rfl h

/-- The read loop takes a frame where it waits for one. -/
theorem step_frame_read {f : Frame} (h : step cfg c (.read (.frame f)) = some c') :
    c.read = .next ∧ c'.read = handleFrame cfg f ∧ c'.state = c.state := by
  grind [step, readStep]

/-- The read task handles no event outside the check of the state. -/
theorem readGo_quiet (h : readGo cfg c = some c') (hr : ∀ e d, c.read ≠ .eventCheck e d) :
    dispatched c'.log = dispatched c.log ∧ pending c'.read = [] := by
  unfold readGo at h
  obtain ⟨w, t, hw⟩ := abortInitTimeout_eq c
  split at h
  all_goals grind [transition_cases, invoke_cases, ensure, sendPacket_ok, dispatched_quiet,
    dispatchOf, pending, afterInsert_cases]

theorem readGo_handles (h : readGo cfg c = some c') :
    Handles (c.state = .ready) (dispatched c.log) (pending c.read) (dispatched c'.log)
      (pending c'.read) := by
  by_cases hr : ∃ e d, c.read = .eventCheck e d
  · obtain ⟨event, data, hr⟩ := hr
    simp only [readGo, hr] at h ⊢
    split at h
    · rename_i hready
      cases event with
      | none =>
        cases h
        rw [dispatched_quiet rfl]
        exact .keep
      | some e =>
        cases h
        rw [show dispatched (.dispatched e data :: c.log) = dispatched c.log ++ [(e, data)] from
          noted_cons _ _ _]
        exact .dispatch hready
    · rename_i hready
      cases h
      exact .drop hready
  · push Not at hr
    obtain ⟨hd, hq⟩ := readGo_quiet h hr
    have hp : pending c.read = [] := by
      by_contra hp
      obtain ⟨e, d, he⟩ := pending_eventCheck hp
      exact hr e d he
    rw [hd, hq, hp]
    exact .keep

theorem pending_control {f : Frame} (h : Pair.control f = true) :
    pending (handleFrame cfg f) = [] := by
  cases f with
  | none => rfl
  | some f =>
    cases f with
    | none => rfl
    | some m => cases m <;> first | rfl | cases h

/-- Only the check of the state handles an event. -/
theorem step_handles {a : Action} (h : step cfg c a = some c')
    (hf : ∀ f, a = .read (.frame f) → Pair.control f = true)
    (hu : c.main.created = false ∨ c.main = .spawnRead → c.read = .absent) :
    Handles (c.state = .ready) (dispatched c.log) (pending c.read) (dispatched c'.log)
      (pending c'.read) := by
  by_cases ha : ∃ i, a = .read i
  · obtain ⟨i, rfl⟩ := ha
    cases i with
    | go => exact readGo_handles h
    | frame f =>
      obtain ⟨hn, hr, -⟩ := step_frame_read h
      rw [log_frame h, dispatched_received, hr, hn, pending_control (hf f rfl)]
      exact .keep
    | outcome o =>
      simp only [step, readStep] at h
      split at h
      · rename_i g hr
        cases h
        have hp : pending (if o = .ok then afterHandler g else .ended) = [] := by
          split
          · cases g <;> rfl
          · rfl
        rw [dispatched_quiet rfl, hr, hp]
        exact .keep
      · cases h
    | stop =>
      simp only [step, readStep] at h
      split at h
      · rename_i hs
        cases h
        have hp : pending c.read = [] := by
          by_contra hp
          obtain ⟨e, d, hr⟩ := pending_eventCheck hp
          rw [hr, Bool.and_eq_true] at hs
          cases hs.2
        rw [hp]
        exact .keep
      · cases h
  · push Not at ha
    have hp : pending c'.read = pending c.read := by
      rcases (step_outside h ha).1 with hr | ⟨hm, hr⟩
      · rw [hr]
      · rw [hr, hu (.inr hm)]
        rfl
    have hd : dispatched c'.log = dispatched c.log := by
      rcases step_outside_log h ha with hl | ⟨o, hl, ho⟩
      · rw [hl]
      · rw [hl]
        refine dispatched_quiet ?_ _
        cases o <;> first | rfl | cases ho
    rw [hp, hd]
    exact .keep

/-- The event that arrives with a message of the client is the one it was enqueued with. -/
theorem pending_handleFrame {m : Outgoing} (h : Authentic cfg.codec m) :
    pending (handleFrame cfg (some (some m.message))) = (eventOf cfg.codec m).toList := by
  obtain ⟨origin, message⟩ := m
  have hpacket : ∀ p : WsIoPacket, encodePacketToMessage cfg.codec p = .ok message →
      pending (handleFrame cfg (some (some message))) = p.event.toList := by
    intro p he
    obtain ⟨bytes, hb, hd⟩ := decode_packetBytes he true
    obtain ⟨data, key, type⟩ := p
    cases message with
    | text _ | binary _ =>
      simp only [handleFrame, hb, hd]
      cases type <;> cases key <;> rfl
    | _ => cases hb
  cases origin with
  | event =>
    obtain ⟨p, -, he⟩ := h
    rw [hpacket p he, eventOf, if_pos rfl, messageEvent_encoded he]
  | close =>
    have hm : message = .close := h
    rw [hm]
    rfl
  | ping =>
    have hm : message = .binary [0x01] := h
    rw [hm]
    rfl
  | init | ready | disconnect =>
    obtain ⟨p, hp, he⟩ := h
    have ht : p.type ≠ .event := by
      intro ht
      rw [ht] at hp
      cases hp
    rw [hpacket p he, eventOf, if_neg (by simp), WsIoPacket.event, if_neg ht]

/-- Every event in the channel was put there by an emit. -/
theorem emitted_of_reachable {guard : Connection → Action → Prop}
    (h : (system cfg).ReachableWhen guard c) :
    ∀ m ∈ c.channel.sent, m.origin = .event → Client.Session.IsEvent cfg.codec m.message := by
  refine h.invariant (I := fun c => ∀ m ∈ c.channel.sent, m.origin = .event →
    Client.Session.IsEvent cfg.codec m.message) ?_ ?_
  · intro m hm
    cases hm
  · intro c a c' hr _ hs hi m hm ho
    rcases step_sent hs with he | ⟨⟨o, x⟩, he, hx⟩
    · rw [he] at hm
      exact hi m hm ho
    · rw [he] at hm
      rcases List.mem_append.mp hm with hm | hm
      · exact hi m hm ho
      · obtain rfl := List.mem_singleton.mp hm
        obtain rfl : o = .event := ho
        obtain ⟨k, hk⟩ := hx
        have hcall := (exchange_of_reachable hr).calls k
        rw [hk] at hcall
        exact hcall

end Server.Connection

/-! ## The client -/

namespace Client.Session

variable {cfg : ClientConfig} {s s' : Session}

def dispatchOf : Obs → Option Event
  | .dispatched e d => some (e, d)
  | _ => none

/-- The events handed to the event registry, oldest first. -/
def dispatched (log : List Obs) : List Event := noted dispatchOf log

/-- The event packet for which the read task is about to look at the state. -/
def pending : ReadPc → List Event
  | .eventCheck (some e) d => [(e, d)]
  | _ => []

theorem dispatched_quiet {o : Obs} (h : dispatchOf o = none) (log : List Obs) :
    dispatched (o :: log) = dispatched log := noted_quiet h log

theorem dispatched_received (f : Frame) (log : List Obs) :
    dispatched (received f ++ log) = dispatched log := by
  rcases received_cases f with hf | ⟨m, hf⟩ <;> rw [hf]
  · rfl
  · exact dispatched_quiet rfl log

theorem pending_eventCheck {pc : ReadPc} (h : pending pc ≠ []) : ∃ e d, pc = .eventCheck e d := by
  cases pc with
  | eventCheck e d => exact ⟨e, d, rfl⟩
  | _ => exact absurd rfl h

theorem step_frame_read {f : Frame} (h : step cfg s (.read (.frame f)) = some s') :
    s.read = .next ∧ s'.read = handleFrame cfg f ∧ s'.state = s.state := by
  grind [step, readStep]

theorem readGo_quiet (h : readGo cfg s = some s') (hr : ∀ e d, s.read ≠ .eventCheck e d) :
    dispatched s'.log = dispatched s.log ∧ pending s'.read = [] := by
  unfold readGo at h
  obtain ⟨w, t, hw⟩ := abortInitTimeout_eq s
  obtain ⟨w', t', hw'⟩ := abortReadyTimeout_eq s
  split at h
  all_goals grind [transition_cases, sendPacket_ok, dispatched_quiet, dispatchOf, pending]

theorem readGo_handles (h : readGo cfg s = some s') :
    Handles (s.state = .ready) (dispatched s.log) (pending s.read) (dispatched s'.log)
      (pending s'.read) := by
  by_cases hr : ∃ e d, s.read = .eventCheck e d
  · obtain ⟨event, data, hr⟩ := hr
    simp only [readGo, hr] at h ⊢
    split at h
    · rename_i hready
      cases event with
      | none =>
        cases h
        rw [dispatched_quiet rfl]
        exact .keep
      | some e =>
        cases h
        rw [show dispatched (.dispatched e data :: s.log) = dispatched s.log ++ [(e, data)] from
          noted_cons _ _ _]
        exact .dispatch hready
    · rename_i hready
      cases h
      rw [dispatched_quiet rfl]
      exact .drop hready
  · push Not at hr
    obtain ⟨hd, hq⟩ := readGo_quiet h hr
    have hp : pending s.read = [] := by
      by_contra hp
      obtain ⟨e, d, he⟩ := pending_eventCheck hp
      exact hr e d he
    rw [hd, hq, hp]
    exact .keep

theorem pending_control {f : Frame} (h : Pair.control f = true) :
    pending (handleFrame cfg f) = [] := by
  cases f with
  | none => rfl
  | some f =>
    cases f with
    | none => rfl
    | some m => cases m <;> first | rfl | cases h

theorem step_handles {a : Action} (h : step cfg s a = some s')
    (hf : ∀ f, a = .read (.frame f) → Pair.control f = true)
    (hu : s.owner.beforeRead = true → s.read = .absent) :
    Handles (s.state = .ready) (dispatched s.log) (pending s.read) (dispatched s'.log)
      (pending s'.read) := by
  by_cases ha : ∃ i, a = .read i
  · obtain ⟨i, rfl⟩ := ha
    cases i with
    | go => exact readGo_handles h
    | frame f =>
      obtain ⟨hn, hr, -⟩ := step_frame_read h
      rw [log_frame h, dispatched_received, hr, hn, pending_control (hf f rfl)]
      exact .keep
    | outcome o response =>
      simp only [step, readStep] at h
      split at h
      · rename_i hr
        cases h
        have hp : pending (if o = .ok then .awaitReady response else .ended) = [] := by
          split <;> rfl
        rw [dispatched_quiet rfl, hr, hp]
        exact .keep
      · cases h
    | stop =>
      simp only [step, readStep] at h
      split at h
      · rename_i hs
        cases h
        have hp : pending s.read = [] := by
          by_contra hp
          obtain ⟨e, d, hr⟩ := pending_eventCheck hp
          rw [hr, Bool.and_eq_true] at hs
          cases hs.2
        rw [hp]
        exact .keep
      · cases h
  · push Not at ha
    have hp : pending s'.read = pending s.read := by
      rcases (step_outside h ha).1 with hr | ⟨ho, -, hr⟩
      · rw [hr]
      · rw [hr, hu (by rw [ho]; rfl)]
        rfl
    have hd : dispatched s'.log = dispatched s.log := by
      rcases step_outside_log h ha with hl | ⟨o, hl, ho⟩
      · rw [hl]
      · rw [hl]
        refine dispatched_quiet ?_ _
        cases o <;> first | rfl | cases ho
    rw [hp, hd]
    exact .keep

theorem pending_handleFrame {m : Outgoing} (h : Authentic cfg.codec m) (hping : m.origin ≠ .ping) :
    pending (handleFrame cfg (some (some m.message))) = (eventOf cfg.codec m).toList := by
  obtain ⟨origin, message⟩ := m
  have hpacket : ∀ p : WsIoPacket, encodePacketToMessage cfg.codec p = .ok message →
      pending (handleFrame cfg (some (some message))) = p.event.toList := by
    intro p he
    obtain ⟨bytes, hb, hd⟩ := decode_packetBytes he false
    obtain ⟨data, key, type⟩ := p
    cases message with
    | text _ | binary _ =>
      simp only [handleFrame, hb, hd]
      cases type <;> cases key <;> rfl
    | _ => cases hb
  cases origin with
  | event =>
    obtain ⟨p, -, he⟩ := h
    rw [hpacket p he, eventOf, if_pos rfl, messageEvent_encoded he]
  | close =>
    have hm : message = .close := h
    rw [hm]
    rfl
  | ping => exact absurd rfl hping
  | init | ready | disconnect =>
    obtain ⟨p, hp, he⟩ := h
    have ht : p.type ≠ .event := by
      intro ht
      rw [ht] at hp
      cases hp
    rw [hpacket p he, eventOf, if_neg (by simp), WsIoPacket.event, if_neg ht]

/-- The read task checks its state for an event packet that it has received. -/
theorem checking_of_reachable {guard : Session → Action → Prop}
    (h : (system cfg).ReachableWhen guard s) (e : Option String) (d : Option Bytes)
    (hr : s.read = .eventCheck e d) : 1 ≤ packetsReceived cfg.codec .event s.log := by
  refine h.invariant (I := fun s => ∀ e d, s.read = .eventCheck e d →
    1 ≤ packetsReceived cfg.codec .event s.log) ?_ ?_ e d hr
  · intro e d hr
    cases hr
  · intro s a s' _ _ hs hi e d hr
    exact step_checking hs hi e d hr

theorem emitted_of_reachable {guard : Session → Action → Prop}
    (hg : ∀ s a, guard s a → EmitsEvents cfg.codec a) (h : (system cfg).ReachableWhen guard s) :
    ∀ m ∈ s.channel.sent, m.origin = .event → IsEvent cfg.codec m.message := by
  refine h.invariant (I := fun s => ∀ m ∈ s.channel.sent, m.origin = .event →
    IsEvent cfg.codec m.message) ?_ ?_
  · intro m hm
    cases hm
  · intro s a s' hr _ hs hi m hm ho
    rcases step_sent hs with he | ⟨⟨o, x⟩, he, -, hx⟩
    · rw [he] at hm
      exact hi m hm ho
    · rw [he] at hm
      rcases List.mem_append.mp hm with hm | hm
      · exact hi m hm ho
      · obtain rfl := List.mem_singleton.mp hm
        obtain rfl : o = .event := ho
        obtain ⟨k, hk⟩ := hx
        exact (((exchange_of_reachable hg hr).emitters k).send x hk).1

end Client.Session

/-! ## Both ends -/

namespace Pair

variable {cfg : PairConfig} {p p' : Pair}

/-- The step of the server that an action is. -/
def serverAction (p : Pair) : Action → Option Server.Action
  | .server a => some a
  | .serverReads => p.toServer.flight.head?.map fun m => .read (.frame (some (some m.message)))
  | _ => none

theorem step_server {a : Action} (h : step cfg p a = some p') :
    p'.server = p.server ∨ ∃ b, serverAction p a = some b ∧
      Server.Connection.step cfg.server p.server b = some p'.server := by
  have hserver : ∀ b, serverStep cfg p b = some p' →
      Server.Connection.step cfg.server p.server b = some p'.server := by
    intro b hb
    unfold serverStep at hb
    split at hb
    · cases hb
    · rename_i server hs
      cases hb
      exact hs
  have hclient : ∀ b, clientStep cfg p b = some p' → p'.server = p.server := by
    intro b hb
    unfold clientStep at hb
    split at hb <;> cases hb
    rfl
  unfold step at h
  split at h
  · split at h
    · exact .inr ⟨_, rfl, hserver _ h⟩
    · cases h
  · exact .inr ⟨_, rfl, hserver _ h⟩
  · split at h
    · exact .inl (hclient _ h)
    · cases h
  · cases h
  · exact .inl (hclient _ h)
  · split at h
    · cases h
    · exact .inl (hclient _ h)
  · split at h
    · cases h
    · rename_i m rest hf
      split at h
      · cases h
      · rename_i server hs
        cases h
        refine .inr ⟨_, ?_, hs⟩
        rw [serverAction, hf]
        rfl
  · split at h
    · cases h
    · split at h <;> cases h
      exact .inl rfl

/-- The server of a pair runs as a connection does. -/
theorem server_reachable {g : Pair → Action → Prop} {g' : Server.Connection → Server.Action → Prop}
    (hg : ∀ p a b, g p a → serverAction p a = some b → g' p.server b)
    (h : (system cfg).ReachableWhen g p) :
    (Server.Connection.system cfg.server).ReachableWhen g' p.server := by
  refine h.map (T := Server.Connection.system cfg.server) (·.server) rfl ?_
  intro p a p' _ ha hs
  refine (step_server hs).imp_right ?_
  rintro ⟨b, hb, hs⟩
  exact ⟨b, hg p a b ha hb, hs⟩

/-- The client of a pair runs as a session that emits events. -/
theorem client_reachable {g : Pair → Action → Prop} (h : (system cfg).ReachableWhen g p) :
    (Client.Session.system cfg.client).ReachableWhen
      (fun _ a => Client.Session.EmitsEvents cfg.client.codec a) p.client := by
  refine h.map (T := Client.Session.system cfg.client) (·.client) rfl ?_
  intro p a p' _ _ hs
  rcases step_cases hs with ⟨b, server, -, -, rfl⟩ | ⟨b, client, hb, -, he, rfl⟩ |
    ⟨m, rest, server, -, -, rfl⟩ | ⟨m, rest, client, -, hb, rfl⟩
  · exact .inl rfl
  · exact .inr ⟨b, he, hb⟩
  · exact .inl rfl
  · refine .inr ⟨.read (.frame (some (some m.message))), ?_, hb⟩
    rintro k m' ⟨⟩

/-! ### The two links -/

/-- Both links keep the order. -/
structure Lines (p : Pair) : Prop where
  down : Link.InOrder p.server.toEndpoint p.server.write p.toClient
  up : Link.InOrder p.client.toEndpoint p.client.write p.toServer

theorem down_inOrder {c c' : Server.Connection} {b : Server.Action} {w : Link}
    (h : Server.Connection.step cfg.server c b = some c') (hw : Server.Connection.Writing c)
    (hd : Link.InOrder c.toEndpoint c.write w) :
    Link.InOrder c'.toEndpoint c'.write (w.push (serverWrites cfg.server c b)) := by
  by_cases hb : ∃ i, b = .write i
  · obtain ⟨i, rfl⟩ := hb
    obtain ⟨e, pc, he, rfl, -⟩ := Server.Connection.writeStep_some h
    exact hd.writeStep he
  · push Not at hb
    have hframe : Link.InOrder c'.toEndpoint c'.write w := by
      rcases Server.Connection.step_write h with ⟨hw', -, hr⟩ | ⟨hm, -, hw', hc⟩ | ⟨i, e, pc, hi, -⟩
      · exact hd.frame hr (.inl hw')
      · exact hd.frame (by rw [hc]) (.inr ⟨hw.unspawned (by rw [hm]; rfl), by rw [hw']; rfl⟩)
      · exact absurd hi (hb i)
    unfold serverWrites
    split
    · rename_i i
      exact absurd rfl (hb i)
    · split
      · split
        · exact hframe.push_disconnect rfl
        · simpa [Link.push] using hframe
      · simpa [Link.push] using hframe
    · simpa [Link.push] using hframe

theorem up_inOrder {s s' : Client.Session} {b : Client.Action} {w : Link}
    (h : Client.Session.step cfg.client s b = some s') (hw : Client.Session.Writing s)
    (hu : Link.InOrder s.toEndpoint s.write w) :
    Link.InOrder s'.toEndpoint s'.write (w.push (clientWrites s b)) := by
  by_cases hb : ∃ i, b = .write i
  · obtain ⟨i, rfl⟩ := hb
    obtain ⟨e, pc, he, rfl, -⟩ := Client.Session.writeStep_some h
    exact hu.writeStep he
  · push Not at hb
    have hframe : Link.InOrder s'.toEndpoint s'.write w := by
      rcases Client.Session.step_write h with ⟨hw', -, hr⟩ | ⟨hm, -, hw', hc⟩ | ⟨i, e, pc, hi, -⟩
      · exact hu.frame hr (.inl hw')
      · exact hu.frame (by rw [hc]) (.inr ⟨hw.unspawned (by rw [hm]; rfl), by rw [hw']; rfl⟩)
      · exact absurd hi (hb i)
    unfold clientWrites
    split
    · rename_i i
      exact absurd rfl (hb i)
    · simpa [Link.push] using hframe

theorem lines_of_reachable {g : Pair → Action → Prop} (h : (system cfg).ReachableWhen g p) :
    Lines p := by
  refine h.invariant (I := Lines) ⟨.empty _ rfl, .empty _ rfl⟩ ?_
  intro p a p' hr _ hs hi
  have hs' : (Server.Connection.system cfg.server).Reachable p.server :=
    server_reachable (fun _ _ _ _ _ => trivial) hr
  have hserver := Server.Connection.writing_of_reachable hs'
  have hclient := Client.Session.writing_of_reachable (client_reachable hr)
  rcases step_cases hs with ⟨b, server, hb, -, rfl⟩ | ⟨b, client, hb, -, -, rfl⟩ |
    ⟨m, rest, server, hw, hb, rfl⟩ | ⟨m, rest, client, hw, hb, rfl⟩
  · exact ⟨down_inOrder hb hserver hi.down, hi.up⟩
  · exact ⟨hi.down, up_inOrder hb hclient hi.up⟩
  · have hdown := down_inOrder hb hserver hi.down
    exact ⟨by simpa [serverWrites, Link.push] using hdown, hi.up.deliver hw⟩
  · have hup := up_inOrder hb hclient hi.up
    exact ⟨hi.down.deliver hw, by simpa [clientWrites, Link.push] using hup⟩

/-! ### What is dispatched -/

/-- The server takes a packet of its client from the link. -/
theorem server_receives {m : Outgoing} {rest : List Outgoing} {server : Server.Connection}
    (hi : Agreement cfg p) (hw : p.toServer.flight = m :: rest)
    (h : Server.Connection.step cfg.server p.server (.read (.frame (some (some m.message)))) =
      some server) :
    Server.Connection.dispatched server.log = Server.Connection.dispatched p.server.log ∧
      Server.Connection.pending p.server.read = [] ∧ server.state = p.server.state ∧
      Server.Connection.pending server.read = events cfg.server.codec [m] := by
  obtain ⟨hn, hread, hst⟩ := Server.Connection.step_frame_read h
  have hm : m ∈ p.toServer.taken p.client.write := by simp [Link.taken, hw]
  have hauth := (hi.up.good m hm).1
  rw [cfg.same_codec] at hauth
  refine ⟨?_, by rw [hn]; rfl, hst, ?_⟩
  · rw [Server.Connection.log_frame h, Server.Connection.dispatched_received]
  · rw [hread, Server.Connection.pending_handleFrame hauth, events_singleton]

/-- The client takes a packet of its server from the link. -/
theorem client_receives {m : Outgoing} {rest : List Outgoing} {client : Client.Session}
    (hi : Agreement cfg p) (hw : p.toClient.flight = m :: rest)
    (h : Client.Session.step cfg.client p.client (.read (.frame (some (some m.message)))) =
      some client) :
    Client.Session.dispatched client.log = Client.Session.dispatched p.client.log ∧
      Client.Session.pending p.client.read = [] ∧ client.state = p.client.state ∧
      Client.Session.pending client.read = events cfg.server.codec [m] := by
  obtain ⟨hn, hread, hst⟩ := Client.Session.step_frame_read h
  have hm : m ∈ p.toClient.taken p.server.write := by simp [Link.taken, hw]
  obtain ⟨hauth, hping⟩ := hi.down.good m hm
  rw [← cfg.same_codec] at hauth
  refine ⟨?_, by rw [hn]; rfl, hst, ?_⟩
  · rw [Client.Session.log_frame h, Client.Session.dispatched_received]
  · rw [hread, Client.Session.pending_handleFrame hauth hping, events_singleton, cfg.same_codec]

theorem server_delivered (h : (system cfg).Reachable p) :
    Delivered (Server.Connection.dispatched p.server.log) (Server.Connection.pending p.server.read)
      (events cfg.server.codec p.toServer.arrived) (isDown p.server.state) := by
  refine h.invariant (I := fun p => Delivered (Server.Connection.dispatched p.server.log)
    (Server.Connection.pending p.server.read) (events cfg.server.codec p.toServer.arrived)
    (isDown p.server.state)) ⟨List.prefix_rfl, fun _ => rfl⟩ ?_
  intro p a p' hr hs hi
  have hagree := agreement_of_reachable hr
  rcases step_cases hs with ⟨b, server, hb, hf, rfl⟩ | ⟨b, client, -, -, -, rfl⟩ |
    ⟨m, rest, server, hw, hb, rfl⟩ | ⟨m, rest, client, -, -, rfl⟩
  · refine hi.handles (Server.Connection.step_handles hb hf hagree.server.unread) ?_ ?_ ?_
    · intro hready
      rw [hready]
      rfl
    · intro hready hq
      obtain ⟨e, d, he⟩ := Server.Connection.pending_eventCheck hq
      exact (hagree.eventCheck he).resolve_left hready
    · exact Server.Connection.step_isDown hb
  · exact hi
  · obtain ⟨hlog, hq, hst, hpending⟩ := server_receives hagree hw hb
    rw [hq] at hi
    simp only [hlog, hst, hpending, events_append]
    exact hi.receive _
  · exact hi

theorem client_sublist (h : (system cfg).Reachable p) :
    (Client.Session.dispatched p.client.log ++ Client.Session.pending p.client.read).Sublist
      (events cfg.server.codec p.toClient.arrived) := by
  refine h.invariant (I := fun p => (Client.Session.dispatched p.client.log ++
    Client.Session.pending p.client.read).Sublist (events cfg.server.codec p.toClient.arrived))
    (List.Sublist.refl _) ?_
  intro p a p' hr hs hi
  have hagree := agreement_of_reachable hr
  rcases step_cases hs with ⟨b, server, -, -, rfl⟩ | ⟨b, client, hb, hf, -, rfl⟩ |
    ⟨m, rest, server, -, -, rfl⟩ | ⟨m, rest, client, hw, hb, rfl⟩
  · exact hi
  · exact (Client.Session.step_handles hb hf hagree.client.unread).sublist hi
  · exact hi
  · obtain ⟨hlog, hq, -, hpending⟩ := client_receives hagree hw hb
    rw [hq, List.append_nil] at hi
    simp only [hlog, hpending, events_append]
    exact hi.append (List.Sublist.refl _)

/-- **Events arrive in order and at most once.** In every run of a session and a connection
with the same codec, under every interleaving of their steps:

* the events that the server has dispatched are the first ones of those that its client
  enqueued, one for each event message, in their order;
* while the server is in `Ready` and the client's write task runs, no event is lost: the
  dispatched ones, the one that is due, those on the link and those still in the client's
  channel are all of them;
* the events that the client has dispatched are a subsequence of those of its server. -/
theorem events_in_order (h : (system cfg).Reachable p) :
    Server.Connection.dispatched p.server.log <+: events cfg.server.codec p.client.channel.sent ∧
    (events cfg.server.codec p.client.channel.sent).length =
      countOf .event p.client.channel.sent ∧
    (p.server.state = .ready → p.client.write ≠ .ended →
      Server.Connection.dispatched p.server.log ++ Server.Connection.pending p.server.read ++
        events cfg.server.codec p.toServer.flight ++
        events cfg.server.codec (Link.inHand p.client.write) ++
        events cfg.server.codec p.client.channel.queue =
      events cfg.server.codec p.client.channel.sent) ∧
    (Client.Session.dispatched p.client.log).Sublist
      (events cfg.server.codec p.server.channel.sent) ∧
    (events cfg.server.codec p.server.channel.sent).length =
      countOf .event p.server.channel.sent := by
  have hlines := lines_of_reachable h
  have hserver := server_delivered h
  have hclient := client_sublist h
  refine ⟨?_, ?_, ?_, ?_, ?_⟩
  · exact hserver.behind.trans (hlines.up.arrived_events _)
  · refine length_events ?_
    rw [← cfg.same_codec]
    exact Client.Session.emitted_of_reachable (fun _ _ h => h) (client_reachable h)
  · intro hready hwrite
    have hup : isDown p.server.state = false := by
      rw [hready]
      rfl
    rw [hserver.complete hup]
    exact hlines.up.sent_events hwrite _
  · exact ((List.sublist_append_left _ _).trans hclient).trans
      (hlines.down.arrived_events _).sublist
  · have hemit : (Server.Connection.system cfg.server).Reachable p.server :=
      server_reachable (fun _ _ _ _ _ => trivial) h
    exact length_events (Server.Connection.emitted_of_reachable hemit)

/-! ### No event before the ready packet -/

/-- No state check of an emit of the server runs while it is `Ready` and its ready packet
is not in the channel yet. -/
def emitWaits (p : Pair) : Action → Bool
  | .server a => p.server.emitWaits a
  | _ => true

theorem server_ordered (h : (system cfg).ReachableWhen (fun p a => emitWaits p a = true) p) :
    Server.Connection.Ordered p.server := by
  refine Server.Connection.ordered_of_reachable (server_reachable ?_ h)
  intro p a b ha hb
  cases a with
  | server a =>
    cases hb
    exact ha
  | serverReads =>
    obtain ⟨m, -, rfl⟩ := Option.map_eq_some_iff.mp hb
    rfl
  | _ => cases hb

/-- The client looks at its state for an event of such a server in `Ready`, or too late. -/
theorem client_checking (h : (system cfg).ReachableWhen (fun p a => emitWaits p a = true) p)
    {e : Option String} {d : Option Bytes} (hr : p.client.read = .eventCheck e d) :
    p.client.state = .ready ∨ isDown p.client.state = true := by
  have hagree := agreement_of_reachable h.reachable
  have hcount : ∀ (t : WsIoPacketType) (o : Origin), (∀ o' : Origin, o'.type = some t ↔ o' = o) →
      Client.Session.packetsReceived cfg.client.codec t p.client.log =
        countOf o p.toClient.arrived := by
    intro t o ho
    rw [hagree.clientRead, cfg.same_codec]
    refine Link.countP_carries ?_ ho
    intro m hm
    obtain ⟨hauth, hping⟩ := hagree.down.good m (by simp [Link.taken, hm])
    exact ⟨hauth, fun _ => hping⟩
  -- the event packet arrived, hence the ready packet did
  have hevent := Client.Session.checking_of_reachable (client_reachable h) e d hr
  rw [hcount .event .event (by intro o; cases o <;> decide)] at hevent
  have hready := (server_ordered h).ordered.arrived (lines_of_reachable h).down.arrived hevent
  rw [← hcount .ready .ready (by intro o; cases o <;> decide)] at hready
  exact hagree.client.reading.settled hready (by rw [hr]; rfl) (by rw [hr]; simp)

theorem client_delivered (h : (system cfg).ReachableWhen (fun p a => emitWaits p a = true) p) :
    Delivered (Client.Session.dispatched p.client.log) (Client.Session.pending p.client.read)
      (events cfg.server.codec p.toClient.arrived) (isDown p.client.state) := by
  refine h.invariant (I := fun p => Delivered (Client.Session.dispatched p.client.log)
    (Client.Session.pending p.client.read) (events cfg.server.codec p.toClient.arrived)
    (isDown p.client.state)) ⟨List.prefix_rfl, fun _ => rfl⟩ ?_
  intro p a p' hr _ hs hi
  have hagree := agreement_of_reachable hr.reachable
  rcases step_cases hs with ⟨b, server, -, -, rfl⟩ | ⟨b, client, hb, hf, -, rfl⟩ |
    ⟨m, rest, server, -, -, rfl⟩ | ⟨m, rest, client, hw, hb, rfl⟩
  · exact hi
  · refine hi.handles (Client.Session.step_handles hb hf hagree.client.unread) ?_ ?_ ?_
    · intro hready
      rw [hready]
      rfl
    · intro hready hq
      obtain ⟨e, d, he⟩ := Client.Session.pending_eventCheck hq
      exact (client_checking hr he).resolve_left hready
    · exact Client.Session.step_isDown (client_reachable hr).reachable hb
  · exact hi
  · obtain ⟨hlog, hq, hst, hpending⟩ := client_receives hagree hw hb
    rw [hq] at hi
    simp only [hlog, hst, hpending, events_append]
    exact hi.receive _

/-- **Events of the server arrive exactly.** In every run in which no emit of the server
looks at the state between the transition to `Ready` and the enqueueing of the ready
packet, the client dispatches the first ones of the events that its server enqueued, and
while the client is in `Ready` and the server's write task runs, no event is lost. -/
theorem events_delivered
    (h : (system cfg).ReachableWhen (fun p a => emitWaits p a = true) p) :
    Client.Session.dispatched p.client.log <+: events cfg.server.codec p.server.channel.sent ∧
    (p.client.state = .ready → p.server.write ≠ .ended →
      Client.Session.dispatched p.client.log ++ Client.Session.pending p.client.read ++
        events cfg.server.codec p.toClient.flight ++
        events cfg.server.codec (Link.inHand p.server.write) ++
        events cfg.server.codec p.server.channel.queue =
      events cfg.server.codec p.server.channel.sent) := by
  have hlines := lines_of_reachable h
  have hclient := client_delivered h
  refine ⟨hclient.behind.trans (hlines.down.arrived_events _), fun hready hwrite => ?_⟩
  have hup : isDown p.client.state = false := by
    rw [hready]
    rfl
  rw [hclient.complete hup]
  exact hlines.down.sent_events hwrite _

/-- A handshake, an event in each direction, and the checks of the state for both. -/
def eventsRun : List Action := List.flatten [handshakeRun, [.server (.read .go)],
  [.server (.start 0 (.emit "b" none)), .server (.caller 0), .server (.caller 0)],
  List.replicate 2 (.server (.write .go)), [.clientReads, .client (.read .go)]]

theorem eventsRun_reachable : ∃ p, (system postcard).ReachableWhen
    (fun p a => emitWaits p a = true) p ∧ p.server.state = .ready ∧ p.client.write ≠ .ended ∧
      Server.Connection.dispatched p.server.log = [("a", none)] ∧
      Client.Session.dispatched p.client.log = [("b", none)] := by
  obtain ⟨p, hr, hp⟩ := System.exists_reachableWhen_of_execWhen (S := system postcard)
    (g := emitWaits) (l := eventsRun)
    (p := fun p => decide (p.server.state = .ready ∧ p.client.write ≠ .ended ∧
      Server.Connection.dispatched p.server.log = [("a", none)] ∧
      Client.Session.dispatched p.client.log = [("b", none)])) (by decide +kernel)
  exact ⟨p, hr, of_decide_eq_true hp⟩

theorem events_in_order_run : ∃ p, (system postcard).Reachable p ∧
    [("a", none)] <+: events postcard.server.codec p.client.channel.sent ∧
    [("b", none)].Sublist (events postcard.server.codec p.server.channel.sent) := by
  obtain ⟨p, hr, -, -, ha, hb⟩ := eventsRun_reachable
  obtain ⟨hserver, -, -, hclient, -⟩ := events_in_order hr.reachable
  rw [ha] at hserver
  rw [hb] at hclient
  exact ⟨p, hr.reachable, hserver, hclient⟩

theorem events_delivered_run : ∃ p, (system postcard).ReachableWhen
    (fun p a => emitWaits p a = true) p ∧
    [("b", none)] <+: events postcard.server.codec p.server.channel.sent := by
  obtain ⟨p, hr, -, -, -, hb⟩ := eventsRun_reachable
  have h := (events_delivered hr).1
  rw [hb] at h
  exact ⟨p, hr, h⟩

end Pair

end WsIo
