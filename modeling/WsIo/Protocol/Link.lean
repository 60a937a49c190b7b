import WsIo.Core.Wire

/-!
# A FIFO link from one end to the other

The websocket carries in order what the write task of one end sends to the read task of
the other. `Carried` relates the link to the sending end: what arrived, what is in flight
and what the write task holds come from the messages the write task took from its
channel, so no packet is duplicated on the way. (The server sends one more disconnect
packet, to a request that it rejects.)
-/

namespace WsIo.Core

open Async

/-- One direction of the websocket: what arrived and what is in flight, oldest first. -/
structure Link where
  arrived : List Outgoing
  flight : List Outgoing

namespace Link

def empty : Link := ⟨[], []⟩

/-- The write task sends messages. -/
def push (w : Link) (l : List Outgoing) : Link := { w with flight := w.flight ++ l }

/-- The message the write task is sending. -/
def inHand : WritePc → List Outgoing
  | .sending m => [m]
  | _ => []

/-- What a step of the write task puts on the link. -/
def written (pc : WritePc) : WriteInput → List Outgoing
  | .go => inHand pc
  | _ => []

/-- Everything the write task took from its channel and did not lose. -/
def taken (w : Link) (pc : WritePc) : List Outgoing := w.arrived ++ w.flight ++ inHand pc

/-- The link holds good messages, and no more of any origin than the write task took. -/
structure Carried {σ : Type} (good : Outgoing → Prop) (e : Endpoint σ) (pc : WritePc)
    (w : Link) : Prop where
  good : ∀ m ∈ w.taken pc, good m
  bounded : ∀ o, o ≠ .disconnect → countOf o (w.taken pc) ≤ countOf o e.channel.received

section

variable {σ : Type} {good : Outgoing → Prop} {e e' : Endpoint σ} {pc pc' : WritePc} {w : Link}

theorem Carried.empty (e : Endpoint σ) (h : inHand pc = []) :
    Carried good e pc Link.empty := by
  constructor <;> simp [taken, Link.empty, h]

/-- A step that leaves the history of the channel alone and gives the write task nothing
new. -/
theorem Carried.frame (h : Carried good e pc w) (hr : e'.channel.received = e.channel.received)
    (hp : pc' = pc ∨ inHand pc' = []) : Carried good e' pc' w := by
  have hsub : ∀ m ∈ w.taken pc', m ∈ w.taken pc := by
    rcases hp with rfl | hp
    · exact fun _ h => h
    · intro m hm
      simp only [taken, hp, List.append_nil] at hm
      exact List.mem_append_left _ hm
  have hle : ∀ o, countOf o (w.taken pc') ≤ countOf o (w.taken pc) := by
    intro o
    rcases hp with rfl | hp
    · exact Nat.le_refl _
    · simp [taken, hp]
  refine ⟨fun m hm => h.good m (hsub m hm), fun o ho => ?_⟩
  rw [hr]
  exact Nat.le_trans (hle o) (h.bounded o ho)

/-- A step of the write task moves its message on. -/
theorem Carried.writeStep {aborted : Bool} {i : WriteInput}
    (h : Carried good e pc w) (hg : ∀ m ∈ e.channel.sent, good m)
    (hs : e.writeStep pc aborted i = some (e', pc')) :
    Carried good e' pc' (w.push (written pc i)) := by
  rcases Endpoint.writeStep_cases hs with ⟨m, ch, rfl, rfl, rfl, hr, rfl⟩ |
    ⟨m, rfl, rfl, -, rfl, rfl⟩ | ⟨rfl, rfl, hp⟩
  · -- the next message of the channel
    obtain ⟨hq, hrec, -, -, -⟩ := Channel.recv_some hr
    have hm : m ∈ e.channel.sent := by simp [Channel.sent, hq]
    obtain ⟨h₁, h₂⟩ := h
    constructor
    · intro m' hm'
      simp only [taken, push, written, inHand, List.append_nil, List.mem_append,
        List.mem_singleton] at hm' h₁
      rcases hm' with hm' | rfl
      · exact h₁ m' hm'
      · exact hg m' hm
    · intro o ho
      have := h₂ o ho
      simp only [taken, push, written, inHand, List.append_nil] at this ⊢
      rw [hrec, countOf_append, countOf_append _ _ [m]]
      omega
  · -- the message is on its way
    obtain ⟨h₁, h₂⟩ := h
    constructor
    · intro m' hm'
      refine h₁ m' ?_
      simpa [taken, push, written, inHand, or_assoc] using hm'
    · intro o ho
      have := h₂ o ho
      simpa [taken, push, written, inHand, Nat.add_assoc] using this
  · -- the task ended, with or without having sent its message
    obtain ⟨h₁, h₂⟩ := h
    constructor
    · intro m' hm'
      refine h₁ m' ?_
      cases i <;> rcases hp with rfl | ⟨m, rfl⟩ <;>
        simp [taken, push, written, inHand] at hm' ⊢ <;> tauto
    · intro o ho
      refine Nat.le_trans ?_ (h₂ o ho)
      cases i <;> rcases hp with rfl | ⟨m, rfl⟩ <;>
        simp [taken, push, written, inHand]

/-- The disconnect packet of a rejected request. -/
theorem Carried.push_disconnect {m : Outgoing} (h : Carried good e pc w) (hm : good m)
    (ho : m.origin = .disconnect) : Carried good e pc (w.push [m]) := by
  obtain ⟨h₁, h₂⟩ := h
  constructor
  · intro m' hm'
    simp only [taken, push, List.mem_append, List.mem_singleton] at hm' h₁
    rcases hm' with (hm' | hm' | rfl) | hm'
    · exact h₁ m' (.inl (.inl hm'))
    · exact h₁ m' (.inl (.inr hm'))
    · exact hm
    · exact h₁ m' (.inr hm')
  · intro o ho'
    have := h₂ o ho'
    have hne : m.origin ≠ o := fun h => ho' (h ▸ ho)
    simpa [taken, push, hne] using this

/-- The other end reads the oldest message in flight. -/
theorem Carried.deliver {m : Outgoing} {rest : List Outgoing} (h : Carried good e pc w)
    (hw : w.flight = m :: rest) :
    Carried good e pc { arrived := w.arrived ++ [m], flight := rest } := by
  obtain ⟨h₁, h₂⟩ := h
  have he : ({ arrived := w.arrived ++ [m], flight := rest } : Link).taken pc = w.taken pc := by
    simp [taken, hw]
  rw [← he] at h₁
  exact ⟨h₁, fun o ho => by rw [he]; exact h₂ o ho⟩

/-- What arrived is bounded by what was ever enqueued. -/
theorem Carried.arrived_le (h : Carried good e pc w) {o : Origin} (ho : o ≠ .disconnect) :
    countOf o w.arrived ≤ countOf o e.channel.sent := by
  have hb := h.bounded o ho
  simp only [taken, countOf_append] at hb
  simp only [Channel.sent, countOf_append]
  omega

end

/-- Among authentic messages, those that carry a packet type are those of its origin. -/
theorem countP_carries {codec : PacketCodec} {heartbeats : Bool} {l : List Outgoing}
    (h : ∀ m ∈ l, Authentic codec m ∧ (heartbeats = false → m.origin ≠ .ping))
    {t : WsIoPacketType} {o : Origin} (ho : ∀ o' : Origin, o'.type = some t ↔ o' = o) :
    l.countP (fun m => carries codec heartbeats t m.message) = countOf o l := by
  unfold countOf
  refine List.countP_congr ?_
  intro m hm
  obtain ⟨ha, hp⟩ := h m hm
  simp [ha.carries_eq heartbeats hp t, ho]

end Link

end WsIo.Core
