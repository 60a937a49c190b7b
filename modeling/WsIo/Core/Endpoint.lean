import WsIo.Async.Channel
import WsIo.Core.Packet

/-!
# The two ends of a websocket connection

A server connection and a client session share one shape: a state cell
(`AtomicEnumCell`) and the sending half of a bounded message channel that a write task
drains. This file models what both ends do with these two in the same way: `close`,
`send_message` and `emit_event_message`, cut into their atomic accesses.

The state cell's `get`, `is`, `ensure` and `store` are single accesses, and
`try_transition` is a compare-and-swap (`tryTransition`).
-/

namespace WsIo.Core

open Async

/-- `AtomicEnumCell::try_transition`: fails when the current value is not the expected one. -/
def tryTransition {σ : Type} [DecidableEq σ] (current expected new : σ) : Except Error σ :=
  if current = expected then .ok new else .error .transition

/-- `AtomicEnumCell::ensure`: an error with the given text unless the value is the
expected one. -/
def ensure {σ : Type} [DecidableEq σ] (current expected : σ) (message : σ → String) :
    Except Error Unit :=
  if current = expected then .ok () else .error (.text (message current))

/-- The states that `close` and `emit_event_message` name, for both state enumerations. -/
class Lifecycle (σ : Type) where
  ready : σ
  closing : σ
  closed : σ
  ready_ne_closing : ready ≠ closing
  ready_ne_closed : ready ≠ closed

/-- The value is `Closing` or `Closed`. -/
def isDown {σ : Type} [DecidableEq σ] [Lifecycle σ] (s : σ) : Bool :=
  s = Lifecycle.closed || s = Lifecycle.closing

/-- Which call enqueued a message. -/
inductive Origin
  | init
  | ready
  | event
  | disconnect
  | ping
  | close
  deriving DecidableEq, Repr

/-- A message in the outgoing channel, with the call it comes from. -/
structure Outgoing where
  origin : Origin
  message : Message
  deriving DecidableEq, Repr

/-- Both ends clamp the capacity of the channel to at least 64. -/
theorem smallest_capacity_ge : 64 ≤ 64 := Nat.le_refl _

/-- Both ends clamp the capacity of the channel to at most 16384. -/
theorem smallest_capacity_le : 64 ≤ 16384 := by decide

/-- The state cell and the message channel of one end. `closeReturned` records that a
`close` call moved the state to `Closing` and returned. -/
structure Endpoint (σ : Type) where
  state : σ
  channel : Channel Outgoing
  closeReturned : Bool

/-- The atomic accesses of `close`: `state.get()`, `state.store(Closing)`, `try_send`. -/
inductive CloseStep
  | get
  | store
  | send
  deriving DecidableEq, Repr

/-- How a handler run under `timeout` ends. A panic ends the read task as an error does; the
panic of a handler that the main task of an end runs is an input of that task. -/
inductive Outcome
  | ok
  | err
  | timeout
  deriving DecidableEq, Repr

/-- Where the write task stands. -/
inductive WritePc
  | absent
  | recv
  | sending (m : Outgoing)
  | ended
  deriving DecidableEq, Repr

inductive WriteInput
  | go
  | failed
  | stop
  deriving DecidableEq, Repr

/-- Where a watchdog stands: it sleeps, looks at the state and closes the connection when
the awaited packet has not moved it. -/
inductive WatchPc
  | absent
  | sleeping
  | check
  | closing (s : CloseStep)
  | ended
  deriving DecidableEq, Repr

inductive WatchInput
  | go
  | stop
  deriving DecidableEq, Repr

/-- The watchdog's `close` has read the state and not stored `Closing` yet. -/
def WatchPc.storing : WatchPc → Bool
  | .closing .store => true
  | _ => false

namespace Endpoint

variable {σ : Type}

/-- The close frame of `close`. -/
def closeMessage : Outgoing := ⟨.close, .close⟩

/-- The last access of `close`; the result of `try_send` is discarded. -/
def sendClose (e : Endpoint σ) : Endpoint σ :=
  match e.channel.trySend closeMessage with
  | .ok channel => { e with channel, closeReturned := true }
  | .error _ => { e with closeReturned := true }

/-- One access of `close`, and the access that follows (`none`: the call returns). -/
def close [DecidableEq σ] [Lifecycle σ] (e : Endpoint σ) : CloseStep → Endpoint σ × Option CloseStep
  | .get => if isDown e.state then (e, none) else (e, some .store)
  | .store => ({ e with state := Lifecycle.closing }, some .send)
  | .send => (e.sendClose, none)

/-- `send_message`: `none` while the channel is full, since the send waits for a slot. -/
def sendMessage (e : Endpoint σ) (m : Outgoing) : Option (Except Error (Endpoint σ)) :=
  match e.channel.trySend m with
  | .ok channel => some (.ok { e with channel })
  | .error .closed => some (.error .closed)
  | .error .full => none

/-- The write task takes the next message. -/
def recv (e : Endpoint σ) : Option (Outgoing × Endpoint σ) :=
  e.channel.recv.map fun p => (p.1, { e with channel := p.2 })

/-- The write task ends and drops the receiver. -/
def dropReceiver (e : Endpoint σ) : Endpoint σ := { e with channel := e.channel.close }

/-- The write task, the same loop on both ends: `recv`, then `send` on the websocket,
until a send fails, a close frame was sent or an abort takes effect. -/
def writeStep (e : Endpoint σ) (pc : WritePc) (aborted : Bool) :
    WriteInput → Option (Endpoint σ × WritePc)
  | .go =>
    match pc with
    | .recv =>
      match e.recv with
      | none => none
      | some (m, e') => some (e', .sending m)
    | .sending m => if m.message = .close then some (e.dropReceiver, .ended) else some (e, .recv)
    | _ => none
  | .failed =>
    match pc with
    | .sending _ => some (e.dropReceiver, .ended)
    | _ => none
  | .stop =>
    match pc with
    | .recv | .sending _ => if aborted then some (e.dropReceiver, .ended) else none
    | _ => none

/-- A watchdog that closes when the state is still `awaited` after its sleep. -/
def watchStep [DecidableEq σ] [Lifecycle σ] (e : Endpoint σ) (awaited : σ) (pc : WatchPc)
    (aborted : Bool) : WatchInput → Option (Endpoint σ × WatchPc)
  | .go =>
    match pc with
    | .sleeping => some (e, .check)
    | .check => if e.state = awaited then some (e, .closing .get) else some (e, .ended)
    | .closing s =>
      match (e.close s).2 with
      | some s' => some ((e.close s).1, .closing s')
      | none => some ((e.close s).1, .ended)
    | _ => none
  | .stop => if aborted ∧ pc = .sleeping then some (e, .ended) else none

@[simp, grind =] theorem state_dropReceiver (e : Endpoint σ) : e.dropReceiver.state = e.state := rfl

@[simp, grind =] theorem channel_dropReceiver (e : Endpoint σ) :
    e.dropReceiver.channel = e.channel.close := rfl

@[simp, grind =] theorem closeReturned_dropReceiver (e : Endpoint σ) :
    e.dropReceiver.closeReturned = e.closeReturned := rfl

@[simp, grind =] theorem state_sendClose (e : Endpoint σ) : e.sendClose.state = e.state := by
  unfold sendClose
  split <;> rfl

@[simp, grind =] theorem closeReturned_sendClose (e : Endpoint σ) : e.sendClose.closeReturned = true := by
  unfold sendClose
  split <;> rfl

/-- `try_send` of the close frame enqueues it or leaves the channel as it is. -/
theorem channel_sendClose (e : Endpoint σ) :
    e.sendClose.channel = e.channel ∨
      ∃ ch, e.channel.trySend closeMessage = .ok ch ∧ e.sendClose.channel = ch := by
  unfold sendClose
  split
  · rename_i ch h
    exact .inr ⟨ch, h, rfl⟩
  · exact .inl rfl

/-- What a completed `send_message` does. -/
theorem sendMessage_ok {e e' : Endpoint σ} {m : Outgoing} (h : e.sendMessage m = some (.ok e')) :
    ∃ ch, e.channel.trySend m = .ok ch ∧ e' = { e with channel := ch } := by
  unfold sendMessage at h
  split at h
  · rename_i ch hs
    cases h
    exact ⟨ch, hs, rfl⟩
  · cases h
  · cases h

theorem sendMessage_error {e : Endpoint σ} {m : Outgoing} {x : Error}
    (h : e.sendMessage m = some (.error x)) : e.channel.closed = true ∧ x = .closed := by
  unfold sendMessage at h
  split at h
  · cases h
  · rename_i hs
    cases h
    exact ⟨Channel.trySend_closed hs, rfl⟩
  · cases h

theorem recv_some {e e' : Endpoint σ} {m : Outgoing} (h : e.recv = some (m, e')) :
    ∃ ch, e.channel.recv = some (m, ch) ∧ e' = { e with channel := ch } := by
  obtain ⟨⟨a, ch⟩, hr, he⟩ := Option.map_eq_some_iff.mp h
  cases he
  exact ⟨ch, hr, rfl⟩

/-- The accesses of `close`: a read, a store of `Closing`, a `try_send`. -/
theorem close_cases [DecidableEq σ] [Lifecycle σ] (e : Endpoint σ) (s : CloseStep) :
    (s = .get ∧ (e.close s).1 = e) ∨
      (s = .store ∧ (e.close s).1 = { e with state := Lifecycle.closing }) ∨
      (s = .send ∧ (e.close s).1 = e.sendClose) := by
  cases s
  · refine .inl ⟨rfl, ?_⟩
    by_cases h : isDown e.state = true <;> simp [close, h]
  · exact .inr (.inl ⟨rfl, rfl⟩)
  · exact .inr (.inr ⟨rfl, rfl⟩)

/-- What one access of `close` leaves: the state, or `Closing`; the channel, or the
channel with a close frame. -/
theorem close_state [DecidableEq σ] [Lifecycle σ] (e : Endpoint σ) (s : CloseStep) :
    (e.close s).1.state = e.state ∨ (e.close s).1.state = Lifecycle.closing := by
  rcases close_cases e s with ⟨-, h⟩ | ⟨-, h⟩ | ⟨-, h⟩ <;> rw [h] <;> simp

theorem closed_sendClose (e : Endpoint σ) :
    e.sendClose.channel.closed = e.channel.closed := by
  rcases channel_sendClose e with h | ⟨ch, hs, h⟩
  · rw [h]
  · rw [h, Channel.closed_trySend hs]

theorem close_closed [DecidableEq σ] [Lifecycle σ] (e : Endpoint σ) (s : CloseStep) :
    (e.close s).1.channel.closed = e.channel.closed := by
  rcases close_cases e s with ⟨-, h⟩ | ⟨-, h⟩ | ⟨-, h⟩ <;> rw [h]
  exact closed_sendClose e

theorem close_received [DecidableEq σ] [Lifecycle σ] (e : Endpoint σ) (s : CloseStep) :
    (e.close s).1.channel.received = e.channel.received := by
  rcases close_cases e s with ⟨-, h⟩ | ⟨-, h⟩ | ⟨-, h⟩ <;> rw [h]
  rcases channel_sendClose e with hc | ⟨ch, hs, hc⟩
  · rw [hc]
  · rw [hc, Channel.received_trySend hs]

theorem close_sent [DecidableEq σ] [Lifecycle σ] (e : Endpoint σ) (s : CloseStep) :
    (e.close s).1.channel.sent = e.channel.sent ∨
      (e.close s).1.channel.sent = e.channel.sent ++ [closeMessage] := by
  rcases close_cases e s with ⟨-, h⟩ | ⟨-, h⟩ | ⟨-, h⟩
  · rw [h]
    exact .inl rfl
  · rw [h]
    exact .inl rfl
  · rw [h]
    rcases channel_sendClose e with hc | ⟨ch, hs, hc⟩
    · exact .inl (by rw [hc])
    · exact .inr (by rw [hc]; exact Channel.sent_trySend hs)

/-- A step of the write task takes a message, has sent it, or ends the task. -/
theorem writeStep_cases {e e' : Endpoint σ} {pc pc' : WritePc} {aborted : Bool} {i : WriteInput}
    (h : e.writeStep pc aborted i = some (e', pc')) :
    (∃ m ch, i = .go ∧ pc = .recv ∧ pc' = .sending m ∧ e.channel.recv = some (m, ch) ∧
        e' = { e with channel := ch }) ∨
      (∃ m, i = .go ∧ pc = .sending m ∧ m.message ≠ .close ∧ pc' = .recv ∧ e' = e) ∨
      (pc' = .ended ∧ e' = e.dropReceiver ∧ (pc = .recv ∨ ∃ m, pc = .sending m)) := by
  cases i with
  | go =>
    simp only [writeStep] at h
    split at h
    · split at h
      · cases h
      · rename_i m e₁ hr
        cases h
        obtain ⟨ch, hc, rfl⟩ := recv_some hr
        exact .inl ⟨m, ch, rfl, rfl, rfl, hc, rfl⟩
    · rename_i m
      split at h
      · cases h
        exact .inr (.inr ⟨rfl, rfl, .inr ⟨m, rfl⟩⟩)
      · rename_i hne
        cases h
        exact .inr (.inl ⟨m, rfl, rfl, hne, rfl, rfl⟩)
    · cases h
  | failed =>
    simp only [writeStep] at h
    split at h
    · rename_i m
      cases h
      exact .inr (.inr ⟨rfl, rfl, .inr ⟨m, rfl⟩⟩)
    · cases h
  | stop =>
    simp only [writeStep] at h
    split at h
    · split at h
      · cases h
        exact .inr (.inr ⟨rfl, rfl, .inl rfl⟩)
      · cases h
    · rename_i m
      split at h
      · cases h
        exact .inr (.inr ⟨rfl, rfl, .inr ⟨m, rfl⟩⟩)
      · cases h
    · cases h

theorem writeStep_state {e e' : Endpoint σ} {pc pc' : WritePc} {aborted : Bool} {i : WriteInput}
    (h : e.writeStep pc aborted i = some (e', pc')) :
    e'.state = e.state ∧ e'.channel.sent = e.channel.sent ∧
      e'.closeReturned = e.closeReturned := by
  rcases writeStep_cases h with ⟨m, ch, -, -, -, hr, rfl⟩ | ⟨m, -, -, -, -, rfl⟩ | ⟨-, rfl, -⟩
  · exact ⟨rfl, (Channel.recv_some hr).2.2.1, rfl⟩
  · exact ⟨rfl, rfl, rfl⟩
  · exact ⟨rfl, rfl, rfl⟩

/-- A step of a watchdog leaves the endpoint alone or is one access of its `close`. -/
theorem watchStep_cases [DecidableEq σ] [Lifecycle σ] {e e' : Endpoint σ} {awaited : σ}
    {pc pc' : WatchPc} {aborted : Bool} {i : WatchInput}
    (h : e.watchStep awaited pc aborted i = some (e', pc')) :
    (e' = e ∧ ∀ s, pc ≠ .closing s) ∨
      (∃ s, i = .go ∧ pc = .closing s ∧ e' = (e.close s).1 ∧
        pc' = (match (e.close s).2 with | some s' => .closing s' | none => .ended)) := by
  cases i with
  | go =>
    simp only [watchStep] at h
    split at h
    · cases h
      exact .inl ⟨rfl, by simp⟩
    · split at h <;> cases h <;> exact .inl ⟨rfl, by simp⟩
    · rename_i s
      refine .inr ⟨s, rfl, rfl, ?_⟩
      split at h
      · cases h
        simp
      · cases h
        simp
    · cases h
  | stop =>
    simp only [watchStep] at h
    split at h
    · rename_i hp
      cases h
      exact .inl ⟨rfl, by simp [hp.2]⟩
    · cases h

theorem watchStep_state [DecidableEq σ] [Lifecycle σ] {e e' : Endpoint σ} {awaited : σ}
    {pc pc' : WatchPc} {aborted : Bool} {i : WatchInput}
    (h : e.watchStep awaited pc aborted i = some (e', pc')) :
    e'.state = e.state ∨ e'.state = Lifecycle.closing := by
  rcases watchStep_cases h with ⟨rfl, -⟩ | ⟨s, -, -, rfl, -⟩
  · exact .inl rfl
  · exact close_state e s

theorem watchStep_closed [DecidableEq σ] [Lifecycle σ] {e e' : Endpoint σ} {awaited : σ}
    {pc pc' : WatchPc} {aborted : Bool} {i : WatchInput}
    (h : e.watchStep awaited pc aborted i = some (e', pc')) :
    e'.channel.closed = e.channel.closed := by
  rcases watchStep_cases h with ⟨rfl, -⟩ | ⟨s, -, -, rfl, -⟩
  · rfl
  · exact close_closed e s

theorem watchStep_received [DecidableEq σ] [Lifecycle σ] {e e' : Endpoint σ} {awaited : σ}
    {pc pc' : WatchPc} {aborted : Bool} {i : WatchInput}
    (h : e.watchStep awaited pc aborted i = some (e', pc')) :
    e'.channel.received = e.channel.received := by
  rcases watchStep_cases h with ⟨rfl, -⟩ | ⟨s, -, -, rfl, -⟩
  · rfl
  · exact close_received e s

/-- On an end that is going down, a watchdog that is not at the store of its `close` leaves
the state alone and does not get there. -/
theorem watchStep_down [DecidableEq σ] [Lifecycle σ] {e e' : Endpoint σ} {awaited : σ}
    {pc pc' : WatchPc} {aborted : Bool} {i : WatchInput}
    (h : e.watchStep awaited pc aborted i = some (e', pc')) (hd : isDown e.state = true)
    (hs : pc.storing = false) : e'.state = e.state ∧ pc'.storing = false := by
  cases i with
  | go =>
    cases pc with
    | closing a =>
      cases a with
      | get =>
        simp only [watchStep, close, hd, if_true] at h
        cases h
        exact ⟨rfl, rfl⟩
      | store => cases hs
      | send =>
        simp only [watchStep, close] at h
        cases h
        exact ⟨state_sendClose e, rfl⟩
    | check =>
      simp only [watchStep] at h
      split at h <;> cases h <;> exact ⟨rfl, rfl⟩
    | sleeping =>
      cases h
      exact ⟨rfl, rfl⟩
    | _ => cases h
  | stop =>
    simp only [watchStep] at h
    split at h
    · cases h
      exact ⟨rfl, rfl⟩
    · cases h

/-- The receiver is dropped exactly when the write task ends. -/
theorem writeStep_closed {e e' : Endpoint σ} {pc pc' : WritePc} {aborted : Bool} {i : WriteInput}
    (h : e.writeStep pc aborted i = some (e', pc'))
    (hw : e.channel.closed = true ↔ pc = .ended) : e'.channel.closed = true ↔ pc' = .ended := by
  rcases writeStep_cases h with ⟨m, ch, -, rfl, rfl, hr, rfl⟩ | ⟨m, -, rfl, -, rfl, rfl⟩ |
    ⟨rfl, rfl, -⟩
  · rw [(Channel.recv_some hr).2.2.2.1, hw]
    simp
  · rw [hw]
    simp
  · simp

/-! ## What no step undoes -/

/-- A message once enqueued stays in the history, and a dropped receiver stays dropped. -/
structure Extends (e e' : Endpoint σ) : Prop where
  sent : e.channel.sent <+: e'.channel.sent
  closed : e.channel.closed = true → e'.channel.closed = true

theorem Extends.of_channel {e e' : Endpoint σ} (h : e'.channel = e.channel) : e.Extends e' where
  sent := h ▸ List.prefix_rfl
  closed := by
    rw [h]
    exact id

theorem Extends.of_trySend {e e' : Endpoint σ} {m : Outgoing}
    (h : e.channel.trySend m = .ok e'.channel) : e.Extends e' where
  sent := by
    rw [Channel.sent_trySend h]
    exact List.prefix_append _ _
  closed := by
    intro hc
    rw [(Channel.trySend_ok h).1] at hc
    cases hc

theorem Extends.sendClose (e : Endpoint σ) : e.Extends e.sendClose := by
  rcases channel_sendClose e with h | ⟨ch, hs, h⟩
  · exact .of_channel h
  · rw [← h] at hs
    exact .of_trySend hs

theorem Extends.close [DecidableEq σ] [Lifecycle σ] (e : Endpoint σ) (s : CloseStep) :
    e.Extends (e.close s).1 := by
  rcases close_cases e s with ⟨-, h⟩ | ⟨-, h⟩ | ⟨-, h⟩
  · rw [h]
    exact .of_channel rfl
  · rw [h]
    exact .of_channel rfl
  · rw [h]
    exact .sendClose e

theorem Extends.writeStep {e e' : Endpoint σ} {pc pc' : WritePc} {aborted : Bool}
    {i : WriteInput} (h : e.writeStep pc aborted i = some (e', pc')) : e.Extends e' := by
  refine ⟨(writeStep_state h).2.1 ▸ List.prefix_rfl, fun hc => ?_⟩
  rcases writeStep_cases h with ⟨m, ch, -, -, -, hr, rfl⟩ | ⟨m, -, -, -, -, rfl⟩ | ⟨-, rfl, -⟩
  · rw [← hc]
    exact (Channel.recv_some hr).2.2.2.1
  · exact hc
  · rfl

theorem Extends.watchStep [DecidableEq σ] [Lifecycle σ] {e e' : Endpoint σ} {awaited : σ}
    {pc pc' : WatchPc} {aborted : Bool} {i : WatchInput}
    (h : e.watchStep awaited pc aborted i = some (e', pc')) : e.Extends e' := by
  rcases watchStep_cases h with ⟨rfl, -⟩ | ⟨s, -, -, rfl, -⟩
  · exact .of_channel rfl
  · exact .close e s

/-- A `close` call that returned left its close frame: the frame is in the channel or was
taken from it, or the write task has ended. -/
def CloseDelivered (e : Endpoint σ) : Prop :=
  e.closeReturned = true → closeMessage ∈ e.channel.sent ∨ e.channel.closed = true

theorem CloseDelivered.extends {e e' : Endpoint σ} (h : e.CloseDelivered) (he : e.Extends e')
    (hr : e'.closeReturned = e.closeReturned) : e'.CloseDelivered := by
  intro hc
  rw [hr] at hc
  rcases h hc with hm | hm
  · exact .inl (he.sent.subset hm)
  · exact .inr (he.closed hm)

/-- With a free slot, or with no receiver left, `try_send` of the close frame is as good
as a send. -/
theorem closeDelivered_sendClose {e : Endpoint σ}
    (h : e.channel.isFull = false ∨ e.channel.closed = true) : e.sendClose.CloseDelivered := by
  intro _
  unfold Endpoint.sendClose
  split
  · rename_i ch hs
    refine .inl ?_
    rw [Channel.sent_trySend hs]
    exact List.mem_append_right _ (List.mem_singleton_self _)
  · rename_i x hs
    cases x with
    | closed => exact .inr (Channel.trySend_closed hs)
    | full =>
      rcases h with hf | hc
      · rw [Channel.trySend_full hs] at hf
        cases hf
      · exact .inr hc

end Endpoint

end WsIo.Core
