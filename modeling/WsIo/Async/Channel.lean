import Mathlib.Data.List.Basic

/-!
# Bounded FIFO channels

A bounded multi-producer channel with one receiver, as tokio's `mpsc::channel`. The
queue holds what was enqueued and not yet received, oldest first; `received` is the
history of what the receiver took out, so `sent = received ++ queue` is the history of
everything ever enqueued. Dropping the receiver closes the channel for senders.

A `send().await` completes by a `trySend` that finds a slot: it cannot complete while the
queue is full. The `try_send` of the library reports `full` instead of waiting, and it does
so also where the free slots are promised to sends that wait, since a slot that `recv` frees
goes to the oldest of them. Who waits is not part of the channel: a statement about what a
`try_send` enqueues asks for a slot beside one for every task that stands at a send
(`Server.Connection.HasRoom`, `Client.Session.HasRoom`).
-/

namespace WsIo.Async

/-- A bounded FIFO channel; the queue never exceeds the capacity. -/
structure Channel (α : Type*) where
  capacity : Nat
  received : List α
  queue : List α
  closed : Bool
  bounded : queue.length ≤ capacity

/-- Why a value was not enqueued. -/
inductive SendError
  | full
  | closed
  deriving DecidableEq, Repr

namespace Channel

variable {α : Type*}

/-- A channel of the given capacity with nothing in it. -/
def new (capacity : Nat) : Channel α where
  capacity := capacity
  received := []
  queue := []
  closed := false
  bounded := Nat.zero_le _

/-- Everything enqueued so far, oldest first. -/
def sent (ch : Channel α) : List α := ch.received ++ ch.queue

/-- There is no free slot. -/
def isFull (ch : Channel α) : Bool := ch.capacity ≤ ch.queue.length

/-- Enqueue a value without waiting, into a slot that is free and promised to nobody. -/
def trySend (ch : Channel α) (a : α) : Except SendError (Channel α) :=
  if ch.closed then .error .closed
  else if h : ch.queue.length < ch.capacity then
    .ok { ch with
      queue := ch.queue ++ [a]
      bounded := by
        rw [List.length_append]
        exact h }
  else .error .full

/-- Take the oldest value out of the queue. -/
def recv (ch : Channel α) : Option (α × Channel α) :=
  match h : ch.queue with
  | [] => none
  | a :: rest => some (a, { ch with
      received := ch.received ++ [a]
      queue := rest
      bounded := by
        have hb := ch.bounded
        rw [h, List.length_cons] at hb
        exact Nat.le_of_succ_le hb })

/-- Drop the receiver. -/
def close (ch : Channel α) : Channel α := { ch with closed := true }

@[simp, grind =] theorem sent_new (n : Nat) : (new n : Channel α).sent = [] := rfl

@[simp, grind =] theorem queue_new (n : Nat) : (new n : Channel α).queue = [] := rfl

@[simp, grind =] theorem received_new (n : Nat) : (new n : Channel α).received = [] := rfl

@[simp, grind =] theorem closed_new (n : Nat) : (new n : Channel α).closed = false := rfl

@[simp, grind =] theorem sent_close (ch : Channel α) : ch.close.sent = ch.sent := rfl

@[simp, grind =] theorem queue_close (ch : Channel α) : ch.close.queue = ch.queue := rfl

@[simp, grind =] theorem received_close (ch : Channel α) : ch.close.received = ch.received := rfl

@[simp, grind =] theorem closed_close (ch : Channel α) : ch.close.closed = true := rfl

/-- What a successful `trySend` does: there was a free slot and a receiver, and the value
is now the newest of the queue. -/
theorem trySend_ok {ch ch' : Channel α} {a : α} (h : ch.trySend a = .ok ch') :
    ch.closed = false ∧ ch'.closed = false ∧ ch'.queue = ch.queue ++ [a] ∧
      ch'.received = ch.received ∧ ch'.sent = ch.sent ++ [a] ∧ ch'.capacity = ch.capacity := by
  unfold trySend at h
  split at h
  · cases h
  · rename_i hc
    split at h
    · cases h
      simp [sent, hc]
    · cases h

@[grind →] theorem closed_trySend {ch ch' : Channel α} {a : α} (h : ch.trySend a = .ok ch') :
    ch'.closed = ch.closed := by
  obtain ⟨h₁, h₂, -⟩ := trySend_ok h
  rw [h₁, h₂]

@[grind →] theorem sent_trySend {ch ch' : Channel α} {a : α} (h : ch.trySend a = .ok ch') :
    ch'.sent = ch.sent ++ [a] := (trySend_ok h).2.2.2.2.1

@[grind →] theorem received_trySend {ch ch' : Channel α} {a : α} (h : ch.trySend a = .ok ch') :
    ch'.received = ch.received := (trySend_ok h).2.2.2.1

theorem trySend_closed {ch : Channel α} {a : α} (h : ch.trySend a = .error .closed) :
    ch.closed = true := by
  unfold trySend at h
  split at h
  · assumption
  · split at h <;> cases h

theorem trySend_full {ch : Channel α} {a : α} (h : ch.trySend a = .error .full) :
    ch.isFull = true := by
  unfold trySend at h
  split at h
  · cases h
  · split at h
    · cases h
    · rename_i hlt
      simpa [isFull] using hlt

/-- What `recv` does: the oldest value of the queue moves to the history. -/
theorem recv_some {ch ch' : Channel α} {a : α} (h : ch.recv = some (a, ch')) :
    ch.queue = a :: ch'.queue ∧ ch'.received = ch.received ++ [a] ∧ ch'.sent = ch.sent ∧
      ch'.closed = ch.closed ∧ ch'.capacity = ch.capacity := by
  unfold recv at h
  split at h
  · cases h
  · rename_i b rest hq
    cases h
    simp [sent, hq]

theorem recv_none {ch : Channel α} (h : ch.recv = none) : ch.queue = [] := by
  unfold recv at h
  split at h
  · assumption
  · cases h

end Channel

end WsIo.Async
