import Mathlib.Data.Finset.Card
import WsIo.Client.Steps
import WsIo.Server.Steps

/-!
# Closing and the close frame

`close` stores `Closing` and then tries to enqueue a close frame, with `try_send` on the
bounded message channel and its result discarded. When the channel has no slot for it the
frame is lost for good, since every later `close` returns early: `close_frame_lost` runs
both ends into that state. A slot that becomes free goes to a send that waits, so a
`try_send` needs one beside those of all tasks that stand at a send (`HasRoom`).
`close_frame_delivered` shows that the lack of such a slot is the only way to lose the frame.
-/

namespace WsIo

open Async Core

/-! ## The server connection -/

namespace Server.Connection

variable {cfg : NamespaceConfig} {c c' : Connection}

theorem step_beforeWrite {a : Action} (h : step cfg c a = some c')
    (hb : c'.main.beforeWrite = true) : c.main.beforeWrite = true := by
  cases a with
  | main i =>
    simp only [step] at h
    cases i with
    | go =>
      simp only [mainStep] at h
      unfold mainGo at h
      obtain ⟨w, t, hw⟩ := abortInitTimeout_eq c
      split at h
      all_goals grind [tryTransition, ensure, sendPacket_ok, MainPc.beforeWrite, MainPc.created,
        afterRemove_cases]
    | _ => grind [mainStep, MainPc.beforeWrite, MainPc.created]
  | read i =>
    obtain ⟨hm, -⟩ := readStep_frame h
    rwa [hm] at hb
  | write i =>
    obtain ⟨e, pc, -, rfl, -⟩ := writeStep_some h
    exact hb
  | watch i =>
    obtain ⟨e, pc, -, rfl, -⟩ := watchStep_some h
    exact hb
  | start k job => grind [step, setCaller]
  | caller k =>
    simp only [step] at h
    unfold callerStep at h
    split at h
    all_goals grind [ensure, sendPacket_ok, enqueue_ok, setCaller]
  | drop k => grind [step, setCaller]

/-- The receiver lives as long as the write task. -/
structure Writing (c : Connection) : Prop where
  closed : c.channel.closed = true ↔ c.write = .ended
  unspawned : c.main.beforeWrite = true → c.write = .absent

theorem writing_step {a : Action} (h : step cfg c a = some c') (hw : Writing c) :
    Writing c' := by
  rcases step_write h with ⟨hwrite, hclosed, -⟩ | ⟨hm, hm', hwrite, hch⟩ | ⟨i, e, pc, rfl, he, rfl⟩
  · refine ⟨?_, fun hb => ?_⟩
    · rw [hwrite, hclosed]
      exact hw.closed
    · rw [hwrite]
      exact hw.unspawned (step_beforeWrite h hb)
  · refine ⟨?_, fun hb => ?_⟩
    · rw [hwrite, hch, hw.closed, hw.unspawned (by rw [hm]; rfl)]
      simp
    · rw [hm'] at hb
      cases hb
  · refine ⟨Endpoint.writeStep_closed he hw.closed, fun hb => ?_⟩
    have habsent := hw.unspawned hb
    rcases Endpoint.writeStep_cases he with ⟨m, ch, -, hp, -⟩ | ⟨m, -, hp, -⟩ | ⟨-, -, hp | ⟨m, hp⟩⟩ <;>
      rw [habsent] at hp <;> cases hp

theorem writing_of_reachable {guard : Connection → Action → Prop}
    (h : (system cfg).ReachableWhen guard c) : Writing c :=
  h.invariant (I := Writing) ⟨by simp [system, initial], fun _ => rfl⟩
    fun _ _ _ _ _ hs hi => writing_step hs hi

/-- There is a slot beside one for every task that stands at a send, or there is no
receiver. -/
def HasRoom (c : Connection) : Prop :=
  c.channel.closed = true ∨ ∃ ks : Finset Nat, (∀ k, (c.callers k).sends = true → k ∈ ks) ∧
    c.channel.queue.length + ks.card + c.main.sends.toNat + c.read.sends.toNat < c.channel.capacity

theorem HasRoom.slot (h : c.HasRoom) : c.channel.isFull = false ∨ c.channel.closed = true := by
  rcases h with hc | ⟨ks, -, hlt⟩
  · exact .inr hc
  · exact .inl (by simp [Channel.isFull]; omega)

/-- A `close` call that gets to its `try_send` finds room. -/
def CloseHasRoom (c : Connection) (a : Action) : Prop := closeSends c a = true → c.HasRoom

theorem closeDelivered_step {a : Action} (h : step cfg c a = some c') (ha : c.CloseHasRoom a)
    (hd : c.CloseDelivered) : c'.CloseDelivered := by
  rcases step_close h with ⟨hc, he⟩ | ⟨-, hr⟩
  · rw [he]
    exact Endpoint.closeDelivered_sendClose (ha hc).slot
  · exact hd.extends (step_extends h) hr

theorem closeDelivered_of_reachable (h : (system cfg).ReachableWhen CloseHasRoom c)
    (hc : c.closeReturned = true) : Endpoint.closeMessage ∈ c.channel.sent ∨ c.write = .ended := by
  have hd : c.CloseDelivered := h.invariant (I := fun c => c.CloseDelivered)
    (by intro hr; cases hr) fun _ _ _ _ ha hs hi => closeDelivered_step hs ha hi
  rcases hd hc with hm | hm
  · exact .inl hm
  · exact .inr ((writing_of_reachable h).closed.mp hm)

/-- In the run only callers below `n` are started, and each `try_send` of a `close` finds a
slot beside one for each of these and for the two tasks of the connection. -/
def fewCallers (n : Nat) (c : Connection) (a : Action) : Bool :=
  (match a with
    | .start k _ => k < n
    | _ => true) &&
  (!closeSends c a || c.channel.queue.length + n + 2 < c.channel.capacity)

theorem idle_of_fewCallers {n k : Nat}
    (h : (system cfg).ReachableWhen (fun c a => fewCallers n c a = true) c) (hk : n ≤ k) :
    c.callers k = .idle := by
  refine h.invariant (I := fun c => c.callers k = .idle) rfl ?_
  intro c a c' _ ha hs hi
  refine step_idle hs hi ?_
  rintro job rfl
  simp only [fewCallers, Bool.and_eq_true, decide_eq_true_eq] at ha
  omega

/-- Such a run finds room for every close frame. -/
theorem closeHasRoom_of_fewCallers {n : Nat} {a : Action}
    (h : (system cfg).ReachableWhen (fun c a => fewCallers n c a = true) c)
    (ha : fewCallers n c a = true) : c.CloseHasRoom a := by
  refine fun hs => .inr ⟨Finset.range n, fun k hk => ?_, ?_⟩
  · rw [Finset.mem_range]
    by_contra hn
    rw [idle_of_fewCallers h (Nat.le_of_not_lt hn)] at hk
    cases hk
  · have hlt : c.channel.queue.length + n + 2 < c.channel.capacity := by
      simpa [fewCallers, hs] using (Bool.and_eq_true_iff.mp ha).2
    have hmain := Bool.toNat_le c.main.sends
    have hread := Bool.toNat_le c.read.sends
    rw [Finset.card_range]
    omega

end Server.Connection

/-! ## The client session -/

namespace Client.Session

variable {cfg : ClientConfig} {s s' : Session}

theorem step_beforeWrite {a : Action} (h : step cfg s a = some s')
    (hb : s'.owner.beforeWrite = true) : s.owner.beforeWrite = true := by
  cases a with
  | owner i =>
    simp only [step] at h
    cases i with
    | go =>
      simp only [ownerStep] at h
      unfold ownerGo at h
      obtain ⟨w₁, t₁, h₁⟩ := abortInitTimeout_eq s
      obtain ⟨w₂, t₂, h₂⟩ := abortReadyTimeout_eq s
      obtain ⟨w₃, t₃, h₃⟩ := abortPing_eq s
      split at h
      all_goals grind [→ awaitTask_cases, OwnerPc.beforeWrite, OwnerPc.beforeRead]
    | _ => grind [ownerStep, OwnerPc.beforeWrite, OwnerPc.beforeRead]
  | read i =>
    obtain ⟨hm, -⟩ := readStep_frame h
    rwa [hm] at hb
  | write i =>
    obtain ⟨e, pc, -, rfl, -⟩ := writeStep_some h
    exact hb
  | initWatch i =>
    obtain ⟨e, pc, -, rfl, -⟩ := initWatchStep_some h
    exact hb
  | readyWatch i =>
    obtain ⟨e, pc, -, rfl, -⟩ := readyWatchStep_some h
    exact hb
  | ping i => cases i <;> grind [step, pingStep, enqueue_ok]
  | emit k m => grind [step, emitStart, setEmitter]
  | emitter k => grind [step, emitterStep, setEmitter, ensure, enqueue_ok]
  | drop k => grind [step, emitDrop, setEmitter]

/-- The receiver lives as long as the write task. -/
structure Writing (s : Session) : Prop where
  closed : s.channel.closed = true ↔ s.write = .ended
  unspawned : s.owner.beforeWrite = true → s.write = .absent

theorem writing_step {a : Action} (h : step cfg s a = some s') (hw : Writing s) :
    Writing s' := by
  rcases step_write h with ⟨hwrite, hclosed, -⟩ | ⟨hm, hm', hwrite, hch⟩ | ⟨i, e, pc, rfl, he, rfl⟩
  · refine ⟨?_, fun hb => ?_⟩
    · rw [hwrite, hclosed]
      exact hw.closed
    · rw [hwrite]
      exact hw.unspawned (step_beforeWrite h hb)
  · refine ⟨?_, fun hb => ?_⟩
    · rw [hwrite, hch, hw.closed, hw.unspawned (by rw [hm]; rfl)]
      simp
    · rw [hm'] at hb
      cases hb
  · refine ⟨Endpoint.writeStep_closed he hw.closed, fun hb => ?_⟩
    have habsent := hw.unspawned hb
    rcases Endpoint.writeStep_cases he with ⟨m, ch, -, hp, -⟩ | ⟨m, -, hp, -⟩ | ⟨-, -, hp | ⟨m, hp⟩⟩ <;>
      rw [habsent] at hp <;> cases hp

theorem writing_of_reachable {guard : Session → Action → Prop}
    (h : (system cfg).ReachableWhen guard s) : Writing s :=
  h.invariant (I := Writing) ⟨by simp [system, initial], fun _ => rfl⟩
    fun _ _ _ _ _ hs hi => writing_step hs hi

/-- There is a slot beside one for every task that stands at a send, or there is no
receiver. -/
def HasRoom (s : Session) : Prop :=
  s.channel.closed = true ∨ ∃ ks : Finset Nat, (∀ k, (s.emitters k).sends = true → k ∈ ks) ∧
    s.channel.queue.length + ks.card + s.read.sends.toNat + s.ping.sends.toNat < s.channel.capacity

theorem HasRoom.slot (h : s.HasRoom) : s.channel.isFull = false ∨ s.channel.closed = true := by
  rcases h with hc | ⟨ks, -, hlt⟩
  · exact .inr hc
  · exact .inl (by simp [Channel.isFull]; omega)

/-- A `close` call that gets to its `try_send` finds room. -/
def CloseHasRoom (s : Session) (a : Action) : Prop := closeSends s a = true → s.HasRoom

theorem closeDelivered_step {a : Action} (h : step cfg s a = some s') (ha : s.CloseHasRoom a)
    (hd : s.CloseDelivered) : s'.CloseDelivered := by
  rcases step_close h with ⟨hc, he⟩ | ⟨-, hr⟩
  · rw [he]
    exact Endpoint.closeDelivered_sendClose (ha hc).slot
  · exact hd.extends (step_extends h) hr

theorem closeDelivered_of_reachable (h : (system cfg).ReachableWhen CloseHasRoom s)
    (hc : s.closeReturned = true) : Endpoint.closeMessage ∈ s.channel.sent ∨ s.write = .ended := by
  have hd : s.CloseDelivered := h.invariant (I := fun s => s.CloseDelivered)
    (by intro hr; cases hr) fun _ _ _ _ ha hs hi => closeDelivered_step hs ha hi
  rcases hd hc with hm | hm
  · exact .inl hm
  · exact .inr ((writing_of_reachable h).closed.mp hm)

/-- In the run only emitters below `n` are started, and each `try_send` of a `close` finds a
slot beside one for each of these and for the read and the ping task. -/
def fewEmitters (n : Nat) (s : Session) (a : Action) : Bool :=
  (match a with
    | .emit k _ => k < n
    | _ => true) &&
  (!closeSends s a || s.channel.queue.length + n + 2 < s.channel.capacity)

theorem idle_of_fewEmitters {n k : Nat}
    (h : (system cfg).ReachableWhen (fun s a => fewEmitters n s a = true) s) (hk : n ≤ k) :
    s.emitters k = .idle := by
  refine h.invariant (I := fun s => s.emitters k = .idle) rfl ?_
  intro s a s' _ ha hs hi
  rcases step_emitter hs k with he | ⟨m, rfl, -⟩ | rfl | rfl
  · rw [he, hi]
  · simp only [fewEmitters, Bool.and_eq_true, decide_eq_true_eq] at ha
    omega
  · simp [system, step, emitterStep, hi] at hs
  · simp [system, step, emitDrop, hi] at hs

/-- Such a run finds room for every close frame. -/
theorem closeHasRoom_of_fewEmitters {n : Nat} {a : Action}
    (h : (system cfg).ReachableWhen (fun s a => fewEmitters n s a = true) s)
    (ha : fewEmitters n s a = true) : s.CloseHasRoom a := by
  refine fun hs => .inr ⟨Finset.range n, fun k hk => ?_, ?_⟩
  · rw [Finset.mem_range]
    by_contra hn
    rw [idle_of_fewEmitters h (Nat.le_of_not_lt hn)] at hk
    cases hk
  · have hlt : s.channel.queue.length + n + 2 < s.channel.capacity := by
      simpa [fewEmitters, hs] using (Bool.and_eq_true_iff.mp ha).2
    have hread := Bool.toNat_le s.read.sends
    have hping := Bool.toNat_le s.ping.sends
    rw [Finset.card_range]
    omega

end Client.Session

/-! ## Both ends -/

/-- **A close frame for every close that finds room.** On either end, in every run in
which each `close` call that gets to its `try_send` finds a slot in the message channel
beside those for the tasks that stand at a send (or the write task already ended): when a
`close` has stored `Closing` and returned, its close frame is in the channel, or was taken
from it by the write task, or the write task has ended. -/
theorem close_frame_delivered (serverCfg : Server.NamespaceConfig)
    (clientCfg : Client.ClientConfig) :
    (∀ c : Server.Connection,
      (Server.Connection.system serverCfg).ReachableWhen Server.Connection.CloseHasRoom c →
      c.closeReturned = true → Endpoint.closeMessage ∈ c.channel.sent ∨ c.write = .ended) ∧
    (∀ s : Client.Session,
      (Client.Session.system clientCfg).ReachableWhen Client.Session.CloseHasRoom s →
      s.closeReturned = true → Endpoint.closeMessage ∈ s.channel.sent ∨ s.write = .ended) :=
  ⟨fun _ h hc => Server.Connection.closeDelivered_of_reachable h hc,
    fun _ h hc => Client.Session.closeDelivered_of_reachable h hc⟩

namespace Server.Connection

/-- A handshake without handlers, up to the enqueued ready packet. -/
def readyRun : List Action := List.flatten [
  [.main .go, .main (.upgraded true), .main (.status true), .main (.status true)],
  List.replicate 8 (.main .go), [.read (.frame (some (some (.binary [2, 0, 0]))))],
  List.replicate 13 (.read .go)]

/-- The peer reads nothing while the handlers emit until the channel is full; then one
`close` call. -/
def fullRun : List Action := List.flatten [readyRun,
  (List.range 62).flatMap fun k => [.start k (.emit "a" none), .caller k, .caller k],
  [.start 62 .close, .caller 62, .caller 62, .caller 62]]

end Server.Connection

namespace Client.Session

/-- A handshake without handlers, up to the state `Ready`. -/
def readyRun : List Action := List.flatten [
  List.replicate 10 (.owner .go), [.read (.frame (some (some (.binary [2, 0, 0]))))],
  List.replicate 8 (.read .go), [.read (.frame (some (some (.binary [3, 0, 0]))))],
  List.replicate 5 (.read .go)]

/-- The peer reads nothing while the send task emits until the channel is full; then the
runtime's cancel token fires. -/
def fullRun : List Action := List.flatten [readyRun,
  (List.range 63).flatMap fun _ => [.emit 0 (.binary [1, 1, 1, 97, 0]), .emitter 0, .emitter 0],
  [.owner .cancelled, .owner .go, .owner .go, .owner .go]]

end Client.Session

theorem close_frame_delivered_run :
    (∃ c, (Server.Connection.system (.postcard false)).Reachable c ∧ c.closeReturned = true ∧
      (Endpoint.closeMessage ∈ c.channel.sent ∨ c.write = .ended)) ∧
    (∃ s, (Client.Session.system (.postcard false)).Reachable s ∧ s.closeReturned = true ∧
      (Endpoint.closeMessage ∈ s.channel.sent ∨ s.write = .ended)) := by
  obtain ⟨c, hr, hc⟩ := System.exists_reachableWhen_of_execWhen
    (S := Server.Connection.system (.postcard false)) (g := Server.Connection.fewCallers 1)
    (l := List.flatten [Server.Connection.readyRun,
      [.start 0 .close, .caller 0, .caller 0, .caller 0]])
    (p := fun c => c.closeReturned) (by decide +kernel)
  obtain ⟨s, hr', hs⟩ := System.exists_reachableWhen_of_execWhen
    (S := Client.Session.system (.postcard false)) (g := Client.Session.fewEmitters 0)
    (l := List.flatten [Client.Session.readyRun,
      [.owner .cancelled, .owner .go, .owner .go, .owner .go]])
    (p := fun s => s.closeReturned) (by decide +kernel)
  exact ⟨⟨c, hr.reachable, hc, (close_frame_delivered _ (.postcard false)).1 c
      (hr.imp fun _ _ => Server.Connection.closeHasRoom_of_fewCallers) hc⟩,
    ⟨s, hr'.reachable, hs, (close_frame_delivered (.postcard false) _).2 s
      (hr'.imp fun _ _ => Client.Session.closeHasRoom_of_fewEmitters) hs⟩⟩

/-- On both ends a `close` that finds the channel full leaves the state `Closing`, the
write task running and no close frame anywhere. -/
theorem close_frame_lost :
    (¬ ∀ c, (Server.Connection.system (.postcard false)).Reachable c → c.closeReturned = true →
      Endpoint.closeMessage ∈ c.channel.sent ∨ c.write = .ended) ∧
    (¬ ∀ s, (Client.Session.system (.postcard false)).Reachable s → s.closeReturned = true →
      Endpoint.closeMessage ∈ s.channel.sent ∨ s.write = .ended) := by
  refine ⟨fun h => ?_, fun h => ?_⟩
  · obtain ⟨c, hr, hc⟩ := System.exists_reachable_of_exec
      (S := Server.Connection.system (.postcard false)) (l := Server.Connection.fullRun)
      (p := fun c => c.closeReturned &&
        !decide (Endpoint.closeMessage ∈ c.channel.sent ∨ c.write = .ended)) (by decide +kernel)
    simp only [Bool.and_eq_true, Bool.not_eq_true', decide_eq_false_iff_not] at hc
    exact hc.2 (h c hr hc.1)
  · obtain ⟨s, hr, hs⟩ := System.exists_reachable_of_exec
      (S := Client.Session.system (.postcard false)) (l := Client.Session.fullRun)
      (p := fun s => s.closeReturned &&
        !decide (Endpoint.closeMessage ∈ s.channel.sent ∨ s.write = .ended)) (by decide +kernel)
    simp only [Bool.and_eq_true, Bool.not_eq_true', decide_eq_false_iff_not] at hs
    exact hs.2 (h s hr hs.1)

end WsIo
