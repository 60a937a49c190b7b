import Mathlib.Data.Set.Card
import WsIo.Protocol.CloseFrame
import WsIo.Server.Exchange
import WsIo.Server.Registration

/-!
# The way to the end of a connection

The task of an upgrade request ends with `cleanup`, which it reaches over its read and its
write task. As long as every `close` has found room for its frame and no handler has taken
the task down, the connection is stuck nowhere:

* `close_leads_to_finished`: once a `close` call has returned, the tasks of the connection
  can bring it to its end by themselves. They need neither a frame of the peer nor a failure
  of the transport, only that the handlers return.
* `hangup_leads_to_finished`: from any state, the end of the peer's stream leads there.

Both say that a path to the end exists. A path drains the channel before anything is sent,
and lets the calls that stand at a send go first, so that no step of it takes a slot that is
promised to another send.
-/

namespace WsIo.Server

open Async Core

/-- The error path of `handle_upgraded_request` has aborted the read task and not seen its
end yet. -/
def MainPc.joining : MainPc → Bool
  | .failClose _ | .join => true
  | _ => false

/-- How far the main task is from its end, with the number of joined rooms. A step that
may enqueue a message counts for what the write task then has to do. -/
def MainPc.left (rooms : Nat) : MainPc → Nat
  | .rejected | .finished | .initPanicked | .closePanicked => 0
  | .storeClosed | .reject => 1
  | .awaitingOnClose => 2
  | .onClose => 3
  | .cancel => 4
  | .abortInitTimeout => 5
  | .clearRooms => 6
  | .leaveRooms rest => 7 + 2 * rest.length
  | .dropRoom _ rest => 8 + 2 * rest.length
  | .snapshotRooms => 8 + 2 * rooms
  | .remove .connectionIds => 9 + 2 * rooms
  | .remove .runtimeIds => 10 + 2 * rooms
  | .remove .connections => 11 + 2 * rooms
  | .cleanupStore => 12 + 2 * rooms
  | .join => 13 + 2 * rooms
  | .failClose .send => 16 + 2 * rooms
  | .failClose .store => 17 + 2 * rooms
  | .failClose .get => 18 + 2 * rooms
  | .failAbort => 19 + 2 * rooms
  | .select => 20 + 2 * rooms
  | .sendInit _ => 23 + 2 * rooms
  | .storeWatch _ => 24 + 2 * rooms
  | .spawnWatch _ => 25 + 2 * rooms
  | .initTransition _ => 26 + 2 * rooms
  | .awaitingInitRequest => 27 + 2 * rooms
  | .initRequest => 28 + 2 * rooms
  | .initEnsure => 29 + 2 * rooms
  | .spawnWrite => 30 + 2 * rooms
  | .spawnRead => 31 + 2 * rooms
  | .checkNamespace => 32 + 2 * rooms
  | .checkRuntime => 33 + 2 * rooms
  | .upgrading => 34 + 2 * rooms
  | .absent => 35 + 2 * rooms

/-- How far the read task is from its end when no more packets come. -/
def ReadPc.left : ReadPc → Nat
  | .ended => 0
  | .absent | .next => 1
  | .eventCheck _ _ | .spawnOnReady => 2
  | .sendReady => 5
  | .insert .connectionIds => 6
  | .insert .runtimeIds => 7
  | .insert .connections => 8
  | .readyTransition => 9
  | .awaiting .onConnect => 10
  | .onConnect => 11
  | .ensureActivating => 12
  | .awaiting .middleware => 13
  | .middleware => 14
  | .activate => 15
  | .awaiting _ => 16
  | .initResponse _ => 17
  | .abortInitTimeout _ => 18
  | .initTransition _ => 19
  | .initGet _ => 20

/-- A step that the tasks of the connection take without the peer, without a new call and
without a panic. -/
def Action.own : Action → Bool
  | .main .panicked => false
  | .main _ | .read .go | .read (.outcome _) | .read .stop | .write .go | .write .stop => true
  | _ => false

namespace Connection

variable {cfg : NamespaceConfig} {c c' : Connection}

/-! ## The tasks are spawned and aborted in time -/

/-- Which tasks have been spawned, and that nobody holds the connection before it is made. -/
structure Spawned (c : Connection) : Prop where
  read : c.main.created = true → c.main ≠ .spawnRead → c.read ≠ .absent
  write : c.main.beforeWrite = false → c.write ≠ .absent
  aborted : c.main.joining = true → c.readAborted = true
  uncalled : c.main.created = false →
    c.closeReturned = false ∧ c.watch = .absent ∧ ∀ k, c.callers k = .idle

theorem readStep_present {i : ReadInput} (h : readStep cfg c i = some c') : c'.read ≠ .absent := by
  cases i with
  | go =>
    simp only [readStep] at h
    unfold readGo at h
    split at h
    all_goals grind [transition, invoke, sendPacket_ok, afterInsert_cases]
  | frame f =>
    simp only [readStep] at h
    split at h
    · cases h
      rcases handleFrame_cases cfg f with h | h | ⟨e, d, m, h, -⟩ | ⟨d, m, h, -⟩ <;> simp [h]
    · cases h
  | outcome o =>
    simp only [readStep] at h
    split at h
    · rename_i g hr
      cases h
      rcases afterHandler_cases g o with h | h | h | h <;> simp [h]
    · cases h
  | stop => grind [readStep]

@[simp, grind =] theorem closeAt_readAborted (s : CloseStep) :
    (c.closeAt s).1.readAborted = c.readAborted := rfl

@[simp, grind =] theorem closeAt_watch (s : CloseStep) : (c.closeAt s).1.watch = c.watch := rfl

/-- The main task spawns the stream tasks, one after the other. -/
theorem mainStep_spawns {i : MainInput} (h : mainStep cfg c i = some c') :
    (c'.read = c.read ∨ c'.read = .next) ∧ (c'.write = c.write ∨ c'.write = .recv) ∧
      (c.main = .spawnRead → c'.read = .next) ∧
      (c'.main.beforeWrite = false → c.main.beforeWrite = false ∨ c'.write = .recv) := by
  cases i with
  | go =>
    simp only [mainStep] at h
    unfold mainGo at h
    obtain ⟨w, t, hw⟩ := abortInitTimeout_eq c
    split at h
    all_goals grind [tryTransition, ensure, sendPacket_ok, MainPc.created, MainPc.beforeWrite]
  | upgraded ok => cases ok <;> grind [mainStep, MainPc.created, MainPc.beforeWrite]
  | status running => cases running <;> grind [mainStep, MainPc.created, MainPc.beforeWrite]
  | _ => grind [mainStep, MainPc.created, MainPc.beforeWrite]

/-- It aborts the read task on its error path. -/
theorem mainStep_joining {i : MainInput} (h : mainStep cfg c i = some c') :
    (c'.main.joining = true → c.main.joining = true ∨ c'.readAborted = true) ∧
      (c.readAborted = true → c'.readAborted = true) := by
  cases i with
  | go =>
    simp only [mainStep] at h
    unfold mainGo at h
    obtain ⟨w, t, hw⟩ := abortInitTimeout_eq c
    split at h
    all_goals grind [tryTransition, ensure, sendPacket_ok, MainPc.joining, afterRemove_cases]
  | _ => grind [mainStep, MainPc.joining]

/-- The connection is made once, by the last of the status checks. -/
theorem mainStep_created {i : MainInput} (h : mainStep cfg c i = some c') :
    (c.main.created = true → c'.main.created = true ∧ c'.main ≠ .spawnRead) ∧
      (c.main.created = false → c'.closeReturned = c.closeReturned ∧ c'.watch = c.watch ∧
        (c'.main.created = true → c'.main = .spawnRead)) := by
  cases i with
  | go =>
    simp only [mainStep] at h
    unfold mainGo at h
    obtain ⟨w, t, hw⟩ := abortInitTimeout_eq c
    split at h
    all_goals grind [tryTransition, ensure, sendPacket_ok, MainPc.created, afterRemove_cases]
  | upgraded ok => cases ok <;> grind [mainStep, MainPc.created]
  | status running => cases running <;> grind [mainStep, MainPc.created]
  | _ => grind [mainStep, MainPc.created]

/-- Only the main task aborts the read task and spawns the watchdog. -/
theorem step_beside {a : Action} (h : step cfg c a = some c') (ha : ∀ i, a ≠ .main i) :
    c'.readAborted = c.readAborted ∧ (c.watch = .absent → c'.watch = .absent) := by
  cases a with
  | main i => exact absurd rfl (ha i)
  | read i =>
    obtain ⟨-, -, hw, -, -, hr⟩ := readStep_frame h
    exact ⟨hr, fun hwatch => by rw [hw, hwatch]⟩
  | write i =>
    obtain ⟨e, pc, -, rfl, -⟩ := writeStep_some h
    exact ⟨rfl, id⟩
  | watch i =>
    obtain ⟨e, pc, he, rfl, -⟩ := watchStep_some h
    refine ⟨rfl, fun hwatch => ?_⟩
    rw [hwatch] at he
    cases i <;> simp [Endpoint.watchStep] at he
  | start k job => grind [step, setCaller]
  | caller k =>
    simp only [step] at h
    unfold callerStep at h
    split at h
    all_goals grind [ensure, sendPacket_ok, enqueue_ok, setCaller]
  | drop k => grind [step, setCaller]

theorem spawned_step {a : Action} (h : step cfg c a = some c') (hi : Spawned c) : Spawned c' := by
  by_cases ha : ∃ i, a = .main i
  · obtain ⟨i, rfl⟩ := ha
    obtain ⟨hread, hwrite, hspawn, hbefore⟩ := mainStep_spawns h
    obtain ⟨hjoin, habort⟩ := mainStep_joining h
    obtain ⟨hcreated, hquiet⟩ := mainStep_created h
    have hcallers := mainStep_callers h
    refine ⟨fun hc hne => ?_, fun hb => ?_, fun hj => ?_, fun hc => ?_⟩
    · by_cases hcr : c.main.created = true
      · by_cases hsp : c.main = .spawnRead
        · rw [hspawn hsp]
          simp
        · rcases hread with hr | hr
          · rw [hr]
            exact hi.read hcr hsp
          · simp [hr]
      · exact absurd ((hquiet (by simpa using hcr)).2.2 hc) hne
    · rcases hbefore hb with hb | hw
      · rcases hwrite with hw | hw
        · rw [hw]
          exact hi.write hb
        · simp [hw]
      · simp [hw]
    · rcases hjoin hj with hj | hj
      · exact habort (hi.aborted hj)
      · exact hj
    · have hc' : c.main.created = false := by
        by_contra hne
        rw [(hcreated (by simpa using hne)).1] at hc
        cases hc
      obtain ⟨h₁, h₂, h₃⟩ := hi.uncalled hc'
      obtain ⟨e₁, e₂, -⟩ := hquiet hc'
      exact ⟨by rw [e₁, h₁], by rw [e₂, h₂], by rw [hcallers]; exact h₃⟩
  · push Not at ha
    have hm := step_main h ha
    refine ⟨fun hc hne => ?_, fun hb => ?_, fun hj => ?_, fun hc => ?_⟩
    · rw [hm] at hc hne
      by_cases hr : ∃ i, a = .read i
      · obtain ⟨i, rfl⟩ := hr
        exact readStep_present h
      · push Not at hr
        rcases (step_outside h hr).1 with e | ⟨-, e⟩
        · rw [e]
          exact hi.read hc hne
        · simp [e]
    · rw [hm] at hb
      rcases step_write h with ⟨e, -, -⟩ | ⟨e, e', -⟩ | ⟨i, e, pc, -, he, rfl⟩
      · rw [e]
        exact hi.write hb
      · rw [hm, e] at e'
        cases e'
      · have hw := hi.write hb
        rcases Endpoint.writeStep_cases he with ⟨m, ch, -, -, hp, -⟩ | ⟨m, -, -, -, hp, -⟩ |
          ⟨hp, -, -⟩ <;> simp [hp]
    · rw [hm] at hj
      rw [(step_beside h ha).1]
      exact hi.aborted hj
    · rw [hm] at hc
      obtain ⟨h₁, h₂, h₃⟩ := hi.uncalled hc
      refine ⟨?_, (step_beside h ha).2 h₂, fun k => step_idle h (h₃ k) ?_⟩
      · rcases step_close h with ⟨hs, -⟩ | ⟨-, he⟩
        · cases a with
          | main i => exact absurd rfl (ha i)
          | watch i => cases i <;> simp [closeSends, h₂] at hs
          | caller k => simp [closeSends, h₃ k] at hs
          | _ => cases hs
        · rw [he, h₁]
      · rintro job rfl
        simp [step, h₃ k, hc] at h

theorem spawned_of_reachable {guard : Connection → Action → Prop}
    (h : (system cfg).ReachableWhen guard c) : Spawned c := by
  refine h.invariant (I := Spawned) ⟨by simp [system, initial, MainPc.created],
    by simp [system, initial, MainPc.beforeWrite, MainPc.created],
    by simp [system, initial, MainPc.joining], fun _ => ⟨rfl, rfl, fun _ => rfl⟩⟩ ?_
  intro c a c' _ _ hs hi
  exact spawned_step hs hi

/-! ## Close frames -/

/-- The write task does not go on after a close frame. -/
def LastTaken (c : Connection) : Prop :=
  ∀ m ∈ c.channel.received, m.message = .close →
    (∃ m', c.write = .sending m' ∧ m'.message = .close) ∨ c.write = .ended

theorem lastTaken_step {a : Action} (h : step cfg c a = some c') (hw : Writing c)
    (hi : LastTaken c) : LastTaken c' := by
  intro m hm hc
  rcases step_write h with ⟨hsame, -, hrec⟩ | ⟨hsp, -, -, hch⟩ | ⟨i, e, pc, -, he, rfl⟩
  · rw [hrec] at hm
    rw [hsame]
    exact hi m hm hc
  · rw [hch] at hm
    have habsent := hw.unspawned (by rw [hsp]; rfl)
    rcases hi m hm hc with ⟨m', hpc, -⟩ | hpc <;> rw [habsent] at hpc <;> cases hpc
  · rcases Endpoint.writeStep_cases he with ⟨m', ch, -, hpc, rfl, hr, rfl⟩ |
      ⟨m', -, hpc, hne, -, rfl⟩ | ⟨rfl, -, -⟩
    · -- the message just taken is the only close frame
      change m ∈ ch.received at hm
      rw [(Channel.recv_some hr).2.1, List.mem_append, List.mem_singleton] at hm
      rcases hm with hm | rfl
      · rcases hi m hm hc with ⟨m₁, hpc', -⟩ | hpc' <;> rw [hpc] at hpc' <;> cases hpc'
      · exact .inl ⟨m, rfl, hc⟩
    · rcases hi m hm hc with ⟨m₁, hpc', hc'⟩ | hpc' <;> rw [hpc] at hpc' <;> cases hpc'
      exact absurd hc' hne
    · exact .inr rfl

theorem lastTaken_of_reachable {guard : Connection → Action → Prop}
    (h : (system cfg).ReachableWhen guard c) : LastTaken c := by
  refine h.invariant (I := LastTaken) (by intro m hm; cases hm) ?_
  intro c a c' hr _ hs hi
  exact lastTaken_step hs (writing_of_reachable hr) hi

/-- A `close` that has returned has its frame before the write task, unless that has ended. -/
theorem queue_of_closeReturned (h : (system cfg).ReachableWhen CloseHasRoom c)
    (hc : c.closeReturned = true) (hw : c.write = .recv) : c.channel.queue ≠ [] := by
  intro hq
  rcases closeDelivered_of_reachable h hc with hm | hm
  · rw [Channel.sent, hq, List.append_nil] at hm
    rcases lastTaken_of_reachable h _ hm rfl with ⟨m, hpc, -⟩ | hpc <;> rw [hw] at hpc <;> cases hpc
  · rw [hw] at hm
    cases hm

/-! ## Every step brings the end closer -/

/-- How much the write task has to send. -/
def writeLeft (c : Connection) : Nat :=
  match c.write with
  | .ended => 0
  | .sending _ => 2 * c.channel.queue.length + 2
  | _ => 2 * c.channel.queue.length + 1

/-- How far the connection is from its end. -/
def rank (c : Connection) : Nat := c.main.left c.joinedRooms.length + c.read.left + c.writeLeft

/-- The write task takes the next message or has sent one. -/
theorem write_advances (hw : (∃ m, c.write = .sending m) ∨ c.write = .recv ∧ c.channel.queue ≠ []) :
    ∃ c', c.writeStep .go = some c' ∧ c'.rank < c.rank ∧ c'.main = c.main := by
  rcases hw with ⟨m, hw⟩ | ⟨hw, hq⟩
  · simp only [writeStep, Endpoint.writeStep, hw]
    by_cases hm : m.message = .close
    · simp only [hm, if_true]
      refine ⟨_, rfl, ?_, rfl⟩
      simp [rank, writeLeft, hw]
    · simp only [hm, if_false]
      refine ⟨_, rfl, ?_, rfl⟩
      simp [rank, writeLeft, hw]
  · cases hr : c.channel.recv with
    | none => exact absurd (Channel.recv_none hr) hq
    | some p =>
      obtain ⟨m, ch⟩ := p
      have hlen := congrArg List.length (Channel.recv_some hr).1
      rw [List.length_cons] at hlen
      simp only [writeStep, Endpoint.writeStep, Endpoint.recv, hw, hr, Option.map_some]
      refine ⟨_, rfl, ?_, rfl⟩
      simp only [rank, writeLeft, hw]
      omega

/-- Between its awaits the read task goes on. -/
theorem readGo_advances (cfg : NamespaceConfig) (h₀ : c.read ≠ .absent) (h₁ : c.read ≠ .ended)
    (h₂ : c.read ≠ .next) (h₃ : c.read ≠ .sendReady) (h₄ : ∀ g, c.read ≠ .awaiting g) :
    ∃ c', readGo cfg c = some c' ∧ c'.rank < c.rank ∧ c'.main = c.main := by
  cases hr : c.read <;> simp only [readGo, hr]
  case absent => exact absurd hr h₀
  case ended => exact absurd hr h₁
  case next => exact absurd hr h₂
  case sendReady => exact absurd hr h₃
  case awaiting g => exact absurd hr (h₄ g)
  case eventCheck event data =>
    split
    · split <;> exact ⟨_, rfl, by simp [rank, writeLeft, hr, ReadPc.left], rfl⟩
    · exact ⟨_, rfl, by simp [rank, writeLeft, hr, ReadPc.left], rfl⟩
  case initTransition | activate | readyTransition =>
    refine ⟨_, rfl, ?_, ?_⟩ <;> unfold transition <;> split <;>
      simp [rank, writeLeft, hr, ReadPc.left]
  case initResponse | middleware | onConnect =>
    refine ⟨_, rfl, ?_, ?_⟩ <;> unfold invoke <;> split <;>
      simp [rank, writeLeft, hr, ReadPc.left]
  case abortInitTimeout data =>
    obtain ⟨w, t, hw⟩ := abortInitTimeout_eq c
    rw [hw]
    exact ⟨_, rfl, by simp [rank, writeLeft, hr, ReadPc.left], rfl⟩
  case initGet | ensureActivating | spawnOnReady =>
    split <;> exact ⟨_, rfl, by simp [rank, writeLeft, hr, ReadPc.left], rfl⟩
  case insert r =>
    cases r <;> exact ⟨_, rfl, by simp [rank, writeLeft, hr, ReadPc.left, afterInsert], rfl⟩

/-- An aborted read task gets to its end by steps of its own. -/
theorem read_stops (cfg : NamespaceConfig) (ha : c.readAborted = true) (h₀ : c.read ≠ .absent)
    (h₁ : c.read ≠ .ended) : ∃ i c', (Action.read i).own = true ∧
      readStep cfg c i = some c' ∧ c'.rank < c.rank ∧ c'.main = c.main := by
  by_cases haw : c.read.awaits = true
  · refine ⟨.stop, { c with read := .ended }, rfl, by simp [readStep, ha, haw], ?_, rfl⟩
    revert haw
    simp only [rank]
    cases hr : c.read <;> simp [ReadPc.awaits, ReadPc.left, writeLeft]
    rename_i g
    cases g <;> simp
  · obtain ⟨c', hs, hlt, hm⟩ := readGo_advances cfg h₀ h₁ (by rintro e; simp [e, ReadPc.awaits] at haw)
      (by rintro e; simp [e, ReadPc.awaits] at haw) (by rintro g e; simp [e, ReadPc.awaits] at haw)
    exact ⟨.go, c', rfl, hs, hlt, hm⟩

/-- A send that does not wait costs the write task at most one message. -/
theorem enqueue_writeLeft {m : Outgoing} (h : c.enqueue m = some (.ok c')) :
    c'.writeLeft ≤ c.writeLeft + 2 ∧ c'.main = c.main ∧ c'.read = c.read ∧
      c'.joinedRooms = c.joinedRooms := by
  obtain ⟨ch, hs, rfl⟩ := enqueue_ok h
  refine ⟨?_, rfl, rfl, rfl⟩
  obtain ⟨-, -, hq, -⟩ := Channel.trySend_ok hs
  simp only [writeLeft, hq, List.length_append, List.length_singleton]
  split <;> omega

theorem sendPacket_writeLeft {o : Origin} {p : WsIoPacket}
    (h : c.sendPacket cfg o p = some (.ok c')) : c'.writeLeft ≤ c.writeLeft + 2 ∧
      c'.main = c.main ∧ c'.read = c.read ∧ c'.joinedRooms = c.joinedRooms := by
  unfold sendPacket at h
  split at h
  · cases h
  · exact enqueue_writeLeft h

theorem closeAt_writeLeft (c : Connection) (s : CloseStep) :
    (c.closeAt s).1.writeLeft ≤ c.writeLeft + if s = .send then 2 else 0 := by
  rcases closeAt_cases c s with ⟨rfl, h⟩ | ⟨rfl, h⟩ | ⟨rfl, h⟩ <;> rw [h]
  · simp
  · simp [writeLeft]
  · rcases Endpoint.channel_sendClose c.toEndpoint with hc | ⟨ch, hs, hc⟩
    · simp only [writeLeft, hc]
      simp
    · obtain ⟨-, -, hq, -⟩ := Channel.trySend_ok hs
      simp only [writeLeft, hc, hq, List.length_append, List.length_singleton, if_true]
      split <;> omega

/-- The main task waits here: for its environment, for the stream tasks, or for ever. -/
def mainWaits (cfg : NamespaceConfig) (c : Connection) : Bool :=
  match c.main with
  | .upgrading | .checkRuntime | .checkNamespace | .awaitingInitRequest | .awaitingOnClose
  | .rejected | .finished | .initPanicked | .closePanicked | .select | .join => true
  | .sendInit d => (c.sendPacket cfg .init (.newInit d)).isNone
  | _ => false

/-- The main task goes on wherever it waits for nothing. -/
theorem mainGo_advances (hr : c.main = .spawnRead → c.read = .absent)
    (hw : c.main = .spawnWrite → c.write = .absent) (h : mainWaits cfg c = false) :
    ∃ c', mainGo cfg c = some c' ∧ c'.rank < c.rank := by
  cases hm : c.main <;> simp only [mainWaits, hm, reduceCtorEq] at h <;> simp only [mainGo, hm]
  case spawnRead => exact ⟨_, rfl, by simp [rank, writeLeft, hm, hr hm, MainPc.left, ReadPc.left]⟩
  case spawnWrite => exact ⟨_, rfl, by simp [rank, writeLeft, hm, hw hm, MainPc.left]⟩
  case initEnsure | initRequest | initTransition | onClose =>
    split <;> exact ⟨_, rfl, by simp [rank, writeLeft, hm, MainPc.left]⟩
  case sendInit d =>
    cases hs : c.sendPacket cfg .init (.newInit d) with
    | none => simp [hs] at h
    | some r =>
      cases r with
      | error e => exact ⟨_, rfl, by simp [rank, writeLeft, hm, MainPc.left]⟩
      | ok c' =>
        obtain ⟨hle, hmain, hread, hrooms⟩ := sendPacket_writeLeft hs
        refine ⟨_, rfl, ?_⟩
        change MainPc.left c'.joinedRooms.length .select + c'.read.left + c'.writeLeft < c.rank
        simp only [rank, hm, hread, hrooms, MainPc.left]
        omega
  case failClose a =>
    have hle := closeAt_writeLeft c a
    cases a with
    | get =>
      cases hd : isDown c.state <;> simp only [closeAt, Endpoint.close, hd]
      · exact ⟨_, rfl, by simp [rank, writeLeft, hm, MainPc.left]⟩
      · exact ⟨_, rfl, by simp [rank, writeLeft, hm, MainPc.left]⟩
    | store => exact ⟨_, rfl, by simp [closeAt, Endpoint.close, rank, writeLeft, hm, MainPc.left]⟩
    | send =>
      refine ⟨_, rfl, ?_⟩
      change MainPc.left c.joinedRooms.length .join + c.read.left + (c.closeAt .send).1.writeLeft <
        c.rank
      simp only [if_true] at hle
      simp only [rank, hm, MainPc.left]
      omega
  case remove r => cases r <;> exact ⟨_, rfl, by simp [rank, writeLeft, hm, MainPc.left, afterRemove]⟩
  case leaveRooms rest =>
    cases rest <;> exact ⟨_, rfl, by simp [rank, writeLeft, hm, MainPc.left]; try omega⟩
  case abortInitTimeout =>
    obtain ⟨w, t, ht⟩ := abortInitTimeout_eq c
    rw [ht]
    exact ⟨_, rfl, by simp [rank, writeLeft, hm, MainPc.left]⟩
  all_goals exact ⟨_, rfl, by simp [rank, writeLeft, hm, MainPc.left]⟩

/-- The main task goes on by an answer that it waits for. -/
def AnsweredBy (cfg : NamespaceConfig) (c : Connection) (i : MainInput) (c' : Connection) : Prop :=
  (Action.main i).own = true ∧ closeSends c (.main i) = false ∧ mainStep cfg c i = some c' ∧
    c'.rank < c.rank

/-- Where the main task waits for its environment, the environment can answer. -/
theorem main_answered (cfg : NamespaceConfig) (h : c.main = .upgrading ∨ c.main = .checkRuntime ∨
    c.main = .checkNamespace ∨ c.main = .awaitingInitRequest ∨ c.main = .awaitingOnClose) :
    ∃ i c', AnsweredBy cfg c i c' := by
  rcases h with hm | hm | hm | hm | hm
  · exact ⟨.upgraded true, { c with main := .checkRuntime }, rfl, rfl, by simp [mainStep, hm],
      by simp [rank, writeLeft, hm, MainPc.left]⟩
  · exact ⟨.status true, { c with main := .checkNamespace }, rfl, rfl, by simp [mainStep, hm],
      by simp [rank, writeLeft, hm, MainPc.left]⟩
  · exact ⟨.status true, { c with main := .spawnRead }, rfl, rfl, by simp [mainStep, hm],
      by simp [rank, writeLeft, hm, MainPc.left]⟩
  · exact ⟨.request .ok none, { c with
        main := .initTransition none
        log := .returned .initRequest .ok :: c.log }, rfl, rfl, by simp [mainStep, hm],
      by simp [rank, writeLeft, hm, MainPc.left]⟩
  · exact ⟨.closeHandler .ok, { c with
        main := .storeClosed
        log := .returned .onClose .ok :: c.log }, rfl, rfl, by simp [mainStep, hm],
      by simp [rank, writeLeft, hm, MainPc.left]⟩

/-- The `select!` takes the end of a stream task. -/
theorem select_advances (cfg : NamespaceConfig) (hm : c.main = .select)
    (h : c.read = .ended ∨ c.write = .ended) : ∃ i c', AnsweredBy cfg c i c' := by
  rcases h with he | he
  · exact ⟨.readEnded, { c with main := .cleanupStore, writeAborted := true }, rfl, rfl,
      by simp [mainStep, hm, he], by simp [rank, writeLeft, hm, MainPc.left]⟩
  · exact ⟨.writeEnded, { c with main := .cleanupStore, readAborted := true }, rfl, rfl,
      by simp [mainStep, hm, he], by simp [rank, writeLeft, hm, MainPc.left]⟩

/-! ## Room in the channel -/

theorem capacity_closeAt (c : Connection) (s : CloseStep) :
    (c.closeAt s).1.channel.capacity = c.channel.capacity := by
  rcases closeAt_cases c s with ⟨rfl, h⟩ | ⟨rfl, h⟩ | ⟨rfl, h⟩ <;> rw [h]
  rcases Endpoint.channel_sendClose c.toEndpoint with hc | ⟨ch, hs, hc⟩
  · exact congrArg Channel.capacity hc
  · exact (congrArg Channel.capacity hc).trans (Channel.trySend_ok hs).2.2.2.2.2

theorem step_capacity {a : Action} (h : step cfg c a = some c') :
    c'.channel.capacity = c.channel.capacity := by
  cases a with
  | main i =>
    simp only [step] at h
    cases i with
    | go =>
      simp only [mainStep] at h
      unfold mainGo at h
      obtain ⟨w, t, hw⟩ := abortInitTimeout_eq c
      split at h
      all_goals grind [tryTransition, ensure, sendPacket_ok, capacity_closeAt, Channel.trySend_ok]
    | _ => grind [mainStep]
  | read i =>
    rcases readStep_channel h with hc | ⟨-, -, -, m, -, hc⟩
    · rw [hc]
    · exact (Channel.trySend_ok hc).2.2.2.2.2
  | write i =>
    obtain ⟨e, pc, he, rfl, -⟩ := writeStep_some h
    rcases Endpoint.writeStep_cases he with ⟨m, ch, -, -, -, hr, rfl⟩ | ⟨m, -, -, -, -, rfl⟩ |
      ⟨-, rfl, -⟩
    · exact (Channel.recv_some hr).2.2.2.2
    · rfl
    · rfl
  | watch i =>
    obtain ⟨e, pc, he, rfl, -⟩ := watchStep_some h
    rcases Endpoint.watchStep_cases he with ⟨rfl, -⟩ | ⟨s, -, -, rfl, -⟩
    · rfl
    · exact capacity_closeAt c s
  | start k job => grind [step, setCaller]
  | caller k =>
    simp only [step] at h
    unfold callerStep at h
    split at h
    all_goals grind [ensure, sendPacket_ok, enqueue_ok, capacity_closeAt, setCaller,
      Channel.trySend_ok]
  | drop k => grind [step, setCaller]

theorem capacity_of_reachable {guard : Connection → Action → Prop}
    (h : (system cfg).ReachableWhen guard c) : c.channel.capacity = cfg.channelCapacity :=
  h.invariant (I := fun c => c.channel.capacity = cfg.channelCapacity) rfl
    fun _ _ _ _ _ hs hi => (step_capacity hs).trans hi

/-- A send waits only for a slot. -/
theorem enqueue_waits {m : Outgoing} (h : c.enqueue m = none) :
    c.channel.isFull = true ∧ c.channel.closed = false := by
  unfold enqueue Endpoint.sendMessage at h
  cases hs : c.channel.trySend m with
  | ok ch => simp [hs] at h
  | error e =>
    cases e with
    | closed => simp [hs] at h
    | full =>
      refine ⟨Channel.trySend_full hs, ?_⟩
      by_contra hc
      rw [Bool.not_eq_false] at hc
      simp [Channel.trySend, hc] at hs

theorem sendPacket_waits {o : Origin} {p : WsIoPacket} (h : c.sendPacket cfg o p = none) :
    c.channel.isFull = true ∧ c.channel.closed = false := by
  unfold sendPacket at h
  split at h
  · cases h
  · exact enqueue_waits h

/-- An empty channel has a slot. -/
theorem slot_of_queue {guard : Connection → Action → Prop}
    (h : (system cfg).ReachableWhen guard c) (hq : c.channel.queue = []) :
    c.channel.isFull = false := by
  have hcap := cfg.capacity_ge
  rw [← capacity_of_reachable h] at hcap
  simp [Channel.isFull, hq]
  omega

/-- The channel is empty and no call stands at a send, or nobody receives any more. -/
def Quiet (c : Connection) : Prop :=
  c.channel.closed = true ∨ c.channel.queue = [] ∧ ∀ k, (c.callers k).sends = false

theorem Quiet.hasRoom {guard : Connection → Action → Prop}
    (h : (system cfg).ReachableWhen guard c) (hq : Quiet c) : c.HasRoom := by
  refine hq.imp_right fun ⟨hempty, hnone⟩ => ⟨∅, fun k hk => ?_, ?_⟩
  · rw [hnone k] at hk
    cases hk
  · have hcap := cfg.capacity_ge
    have hmain := Bool.toNat_le c.main.sends
    have hread := Bool.toNat_le c.read.sends
    rw [← capacity_of_reachable h] at hcap
    rw [hempty, List.length_nil, Finset.card_empty]
    omega

/-- Nothing waits before a quiet channel. -/
theorem Quiet.sendPacket {guard : Connection → Action → Prop}
    (h : (system cfg).ReachableWhen guard c) (hq : Quiet c) {o : Origin} {p : WsIoPacket} :
    c.sendPacket cfg o p ≠ none := by
  intro hs
  obtain ⟨hf, hc⟩ := sendPacket_waits hs
  rcases hq with hcl | ⟨hempty, -⟩
  · rw [hc] at hcl
    cases hcl
  · rw [slot_of_queue h hempty] at hf
    cases hf

theorem closeHasRoom_of_quiet {a : Action} (h : closeSends c a = false) : c.CloseHasRoom a := by
  intro hs
  rw [h] at hs
  cases hs

/-- A step that brings the end closer. -/
structure Advances (cfg : NamespaceConfig) (c : Connection) (a : Action) (c' : Connection) : Prop where
  own : a.own = true
  room : c.CloseHasRoom a
  step : step cfg c a = some c'
  lower : c'.rank < c.rank

theorem advances_write (h : ∃ c', c.writeStep .go = some c' ∧ c'.rank < c.rank ∧ c'.main = c.main) :
    ∃ a c', Advances cfg c a c' := by
  obtain ⟨c', hs, hlt, -⟩ := h
  exact ⟨.write .go, c', rfl, closeHasRoom_of_quiet rfl, hs, hlt⟩

theorem AnsweredBy.advances (h : ∃ i c', AnsweredBy cfg c i c') : ∃ a c', Advances cfg c a c' := by
  obtain ⟨i, c', hown, hquiet, hs, hlt⟩ := h
  exact ⟨.main i, c', hown, closeHasRoom_of_quiet hquiet, hs, hlt⟩

/-- But for its waits on the stream tasks the main task goes on, before a quiet channel once
the write task is there. -/
theorem main_advances {guard : Connection → Action → Prop}
    (h : (system cfg).ReachableWhen guard c) (he : c.main.ended = false) (h₁ : c.main ≠ .select)
    (h₂ : c.main ≠ .join) (hq : c.main.beforeWrite = false → Quiet c) :
    ∃ a c', Advances cfg c a c' := by
  by_cases hw : mainWaits cfg c = false
  · obtain ⟨c', hs, hlt⟩ := mainGo_advances
      (fun hm => (exchange_of_reachable h).unread (.inr hm))
      (fun hm => (writing_of_reachable h).unspawned (by rw [hm]; rfl)) hw
    refine ⟨.main .go, c', rfl, fun hsends => (hq ?_).hasRoom h, hs, hlt⟩
    rw [show c.main = .failClose .send from of_decide_eq_true hsends]
    rfl
  · rw [Bool.not_eq_false] at hw
    cases hm : c.main <;> simp only [mainWaits, hm, reduceCtorEq] at hw
    case finished | rejected | initPanicked | closePanicked =>
      rw [hm] at he
      cases he
    case select => exact absurd hm h₁
    case join => exact absurd hm h₂
    case sendInit d =>
      exact absurd (Option.isNone_iff_eq_none.mp hw) ((hq (by rw [hm]; rfl)).sendPacket h)
    all_goals exact AnsweredBy.advances (main_answered cfg (c := c) (by simp [hm]))

theorem join_advances (cfg : NamespaceConfig) (hm : c.main = .join) (hr : c.read = .ended)
    (hw : c.write = .ended) : ∃ a c', Advances cfg c a c' := by
  refine ⟨.main .go, { c with main := .cleanupStore }, rfl, closeHasRoom_of_quiet ?_, ?_, ?_⟩
  · simp [closeSends, hm]
  · simp [step, mainStep, mainGo, hm, hr, hw]
  · simp [rank, writeLeft, hm, MainPc.left]

/-! ## After a close -/

/-- A connection that a `close` has asked to end has a step of its own towards its end: the
write task gets to the close frame and ends, and from then on no send waits. -/
theorem closed_advances (h : (system cfg).ReachableWhen CloseHasRoom c)
    (hc : c.closeReturned = true) (he : c.main.ended = false) : ∃ a c', Advances cfg c a c' := by
  have hsp := spawned_of_reachable h
  by_cases hb : c.main.beforeWrite = true
  · refine main_advances h he ?_ ?_ fun hb' => ?_
    · rintro hm
      rw [hm] at hb
      cases hb
    · rintro hm
      rw [hm] at hb
      cases hb
    · rw [hb] at hb'
      cases hb'
  rw [Bool.not_eq_true] at hb
  by_cases hw : c.write = .ended
  · have hquiet : Quiet c := .inl ((writing_of_reachable h).closed.mpr hw)
    by_cases h₁ : c.main = .select
    · exact AnsweredBy.advances (select_advances cfg h₁ (.inr hw))
    by_cases h₂ : c.main = .join
    · by_cases hr : c.read = .ended
      · exact join_advances cfg h₂ hr hw
      · obtain ⟨i, c', hown, hs, hlt, -⟩ := read_stops cfg (hsp.aborted (by rw [h₂]; rfl))
          (hsp.read (by rw [h₂]; rfl) (by rw [h₂]; simp)) hr
        exact ⟨.read i, c', hown, closeHasRoom_of_quiet rfl, hs, hlt⟩
    · exact main_advances h he h₁ h₂ fun _ => hquiet
  · refine advances_write (write_advances ?_)
    cases hpc : c.write with
    | absent => exact absurd hpc (hsp.write hb)
    | recv => exact .inr ⟨rfl, queue_of_closeReturned h hc hpc⟩
    | sending m => exact .inl ⟨m, rfl⟩
    | ended => exact absurd hpc hw

theorem closeReturned_step {a : Action} (h : step cfg c a = some c') (hc : c.closeReturned = true) :
    c'.closeReturned = true := by
  rcases step_close h with ⟨-, he⟩ | ⟨-, he⟩
  · rw [he]
    exact Endpoint.closeReturned_sendClose _
  · rw [he, hc]

/-- The main task panics by an input of its own only. -/
theorem step_unpanicked {a : Action} (h : step cfg c a = some c') (ha : a ≠ .main .panicked)
    (hp : c.main.panicked = false) : c'.main.panicked = false := by
  by_cases hmain : ∃ i, a = .main i
  · obtain ⟨i, rfl⟩ := hmain
    simp only [step] at h
    cases i with
    | panicked => exact absurd rfl ha
    | go =>
      simp only [mainStep] at h
      unfold mainGo at h
      split at h
      all_goals grind [tryTransition, ensure, sendPacket_ok, MainPc.panicked, afterRemove_cases]
    | _ => grind [mainStep, MainPc.panicked]
  · push Not at hmain
    rw [step_main h hmain]
    exact hp

/-- A task whose handlers have not panicked is over once it is finished or refused. -/
theorem ended_iff (hp : c.main.panicked = false) :
    c.main.ended = true ↔ c.main = .finished ∨ c.main = .rejected := by
  cases hm : c.main <;> rw [hm] at hp <;> simp [MainPc.ended, MainPc.panicked] at hp ⊢

/-- Some `close` call has stored `Closing` and not tried to enqueue its frame yet. -/
def PendingClose (c : Connection) : Prop :=
  c.main = .failClose .send ∨ c.watch = .closing .send ∨ ∃ k, c.callers k = .closing .send

/-- Who moved the connection to `Closing`. -/
def Closer (c : Connection) : Prop :=
  c.closeReturned = true ∨ PendingClose c ∨ c.main.cleaning = true

theorem closeAt_down (c : Connection) (s : CloseStep) :
    (s = .get ∧ (c.closeAt s).1.state = c.state ∧
        ((c.closeAt s).2 = some .store ∨ (c.closeAt s).2 = none ∧ isDown c.state = true)) ∨
      (s = .store ∧ (c.closeAt s).2 = some .send) ∨
      (s = .send ∧ (c.closeAt s).1.state = c.state ∧ (c.closeAt s).1.closeReturned = true ∧
        (c.closeAt s).2 = none) := by
  cases s with
  | get =>
    refine .inl ⟨rfl, ?_⟩
    cases hd : isDown c.state <;> simp [closeAt, Endpoint.close, hd]
  | store => exact .inr (.inl ⟨rfl, rfl⟩)
  | send => exact .inr (.inr ⟨rfl, by simp [closeAt, Endpoint.close]⟩)

/-- How the main task closes the connection, and how it gets to wait for both stream tasks. -/
theorem mainStep_down {i : MainInput} (h : mainStep cfg c i = some c') :
    (isDown c.state = false → isDown c'.state = true →
        c'.main = .failClose .send ∨ c'.main.cleaning = true) ∧
      (c'.main = .join → isDown c'.state = true ∨ c'.closeReturned = true) := by
  cases i with
  | go =>
    simp only [mainStep] at h
    unfold mainGo at h
    obtain ⟨w, t, hw⟩ := abortInitTimeout_eq c
    split at h
    all_goals grind [tryTransition, ensure, sendPacket_ok, closeAt_down, afterRemove_cases,
      MainPc.cleaning, isDown_iff]
  | upgraded ok => cases ok <;> grind [mainStep]
  | status running => cases running <;> grind [mainStep]
  | _ => grind [mainStep]

/-- The watchdog has not been spawned yet. -/
def beforeWatch : MainPc → Bool
  | .spawnRead | .spawnWrite | .initEnsure | .initRequest | .awaitingInitRequest
  | .initTransition _ | .spawnWatch _ => true
  | pc => !pc.created

theorem mainStep_watch {i : MainInput} (h : mainStep cfg c i = some c') :
    (c'.watch = c.watch ∧ (beforeWatch c'.main = true → beforeWatch c.main = true)) ∨
      (beforeWatch c.main = true ∧ beforeWatch c'.main = false ∧ c'.watch = .sleeping) := by
  cases i with
  | go =>
    simp only [mainStep] at h
    unfold mainGo at h
    obtain ⟨w, t, hw⟩ := abortInitTimeout_eq c
    split at h
    all_goals grind [tryTransition, ensure, sendPacket_ok, afterRemove_cases, beforeWatch,
      MainPc.created]
  | _ => grind [mainStep, beforeWatch, MainPc.created]

theorem unwatched_of_reachable {guard : Connection → Action → Prop}
    (h : (system cfg).ReachableWhen guard c) (hb : beforeWatch c.main = true) :
    c.watch = .absent := by
  refine h.invariant (I := fun c => beforeWatch c.main = true → c.watch = .absent)
    (fun _ => rfl) ?_ hb
  intro c a c' _ _ hs hi hb
  by_cases ha : ∃ i, a = .main i
  · obtain ⟨i, rfl⟩ := ha
    rcases mainStep_watch hs with ⟨hw, hb'⟩ | ⟨-, hb', -⟩
    · rw [hw]
      exact hi (hb' hb)
    · rw [hb] at hb'
      cases hb'
  · push Not at ha
    rw [step_main hs ha] at hb
    exact (step_beside hs ha).2 (hi hb)

/-- A pending `close` goes on to its `try_send`. -/
theorem pendingClose_step {a : Action} (h : step cfg c a = some c') (hs : closeSends c a = false)
    (hw : beforeWatch c.main = true → c.watch = .absent) (hp : PendingClose c) :
    PendingClose c' := by
  rcases hp with hm | hwatch | ⟨k, hk⟩
  · refine .inl ?_
    by_cases ha : ∃ i, a = .main i
    · obtain ⟨i, rfl⟩ := ha
      cases i with
      | go => simp [closeSends, hm] at hs
      | _ => simp [step, mainStep, hm] at h
    · push Not at ha
      rw [step_main h ha, hm]
  · refine .inr (.inl ?_)
    cases a with
    | main i =>
      rcases mainStep_watch h with ⟨he, -⟩ | ⟨hb, -, -⟩
      · rw [he, hwatch]
      · rw [hw hb] at hwatch
        cases hwatch
    | read i =>
      obtain ⟨-, -, he, -⟩ := readStep_frame h
      rw [he, hwatch]
    | write i =>
      obtain ⟨e, pc, -, rfl, -⟩ := writeStep_some h
      exact hwatch
    | watch i =>
      cases i with
      | go => simp [closeSends, hwatch] at hs
      | stop => simp [step, watchStep, Endpoint.watchStep, hwatch] at h
    | start k job => grind [step, setCaller]
    | caller k =>
      simp only [step] at h
      unfold callerStep at h
      split at h
      all_goals grind [ensure, sendPacket_ok, enqueue_ok, setCaller]
    | drop k => grind [step, setCaller]
  · refine .inr (.inr ⟨k, ?_⟩)
    rw [← hk]
    refine step_callers h ?_ ?_ ?_
    · rintro rfl
      simp [closeSends, hk] at hs
    · rintro job rfl
      simp [step, hk] at h
    · rintro rfl
      simp [step, callerAwaits, hk] at h

/-- A step that moves the connection to `Closing` belongs to a `close` or to `cleanup`. -/
theorem step_closes {a : Action} (h : step cfg c a = some c') (hd : isDown c.state = false)
    (hd' : isDown c'.state = true) : PendingClose c' ∨ c'.main.cleaning = true := by
  have hsame : c'.state ≠ c.state := by
    intro he
    rw [he, hd] at hd'
    cases hd'
  cases a with
  | main i => exact ((mainStep_down h).1 hd hd').imp_left .inl
  | read i =>
    rcases readStep_state h with hs | ⟨d, -, -, -, hs⟩ | ⟨-, -, -, hs⟩ | ⟨-, -, -, hs⟩
    · exact absurd hs hsame
    all_goals rw [hs] at hd'; cases hd'
  | write i =>
    obtain ⟨e, pc, -, rfl, hs⟩ := writeStep_some h
    exact absurd hs hsame
  | watch i =>
    obtain ⟨e, pc, he, rfl, -⟩ := watchStep_some h
    rcases Endpoint.watchStep_cases he with ⟨rfl, -⟩ | ⟨s, -, -, rfl, rfl⟩
    · exact absurd rfl hsame
    · cases s with
      | store => exact .inl (.inr (.inl rfl))
      | get =>
        rcases closeAt_down c .get with ⟨-, hs, -⟩ | ⟨hs, -⟩ | ⟨hs, -⟩
        · exact absurd hs hsame
        all_goals cases hs
      | send => exact absurd (Endpoint.state_sendClose _) hsame
  | start k job => grind [step, setCaller]
  | caller k =>
    by_cases hk : ∃ s, c.callers k = .closing s
    · obtain ⟨s, hk⟩ := hk
      simp only [step, callerStep, hk] at h
      rcases closeAt_down c s with ⟨rfl, hs, -⟩ | ⟨rfl, hs⟩ | ⟨rfl, hs, -, -⟩
      · split at h <;> cases h <;> exact absurd hs hsame
      · rw [hs] at h
        cases h
        exact .inl (.inr (.inr ⟨k, by simp [setCaller]⟩))
      · split at h <;> cases h <;> exact absurd hs hsame
    · push Not at hk
      refine absurd ?_ hsame
      simp only [step] at h
      unfold callerStep at h
      split at h
      all_goals grind [ensure, sendPacket_ok, enqueue_ok, setCaller]
  | drop k => grind [step, setCaller]

theorem closer_step {a : Action} (h : step cfg c a = some c')
    (hw : beforeWatch c.main = true → c.watch = .absent)
    (hi : isDown c.state = true → Closer c) (hd : isDown c'.state = true) : Closer c' := by
  cases hdown : isDown c.state with
  | false => exact .inr (step_closes h hdown hd)
  | true =>
    rcases hi hdown with hc | hp | hc
    · exact .inl (closeReturned_step h hc)
    · rcases step_close h with ⟨-, he⟩ | ⟨hs, -⟩
      · refine .inl ?_
        rw [he]
        exact Endpoint.closeReturned_sendClose _
      · exact .inr (.inl (pendingClose_step h hs hw hp))
    · exact .inr (.inr (step_stays_cleaning h hc))

theorem closer_of_reachable {guard : Connection → Action → Prop}
    (h : (system cfg).ReachableWhen guard c) (hd : isDown c.state = true) : Closer c := by
  refine h.invariant (I := fun c => isDown c.state = true → Closer c) (fun hd => by cases hd) ?_ hd
  intro c a c' hr _ hs hi hd
  exact closer_step hs (unwatched_of_reachable hr) hi hd

/-- Who waits for both stream tasks has seen the connection close. -/
theorem join_of_reachable {guard : Connection → Action → Prop}
    (h : (system cfg).ReachableWhen guard c) (hm : c.main = .join) :
    isDown c.state = true ∨ c.closeReturned = true := by
  refine h.invariant (I := fun c => c.main = .join → isDown c.state = true ∨ c.closeReturned = true)
    (fun hm => by cases hm) ?_ hm
  intro c a c' _ _ hs hi hm
  by_cases ha : ∃ i, a = .main i
  · obtain ⟨i, rfl⟩ := ha
    exact (mainStep_down hs).2 hm
  · push Not at ha
    rw [step_main hs ha] at hm
    exact (hi hm).imp (step_isDown hs) (closeReturned_step hs)

/-- The steps that a connection takes on its way down without its peer: those of its own
tasks, the rest of a `close` that has begun, and the sends at which calls stand. -/
def winding (c : Connection) (a : Action) : Bool :=
  a.own || (a = .watch .go && c.watch = .closing .send) ||
    match a with
    | .caller k => closeSends c (.caller k) || (c.callers k).sends
    | _ => false

/-- With them the end of the peer's stream. -/
def endingStep (c : Connection) (a : Action) : Bool := winding c a || a = .read (.frame none)

theorem winding_of_own {a : Action} (h : a.own = true) : winding c a = true := by
  simp [winding, h]

theorem endingStep_of_winding {a : Action} (h : winding c a = true) : endingStep c a = true := by
  simp [endingStep, h]

theorem not_panicked_of_ending {a : Action} (h : endingStep c a = true) : a ≠ .main .panicked := by
  rintro rfl
  cases h

/-! ### The sends that stand before the channel -/

/-- How many calls stand at a send. -/
noncomputable def standing (c : Connection) : Nat := Set.ncard {k | (c.callers k).sends = true}

theorem standing_congr (h : ∀ k, (c'.callers k).sends = (c.callers k).sends) :
    c'.standing = c.standing := by
  simp only [standing, h]

/-- Finitely many calls have been made. -/
theorem finite_callers {guard : Connection → Action → Prop}
    (h : (system cfg).ReachableWhen guard c) : {k | c.callers k ≠ .idle}.Finite := by
  refine h.invariant (I := fun c => {k | c.callers k ≠ .idle}.Finite) (by simp [system, initial]) ?_
  intro c a c' _ _ (hs : step cfg c a = some c') hi
  by_cases ha : ∃ k job, a = .start k job
  · obtain ⟨k, job, rfl⟩ := ha
    refine (hi.insert k).subset fun j hj => ?_
    by_cases hjk : j = k
    · exact .inl hjk
    · refine .inr fun hidle => hj (step_idle hs hidle ?_)
      rintro job' he
      cases he
      exact hjk rfl
  · push Not at ha
    exact hi.subset fun j hj hidle => hj (step_idle hs hidle (ha j))

theorem finite_standing {guard : Connection → Action → Prop}
    (h : (system cfg).ReachableWhen guard c) : {k | (c.callers k).sends = true}.Finite := by
  refine (finite_callers h).subset fun k hk hidle => ?_
  change (c.callers k).sends = true at hk
  rw [hidle] at hk
  cases hk

/-- One of them goes on. -/
theorem standing_lower {guard : Connection → Action → Prop}
    (h : (system cfg).ReachableWhen guard c) {k : Nat} {x : Caller}
    (hk : (c.callers k).sends = true) (hx : x.sends = false)
    (hcallers : c'.callers = Function.update c.callers k x) : c'.standing < c.standing := by
  have hset : {j | (c'.callers j).sends = true} = {j | (c.callers j).sends = true} \ {k} := by
    ext j
    change (c'.callers j).sends = true ↔ (c.callers j).sends = true ∧ j ≠ k
    rw [hcallers]
    by_cases hj : j = k
    · subst hj
      simp [hx]
    · simp [hj]
  rw [standing, hset]
  exact Set.ncard_sdiff_singleton_lt_of_mem hk (finite_standing h)

/-- A call at a send is not at the `try_send` of a `close`. -/
theorem closeSends_of_sends {k : Nat} (hk : (c.callers k).sends = true) :
    closeSends c (.caller k) = false := by
  simp only [closeSends]
  split
  · rename_i hc
    rw [hc] at hk
    cases hk
  · rfl

/-- What a call does that was let through at its send. -/
structure Sends (c : Connection) (k : Nat) (c' : Connection) : Prop where
  callers : ∃ x, c'.callers = Function.update c.callers k x ∧ x.sends = false
  rank : c'.rank ≤ c.rank + 2
  closeReturned : c'.closeReturned = c.closeReturned

theorem sends_setCaller {c₁ : Connection} (k : Nat) {x : Caller} (hx : x.sends = false)
    (hcallers : ∀ j, c₁.callers j = c.callers j) (hret : c₁.closeReturned = c.closeReturned)
    (h : c₁.writeLeft ≤ c.writeLeft + 2 ∧ c₁.main = c.main ∧ c₁.read = c.read ∧
      c₁.joinedRooms = c.joinedRooms) : Sends c k (c₁.setCaller k x) := by
  obtain ⟨hle, hmain, hread, hrooms⟩ := h
  refine ⟨⟨x, by simp [setCaller, funext hcallers], hx⟩, ?_, hret⟩
  change MainPc.left c₁.joinedRooms.length c₁.main + c₁.read.left + c₁.writeLeft ≤ c.rank + 2
  simp only [Connection.rank, hmain, hread, hrooms]
  omega

/-- A call at a send goes on before a channel that is empty. -/
theorem callerStep_sends {guard : Connection → Action → Prop}
    (h : (system cfg).ReachableWhen guard c) {k : Nat} (hk : (c.callers k).sends = true)
    (hq : c.channel.queue = []) : ∃ c', callerStep cfg c k = some c' ∧ Sends c k c' := by
  have hslot := slot_of_queue h hq
  have herror : ∀ x : Caller, x.sends = false → Sends c k (c.setCaller k x) := fun x hx =>
    sends_setCaller k hx (fun _ => rfl) rfl ⟨Nat.le_add_right _ _, rfl, rfl, rfl⟩
  -- the message of `emit`, or the disconnect packet of a broadcast
  have hmessage : ∀ m : Outgoing,
      (∀ e, c.enqueue m = some (.error e) →
        callerStep cfg c k = some (c.setCaller k (.done (.error e)))) →
      (∀ c₁, c.enqueue m = some (.ok c₁) →
        callerStep cfg c k = some (c₁.setCaller k (.done (.ok ())))) →
      ∃ c', callerStep cfg c k = some c' ∧ Sends c k c' := by
    intro m herr hok
    cases hs : c.enqueue m with
    | none =>
      rw [(enqueue_waits hs).1] at hslot
      cases hslot
    | some r =>
      cases r with
      | error e => exact ⟨_, herr e hs, herror _ rfl⟩
      | ok c₁ =>
        refine ⟨_, hok c₁ hs, sends_setCaller k rfl (callers_enqueue hs) ?_ (enqueue_writeLeft hs)⟩
        obtain ⟨ch, -, rfl⟩ := enqueue_ok hs
        rfl
  cases hc : c.callers k <;> rw [hc] at hk <;> try cases hk
  case disconnectSend =>
    cases hs : c.sendPacket cfg .disconnect .newDisconnect with
    | none =>
      rw [(sendPacket_waits hs).1] at hslot
      cases hslot
    | some r =>
      cases r with
      | error e => exact ⟨_, by simp [callerStep, hc, hs], herror (.closing .get) rfl⟩
      | ok c₁ =>
        refine ⟨_, by simp [callerStep, hc, hs], sends_setCaller k (x := .closing .get) rfl
          (callers_sendPacket hs) ?_ (sendPacket_writeLeft hs)⟩
        obtain ⟨m, ch, -, -, rfl⟩ := sendPacket_ok hs
        rfl
  case emitSend m =>
    exact hmessage ⟨.event, m⟩ (fun e hs => by simp [callerStep, hc, hs])
      (fun c₁ hs => by simp [callerStep, hc, hs])
  case messageSend m =>
    exact hmessage ⟨.disconnect, m⟩ (fun e hs => by simp [callerStep, hc, hs])
      (fun c₁ hs => by simp [callerStep, hc, hs])

/-- The rank, with what a first close frame and the calls at their sends add to it. -/
noncomputable def endingRank (c : Connection) : Nat :=
  c.rank + (if c.closeReturned then 0 else 3) + 3 * c.standing

/-- A step that brings a connection on its way down closer to its end. -/
structure Lowers (cfg : NamespaceConfig) (c : Connection) (a : Action) (c' : Connection) : Prop where
  room : c.CloseHasRoom a
  step : step cfg c a = some c'
  lower : c'.endingRank < c.endingRank

theorem endingRank_lower {a : Action} (h : step cfg c a = some c') (hcallers : c'.callers = c.callers)
    (hlt : c'.rank < c.rank) : c'.endingRank < c.endingRank := by
  have hstanding : c'.standing = c.standing := standing_congr fun k => by rw [hcallers]
  unfold endingRank
  rw [hstanding]
  cases hc : c.closeReturned with
  | true => simp only [closeReturned_step h hc, if_true]; omega
  | false => simp only [Bool.false_eq_true, if_false]; split <;> omega

/-- The tasks of the connection make no calls on it. -/
theorem own_callers {a : Action} (h : step cfg c a = some c') (ha : a.own = true) :
    c'.callers = c.callers := by
  funext k
  refine step_callers h ?_ ?_ ?_
  · rintro rfl
    cases ha
  · rintro job rfl
    cases ha
  · rintro rfl
    cases ha

theorem winding_advances (h : ∃ a c', Advances cfg c a c') :
    ∃ a c', winding c a = true ∧ Lowers cfg c a c' := by
  obtain ⟨a, c', hadv⟩ := h
  exact ⟨a, c', winding_of_own hadv.own, hadv.room, hadv.step,
    endingRank_lower hadv.step (own_callers hadv.step hadv.own) hadv.lower⟩

/-- The channel becomes quiet: the write task drains it, and the calls at their sends go on. -/
theorem quiet_or_advances {guard : Connection → Action → Prop}
    (h : (system cfg).ReachableWhen guard c) (hb : c.main.beforeWrite = false) :
    Quiet c ∨ ∃ a c', winding c a = true ∧ Lowers cfg c a c' := by
  by_cases hw : c.write = .ended
  · exact .inl (.inl ((writing_of_reachable h).closed.mpr hw))
  by_cases hq : c.write = .recv ∧ c.channel.queue = []
  · by_cases hk : ∃ k, (c.callers k).sends = true
    · obtain ⟨k, hk⟩ := hk
      obtain ⟨c', hs, ⟨x, hcallers, hx⟩, hle, hret⟩ := callerStep_sends h hk hq.2
      have hlt := standing_lower h hk hx hcallers
      refine .inr ⟨.caller k, c', by simp [winding, hk], closeHasRoom_of_quiet (closeSends_of_sends hk),
        hs, ?_⟩
      unfold endingRank
      rw [hret]
      omega
    · push Not at hk
      exact .inl (.inr ⟨hq.2, by simpa using hk⟩)
  · refine .inr (winding_advances (advances_write (write_advances ?_)))
    cases hpc : c.write with
    | absent => exact absurd hpc ((spawned_of_reachable h).write hb)
    | recv => exact .inr ⟨rfl, fun he => hq ⟨hpc, he⟩⟩
    | sending m => exact .inl ⟨m, rfl⟩
    | ended => exact absurd hpc hw

/-! ### The end of the stream -/

theorem read_lowers {i : ReadInput} (hs : readStep cfg c i = some c') (hlt : c'.rank < c.rank) :
    Lowers cfg c (.read i) c' := by
  refine ⟨closeHasRoom_of_quiet rfl, hs, endingRank_lower (a := .read i) hs ?_ hlt⟩
  obtain ⟨-, -, -, hcallers, -⟩ := readStep_frame hs
  exact hcallers

/-- A read task that is not aborted gets to its end when the stream ends. -/
theorem read_ends {guard : Connection → Action → Prop}
    (h : (system cfg).ReachableWhen guard c) (hq : Quiet c) (h₀ : c.read ≠ .absent)
    (h₁ : c.read ≠ .ended) : ∃ a c', endingStep c a = true ∧ Lowers cfg c a c' := by
  by_cases h₂ : c.read = .next
  · refine ⟨.read (.frame none), { c with read := .ended }, rfl, read_lowers ?_ ?_⟩
    · simp [readStep, h₂, handleFrame, received]
    · simp [rank, writeLeft, h₂, ReadPc.left]
  by_cases h₃ : c.read = .sendReady
  · cases hs : c.sendPacket cfg .ready .newReady with
    | none => exact absurd hs (hq.sendPacket h)
    | some r =>
      cases r with
      | error e =>
        refine ⟨.read .go, { c with read := .ended }, rfl, read_lowers ?_ ?_⟩
        · simp [readStep, readGo, h₃, hs]
        · simp [rank, writeLeft, h₃, ReadPc.left]
      | ok c' =>
        obtain ⟨hle, hmain, -, hrooms⟩ := sendPacket_writeLeft hs
        refine ⟨.read .go, { c' with read := .spawnOnReady }, rfl, read_lowers ?_ ?_⟩
        · simp [readStep, readGo, h₃, hs]
        · change c'.main.left c'.joinedRooms.length + ReadPc.left .spawnOnReady + c'.writeLeft < c.rank
          simp only [rank, hmain, hrooms, h₃, ReadPc.left]
          omega
  by_cases h₄ : ∃ g, c.read = .awaiting g
  · obtain ⟨g, hg⟩ := h₄
    refine ⟨.read (.outcome .err), { c with read := .ended, log := .returned g .err :: c.log }, rfl,
      read_lowers ?_ ?_⟩
    · simp [readStep, hg]
    · cases g <;> simp [rank, writeLeft, hg, ReadPc.left]
  · push Not at h₄
    obtain ⟨c', hs, hlt, -⟩ := readGo_advances cfg h₀ h₁ h₂ h₃ h₄
    exact ⟨.read .go, c', rfl, read_lowers hs hlt⟩

/-- The rest of a pending `close`. -/
theorem pendingClose_advances {guard : Connection → Action → Prop}
    (h : (system cfg).ReachableWhen guard c) (hq : Quiet c) (hd : isDown c.state = true)
    (hm : c.main = .select ∨ c.main = .join) (hc : c.closeReturned = false) :
    ∃ a c', winding c a = true ∧ Lowers cfg c a c' := by
  have hroom : ∀ a, c.CloseHasRoom a := fun a _ => hq.hasRoom h
  have hlower : ∀ c' : Connection, c'.main = c.main → c'.read = c.read → c'.joinedRooms = c.joinedRooms →
      c'.closeReturned = true → c'.writeLeft = (c.closeAt .send).1.writeLeft →
      c'.standing = c.standing → c'.endingRank < c.endingRank := by
    intro c' h₁ h₂ h₃ h₄ h₅ h₆
    have hle := closeAt_writeLeft c .send
    simp only [if_true] at hle
    simp only [endingRank, rank, h₁, h₂, h₃, h₄, h₅, h₆, hc, if_true, Bool.false_eq_true, if_false]
    omega
  rcases closer_of_reachable h hd with hret | (hpc | hwatch | ⟨k, hk⟩) | hcl
  · rw [hc] at hret
    cases hret
  · rcases hm with hm | hm <;> rw [hm] at hpc <;> cases hpc
  · refine ⟨.watch .go, { c with toEndpoint := c.toEndpoint.sendClose, watch := .ended }, ?_,
      hroom _, ?_, ?_⟩
    · simp [winding, hwatch]
    · simp [step, watchStep, Endpoint.watchStep, hwatch, Endpoint.close]
    · exact hlower _ rfl rfl rfl (Endpoint.closeReturned_sendClose _) rfl rfl
  · refine ⟨.caller k, (c.closeAt .send).1.setCaller k (.done (.ok ())), ?_, hroom _, ?_, ?_⟩
    · simp [winding, closeSends, hk]
    · simp [step, callerStep, hk, closeAt, Endpoint.close]
    · refine hlower _ rfl rfl rfl (Endpoint.closeReturned_sendClose _) rfl (standing_congr fun j => ?_)
      rw [callers_setCaller]
      split
      · rename_i hj
        rw [hj, hk]
        rfl
      · rfl
  · rcases hm with hm | hm <;> rw [hm] at hcl <;> cases hcl

theorem select_beforeWrite (h : c.main.beforeWrite = true) : c.main ≠ .select ∧ c.main ≠ .join := by
  constructor <;> intro hm <;> rw [hm] at h <;> cases h

/-- A connection that is down goes on to its end by itself. -/
theorem down_advances (h : (system cfg).ReachableWhen CloseHasRoom c)
    (hd : isDown c.state = true) (he : c.main.ended = false) :
    ∃ a c', winding c a = true ∧ Lowers cfg c a c' := by
  cases hc : c.closeReturned with
  | true => exact winding_advances (closed_advances h hc he)
  | false =>
    cases hb : c.main.beforeWrite with
    | true =>
      obtain ⟨h₁, h₂⟩ := select_beforeWrite hb
      exact winding_advances (main_advances h he h₁ h₂ (by simp [hb]))
    | false =>
      rcases quiet_or_advances h hb with hq | hadv
      · by_cases h₁ : c.main = .select
        · exact pendingClose_advances h hq hd (.inl h₁) hc
        by_cases h₂ : c.main = .join
        · exact pendingClose_advances h hq hd (.inr h₂) hc
        · exact winding_advances (main_advances h he h₁ h₂ fun _ => hq)
      · exact hadv

theorem hangup_advances (h : (system cfg).ReachableWhen CloseHasRoom c)
    (he : c.main.ended = false) : ∃ a c', endingStep c a = true ∧ Lowers cfg c a c' := by
  have hwind : (∃ a c', winding c a = true ∧ Lowers cfg c a c') →
      ∃ a c', endingStep c a = true ∧ Lowers cfg c a c' := by
    rintro ⟨a, c', ha, hadv⟩
    exact ⟨a, c', endingStep_of_winding ha, hadv⟩
  by_cases hdown : isDown c.state = true ∨ c.closeReturned = true
  · rcases hdown with hd | hc
    · exact hwind (down_advances h hd he)
    · exact hwind (winding_advances (closed_advances h hc he))
  -- nobody has closed the connection yet
  have h₂ : c.main ≠ .join := fun hm => hdown (join_of_reachable h hm)
  by_cases h₁ : c.main = .select
  · by_cases hend : c.read = .ended ∨ c.write = .ended
    · exact hwind (winding_advances (AnsweredBy.advances (select_advances cfg h₁ hend)))
    · push Not at hend
      rcases quiet_or_advances h (by rw [h₁]; rfl) with hq | hadv
      · exact read_ends h hq ((spawned_of_reachable h).read (by rw [h₁]; rfl) (by rw [h₁]; simp)) hend.1
      · exact hwind hadv
  · cases hb : c.main.beforeWrite with
    | true => exact hwind (winding_advances (main_advances h he h₁ h₂ (by simp [hb])))
    | false =>
      rcases quiet_or_advances h hb with hq | hadv
      · exact hwind (winding_advances (main_advances h he h₁ h₂ fun _ => hq))
      · exact hwind hadv

/-- **No connection need outlive its peer.** In every run in which each `close` call finds
room for its frame: from every state in which no handler has taken the main task down, the
connection can come to its end once its peer's stream ends, by steps of its own tasks, of
`close` calls that have stored `Closing` already, and of calls that stand at a send. -/
theorem hangup_leads_to_finished (h : (system cfg).ReachableWhen CloseHasRoom c)
    (hp : c.main.panicked = false) :
    ∃ c', (system cfg).PathWhen (fun c a => c.CloseHasRoom a ∧ endingStep c a = true) c c' ∧
      (c'.main = .finished ∨ c'.main = .rejected) := by
  refine System.exists_path (P := fun c => c.main.panicked = false) endingRank
    (fun _ _ ha => ha.1) ?_ h hp
  intro c hr hp
  cases he : c.main.ended with
  | true => exact .inl ((ended_iff hp).mp he)
  | false =>
    obtain ⟨a, c', ha, hadv⟩ := hangup_advances hr he
    exact .inr ⟨a, c', ⟨hadv.room, ha⟩, hadv.step,
      step_unpanicked hadv.step (not_panicked_of_ending ha) hp, hadv.lower⟩

theorem hangup_leads_to_finished_closing :
    ∃ c, (system (.postcard false)).Reachable c ∧ c.closeReturned = false ∧ isDown c.state = true ∧
      ∃ c', (system (.postcard false)).PathWhen
        (fun c a => c.CloseHasRoom a ∧ endingStep c a = true) c c' ∧
        (c'.main = .finished ∨ c'.main = .rejected) := by
  obtain ⟨c, hr, hc⟩ := System.exists_reachableWhen_of_execWhen
    (S := system (.postcard false)) (g := fewCallers 1)
    (l := List.flatten [readyRun, [.start 0 .close, .caller 0, .caller 0]])
    (p := fun c => !c.closeReturned && isDown c.state && !c.main.panicked) (by decide +kernel)
  simp only [Bool.and_eq_true, Bool.not_eq_true'] at hc
  exact ⟨c, hr.reachable, hc.1.1, hc.1.2,
    hangup_leads_to_finished (hr.imp fun _ _ => closeHasRoom_of_fewCallers) hc.2⟩

end Connection

end WsIo.Server
