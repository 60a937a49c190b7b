import WsIo.Client.Handles

/-!
# connect and disconnect come to their end

From every state that a run reaches in which no `connect` is dropped with the handle of its
send task, and in which no loop waits for a connection, the calls that have begun can come to
their end one after the other, in every order in which the lock can be handed to them, by
steps of their own and of the client's tasks: without a frame of the peer, a connection or
another call of a user, and with the timeout for every handler (`operation_completes`).

The calls are tasks of their own here. A call that `init_handler`, `on_session_close_handler`
or the request modifier awaits is none: it goes with the handler that `cleanup` or the abort
of the read task ends.

* `Session.advances`: a session that is not over goes on, at its `select!` by the token.
* `sender_stops`, `loop_ends`: the two waits of `disconnect`.
* `inside_resolves`: the call that holds the lock, by its own steps and those it waits for.
-/

namespace WsIo.Client

open Async Core

/-- A step of the owner or of a stream task that needs no frame and no handler: what it waits
for is ended by a timeout, an abort or the token. -/
def Action.own : Action → Bool
  | .owner .go | .owner .cancelled | .owner .elapsed | .owner (.closeHandler .timeout) => true
  | .read .go | .read .stop | .write .stop => true
  | _ => false

/-- How far the owner is from the end. -/
def OwnerPc.way : OwnerPc → Nat
  | .absent => 28
  | .initStore => 27
  | .spawnInitTimeout => 26
  | .storeInitTimeout => 25
  | .spawnPing => 24
  | .storePing => 23
  | .spawnRead => 22
  | .spawnWrite => 20
  | .publish => 18
  | .loadToken => 17
  | .select => 16
  | pc => pc.left

theorem OwnerPc.way_ending {pc : OwnerPc} (h : pc.ending = true) : pc.way = pc.left := by
  revert h
  cases pc <;> simp [OwnerPc.ending, OwnerPc.way]

namespace Session

variable {cfg : ClientConfig} {s s' : Session}

/-! ## A session goes on -/

/-- Where the owner awaits the stream tasks, a handle that has not yielded belongs to a task
that has been aborted. -/
structure Joins (s : Session) : Prop where
  read : s.owner = .awaitRead → s.readHandle = .consumed ∨ s.readAborted = true
  write : s.owner = .awaitRead ∨ s.owner = .awaitWrite →
    s.writeHandle = .consumed ∨ s.writeAborted = true

theorem joins_step {a : Action} (h : step cfg s a = some s') (hi : Joins s) : Joins s' := by
  by_cases ha : ∃ j, a = .owner j
  · obtain ⟨j, rfl⟩ := ha
    obtain ⟨h₁, h₂⟩ := hi
    simp only [step] at h
    cases j with
    | go =>
      simp only [ownerStep] at h
      cases ho : s.owner <;> simp only [ownerGo, ho] at h
      case awaitRead =>
        rcases awaitTask_cases h with ⟨-, -, rfl⟩ | ⟨-, rfl⟩
        · exact ⟨by simp, fun _ => h₂ (.inl ho)⟩
        · exact ⟨by simp, by simp⟩
      case awaitWrite =>
        rcases awaitTask_cases h with ⟨-, -, rfl⟩ | ⟨-, rfl⟩ <;> exact ⟨by simp, by simp⟩
      case close | onClose => split at h <;> cases h <;> exact ⟨by simp, by simp⟩
      case select | graceful | awaitingOnClose | finished | panicked => cases h
      all_goals
        cases h
        exact ⟨by simp, by simp⟩
    | cancelled | elapsed | closeHandler o | panicked =>
      simp only [ownerStep] at h
      split at h
      · cases h
        exact ⟨by simp, by simp⟩
      · cases h
    | readEnded | writeEnded =>
      simp only [ownerStep] at h
      split at h
      · split at h <;> cases h <;> exact ⟨by simp, by simp⟩
      · cases h
  · push Not at ha
    obtain ⟨e₁, -, e₃, e₄, e₅, e₆⟩ := step_not_owner h ha
    exact ⟨by rw [e₁, e₃, e₅]; exact hi.read, by rw [e₁, e₄, e₆]; exact hi.write⟩

theorem joins_of_reachable {guard : Session → Action → Prop}
    (h : (system cfg).ReachableWhen guard s) : Joins s :=
  h.invariant (I := Joins) ⟨by simp [system, initial], by simp [system, initial]⟩
    fun _ _ _ _ _ hs hi => joins_step hs hi

theorem spawned_of_reachable {guard : Session → Action → Prop}
    (h : (system cfg).ReachableWhen guard s) : Spawned s :=
  h.invariant (I := Spawned) ⟨by simp [system, initial, OwnerPc.beforeRead],
    by simp [system, initial, OwnerPc.beforeWrite, OwnerPc.beforeRead]⟩
    fun _ _ _ _ _ hs hi => spawned_step hs hi

/-- How far the session is from its end. -/
def way (s : Session) : Nat :=
  s.owner.way + s.read.left + if s.write = .ended then 0 else 1

/-- A step of the owner that leaves the stream tasks alone. -/
theorem way_owner (hr : s'.read = s.read) (hw : s'.write = s.write)
    (ho : s'.owner.way < s.owner.way) : s'.way < s.way := by
  simp only [way, hr, hw]
  omega

/-- A step of the read task. -/
theorem way_read {i : ReadInput} (h : readStep cfg s i = some s')
    (hlt : s'.read.left < s.read.left) : s'.way < s.way := by
  obtain ⟨ho, hw, -⟩ := readStep_frame h
  simp only [way, ho, hw]
  omega

/-- An aborted read task has a step of its own. -/
theorem read_goes_on (cfg : ClientConfig) (ha : s.readAborted = true) (h₀ : s.read ≠ .absent)
    (h₁ : s.read ≠ .ended) :
    ∃ b s', b.own = true ∧ b ≠ .owner .cancelled ∧ step cfg s b = some s' ∧ s'.way < s.way := by
  by_cases haw : s.read.awaits = true
  · have hs : readStep cfg s .stop = some { s with read := .ended } := by simp [readStep, ha, haw]
    refine ⟨.read .stop, _, rfl, by simp, hs, way_read hs ?_⟩
    revert haw
    cases s.read <;> simp [ReadPc.awaits, ReadPc.left]
  · obtain ⟨s', hs, hlt⟩ := readGo_advances cfg h₀ h₁ fun h => haw h.1
    have hstep : readStep cfg s .go = some s' := hs
    exact ⟨.read .go, s', rfl, by simp, hstep, way_read hstep hlt⟩

/-- Past its `select!` the owner polls the handles of the stream tasks. -/
theorem joins_go_on (h : (system cfg).Reachable s)
    (ho : s.owner = .awaitRead ∨ s.owner = .awaitWrite) :
    ∃ b s', b.own = true ∧ b ≠ .owner .cancelled ∧ step cfg s b = some s' ∧ s'.way < s.way := by
  have hjoins := joins_of_reachable h
  have hspawned := spawned_of_reachable h
  rcases ho with ho | ho
  · cases hh : s.readHandle with
    | consumed =>
      refine ⟨.owner .go, { s with owner := .panicked }, rfl, by simp, ?_,
        way_owner rfl rfl (by simp [ho, OwnerPc.way, OwnerPc.left])⟩
      simp [step, ownerStep, ownerGo, ho, awaitTask, hh, JoinHandle.poll]
    | pending =>
      by_cases hr : s.read = .ended
      · refine ⟨.owner .go, { s with owner := .awaitWrite }, rfl, by simp, ?_,
          way_owner rfl rfl (by simp [ho, OwnerPc.way, OwnerPc.left])⟩
        simp [step, ownerStep, ownerGo, ho, awaitTask, hh, hr, JoinHandle.poll]
      · have ha := (hjoins.read ho).resolve_left (by simp [hh])
        exact read_goes_on cfg ha (hspawned.read (by rw [ho]; rfl)) hr
  · cases hh : s.writeHandle with
    | consumed =>
      refine ⟨.owner .go, { s with owner := .panicked }, rfl, by simp, ?_,
        way_owner rfl rfl (by simp [ho, OwnerPc.way, OwnerPc.left])⟩
      simp [step, ownerStep, ownerGo, ho, awaitTask, hh, JoinHandle.poll]
    | pending =>
      by_cases hw : s.write = .ended
      · refine ⟨.owner .go, { s with owner := .clear }, rfl, by simp, ?_,
          way_owner rfl rfl (by simp [ho, OwnerPc.way, OwnerPc.left])⟩
        simp [step, ownerStep, ownerGo, ho, awaitTask, hh, hw, JoinHandle.poll]
      · have ha := (hjoins.write (.inr ho)).resolve_left (by simp [hh])
        have hpresent := hspawned.write (by rw [ho]; rfl)
        refine ⟨.write .stop, { s with toEndpoint := s.toEndpoint.dropReceiver, write := .ended }, rfl,
          by simp, ?_, by simp [way, hw]⟩
        cases hwp : s.write <;> simp_all [step, writeStep, Endpoint.writeStep]

/-- Past its `select!` the session goes on by itself. -/
theorem ending_goes_on (h : (system cfg).Reachable s) (ho : s.owner.ending = true) :
    ∃ b s', b.own = true ∧ b ≠ .owner .cancelled ∧ step cfg s b = some s' ∧ s'.way < s.way := by
  by_cases h₁ : s.owner = .graceful
  · exact ⟨.owner .elapsed, { s with owner := .awaitRead, readAborted := true, writeAborted := true },
      rfl, by simp, by simp [step, ownerStep, h₁],
      way_owner rfl rfl (by simp [h₁, OwnerPc.way, OwnerPc.left])⟩
  by_cases h₂ : s.owner = .awaitRead
  · exact joins_go_on h (.inl h₂)
  by_cases h₃ : s.owner = .awaitWrite
  · exact joins_go_on h (.inr h₃)
  by_cases h₄ : s.owner = .awaitingOnClose
  · exact ⟨.owner (.closeHandler .timeout), { s with
        owner := .storeClosed
        log := .returned .sessionClose .timeout :: s.log
        epilogue := s.epilogue ++ [.closeHandlerReturned] }, rfl, by simp,
      by simp [step, ownerStep, h₄], way_owner rfl rfl (by simp [h₄, OwnerPc.way, OwnerPc.left])⟩
  · obtain ⟨s', hs, hadv⟩ := ownerGo_advances cfg ho h₁ h₂ h₃ h₄
    refine ⟨.owner .go, s', rfl, by simp, hs, way_owner hadv.read hadv.write ?_⟩
    have hlt := hadv.owner
    rw [OwnerPc.way_ending ho]
    rcases hadv.ending with he | hf
    · rwa [OwnerPc.way_ending he]
    · rw [hf] at hlt ⊢
      exact hlt

/-- **A session that is not over goes on**, at its `select!` when the token is cancelled. -/
theorem advances (h : (system cfg).Reachable s) (hf : s.owner ≠ .finished)
    (hp : s.owner ≠ .panicked) :
    ∃ b s', b.own = true ∧ (b = .owner .cancelled → s.owner = .select) ∧ step cfg s b = some s' ∧
      s'.way < s.way := by
  cases he : s.owner.ending with
  | true =>
    obtain ⟨b, s', hb, hne, hs, hlt⟩ := ending_goes_on h he
    exact ⟨b, s', hb, fun hc => absurd hc hne, hs, hlt⟩
  | false =>
    cases ho : s.owner <;> rw [ho] at he
    case close | graceful | awaitRead | awaitWrite | clear | cleanupStore | abortInitTimeout |
        abortPing | abortReadyTimeout | cancel | onClose | awaitingOnClose | storeClosed => cases he
    case finished => exact absurd ho hf
    case panicked => exact absurd ho hp
    case select =>
      exact ⟨.owner .cancelled, { s with owner := .close .get }, rfl, fun _ => rfl,
        by simp [step, ownerStep, ho], way_owner rfl rfl (by simp [ho, OwnerPc.way, OwnerPc.left])⟩
    case spawnRead =>
      refine ⟨.owner .go, { s with owner := .spawnWrite, read := .next }, rfl, by simp,
        by simp [step, ownerStep, ownerGo, ho], ?_⟩
      simp only [way, ho, OwnerPc.way, ReadPc.left]
      omega
    case spawnWrite =>
      refine ⟨.owner .go, { s with owner := .publish, write := .recv }, rfl, by simp,
        by simp [step, ownerStep, ownerGo, ho], ?_⟩
      simp only [way, ho, OwnerPc.way, reduceCtorEq, if_false]
      split <;> omega
    all_goals
      refine ⟨.owner .go, _, rfl, by simp, by simp only [step, ownerStep, ownerGo, ho]; rfl, ?_⟩
      exact way_owner rfl rfl (by simp [ho, OwnerPc.way])

end Session

/-- How far an aborted send task is from a wait at which it stops; an attempt counts one more
before its check. -/
def SenderPc.left : SenderPc → Nat
  | .load _ none => 8
  | .attempt _ none _ => 6
  | .arm _ => 5
  | .load _ (some _) => 4
  | .attempt _ (some _) _ => 2
  | .lockRx | .recv | .wait _ _ => 1
  | .absent | .ended => 0

/-- The check of `emit_event_message` is due. -/
def Emitter.checks : Emitter → Bool
  | .check _ => true
  | .idle | .send _ | .done _ => false

namespace Runtime

variable {cfg : ClientConfig} {s s' : Runtime} {k p : Nat}

/-! ## Winding down -/

/-- The steps that call `k` needs: its own, those of the send tasks, the sessions' own, and
those of the loops that neither make a connection nor end the wait for one. -/
def Winding (k : Nat) (s : Runtime) : ClientAction → Prop
  | .call j => j = k
  | .sender _ | .stopSender _ => True
  | .loop _ .go => s.status ≠ .running
  | .loop _ .elapsed => True
  | .session _ b _ => b.own = true
  | _ => False

theorem Winding.keepsSender (s : Runtime) (a : ClientAction) (h : Winding k s a) :
    KeepsSender s a := by
  rintro j p rfl
  cases h

/-- No `connect` was dropped with the handle of its send task, and no loop waits for a
connection, a wait that has no timeout. -/
structure Calm (cfg : ClientConfig) (s : Runtime) : Prop where
  reachable : (system cfg).ReachableWhen KeepsSender s
  attempts : ∀ p, s.loops p ≠ .connecting

/-- The steps that a call needs lead no loop to a connection. -/
theorem winding_attempts {a : ClientAction} (ha : Winding k s a) (h : step cfg s a = some s')
    (hi : ∀ p, s.loops p ≠ .connecting) (p : Nat) : s'.loops p ≠ .connecting := by
  have hset : ∀ {q pc}, s'.loops = Function.update s.loops q pc → pc ≠ .connecting →
      s'.loops p ≠ .connecting := by
    intro q pc hl hpc
    by_cases hpq : p = q
    · rwa [hl, hpq, Function.update_self]
    · rw [hl, Function.update_of_ne hpq]
      exact hi p
  rcases step_loops h with hl | ⟨k, -, -, hl⟩ | ⟨q, pc, x, rfl, -, -, -⟩ |
    ⟨i, b, k, m, c, -, -, -, -, ⟨-, hl⟩ | ⟨-, hl⟩⟩
  · rw [hl]
    exact hi p
  · exact hset hl (by simp)
  · have hstep : loopStep cfg s q x = some s' := h
    cases x with
    | go =>
      have hst : s.status ≠ .running := ha
      simp only [loopStep] at hstep
      split at hstep <;> cases hstep <;> exact hset rfl (by simp [hst])
    | elapsed =>
      simp only [loopStep] at hstep
      split at hstep <;> cases hstep
      exact hset rfl (by simp)
    | connected i => exact ha.elim
    | failed => exact ha.elim
    | panicked => exact ha.elim
    | cancelled => exact ha.elim
  · exact hset hl (by simp)
  · exact hset hl (by simp)

theorem Calm.step {a : ClientAction} (hr : Calm cfg s) (ha : Winding k s a)
    (h : Runtime.step cfg s a = some s') : Calm cfg s' :=
  ⟨hr.reachable.step (ha.keepsSender s a) h, winding_attempts ha h hr.attempts⟩

theorem Calm.path (hr : Calm cfg s) (h : (system cfg).PathWhen (Winding k) s s') : Calm cfg s' := by
  induction h with
  | refl => exact hr
  | tail _ hs ih =>
    obtain ⟨a, ha, hs⟩ := hs
    exact ih.step ha hs

/-- By steps that call `k` needs the client can come to a state with the property. -/
def Leads (cfg : ClientConfig) (k : Nat) (s : Runtime) (Q : Runtime → Prop) : Prop :=
  ∃ s', (system cfg).PathWhen (Winding k) s s' ∧ Q s'

theorem Leads.refl {Q : Runtime → Prop} (h : Q s) : Leads cfg k s Q := ⟨s, .refl, h⟩

theorem Leads.step {Q : Runtime → Prop} {a : ClientAction} (ha : Winding k s a)
    (hs : step cfg s a = some s') (h : Leads cfg k s' Q) : Leads cfg k s Q := by
  obtain ⟨s₁, hpath, hq⟩ := h
  exact ⟨s₁, hpath.head ⟨a, ha, hs⟩, hq⟩

/-- One stage after the other. -/
theorem Leads.trans {Q R : Runtime → Prop} (hr : Calm cfg s) (h : Leads cfg k s Q)
    (hQ : ∀ s', Calm cfg s' → Q s' → Leads cfg k s' R) :
    Leads cfg k s R := by
  obtain ⟨s₁, hpath, hq⟩ := h
  obtain ⟨s₂, hpath', hR⟩ := hQ s₁ (hr.path hpath) hq
  exact ⟨s₂, hpath.trans hpath', hR⟩

/-- The rule for one stage: some step lowers the rank until the goal is reached. -/
theorem leads_of_rank {P Q : Runtime → Prop} (rank : Runtime → Nat)
    (hstep : ∀ s, Calm cfg s → P s → Q s ∨ ∃ a s', Winding k s a ∧
      step cfg s a = some s' ∧ P s' ∧ rank s' < rank s)
    (hr : Calm cfg s) (hP : P s) : Leads cfg k s Q := by
  refine System.exists_path (P := fun s => P s ∧ ∀ p, s.loops p ≠ .connecting) rank
    Winding.keepsSender ?_ hr.reachable ⟨hP, hr.attempts⟩
  rintro s hr ⟨hP, hcon⟩
  rcases hstep s ⟨hr, hcon⟩ hP with hq | ⟨a, s', ha, hs, hP', hlt⟩
  · exact .inl hq
  · exact .inr ⟨a, s', ha, hs, ⟨hP', winding_attempts ha hs hcon⟩, hlt⟩

/-- A step that is neither one of call `k` nor its drop leaves it where it is. -/
theorem step_other_call {a : ClientAction} (h : step cfg s a = some s') (ha : a ≠ .call k)
    (hd : a ≠ .drop k) (hk : s.calls k ≠ .idle) : s'.calls k = s.calls k := by
  rcases step_control h with ⟨-, hc⟩ | ⟨j, c, -, hidle, -, hc⟩ | ⟨j, rfl, hj⟩ | ⟨j, rfl, -, rfl⟩
  · rw [hc]
  · have hjk : k ≠ j := by
      rintro rfl
      exact hk hidle
    rw [hc, Function.update_of_ne hjk]
  · have hjk : k ≠ j := fun hjk => ha (hjk ▸ rfl)
    obtain ⟨-, c, hc, -⟩ := callStep_packet hj
    rw [hc, Function.update_of_ne hjk]
  · have hjk : k ≠ j := fun hjk => hd (hjk ▸ rfl)
    exact Function.update_of_ne hjk ..

/-! ## The send task stops -/

/-- The attempt under way has its check before it. -/
def attemptChecks (s : Runtime) (p : Nat) : Bool :=
  match (s.senders p).pc with
  | .attempt _ _ i => (s.sessions i).elim false fun x => (x.session.emitters p).checks
  | _ => false

def senderLeft (s : Runtime) (p : Nat) : Nat :=
  (s.senders p).pc.left + (s.attemptChecks p).toNat

theorem senderLeft_missed {s : Runtime} {m : Buffered} {armed : Option Nat}
    (h : (s.senders p).pc = missed m armed) : s.senderLeft p = (missed m armed).left := by
  cases armed <;> simp [senderLeft, attemptChecks, h, missed]

theorem senderLeft_attempt {s : Runtime} {m : Buffered} {armed : Option Nat} {i : Nat} {x : Member}
    (h : (s.senders p).pc = .attempt m armed i) (hx : s.sessions i = some x) :
    s.senderLeft p = (SenderPc.attempt m armed i).left + (x.session.emitters p).checks.toNat := by
  simp [senderLeft, attemptChecks, h, hx]

/-- The step frees the lock, or the task is closer to a wait. -/
structure Retires (cfg : ClientConfig) (s : Runtime) (p : Nat) (a : ClientAction) (s' : Runtime) :
    Prop where
  action : a = .sender p ∨ a = .stopSender p
  step : step cfg s a = some s'
  nearer : s'.rxLock = none ∨ ((s'.senders p).pc.holdsRx = true ∧ s'.senderLeft p < s.senderLeft p)

/-- An aborted send task that awaits stops there. -/
theorem waiting_retires (ha : (s.senders p).aborted = true)
    (hpc : (s.senders p).pc = .recv ∨ ∃ m armed, (s.senders p).pc = .wait m armed) :
    ∃ a s', Retires cfg s p a s' := by
  refine ⟨.stopSender p, s.endSender p, .inr rfl, ?_, .inl ?_⟩
  · rcases hpc with hpc | ⟨m, armed, hpc⟩ <;> simp [Runtime.step, stopSender, ha, hpc]
  · rcases hpc with hpc | ⟨m, armed, hpc⟩ <;> simp [endSender, setSender, hpc, SenderPc.holdsRx]

/-- A miss takes it to the second attempt or to the wait. -/
theorem missed_retires {r : Runtime} {m : Buffered} {armed : Option Nat}
    (hs : step cfg s (.sender p) = some (r.setSender p (missed m armed)))
    (hlt : (missed m armed).left < s.senderLeft p) : ∃ a s', Retires cfg s p a s' := by
  have hpc' : ((r.setSender p (missed m armed)).senders p).pc = missed m armed := by simp [setSender]
  refine ⟨.sender p, _, .inl rfl, hs, .inr ⟨?_, ?_⟩⟩
  · rw [hpc']
    exact holdsRx_missed ..
  · rw [senderLeft_missed hpc']
    exact hlt

theorem load_retires (hpub : SlotPublished s) (hem : Emitting s) {m : Buffered}
    {armed : Option Nat} (hpc : (s.senders p).pc = .load m armed) :
    ∃ a s', Retires cfg s p a s' := by
  have hleft : s.senderLeft p = (SenderPc.load m armed).left := by
    simp [senderLeft, attemptChecks, hpc]
  cases hslot : s.session with
  | none =>
    have hstep : step cfg s (.sender p) = some (s.setSender p (missed m armed)) := by
      simp [Runtime.step, senderStep, hpc, hslot]
    refine missed_retires hstep ?_
    rw [hleft]
    cases armed <;> simp [missed, SenderPc.left]
  | some i =>
    obtain ⟨x, hx, -⟩ := hpub i hslot
    -- no attempt is under way, so the session accepts a new one
    have hidle : emitting (x.session.emitters p) = false := by
      cases he : emitting (x.session.emitters p) with
      | false => rfl
      | true =>
        obtain ⟨_, _, hat⟩ := hem p i x hx he
        rw [hpc] at hat
        cases hat
    have hemit : Session.step cfg x.session (.emit p m.message) =
        some (x.session.setEmitter p (.check m.message)) := by
      simp only [Session.step, Session.emitStart]
      cases he : x.session.emitters p <;> rw [he] at hidle <;> first | rfl | cases hidle
    refine ⟨.sender p, (s.setMember i { x with session := x.session.setEmitter p (.check m.message) }
      ).setSender p (.attempt m armed i), .inl rfl, ?_, .inr ⟨?_, ?_⟩⟩
    · simp [Runtime.step, senderStep, hpc, hslot, sessionStep, hx, hemit]
    · simp [setSender, SenderPc.holdsRx]
    · rw [hleft]
      cases armed <;> simp [senderLeft, attemptChecks, setSender, setMember, SenderPc.left,
        Session.setEmitter, Emitter.checks]

theorem attempt_retires (hat : Attempts s) (ha : (s.senders p).aborted = true) {m : Buffered}
    {armed : Option Nat} {i : Nat} (hpc : (s.senders p).pc = .attempt m armed i) :
    ∃ a s', Retires cfg s p a s' := by
  obtain ⟨x, hx, he | he⟩ := hat p m armed i hpc
  · have hleft : s.senderLeft p = (SenderPc.attempt m armed i).left + 1 := by
      rw [senderLeft_attempt hpc hx, he]
      rfl
    have hmember : ∀ c, (s.setMember i { x with session := c }).sessions i =
        some { x with session := c } := fun c => by simp [setMember]
    by_cases hready : x.session.state = .ready
    · -- the check passes, and the send is next
      have hstep : Session.step cfg x.session (.emitter p) =
          some (x.session.setEmitter p (.send m.message)) := by
        simp [Session.step, Session.emitterStep, he, ensure, hready]
      have hafter : (s.setMember i { x with session := x.session.setEmitter p (.send m.message)
          }).afterAttempt p m armed i =
          s.setMember i { x with session := x.session.setEmitter p (.send m.message) } := by
        simp [afterAttempt, hmember, Session.setEmitter]
      refine ⟨.sender p, s.setMember i { x with session := x.session.setEmitter p (.send m.message) },
        .inl rfl, ?_, .inr ⟨?_, ?_⟩⟩
      · simp [Runtime.step, senderStep, hpc, sessionStep, hx, hstep, hafter]
      · show (s.senders p).pc.holdsRx = true
        rw [hpc]
        rfl
      · have hleft' := senderLeft_attempt
          (s := s.setMember i { x with session := x.session.setEmitter p (.send m.message) }) hpc
          (hmember _)
        rw [hleft, hleft']
        simp [Session.setEmitter, Emitter.checks]
    · obtain ⟨e, hstep⟩ : ∃ e, Session.step cfg x.session (.emitter p) =
          some (x.session.setEmitter p (.done (.error e))) := by
        simp only [Session.step, Session.emitterStep, he, ensure, hready, if_false]
        exact ⟨_, rfl⟩
      have hafter : (s.setMember i { x with session := x.session.setEmitter p (.done (.error e))
          }).afterAttempt p m armed i =
          (s.setMember i { x with session := x.session.setEmitter p (.done (.error e)) }).setSender p
            (missed m armed) := by
        simp [afterAttempt, hmember, Session.setEmitter]
      have hmiss : step cfg s (.sender p) = some ((s.setMember i
          { x with session := x.session.setEmitter p (.done (.error e)) }).setSender p
            (missed m armed)) := by
        simp [Runtime.step, senderStep, hpc, sessionStep, hx, hstep, hafter]
      refine missed_retires hmiss ?_
      rw [hleft]
      cases armed <;> simp [missed, SenderPc.left]
  · -- the send waits, so the abort takes effect
    have hdrop : Session.step cfg x.session (.drop p) = some (x.session.setEmitter p .idle) := by
      simp [Session.step, Session.emitDrop, he]
    refine ⟨.stopSender p, (s.setMember i { x with session := x.session.setEmitter p .idle }
      ).endSender p, .inr rfl, ?_, .inl ?_⟩
    · simp [Runtime.step, stopSender, ha, hpc, sessionStep, hx, hdrop]
    · simp [endSender, setSender, setMember, hpc, SenderPc.holdsRx]

/-- **An aborted send task that holds the receiver goes on to a wait and stops there.** -/
theorem sender_retires {guard : Runtime → ClientAction → Prop}
    (hr : (system cfg).ReachableWhen guard s) (ha : (s.senders p).aborted = true)
    (hh : (s.senders p).pc.holdsRx = true) : ∃ a s', Retires cfg s p a s' := by
  cases hpc : (s.senders p).pc with
  | absent | lockRx | ended =>
    rw [hpc] at hh
    cases hh
  | recv => exact waiting_retires ha (.inl hpc)
  | wait m armed => exact waiting_retires ha (.inr ⟨m, armed, hpc⟩)
  | load m armed => exact load_retires (slotPublished_of_reachable hr) (emitting_of_reachable hr) hpc
  | attempt m armed i => exact attempt_retires (attempts_of_reachable hr) ha hpc
  | arm m =>
    refine ⟨.sender p, s.setSender p (.load m (some s.notifications)), .inl rfl, ?_, .inr ⟨?_, ?_⟩⟩
    · simp [Runtime.step, senderStep, hpc]
    · simp [setSender, SenderPc.holdsRx]
    · simp [senderLeft, attemptChecks, setSender, hpc, SenderPc.left]

/-- The task that holds the lock of `send_event_message_rx` while a `disconnect` waits for
it. -/
theorem rx_holder (hr : (system cfg).ReachableWhen KeepsSender s) {packet : Option Nat}
    (hk : s.calls k = .disconnect packet .lockRx) :
    s.rxLock = none ∨ ∃ p, s.rxLock = some (.sender p) ∧ (s.senders p).aborted = true ∧
      (s.senders p).pc.holdsRx = true := by
  have hc := control_of_reachable hr
  have hrx := rxLock_of_reachable hr
  have hin : inside (s.calls k) = true := by
    rw [hk]
    rfl
  cases hl : s.rxLock with
  | none => exact .inl rfl
  | some holder =>
    cases holder with
    | sender p =>
      have hh := (hrx.senders p).mpr hl
      refine .inr ⟨p, rfl, ?_, hh⟩
      by_contra hna
      have hruns : (s.senders p).runs = true := by
        cases hpc : (s.senders p).pc <;> simp_all [Sender.runs, SenderPc.holdsRx]
      have hi := handles_of_reachable hr
      have hcur := current_of_inside hc hin
      have hslot := hi.senderSlot (.inl (by rw [hcur, hk]; rfl))
      rcases hi.sender p hruns with h | h
      · rw [hslot] at h
        cases h
      · rw [hcur, hk] at h
        cases h
    | call j =>
      -- a call that holds it is inside, so it is this one
      have hj := (hrx.calls j).mpr hl
      have hjk : j = k := by
        by_contra hne
        have hout := hc.outside hin hne
        cases hcj : s.calls j with
        | disconnect _ pc => cases pc <;> simp_all [inside, holdsRx]
        | _ => simp_all [holdsRx]
      rw [hjk, hk] at hj
      cases hj

/-- How far the task that holds the lock is from the wait where it stops. -/
def rxLeft (s : Runtime) : Nat :=
  match s.rxLock with
  | some (.sender p) => s.senderLeft p
  | _ => 0

theorem rxLeft_sender (h : s.rxLock = some (.sender p)) : s.rxLeft = s.senderLeft p := by
  simp [rxLeft, h]

/-- The lock of `send_event_message_rx` comes free. -/
theorem sender_stops (hr : Calm cfg s) {packet : Option Nat}
    (hk : s.calls k = .disconnect packet .lockRx) :
    Leads cfg k s fun s' => s'.calls k = .disconnect packet .lockRx ∧ s'.rxLock = none := by
  refine leads_of_rank (P := fun s => s.calls k = .disconnect packet .lockRx) rxLeft ?_ hr hk
  intro s hr hk
  rcases rx_holder hr.reachable hk with hl | ⟨p, hl, ha, hh⟩
  · exact .inl ⟨hk, hl⟩
  · obtain ⟨a, s', hact, hs, hnear⟩ := sender_retires hr.reachable ha hh
    have hwind : Winding k s a := by rcases hact with rfl | rfl <;> trivial
    have hk' : s'.calls k = .disconnect packet .lockRx := by
      rw [← hk]
      exact step_other_call hs (by rcases hact with rfl | rfl <;> simp)
        (by rcases hact with rfl | rfl <;> simp) (by simp [hk])
    refine .inr ⟨a, s', hwind, hs, hk', ?_⟩
    rw [rxLeft_sender hl]
    rcases hnear with hfree | ⟨hh', hlt⟩
    · have hpos : 0 < (s.senders p).pc.left := by
        revert hh
        cases (s.senders p).pc with
        | load m armed => cases armed <;> simp [SenderPc.left]
        | attempt m armed i => cases armed <;> simp [SenderPc.left]
        | _ => simp [SenderPc.left, SenderPc.holdsRx]
      simp only [rxLeft, hfree, senderLeft]
      omega
    · have hl' := ((rxLock_of_reachable (hr.step hwind hs).reachable).senders p).mp hh'
      rw [rxLeft_sender hl']
      exact hlt

/-! ## The loop ends -/

/-- How far a loop is from its end when the status is not `Running`. -/
def loopLeft (s : Runtime) (p : Nat) : Nat :=
  match s.loops p with
  | .absent | .ended => 0
  | .check => 1
  | .checkAgain | .sleeping _ => 2
  | .connecting | .loadToken => 3
  | .session i => 4 + (s.sessions i).elim 0 fun m => m.session.way

theorem loopLeft_session {i : Nat} {m : Member} (h : s.loops p = .session i)
    (hm : s.sessions i = some m) : s.loopLeft p = 4 + m.session.way := by
  simp [loopLeft, h, hm]

/-- The session of a loop brings it closer to its end. -/
theorem session_goes_on {guard : Runtime → ClientAction → Prop}
    (hr : (system cfg).ReachableWhen guard s) {i : Nat} (hl : s.loops p = .session i)
    (htok : ∀ m, s.sessions i = some m → m.session.owner = .select →
      ∃ t, m.token = some t ∧ s.cancelled t = true) :
    ∃ b n s', b.own = true ∧ step cfg s (.session i b n) = some s' ∧ s'.loopLeft p < s.loopLeft p := by
  obtain ⟨m, hm, hloop, hf, hp⟩ := loopSession_of_reachable hr p i hl
  have hreach : (Session.system cfg).Reachable m.session :=
    member_reachable (fun _ _ _ _ _ _ _ _ => trivial) hr hm
  obtain ⟨b, c, hb, hcan, hc, hlt⟩ := Session.advances hreach hf hp
  obtain ⟨n, hn⟩ := exists_idle hr
  have hidle := hn n (Nat.le_refl n)
  have hpermits : permits s m n b = true := by
    by_cases hbc : b = .owner .cancelled
    · obtain ⟨t, ht, hct⟩ := htok m hm (hcan hbc)
      simp [permits, hbc, ht, hct]
    · unfold permits
      split <;> first | exact absurd rfl hbc | cases hb | simp [hidle]
  obtain ⟨s', m', hs, hm', rfl⟩ := memberStep_of_permits hm hpermits hc
  refine ⟨b, n, s', hb, hs, ?_⟩
  rw [loopLeft_session hl hm]
  obtain ⟨m₁, c₁, hm₁, hc₁, ⟨hl', -⟩ | ⟨-, -, hl'⟩ | ⟨-, -, hl'⟩⟩ := memberStep_loops hs
  · rw [loopLeft_session (by rw [hl', hl]) hm']
    omega
  · rw [hm] at hm₁
    cases hm₁
    have hp' : s'.loops p = .checkAgain := by rw [hl', hloop, Function.update_self]
    simp only [loopLeft, hp']
    omega
  · rw [hm] at hm₁
    cases hm₁
    have hp' : s'.loops p = .ended := by rw [hl', hloop, Function.update_self]
    simp only [loopLeft, hp']
    omega

/-- **A loop goes on to its end** once the status is not `Running`, where it does not wait for
a connection and its session not for the token. -/
theorem loop_goes_on {guard : Runtime → ClientAction → Prop}
    (hr : (system cfg).ReachableWhen guard s) (hst : s.status ≠ .running)
    (hp : s.loops p ≠ .absent) (hne : s.loops p ≠ .ended) (hcon : s.loops p ≠ .connecting)
    (htok : ∀ i m, s.loops p = .session i → s.sessions i = some m → m.session.owner = .select →
      ∃ t, m.token = some t ∧ s.cancelled t = true) :
    ∃ a s', (∀ k, Winding k s a ∧ a ≠ .call k ∧ a ≠ .drop k) ∧ step cfg s a = some s' ∧
      s'.loopLeft p < s.loopLeft p := by
  have hself : ∀ pc, (s.setLoop p pc).loops p = pc := by simp [setLoop]
  cases hl : s.loops p with
  | absent => exact absurd hl hp
  | ended => exact absurd hl hne
  | check =>
    refine ⟨.loop p .go, s.setLoop p .ended, by simp [Winding, hst], ?_, ?_⟩
    · simp [step, loopStep, hl, hst]
    · simp [loopLeft, hself, hl]
  | connecting => exact absurd hl hcon
  | checkAgain =>
    refine ⟨.loop p .go, s.setLoop p .check, by simp [Winding, hst], ?_, ?_⟩
    · simp [step, loopStep, hl, hst]
    · simp [loopLeft, hself, hl]
  | loadToken =>
    refine ⟨.loop p .go, s.setLoop p (.sleeping s.cancelToken), by simp [Winding, hst], ?_, ?_⟩
    · simp [step, loopStep, hl]
    · simp [loopLeft, hself, hl]
  | sleeping token =>
    refine ⟨.loop p .elapsed, s.setLoop p .check, by simp [Winding], ?_, ?_⟩
    · simp [step, loopStep, hl]
    · simp [loopLeft, hself, hl]
  | session i =>
    obtain ⟨b, n, s', hb, hs, hlt⟩ := session_goes_on hr hl fun m hm ho => htok i m hl hm ho
    exact ⟨.session i b n, s', fun _ => ⟨hb, by simp, by simp⟩, hs, hlt⟩

/-- What a `disconnect` that awaits a loop has made sure of. -/
theorem awaited_loop (hr : (system cfg).ReachableWhen KeepsSender s) {packet : Option Nat}
    (hk : s.calls k = .disconnect packet (.awaitLoop p)) :
    s.status = .stopping ∧ s.loops p ≠ .absent ∧
      ∀ i m, s.loops p = .session i → s.sessions i = some m → m.session.owner = .select →
        ∃ t, m.token = some t ∧ s.cancelled t = true := by
  have hc := control_of_reachable hr
  have hi := handles_of_reachable hr
  have hin : inside (s.calls k) = true := by
    rw [hk]
    rfl
  have hcur : s.current = .disconnect packet (.awaitLoop p) := (current_of_inside hc hin).trans hk
  obtain ⟨hper, hpresent⟩ := hi.loopHandle p (.inr (by rw [hcur]; rfl))
  refine ⟨hc.status k .stopping (by rw [hk]; rfl), hpresent, fun i m hl hm ho => ?_⟩
  -- the loop is that of the period, so its session can only have loaded the present token
  obtain ⟨m₁, hm₁, hloop, -, -⟩ := loopSession_of_reachable hr p i hl
  rw [hm] at hm₁
  cases hm₁
  obtain ⟨t, ht, hle, hle'⟩ := (tokens_of_reachable hr).select i m hm ho
  have htok := hc.token_inside hin (by rw [hk]; simp)
  have heq : t = s.cancelToken := by omega
  exact ⟨t, ht, by rw [heq]; exact hi.cancelled (by rw [hcur]; rfl)⟩

/-- The loop that a `disconnect` awaits comes to its end. -/
theorem loop_ends (hr : Calm cfg s) {packet : Option Nat}
    (hk : s.calls k = .disconnect packet (.awaitLoop p)) :
    Leads cfg k s fun s' => s'.calls k = .disconnect packet (.awaitLoop p) ∧ s'.loops p = .ended := by
  refine leads_of_rank (P := fun s => s.calls k = .disconnect packet (.awaitLoop p))
    (fun s => s.loopLeft p) ?_ hr hk
  intro s hr hk
  by_cases hend : s.loops p = .ended
  · exact .inl ⟨hk, hend⟩
  · obtain ⟨hst, hp, htok⟩ := awaited_loop hr.reachable hk
    obtain ⟨a, s', ha, hs, hlt⟩ :=
      loop_goes_on hr.reachable (by rw [hst]; simp) hp hend (hr.attempts p) htok
    obtain ⟨hwind, hcall, hdrop⟩ := ha k
    refine .inr ⟨a, s', hwind, hs, ?_, hlt⟩
    rw [← hk]
    exact step_other_call hs hcall hdrop (by simp [hk])

/-! ## The call inside -/

/-- The call has returned with the status, and the lock is free. -/
def Completed (k : Nat) (st : RuntimeStatus) (s : Runtime) : Prop :=
  s.operateLock = none ∧ s.calls k = .done ∧ s.status = st

theorem Leads.call {Q : Runtime → Prop} (hr : Calm cfg s)
    (hs : callStep s k = some s')
    (h : Calm cfg s' → Leads cfg k s' Q) : Leads cfg k s Q := by
  have hwind : Winding k s (.call k) := rfl
  exact .step hwind hs (h (hr.step hwind hs))

theorem callStep_connect {pc : ConnectPc} (hk : s.calls k = .connect pc) :
    callStep s k = connectStep s k pc := by
  rw [callStep, hk]

theorem callStep_disconnect {packet : Option Nat} {pc : DisconnectPc}
    (hk : s.calls k = .disconnect packet pc) : callStep s k = disconnectStep s k packet pc := by
  rw [callStep, hk]

/-- A `connect` that holds the lock waits for nothing. -/
theorem connect_completes (hr : Calm cfg s) {pc : ConnectPc}
    (hk : s.calls k = .connect pc) (hl : pc ≠ .lock)
    (hst : pc = .get → s.status ≠ .stopping) : Leads cfg k s (Completed k .running) := by
  have storeSender : ∀ s p, Calm cfg s →
      s.calls k = .connect (.storeSender p) → Leads cfg k s (Completed k .running) := by
    intro s p hr hk
    have hst := (control_of_reachable hr.reachable).status k .running (by rw [hk]; rfl)
    exact .call hr ((callStep_connect hk).trans rfl) fun _ =>
      .refl ⟨rfl, Function.update_self .., hst⟩
  have spawnSender : ∀ s, Calm cfg s →
      s.calls k = .connect .spawnSender → Leads cfg k s (Completed k .running) := fun s hr hk =>
    .call hr ((callStep_connect hk).trans rfl) fun hr' => storeSender _ _ hr' (Function.update_self ..)
  have storeLoop : ∀ s p, Calm cfg s →
      s.calls k = .connect (.storeLoop p) → Leads cfg k s (Completed k .running) := fun s p hr hk =>
    .call hr ((callStep_connect hk).trans rfl) fun hr' => spawnSender _ hr' (Function.update_self ..)
  have spawnLoop : ∀ s, Calm cfg s →
      s.calls k = .connect .spawnLoop → Leads cfg k s (Completed k .running) := fun s hr hk =>
    .call hr ((callStep_connect hk).trans rfl) fun hr' => storeLoop _ _ hr' (Function.update_self ..)
  have storeToken : ∀ s, Calm cfg s →
      s.calls k = .connect .storeToken → Leads cfg k s (Completed k .running) := fun s hr hk =>
    .call hr ((callStep_connect hk).trans rfl) fun hr' => spawnLoop _ hr' (Function.update_self ..)
  have storeRunning : ∀ s, Calm cfg s →
      s.calls k = .connect .storeRunning → Leads cfg k s (Completed k .running) := fun s hr hk =>
    .call hr ((callStep_connect hk).trans rfl) fun hr' => storeToken _ hr' (Function.update_self ..)
  cases pc with
  | lock => exact absurd rfl hl
  | get =>
    cases hs : s.status with
    | stopping => exact absurd hs (hst rfl)
    | running =>
      have hstep : callStep s k = some (s.finishCall k .done) := by
        simp [callStep_connect hk, connectStep, hs]
      exact .call hr hstep fun _ => .refl ⟨rfl, Function.update_self .., hs⟩
    | stopped =>
      have hstep : callStep s k = some (s.setCall k (.connect .storeRunning)) := by
        simp [callStep_connect hk, connectStep, hs]
      exact .call hr hstep fun hr' => storeRunning _ hr' (Function.update_self ..)
  | storeRunning => exact storeRunning s hr hk
  | storeToken => exact storeToken s hr hk
  | spawnLoop => exact spawnLoop s hr hk
  | storeLoop p => exact storeLoop s p hr hk
  | spawnSender => exact spawnSender s hr hk
  | storeSender p => exact storeSender s p hr hk

/-- The `disconnect` empties the buffer. -/
theorem drain_ends (hr : Calm cfg s) {packet : Option Nat}
    (hk : s.calls k = .disconnect packet .drain) :
    Leads cfg k s fun s' => s'.calls k = .disconnect packet .takeLoop := by
  refine leads_of_rank (P := fun s => s.calls k = .disconnect packet .drain ∨
      s.calls k = .disconnect packet .takeLoop)
    (fun s => s.buffer.queue.length + if s.calls k = .disconnect packet .drain then 1 else 0) ?_ hr
    (.inl hk)
  rintro s hr (hk | hk)
  · cases hq : s.buffer.recv with
    | none =>
      have hstep : callStep s k = some (s.setCall k (.disconnect packet .takeLoop)) := by
        simp [callStep_disconnect hk, disconnectStep, hq]
      refine .inr ⟨.call k, _, rfl, hstep, .inr (Function.update_self ..), ?_⟩
      simp [setCall, hk]
    | some r =>
      obtain ⟨m, buffer⟩ := r
      have hstep : callStep s k = some { s with buffer } := by
        simp [callStep_disconnect hk, disconnectStep, hq]
      obtain ⟨hqueue, -⟩ := Channel.recv_some hq
      refine .inr ⟨.call k, _, rfl, hstep, .inl hk, ?_⟩
      simp [hqueue, hk]
  · exact .inl hk

/-- A `disconnect` that has stored `Stopping` stores `Stopped`. -/
theorem disconnect_completes (hr : Calm cfg s) {packet : Option Nat}
    {pc : DisconnectPc} (hk : s.calls k = .disconnect packet pc) (hl : pc ≠ .lock)
    (hst : pc = .get → s.status ≠ .stopping) : Leads cfg k s (Completed k .stopped) := by
  have storeStopped : ∀ s, Calm cfg s →
      s.calls k = .disconnect packet .storeStopped → Leads cfg k s (Completed k .stopped) :=
    fun s hr hk => .call hr ((callStep_disconnect hk).trans rfl) fun _ =>
      .refl ⟨rfl, Function.update_self .., rfl⟩
  have awaitLoop : ∀ s p, Calm cfg s →
      s.calls k = .disconnect packet (.awaitLoop p) → Leads cfg k s (Completed k .stopped) := by
    intro s p hr hk
    refine (loop_ends hr hk).trans hr fun s hr h => ?_
    obtain ⟨hk, hend⟩ := h
    have hstep : callStep s k = some (s.setCall k (.disconnect packet .storeStopped)) := by
      simp [callStep_disconnect hk, disconnectStep, hend]
    exact .call hr hstep fun hr' => storeStopped _ hr' (Function.update_self ..)
  have takeLoop : ∀ s, Calm cfg s →
      s.calls k = .disconnect packet .takeLoop → Leads cfg k s (Completed k .stopped) := by
    intro s hr hk
    cases ht : s.connectionLoopTask with
    | none =>
      have hstep : callStep s k = some (s.setCall k (.disconnect packet .storeStopped)) := by
        simp [callStep_disconnect hk, disconnectStep, ht]
      exact .call hr hstep fun hr' => storeStopped _ hr' (Function.update_self ..)
    | some p =>
      have hstep : callStep s k = some ({ s with connectionLoopTask := none }.setCall k
          (.disconnect packet (.awaitLoop p))) := by
        simp [callStep_disconnect hk, disconnectStep, ht]
      exact .call hr hstep fun hr' => awaitLoop _ p hr' (Function.update_self ..)
  have drain : ∀ s, Calm cfg s →
      s.calls k = .disconnect packet .drain → Leads cfg k s (Completed k .stopped) :=
    fun s hr hk => (drain_ends hr hk).trans hr takeLoop
  have lockRx : ∀ s, Calm cfg s →
      s.calls k = .disconnect packet .lockRx → Leads cfg k s (Completed k .stopped) := by
    intro s hr hk
    refine (sender_stops hr hk).trans hr fun s hr h => ?_
    obtain ⟨hk, hfree⟩ := h
    have hstep : callStep s k = some ({ s with rxLock := some (.call k) }.setCall k
        (.disconnect packet .drain)) := by
      simp [callStep_disconnect hk, disconnectStep, hfree]
    exact .call hr hstep fun hr' => drain _ hr' (Function.update_self ..)
  have cancel : ∀ s, Calm cfg s →
      s.calls k = .disconnect packet .cancel → Leads cfg k s (Completed k .stopped) :=
    fun s hr hk => .call hr ((callStep_disconnect hk).trans rfl) fun hr' =>
      lockRx _ hr' (Function.update_self ..)
  have abortSender : ∀ s, Calm cfg s →
      s.calls k = .disconnect packet .abortSender → Leads cfg k s (Completed k .stopped) := by
    intro s hr hk
    cases ht : s.sendEventMessageTask with
    | none =>
      have hstep : callStep s k = some (s.setCall k (.disconnect packet .cancel)) := by
        simp [callStep_disconnect hk, disconnectStep, ht]
      exact .call hr hstep fun hr' => cancel _ hr' (Function.update_self ..)
    | some p =>
      have hstep : callStep s k = some (({ s with sendEventMessageTask := none }.abortSender p).setCall
          k (.disconnect packet .cancel)) := by
        simp [callStep_disconnect hk, disconnectStep, ht]
      exact .call hr hstep fun hr' => cancel _ hr' (Function.update_self ..)
  have storeStopping : ∀ s, Calm cfg s →
      s.calls k = .disconnect packet .storeStopping → Leads cfg k s (Completed k .stopped) :=
    fun s hr hk => .call hr ((callStep_disconnect hk).trans rfl) fun hr' =>
      abortSender _ hr' (Function.update_self ..)
  cases pc with
  | lock => exact absurd rfl hl
  | get =>
    cases hs : s.status with
    | stopping => exact absurd hs (hst rfl)
    | stopped =>
      have hstep : callStep s k = some (s.finishCall k .done) := by
        simp [callStep_disconnect hk, disconnectStep, hs]
      exact .call hr hstep fun _ => .refl ⟨rfl, Function.update_self .., hs⟩
    | running =>
      have hstep : callStep s k = some (s.setCall k (.disconnect packet .storeStopping)) := by
        simp [callStep_disconnect hk, disconnectStep, hs]
      exact .call hr hstep fun hr' => storeStopping _ hr' (Function.update_self ..)
  | storeStopping => exact storeStopping s hr hk
  | abortSender => exact abortSender s hr hk
  | cancel => exact cancel s hr hk
  | lockRx => exact lockRx s hr hk
  | drain => exact drain s hr hk
  | takeLoop => exact takeLoop s hr hk
  | awaitLoop p => exact awaitLoop s p hr hk
  | storeStopped => exact storeStopped s hr hk

/-! ## Every call -/

/-- The status that a call which has begun is there to reach. -/
def target : Call → Option RuntimeStatus
  | .connect _ => some .running
  | .disconnect _ _ => some .stopped
  | .idle | .done | .dropped | .panicked => none

/-- The status is `Stopping` and the `disconnect` that stored it is gone. -/
def Wedged (s : Runtime) : Prop :=
  s.status = .stopping ∧ ∀ j, stopping (s.calls j) = false

/-- The call has come to its end: it has panicked in a wedged runtime, and returned with its
status otherwise. -/
structure Resolved (s : Runtime) (k : Nat) (st : RuntimeStatus) (s' : Runtime) : Prop where
  free : s'.operateLock = none
  returned : ¬ Wedged s → s'.calls k = .done ∧ s'.status = st
  panicked : Wedged s → s'.calls k = .panicked ∧ s'.status = .stopping

theorem Resolved.of_completed {st : RuntimeStatus} (hw : ¬ Wedged s) (h : Completed k st s') :
    Resolved s k st s' :=
  ⟨h.1, fun _ => h.2, fun h => absurd h hw⟩

/-- `connect` and `disconnect` panic at `Stopping`. -/
theorem get_panics {st : RuntimeStatus} (hw : Wedged s)
    (hk : s.calls k = .connect .get ∨ ∃ packet, s.calls k = .disconnect packet .get) :
    Leads cfg k s (Resolved s k st) := by
  have hstep : callStep s k = some (s.finishCall k .panicked) := by
    rcases hk with hk | ⟨packet, hk⟩
    · simp [callStep_connect hk, connectStep, hw.1]
    · simp [callStep_disconnect hk, disconnectStep, hw.1]
  have hwind : Winding k s (.call k) := rfl
  refine .step hwind hstep (.refl ⟨rfl, fun h => absurd hw h, fun _ => ⟨?_, hw.1⟩⟩)
  exact Function.update_self ..

/-- The call that holds the lock comes to its end by itself. -/
theorem inside_resolves (hr : Calm cfg s)
    (hin : inside (s.calls k) = true) {st : RuntimeStatus} (hk : target (s.calls k) = some st) :
    Leads cfg k s (Resolved s k st) := by
  have hc := control_of_reachable hr.reachable
  by_cases hw : Wedged s
  · -- a call past its `get` knows the status, and it is not `Stopping` or the call has stored it
    have hnone : statusAt (s.calls k) = none := by
      cases hs : statusAt (s.calls k) with
      | none => rfl
      | some st' =>
        obtain rfl : st' = .stopping := (hc.status k st' hs).symm.trans hw.1
        rw [statusAt_stopping, hw.2 k] at hs
        cases hs
    refine get_panics hw ?_
    cases hcall : s.calls k with
    | connect pc => cases pc <;> simp_all [inside, statusAt]
    | disconnect packet pc => cases pc <;> simp_all [inside, statusAt]
    | _ => simp_all [inside]
  · -- a call at its `get` is the only one inside, so it does not find `Stopping`
    have hget : stopping (s.calls k) = false → s.status ≠ .stopping := by
      intro hns hst
      refine hw ⟨hst, fun j => ?_⟩
      by_cases hjk : j = k
      · rw [hjk, hns]
      · cases hj : stopping (s.calls j) with
        | false => rfl
        | true =>
          have hin' := statusAt_inside (statusAt_stopping.mpr hj)
          rw [hc.outside hin hjk] at hin'
          cases hin'
    cases hcall : s.calls k with
    | connect pc =>
      rw [hcall] at hk hin hget
      cases hk
      have hl : pc ≠ .lock := by
        rintro rfl
        cases hin
      obtain ⟨s', hpath, hdone⟩ := connect_completes hr hcall hl fun _ => hget rfl
      exact ⟨s', hpath, .of_completed hw hdone⟩
    | disconnect packet pc =>
      rw [hcall] at hk hin hget
      cases hk
      have hl : pc ≠ .lock := by
        rintro rfl
        cases hin
      obtain ⟨s', hpath, hdone⟩ := disconnect_completes hr hcall hl fun hpc => hget (by rw [hpc]; rfl)
      exact ⟨s', hpath, .of_completed hw hdone⟩
    | _ =>
      rw [hcall] at hk
      cases hk

/-- A call that waits takes the free lock. -/
theorem waiting_enters (hc : Control s) (hfree : s.operateLock = none) {st : RuntimeStatus}
    (hk : target (s.calls k) = some st) :
    ∃ s', callStep s k = some s' ∧ inside (s'.calls k) = true ∧ target (s'.calls k) = some st ∧
      (Wedged s' ↔ Wedged s) := by
  have hout := hc.unlocked hfree k
  have hwedged : ∀ c, stopping c = false → stopping (s.calls k) = false →
      (Wedged ({ s with operateLock := some k }.setCall k c) ↔ Wedged s) := by
    intro c hns hns'
    refine and_congr Iff.rfl (forall_congr' fun j => ?_)
    by_cases hjk : j = k
    · simp [setCall, hjk, hns, hns']
    · simp [setCall, Function.update_of_ne hjk]
  cases hcall : s.calls k with
  | connect pc =>
    rw [hcall] at hk hout
    obtain rfl : pc = .lock := by cases pc <;> first | rfl | cases hout
    refine ⟨{ s with operateLock := some k }.setCall k (.connect .get), ?_, ?_, ?_,
      hwedged _ rfl (by rw [hcall]; rfl)⟩
    · simp [callStep_connect hcall, connectStep, hfree]
    · simp [setCall, inside]
    · simpa [setCall, target] using hk
  | disconnect packet pc =>
    rw [hcall] at hk hout
    obtain rfl : pc = .lock := by cases pc <;> first | rfl | cases hout
    refine ⟨{ s with operateLock := some k }.setCall k (.disconnect packet .get), ?_, ?_, ?_,
      hwedged _ rfl (by rw [hcall]; rfl)⟩
    · simp [callStep_disconnect hcall, disconnectStep, hfree]
    · simp [setCall, inside]
    · simpa [setCall, target] using hk
  | _ =>
    rw [hcall] at hk
    cases hk

theorem free_resolves (hr : Calm cfg s) (hfree : s.operateLock = none)
    {st : RuntimeStatus} (hk : target (s.calls k) = some st) : Leads cfg k s (Resolved s k st) := by
  obtain ⟨s₁, hs, hin, hk₁, hw⟩ := waiting_enters (control_of_reachable hr.reachable) hfree hk
  refine .call hr hs fun hr₁ => ?_
  obtain ⟨s', hpath, hres⟩ := inside_resolves hr₁ hin hk₁
  exact ⟨s', hpath, hres.free, fun h => hres.returned (mt hw.mp h), fun h => hres.panicked (hw.mpr h)⟩

/-- The steps that one call needs leave another where it is. -/
theorem winding_keeps {j : Nat} (hjk : k ≠ j) (hk : s.calls k ≠ .idle)
    (h : (system cfg).PathWhen (Winding j) s s') : s'.calls k = s.calls k := by
  induction h with
  | refl => rfl
  | tail _ hs ih =>
    obtain ⟨a, ha, hs⟩ := hs
    have hcall : a ≠ .call k := by
      rintro rfl
      exact hjk ha
    have hdrop : a ≠ .drop k := by
      rintro rfl
      exact ha
    rw [step_other_call hs hcall hdrop (by rw [ih]; exact hk), ih]

/-- A call that has begun still has its end before it after the steps that another one needs. -/
theorem begun_keeps {j : Nat} (hjk : j ≠ k) (hj : (target (s.calls j)).isSome = true)
    (h : (system cfg).PathWhen (Winding k) s s') : (target (s'.calls j)).isSome = true := by
  have hne : s.calls j ≠ .idle := by
    intro hidle
    rw [hidle] at hj
    cases hj
  rwa [winding_keeps hjk hne h]

/-- The calls come to their end one after the other, each by steps that it needs. -/
def Served (cfg : ClientConfig) : Runtime → List Nat → Prop
  | _, [] => True
  | s, k :: ks => ∃ st s', target (s.calls k) = some st ∧ (system cfg).PathWhen (Winding k) s s' ∧
      Resolved s k st s' ∧ Served cfg s' ks

/-- With the lock free the calls can take it in every order. -/
theorem free_served (ks : List Nat) : ∀ {s : Runtime}, Calm cfg s → s.operateLock = none → ks.Nodup →
    (∀ k ∈ ks, (target (s.calls k)).isSome) → Served cfg s ks := by
  induction ks with
  | nil => exact fun _ _ _ _ => trivial
  | cons k ks ih =>
    intro s hr hfree hn hks
    obtain ⟨hk, hn⟩ := List.nodup_cons.mp hn
    obtain ⟨st, hst⟩ := Option.isSome_iff_exists.mp (hks k List.mem_cons_self)
    obtain ⟨s', hpath, hres⟩ := free_resolves hr hfree hst
    refine ⟨st, s', hst, hpath, hres, ih (hr.path hpath) hres.free hn fun j hj => ?_⟩
    -- the other calls wait where they were
    exact begun_keeps (ne_of_mem_of_not_mem hj hk) (hks j (List.mem_cons_of_mem k hj)) hpath

/-- **The `connect`s and `disconnect`s that have begun can all come to their end** by steps of
their own and of the client's tasks, one after the other and in every order in which the lock
can be handed to them, in every run in which no `connect` is dropped with the handle of its send
task and from every state in which no loop waits for a connection: each frees the lock and
returns with `Running` or `Stopped`, and it panics only in a runtime that a dropped `disconnect`
has left in `Stopping`. -/
theorem operation_completes {cfg : ClientConfig} {s : Runtime}
    (hr : (system cfg).ReachableWhen KeepsSender s) (hcon : ∀ p, s.loops p ≠ .connecting)
    {ks : List Nat} (hn : ks.Nodup) (hks : ∀ k ∈ ks, (target (s.calls k)).isSome)
    (hlock : ∀ k, s.operateLock = some k → ks.head? = some k) : Served cfg s ks := by
  have hcalm : Calm cfg s := ⟨hr, hcon⟩
  cases hl : s.operateLock with
  | none => exact free_served ks hcalm hl hn hks
  | some k =>
    -- the call that holds the lock comes first
    obtain ⟨ks, rfl⟩ : ∃ ks', ks = k :: ks' := by
      cases ks with
      | nil => cases hlock k hl
      | cons j ks =>
        cases hlock k hl
        exact ⟨ks, rfl⟩
    obtain ⟨hk, hn⟩ := List.nodup_cons.mp hn
    have hin : inside (s.calls k) = true := ((control_of_reachable hr).exclusive k).mpr hl
    obtain ⟨st, hst⟩ := Option.isSome_iff_exists.mp (hks k List.mem_cons_self)
    obtain ⟨s', hpath, hres⟩ := inside_resolves hcalm hin hst
    refine ⟨st, s', hst, hpath, hres, free_served ks (hcalm.path hpath) hres.free hn fun j hj => ?_⟩
    exact begun_keeps (ne_of_mem_of_not_mem hj hk) (hks j (List.mem_cons_of_mem k hj)) hpath

/-- The step drops no call. -/
def undropped : ClientAction → Bool
  | .drop _ => false
  | _ => true

/-- A `disconnect` awaits the loop, whose session is at its `select!`, and a `connect` waits for
the lock: first the one ends, then the other. -/
theorem operation_completes_run :
    ∃ s, (system (.postcard false)).ReachableWhen KeepsSender s ∧
      s.calls 1 = .disconnect none (.awaitLoop 1) ∧ s.loops 1 = .session 0 ∧
      s.calls 3 = .connect .lock ∧ Served (.postcard false) s [1, 3] := by
  obtain ⟨s, hr, hs⟩ := System.exists_reachableWhen_of_execWhen
    (S := system (.postcard false)) (g := fun _ => undropped)
    (l := List.flatten [callRun 0 8 .connect, [.loop 1 .go, .loop 1 (.connected 0)],
      sessionRun 0 2 (List.replicate 10 (.owner .go)), callRun 1 5 .disconnect, [.stopSender 1],
      List.replicate 3 (.call 1), [.start 3 .connect]])
    (p := fun s => decide ((s.calls 1 = .disconnect none (.awaitLoop 1) ∧
      s.loops 1 = .session 0 ∧ s.calls 3 = .connect .lock) ∧ s.operateLock = some 1 ∧
      s.cancelToken = 1 ∧ s.loops 0 = .absent)) (by decide +kernel)
  have hr' : (system (.postcard false)).ReachableWhen KeepsSender s := by
    refine hr.mono fun s a ha k p hk => ?_
    subst hk
    cases ha
  obtain ⟨⟨h₁, hloop, h₃⟩, hlock, htok, h₀⟩ := of_decide_eq_true hs
  refine ⟨s, hr', h₁, hloop, h₃, operation_completes hr' (fun p hp => ?_) (by decide) ?_ ?_⟩
  · have hle := (tokens_of_reachable hr).loops p (by simp [hp])
    rw [htok] at hle
    obtain rfl | rfl : p = 0 ∨ p = 1 := by omega
    · rw [h₀] at hp
      cases hp
    · rw [hloop] at hp
      cases hp
  · simp [h₁, h₃, target]
  · intro k hk
    rw [hlock] at hk
    exact hk

end Runtime

end WsIo.Client
