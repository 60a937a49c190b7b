import WsIo.Server.Namespaces
import WsIo.Server.Rooms

/-!
# Whom a broadcast reaches

An operator collects rooms to include, rooms to exclude and ids to exclude.
`for_each_target_connections` reads the registries room by room while other tasks change
them, and looks every id up once more when it starts the action on it. What it owes a
connection depends only on what stays true of the connection during the whole call
(`broadcast_targets`): on one that is meant all along the action is started exactly once, on
one that is ruled out all along by one and the same reason never. What it has started is read
off the steps of the run (`startedCalls`).
-/

namespace WsIo.Server

open Async Core

/-! ## Operators -/

/-- The calls that build an operator. -/
inductive OperatorCall
  | to (rooms : List String)
  | except (rooms : List String)
  | exceptConnectionIds (ids : List Nat)
  deriving DecidableEq, Repr

namespace Operator

/-- `to`, `except` and `except_connection_ids`. -/
def apply (op : Operator) : OperatorCall → Operator
  | .to rooms => { op with includeRooms := op.includeRooms ∪ rooms }
  | .except rooms => { op with excludeRooms := op.excludeRooms ∪ rooms }
  | .exceptConnectionIds ids => { op with excludeConnectionIds := op.excludeConnectionIds ∪ ids }

/-- The operator that a sequence of calls builds. -/
def build (calls : List OperatorCall) : Operator := calls.foldl apply .new

/-- `WsIoServerConnection::to`. -/
def connectionTo (id : Nat) (rooms : List String) : List OperatorCall :=
  [.to rooms, .exceptConnectionIds [id]]

/-- `WsIoServerConnection::except`. -/
def connectionExcept (id : Nat) (rooms : List String) : List OperatorCall :=
  [.except rooms, .exceptConnectionIds [id]]

/-- The rooms that the calls include. -/
def Includes (calls : List OperatorCall) (room : String) : Prop :=
  ∃ rooms, .to rooms ∈ calls ∧ room ∈ rooms

/-- The rooms that the calls exclude. -/
def Excludes (calls : List OperatorCall) (room : String) : Prop :=
  ∃ rooms, .except rooms ∈ calls ∧ room ∈ rooms

/-- The ids that the calls exclude. -/
def ExcludesId (calls : List OperatorCall) (id : Nat) : Prop :=
  ∃ ids, .exceptConnectionIds ids ∈ calls ∧ id ∈ ids

/-- The operator holds what the calls collected, in whatever order its sets iterate. -/
structure Collects (op : Operator) (calls : List OperatorCall) : Prop where
  includes : ∀ room, room ∈ op.includeRooms ↔ Includes calls room
  excludes : ∀ room, room ∈ op.excludeRooms ↔ Excludes calls room
  excludesId : ∀ id, id ∈ op.excludeConnectionIds ↔ ExcludesId calls id

/-- Each kind of call adds to its own set, whatever the order of the calls. -/
theorem mem_foldl_apply (op : Operator) (calls : List OperatorCall) :
    (∀ room, room ∈ (calls.foldl apply op).includeRooms ↔
      room ∈ op.includeRooms ∨ Includes calls room) ∧
    (∀ room, room ∈ (calls.foldl apply op).excludeRooms ↔
      room ∈ op.excludeRooms ∨ Excludes calls room) ∧
    ∀ id, id ∈ (calls.foldl apply op).excludeConnectionIds ↔
      id ∈ op.excludeConnectionIds ∨ ExcludesId calls id := by
  unfold Includes Excludes ExcludesId
  induction calls generalizing op with
  | nil => simp
  | cons c calls ih =>
    obtain ⟨h₁, h₂, h₃⟩ := ih (op.apply c)
    refine ⟨fun room => ?_, fun room => ?_, fun id => ?_⟩
    · rw [List.foldl_cons, h₁]
      cases c <;> simp [apply, or_assoc, or_and_right, exists_or]
    · rw [List.foldl_cons, h₂]
      cases c <;> simp [apply, or_assoc, or_and_right, exists_or]
    · rw [List.foldl_cons, h₃]
      cases c <;> simp [apply, or_assoc, or_and_right, exists_or]

theorem build_collects (calls : List OperatorCall) : (build calls).Collects calls := by
  obtain ⟨h₁, h₂, h₃⟩ := mem_foldl_apply .new calls
  refine ⟨fun room => ?_, fun room => ?_, fun id => ?_⟩
  · exact (h₁ room).trans (by simp [new])
  · exact (h₂ room).trans (by simp [new])
  · exact (h₃ id).trans (by simp [new])

theorem Collects.includeRooms_eq_nil {op : Operator} {calls : List OperatorCall}
    (h : op.Collects calls) : op.includeRooms = [] ↔ ∀ room, ¬ Includes calls room := by
  rw [List.eq_nil_iff_forall_not_mem]
  exact forall_congr' fun room => not_congr (h.includes room)

end Operator

namespace Runtime

variable {cfg : ServerConfig} {s s' : Runtime}

/-! ## The steps of a broadcast -/

/-- The moves of `for_each_target_connections`. -/
inductive BroadcastMove (s : Runtime) (n : Nat) (op : Operator) (pc pc' : BroadcastPc) : Prop
  | all (before : pc = .load) (empty : op.includeRooms = [])
      (after : pc' = .excludeRooms op.excludeRooms (s.namespaces n).connectionIds)
  | rooms (before : pc = .load) (filled : op.includeRooms ≠ [])
      (after : pc' = .includeRooms op.includeRooms ∅)
  | includes (room : String) (rest : List String) (ids : Finset Nat)
      (before : pc = .includeRooms (room :: rest) ids)
      (after : pc' = .includeRooms rest (ids ∪ (s.namespaces n).members room))
  | included (ids : Finset Nat) (before : pc = .includeRooms [] ids)
      (after : pc' = .excludeRooms op.excludeRooms ids)
  | excludes (room : String) (rest rest' : List String) (ids : Finset Nat)
      (before : pc = .excludeRooms (room :: rest) ids)
      (left : rest' = rest ∨ rest' = [] ∧ ids \ (s.namespaces n).members room = ∅)
      (after : pc' = .excludeRooms rest' (ids \ (s.namespaces n).members room))
  | excluded (ids : Finset Nat) (before : pc = .excludeRooms [] ids)
      (after : pc' = .each (ids.filter (· ∉ op.excludeConnectionIds)) [])
  | starts (i key : Nat) (ids : Finset Nat) (active : List (Nat × Nat))
      (before : pc = .each ids active) (mem : i ∈ ids) (found : i ∈ (s.namespaces n).connections)
      (after : pc' = .each (ids.erase i) (active ++ [(i, key)]))
  | misses (i : Nat) (ids : Finset Nat) (active : List (Nat × Nat))
      (before : pc = .each ids active) (mem : i ∈ ids) (lost : i ∉ (s.namespaces n).connections)
      (after : pc' = .each (ids.erase i) active)

theorem broadcastStep_move {n : Nat} {op : Operator} {job : Job} {pc pc' : BroadcastPc}
    {x : CallInput} (h : broadcastStep cfg s n op job pc x = some (s', some pc')) :
    BroadcastMove s n op pc pc' := by
  unfold broadcastStep at h
  split at h
  · split at h
    · rename_i he
      cases h
      exact .all rfl he rfl
    · rename_i he
      cases h
      exact .rooms rfl he rfl
  · cases h
    exact .included _ rfl rfl
  · cases h
    exact .includes _ _ _ rfl rfl
  · cases h
    exact .excluded _ rfl rfl
  · rename_i room rest ids
    split at h
    · rename_i hr
      cases h
      refine .excludes room rest rest ids rfl (.inl rfl) ?_
      simp [Namespace.members, hr]
    · rename_i members hr
      have hm : (s.namespaces n).members room = members := by simp [Namespace.members, hr]
      split at h
      · rename_i he
        cases h
        refine .excludes room rest [] ids rfl (.inr ⟨rfl, by rw [hm, he]⟩) ?_
        rw [hm, he]
      · cases h
        exact .excludes room rest rest ids rfl (.inl rfl) (by rw [hm])
  · rename_i ids active i key
    dsimp only at h
    split at h
    · rename_i hi
      obtain ⟨⟨s₁, active'⟩, hs, he⟩ := Option.map_eq_some_iff.mp h
      cases he
      rcases startTarget_cases hs with ⟨hlost, -, rfl⟩ | ⟨m, c, hst, -, rfl⟩
      · exact .misses i ids _ rfl hi.1 hlost rfl
      · exact .starts i key ids _ rfl hi.1 hst.found rfl
    · cases h
  · split at h <;> cases h
  · cases h

/-- The calls that the broadcast has started, by their connections and their slots there. -/
def activeCalls : BroadcastPc → List (Nat × Nat)
  | .each _ active => active
  | _ => []

/-- How often the broadcast has started its action on the connection. -/
def applied (pc : BroadcastPc) (i : Nat) : Nat := ((activeCalls pc).filter (·.1 = i)).length

theorem applied_append (ids ids' : Finset Nat) (active : List (Nat × Nat)) (j key i : Nat) :
    applied (.each ids (active ++ [(j, key)])) i =
      applied (.each ids' active) i + if j = i then 1 else 0 := by
  by_cases hj : j = i <;> simp [applied, activeCalls, List.filter_append, hj]

/-! ## What a broadcast owes a connection -/

/-- The connection is among the targets: found in its room, or about to be, and later
waiting for the action or done with it. -/
def Due (op : Operator) (room : String) (i : Nat) : BroadcastPc → Prop
  | .load => True
  | .includeRooms rest ids => op.includeRooms ≠ [] ∧ (room ∈ rest ∨ i ∈ ids)
  | .excludeRooms rest ids => rest ⊆ op.excludeRooms ∧ i ∈ ids
  | .each ids active => applied (.each ids active) i = if i ∈ ids then 0 else 1

/-- What must be true of a connection while the broadcast runs. -/
structure Wanted (op : Operator) (n : Nat) (room : String) (i : Nat) (s : Runtime) : Prop where
  found : i ∈ (s.namespaces n).connections
  listed : op.includeRooms = [] → i ∈ (s.namespaces n).connectionIds
  inside : op.includeRooms ≠ [] → i ∈ (s.namespaces n).members room
  outside : ∀ r ∈ op.excludeRooms, i ∉ (s.namespaces n).members r

theorem due_move {n : Nat} {op : Operator} {pc pc' : BroadcastPc} {room : String} {i : Nat}
    (hm : BroadcastMove s n op pc pc') (hw : Wanted op n room i s)
    (hroom : op.includeRooms ≠ [] → room ∈ op.includeRooms) (hid : i ∉ op.excludeConnectionIds)
    (hd : Due op room i pc) : Due op room i pc' := by
  cases hm with
  | all before empty after =>
    subst before after
    exact ⟨List.Subset.refl _, hw.listed empty⟩
  | rooms before filled after =>
    subst before after
    exact ⟨filled, .inl (hroom filled)⟩
  | includes r rest ids before after =>
    subst before after
    refine ⟨hd.1, ?_⟩
    rcases hd.2 with hr | hi
    · rcases List.mem_cons.mp hr with rfl | hr
      · exact .inr (Finset.mem_union_right _ (hw.inside hd.1))
      · exact .inl hr
    · exact .inr (Finset.mem_union_left _ hi)
  | included ids before after =>
    subst before after
    rcases hd.2 with hr | hi
    · cases hr
    · exact ⟨List.Subset.refl _, hi⟩
  | excludes r rest rest' ids before left after =>
    subst before after
    have hi : i ∈ ids \ (s.namespaces n).members r :=
      Finset.mem_sdiff.mpr ⟨hd.2, hw.outside r (hd.1 List.mem_cons_self)⟩
    refine ⟨?_, hi⟩
    rcases left with rfl | ⟨-, hempty⟩
    · exact fun x hx => hd.1 (List.mem_cons_of_mem _ hx)
    · -- the loop breaks only when nobody is left
      rw [hempty] at hi
      simp at hi
  | excluded ids before after =>
    subst before after
    have hi : i ∈ ids.filter (· ∉ op.excludeConnectionIds) := Finset.mem_filter.mpr ⟨hd.2, hid⟩
    simp [Due, applied, activeCalls, hi]
  | starts j key ids active before mem found after =>
    subst before after
    simp only [Due] at hd ⊢
    rw [applied_append _ ids, hd]
    by_cases hj : j = i
    · subst hj
      simp [mem]
    · simp [hj, Ne.symm hj]
  | misses j ids active before mem lost after =>
    subst before after
    have hj : i ≠ j := by
      rintro rfl
      exact lost hw.found
    have hids : i ∈ ids.erase j ↔ i ∈ ids := by simp [hj]
    simp only [Due, hids] at hd ⊢
    exact hd

/-- The connection is not among the targets any more. -/
def Spared (i : Nat) : BroadcastPc → Prop
  | .each ids active => i ∉ ids ∧ applied (.each ids active) i = 0
  | _ => True

/-- Once the targets are fixed, only they have the action applied. -/
theorem Spared.starts {i j : Nat} {ids : Finset Nat} {active : List (Nat × Nat)}
    (hs : Spared i (.each ids active)) (mem : j ∈ ids) (key : Nat) :
    Spared i (.each (ids.erase j) (active ++ [(j, key)])) := by
  have hj : j ≠ i := by
    rintro rfl
    exact hs.1 mem
  refine ⟨fun hi => hs.1 (Finset.mem_of_mem_erase hi), ?_⟩
  rw [applied_append _ ids, hs.2, if_neg hj]

theorem Spared.misses {i : Nat} {ids : Finset Nat} {active : List (Nat × Nat)}
    (hs : Spared i (.each ids active)) (j : Nat) : Spared i (.each (ids.erase j) active) :=
  ⟨fun hi => hs.1 (Finset.mem_of_mem_erase hi), hs.2⟩

/-- A connection that is not in the map has the action not applied. -/
theorem unregistered_move {n : Nat} {op : Operator} {pc pc' : BroadcastPc} {i : Nat}
    (hm : BroadcastMove s n op pc pc') (hi : i ∉ (s.namespaces n).connections)
    (h0 : applied pc i = 0) : applied pc' i = 0 := by
  cases hm with
  | starts j key ids active before mem found after =>
    subst before after
    have hj : j ≠ i := by
      rintro rfl
      exact hi found
    rw [applied_append _ ids, h0, if_neg hj]
  | misses j ids active before mem lost after =>
    subst before after
    exact h0
  | _ => subst_vars; rfl

/-- The targets are collected without the connection. -/
def Overlooked (op : Operator) (i : Nat) : BroadcastPc → Prop
  | .load => True
  | .includeRooms rest ids => rest ⊆ op.includeRooms ∧ i ∉ ids
  | .excludeRooms _ ids => i ∉ ids
  | .each ids active => Spared i (.each ids active)

theorem overlooked_move {n : Nat} {op : Operator} {pc pc' : BroadcastPc} {i : Nat}
    (hm : BroadcastMove s n op pc pc') (hi : ∀ r ∈ op.includeRooms, i ∉ (s.namespaces n).members r)
    (hl : op.includeRooms = [] → i ∉ (s.namespaces n).connectionIds) (ho : Overlooked op i pc) :
    Overlooked op i pc' := by
  cases hm with
  | all before empty after =>
    subst before after
    exact hl empty
  | rooms before filled after =>
    subst before after
    exact ⟨List.Subset.refl _, Finset.notMem_empty i⟩
  | includes r rest ids before after =>
    subst before after
    refine ⟨fun x hx => ho.1 (List.mem_cons_of_mem _ hx), fun hmem => ?_⟩
    rcases Finset.mem_union.mp hmem with hmem | hmem
    · exact ho.2 hmem
    · exact hi r (ho.1 List.mem_cons_self) hmem
  | included ids before after =>
    subst before after
    exact ho.2
  | excludes r rest rest' ids before left after =>
    subst before after
    exact fun hmem => ho (Finset.mem_sdiff.mp hmem).1
  | excluded ids before after =>
    subst before after
    exact ⟨fun hmem => ho (Finset.mem_filter.mp hmem).1, rfl⟩
  | starts j key ids active before mem found after =>
    subst before after
    exact Spared.starts ho mem key
  | misses j ids active before mem lost after =>
    subst before after
    exact Spared.misses ho j

/-- The excluded room is read, or still to be read. -/
def Struck (op : Operator) (room : String) (i : Nat) : BroadcastPc → Prop
  | .excludeRooms rest ids => room ∈ rest ∨ i ∉ ids
  | .each ids active => Spared i (.each ids active)
  | _ => room ∈ op.excludeRooms

theorem struck_move {n : Nat} {op : Operator} {pc pc' : BroadcastPc} {i : Nat} {room : String}
    (hm : BroadcastMove s n op pc pc') (hi : i ∈ (s.namespaces n).members room)
    (hs : Struck op room i pc) : Struck op room i pc' := by
  cases hm with
  | all before empty after =>
    subst before after
    exact .inl hs
  | rooms before filled after =>
    subst before after
    exact hs
  | includes r rest ids before after =>
    subst before after
    exact hs
  | included ids before after =>
    subst before after
    exact .inl hs
  | excludes r rest rest' ids before left after =>
    subst before after
    rcases hs with hr | hout
    · rcases List.mem_cons.mp hr with rfl | hr
      · exact .inr fun hmem => (Finset.mem_sdiff.mp hmem).2 hi
      · rcases left with rfl | ⟨-, hempty⟩
        · exact .inl hr
        · exact .inr (by rw [hempty]; exact Finset.notMem_empty i)
    · exact .inr fun hmem => hout (Finset.mem_sdiff.mp hmem).1
  | excluded ids before after =>
    subst before after
    refine ⟨fun hmem => ?_, rfl⟩
    rcases hs with hr | hout
    · cases hr
    · exact hout (Finset.mem_filter.mp hmem).1
  | starts j key ids active before mem found after =>
    subst before after
    exact Spared.starts hs mem key
  | misses j ids active before mem lost after =>
    subst before after
    exact Spared.misses hs j

/-- An excluded id is taken out of the targets. -/
theorem spared_move {n : Nat} {op : Operator} {pc pc' : BroadcastPc} {i : Nat}
    (hm : BroadcastMove s n op pc pc') (hi : i ∈ op.excludeConnectionIds) (hs : Spared i pc) :
    Spared i pc' := by
  cases hm with
  | excluded ids before after =>
    subst before after
    exact ⟨fun hmem => (Finset.mem_filter.mp hmem).2 hi, rfl⟩
  | starts j key ids active before mem found after =>
    subst before after
    exact Spared.starts hs mem key
  | misses j ids active before mem lost after =>
    subst before after
    exact Spared.misses hs j
  | _ => subst_vars; trivial

/-! ## The call -/

/-- Call `k` is in `for_each_target_connections`. -/
def Broadcasting (k n : Nat) (op : Operator) (job : Job) (s : Runtime) : Prop :=
  ∃ pc, s.calls k = .broadcast n op job pc

theorem callStep_others {j k : Nat} {x : CallInput} (h : callStep cfg s j x = some s')
    (hk : k ≠ j) : s'.calls k = s.calls k := by
  have hset : ∀ (s₁ : Runtime) (c : Call), s₁.calls = s.calls →
      (s₁.setCall j c).calls k = s.calls k := by
    intro s₁ c hc
    rw [calls_setCall_of_ne hk, hc]
  unfold callStep at h
  split at h
  case h_1 n op job pc hj =>
    split at h
    · cases h
    · rename_i hb
      cases h
      exact hset _ _ (broadcastStep_steady hb).2.1
    · rename_i hb
      cases h
      exact hset _ _ (broadcastStep_steady hb).2.1
  case h_2 n op event data hj =>
    split at h
    · cases h
      exact hset _ _ rfl
    · split at h <;> cases h <;> exact hset _ _ rfl
  case h_3 n pc hj =>
    obtain ⟨⟨s₁, r⟩, hs, rfl⟩ := Option.map_eq_some_iff.mp h
    cases r <;> exact hset _ _ (shutdownStep_calls hs).1
  case h_4 path hj => split at h <;> cases h <;> exact hset _ _ rfl
  case h_5 n hj => split at h <;> cases h <;> exact hset _ _ rfl
  case h_7 hj => split at h <;> cases h <;> exact hset _ _ rfl
  case h_10 children hj =>
    split at h
    · cases h
      exact hset _ _ rfl
    · cases h
  case h_6 | h_8 | h_9 | h_11 =>
    cases h
    exact hset _ _ rfl
  all_goals cases h

/-- The call has not begun to broadcast yet. -/
def unbegun : Call → Bool
  | .idle | .emit _ _ _ _ => true
  | _ => false

/-- A call that is broadcasting after its own step has made a step of the broadcast, or has
begun it. -/
theorem callStep_broadcast {k n : Nat} {op : Operator} {job : Job} {pc' : BroadcastPc}
    {x : CallInput} (h : callStep cfg s k x = some s') (hk : s'.calls k = .broadcast n op job pc') :
    (∃ pc s₁, s.calls k = .broadcast n op job pc ∧
        broadcastStep cfg s n op job pc x = some (s₁, some pc') ∧ s'.conns = s₁.conns) ∨
      (unbegun (s.calls k) = true ∧ pc' = .load ∧ s'.conns = s.conns) := by
  have hset : ∀ (s₁ : Runtime) (c : Call), (s₁.setCall k c).calls k = c := fun s₁ c => by
    rw [setCall_calls, if_pos rfl]
  unfold callStep at h
  split at h
  case h_1 n₁ op₁ job₁ pc hc =>
    split at h
    · cases h
    · rename_i s₁ pc₁ hb
      cases h
      rw [hset] at hk
      cases hk
      exact .inl ⟨pc, s₁, hc, hb, rfl⟩
    · cases h
      rw [hset] at hk
      cases hk
  case h_2 n₁ op₁ event data hc =>
    split at h
    · cases h
      rw [hset] at hk
      cases hk
    · split at h
      · cases h
        rw [hset] at hk
        cases hk
      · cases h
        rw [hset] at hk
        cases hk
        exact .inr ⟨by rw [hc]; rfl, rfl, rfl⟩
  case h_3 n₁ pc hc =>
    obtain ⟨⟨s₁, r⟩, hs, rfl⟩ := Option.map_eq_some_iff.mp h
    cases r <;> simp [afterShutdown, setCall_calls] at hk
  case h_4 path hc => split at h <;> cases h <;> simp [setCall_calls] at hk
  case h_5 n₁ hc => split at h <;> cases h <;> simp [setCall_calls] at hk
  case h_7 hc => split at h <;> cases h <;> simp [setCall_calls] at hk
  case h_10 children hc => split at h <;> cases h; simp [setCall_calls] at hk
  case h_6 | h_8 | h_9 | h_11 =>
    cases h
    simp [setCall_calls] at hk
  all_goals cases h

/-- A call that has made a step of its own has begun. -/
theorem callStep_begun {k : Nat} {x : CallInput} (h : callStep cfg s k x = some s') :
    unbegun (s'.calls k) = false := by
  have hset : ∀ (s₁ : Runtime) (c : Call), (s₁.setCall k c).calls k = c := fun s₁ c => by
    rw [setCall_calls, if_pos rfl]
  unfold callStep at h
  split at h
  case h_1 n op job pc hc => split at h <;> cases h <;> rw [hset] <;> rfl
  case h_2 n op event data hc =>
    split at h
    · cases h
      rw [hset]
      rfl
    · split at h <;> cases h <;> rw [hset] <;> rfl
  case h_3 n pc hc =>
    obtain ⟨⟨s₁, r⟩, hs, rfl⟩ := Option.map_eq_some_iff.mp h
    cases r <;> rw [afterShutdown, hset] <;> rfl
  case h_4 | h_5 | h_7 => split at h <;> cases h <;> rw [hset] <;> rfl
  case h_10 children hc =>
    split at h <;> cases h
    rw [hset]
    rfl
  case h_6 | h_8 | h_9 | h_11 =>
    cases h
    rw [hset]
    rfl
  all_goals cases h

/-- What a step does to a call: nothing, the call's own step, its start, or the step of a
shutdown in it or its drop. -/
theorem step_call {a : ServerAction} (h : step cfg s a = some s') (k : Nat) :
    (s'.calls k = s.calls k ∧ ∀ x, a ≠ .call k x) ∨
      (∃ x, a = .call k x ∧ callStep cfg s k x = some s') ∨
      (∃ r c, a = .start k r ∧ s.calls k = .idle ∧ entry s r = some c ∧ s'.calls k = c ∧
        s'.conns = s.conns) ∨
      ((∃ children, s'.calls k = .runtimeJoin children) ∨ s'.calls k = .panicked ∨
        s'.calls k = .dropped) := by
  cases a with
  | resolve i path =>
    refine .inl ⟨?_, by simp⟩
    simp only [step] at h
    split at h <;> cases h
    rfl
  | conn i b =>
    refine .inl ⟨?_, by simp⟩
    simp only [step] at h
    split at h
    · cases h
    · split at h
      · obtain ⟨s₁, hs, rfl⟩ := Option.map_eq_some_iff.mp h
        rw [spawn_calls]
        unfold connStep at hs
        split at hs
        · cases hs
        · split at hs <;> cases hs
          rw [access_calls]
          rfl
      · cases h
  | start j r =>
    simp only [step] at h
    split at h
    · rename_i hidle
      obtain ⟨c, hc, rfl⟩ := Option.map_eq_some_iff.mp h
      have hcreate : (create s r).calls = s.calls ∧ (create s r).conns = s.conns := by
        unfold create
        split <;> exact ⟨rfl, rfl⟩
      by_cases hjk : k = j
      · subst hjk
        exact .inr (.inr (.inl ⟨r, c, rfl, hidle, hc, by rw [setCall_calls, if_pos rfl],
          hcreate.2⟩))
      · exact .inl ⟨by rw [calls_setCall_of_ne hjk, hcreate.1], by simp⟩
    · cases h
  | call j x =>
    by_cases hjk : k = j
    · subst hjk
      exact .inr (.inl ⟨x, rfl, h⟩)
    · exact .inl ⟨callStep_others h hjk, by simpa using Ne.symm hjk⟩
  | child j l x =>
    simp only [step] at h
    unfold childStep at h
    split at h
    · split at h
      · cases h
      · split at h
        · cases h
        · rename_i hs
          cases h
          by_cases hjk : k = j
          · exact .inr (.inr (.inr (.inl ⟨_, by rw [setCall_calls, if_pos hjk]⟩)))
          · exact .inl ⟨by rw [calls_setCall_of_ne hjk, (shutdownStep_calls hs).1], by simp⟩
        · rename_i hs
          cases h
          by_cases hjk : k = j
          · exact .inr (.inr (.inr (.inr (.inl (by rw [setCall_calls, if_pos hjk])))))
          · refine .inl ⟨?_, by simp⟩
            rw [calls_setCall_of_ne hjk, (releaseLocks_calls _ _).1, (shutdownStep_calls hs).1]
    · cases h
  | drop j =>
    simp only [step] at h
    split at h
    · cases h
      by_cases hjk : k = j
      · exact .inr (.inr (.inr (.inr (.inr (by rw [setCall_calls, if_pos hjk])))))
      · exact .inl ⟨by rw [calls_setCall_of_ne hjk, (releaseLocks_calls _ _).1], by simp⟩
    · cases h

/-- A broadcasting call has just begun, is where it was, or has made a step of the broadcast. -/
theorem step_broadcast {a : ServerAction} (h : step cfg s a = some s') {k n : Nat} {op : Operator}
    {job : Job} {pc' : BroadcastPc} (hk : s'.calls k = .broadcast n op job pc') :
    (s.calls k = .broadcast n op job pc' ∧ ∀ x, a ≠ .call k x) ∨
      (∃ pc x s₁, a = .call k x ∧ s.calls k = .broadcast n op job pc ∧
        broadcastStep cfg s n op job pc x = some (s₁, some pc') ∧ s'.conns = s₁.conns) ∨
      (unbegun (s.calls k) = true ∧ pc' = .load ∧ s'.conns = s.conns) := by
  rcases step_call h k with ⟨he, ha⟩ | ⟨x, rfl, hs⟩ | ⟨r, c, -, hidle, hc, he, hconns⟩ |
    ⟨children, he⟩ | he | he
  · exact .inl ⟨by rw [← he, hk], ha⟩
  · rcases callStep_broadcast hs hk with ⟨pc, s₁, hpc, hb, hconns⟩ | hb
    · exact .inr (.inl ⟨pc, x, s₁, rfl, hpc, hb, hconns⟩)
    · exact .inr (.inr hb)
  · refine .inr (.inr ⟨by rw [hidle]; rfl, ?_, hconns⟩)
    rw [he] at hk
    subst hk
    unfold entry at hc
    split at hc <;> grind
  all_goals
    rw [he] at hk
    cases hk

/-- The rule for a broadcast: what holds at its start and is kept by its moves while `P`
holds, holds for as long as `P` has held during the call. -/
theorem broadcast_phase {guard : Runtime → ServerAction → Prop} {l : List (Runtime × ServerAction)}
    (h : (system cfg).RunWhen guard l s) {k n : Nat} {op : Operator} {job : Job} {pc : BroadcastPc}
    (hk : s.calls k = .broadcast n op job pc) {P : Runtime → Prop} {J : BroadcastPc → Prop}
    (hload : J .load)
    (hmove : ∀ s pc pc', P s → BroadcastMove s n op pc pc' → J pc → J pc')
    (hP : System.HeldSince (Broadcasting k n op job) P l s) : J pc := by
  refine h.phase (D := Broadcasting k n op job) (P := P)
    (I := fun s => ∀ pc, s.calls k = .broadcast n op job pc → J pc) ?_ ?_ ?_ ⟨pc, hk⟩ hP pc hk
  · rintro ⟨pc, hpc⟩
    cases hpc
  · intro s a s' hs hnot _ pc' hk'
    rcases step_broadcast hs hk' with ⟨hpc, -⟩ | ⟨pc, -, -, -, hpc, -⟩ | ⟨-, rfl, -⟩
    · exact absurd ⟨pc', hpc⟩ hnot
    · exact absurd ⟨pc, hpc⟩ hnot
    · exact hload
  · intro s a s' _ hs _ hPs hJ _ pc' hk'
    rcases step_broadcast hs hk' with ⟨hpc, -⟩ | ⟨pc, x, s₁, -, hpc, hb, -⟩ | ⟨-, rfl, -⟩
    · exact hJ _ hpc
    · exact hmove s pc pc' hPs (broadcastStep_move hb) (hJ pc hpc)
    · exact hload

/-! ## The calls that a broadcast starts -/

/-- From the one state to the other, slot `key` of connection `i` gets a call of the action. -/
def startsCaller (cfg : ServerConfig) (s s' : Runtime) (i key : Nat) (job : Job) : Bool :=
  match s.conns i, s'.conns i with
  | some m, some m' => m.conn.callers key = .idle &&
      m'.conn.callers key = Connection.entry (cfg.config m.home) job
  | _, _ => false

/-- The call of the action that a step of a run starts on a connection for broadcast `k`. -/
def started (cfg : ServerConfig) (k : Nat) (job : Job) : Runtime × ServerAction → Option (Nat × Nat)
  | (s, .call k' (.target i key)) =>
    if k' = k ∧ (step cfg s (.call k' (.target i key))).any
        (startsCaller cfg s · i key job) = true then some (i, key) else none
  | _ => none

/-- The calls of the action that a run has started on connections for broadcast `k`, by their
connections and their slots there, newest first. -/
def startedCalls (cfg : ServerConfig) (k : Nat) (job : Job) (l : List (Runtime × ServerAction)) :
    List (Nat × Nat) := l.filterMap (started cfg k job)

/-- How many of them are on connection `i`. -/
def applications (cfg : ServerConfig) (k : Nat) (job : Job) (l : List (Runtime × ServerAction))
    (i : Nat) : Nat := ((startedCalls cfg k job l).filter (·.1 = i)).length

theorem entry_ne_idle (cfg : NamespaceConfig) (job : Job) : Connection.entry cfg job ≠ .idle := by
  cases job with
  | emit event data =>
    simp only [Connection.entry]
    split <;> simp
  | sendDisconnect =>
    simp only [Connection.entry]
    split <;> simp
  | _ => simp [Connection.entry]

theorem startsCaller_of_starts {n i key : Nat} {job : Job} {m : Member} {c : Connection}
    (h : Starts cfg s n job i key m c) (hc : s'.conns = (s.setConn i ⟨m.home, c⟩).conns) :
    startsCaller cfg s s' i key job = true := by
  have hstep := h.step
  simp only [Connection.step] at hstep
  split at hstep
  · rename_i hidle
    split at hstep
    · cases hstep
      simp [startsCaller, h.conn, hc, setConn_conns, hidle, Connection.setCaller]
    · cases hstep
  · cases hstep

/-- A step that leaves the connections alone starts no call. -/
theorem started_of_conns {a : ServerAction} (h : step cfg s a = some s') (hc : s'.conns = s.conns)
    (k : Nat) (job : Job) : started cfg k job (s, a) = none := by
  unfold started
  split
  · rename_i k' i key he
    cases he
    refine if_neg fun hs => ?_
    have hstarts := hs.2
    rw [h, Option.any_some, startsCaller, hc] at hstarts
    split at hstarts
    · rename_i m m' hm hm'
      rw [hm] at hm'
      cases hm'
      rw [Bool.and_eq_true, decide_eq_true_eq, decide_eq_true_eq] at hstarts
      exact entry_ne_idle _ job (hstarts.2.symm.trans hstarts.1)
    · cases hstarts
  · rfl

theorem started_of_ne {a : ServerAction} {k : Nat} (ha : ∀ x, a ≠ .call k x) (job : Job) :
    started cfg k job (s, a) = none := by
  unfold started
  split
  · rename_i k' i key he
    cases he
    refine if_neg fun hs => ?_
    exact ha _ (by rw [hs.1])
  · rfl

/-- A step of a broadcast starts the call that it adds to its list. -/
theorem broadcastStep_active {n : Nat} {op : Operator} {job : Job} {pc pc' : BroadcastPc}
    {x : CallInput} (h : broadcastStep cfg s n op job pc x = some (s', some pc')) :
    (activeCalls pc' = activeCalls pc ∧ s' = s) ∨
      ∃ i key m c, x = .target i key ∧ Starts cfg s n job i key m c ∧
        s' = s.setConn i ⟨m.home, c⟩ ∧ activeCalls pc' = activeCalls pc ++ [(i, key)] := by
  unfold broadcastStep at h
  split at h
  case h_6 ids active i key =>
    dsimp only at h
    split at h
    · obtain ⟨⟨s₁, active'⟩, hs, he⟩ := Option.map_eq_some_iff.mp h
      cases he
      rcases startTarget_cases hs with ⟨-, rfl, rfl⟩ | ⟨m, c, hst, rfl, rfl⟩
      · exact .inl ⟨rfl, rfl⟩
      · exact .inr ⟨i, key, m, c, rfl, hst, rfl, rfl⟩
    · cases h
  case h_1 => split at h <;> cases h <;> exact .inl ⟨rfl, rfl⟩
  case h_5 =>
    split at h
    · cases h
      exact .inl ⟨rfl, rfl⟩
    · split at h <;> cases h <;> exact .inl ⟨rfl, rfl⟩
  case h_7 => split at h <;> cases h
  case h_8 => cases h
  all_goals
    cases h
    exact .inl ⟨rfl, rfl⟩

theorem step_started {a : ServerAction} (h : step cfg s a = some s') {k n : Nat} {op : Operator}
    {job : Job} {pc' : BroadcastPc} (hk : s'.calls k = .broadcast n op job pc') :
    (∃ pc, s.calls k = .broadcast n op job pc ∧
        activeCalls pc' = activeCalls pc ++ (started cfg k job (s, a)).toList) ∨
      (unbegun (s.calls k) = true ∧ activeCalls pc' = [] ∧ started cfg k job (s, a) = none) := by
  rcases step_broadcast h hk with ⟨hpc, ha⟩ | ⟨pc, x, s₁, rfl, hpc, hb, hconns⟩ | ⟨hun, rfl, hconns⟩
  · exact .inl ⟨pc', hpc, by rw [started_of_ne ha, Option.toList_none, List.append_nil]⟩
  · refine .inl ⟨pc, hpc, ?_⟩
    rcases broadcastStep_active hb with ⟨hact, rfl⟩ | ⟨i, key, m, c, rfl, hst, rfl, hact⟩
    · rw [hact, started_of_conns h hconns, Option.toList_none, List.append_nil]
    · have hs : started cfg k job (s, .call k (.target i key)) = some (i, key) := by
        unfold started
        refine if_pos ⟨rfl, ?_⟩
        rw [h, Option.any_some]
        exact startsCaller_of_starts hst hconns
      rw [hact, hs, Option.toList_some]
  · exact .inr ⟨hun, rfl, started_of_conns h hconns k job⟩

/-- A call that has not begun to broadcast has started nothing. -/
theorem step_unbegun {a : ServerAction} (h : step cfg s a = some s') {k : Nat}
    (hk : unbegun (s'.calls k) = true) (job : Job) :
    unbegun (s.calls k) = true ∧ started cfg k job (s, a) = none := by
  rcases step_call h k with ⟨he, ha⟩ | ⟨x, rfl, hs⟩ | ⟨r, c, rfl, hidle, -, -, -⟩ |
    ⟨children, he⟩ | he | he
  · exact ⟨he ▸ hk, started_of_ne ha job⟩
  · rw [callStep_begun hs] at hk
    cases hk
  · exact ⟨by rw [hidle]; rfl, rfl⟩
  all_goals
    rw [he] at hk
    cases hk

/-- The calls that a broadcast has started are those of its list. -/
theorem startedCalls_eq {guard : Runtime → ServerAction → Prop} {l : List (Runtime × ServerAction)}
    (h : (system cfg).RunWhen guard l s) {k : Nat} :
    (∀ n op job pc, s.calls k = .broadcast n op job pc →
        startedCalls cfg k job l = (activeCalls pc).reverse) ∧
      (unbegun (s.calls k) = true → ∀ job, startedCalls cfg k job l = []) := by
  induction h with
  | init => exact ⟨nofun, fun _ _ => rfl⟩
  | @step l s s' a _ _ hs ih =>
    obtain ⟨hbroadcast, hun⟩ := ih
    have hcons : ∀ job, startedCalls cfg k job ((s, a) :: l) =
        (started cfg k job (s, a)).toList ++ startedCalls cfg k job l := by
      intro job
      cases hst : started cfg k job (s, a) <;> simp [startedCalls, hst]
    refine ⟨fun n op job pc' hk => ?_, fun hk job => ?_⟩
    · rw [hcons]
      rcases step_started hs hk with ⟨pc, hpc, hact⟩ | ⟨hpc, hact, hst⟩
      · rw [hact, hbroadcast n op job pc hpc, List.reverse_append]
        cases started cfg k job (s, a) <;> rfl
      · rw [hact, hst, hun hpc]
        rfl
    · obtain ⟨hpc, hst⟩ := step_unbegun hs hk job
      rw [hcons, hst, hun hpc]
      rfl

theorem applications_eq {guard : Runtime → ServerAction → Prop} {l : List (Runtime × ServerAction)}
    (h : (system cfg).RunWhen guard l s) {k n : Nat} {op : Operator} {job : Job} {pc : BroadcastPc}
    (hk : s.calls k = .broadcast n op job pc) (i : Nat) : applications cfg k job l i = applied pc i := by
  rw [applications, (startedCalls_eq h).1 n op job pc hk, List.filter_reverse, List.length_reverse,
    applied]

/-! ## Targeting -/

open Operator

/-- The next step of the call returns from the broadcast. -/
def Returns (cfg : ServerConfig) (s : Runtime) (k : Nat) : Prop :=
  ∃ x s', step cfg s (.call k x) = some s' ∧ s'.calls k = .done (.ok ())

theorem returns_broadcast {k n : Nat} {op : Operator} {job : Job} {pc : BroadcastPc}
    (hk : s.calls k = .broadcast n op job pc) (hr : Returns cfg s k) :
    ∃ active, pc = .each ∅ active ∧ active.all (callerDone s) = true := by
  obtain ⟨x, s', hs, hdone⟩ := hr
  simp only [step, callStep, hk] at hs
  split at hs
  · cases hs
  · cases hs
    simp [setCall_calls] at hdone
  · rename_i hb
    obtain ⟨-, active, hpc, hdone⟩ := broadcastStep_none hb
    exact ⟨active, hpc, hdone⟩

/-- What, if it stays true, makes a connection a target: it is registered, in one room that
the operator includes (if it includes any), and in none that it excludes. -/
inductive Meant (calls : List OperatorCall) (n i : Nat) : (Runtime → Prop) → Prop
  | everyone (hid : ¬ ExcludesId calls i) (hempty : ∀ room, ¬ Includes calls room) :
      Meant calls n i fun s => i ∈ (s.namespaces n).connections ∧
        i ∈ (s.namespaces n).connectionIds ∧
        ∀ room, Excludes calls room → i ∉ (s.namespaces n).members room
  | member (room : String) (hid : ¬ ExcludesId calls i) (hroom : Includes calls room) :
      Meant calls n i fun s => i ∈ (s.namespaces n).connections ∧
        i ∈ (s.namespaces n).members room ∧
        ∀ room, Excludes calls room → i ∉ (s.namespaces n).members room

/-- The reasons, any one of which, if it stays true, keeps a broadcast from a connection. -/
inductive RuledOut (calls : List OperatorCall) (n i : Nat) : (Runtime → Prop) → Prop
  | unregistered : RuledOut calls n i fun s => i ∉ (s.namespaces n).connections
  | notIncluded (room : String) (hroom : Includes calls room) :
      RuledOut calls n i fun s => ∀ r, Includes calls r → i ∉ (s.namespaces n).members r
  | notListed (hempty : ∀ room, ¬ Includes calls room) :
      RuledOut calls n i fun s => i ∉ (s.namespaces n).connectionIds
  | excluded (room : String) (hroom : Excludes calls room) :
      RuledOut calls n i fun s => i ∈ (s.namespaces n).members room
  | excludedId (hid : ExcludesId calls i) : RuledOut calls n i fun _ => True

theorem applied_of_due {op : Operator} {room : String} {i : Nat} {pc : BroadcastPc}
    (h : Due op room i pc) : applied pc i ≤ 1 := by
  cases pc with
  | each ids active =>
    simp only [Due] at h
    rw [h]
    split <;> omega
  | _ => exact Nat.zero_le _

section Call

variable {l : List (Runtime × ServerAction)} {k n : Nat} {op : Operator} {job : Job}
  {pc : BroadcastPc} {calls : List OperatorCall}

theorem due_of_meant (h : (system cfg).RunWhen (fun _ _ => True) l s) (hop : op.Collects calls)
    (hk : s.calls k = .broadcast n op job pc) {i : Nat} {P : Runtime → Prop}
    (hm : Meant calls n i P) (hP : System.HeldSince (Broadcasting k n op job) P l s) :
    ∃ room, Due op room i pc := by
  cases hm with
  | everyone hid hempty =>
    have hnil : op.includeRooms = [] := hop.includeRooms_eq_nil.mpr hempty
    refine ⟨"", broadcast_phase h hk (J := Due op "" i) trivial ?_ hP⟩
    intro s pc pc' ⟨hfound, hlisted, hout⟩ hmove hd
    refine due_move hmove ⟨hfound, fun _ => hlisted, fun hne => absurd hnil hne, ?_⟩
      (fun hne => absurd hnil hne) (fun hmem => hid ((hop.excludesId i).mp hmem)) hd
    exact fun r hr => hout r ((hop.excludes r).mp hr)
  | member room hid hroom =>
    have hmem : room ∈ op.includeRooms := (hop.includes room).mpr hroom
    refine ⟨room, broadcast_phase h hk (J := Due op room i) trivial ?_ hP⟩
    intro s pc pc' ⟨hfound, hin, hout⟩ hmove hd
    refine due_move hmove ⟨hfound, fun hnil => ?_, fun _ => hin, ?_⟩ (fun _ => hmem)
      (fun hmem => hid ((hop.excludesId i).mp hmem)) hd
    · rw [hnil] at hmem
      cases hmem
    · exact fun r hr => hout r ((hop.excludes r).mp hr)

theorem applied_of_ruledOut (h : (system cfg).RunWhen (fun _ _ => True) l s)
    (hop : op.Collects calls) (hk : s.calls k = .broadcast n op job pc) {i : Nat}
    {P : Runtime → Prop} (hr : RuledOut calls n i P)
    (hP : System.HeldSince (Broadcasting k n op job) P l s) : applied pc i = 0 := by
  cases hr with
  | unregistered =>
    exact broadcast_phase h hk (J := fun pc => applied pc i = 0) rfl
      (fun s pc pc' hi hm h0 => unregistered_move hm hi h0) hP
  | notIncluded room hroom =>
    have hne : op.includeRooms ≠ [] := List.ne_nil_of_mem ((hop.includes room).mpr hroom)
    have ho := broadcast_phase h hk (J := Overlooked op i) trivial (fun s pc pc' hi hm ho =>
      overlooked_move hm (fun r hr => hi r ((hop.includes r).mp hr)) (fun he => absurd he hne) ho) hP
    cases pc with
    | each ids active => exact ho.2
    | _ => rfl
  | notListed hempty =>
    have ho := broadcast_phase h hk (J := Overlooked op i) trivial (fun s pc pc' hi hm ho =>
      overlooked_move hm (fun r hr => absurd ((hop.includes r).mp hr) (hempty r)) (fun _ => hi) ho) hP
    cases pc with
    | each ids active => exact ho.2
    | _ => rfl
  | excluded room hroom =>
    have hs := broadcast_phase h hk (J := Struck op room i) ((hop.excludes room).mpr hroom)
      (fun s pc pc' hi hm hs => struck_move hm hi hs) hP
    cases pc with
    | each ids active => exact hs.2
    | _ => rfl
  | excludedId hid =>
    have hs := broadcast_phase h hk (J := Spared i) trivial
      (fun s pc pc' _ hm hs => spared_move hm ((hop.excludesId i).mpr hid) hs) hP
    cases pc with
    | each ids active => exact hs.2
    | _ => rfl

end Call

/-- The recipients of a broadcast over registries that do not change. -/
def Recipient (calls : List OperatorCall) (x : Namespace) (i : Nat) : Prop :=
  i ∈ x.connections ∧
    ((∀ room, ¬ Includes calls room) ∧ i ∈ x.connectionIds ∨
      ∃ room, Includes calls room ∧ i ∈ x.members room) ∧
    (∀ room, Excludes calls room → i ∉ x.members room) ∧ ¬ ExcludesId calls i

/-- The registries of the namespace are those of `x`. -/
def Unchanged (x : Namespace) (n : Nat) (s : Runtime) : Prop :=
  (s.namespaces n).connections = x.connections ∧
    (s.namespaces n).connectionIds = x.connectionIds ∧ (s.namespaces n).rooms = x.rooms

theorem Unchanged.members {x : Namespace} {n : Nat} (h : Unchanged x n s) (room : String) :
    (s.namespaces n).members room = x.members room := by
  rw [Namespace.members, Namespace.members, h.2.2]

theorem meant_of_recipient {calls : List OperatorCall} {x : Namespace} (n : Nat) {i : Nat}
    (h : Recipient calls x i) :
    ∃ P, Meant calls n i P ∧ ∀ s, Unchanged x n s → P s := by
  obtain ⟨hfound, hroom, hexcl, hid⟩ := h
  rcases hroom with ⟨hempty, hlisted⟩ | ⟨room, hroom, hin⟩
  · refine ⟨_, .everyone hid hempty, fun s hs => ⟨?_, ?_, fun r hr => ?_⟩⟩
    · rw [hs.1]
      exact hfound
    · rw [hs.2.1]
      exact hlisted
    · rw [hs.members]
      exact hexcl r hr
  · refine ⟨_, .member room hid hroom, fun s hs => ⟨?_, ?_, fun r hr => ?_⟩⟩
    · rw [hs.1]
      exact hfound
    · rw [hs.members]
      exact hin
    · rw [hs.members]
      exact hexcl r hr

theorem ruledOut_of_not_recipient {calls : List OperatorCall} {x : Namespace} (n : Nat) {i : Nat}
    (h : ¬ Recipient calls x i) :
    ∃ P, RuledOut calls n i P ∧ ∀ s, Unchanged x n s → P s := by
  by_cases hid : ExcludesId calls i
  · exact ⟨_, .excludedId hid, fun _ _ => trivial⟩
  by_cases hfound : i ∈ x.connections
  · by_cases hexcl : ∃ room, Excludes calls room ∧ i ∈ x.members room
    · obtain ⟨room, hroom, hin⟩ := hexcl
      exact ⟨_, .excluded room hroom, fun s hs => by rw [hs.members]; exact hin⟩
    · push Not at hexcl
      by_cases hincl : ∃ room, Includes calls room
      · obtain ⟨room, hroom⟩ := hincl
        refine ⟨_, .notIncluded room hroom, fun s hs r hr hin => h ⟨hfound, .inr ⟨r, hr, ?_⟩, hexcl, hid⟩⟩
        rw [← hs.members]
        exact hin
      · push Not at hincl
        refine ⟨_, .notListed hincl, fun s hs hin => h ⟨hfound, .inl ⟨hincl, ?_⟩, hexcl, hid⟩⟩
        rw [← hs.2.1]
        exact hin
  · exact ⟨_, .unregistered, fun s hs => by rw [hs.1]; exact hfound⟩

/-- **Broadcast targeting.** For every operator, built by any sequence of calls, and in
every interleaving of the broadcast with everything else the server does: on a connection
that is meant during the whole call the run has started the action once when the call
returns, and never more often; on a connection that one and the same reason rules out
during the whole call it never has. When the registries do not change during the call, the
recipients are the connections of the included rooms (or all) without those of the excluded
rooms and without the excluded ids. The operators of a connection never reach the connection
itself. When the call returns, every action that it started has ended. -/
theorem broadcast_targets {cfg : ServerConfig} {l : List (Runtime × ServerAction)} {s : Runtime}
    (h : (system cfg).RunWhen (fun _ _ => True) l s) {calls : List OperatorCall} {op : Operator}
    (hop : op.Collects calls) {k n : Nat} {job : Job} {pc : BroadcastPc}
    (hk : s.calls k = .broadcast n op job pc) :
    (∀ i P, Meant calls n i P → System.HeldSince (Broadcasting k n op job) P l s →
      applications cfg k job l i ≤ 1 ∧ (Returns cfg s k → applications cfg k job l i = 1)) ∧
    (∀ i P, RuledOut calls n i P → System.HeldSince (Broadcasting k n op job) P l s →
      applications cfg k job l i = 0) ∧
    (∀ x, System.HeldSince (Broadcasting k n op job) (Unchanged x n) l s → Returns cfg s k →
      ∀ i, (Recipient calls x i → applications cfg k job l i = 1) ∧
        (¬ Recipient calls x i → applications cfg k job l i = 0)) ∧
    (∀ id rooms more, calls = connectionTo id rooms ++ more ∨ calls = connectionExcept id rooms ++ more →
      applications cfg k job l id = 0) ∧
    (Returns cfg s k → ∀ p ∈ startedCalls cfg k job l, callerDone s p = true) := by
  have hmeant : ∀ i P, Meant calls n i P → System.HeldSince (Broadcasting k n op job) P l s →
      applications cfg k job l i ≤ 1 ∧ (Returns cfg s k → applications cfg k job l i = 1) := by
    intro i P hm hP
    obtain ⟨room, hd⟩ := due_of_meant h hop hk hm hP
    rw [applications_eq h hk]
    refine ⟨applied_of_due hd, fun hr => ?_⟩
    obtain ⟨active, rfl, -⟩ := returns_broadcast hk hr
    simpa [Due] using hd
  have hout : ∀ i P, RuledOut calls n i P → System.HeldSince (Broadcasting k n op job) P l s →
      applications cfg k job l i = 0 := by
    intro i P hr hP
    rw [applications_eq h hk]
    exact applied_of_ruledOut h hop hk hr hP
  refine ⟨hmeant, hout, fun x hx hr i => ⟨fun hrec => ?_, fun hnot => ?_⟩,
    fun id rooms more hcalls => ?_, fun hr p hp => ?_⟩
  · obtain ⟨P, hm, hxP⟩ := meant_of_recipient n hrec
    exact (hmeant i P hm (hx.mono hxP)).2 hr
  · obtain ⟨P, hr, hxP⟩ := ruledOut_of_not_recipient n hnot
    exact hout i P hr (hx.mono hxP)
  · refine hout id _ (.excludedId ⟨[id], ?_, List.mem_singleton.mpr rfl⟩)
      (h.heldSince (fun _ _ _ _ => trivial) trivial)
    rcases hcalls with rfl | rfl <;> simp [connectionTo, connectionExcept]
  · obtain ⟨active, rfl, hdone⟩ := returns_broadcast hk hr
    rw [(startedCalls_eq h).1 n op job _ hk, List.mem_reverse] at hp
    exact List.all_eq_true.mp hdone p hp

/-- While call 1 runs, connection 0 is registered, in room `a` and not in room `b`. -/
def staysInRoom (s : Runtime) : Bool :=
  match s.calls 1 with
  | .broadcast _ _ _ _ => 0 ∈ (s.namespaces 0).connections && 0 ∈ (s.namespaces 0).members "a" &&
      0 ∉ (s.namespaces 0).members "b"
  | _ => true

theorem broadcast_targets_run :
    ∃ l s pc, (system (.postcard false)).RunWhen (fun _ _ => True) l s ∧
      s.calls 1 = .broadcast 0 (build [.to ["a"], .except ["b"]]) .close pc ∧
      Returns (.postcard false) s 1 ∧ applications (.postcard false) 1 .close l 0 = 1 := by
  obtain ⟨s, hr, hs⟩ := System.exists_reachableWhen_of_execWhen
    (S := system (.postcard false)) (g := fun s _ => staysInRoom s)
    (l := List.flatten [readyRun, List.replicate 3 (.conn 0 (.read .go)),
      [.conn 0 (.start 0 (.join ["a"]))], List.replicate 2 (.conn 0 (.caller 0)),
      [.start 1 (.close 0 (build [.to ["a"], .except ["b"]]))], List.replicate 5 (.call 1 .go),
      [.call 1 (.target 0 1)], List.replicate 3 (.conn 0 (.caller 1))])
    (p := fun s => staysInRoom s && (match s.calls 1 with
      | .broadcast n op job _ => n = 0 && op = build [.to ["a"], .except ["b"]] && job = .close
      | _ => false) && (step (.postcard false) s (.call 1 .go)).any fun s' =>
        match s'.calls 1 with
        | .done (.ok _) => true
        | _ => false) (by decide +kernel)
  simp only [Bool.and_eq_true] at hs
  obtain ⟨⟨hstay, hcall⟩, hret⟩ := hs
  obtain ⟨pc, hk⟩ : ∃ pc, s.calls 1 = .broadcast 0 (build [.to ["a"], .except ["b"]]) .close pc := by
    revert hcall
    cases s.calls 1 with
    | broadcast n op job pc =>
      intro hcall
      simp only [Bool.and_eq_true, decide_eq_true_eq] at hcall
      obtain ⟨⟨rfl, rfl⟩, rfl⟩ := hcall
      exact ⟨pc, rfl⟩
    | _ => simp
  have hreturns : Returns (.postcard false) s 1 := by
    obtain ⟨s', hs', hdone⟩ := (Option.any_eq_true _ _).mp hret
    refine ⟨.go, s', hs', ?_⟩
    revert hdone
    cases s'.calls 1 with
    | done r => cases r <;> simp
    | _ => simp
  obtain ⟨l, hl⟩ := hr.exists_run
  have hheld : System.HeldSince (Broadcasting 1 0 (build [.to ["a"], .except ["b"]]) .close)
      (fun s => 0 ∈ (s.namespaces 0).connections ∧ 0 ∈ (s.namespaces 0).members "a" ∧
        ∀ room, Excludes [.to ["a"], .except ["b"]] room → 0 ∉ (s.namespaces 0).members room) l s := by
    have hstays : ∀ t, staysInRoom t = true →
        Broadcasting 1 0 (build [.to ["a"], .except ["b"]]) .close t →
        0 ∈ (t.namespaces 0).connections ∧ 0 ∈ (t.namespaces 0).members "a" ∧
          ∀ room, Excludes [.to ["a"], .except ["b"]] room → 0 ∉ (t.namespaces 0).members room := by
      rintro t ht ⟨pc, hpc⟩
      simp only [staysInRoom, hpc, Bool.and_eq_true, decide_eq_true_eq] at ht
      refine ⟨ht.1.1, ht.1.2, fun room hroom => ?_⟩
      obtain ⟨rooms, hrooms, hmem⟩ := hroom
      obtain rfl : rooms = ["b"] := by simpa using hrooms
      obtain rfl := List.mem_singleton.mp hmem
      exact ht.2
    exact hl.heldSince (fun t _ ht hd => hstays t ht hd) (hstays s hstay ⟨pc, hk⟩)
  refine ⟨l, s, pc, hl.unguarded, hk, hreturns, ?_⟩
  refine ((broadcast_targets hl.unguarded (build_collects _) hk).1 0 _ (.member "a" ?_ ?_) hheld).2 hreturns
  · rintro ⟨ids, hids, -⟩
    simp at hids
  · exact ⟨["a"], by simp, List.mem_singleton.mpr rfl⟩

end Runtime

end WsIo.Server
