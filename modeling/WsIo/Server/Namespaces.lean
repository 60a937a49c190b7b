import WsIo.Core.EventRegistry
import WsIo.Server.Shutdown

/-!
# One namespace per path

`insert_namespace` looks for the path under the read lock and inserts under the write
lock. `step_paths` says what a step of the server does to the map of namespaces. Two
registrations of one path that both look before either inserts both succeed, and the
second replaces the namespace of the first (`namespace_replaced`); apart from that a path
has one namespace until it is removed (`one_namespace_per_path`).
-/

namespace WsIo.Server

open Async Core

/-- The call is an `insert_namespace` that has not returned. -/
def Call.registering : Call → Bool
  | .insertCheck _ | .insertWrite _ => true
  | _ => false

namespace Runtime

variable {cfg : ServerConfig} {s s' : Runtime}

/-- `get_namespace`. -/
def getNamespace (s : Runtime) (path : String) : Option Nat := s.paths.lookup path

/-- The step inserts the namespace into the map; `register` then returns `Ok`. -/
def Registers (s : Runtime) (a : ServerAction) (n : Nat) : Prop :=
  ∃ k x, a = .call k x ∧ s.calls k = .insertWrite n

/-- The step removes the path from the map. -/
def Removes (s : Runtime) (a : ServerAction) (path : String) : Prop :=
  ∃ k x, a = .call k x ∧ s.calls k = .removeNamespace path

/-! ## How a step moves the map -/

/-- The registrations in progress after the step were where they are before it. -/
def Still (s s' : Runtime) : Prop :=
  ∀ k, (s'.calls k).registering = true → s.calls k = s'.calls k

theorem Still.insertWrite (h : Still s s') {k n : Nat} (hk : s'.calls k = .insertWrite n) :
    s.calls k = .insertWrite n := (h k (by rw [hk]; rfl)).trans hk

theorem Still.setCall {s₁ : Runtime} (hc : s₁.calls = s.calls) {k : Nat} {c : Call}
    (hr : c.registering = false) : Still s (s₁.setCall k c) := by
  intro j hj
  rw [setCall_calls] at hj ⊢
  split at hj
  · rw [hr] at hj
    cases hj
  · rename_i hjk
    rw [if_neg hjk, hc]

/-- What a step does to the map of namespaces and to the registrations in progress. -/
inductive PathMove (cfg : ServerConfig) (s : Runtime) (a : ServerAction) (s' : Runtime) : Prop
  | rest (paths : s'.paths = s.paths) (still : Still s s')
  | begins (k n : Nat) (action : a = .start k (.insertNamespace n)) (paths : s'.paths = s.paths)
      (calls : ∀ j, s'.calls j = if j = k then .insertCheck n else s.calls j)
  | finds (k n : Nat) (x : CallInput) (action : a = .call k x) (pc : s.calls k = .insertCheck n)
      (free : getNamespace s (cfg.path n) = none) (eq : s' = s.setCall k (.insertWrite n))
  | inserts (k n : Nat) (x : CallInput) (action : a = .call k x) (pc : s.calls k = .insertWrite n)
      (paths : s'.paths = (cfg.path n, n) :: s.paths.filter (·.1 ≠ cfg.path n)) (still : Still s s')
      (ends : s'.calls k = .done (.ok ()))
  | removes (k : Nat) (path : String) (x : CallInput) (action : a = .call k x)
      (pc : s.calls k = .removeNamespace path) (paths : s'.paths = s.paths.filter (·.1 ≠ path))
      (still : Still s s')

theorem access_paths (n i : Nat) (op : Option RegistryOp) : (s.access n i op).paths = s.paths := by
  cases op <;> rfl

theorem spawn_paths (m : Member) (i : Nat) (a : Action) : (s.spawn m i a).paths = s.paths := by
  unfold spawn
  split <;> rfl

theorem spawn_calls (m : Member) (i : Nat) (a : Action) : (s.spawn m i a).calls = s.calls := by
  unfold spawn
  split <;> rfl

theorem broadcastStep_paths {n : Nat} {op : Operator} {job : Job} {pc : BroadcastPc}
    {x : CallInput} {r : Option BroadcastPc}
    (h : broadcastStep cfg s n op job pc x = some (s', r)) : s'.paths = s.paths := by
  rcases broadcastStep_cases h with rfl | ⟨i, key, m, c, -, -, rfl⟩ <;> rfl

theorem shutdownStep_paths {n : Nat} {pc : ShutdownPc} {x : CallInput} {r : Option ShutdownPc}
    (h : shutdownStep cfg s n pc x = some (s', r)) : s'.paths = s.paths := by
  unfold shutdownStep at h
  dsimp only at h
  split at h
  · split at h <;> cases h <;> rfl
  · cases h
    rfl
  · split at h
    · cases h
    · rename_i hb
      cases h
      exact broadcastStep_paths hb
    · rename_i hb
      have hp := broadcastStep_paths hb
      cases h
      exact hp
  · split at h <;> cases h
    rfl
  · split at h <;> cases h
    rfl
  · split at h <;> cases h
    rfl
  · cases h
    rfl
  · cases h

theorem releaseLocks_paths (l : List (Nat × ShutdownPc)) (s : Runtime) :
    (l.foldl releaseLock s).paths = s.paths := by
  induction l generalizing s with
  | nil => rfl
  | cons p l ih =>
    rw [List.foldl_cons, ih]
    unfold releaseLock
    split <;> rfl

theorem callStep_paths {k : Nat} {x : CallInput} (h : callStep cfg s k x = some s') :
    PathMove cfg s (.call k x) s' := by
  -- the calls other than registrations and removals
  have hrest : ∀ (s₁ : Runtime) (c : Call), s₁.paths = s.paths → s₁.calls = s.calls →
      c.registering = false → PathMove cfg s (.call k x) (s₁.setCall k c) := by
    intro s₁ c hp hc hr
    exact .rest hp (.setCall hc hr)
  unfold callStep at h
  split at h
  case h_1 n op job pc hk =>
    split at h
    · cases h
    · rename_i s₁ pc' hb
      cases h
      exact hrest _ _ (broadcastStep_paths hb) (broadcastStep_steady hb).2.1 rfl
    · rename_i s₁ hb
      cases h
      exact hrest _ _ (broadcastStep_paths hb) (broadcastStep_steady hb).2.1 rfl
  case h_2 n op event data hk =>
    split at h
    · cases h
      exact hrest _ _ rfl rfl rfl
    · split at h <;> cases h <;> exact hrest _ _ rfl rfl rfl
  case h_3 n pc hk =>
    obtain ⟨⟨s₁, r⟩, hs, rfl⟩ := Option.map_eq_some_iff.mp h
    cases r with
    | some pc' => exact hrest _ _ (shutdownStep_paths hs) (shutdownStep_calls hs).1 rfl
    | none => exact hrest _ _ (shutdownStep_paths hs) (shutdownStep_calls hs).1 rfl
  case h_4 path hk =>
    split at h
    · cases h
      exact hrest _ _ rfl rfl rfl
    · cases h
      exact .removes k path x rfl hk rfl (.setCall rfl rfl)
  case h_5 n hk =>
    split at h
    · cases h
      exact hrest _ _ rfl rfl rfl
    · rename_i hfree
      cases h
      exact .finds k n x rfl hk hfree rfl
  case h_6 n hk =>
    cases h
    exact .inserts k n x rfl hk rfl (.setCall rfl rfl) (by simp [setCall_calls])
  case h_7 hk => split at h <;> cases h <;> exact hrest _ _ rfl rfl rfl
  case h_10 children hk =>
    split at h
    · cases h
      exact hrest _ _ rfl rfl rfl
    · cases h
  case h_8 | h_9 | h_11 =>
    cases h
    exact hrest _ _ rfl rfl rfl
  all_goals cases h

/-- The map of namespaces changes by a registration or a removal only. -/
theorem step_paths {a : ServerAction} (h : step cfg s a = some s') : PathMove cfg s a s' := by
  cases a with
  | resolve i path =>
    simp only [step] at h
    split at h
    · cases h
      exact .rest rfl fun _ _ => rfl
    · cases h
  | conn i b =>
    simp only [step] at h
    split at h
    · cases h
    · rename_i m hm
      split at h
      · obtain ⟨s₁, hs, rfl⟩ := Option.map_eq_some_iff.mp h
        unfold connStep at hs
        rw [hm] at hs
        dsimp only at hs
        split at hs
        · cases hs
        · cases hs
          refine .rest ?_ fun k _ => ?_
          · rw [spawn_paths, access_paths]
            rfl
          · rw [spawn_calls, access_calls]
            rfl
      · cases h
  | start k r =>
    simp only [step] at h
    split at h
    · obtain ⟨c, hc, rfl⟩ := Option.map_eq_some_iff.mp h
      cases r with
      | insertNamespace n =>
        obtain rfl : c = .insertCheck n := by
          simp only [entry] at hc
          split at hc <;> cases hc
          rfl
        exact .begins k n rfl rfl fun j => setCall_calls ..
      | removeNamespace path =>
        cases hc
        exact .rest rfl (.setCall rfl rfl)
      | runtimeShutdown =>
        cases hc
        exact .rest rfl (.setCall rfl rfl)
      | _ =>
        simp only [entry] at hc
        split at hc <;> cases hc
        exact .rest rfl (.setCall rfl rfl)
    · cases h
  | call k x => exact callStep_paths h
  | child k j x =>
    simp only [step] at h
    unfold childStep at h
    split at h
    · split at h
      · cases h
      · split at h
        · cases h
        · rename_i hs
          cases h
          have hp := shutdownStep_paths hs
          exact .rest hp (.setCall (shutdownStep_calls hs).1 rfl)
        · rename_i hs
          cases h
          refine .rest ((releaseLocks_paths _ _).trans (shutdownStep_paths hs))
            (.setCall ?_ rfl)
          rw [(releaseLocks_calls _ _).1, (shutdownStep_calls hs).1]
    · cases h
  | drop k =>
    simp only [step] at h
    split at h
    · cases h
      exact .rest (releaseLocks_paths _ _) (.setCall (releaseLocks_calls _ _).1 rfl)
    · cases h

/-! ## One namespace per path -/

/-- A registration looks for its path only while no other registration of the path is
between its look and its insertion. -/
def LooksApart (cfg : ServerConfig) (s : Runtime) (a : ServerAction) : Prop :=
  ∀ k x n, a = .call k x → s.calls k = .insertCheck n → ∀ k' n', s.calls k' = .insertWrite n' →
    cfg.path n' ≠ cfg.path n

/-- The registrations that have found their path free are for different paths, and the
paths are still free. -/
structure Waiting (cfg : ServerConfig) (s : Runtime) : Prop where
  free : ∀ k n, s.calls k = .insertWrite n → getNamespace s (cfg.path n) = none
  apart : ∀ k n k' n', s.calls k = .insertWrite n → s.calls k' = .insertWrite n' →
    cfg.path n = cfg.path n' → k = k'

theorem PathMove.lookup_inserts {n : Nat} (h : s'.paths =
    (cfg.path n, n) :: s.paths.filter (·.1 ≠ cfg.path n)) (path : String) :
    getNamespace s' path = if path = cfg.path n then some n else getNamespace s path := by
  unfold getNamespace
  rw [h, lookup_cons_ite, lookup_filter]
  by_cases hp : path = cfg.path n <;> simp [hp]

theorem PathMove.lookup_removes {path : String}
    (h : s'.paths = s.paths.filter (·.1 ≠ path)) (path' : String) :
    getNamespace s' path' = if path' = path then none else getNamespace s path' := by
  unfold getNamespace
  rw [h, lookup_filter]

theorem Waiting.still (hw : Waiting cfg s) (hs : Still s s')
    (hp : ∀ k n, s'.calls k = .insertWrite n → getNamespace s' (cfg.path n) = none) :
    Waiting cfg s' :=
  ⟨hp, fun k n k' n' hk hk' => hw.apart k n k' n' (hs.insertWrite hk) (hs.insertWrite hk')⟩

theorem waiting_step {a : ServerAction} (h : step cfg s a = some s') (hg : LooksApart cfg s a)
    (hw : Waiting cfg s) : Waiting cfg s' := by
  cases step_paths h with
  | rest hp hc =>
    refine hw.still hc fun k n hk => ?_
    unfold getNamespace
    rw [hp]
    exact hw.free k n (hc.insertWrite hk)
  | begins k n ha hp hc =>
    have hcases : ∀ j n', s'.calls j = .insertWrite n' → s.calls j = .insertWrite n' := by
      intro j n' hj
      rw [hc] at hj
      split at hj
      · cases hj
      · exact hj
    refine ⟨fun j n' hj => ?_, fun j n' j' n'' hj hj' =>
      hw.apart j n' j' n'' (hcases j n' hj) (hcases j' n'' hj')⟩
    unfold getNamespace
    rw [hp]
    exact hw.free j n' (hcases j n' hj)
  | finds k n x ha hk hfree heq =>
    subst heq
    have hcases : ∀ j n', (s.setCall k (.insertWrite n)).calls j = .insertWrite n' →
        (j = k ∧ n' = n) ∨ s.calls j = .insertWrite n' := by
      intro j n' hj
      rw [setCall_calls] at hj
      split at hj
      · cases hj
        exact .inl ⟨‹_›, rfl⟩
      · exact .inr hj
    refine ⟨fun j n' hj => ?_, fun j n' j' n'' hj hj' hp => ?_⟩
    · rcases hcases j n' hj with ⟨-, rfl⟩ | hold
      · exact hfree
      · exact hw.free j n' hold
    · rcases hcases j n' hj with ⟨hjk, hn⟩ | hold <;>
        rcases hcases j' n'' hj' with ⟨hjk', hn'⟩ | hold'
      · rw [hjk, hjk']
      · exact absurd (hn ▸ hp.symm) (hg k x n ha hk j' n'' hold')
      · exact absurd (hn' ▸ hp) (hg k x n ha hk j n' hold)
      · exact hw.apart j n' j' n'' hold hold' hp
  | inserts k n x ha hk hp hc hend =>
    refine hw.still hc fun j n' hj => ?_
    have hold := hc.insertWrite hj
    rw [PathMove.lookup_inserts hp, if_neg, hw.free j n' hold]
    -- a second registration of the path would be this one
    intro he
    obtain rfl := hw.apart j n' k n hold hk he
    rw [hend] at hj
    cases hj
  | removes k path x ha hk hp hc =>
    refine hw.still hc fun j n' hj => ?_
    rw [PathMove.lookup_removes hp, hw.free j n' (hc.insertWrite hj), ite_self]

theorem waiting_of_reachable (h : (system cfg).ReachableWhen (LooksApart cfg) s) :
    Waiting cfg s := by
  refine h.invariant (I := Waiting cfg) ?_ fun _ _ _ _ hg hs hi => waiting_step hs hg hi
  refine ⟨fun k n hk => ?_, fun k n k' n' hk => ?_⟩
  · cases hk
  · cases hk

/-- A namespace stays in the map until its path is removed. -/
theorem getNamespace_step {a : ServerAction} (h : step cfg s a = some s') (hw : Waiting cfg s)
    {path : String} {n : Nat} (hn : getNamespace s path = some n) (hr : ¬ Removes s a path) :
    getNamespace s' path = some n := by
  cases step_paths h with
  | rest hp hc =>
    unfold getNamespace
    rw [hp]
    exact hn
  | begins k n' ha hp hc =>
    unfold getNamespace
    rw [hp]
    exact hn
  | finds k n' x ha hk hfree heq =>
    subst heq
    exact hn
  | inserts k n' x ha hk hp hc hend =>
    rw [PathMove.lookup_inserts hp, if_neg, hn]
    rintro rfl
    rw [hw.free k n' hk] at hn
    cases hn
  | removes k path' x ha hk hp hc =>
    rw [PathMove.lookup_removes hp, if_neg, hn]
    rintro rfl
    exact hr ⟨k, x, ha, hk⟩

theorem getNamespace_registers {a : ServerAction} {n : Nat} (h : step cfg s a = some s')
    (hr : Registers s a n) : getNamespace s' (cfg.path n) = some n := by
  obtain ⟨k, x, rfl, hk⟩ := hr
  simp only [step, callStep, hk, Option.some.injEq] at h
  refine (PathMove.lookup_inserts (s := s) (n := n) ?_ _).trans (if_pos rfl)
  rw [← h]
  rfl

/-- What the registrations and removals of a run amount to: a registration that returns
`Ok` replaces nothing, its namespace is the one of its path until the path is removed,
and between two of them for one path the path is removed. -/
structure OnePerPath (cfg : ServerConfig) (l : List (Runtime × ServerAction)) (s : Runtime) :
    Prop where
  fresh : ∀ p ∈ l, ∀ n, Registers p.1 p.2 n → getNamespace p.1 (cfg.path n) = none
  stays : ∀ later t a earlier n, l = later ++ (t, a) :: earlier → Registers t a n →
    (∀ p ∈ later, ¬ Removes p.1 p.2 (cfg.path n)) → getNamespace s (cfg.path n) = some n
  once : ∀ later t' a' between t a earlier n n',
    l = later ++ (t', a') :: (between ++ (t, a) :: earlier) → Registers t a n →
    Registers t' a' n' → cfg.path n' = cfg.path n →
    ∃ p ∈ between, Removes p.1 p.2 (cfg.path n)

theorem free_of_run {l : List (Runtime × ServerAction)}
    (h : (system cfg).RunWhen (LooksApart cfg) l s) {a : ServerAction} {n : Nat}
    (hr : Registers s a n) : getNamespace s (cfg.path n) = none := by
  obtain ⟨k, x, -, hk⟩ := hr
  exact (waiting_of_reachable h.reachableWhen).free k n hk

theorem stays_of_run {later earlier : List (Runtime × ServerAction)} {t : Runtime}
    {a : ServerAction} (h : (system cfg).RunWhen (LooksApart cfg) (later ++ (t, a) :: earlier) s)
    {n : Nat} (hr : Registers t a n) (hno : ∀ p ∈ later, ¬ Removes p.1 p.2 (cfg.path n)) :
    getNamespace s (cfg.path n) = some n := by
  induction later generalizing s with
  | nil =>
    cases h with
    | step _ _ hs => exact getNamespace_registers hs hr
  | cons p later ih =>
    cases h with
    | step hrun _ hs =>
      have hprev := ih hrun fun p hp => hno p (List.mem_cons_of_mem _ hp)
      exact getNamespace_step hs (waiting_of_reachable hrun.reachableWhen) hprev
        (hno _ List.mem_cons_self)

/-- **One namespace per path.** In every run of the server in which no registration looks
for its path while another registration of the path is between its look and its insertion:
a registration that returns `Ok` never replaces a namespace, its namespace is the one
`get_namespace` returns until the path is removed, and between two that return `Ok` for
one path there is a removal of the path. -/
theorem one_namespace_per_path {cfg : ServerConfig} {l : List (Runtime × ServerAction)}
    {s : Runtime} (h : (system cfg).RunWhen (LooksApart cfg) l s) : OnePerPath cfg l s := by
  refine ⟨fun p hp n hr => ?_, fun later t a earlier n hl hr hno => ?_,
    fun later t' a' between t a earlier n n' hl hr hr' hpath => ?_⟩
  · obtain ⟨later, earlier, rfl⟩ := List.append_of_mem hp
    exact free_of_run h.before hr
  · subst hl
    exact stays_of_run h hr hno
  · subst hl
    by_contra hno
    push Not at hno
    have hsome := stays_of_run h.before hr hno
    rw [← hpath, free_of_run h.before hr'] at hsome
    cases hsome

/-- Only the first calls register, and they look for their paths apart. -/
def looksApart (cfg : ServerConfig) (s : Runtime) : ServerAction → Bool
  | .start k (.insertNamespace _) => k < 3
  | .call k _ =>
    match s.calls k with
    | .insertCheck n => (List.range 3).all fun k' =>
        match s.calls k' with
        | .insertWrite n' => cfg.path n' ≠ cfg.path n
        | _ => true
    | _ => true
  | _ => true

theorem not_registering (h : (system cfg).ReachableWhen (fun s a => looksApart cfg s a = true) s)
    {k : Nat} (hk : 3 ≤ k) : (s.calls k).registering = false := by
  refine h.invariant (I := fun s => (s.calls k).registering = false) rfl ?_
  intro s a s' _ hg hs hi
  have hstill : Still s s' → (s'.calls k).registering = false := by
    intro hst
    by_contra hr
    rw [hst k (by simpa using hr)] at hi
    exact hr hi
  cases step_paths hs with
  | rest hp hc => exact hstill hc
  | begins j n ha hp hc =>
    subst ha
    have hj : j < 3 := by simpa [looksApart] using hg
    rw [hc, if_neg (by omega)]
    exact hi
  | finds j n x ha hj hfree heq =>
    subst heq
    have hne : k ≠ j := by
      rintro rfl
      rw [hj] at hi
      cases hi
    rw [setCall_calls, if_neg hne]
    exact hi
  | inserts j n x ha hj hp hc hend => exact hstill hc
  | removes j path x ha hj hp hc => exact hstill hc

theorem looksApart_of_reachable {a : ServerAction}
    (h : (system cfg).ReachableWhen (fun s a => looksApart cfg s a = true) s)
    (hg : looksApart cfg s a = true) : LooksApart cfg s a := by
  intro k x n ha hk k' n' hk'
  subst ha
  have hlt : k' < 3 := by
    by_contra hge
    have hr := not_registering h (k := k') (by omega)
    rw [hk'] at hr
    cases hr
  simp only [looksApart, hk, List.all_eq_true, List.mem_range] at hg
  have hne := hg k' hlt
  rw [hk'] at hne
  simpa using hne

theorem one_namespace_per_path_run :
    ∃ l s, (system (.postcard false)).RunWhen (LooksApart (.postcard false)) l s ∧
      getNamespace s "/" = some 1 ∧ OnePerPath (.postcard false) l s := by
  -- the path is registered, removed and registered again
  obtain ⟨s, hr, hs⟩ := System.exists_reachableWhen_of_execWhen
    (S := system (.postcard false)) (g := looksApart (.postcard false))
    (l := [.start 0 (.insertNamespace 0), .call 0 .go, .call 0 .go, .start 1 (.removeNamespace "/"),
      .call 1 .go, .start 2 (.insertNamespace 1), .call 2 .go, .call 2 .go])
    (p := fun s => getNamespace s "/" = some 1) (by decide +kernel)
  obtain ⟨l, hl⟩ := (hr.imp fun _ _ hs hg => looksApart_of_reachable hs hg).exists_run
  exact ⟨l, s, hl, of_decide_eq_true hs, one_namespace_per_path hl⟩

/-- Two registrations of one path look for it before either inserts: both return `Ok`, and
the second replaces the namespace of the first. -/
theorem namespace_replaced :
    ¬ ∀ l s, (system (.postcard false)).RunWhen (fun _ _ => True) l s →
      OnePerPath (.postcard false) l s := by
  intro h
  obtain ⟨s, hr, hs⟩ := System.exists_reachable_of_exec (S := system (.postcard false))
    (l := [.start 0 (.insertNamespace 0), .start 1 (.insertNamespace 1), .call 0 .go, .call 1 .go,
      .call 0 .go])
    (p := fun s => getNamespace s "/" = some 0 &&
      match s.calls 1 with | .insertWrite n => n = 1 | _ => false) (by decide +kernel)
  simp only [Bool.and_eq_true, decide_eq_true_eq] at hs
  obtain ⟨hget, hcall⟩ := hs
  have hk : s.calls 1 = .insertWrite 1 := by
    revert hcall
    cases s.calls 1 <;> simp
  obtain ⟨l, hl⟩ := System.ReachableWhen.exists_run hr
  obtain ⟨s', hs'⟩ : ∃ s', (system (.postcard false)).step s (.call 1 .go) = some s' := by
    simp [system, step, callStep, hk]
  have hone := h _ _ (.step hl trivial hs')
  have hfree := hone.fresh (s, .call 1 .go) List.mem_cons_self 1 ⟨1, .go, rfl, hk⟩
  rw [show ServerConfig.path (.postcard false) 1 = "/" from rfl, hget] at hfree
  cases hfree

end Runtime

end WsIo.Server
