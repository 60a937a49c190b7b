import Mathlib.Algebra.BigOperators.Finprod
import WsIo.Server.Registration

/-!
# The registries agree

A connection is in three registries: its namespace's `connections` and `connection_ids`,
and the runtime's `connection_ids`. Each insertion and each removal goes through them one
after the other, with no lock over the three. `Aligned` says what a connection's newest
accesses to them look like while one of these calls is under way; between the calls the
registries agree (`registries_agree`).
-/

namespace WsIo.Server

open Async Core

/-- `WsIoServerNamespace::connection_count`. -/
def Namespace.connectionCount (x : Namespace) : Nat := x.connections.card

/-- `WsIoServerRuntime::connection_count`. -/
def Runtime.connectionCount (s : Runtime) : Nat := s.connectionIds.card

theorem MainPc.removed_runtimeIds {pc : MainPc} (h : pc.removed .connections = false) :
    pc.removed .runtimeIds = false := by
  by_contra hr
  rw [MainPc.removed_connections (by simpa using hr)] at h
  cases h

theorem MainPc.removed_connectionIds {pc : MainPc} (h : pc.removed .runtimeIds = false) :
    pc.removed .connectionIds = false := by
  revert h
  unfold MainPc.removed
  split <;> simp

namespace Connection

variable {cfg : NamespaceConfig} {c c' : Connection}

/-- An `insert_connection` or a `remove_connection` has begun and not finished. -/
def registrationMoves (c : Connection) : Bool :=
  c.read = .insert .runtimeIds || c.read = .insert .connectionIds ||
    c.main = .remove .runtimeIds || c.main = .remove .connectionIds

/-- The read task goes through `insert_connection` by its insertions. -/
theorem step_insert_stays {a : Action} (h : step cfg c a = some c')
    (hu : c.main.created = false ∨ c.main = .spawnRead → c.read = .absent) {r : Registry}
    (hr : c.read = .insert r) :
    (c'.read = .insert r ∧ a ≠ .read .go) ∨ (a = .read .go ∧ c'.read = afterInsert r) := by
  by_cases ha : ∃ i, a = .read i
  · obtain ⟨i, rfl⟩ := ha
    cases i with
    | go =>
      simp only [step, readStep, readGo, hr, Option.some.injEq] at h
      exact .inr ⟨rfl, by rw [← h]⟩
    | _ => simp [step, readStep, hr, ReadPc.awaits] at h
  · push Not at ha
    refine .inl ⟨?_, ha _⟩
    rcases (step_outside h ha).1 with he | ⟨hm, -⟩
    · rw [he, hr]
    · rw [hu (.inr hm)] at hr
      cases hr

/-- The newest accesses of a connection to the registries, whatever it is doing: while an
insertion is under way the registries it has passed hold the connection, and registries
that no call stands between agree. -/
structure Aligned (c : Connection) : Prop where
  unread : c.main.created = false ∨ c.main = .spawnRead → c.read = .absent
  first : c.read = .insert .runtimeIds → registered .connections (registryOps c.log) = true
  second : c.read = .insert .connectionIds → registered .runtimeIds (registryOps c.log) = true
  outer : c.read ≠ .insert .runtimeIds → c.main.removed .connections = false →
    registered .connections (registryOps c.log) = registered .runtimeIds (registryOps c.log)
  inner : c.read ≠ .insert .connectionIds → c.main.removed .runtimeIds = false →
    registered .runtimeIds (registryOps c.log) = registered .connectionIds (registryOps c.log)

/-- A registry that the main task has not removed the connection from after the step was
not touched by a removal in the step. -/
theorem effect_ne_remove {a : Action} (h : step cfg c a = some c') {r : Registry}
    (hr : c'.main.removed r = false) : effect c a ≠ some (.remove r) := by
  intro he
  obtain ⟨rfl, hm⟩ := effect_remove he
  simp only [step, mainStep, mainGo, hm, Option.some.injEq] at h
  rw [← h] at hr
  cases r <;> cases hr

theorem step_not_removed {a : Action} (h : step cfg c a = some c') {r : Registry}
    (hr : c'.main.removed r = false) : c.main.removed r = false := by
  by_contra hm
  rw [(step_removed h r).1 (by simpa using hm)] at hr
  cases hr

/-- A registry that no insertion or removal of the step concerns is as before. -/
theorem registered_same {a : Action} (h : step cfg c a = some c') {r : Registry}
    (hr : c'.main.removed r = false) (hi : effect c a ≠ some (.insert r)) :
    registered r (registryOps c'.log) = registered r (registryOps c.log) := by
  rw [registered_step h, if_neg hi, if_neg (effect_ne_remove h hr)]

theorem aligned_step {a : Action} (h : step cfg c a = some c') (hc' : Cleaned c')
    (hi : Aligned c) : Aligned c' := by
  have hinserted : ∀ r, effect c a = some (.insert r) →
      registered r (registryOps c'.log) = true := by
    intro r he
    rw [registered_step h, if_pos he]
  -- while an insertion is under way, no removal is
  have houtside : ∀ r, c'.read = .insert r → c'.main.removed .connections = false := by
    intro r hr
    by_contra hm
    exact hc'.outside (by simpa using hm) r hr
  refine ⟨step_unread h hi.unread, fun hr => ?_, fun hr => ?_, fun hr hm => ?_, fun hr hm => ?_⟩
  · rcases step_inserting h hr with hr₀ | ⟨hcon, -⟩ | ⟨r', rfl, hr', hnext⟩
    · rw [registered_same h (houtside _ hr), hi.first hr₀]
      intro he
      rw [(effect_insert he).2] at hr₀
      cases hr₀
    · cases hcon
    · cases r' <;> cases hnext
      exact hinserted _ (effect_of_insert hr')
  · have hm := MainPc.removed_runtimeIds (houtside _ hr)
    rcases step_inserting h hr with hr₀ | ⟨hcon, -⟩ | ⟨r', rfl, hr', hnext⟩
    · rw [registered_same h hm, hi.second hr₀]
      intro he
      rw [(effect_insert he).2] at hr₀
      cases hr₀
    · cases hcon
    · cases r' <;> cases hnext
      exact hinserted _ (effect_of_insert hr')
  · have hm' := MainPc.removed_runtimeIds hm
    by_cases he : effect c a = some (.insert .connections)
    · -- the insertion into the first registry leads to the second
      obtain ⟨rfl, hr₀⟩ := effect_insert he
      rcases step_insert_stays h hi.unread hr₀ with ⟨-, hne⟩ | ⟨-, hnext⟩
      · exact absurd rfl hne
      · exact absurd hnext hr
    · rw [registered_same h hm he]
      by_cases he' : effect c a = some (.insert .runtimeIds)
      · rw [hinserted _ he', hi.first (effect_insert he').2]
      · rw [registered_same h hm' he']
        refine hi.outer (fun hr₀ => ?_) (step_not_removed h hm)
        rcases step_insert_stays h hi.unread hr₀ with ⟨hstay, -⟩ | ⟨rfl, -⟩
        · exact hr hstay
        · exact he' (effect_of_insert hr₀)
  · have hm' := MainPc.removed_connectionIds hm
    by_cases he : effect c a = some (.insert .runtimeIds)
    · obtain ⟨rfl, hr₀⟩ := effect_insert he
      rcases step_insert_stays h hi.unread hr₀ with ⟨-, hne⟩ | ⟨-, hnext⟩
      · exact absurd rfl hne
      · exact absurd hnext hr
    · rw [registered_same h hm he]
      by_cases he' : effect c a = some (.insert .connectionIds)
      · rw [hinserted _ he', hi.second (effect_insert he').2]
      · rw [registered_same h hm' he']
        refine hi.inner (fun hr₀ => ?_) (step_not_removed h hm)
        rcases step_insert_stays h hi.unread hr₀ with ⟨hstay, -⟩ | ⟨rfl, -⟩
        · exact hr hstay
        · exact he' (effect_of_insert hr₀)

theorem aligned_of_reachable
    (h : (system cfg).ReachableWhen (fun c a => removalWaits c a = true) c) : Aligned c := by
  refine h.invariant (I := Aligned) ?_ ?_
  · refine ⟨fun _ => rfl, fun hr => ?_, fun hr => ?_, fun _ _ => rfl, fun _ _ => rfl⟩
    · cases hr
    · cases hr
  · intro c a c' hr hg hs hi
    exact aligned_step hs (cleaned_of_reachable (.step hr hg hs)) hi

/-- Between its insertion and its removal a connection is in all registries or in none. -/
theorem registered_agree
    (h : (system cfg).ReachableWhen (fun c a => removalWaits c a = true) c)
    (hidle : c.registrationMoves = false) (r r' : Registry) :
    registered r (registryOps c.log) = registered r' (registryOps c.log) := by
  have ha := aligned_of_reachable h
  have hc := cleaned_of_reachable h
  simp only [registrationMoves, Bool.or_eq_false_iff, decide_eq_false_iff_not] at hidle
  obtain ⟨⟨⟨hr₁, hr₂⟩, hm₁⟩, hm₂⟩ := hidle
  suffices hall : ∀ r, registered r (registryOps c.log) =
      registered .runtimeIds (registryOps c.log) by rw [hall r, hall r']
  by_cases hm : c.main.removed .connections = true
  · -- the removal has gone through all three
    have hrem : ∀ r, c.main.removed r = true := by
      intro r
      revert hm hm₁ hm₂
      cases c.main <;> simp [MainPc.removed, MainPc.cleaning]
      rename_i r'
      cases r' <;> simp
    intro r
    rw [hc.removed r (hrem r), hc.removed .runtimeIds (hrem .runtimeIds)]
  · have hm : c.main.removed .connections = false := by simpa using hm
    intro r
    cases r with
    | connections => exact ha.outer hr₁ hm
    | runtimeIds => rfl
    | connectionIds => exact (ha.inner hr₂ (MainPc.removed_runtimeIds hm)).symm

end Connection

namespace Runtime

variable {cfg : ServerConfig} {s : Runtime}

theorem mem_registry_iff (h : (system cfg).ReachableWhen (fun s a => removalWaits s a = true) s)
    (hidle : ∀ i m, s.conns i = some m → m.conn.registrationMoves = false) (n i : Nat)
    (r : Registry) :
    i ∈ s.registry n r ↔ ∃ m, s.conns i = some m ∧ (m.home = n ∨ r = .runtimeIds) ∧
      Connection.registered .connections (Connection.registryOps m.conn.log) = true := by
  rw [registered_of_reachable h r n i]
  refine exists_congr fun m => and_congr_right fun hm => and_congr_right fun _ => ?_
  have hconn : (Connection.system (cfg.config m.home)).ReachableWhen
      (fun c a => c.removalWaits a = true) m.conn := by
    refine conn_reachable ?_ (fun _ _ _ _ _ _ _ _ => rfl) h hm
    intro s i b m hg hi
    simpa [removalWaits, hi] using hg
  rw [Connection.registered_agree hconn (hidle i m hm) r .connections]

/-- The sizes of disjoint sets whose union is finite add up. -/
theorem card_eq_finsum {ids : Finset Nat} {f : Nat → Finset Nat}
    (hmem : ∀ i, i ∈ ids ↔ ∃ n, i ∈ f n) (hdisj : ∀ n n', n ≠ n' → Disjoint (f n) (f n')) :
    ids.card = finsum fun n => (f n).card := by
  choose! owner howner using fun i (hi : i ∈ ids) => (hmem i).mp hi
  have huniq : ∀ n i, i ∈ f n → owner i = n := by
    intro n i hi
    by_contra hne
    exact Finset.disjoint_left.mp (hdisj _ _ hne) (howner i ((hmem i).mpr ⟨n, hi⟩)) hi
  have hunion : ids = (ids.image owner).biUnion f := by
    ext i
    rw [Finset.mem_biUnion]
    refine ⟨fun hi => ⟨owner i, Finset.mem_image_of_mem _ hi, howner i hi⟩, ?_⟩
    rintro ⟨n, -, hi⟩
    exact (hmem i).mpr ⟨n, hi⟩
  have hsupport : Function.support (fun n => (f n).card) ⊆ ↑(ids.image owner) := by
    intro n hn
    obtain ⟨i, hi⟩ := Finset.card_ne_zero.mp hn
    exact Finset.mem_image.mpr ⟨i, (hmem i).mpr ⟨n, hi⟩, huniq n i hi⟩
  rw [finsum_eq_sum_of_support_subset _ hsupport, ← Finset.card_biUnion, ← hunion]
  intro n _ n' _ hne
  exact hdisj n n' hne

/-- **The registries agree.** In every run of the server in which no removal of a
connection begins before its insertion has finished: while no `insert_connection` or
`remove_connection` is under way, in every namespace `connections` and `connection_ids`
hold the same ids, and the runtime's `connection_ids` is the disjoint union of these over
all namespaces, so that its count is the sum of the namespaces' counts. -/
theorem registries_agree {cfg : ServerConfig} {s : Runtime}
    (h : (system cfg).ReachableWhen (fun s a => removalWaits s a = true) s)
    (hidle : ∀ i m, s.conns i = some m → m.conn.registrationMoves = false) :
    (∀ n, (s.namespaces n).connections = (s.namespaces n).connectionIds) ∧
      (∀ i, i ∈ s.connectionIds ↔ ∃ n, i ∈ (s.namespaces n).connectionIds) ∧
      (∀ n n', n ≠ n' →
        Disjoint (s.namespaces n).connectionIds (s.namespaces n').connectionIds) ∧
      s.connectionCount = finsum fun n => (s.namespaces n).connectionCount := by
  have hmem := mem_registry_iff h hidle
  have heq : ∀ n, (s.namespaces n).connections = (s.namespaces n).connectionIds := by
    intro n
    ext i
    exact (hmem n i .connections).trans ((hmem n i .connectionIds).trans (by simp)).symm
  have hunion : ∀ i, i ∈ s.connectionIds ↔ ∃ n, i ∈ (s.namespaces n).connectionIds := by
    intro i
    refine (hmem 0 i .runtimeIds).trans ⟨?_, ?_⟩
    · rintro ⟨m, hm, -, hreg⟩
      exact ⟨m.home, (hmem m.home i .connectionIds).mpr ⟨m, hm, .inl rfl, hreg⟩⟩
    · rintro ⟨n, hn⟩
      obtain ⟨m, hm, -, hreg⟩ := (hmem n i .connectionIds).mp hn
      exact ⟨m, hm, .inr rfl, hreg⟩
  have hdisj : ∀ n n', n ≠ n' →
      Disjoint (s.namespaces n).connectionIds (s.namespaces n').connectionIds := by
    intro n n' hne
    refine Finset.disjoint_left.mpr fun i hi hi' => hne ?_
    obtain ⟨m, hm, hhome, -⟩ := (hmem n i .connectionIds).mp hi
    obtain ⟨m', hm', hhome', -⟩ := (hmem n' i .connectionIds).mp hi'
    rw [hm] at hm'
    cases hm'
    rw [← hhome.resolve_right (by simp), ← hhome'.resolve_right (by simp)]
  refine ⟨heq, hunion, hdisj, ?_⟩
  unfold connectionCount Namespace.connectionCount
  simp only [heq]
  exact card_eq_finsum hunion hdisj

/-- Requests below `n` only are upgraded. -/
def requestsBelow (n : Nat) : ServerAction → Bool
  | .resolve i _ => i < n
  | _ => true

theorem conns_none {n : Nat}
    (h : (system cfg).ReachableWhen (fun _ a => requestsBelow n a = true) s) {i : Nat} (hi : n ≤ i) :
    s.conns i = none := by
  refine h.invariant (I := fun s => s.conns i = none) rfl ?_
  intro s a s' _ ha hs hnone
  by_contra hne
  obtain ⟨m, hm⟩ := Option.ne_none_iff_exists'.mp hne
  rcases step_conn hs hm with ⟨⟨path, rfl⟩, -, -⟩ | ⟨m₀, hm₀, -⟩
  · simp [requestsBelow] at ha
    omega
  · rw [hnone] at hm₀
    cases hm₀

theorem registries_agree_run :
    ∃ s, (system (.postcard false)).Reachable s ∧ s.connectionCount = 1 ∧
      s.connectionCount = finsum fun n => (s.namespaces n).connectionCount := by
  obtain ⟨s, hr, hs⟩ := System.exists_reachableWhen_of_execWhen
    (S := system (.postcard false)) (g := fun s a => removalWaits s a && requestsBelow 1 a)
    (l := List.flatten [readyRun, List.replicate 3 (.conn 0 (.read .go))])
    (p := fun s => s.connectionCount = 1 &&
      (s.conns 0).all fun m : Member => !m.conn.registrationMoves) (by decide +kernel)
  simp only [Bool.and_eq_true, decide_eq_true_eq] at hs
  have hone : ∀ i, 1 ≤ i → s.conns i = none := fun i =>
    conns_none (hr.mono fun _ _ hg => (Bool.and_eq_true _ _ ▸ hg).2)
  refine ⟨s, hr.reachable, hs.1, (registries_agree (hr.mono fun _ _ hg =>
    (Bool.and_eq_true _ _ ▸ hg).1) fun i m hm => ?_).2.2.2⟩
  rcases Nat.eq_zero_or_pos i with rfl | hi
  · simpa [hm] using hs.2
  · rw [hone i hi] at hm
    cases hm

end Runtime

end WsIo.Server
