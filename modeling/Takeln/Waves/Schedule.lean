import Mathlib.Algebra.Order.BigOperators.Group.List
import Mathlib.Order.FixedPoints
import Mathlib.Order.CompletePartialOrder
import Takeln.Waves.Advance

/-!
# Schedules

Waves of nodes that all succeed, as a walk on the statuses of a DAG (`DAG.Waved`), and what such a walk comes to: it
launches pending nodes, each of them once and after its dependencies, and from a DAG whose nodes are all `Pending` it
gets stuck with exactly the least set of nodes launched that holds each node whose dependencies it holds.
-/

namespace Takeln

namespace DAG

variable {dag dag' dag'' : DAG} {ws ws' : List (List Nat)} {k : Nat}

/-! ### Dependencies -/

/-- The nodes whose dependencies are all ids of nodes of a set. -/
def enabled (dag : DAG) : Set Nat →o Set Nat where
  toFun s := {k | ∃ n, dag.nodes[k]? = some n ∧ ∀ dep ∈ n.dependsOn, ∃ j ∈ s, dag.idAt j = some dep}
  monotone' := by
    intro s s' hs k hk
    obtain ⟨n, hn, hdeps⟩ := hk
    refine ⟨n, hn, fun dep hdep => ?_⟩
    obtain ⟨j, hj, hid⟩ := hdeps dep hdep
    exact ⟨j, hs hj, hid⟩

/-- The least set of nodes that holds each node whose dependencies it holds. -/
def executable (dag : DAG) : Set Nat := dag.enabled.lfp

/-- The nodes that are `Done`. -/
def done (dag : DAG) : Set Nat := {k | dag.statusAt k = some .done}

theorem enabled_eq_of_shape (h : dag.shape = dag'.shape) : dag.enabled = dag'.enabled := by
  have hdeps (k : Nat) : dag.nodes[k]?.map DAGNode.dependsOn = dag'.nodes[k]?.map DAGNode.dependsOn := by
    have hk := congrArg (fun l => l[k]?.map fun x => x.2.2) h
    simpa [shape, Option.map_map, Function.comp_def] using hk
  ext s k
  change (∃ n, _ ∧ _) ↔ ∃ n, _ ∧ _
  simp only [idAt_eq_of_shape h]
  have hk := hdeps k
  cases hn : dag.nodes[k]? with
  | none =>
    rw [hn, Option.map_none] at hk
    simp [Option.map_eq_none_iff.1 hk.symm]
  | some n =>
    rw [hn, Option.map_some] at hk
    obtain ⟨n', hn', hdep⟩ := Option.map_eq_some_iff.1 hk.symm
    simp [hn', hdep]

theorem executable_eq_of_shape (h : dag.shape = dag'.shape) : dag.executable = dag'.executable := by
  unfold executable
  rw [enabled_eq_of_shape h]

/-- A wave launches the pending nodes whose dependencies are `Done`. -/
theorem mem_wave : k ∈ dag.wave ↔ dag.statusAt k = some .pending ∧ k ∈ dag.enabled dag.done := by
  unfold wave
  rw [mem_ready]
  constructor
  · rintro ⟨n, hn, hstatus, hdeps⟩
    refine ⟨by rw [statusAt, hn, Option.map_some, hstatus], n, hn, fun dep hdep => ?_⟩
    exact mem_doneIds.1 (hdeps dep hdep)
  · rintro ⟨hstatus, n, hn, hdeps⟩
    rw [statusAt, hn, Option.map_some] at hstatus
    refine ⟨n, hn, Option.some.inj hstatus, fun dep hdep => ?_⟩
    exact mem_doneIds.2 (hdeps dep hdep)

theorem nodup_wave (dag : DAG) : dag.wave.Nodup := nodup_ready _

theorem statusAt_eq_none_iff : dag.statusAt k = none ↔ dag.nodes.length ≤ k := by
  unfold statusAt
  rw [Option.map_eq_none_iff, List.getElem?_eq_none_iff]

theorem lt_length_of_statusAt {status : NodeStatus} (h : dag.statusAt k = some status) : k < dag.nodes.length := by
  by_contra hk
  rw [statusAt_eq_none_iff.2 (not_lt.1 hk)] at h
  cases h

theorem length_eq_of_shape (h : dag.shape = dag'.shape) : dag.nodes.length = dag'.nodes.length := by
  simpa [shape] using congrArg List.length h

/-! ### Waves -/

/-- From `dag`, waves of the nodes `ws` that all succeed lead to `dag'`. -/
inductive Waved : DAG → List (List Nat) → DAG → Prop
  | refl (dag : DAG) : Waved dag [] dag
  | step {dag dag' : DAG} {ws : List (List Nat)} (hwave : dag.wave ≠ []) (hrest : Waved dag.advance ws dag') :
      Waved dag (dag.wave :: ws) dag'

namespace Waved

theorem trans (h : Waved dag ws dag') (h' : Waved dag' ws' dag'') : Waved dag (ws ++ ws') dag'' := by
  induction h with
  | refl _ => exact h'
  | step hwave _ ih => exact .step hwave (ih h')

theorem shape_eq (h : Waved dag ws dag') : dag'.shape = dag.shape := by
  induction h with
  | refl _ => rfl
  | step _ _ ih => rw [ih, shape_advance]

/-- Only pending nodes are launched. -/
theorem pending_of_mem (h : Waved dag ws dag') (hk : k ∈ ws.flatten) : dag.statusAt k = some .pending := by
  induction h with
  | refl _ => cases hk
  | @step dag _ _ _ _ ih =>
    rw [List.flatten_cons, List.mem_append] at hk
    by_cases hmem : k ∈ dag.wave
    · exact statusAt_of_mem_wave hmem
    · have hadvance := ih (hk.resolve_left hmem)
      rwa [statusAt_advance, if_neg hmem] at hadvance

/-- What was launched is `Done`, and nothing else has changed. -/
theorem statusAt_eq (h : Waved dag ws dag') (k : Nat) :
    dag'.statusAt k = if k ∈ ws.flatten then some .done else dag.statusAt k := by
  induction h with
  | refl _ => simp
  | @step dag _ ws _ hrest ih =>
    rw [ih, statusAt_advance, List.flatten_cons]
    by_cases hk : k ∈ dag.wave <;> by_cases hks : k ∈ ws.flatten <;> simp [hk, hks]

/-- Each node is launched once. -/
theorem nodup (h : Waved dag ws dag') : ws.flatten.Nodup := by
  induction h with
  | refl _ => exact List.nodup_nil
  | @step dag _ ws _ hrest ih =>
    rw [List.flatten_cons]
    refine List.Nodup.append (nodup_wave dag) ih fun k hk hks => ?_
    have hpending := hrest.pending_of_mem hks
    rw [statusAt_advance, if_pos hk] at hpending
    cases hpending

theorem ne_nil (h : Waved dag ws dag') {wave : List Nat} (hwave : wave ∈ ws) : wave ≠ [] := by
  induction h with
  | refl _ => cases hwave
  | step hne _ ih =>
    rcases List.mem_cons.1 hwave with rfl | hmem
    · exact hne
    · exact ih hmem

/-- There is at most one wave for each node. -/
theorem length_le (h : Waved dag ws dag') : ws.length ≤ dag.nodes.length := by
  have hnodes : ws.flatten.length ≤ dag.nodes.length := by
    have hsub : ws.flatten ⊆ List.range dag.nodes.length := fun k hk =>
      List.mem_range.2 (lt_length_of_statusAt (h.pending_of_mem hk))
    have hle := (List.subperm_of_subset h.nodup hsub).length_le
    rwa [List.length_range] at hle
  have hwaves : ws.length ≤ ws.flatten.length := by
    rw [List.length_flatten, ← List.length_map List.length]
    refine List.length_le_sum_of_one_le _ fun n hn => ?_
    obtain ⟨wave, hwave, rfl⟩ := List.mem_map.1 hn
    exact List.length_pos_of_ne_nil (h.ne_nil hwave)
  omega

/-- A node is launched after its dependencies. -/
theorem enabled_of_mem (h : Waved dag ws dag') {pre post : List (List Nat)} {wave : List Nat}
    (hsplit : ws = pre ++ wave :: post) (hk : k ∈ wave) : k ∈ dag.enabled (dag.done ∪ {j | j ∈ pre.flatten}) := by
  induction h generalizing pre with
  | refl _ => simp at hsplit
  | @step dag _ ws _ hrest ih =>
    cases pre with
    | nil =>
      obtain ⟨rfl, _⟩ := List.cons.inj hsplit
      exact dag.enabled.monotone Set.subset_union_left (mem_wave.1 hk).2
    | cons first pre =>
      obtain ⟨rfl, hsplit'⟩ := List.cons.inj hsplit
      have hmem := ih hsplit'
      rw [enabled_eq_of_shape (shape_advance dag)] at hmem
      refine dag.enabled.monotone ?_ hmem
      rintro j (hj | hj)
      · by_cases hjw : j ∈ dag.wave
        · exact Or.inr (List.mem_flatten.2 ⟨_, List.mem_cons_self, hjw⟩)
        · have hdone : dag.advance.statusAt j = some .done := hj
          rw [statusAt_advance, if_neg hjw] at hdone
          exact Or.inl hdone
      · exact Or.inr (List.mem_flatten.2 (by
          obtain ⟨l, hl, hjl⟩ := List.mem_flatten.1 hj
          exact ⟨l, List.mem_cons_of_mem _ hl, hjl⟩))

/-! ### The least set -/

/-- Nothing outside the least set is launched. -/
theorem subset_executable (h : Waved dag ws dag') (hdone : dag.done ⊆ dag.executable) :
    dag'.done ⊆ dag.executable := by
  induction h with
  | refl _ => exact hdone
  | @step dag _ _ _ hrest ih =>
    rw [executable_eq_of_shape (shape_advance dag)] at ih
    refine ih fun k hk => ?_
    have hstatus : dag.advance.statusAt k = some .done := hk
    rw [statusAt_advance] at hstatus
    by_cases hmem : k ∈ dag.wave
    · have henabled : k ∈ dag.enabled dag.enabled.lfp := dag.enabled.monotone hdone (mem_wave.1 hmem).2
      rwa [OrderHom.map_lfp] at henabled
    · rw [if_neg hmem] at hstatus
      exact hdone hstatus

end Waved

/-- Every node is `Pending`. -/
def AllPending (dag : DAG) : Prop := ∀ n ∈ dag.nodes, n.status = .pending

instance (dag : DAG) : Decidable dag.AllPending := inferInstanceAs (Decidable (∀ n ∈ dag.nodes, n.status = .pending))

theorem AllPending.statusAt (h : dag.AllPending) (k : Nat) :
    dag.statusAt k = if k < dag.nodes.length then some .pending else none := by
  by_cases hk : k < dag.nodes.length
  · rw [if_pos hk, DAG.statusAt, List.getElem?_eq_getElem hk, Option.map_some, h _ (List.getElem_mem hk)]
  · rw [if_neg hk, statusAt_eq_none_iff]
    omega

/-- Waves from a DAG whose nodes are all `Pending`, until none is ready, launch exactly the least set. -/
theorem Waved.mem_flatten_iff (h : Waved dag ws dag') (hpending : dag.AllPending) (hstuck : dag'.wave = []) (k : Nat) :
    k ∈ ws.flatten ↔ k ∈ dag.executable := by
  have hnone : ∀ j, dag.statusAt j ≠ some .done := by
    intro j hj
    rw [hpending.statusAt] at hj
    split at hj <;> cases hj
  have hdone : k ∈ ws.flatten ↔ k ∈ dag'.done := by
    change _ ↔ dag'.statusAt k = some .done
    rw [h.statusAt_eq k]
    by_cases hk : k ∈ ws.flatten <;> simp [hk, hnone k]
  rw [hdone]
  refine ⟨fun hk => h.subset_executable (fun j hj => absurd hj (hnone j)) hk, fun hk => ?_⟩
  -- the nodes launched are closed: whatever they enable is no longer pending
  rw [← executable_eq_of_shape h.shape_eq] at hk
  refine OrderHom.lfp_le dag'.enabled (fun j hj => ?_) hk
  obtain ⟨n, hn, hdeps⟩ := hj
  change dag'.statusAt j = some .done
  by_contra hstatus
  have hkeep : dag'.statusAt j = dag.statusAt j := by
    rw [h.statusAt_eq j] at hstatus ⊢
    by_cases hjs : j ∈ ws.flatten
    · exact absurd (if_pos hjs) hstatus
    · exact if_neg hjs
  have hlt : j < dag.nodes.length := by
    rw [← length_eq_of_shape h.shape_eq]
    have hstatus : dag'.statusAt j = some n.status := by rw [statusAt, hn, Option.map_some]
    exact lt_length_of_statusAt hstatus
  have hwave : j ∈ dag'.wave := by
    rw [mem_wave, hkeep, hpending.statusAt, if_pos hlt]
    exact ⟨rfl, n, hn, hdeps⟩
  rw [hstuck] at hwave
  cases hwave

/-! ### What remains -/

/-- The names with one of some statuses are those of the nodes with one, in the order of their indices. -/
theorem namesOf_eq (dag : DAG) (statuses : List NodeStatus) :
    ∃ idxs : List Nat, idxs.Pairwise (· < ·) ∧ dag.namesOf statuses = idxs.map dag.stepType ∧
      ∀ k, k ∈ idxs ↔ ∃ status ∈ statuses, dag.statusAt k = some status := by
  refine ⟨(dag.nodes.zipIdx.filter fun x => decide (x.1.status ∈ statuses)).map Prod.snd, ?_, ?_, fun k => ?_⟩
  · have hsub : ((dag.nodes.zipIdx.filter fun x => decide (x.1.status ∈ statuses)).map Prod.snd).Sublist
        (dag.nodes.zipIdx.map Prod.snd) := List.filter_sublist.map Prod.snd
    refine List.Pairwise.sublist hsub ?_
    rw [List.zipIdx_map_snd]
    exact List.pairwise_lt_range'
  · unfold namesOf
    conv_lhs => rw [← List.zipIdx_map_fst 0 dag.nodes, List.filter_map, List.map_map]
    rw [List.map_map]
    refine List.map_congr_left fun x hx => ?_
    obtain ⟨n, i⟩ := x
    have hn := (List.mem_zipIdx_iff_getElem?.1 (List.mem_filter.1 hx).1)
    change n.stepType = dag.stepType i
    rw [stepType, hn]
    rfl
  · rw [List.mem_map]
    constructor
    · rintro ⟨⟨n, i⟩, hmem, rfl⟩
      rw [List.mem_filter, List.mem_zipIdx_iff_getElem?, decide_eq_true_iff] at hmem
      exact ⟨n.status, hmem.2, by rw [statusAt, hmem.1, Option.map_some]⟩
    · rintro ⟨status, hmem, hstatus⟩
      obtain ⟨n, hn, rfl⟩ := Option.map_eq_some_iff.1 hstatus
      refine ⟨(n, k), ?_, rfl⟩
      rw [List.mem_filter, List.mem_zipIdx_iff_getElem?, decide_eq_true_iff]
      exact ⟨hn, hmem⟩

end DAG

end Takeln
