import Takeln.Builder.Acceptance

/-!
# Repeated step types

Nothing checks that the step types of the entries are distinct, though the map of names has one id for all entries of a
step type.  A node that depends on a repeated step type is decremented once for each of them; its counter underflows if
they are more than its list is long (`underflows_iff`).  No node enters the queue twice even then, but the nodes of a
repeated step type share their id (`builds_soundly_iff`).
-/

namespace Takeln.DAGBuilder

variable {b : DAGBuilder} {newId : Nat → Uuid} {overflowChecks : Bool} {nodes : List DAGNode}

/-- No counter is decremented at 0, no node enters the queue twice, and the ids of the nodes are distinct. -/
structure BuildsSoundly (b : DAGBuilder) (newId : Nat → Uuid) (overflowChecks : Bool) : Prop where
  counters : ¬ Underflows (b.touches newId overflowChecks)
  queue : (enqueued (b.touches newId overflowChecks)).Nodup
  ids (dag : DAG) : b.build newId overflowChecks = .ok dag → (dag.nodes.map DAGNode.id).Nodup

/-- No legal order of entries has more entries that an entry lists than its list is long. -/
def NeverExceeds (b : DAGBuilder) : Prop :=
  ∀ l, Legal b.lists b.need l → ∀ i, l.countP (b.lists i) ≤ b.need i

theorem touches_of_resolve (h : b.resolve newId = .ok nodes) :
    b.touches newId overflowChecks = touched (topologicalSort overflowChecks nodes) := by
  unfold touches
  rw [h]

theorem touches_of_not_resolvable (h : ¬ b.Resolvable) : b.touches newId overflowChecks = [] := by
  unfold touches
  cases hr : b.resolve newId with
  | error e => rfl
  | ok nodes => exact absurd (resolve_ok_iff.1 ⟨nodes, hr⟩) h

/-- A counter underflows if the worklist runs and some entry lists too many entries that can be placed. -/
theorem underflows_iff (hfresh : Function.Injective newId) :
    Underflows (b.touches newId overflowChecks) ↔ b.Resolvable ∧ ¬ b.NeverExceeds := by
  by_cases hb : b.Resolvable
  · obtain ⟨nodes, hnodes⟩ : ∃ nodes, b.resolve newId = .ok nodes := resolve_ok_iff.2 hb
    obtain ⟨hdesc, -⟩ := resolve_spec hfresh hnodes
    rw [touches_of_resolve hnodes]
    rcases topologicalSort_spec overflowChecks hdesc b.fits need_lt with ⟨s, hs, hpanic⟩ | ⟨s, placed, hs, hplacing⟩
    · rw [hs]
      obtain ⟨l, i, hlegal, hi⟩ := hpanic.exceeds
      exact iff_of_true hpanic.underflows ⟨hb, fun h => absurd (h l hlegal i) (Nat.not_le.2 hi)⟩
    · rw [hs]
      refine hplacing.underflows_iff.trans ⟨fun ⟨i, hi⟩ => ⟨hb, fun h => ?_⟩, fun ⟨_, h⟩ => ?_⟩
      · have hlegal : Legal b.lists b.need placed := by simpa using hplacing.legal
        exact absurd (h placed hlegal i) (Nat.not_le.2 hi)
      · by_contra hnot
        refine h fun l hlegal i => ?_
        exact (hplacing.countP_le hlegal i).trans (Nat.not_lt.1 fun hi => hnot ⟨i, hi⟩)
  · rw [touches_of_not_resolvable hb]
    refine iff_of_false ?_ fun h => hb h.1
    rintro ⟨i, hi⟩
    cases hi

/-- No node enters the queue twice. -/
theorem enqueued_nodup (hfresh : Function.Injective newId) : (enqueued (b.touches newId overflowChecks)).Nodup := by
  by_cases hb : b.Resolvable
  · obtain ⟨nodes, hnodes⟩ : ∃ nodes, b.resolve newId = .ok nodes := resolve_ok_iff.2 hb
    obtain ⟨hdesc, -⟩ := resolve_spec hfresh hnodes
    rw [touches_of_resolve hnodes]
    rcases topologicalSort_spec overflowChecks hdesc b.fits need_lt with ⟨s, hs, hpanic⟩ | ⟨s, placed, hs, hplacing⟩
    · rw [hs]
      exact hpanic.nodup
    · rw [hs]
      show (enqueued s.log).Nodup
      rw [hplacing.entered]
      exact hplacing.legal.nodup.map Fin.val_injective
  · rw [touches_of_not_resolvable hb]
    exact List.nodup_nil

theorem resolve_of_build {dag : DAG} (h : b.build newId overflowChecks = .ok dag) :
    b.resolve newId = .ok dag.nodes := by
  unfold build at h
  cases hnodes : b.resolve newId with
  | error e => simp [hnodes, bind, Except.bind] at h
  | ok nodes =>
    rw [hnodes] at h
    simp only [bind, Except.bind, verdict] at h
    split at h
    · cases h
    · split at h
      · rw [← Except.ok.inj h]
      · cases h

/-- The nodes of a DAG have distinct ids if the entries have distinct step types. -/
theorem ids_nodup_iff (hfresh : Function.Injective newId) {dag : DAG} (h : b.build newId overflowChecks = .ok dag) :
    (dag.nodes.map DAGNode.id).Nodup ↔ (b.entries.map Prod.fst).Nodup := by
  obtain ⟨hdesc, hids⟩ := resolve_spec hfresh (resolve_of_build h)
  unfold List.Nodup
  rw [List.pairwise_map, List.pairwise_map, List.pairwise_iff_getElem, List.pairwise_iff_getElem]
  have hpair (i j : Nat) (hi : i < dag.nodes.length) (hj : j < dag.nodes.length) (hi' : i < b.entries.length)
      (hj' : j < b.entries.length) : dag.nodes[i].id = dag.nodes[j].id ↔ b.entries[i].1 = b.entries[j].1 :=
    hids ⟨i, hi'⟩ ⟨j, hj'⟩ (List.getElem?_eq_getElem hi) (List.getElem?_eq_getElem hj)
  constructor
  · intro h i j hi hj hij heq
    have hi' : i < dag.nodes.length := hdesc.length ▸ hi
    have hj' : j < dag.nodes.length := hdesc.length ▸ hj
    exact h i j hi' hj' hij ((hpair i j hi' hj' hi hj).2 heq)
  · intro h i j hi hj hij heq
    have hi' : i < b.entries.length := hdesc.length ▸ hi
    have hj' : j < b.entries.length := hdesc.length ▸ hj
    exact h i j hi' hj' hij ((hpair i j hi hj hi' hj').1 heq)

/-- An entry lists as many entries as its list is long, at most, if the step types are distinct. -/
theorem neverExceeds_of_nodup (h : (b.entries.map Prod.fst).Nodup) : b.NeverExceeds := by
  intro l hlegal i
  refine (hlegal.countP_le i).trans ?_
  have hnamed : b.named (b.entries.get i).2 =
      ((b.entries.map Prod.fst).filter fun stepType => stepType ∈ (b.entries.get i).2).length := by
    rw [← List.countP_eq_length_filter, List.countP_map]
    rfl
  rw [listed_eq, hnamed]
  exact (List.subperm_of_subset (h.filter _) fun x hx => by simpa using (List.mem_filter.1 hx).2).length_le

/-- A build is sound if its step types are distinct, or it does not get to its worklist, or not all of its entries can
be placed and no entry lists too many of those that can. -/
theorem builds_soundly_iff (hfresh : Function.Injective newId) :
    b.BuildsSoundly newId overflowChecks ↔
      (b.entries.map Prod.fst).Nodup ∨ ¬ b.Resolvable ∨ (∃ i, ¬ Placeable b.lists b.need i) ∧ b.NeverExceeds := by
  have hids (hnodup : (b.entries.map Prod.fst).Nodup) (dag : DAG) (hdag : b.build newId overflowChecks = .ok dag) :
      (dag.nodes.map DAGNode.id).Nodup := (ids_nodup_iff hfresh hdag).2 hnodup
  constructor
  · intro h
    by_cases hb : b.Resolvable
    · have hnever : b.NeverExceeds := by
        by_contra hexceeds
        exact h.counters ((underflows_iff hfresh).2 ⟨hb, hexceeds⟩)
      by_cases hplaceable : ∀ i, Placeable b.lists b.need i
      · -- such a build returns a DAG
        obtain ⟨l, hlegal, hclosed⟩ := (Legal.nil : Legal b.lists b.need []).exists_closed
        have hlisted (i : Fin b.entries.length) : listed b.lists i ≤ b.need i := by
          rw [← countP_eq_listed hlegal.nodup fun j => hclosed.mem_of_placeable (hplaceable j)]
          exact hnever l hlegal i
        obtain ⟨dag, hdag⟩ : ∃ dag, b.build newId overflowChecks = .ok dag :=
          (build_ok_iff hfresh hb).2 ⟨hplaceable, fun _ => hlisted⟩
        exact Or.inl ((ids_nodup_iff hfresh hdag).1 (h.ids dag hdag))
      · exact Or.inr (Or.inr ⟨not_forall.1 hplaceable, hnever⟩)
    · exact Or.inr (Or.inl hb)
  · rintro (hnodup | hb | ⟨hplaceable, hnever⟩)
    · exact ⟨fun h => ((underflows_iff hfresh).1 h).2 (neverExceeds_of_nodup hnodup), enqueued_nodup hfresh,
        hids hnodup⟩
    · refine ⟨fun h => hb ((underflows_iff hfresh).1 h).1, enqueued_nodup hfresh, fun dag hdag => ?_⟩
      exact absurd (resolve_ok_iff.1 ⟨dag.nodes, resolve_of_build hdag⟩) hb
    · refine ⟨fun h => ((underflows_iff hfresh).1 h).2 hnever, enqueued_nodup hfresh, fun dag hdag => ?_⟩
      have hb : b.Resolvable := resolve_ok_iff.1 ⟨dag.nodes, resolve_of_build hdag⟩
      have hall := ((build_ok_iff hfresh hb).1 ⟨dag, hdag⟩).1
      exact absurd hall (not_forall.2 hplaceable)

theorem builds_soundly_straight : straight.BuildsSoundly id true :=
  (builds_soundly_iff Function.injective_id).2 (Or.inl (by decide))

/-- Two entries of the step type `A`, and one that depends on it. -/
def twice : DAGBuilder := ⟨[("A", []), ("A", []), ("B", ["A"])], none, by decide, by decide⟩

theorem builds_soundly_false : ¬ twice.BuildsSoundly id true ∧ ¬ twice.BuildsSoundly id false ∧
    ∃ dag, twice.build id false = .ok dag ∧ ¬ (dag.nodes.map DAGNode.id).Nodup := by
  have hunderflow : Touch.decremented 2 0 ∈ twice.touches id true ∧ Touch.decremented 2 0 ∈ twice.touches id false := by
    decide +kernel
  refine ⟨fun h => h.counters ⟨2, hunderflow.1⟩, fun h => h.counters ⟨2, hunderflow.2⟩, ?_⟩
  exact ⟨⟨[⟨1, "A", [], .pending⟩, ⟨1, "A", [], .pending⟩, ⟨2, "B", [1], .pending⟩]⟩, by decide +kernel, by decide⟩

end Takeln.DAGBuilder
