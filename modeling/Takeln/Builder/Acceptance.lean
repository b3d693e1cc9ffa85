import Takeln.Builder.Resolve
import Mathlib.Data.Fintype.EquivFin
import Mathlib.Order.WellFounded

/-!
# What a builder accepts

The worklist counts positions of the lists on the one side and visited entries on the other.  A build succeeds if every
entry can be placed after as many entries it lists as its list is long, and, with checks for overflow, if no entry lists
more (`build_ok_iff`).  So acyclic entries are accepted if the two numbers agree (`accepts_iff`): a name that is
repeated in a list makes the first one too large, and a listed step type that is repeated the second one.
-/

namespace Takeln.DAGBuilder

variable {b : DAGBuilder} {newId : Nat → Uuid} {overflowChecks : Bool} {nodes : List DAGNode}

/-- No step type depends on itself, over any number of steps. -/
def Acyclic (b : DAGBuilder) : Prop :=
  ∀ x, ¬ Relation.TransGen b.DependsOn x x

/-- How many entries the names in a list stand for. -/
def named (b : DAGBuilder) (deps : List String) : Nat :=
  b.entries.countP fun e => e.1 ∈ deps

theorem listed_eq (i : Fin b.entries.length) : listed b.lists i = b.named (b.entries.get i).2 := by
  rw [← countP_eq_listed (List.nodup_finRange _) List.mem_finRange]
  have hmap := congrArg (List.countP fun e => e.1 ∈ (b.entries.get i).2) (List.map_get_finRange b.entries)
  rw [List.countP_map] at hmap
  exact hmap

theorem need_lt (i : Fin b.entries.length) : b.need i < 2 ^ 64 :=
  b.fits_dependsOn _ (List.get_mem _ _)

/-! ### Cycles of entries -/

private theorem transGen_lists {x y : String} (h : Relation.TransGen b.DependsOn x y) :
    ∃ i : Fin b.entries.length, (b.entries.get i).1 = x ∧
      ∀ j : Fin b.entries.length, (b.entries.get j).1 = y → Relation.TransGen (fun j i => b.lists i j) j i := by
  induction h with
  | single hxy =>
    obtain ⟨e, he, rfl, hy⟩ := hxy
    obtain ⟨i, rfl⟩ := List.get_of_mem he
    refine ⟨i, rfl, fun j hj => .single ?_⟩
    rw [← hj] at hy
    exact hy
  | tail _ hyz ih =>
    obtain ⟨i, hi, hall⟩ := ih
    obtain ⟨e, he, hey, hz⟩ := hyz
    obtain ⟨k, rfl⟩ := List.get_of_mem he
    refine ⟨i, hi, fun j hj => .trans (.single ?_) (hall k hey)⟩
    rw [← hj] at hz
    exact hz

/-- The listing of the entries is well-founded if that of the step types has no cycle. -/
theorem acyclic_iff : b.Acyclic ↔ WellFounded fun j i => b.lists i j := by
  constructor
  · intro h
    have htypes {j i : Fin b.entries.length} (hji : Relation.TransGen (fun j i => b.lists i j) j i) :
        Relation.TransGen b.DependsOn (b.entries.get i).1 (b.entries.get j).1 := by
      induction hji with
      | single hlists => exact .single ⟨_, List.get_mem _ _, rfl, hlists⟩
      | tail _ hlists ih => exact .head ⟨_, List.get_mem _ _, rfl, hlists⟩ ih
    have htrans : IsTrans (Fin b.entries.length) (Relation.TransGen fun j i => b.lists i j) := ⟨fun _ _ _ => .trans⟩
    have hirrefl : Std.Irrefl (Relation.TransGen fun j i => b.lists i j) := ⟨fun i hi => h _ (htypes hi)⟩
    have hwf := Finite.wellFounded_of_trans_of_irrefl (Relation.TransGen fun j i => b.lists i j)
    exact Subrelation.wf (fun hlists => .single hlists) hwf
  · intro h x hx
    obtain ⟨i, hi, hall⟩ := transGen_lists hx
    exact h.transGen.irrefl.irrefl i (hall i hi)

/-! ### The verdict -/

theorem build_of_resolve (h : b.resolve newId = .ok nodes) :
    b.build newId overflowChecks = verdict nodes (topologicalSort overflowChecks nodes) := by
  unfold build
  rw [h]
  rfl

/-- A build that knows its names succeeds if all entries can be placed and, with checks for overflow, no entry lists
more than its list is long. -/
theorem build_ok_iff (hfresh : Function.Injective newId) (hb : b.Resolvable) :
    (∃ dag, b.build newId overflowChecks = .ok dag) ↔ (∀ i, Placeable b.lists b.need i) ∧
      (overflowChecks = true → ∀ i, listed b.lists i ≤ b.need i) := by
  obtain ⟨nodes, hnodes⟩ : ∃ nodes, b.resolve newId = .ok nodes := resolve_ok_iff.2 hb
  obtain ⟨hdesc, -⟩ := resolve_spec hfresh hnodes
  rw [build_of_resolve hnodes]
  rcases topologicalSort_spec overflowChecks hdesc b.fits need_lt with ⟨s, hs, hpanic⟩ | ⟨s, placed, hs, hplacing⟩
  · obtain ⟨placed, i, hlegal, hi⟩ := hpanic.exceeds
    rw [hs]
    refine iff_of_false (by simp [verdict]) fun h => ?_
    exact absurd (hlegal.countP_le i) (Nat.not_le.2 (hi.trans_le' (h.2 hpanic.checks i)))
  · have hvisited := hplacing.visited_eq_length_iff hdesc
    have hlegal : Legal b.lists b.need placed := by simpa using hplacing.legal
    rw [hs]
    constructor
    · intro h
      have hplaceable : ∀ i, Placeable b.lists b.need i := by
        rw [← hvisited]
        by_contra hne
        simp [verdict, hne] at h
      refine ⟨hplaceable, fun hchecks i => ?_⟩
      have hall (j) : j ∈ placed := hplacing.closed.mem_of_placeable (hplaceable j)
      rw [← countP_eq_listed hlegal.nodup hall]
      exact hplacing.checked hchecks i
    · rintro ⟨hplaceable, -⟩
      exact ⟨⟨nodes⟩, by simp [verdict, hvisited.2 hplaceable]⟩

/-- A build accepts exactly the acyclic entries, if acyclic entries have lists as long as the number of entries their
names stand for (without checks for overflow, no longer), and if, without these checks, entries with a cycle cannot all
be placed. -/
theorem accepts_iff (hfresh : Function.Injective newId) (hb : b.Resolvable) :
    ((∃ dag, b.build newId overflowChecks = .ok dag) ↔ b.Acyclic) ↔
      (b.Acyclic → ∀ e ∈ b.entries, e.2.length ≤ b.named e.2 ∧ (overflowChecks = true → b.named e.2 ≤ e.2.length)) ∧
        (¬ b.Acyclic → overflowChecks = false → ∃ i, ¬ Placeable b.lists b.need i) := by
  have hentries (p : String × List String → Prop) : (∀ e ∈ b.entries, p e) ↔ ∀ i, p (b.entries.get i) :=
    List.forall_mem_iff_get
  rw [hentries, build_ok_iff hfresh hb]
  by_cases hacyclic : b.Acyclic
  · have hwf := acyclic_iff.1 hacyclic
    simp only [hacyclic, iff_true, not_true_eq_false, forall_true_left, false_implies, and_true]
    constructor
    · rintro ⟨hplaceable, hchecks⟩ i
      rw [← listed_eq]
      exact ⟨(hplaceable i).need_le, fun h => hchecks h i⟩
    · intro h
      refine ⟨placeable_of_wellFounded (fun i => ?_) hwf, fun hchecks i => ?_⟩
      · rw [listed_eq]
        exact (h i).1
      · rw [listed_eq]
        exact (h i).2 hchecks
  · simp only [hacyclic, iff_false, not_false_eq_true, forall_true_left, false_implies, true_and]
    rw [← not_forall]
    cases overflowChecks with
    | false => simp
    | true =>
      refine iff_of_true ?_ fun h => by cases h
      rintro ⟨hplaceable, hchecks⟩
      obtain ⟨l, hlegal, hclosed⟩ := (Legal.nil : Legal b.lists b.need []).exists_closed
      have hall : ∀ i, i ∈ l := fun i => hclosed.mem_of_placeable (hplaceable i)
      exact hacyclic (acyclic_iff.2 (hlegal.wellFounded (hchecks rfl) hall))

/-- Two steps, one after the other. -/
def straight : DAGBuilder := ⟨[("fetch", []), ("parse", ["fetch"])], none, by decide, by decide⟩

theorem accepts_straight : (∃ dag, straight.build id true = .ok dag) ↔ straight.Acyclic :=
  (accepts_iff Function.injective_id ⟨by simp [straight], by decide⟩).2
    ⟨fun _ => by decide, fun _ h => by cases h⟩

/-- A name that is repeated in a list. -/
def repeated : DAGBuilder := ⟨[("A", []), ("B", ["A", "A"])], none, by decide, by decide⟩

theorem repeated_acyclic : repeated.Acyclic := by
  have hone {x y : String} (h : repeated.DependsOn x y) : x = "B" ∧ y = "A" := by
    obtain ⟨e, he, rfl, hy⟩ := h
    simp only [repeated, List.mem_cons, List.not_mem_nil, or_false] at he
    rcases he with rfl | rfl
    · exact absurd hy List.not_mem_nil
    · exact ⟨rfl, by simpa using hy⟩
  intro x hx
  obtain ⟨y, hxy, -⟩ := Relation.TransGen.head'_iff.1 hx
  obtain ⟨z, -, hzx⟩ := Relation.TransGen.tail'_iff.1 hx
  have hBA : "B" = "A" := (hone hxy).1.symm.trans (hone hzx).2
  exact absurd hBA (by decide)

theorem accepts_false : repeated.Resolvable ∧
    ∀ overflowChecks, ¬ ((∃ dag, repeated.build id overflowChecks = .ok dag) ↔ repeated.Acyclic) := by
  refine ⟨⟨by simp [repeated], by decide⟩, fun overflowChecks h => ?_⟩
  obtain ⟨dag, hdag⟩ := h.2 repeated_acyclic
  have herror : ∀ overflowChecks, repeated.build id overflowChecks = .error (.error "Cycle detected in DAG") := by
    decide +kernel
  rw [herror] at hdag
  cases hdag

end Takeln.DAGBuilder
