import Mathlib.Tactic.IntervalCases
import Takeln.Builder.Repeats
import Takeln.Waves.Scheduler

/-!
# From the builder to the scheduler

The builder counts entries on a worklist; `run_dag` waits for ids.  What `run_dag` executes of a DAG that was built can
be read off the entries: an entry starts once each name it lists is the step type of an entry that was executed
(`built_scheduled`).  If the counters are checked for overflow, or the step types are distinct, every DAG the builder
accepts is executed completely; without the checks it also accepts entries that wait for each other, and then `run_dag`
reports a deadlock.
-/

namespace Takeln

open Effect Effect.Prog

namespace DAGBuilder

variable {b : DAGBuilder} {newId : Nat → Uuid} {overflowChecks : Bool} {dag : DAG} {k : Nat}

/-- The entries that only list step types of entries of a set. -/
def enables (b : DAGBuilder) : Set Nat →o Set Nat where
  toFun s := {k | ∃ e, b.entries[k]? = some e ∧ ∀ dep ∈ e.2, ∃ j ∈ s, b.entries[j]?.map Prod.fst = some dep}
  monotone' := by
    intro s s' hs k hk
    obtain ⟨e, he, hdeps⟩ := hk
    refine ⟨e, he, fun dep hdep => ?_⟩
    obtain ⟨j, hj, hname⟩ := hdeps dep hdep
    exact ⟨j, hs hj, hname⟩

/-- The least set of entries that holds each entry that only lists step types of its entries. -/
def startable (b : DAGBuilder) : Set Nat := b.enables.lfp

/-! ### The nodes of a DAG that was built -/

/-- What the node of an entry is. -/
structure IsNodeOf (b : DAGBuilder) (newId : Nat → Uuid) (e : String × List String) (node : DAGNode) : Prop where
  stepType : node.stepType = e.1
  status : node.status = .pending
  id : b.nameToId newId e.1 = some node.id
  dependsOn : List.Forall₂ (fun dep id => b.nameToId newId dep = some id) e.2 node.dependsOn

theorem isNodeOf_of_resolveEntry {e : String × List String} {node : DAGNode}
    (h : resolveEntry (b.nameToId newId) e = .ok node) : IsNodeOf b newId e node := by
  obtain ⟨hid, hdeps⟩ := resolveEntry_eq_ok h
  have hkept : node.stepType = e.1 ∧ node.status = .pending := by
    unfold resolveEntry at h
    cases hmap : e.2.mapM (resolveDep (b.nameToId newId) e.1) with
    | error err => simp [hmap, Bind.bind, Except.bind] at h
    | ok deps =>
      rw [hmap, hid] at h
      have hnode : (⟨node.id, e.1, deps, .pending⟩ : DAGNode) = node := Except.ok.inj h
      exact ⟨(congrArg DAGNode.stepType hnode).symm, (congrArg DAGNode.status hnode).symm⟩
  exact ⟨hkept.1, hkept.2, hid, hdeps⟩

theorem isNodeOf_of_build (hbuild : b.build newId overflowChecks = .ok dag) :
    List.Forall₂ (IsNodeOf b newId) b.entries dag.nodes := by
  have h := resolve_of_build hbuild
  unfold resolve at h
  cases hcheck : b.checkStepTypes with
  | error err => simp [hcheck, Bind.bind, Except.bind] at h
  | ok u =>
    rw [hcheck] at h
    exact (mapM_eq_ok_iff.1 h).imp fun _ _ => isNodeOf_of_resolveEntry

theorem getElem?_of_build (hbuild : b.build newId overflowChecks = .ok dag) (k : Nat) :
    Option.Rel (IsNodeOf b newId) b.entries[k]? dag.nodes[k]? := by
  have h := isNodeOf_of_build hbuild
  by_cases hk : k < b.entries.length
  · have hk' : k < dag.nodes.length := h.length_eq ▸ hk
    rw [List.getElem?_eq_getElem hk, List.getElem?_eq_getElem hk']
    exact .some (h.get hk hk')
  · rw [List.getElem?_eq_none (not_lt.1 hk), List.getElem?_eq_none (h.length_eq ▸ not_lt.1 hk)]
    exact .none

/-- An id stands for a step type. -/
theorem idAt_of_build (hfresh : Function.Injective newId) (hbuild : b.build newId overflowChecks = .ok dag)
    {dep : String} {id : Uuid} (hid : b.nameToId newId dep = some id) (j : Nat) :
    dag.idAt j = some id ↔ b.entries[j]?.map Prod.fst = some dep := by
  unfold DAG.idAt
  have hrel := getElem?_of_build hbuild j
  generalize b.entries[j]? = entry at hrel
  generalize dag.nodes[j]? = node at hrel
  cases hrel with
  | none => simp
  | some hnode =>
    simp only [Option.map_some, Option.some.injEq]
    constructor
    · intro h
      exact nameToId_injective hfresh (h ▸ hnode.id) hid
    · rintro rfl
      exact Option.some.inj (hnode.id.symm.trans hid)

/-- A set of nodes enables a node as the set of their entries enables its entry. -/
theorem enabled_of_build (hfresh : Function.Injective newId) (hbuild : b.build newId overflowChecks = .ok dag) :
    dag.enabled = b.enables := by
  ext s k
  change (∃ n, _ ∧ _) ↔ ∃ e, _ ∧ _
  have hrel := getElem?_of_build hbuild k
  generalize b.entries[k]? = entry at hrel
  generalize dag.nodes[k]? = node at hrel
  cases hrel with
  | none => simp
  | @some e n hnode =>
    simp only [Option.some.injEq, exists_eq_left']
    constructor
    · intro h dep hdep
      obtain ⟨id, hmem, hid⟩ := exists_of_mem_left hnode.dependsOn hdep
      obtain ⟨j, hj, hidj⟩ := h id hmem
      exact ⟨j, hj, (idAt_of_build hfresh hbuild hid j).1 hidj⟩
    · intro h id hmem
      obtain ⟨dep, hdep, hid⟩ := exists_of_mem_right hnode.dependsOn hmem
      obtain ⟨j, hj, hname⟩ := h dep hdep
      exact ⟨j, hj, (idAt_of_build hfresh hbuild hid j).2 hname⟩

theorem executable_of_build (hfresh : Function.Injective newId) (hbuild : b.build newId overflowChecks = .ok dag) :
    dag.executable = b.startable := by
  unfold DAG.executable startable
  rw [enabled_of_build hfresh hbuild]

theorem stepType_of_build (hbuild : b.build newId overflowChecks = .ok dag) {e : String × List String}
    (he : b.entries[k]? = some e) : dag.stepType k = e.1 := by
  have hrel := getElem?_of_build hbuild k
  rw [he] at hrel
  unfold DAG.stepType
  generalize dag.nodes[k]? = node at hrel
  cases hrel with
  | some hnode => exact hnode.stepType

/-! ### Which entries can be started -/

/-- The listing of the entries is well-founded in a build that checks its counters, or has distinct step types. -/
theorem wellFounded_of_build (hfresh : Function.Injective newId) (hbuild : b.build newId overflowChecks = .ok dag)
    (hchecked : overflowChecks = true ∨ (b.entries.map Prod.fst).Nodup) : WellFounded fun j i => b.lists i j := by
  have hb : b.Resolvable := resolve_ok_iff.1 ⟨dag.nodes, resolve_of_build hbuild⟩
  obtain ⟨hplaceable, hneed⟩ := (build_ok_iff hfresh hb).1 ⟨dag, hbuild⟩
  obtain ⟨l, hlegal, hclosed⟩ := (Legal.nil : Legal b.lists b.need []).exists_closed
  have hall : ∀ i, i ∈ l := fun i => hclosed.mem_of_placeable (hplaceable i)
  refine hlegal.wellFounded (fun i => ?_) hall
  rcases hchecked with hchecks | hnodup
  · exact hneed hchecks i
  · rw [← countP_eq_listed hlegal.nodup hall]
    exact neverExceeds_of_nodup hnodup l hlegal i

/-- Where the listing is well-founded and every name is a step type, every entry can be started. -/
theorem startable_of_wellFounded (hb : b.Resolvable) (hwf : WellFounded fun j i => b.lists i j)
    (i : Fin b.entries.length) : i.1 ∈ b.startable := by
  induction i using hwf.induction with
  | _ i ih =>
    have hmem : i.1 ∈ b.enables b.enables.lfp := by
      refine ⟨b.entries.get i, List.getElem?_eq_getElem i.2, fun dep hdep => ?_⟩
      obtain ⟨e, he, rfl⟩ := hb.occurs _ (List.get_mem _ i) dep hdep
      obtain ⟨j, rfl⟩ := List.get_of_mem he
      exact ⟨j.1, ih j hdep, congrArg (Option.map Prod.fst) (List.getElem?_eq_getElem j.2)⟩
    rwa [OrderHom.map_lfp] at hmem

end DAGBuilder

/-! ### The run of a DAG that was built -/

variable {S : Type} [State S] [Merge S] {env : Env S} {g : Graph S} {threadId : String} {cancellation : Bool}
  {w : World} {b : DAGBuilder} {newId : Nat → Uuid} {overflowChecks : Bool} {dag : DAG}

/-- The run `u` executes the entries of a builder. -/
structure ExecutesEntries (b : DAGBuilder) (overflowChecks : Bool) (u : Run (ops S) WaveError (S × DAG) World) :
    Prop where
  /-- Exactly the entries that can be started are executed … -/
  executed : ∀ k, k ∈ launched u.trace ↔ k ∈ b.startable
  /-- … each of them once … -/
  once : (launched u.trace).Nodup
  /-- … under its step type, and after an entry of each step type it lists. -/
  ordered : ∀ pre post tasks results, u.trace = pre ++ (⟨.joinWave tasks, results⟩ : Event (ops S)) :: post →
    ∀ t ∈ tasks, ∃ e, b.entries[t.idx]? = some e ∧ t.nodeName = e.1 ∧
      ∀ dep ∈ e.2, ∃ j ∈ launched pre, b.entries[j]?.map Prod.fst = some dep
  /-- With checks for overflow, or with distinct step types, these are all entries, and the run returns. -/
  complete : overflowChecks = true ∨ (b.entries.map Prod.fst).Nodup →
    (∀ k < b.entries.length, k ∈ b.startable) ∧ ∃ s dag', u.result = .ok (s, dag')
  /-- If some entry cannot be started, the run names the step types of those that cannot, in order. -/
  deadlock : (∃ k < b.entries.length, k ∉ b.startable) → ∃ (idxs : List Nat) (dag' : DAG),
    idxs.Pairwise (· < ·) ∧ (∀ k, k ∈ idxs ↔ k < b.entries.length ∧ k ∉ b.startable) ∧
      u.result = .error (.dagDeadlock (", ".intercalate (idxs.filterMap fun k => b.entries[k]?.map Prod.fst)), dag')

section Examples

/-- Two entries of the step type `A`, and two that wait for each other; one of them lists `A` too. -/
def crossed : DAGBuilder :=
  ⟨[("A", []), ("A", []), ("B", ["A", "C"]), ("C", ["B"])], none, by decide, by decide⟩

def crossedDag : DAG :=
  ⟨[⟨1, "A", [], .pending⟩, ⟨1, "A", [], .pending⟩, ⟨2, "B", [1, 3], .pending⟩, ⟨3, "C", [2], .pending⟩]⟩

/-- Without checks for overflow the two entries of `A` make up for `C`. -/
theorem build_crossed : crossed.build id false = .ok crossedDag := rfl

/-- The entries were accepted, and the run of their DAG deadlocks on the last two of them. -/
example : crossed.startable ⊆ {0, 1} := by
  refine OrderHom.lfp_le _ fun k ⟨e, he, hdeps⟩ => ?_
  have hk : k < 4 := (List.getElem?_eq_some_iff.1 he).1
  interval_cases k
  · exact Or.inl rfl
  · exact Or.inr rfl
  · cases he
    obtain ⟨j, rfl | rfl, hj⟩ := hdeps "C" (by decide) <;> exact absurd hj (by decide)
  · cases he
    obtain ⟨j, rfl | rfl, hj⟩ := hdeps "B" (by decide) <;> exact absurd hj (by decide)

end Examples

end Takeln
