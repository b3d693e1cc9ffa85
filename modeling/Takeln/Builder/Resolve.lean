import Takeln.Builder.Worklist
import Takeln.Order.Related

/-!
# Resolving the names

A build gets to its worklist exactly if it knows all step types and all dependency names (`resolve_ok_iff`). As the ids
are fresh, the nodes depend on the ids of the entries whose step types they list, and two nodes have the same id if
their step types are the same (`resolve_ids`).
-/

namespace Takeln

namespace DAGBuilder

variable (b : DAGBuilder)

/-- Some entry for `x` lists `y` as a dependency. -/
def DependsOn (x y : String) : Prop :=
  ∃ e ∈ b.entries, e.1 = x ∧ y ∈ e.2

/-- The step types are allowed, and the dependencies are step types. -/
structure Resolvable : Prop where
  allowed : ∀ names, b.allowedStepTypes = some names → ∀ e ∈ b.entries, e.1 ∈ names.1
  occurs : ∀ e ∈ b.entries, ∀ dep ∈ e.2, ∃ e' ∈ b.entries, e'.1 = dep

/-- The entry `i` lists the step type of the entry `j`. -/
def lists (i j : Fin b.entries.length) : Prop :=
  (b.entries.get j).1 ∈ (b.entries.get i).2

instance (i : Fin b.entries.length) : DecidablePred (b.lists i) :=
  fun j => inferInstanceAs (Decidable ((b.entries.get j).1 ∈ (b.entries.get i).2))

/-- The number of dependencies of an entry. -/
def need (i : Fin b.entries.length) : Nat :=
  (b.entries.get i).2.length

variable {b} {newId : Nat → Uuid} {nodes : List DAGNode}

/-! ### The ids -/

/-- The ids of the first pass over some entries. -/
private def idsOf (newId : Nat → Uuid) (ps : List ((String × List String) × Nat)) : String → Option Uuid :=
  ps.foldl (fun ids p => Function.update ids p.1.1 (some (newId p.2))) fun _ => none

private theorem idsOf_spec {ps : List ((String × List String) × Nat)} {name : String} :
    (∀ {id}, idsOf newId ps name = some id → ∃ p ∈ ps, p.1.1 = name ∧ newId p.2 = id) ∧
      ((∃ p ∈ ps, p.1.1 = name) → ∃ id, idsOf newId ps name = some id) := by
  induction ps using List.reverseRecOn with
  | nil => simp [idsOf]
  | append_singleton ps p ih =>
    have hlast : idsOf newId (ps ++ [p]) = Function.update (idsOf newId ps) p.1.1 (some (newId p.2)) :=
      List.foldl_concat ..
    rw [hlast, Function.update_apply]
    by_cases hname : name = p.1.1
    · rw [if_pos hname]
      exact ⟨fun hid => ⟨p, by simp, hname.symm, Option.some.inj hid⟩, fun _ => ⟨_, rfl⟩⟩
    · rw [if_neg hname]
      refine ⟨fun hid => ?_, ?_⟩
      · obtain ⟨p', hp', h⟩ := ih.1 hid
        exact ⟨p', List.mem_append_left _ hp', h⟩
      · rintro ⟨p', hp', h⟩
        rcases List.mem_append.1 hp' with hp' | hp'
        · exact ih.2 ⟨p', hp', h⟩
        · rw [List.mem_singleton.1 hp'] at h
          exact absurd h.symm hname

/-- An id belongs to an entry of the step type. -/
theorem nameToId_eq_some {name : String} {id : Uuid} (h : b.nameToId newId name = some id) :
    ∃ k e, b.entries[k]? = some e ∧ e.1 = name ∧ newId k = id := by
  obtain ⟨⟨e, k⟩, hp, hname, hid⟩ := idsOf_spec.1 h
  exact ⟨k, e, List.mem_zipIdx_iff_getElem?.1 hp, hname, hid⟩

/-- Every step type has an id, and nothing else. -/
theorem nameToId_isSome {name : String} : (∃ id, b.nameToId newId name = some id) ↔ ∃ e ∈ b.entries, e.1 = name := by
  constructor
  · rintro ⟨id, h⟩
    obtain ⟨k, e, hk, hname, -⟩ := nameToId_eq_some h
    exact ⟨e, List.mem_of_getElem? hk, hname⟩
  · rintro ⟨e, he, hname⟩
    obtain ⟨k, hk⟩ := List.mem_iff_getElem?.1 he
    exact idsOf_spec.2 ⟨(e, k), List.mem_zipIdx_iff_getElem?.2 hk, hname⟩

/-- Different step types have different ids. -/
theorem nameToId_injective (hfresh : Function.Injective newId) {name name' : String} {id : Uuid}
    (h : b.nameToId newId name = some id) (h' : b.nameToId newId name' = some id) : name = name' := by
  obtain ⟨k, e, hk, rfl, hid⟩ := nameToId_eq_some h
  obtain ⟨k', e', hk', rfl, hid'⟩ := nameToId_eq_some h'
  obtain rfl := hfresh (hid.trans hid'.symm)
  rw [hk] at hk'
  rw [Option.some.inj hk']

/-! ### The nodes -/

theorem resolveDep_eq_ok {ids : String → Option Uuid} {stepType dep : String} {id : Uuid} :
    resolveDep ids stepType dep = .ok id ↔ ids dep = some id := by
  unfold resolveDep
  split <;> simp [*]

/-- A node has the id of its step type and depends on the ids of the names that are listed. -/
theorem resolveEntry_eq_ok {ids : String → Option Uuid} {e : String × List String} {node : DAGNode}
    (h : resolveEntry ids e = .ok node) :
    ids e.1 = some node.id ∧ List.Forall₂ (fun dep id => ids dep = some id) e.2 node.dependsOn := by
  unfold resolveEntry at h
  cases hdeps : e.2.mapM (resolveDep ids e.1) with
  | error err => simp [hdeps, bind, Except.bind] at h
  | ok deps =>
    cases hid : ids e.1 with
    | none => simp [hdeps, hid, bind, Except.bind] at h
    | some id =>
      obtain rfl : (⟨id, e.1, deps, .pending⟩ : DAGNode) = node := by
        simpa [hdeps, hid, bind, Except.bind] using h
      exact ⟨rfl, (mapM_eq_ok_iff.1 hdeps).imp fun dep id' hdep => resolveDep_eq_ok.1 hdep⟩

/-- An entry becomes a node if its names have ids. -/
theorem resolveEntry_ok_iff {ids : String → Option Uuid} {e : String × List String} :
    (∃ node, resolveEntry ids e = .ok node) ↔ (∃ id, ids e.1 = some id) ∧ ∀ dep ∈ e.2, ∃ id, ids dep = some id := by
  constructor
  · rintro ⟨node, h⟩
    obtain ⟨hid, hdeps⟩ := resolveEntry_eq_ok h
    refine ⟨⟨_, hid⟩, fun dep hdep => ?_⟩
    obtain ⟨id, -, h⟩ := exists_of_mem_left hdeps hdep
    exact ⟨id, h⟩
  · rintro ⟨⟨id, hid⟩, hdeps⟩
    obtain ⟨deps, hmap⟩ : ∃ deps, e.2.mapM (resolveDep ids e.1) = .ok deps :=
      mapM_ok_iff.2 fun dep hdep => (hdeps dep hdep).imp fun id hid => resolveDep_eq_ok.2 hid
    refine ⟨⟨id, e.1, deps, .pending⟩, ?_⟩
    simp [resolveEntry, hmap, hid, bind, Except.bind]

theorem checkStepTypes_eq_ok :
    b.checkStepTypes = .ok () ↔ ∀ names, b.allowedStepTypes = some names → ∀ e ∈ b.entries, e.1 ∈ names.1 := by
  unfold checkStepTypes
  cases b.allowedStepTypes with
  | none => simp
  | some names =>
    have hoffenders : (b.entries.map Prod.fst).filter (fun stepType => stepType ∉ names.1) = [] ↔
        ∀ e ∈ b.entries, e.1 ∈ names.1 := by
      simp [List.filter_eq_nil_iff]
    simp only [Option.some.injEq, forall_eq']
    rw [← hoffenders]
    split
    · exact iff_of_true rfl ‹_›
    · exact iff_of_false (by simp) ‹_›

/-- A build gets to its worklist if it knows all names. -/
theorem resolve_ok_iff : (∃ nodes, b.resolve newId = .ok nodes) ↔ b.Resolvable := by
  have hentry (e : String × List String) (he : e ∈ b.entries) :
      (∃ node, resolveEntry (b.nameToId newId) e = .ok node) ↔ ∀ dep ∈ e.2, ∃ e' ∈ b.entries, e'.1 = dep := by
    simp only [resolveEntry_ok_iff, nameToId_isSome]
    exact ⟨fun h => h.2, fun h => ⟨⟨e, he, rfl⟩, h⟩⟩
  have hmap : (∃ nodes, b.entries.mapM (resolveEntry (b.nameToId newId)) = .ok nodes) ↔
      ∀ e ∈ b.entries, ∀ dep ∈ e.2, ∃ e' ∈ b.entries, e'.1 = dep := by
    rw [mapM_ok_iff]
    exact forall₂_congr hentry
  unfold resolve
  cases hcheck : b.checkStepTypes with
  | error err =>
    have hnot := mt checkStepTypes_eq_ok.2 (by rw [hcheck]; simp)
    exact iff_of_false (by simp [bind, Except.bind]) fun h => hnot h.allowed
  | ok u =>
    refine hmap.trans ⟨fun h => ⟨checkStepTypes_eq_ok.1 hcheck, h⟩, fun h => h.occurs⟩

/-- The worklist runs on the listing of the entries, and two nodes share an id if they share a step type. -/
theorem resolve_spec (hfresh : Function.Injective newId) (h : b.resolve newId = .ok nodes) :
    Describes b.lists b.need nodes ∧
      ∀ (i j : Fin b.entries.length) {node node' : DAGNode}, nodes[i.1]? = some node → nodes[j.1]? = some node' →
        (node.id = node'.id ↔ (b.entries.get i).1 = (b.entries.get j).1) := by
  have hmap : List.Forall₂ (fun e node => resolveEntry (b.nameToId newId) e = .ok node) b.entries nodes := by
    unfold resolve at h
    cases hcheck : b.checkStepTypes with
    | error err => simp [hcheck, bind, Except.bind] at h
    | ok u =>
      rw [hcheck] at h
      exact mapM_eq_ok_iff.1 h
  have hnode (i : Fin b.entries.length) {node : DAGNode} (hi : nodes[i.1]? = some node) :
      b.nameToId newId (b.entries.get i).1 = some node.id ∧
        List.Forall₂ (fun dep id => b.nameToId newId dep = some id) (b.entries.get i).2 node.dependsOn := by
    obtain ⟨hlt, rfl⟩ := List.getElem?_eq_some_iff.1 hi
    exact resolveEntry_eq_ok (hmap.get i.2 hlt)
  refine ⟨⟨hmap.length_eq.symm, fun i node hi => (hnode i hi).2.length_eq.symm, fun i j node node' hi hj => ?_⟩,
    fun i j node node' hi hj => ?_⟩
  · obtain ⟨hid, -⟩ := hnode j hj
    constructor
    · intro hmem
      obtain ⟨dep, hdep, hdepid⟩ := exists_of_mem_right (hnode i hi).2 hmem
      unfold lists
      rw [nameToId_injective hfresh hid hdepid]
      exact hdep
    · intro hlists
      obtain ⟨id, hmem, hdepid⟩ := exists_of_mem_left (hnode i hi).2 hlists
      rw [hid] at hdepid
      exact Option.some.inj hdepid ▸ hmem
  · obtain ⟨hid, -⟩ := hnode i hi
    obtain ⟨hid', -⟩ := hnode j hj
    constructor
    · intro heq
      rw [heq] at hid
      exact nameToId_injective hfresh hid hid'
    · intro heq
      rw [heq, hid'] at hid
      exact (Option.some.inj hid).symm

end DAGBuilder

end Takeln
