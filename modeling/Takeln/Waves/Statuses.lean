import Mathlib.Data.List.Sigma
import Takeln.Model.Waves

/-!
# Statuses of a wave

What the wave engine does to the statuses of a DAG.  A wave launches pending nodes only; when it is joined each
launched node has the status its result gives it, and every other node keeps its own (`statusAt_joined`).  What the
joining comes to, and what breaks it off, is a function of the results (`Graph.joinAll`).
-/

namespace Takeln

variable {S : Type}

namespace DAG

variable (dag : DAG)

/-- The status of the node at an index. -/
def statusAt (idx : Nat) : Option NodeStatus := dag.nodes[idx]?.map DAGNode.status

/-- Everything but the statuses. -/
def shape : List (Uuid × String × List Uuid) := dag.nodes.map fun n => (n.id, n.stepType, n.dependsOn)

theorem statusAt_setStatus (idx k : Nat) (status : NodeStatus) :
    (dag.setStatus idx status).statusAt k = if k = idx then (dag.statusAt k).map fun _ =>
      status else dag.statusAt k := by
  unfold statusAt setStatus
  rw [List.getElem?_modify]
  by_cases h : k = idx
  · subst h
    simp [Option.map_map, Function.comp_def]
  · simp [h, Ne.symm h]

@[simp] theorem shape_setStatus (idx : Nat) (status : NodeStatus) : (dag.setStatus idx status).shape = dag.shape := by
  unfold shape setStatus
  apply List.ext_getElem?
  intro k
  rw [List.getElem?_map, List.getElem?_map, List.getElem?_modify]
  by_cases h : idx = k
  · subst h
    simp [Option.map_map, Function.comp_def]
  · simp [h]

@[simp] theorem stepType_setStatus (idx k : Nat) (status : NodeStatus) :
    (dag.setStatus idx status).stepType k = dag.stepType k := by
  unfold stepType setStatus
  rw [List.getElem?_modify]
  by_cases h : idx = k
  · subst h
    simp [Option.map_map, Function.comp_def]
  · simp [h]

theorem statusAt_setStatuses (indices : List Nat) (k : Nat) (status : NodeStatus) :
    (dag.setStatuses indices status).statusAt k =
      if k ∈ indices then (dag.statusAt k).map fun _ => status else dag.statusAt k := by
  unfold setStatuses
  induction indices generalizing dag with
  | nil => simp
  | cons idx indices ih =>
    rw [List.foldl_cons, ih, statusAt_setStatus]
    by_cases hk : k = idx
    · subst hk
      by_cases hmem : k ∈ indices <;> simp [hmem, Option.map_map, Function.comp_def]
    · simp [hk]

@[simp] theorem shape_setStatuses (indices : List Nat) (status : NodeStatus) :
    (dag.setStatuses indices status).shape = dag.shape := by
  unfold setStatuses
  induction indices generalizing dag with
  | nil => rfl
  | cons idx indices ih => rw [List.foldl_cons, ih, shape_setStatus]

@[simp] theorem stepType_setStatuses (indices : List Nat) (k : Nat) (status : NodeStatus) :
    (dag.setStatuses indices status).stepType k = dag.stepType k := by
  unfold setStatuses
  induction indices generalizing dag with
  | nil => rfl
  | cons idx indices ih => rw [List.foldl_cons, ih, stepType_setStatus]

variable {dag} {dag' : DAG}

theorem mem_ready {completed : List Uuid} {idx : Nat} :
    idx ∈ dag.ready completed ↔
      ∃ n, dag.nodes[idx]? = some n ∧ n.status = .pending ∧ ∀ dep ∈ n.dependsOn, dep ∈ completed := by
  unfold ready
  rw [List.mem_map]
  constructor
  · rintro ⟨⟨n, i⟩, hmem, rfl⟩
    rw [List.mem_filter, List.mem_zipIdx_iff_getElem?, decide_eq_true_iff] at hmem
    exact ⟨n, hmem⟩
  · rintro ⟨n, hn, hstatus⟩
    refine ⟨(n, idx), ?_, rfl⟩
    rw [List.mem_filter, List.mem_zipIdx_iff_getElem?, decide_eq_true_iff]
    exact ⟨hn, hstatus⟩

theorem statusAt_of_mem_ready {completed : List Uuid} {idx : Nat} (h : idx ∈ dag.ready completed) :
    dag.statusAt idx = some .pending := by
  obtain ⟨n, hn, hstatus, _⟩ := mem_ready.1 h
  rw [statusAt, hn, Option.map_some, hstatus]

theorem nodup_ready (completed : List Uuid) : (dag.ready completed).Nodup :=
  (List.nodup_zipIdx_map_snd dag.nodes).sublist (List.filter_sublist.map Prod.snd)

/-- The id of the node at an index. -/
def idAt (dag : DAG) (idx : Nat) : Option Uuid := dag.nodes[idx]?.map DAGNode.id

theorem idAt_eq_of_shape (h : dag.shape = dag'.shape) (idx : Nat) : dag.idAt idx = dag'.idAt idx := by
  have hidx := congrArg (fun l => l[idx]?.map Prod.fst) h
  simpa [shape, idAt, Option.map_map, Function.comp_def] using hidx

theorem stepType_eq_of_shape (h : dag.shape = dag'.shape) (idx : Nat) : dag.stepType idx = dag'.stepType idx := by
  have hidx := congrArg (fun l => l[idx]?.map fun x => x.2.1) h
  simp only [shape, List.getElem?_map, Option.map_map, Function.comp_def] at hidx
  exact congrArg (·.getD "") hidx

/-- A DAG is its shape and its statuses. -/
theorem eq_of_shape (h : dag.shape = dag'.shape) (hstatus : ∀ k, dag.statusAt k = dag'.statusAt k) : dag = dag' := by
  obtain ⟨nodes⟩ := dag
  obtain ⟨nodes'⟩ := dag'
  congr 1
  apply List.ext_getElem?
  intro k
  have hk := congrArg (fun l => l[k]?) h
  have hs := hstatus k
  simp only [shape, List.getElem?_map] at hk
  simp only [statusAt] at hs
  cases hn : nodes[k]? with
  | none =>
    rw [hn, Option.map_none] at hk
    exact (Option.map_eq_none_iff.1 hk.symm).symm
  | some n =>
    rw [hn, Option.map_some] at hk hs
    obtain ⟨n', hn', heq⟩ := Option.map_eq_some_iff.1 hk.symm
    rw [hn', Option.map_some] at hs
    obtain ⟨id, stepType, dependsOn, status⟩ := n
    obtain ⟨id', stepType', dependsOn', status'⟩ := n'
    simp only [Prod.mk.injEq, Option.some.injEq] at heq hs
    obtain ⟨rfl, rfl, rfl⟩ := heq
    rw [hn', hs]

/-- The ids of a DAG, by its shape. -/
theorem map_id_eq_of_shape (h : dag.shape = dag'.shape) :
    dag.nodes.map DAGNode.id = dag'.nodes.map DAGNode.id := by
  have hids := congrArg (List.map Prod.fst) h
  simpa [shape, List.map_map, Function.comp_def] using hids

/-- The ids of the nodes that are `Done`. -/
def doneIds (dag : DAG) : List Uuid := (dag.nodes.filter fun n => decide (n.status = .done)).map DAGNode.id

theorem mem_doneIds {id : Uuid} : id ∈ dag.doneIds ↔ ∃ k, dag.statusAt k = some .done ∧ dag.idAt k = some id := by
  unfold doneIds statusAt idAt
  rw [List.mem_map]
  constructor
  · rintro ⟨n, hn, rfl⟩
    rw [List.mem_filter, decide_eq_true_iff] at hn
    obtain ⟨k, hk⟩ := List.mem_iff_getElem?.1 hn.1
    exact ⟨k, by rw [hk, Option.map_some, hn.2], by rw [hk, Option.map_some]⟩
  · rintro ⟨k, hstatus, hid⟩
    obtain ⟨n, hn, rfl⟩ := Option.map_eq_some_iff.1 hid
    rw [hn, Option.map_some] at hstatus
    refine ⟨n, ?_, rfl⟩
    rw [List.mem_filter, decide_eq_true_iff]
    exact ⟨List.mem_of_getElem? hn, Option.some.inj hstatus⟩

/-- What holds of the status of every node, by index. -/
theorem forall_status_iff {p : NodeStatus → Prop} :
    (∀ n ∈ dag.nodes, p n.status) ↔ ∀ k status, dag.statusAt k = some status → p status := by
  constructor
  · intro h k status hk
    obtain ⟨n, hn, rfl⟩ := Option.map_eq_some_iff.1 hk
    exact h n (List.mem_of_getElem? hn)
  · intro h n hn
    obtain ⟨k, hk⟩ := List.mem_iff_getElem?.1 hn
    exact h k n.status (by rw [statusAt, hk, Option.map_some])

/-- What is ready depends only on which ids are completed. -/
theorem ready_congr {completed completed' : List Uuid} (h : ∀ id, id ∈ completed ↔ id ∈ completed') :
    dag.ready completed = dag.ready completed' := by
  unfold ready
  simp only [h]

/-! ### Restoring -/

/-- Restoring changes nothing but statuses. -/
@[simp] theorem shape_restoreStatuses (snapshot : DAG) : (dag.restoreStatuses snapshot).shape = dag.shape := by
  unfold shape restoreStatuses
  simp only [List.map_map]
  apply List.map_congr_left
  intro n _
  rw [Function.comp_apply]
  split <;> rfl

/-- With distinct ids, the status a snapshot holds for an id is the status of its node. -/
theorem statusOf_id {snapshot : DAG} (hids : (snapshot.nodes.map DAGNode.id).Nodup) {n : DAGNode}
    (hn : n ∈ snapshot.nodes) : snapshot.statusOf n.id = some n.status := by
  unfold statusOf
  cases hfind : snapshot.nodes.reverse.find? fun m => m.id == n.id with
  | none =>
    have hno := List.find?_eq_none.1 hfind n (List.mem_reverse.2 hn)
    simp at hno
  | some m =>
    have hm : m ∈ snapshot.nodes := List.mem_reverse.1 (List.mem_of_find?_eq_some hfind)
    have hid : m.id = n.id := by simpa using List.find?_some hfind
    have heq : m = n := List.inj_on_of_nodup_map hids hm hn hid
    rw [heq, Option.map_some]

/-- A snapshot with the same distinct ids is taken over node by node. -/
theorem statusAt_restoreStatuses {snapshot : DAG} (hids : dag.nodes.map DAGNode.id = snapshot.nodes.map DAGNode.id)
    (hnodup : (snapshot.nodes.map DAGNode.id).Nodup) (k : Nat) :
    (dag.restoreStatuses snapshot).statusAt k = snapshot.statusAt k := by
  have hk := congrArg (fun ids => ids[k]?) hids
  simp only [List.getElem?_map] at hk
  unfold restoreStatuses statusAt
  simp only [List.getElem?_map, Option.map_map]
  cases hn : dag.nodes[k]? with
  | none =>
    rw [hn, Option.map_none] at hk
    rw [Option.map_eq_none_iff.1 hk.symm, Option.map_none, Option.map_none]
  | some n =>
    obtain ⟨m, hm, hid⟩ := Option.map_eq_some_iff.1 (hk.symm.trans (congrArg _ hn))
    rw [hm, Option.map_some, Option.map_some, Function.comp_apply]
    simp only [← hid, statusOf_id hnodup (List.mem_of_getElem? hm)]

end DAG

variable [Money]

/-! ### Joining -/

/-- The status a result gives its node. -/
def resultStatus : Except GraphError (NodeOutput S) → NodeStatus
  | .ok _ => .done
  | .error (.yield _) => .yielded
  | .error _ => .failed

/-- The index of the node a result is of. -/
def resultIdx : JoinResult S → Option Nat
  | .ok (idx, _) => some idx
  | .error _ => none

/-- The outputs of the nodes that succeeded, by index, in the order in which they ended. -/
def outputs (results : List (JoinResult S)) : List (Nat × S) :=
  results.filterMap fun
    | .ok (idx, .ok out) => some (idx, out.state)
    | _ => none

/-- What the nodes that succeeded cost, in the order in which they ended. -/
def costs (results : List (JoinResult S)) : List Eur :=
  results.filterMap fun
    | .ok (_, .ok out) => some out.info.cost
    | _ => none

theorem mem_outputs {results : List (JoinResult S)} {idx : Nat} {state : S} :
    (idx, state) ∈ outputs results ↔ ∃ out, .ok (idx, .ok out) ∈ results ∧ out.state = state := by
  unfold outputs
  rw [List.mem_filterMap]
  constructor
  · rintro ⟨res, hres, heq⟩
    rcases res with panic | ⟨k, e | out⟩
    · cases heq
    · cases heq
    · cases heq
      exact ⟨out, hres, rfl⟩
  · rintro ⟨out, hout, rfl⟩
    exact ⟨_, hout, rfl⟩

/-- Some node yielded. -/
def Yields (results : List (JoinResult S)) : Prop := ∃ idx request, .ok (idx, .error (.yield request)) ∈ results

theorem yields_cons (res : JoinResult S) (results : List (JoinResult S)) :
    Yields (res :: results) ↔ (∃ idx request, res = .ok (idx, .error (.yield request))) ∨ Yields results := by
  simp only [Yields, List.mem_cons, exists_or, eq_comm]

namespace Joining

/-- Take over one result. -/
def add (j : Joining S) : JoinResult S → Joining S
  | .ok (idx, .ok out) => j.succeed idx out
  | .ok (idx, .error (.yield request)) => j.yield idx request
  | .ok (idx, .error e) => j.fail idx e
  | .error _ => j

/-- The local variables once every result has been taken over. -/
def addAll (j : Joining S) (results : List (JoinResult S)) : Joining S := results.foldl add j

@[simp] theorem addAll_nil (j : Joining S) : j.addAll [] = j := rfl

@[simp] theorem addAll_cons (j : Joining S) (res : JoinResult S) (results : List (JoinResult S)) :
    j.addAll (res :: results) = (j.add res).addAll results := rfl

theorem statusAt_add (j : Joining S) (idx k : Nat) (x : Except GraphError (NodeOutput S)) :
    (j.add (.ok (idx, x))).dag.statusAt k =
      if k = idx then (j.dag.statusAt k).map fun _ => resultStatus x else j.dag.statusAt k := by
  rcases x with e | out
  · cases e <;> exact DAG.statusAt_setStatus ..
  · exact DAG.statusAt_setStatus ..

theorem statusAt_addAll_of_notMem (j : Joining S) {results : List (JoinResult S)} {k : Nat}
    (h : ∀ x, .ok (k, x) ∉ results) : (j.addAll results).dag.statusAt k = j.dag.statusAt k := by
  induction results generalizing j with
  | nil => rfl
  | cons res results ih =>
    rw [addAll_cons, ih _ fun x hx => h x (List.mem_cons_of_mem _ hx)]
    rcases res with panic | ⟨idx, x⟩
    · rfl
    · rw [statusAt_add, if_neg]
      rintro rfl
      exact h x (List.mem_cons_self ..)

/-- A node launched once has the status its result gives it. -/
theorem statusAt_addAll_of_mem (j : Joining S) {results : List (JoinResult S)} {k : Nat}
    {x : Except GraphError (NodeOutput S)} (hnodup : (results.filterMap resultIdx).Nodup) (h : .ok (k, x) ∈ results) :
    (j.addAll results).dag.statusAt k = (j.dag.statusAt k).map fun _ => resultStatus x := by
  induction results generalizing j with
  | nil => cases h
  | cons res results ih =>
    rw [addAll_cons]
    rcases List.mem_cons.1 h with rfl | hmem
    · have hnot : ∀ y, .ok (k, y) ∉ results := by
        intro y hy
        rw [List.filterMap_cons_some (by rfl : resultIdx (.ok (k, x) : JoinResult S) = some k),
          List.nodup_cons] at hnodup
        exact hnodup.1 (List.mem_filterMap.2 ⟨_, hy, rfl⟩)
      rw [statusAt_addAll_of_notMem _ hnot, statusAt_add, if_pos rfl]
    · rcases res with panic | ⟨idx, y⟩
      · exact ih _ hnodup hmem
      · rw [List.filterMap_cons_some (by rfl : resultIdx (.ok (idx, y) : JoinResult S) = some idx),
          List.nodup_cons] at hnodup
        rw [ih _ hnodup.2 hmem, statusAt_add, if_neg]
        rintro rfl
        exact hnodup.1 (List.mem_filterMap.2 ⟨_, hmem, rfl⟩)

theorem shape_addAll (j : Joining S) (results : List (JoinResult S)) : (j.addAll results).dag.shape = j.dag.shape := by
  induction results generalizing j with
  | nil => rfl
  | cons res results ih =>
    rw [addAll_cons, ih]
    rcases res with panic | ⟨idx, e | out⟩
    · rfl
    · cases e <;> exact DAG.shape_setStatus ..
    · exact DAG.shape_setStatus ..

theorem stepType_addAll (j : Joining S) (results : List (JoinResult S)) (k : Nat) :
    (j.addAll results).dag.stepType k = j.dag.stepType k := by
  induction results generalizing j with
  | nil => rfl
  | cons res results ih =>
    rw [addAll_cons, ih]
    rcases res with panic | ⟨idx, e | out⟩
    · rfl
    · cases e <;> exact DAG.stepType_setStatus ..
    · exact DAG.stepType_setStatus ..

theorem mem_completed_addAll (j : Joining S) (results : List (JoinResult S)) (id : Uuid) :
    id ∈ (j.addAll results).completed ↔
      id ∈ j.completed ∨ ∃ idx out, .ok (idx, .ok out) ∈ results ∧ j.dag.idAt idx = some id := by
  induction results generalizing j with
  | nil => simp
  | cons res results ih =>
    have hid (idx : Nat) : (j.add res).dag.idAt idx = j.dag.idAt idx :=
      DAG.idAt_eq_of_shape (shape_addAll j [res]) idx
    have hadd : id ∈ (j.add res).completed ↔
        id ∈ j.completed ∨ ∃ idx out, .ok (idx, .ok out) = res ∧ j.dag.idAt idx = some id := by
      rcases res with panic | ⟨idx, e | out⟩
      · simp [add]
      · cases e <;> simp [add, yield, fail]
      · simp [add, succeed, DAG.idAt]
    rw [addAll_cons, ih, hadd, or_assoc]
    simp only [hid, List.mem_cons, or_and_right, exists_or]

theorem waveCost_addAll (j : Joining S) (results : List (JoinResult S)) :
    (j.addAll results).waveCost = (costs results).foldl (· + ·) j.waveCost := by
  induction results generalizing j with
  | nil => rfl
  | cons res results ih =>
    rw [addAll_cons, ih]
    rcases res with panic | ⟨idx, e | out⟩
    · rfl
    · cases e <;> rfl
    · rfl

theorem waveStates_addAll (j : Joining S) (results : List (JoinResult S)) :
    (j.addAll results).waveStates = j.waveStates ++ outputs results := by
  induction results generalizing j with
  | nil => exact (List.append_nil _).symm
  | cons res results ih =>
    rw [addAll_cons, ih]
    rcases res with panic | ⟨idx, e | out⟩
    · rfl
    · cases e <;> rfl
    · simp [add, succeed, outputs]

theorem hasYielded_addAll (j : Joining S) (results : List (JoinResult S)) :
    (j.addAll results).hasYielded = true ↔ j.hasYielded = true ∨ Yields results := by
  induction results generalizing j with
  | nil => simp [Yields]
  | cons res results ih =>
    rw [addAll_cons, ih, yields_cons, ← or_assoc]
    have hadd : (j.add res).hasYielded = true ↔
        j.hasYielded = true ∨ ∃ idx request, res = .ok (idx, .error (.yield request)) := by
      rcases res with panic | ⟨idx, e | out⟩
      · simp [add]
      · cases e <;> simp [add, yield, fail]
      · simp [add, succeed]
    rw [hadd]

theorem waveFailed_addAll (j : Joining S) (results : List (JoinResult S)) :
    (j.addAll results).waveFailed = [] ↔
      j.waveFailed = [] ∧ ∀ idx x, .ok (idx, x) ∈ results → resultStatus x ≠ .failed := by
  induction results generalizing j with
  | nil => simp
  | cons res results ih =>
    have hadd : (j.add res).waveFailed = [] ↔
        j.waveFailed = [] ∧ ∀ idx x, .ok (idx, x) = res → resultStatus x ≠ .failed := by
      rcases res with panic | ⟨idx, e | out⟩
      · simp [add]
      · cases e <;> simp [add, yield, fail, resultStatus]
      · simp [add, succeed, resultStatus]
    simp only [addAll_cons, ih, hadd, List.mem_cons, or_imp, forall_and, and_assoc]

end Joining

/-- The local variables once a wave of the ready nodes was joined. -/
def joined (dag : DAG) (completed : List Uuid) (results : List (JoinResult S)) : Joining S :=
  (⟨dag.setStatuses (dag.ready completed) .running, completed, [], 0, false, [], [], none⟩ : Joining S).addAll results

theorem statusAt_joined_of_mem {dag : DAG} {completed : List Uuid} {results : List (JoinResult S)} {k : Nat}
    {x : Except GraphError (NodeOutput S)} (hperm : (results.filterMap resultIdx).Perm (dag.ready completed))
    (h : .ok (k, x) ∈ results) : (joined dag completed results).dag.statusAt k = some (resultStatus x) := by
  have hk : k ∈ dag.ready completed := hperm.mem_iff.1 (List.mem_filterMap.2 ⟨_, h, rfl⟩)
  rw [joined, Joining.statusAt_addAll_of_mem _ (hperm.nodup_iff.2 (DAG.nodup_ready completed)) h,
    DAG.statusAt_setStatuses, if_pos hk, DAG.statusAt_of_mem_ready hk]
  rfl

theorem statusAt_joined_of_notMem {dag : DAG} {completed : List Uuid} {results : List (JoinResult S)} {k : Nat}
    (hperm : (results.filterMap resultIdx).Perm (dag.ready completed)) (h : k ∉ dag.ready completed) :
    (joined dag completed results).dag.statusAt k = dag.statusAt k := by
  rw [joined, Joining.statusAt_addAll_of_notMem, DAG.statusAt_setStatuses, if_neg h]
  intro x hx
  exact h (hperm.mem_iff.1 (List.mem_filterMap.2 ⟨_, hx, rfl⟩))

/-- After a wave each launched node has the status its result gives it, and every other one its own. -/
theorem statusAt_joined {dag : DAG} {completed : List Uuid} {results : List (JoinResult S)}
    (hperm : (results.filterMap resultIdx).Perm (dag.ready completed)) (k : Nat) :
    (∃ x, .ok (k, x) ∈ results ∧ (joined dag completed results).dag.statusAt k = some (resultStatus x)) ∨
      k ∉ dag.ready completed ∧ (joined dag completed results).dag.statusAt k = dag.statusAt k := by
  by_cases hk : k ∈ dag.ready completed
  · obtain ⟨res, hres, hidx⟩ := List.mem_filterMap.1 (hperm.mem_iff.2 hk)
    rcases res with panic | ⟨idx, x⟩
    · cases hidx
    · cases hidx
      exact Or.inl ⟨x, hres, statusAt_joined_of_mem hperm hres⟩
  · exact Or.inr ⟨hk, statusAt_joined_of_notMem hperm hk⟩

namespace Graph

variable (g : Graph S)

/-- The error a result ends the joining with, if it does. -/
def refuses (j : Joining S) : JoinResult S → Option WaveError
  | .error panic => some (.joinError panic, j.dag)
  | .ok (idx, .ok out) =>
    (exceeded (g.effectiveNodeBudget (j.dag.stepType idx)) out.info.cost).map fun limit =>
      (.budgetExceeded out.info.cost limit, j.dag)
  | .ok (_, .error (.yield _)) => none
  | .ok (idx, .error (.budgetExceeded spentEur limitEur)) =>
    some (.budgetExceeded spentEur limitEur, j.dag.setStatus idx .failed)
  | .ok (idx, .error e) =>
    match g.waveFailurePolicy with
    | .failFast => some (.executionError s!"Node {j.dag.stepType idx} failed: {e.display}", j.dag.setStatus idx .failed)
    | .continueOnError => none

/-- What joining a wave comes to. -/
def joinAll : List (JoinResult S) → Joining S → Except WaveError (Joining S)
  | [], j => .ok j
  | res :: results, j =>
    match g.refuses j res with
    | some e => .error e
    | none => joinAll results (j.add res)

variable {g}

theorem refuses_success (j : Joining S) (idx : Nat) (out : NodeOutput S) :
    g.refuses j (.ok (idx, .ok out)) = (exceeded (g.effectiveNodeBudget (j.dag.stepType idx)) out.info.cost).map
      fun limit => (.budgetExceeded out.info.cost limit, j.dag) := rfl

theorem joinAll_cons_none {res : JoinResult S} {j : Joining S} (h : g.refuses j res = none)
    (results : List (JoinResult S)) : g.joinAll (res :: results) j = g.joinAll results (j.add res) := by
  rw [joinAll, h]

theorem joinAll_cons_some {res : JoinResult S} {j : Joining S} {e : WaveError} (h : g.refuses j res = some e)
    (results : List (JoinResult S)) : g.joinAll (res :: results) j = .error e := by
  rw [joinAll, h]

/-- The joining is broken off at the first result that is refused. -/
theorem joinAll_eq_error {results : List (JoinResult S)} {j : Joining S} {e : WaveError}
    (h : g.joinAll results j = .error e) :
    ∃ pre res post, results = pre ++ res :: post ∧ g.refuses (j.addAll pre) res = some e := by
  induction results generalizing j with
  | nil => cases h
  | cons res results ih =>
    cases hr : g.refuses j res with
    | some e' =>
      rw [joinAll_cons_some hr] at h
      cases h
      exact ⟨[], res, results, rfl, hr⟩
    | none =>
      rw [joinAll_cons_none hr] at h
      obtain ⟨pre, res', post, rfl, hr'⟩ := ih h
      exact ⟨res :: pre, res', post, rfl, hr'⟩

/-- A wave that is joined has no result that is refused. -/
theorem refuses_of_joinAll_ok {results pre post : List (JoinResult S)} {res : JoinResult S} {j j' : Joining S}
    (h : g.joinAll results j = .ok j') (hsplit : results = pre ++ res :: post) :
    g.refuses (j.addAll pre) res = none := by
  induction pre generalizing results j with
  | nil =>
    rw [hsplit, List.nil_append] at h
    cases hr : g.refuses j res with
    | some e =>
      rw [joinAll_cons_some hr] at h
      cases h
    | none => exact hr
  | cons res' pre ih =>
    rw [hsplit, List.cons_append] at h
    cases hr : g.refuses j res' with
    | some e =>
      rw [joinAll_cons_some hr] at h
      cases h
    | none =>
      rw [joinAll_cons_none hr] at h
      exact ih h rfl

/-- What refuses a result leaves the other nodes alone. -/
theorem statusAt_of_refuses {j : Joining S} {res : JoinResult S} {e : TakelnError} {dag : DAG}
    (h : g.refuses j res = some (e, dag)) {k : Nat} (hk : ∀ x, res ≠ .ok (k, x)) :
    dag.statusAt k = j.dag.statusAt k := by
  have hset {idx : Nat} {x : Except GraphError (NodeOutput S)} (hres : res = .ok (idx, x)) :
      (j.dag.setStatus idx .failed).statusAt k = j.dag.statusAt k := by
    rw [DAG.statusAt_setStatus, if_neg]
    rintro rfl
    exact hk x hres
  rcases res with panic | ⟨idx, err | out⟩
  · cases h
    rfl
  · cases err with
    | yield request => cases h
    | budgetExceeded spent limit =>
      cases h
      exact hset rfl
    | _ =>
      simp only [refuses] at h
      split at h
      · cases h
        exact hset rfl
      · cases h
  · obtain ⟨limit, _, heq⟩ := Option.map_eq_some_iff.1 h
    cases heq
    rfl

/-- A wave that is joined takes over every result. -/
theorem joinAll_eq_ok {results : List (JoinResult S)} {j j' : Joining S} (h : g.joinAll results j = .ok j') :
    j' = j.addAll results ∧ ∀ panic, .error panic ∉ results := by
  induction results generalizing j with
  | nil =>
    cases h
    exact ⟨rfl, fun _ => List.not_mem_nil⟩
  | cons res results ih =>
    cases hr : g.refuses j res with
    | some e =>
      rw [joinAll_cons_some hr] at h
      cases h
    | none =>
      rw [joinAll_cons_none hr] at h
      obtain ⟨hj, hpanic⟩ := ih h
      refine ⟨hj, fun panic hmem => ?_⟩
      rcases List.mem_cons.1 hmem with rfl | hmem
      · cases hr
      · exact hpanic panic hmem

end Graph

end Takeln
