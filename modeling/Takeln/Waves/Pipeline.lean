import Takeln.Arithmetic.Binary64
import Takeln.Sequential.Pipeline
import Takeln.Waves.Path

/-!
# Pipelines as waves

A DAG in which each node depends on the one before is executed one node a wave.  Where merging what a node returns into
the state it was given comes to what it returns, `run_dag` executes and saves of it what the sequential engine executes
and saves of the same names (`engines_agree`): the same nodes, the same checkpoints, the same result, with all gates,
budgets and failures.
-/

namespace Takeln

open Effect Effect.Prog

variable {S : Type} {newId : Nat → Uuid} {names : List String} {k : Nat}

/-! ### The DAG of a pipeline -/

namespace DAG

/-- `DAG::add_node`; the id is a fresh UUID. -/
def addNode (dag : DAG) (id : Uuid) (stepType : String) (dependsOn : List Uuid) : DAG where
  nodes := dag.nodes ++ [⟨id, stepType, dependsOn, .pending⟩]

/-- The dependencies of the `i`-th node of a pipeline. -/
def previous (newId : Nat → Uuid) (i : Nat) : List Uuid := if i = 0 then [] else [newId (i - 1)]

/-- A node is added for each name, which depends on the node before. -/
def pipeline (newId : Nat → Uuid) (names : List String) : DAG :=
  names.zipIdx.foldl (fun dag p => dag.addNode (newId p.2) p.1 (previous newId p.2)) ⟨[]⟩

/-- The pipeline when `k` nodes are `Done`. -/
def stage (newId : Nat → Uuid) (names : List String) (k : Nat) : DAG where
  nodes := names.zipIdx.map fun p =>
    ⟨newId p.2, p.1, previous newId p.2, if p.2 < k then .done else .pending⟩

theorem pipeline_eq (newId : Nat → Uuid) (names : List String) : pipeline newId names = stage newId names 0 := by
  have hadd : ∀ (l : List (String × Nat)) (dag : DAG),
      (l.foldl (fun dag p => dag.addNode (newId p.2) p.1 (previous newId p.2)) dag).nodes =
        dag.nodes ++ l.map fun p => ⟨newId p.2, p.1, previous newId p.2, .pending⟩ := by
    intro l
    induction l with
    | nil => simp
    | cons p l ih =>
      intro dag
      rw [List.foldl_cons, ih, addNode, List.map_cons, List.append_assoc]
      rfl
  have hnodes := hadd names.zipIdx ⟨[]⟩
  unfold pipeline stage
  generalize List.foldl _ _ _ = dag at hnodes
  obtain ⟨nodes⟩ := dag
  simpa using hnodes

theorem getElem?_stage (i : Nat) : (stage newId names k).nodes[i]? =
    names[i]?.map fun name => ⟨newId i, name, previous newId i, if i < k then .done else .pending⟩ := by
  simp [stage, List.getElem?_map, List.getElem?_zipIdx, Option.map_map, Function.comp_def]

theorem length_stage : (stage newId names k).nodes.length = names.length := by simp [stage]

theorem statusAt_stage (i : Nat) : (stage newId names k).statusAt i =
    if i < names.length then some (if i < k then .done else .pending) else none := by
  unfold statusAt
  rw [getElem?_stage]
  by_cases hi : i < names.length <;> simp [hi]

theorem stepType_stage {name : String} (h : names[k]? = some name) (i : Nat) :
    (stage newId names i).stepType k = name := by
  simp [stepType, getElem?_stage, h]

/-- A node is enabled by the node before it. -/
theorem mem_enabled_stage (hfresh : Function.Injective newId) {s : Set Nat} {i : Nat} :
    i ∈ (stage newId names k).enabled s ↔ i < names.length ∧ (i = 0 ∨ i - 1 ∈ s) := by
  have hid : ∀ j id, (stage newId names k).idAt j = some id ↔ j < names.length ∧ newId j = id := by
    intro j id
    unfold idAt
    rw [getElem?_stage]
    by_cases hj : j < names.length <;> simp [hj]
  change (∃ n : DAGNode, (stage newId names k).nodes[i]? = some n ∧
    ∀ dep ∈ n.dependsOn, ∃ j ∈ s, (stage newId names k).idAt j = some dep) ↔ _
  rw [getElem?_stage]
  by_cases hi : i < names.length
  · simp only [List.getElem?_eq_getElem hi, Option.map_some, Option.some.injEq, exists_eq_left', hid, hi, true_and]
    unfold previous
    by_cases h0 : i = 0
    · simp [h0]
    · simp only [h0, if_false, List.mem_singleton, forall_eq, false_or]
      constructor
      · rintro ⟨j, hj, -, heq⟩
        rwa [hfresh heq] at hj
      · exact fun h => ⟨i - 1, h, by omega, rfl⟩
  · simp [hi]

/-- The next wave of a pipeline is its first node that is not done. -/
theorem wave_stage (hfresh : Function.Injective newId) (hk : k < names.length) :
    (stage newId names k).wave = [k] := by
  have hdone : ∀ j, j ∈ (stage newId names k).done ↔ j < names.length ∧ j < k := by
    intro j
    change statusAt _ j = some .done ↔ _
    rw [statusAt_stage]
    by_cases hj : j < names.length <;> by_cases hjk : j < k <;> simp [hj, hjk]
  have hmem : ∀ i, i ∈ (stage newId names k).wave ↔ i ∈ [k] := by
    intro i
    rw [mem_wave, statusAt_stage, mem_enabled_stage hfresh, hdone, List.mem_singleton]
    by_cases hi : i < names.length <;> by_cases hik : i < k <;> simp [hi, hik] <;> omega
  exact (List.perm_singleton).1 ((List.perm_ext_iff_of_nodup (nodup_wave _) (List.nodup_singleton k)).2 hmem)

theorem wave_stage_length : (stage newId names names.length).wave = [] := by
  refine List.eq_nil_iff_forall_not_mem.2 fun i hi => ?_
  have hpending := statusAt_of_mem_wave hi
  rw [statusAt_stage] at hpending
  by_cases hlt : i < names.length <;> simp [hlt] at hpending

theorem advance_stage (hfresh : Function.Injective newId) (hk : k < names.length) :
    (stage newId names k).advance = stage newId names (k + 1) := by
  refine eq_of_shape ?_ fun i => ?_
  · rw [shape_advance]
    simp [shape, stage, List.map_map, Function.comp_def]
  · simp only [statusAt_advance, statusAt_stage, wave_stage hfresh hk, List.mem_singleton]
    by_cases hi : i = k
    · simp [hi, hk]
    · have hlt : i < k + 1 ↔ i < k := by omega
      simp [hi, hlt]

/-- The names of the nodes that are not done. -/
theorem namesOf_stage : (stage newId names k).namesOf [.pending] = names.drop k := by
  have hdrop : ∀ (l : List String) (i : Nat),
      ((l.zipIdx i).filter fun p => decide (k ≤ p.2)).map Prod.fst = l.drop (k - i) := by
    intro l
    induction l with
    | nil => simp
    | cons name l ih =>
      intro i
      rw [List.zipIdx_cons, List.filter_cons]
      by_cases hi : k ≤ i
      · rw [if_pos (decide_eq_true hi), List.map_cons, ih, Nat.sub_eq_zero_of_le hi,
          Nat.sub_eq_zero_of_le (Nat.le_succ_of_le hi)]
        rfl
      · obtain ⟨d, hd⟩ : ∃ d, k - i = d + 1 := ⟨k - i - 1, by omega⟩
        rw [if_neg (by simpa using hi), ih, hd, List.drop_succ_cons]
        congr 1
        omega
  have hpending : ∀ p : String × Nat, decide ((if p.2 < k then NodeStatus.done else .pending) ∈ [NodeStatus.pending]) =
      decide (k ≤ p.2) := by
    intro p
    by_cases hp : p.2 < k
    · simp [hp]
    · simp [hp, Nat.not_lt.1 hp]
  unfold namesOf stage
  rw [List.filter_map, List.map_map]
  have h0 := hdrop names 0
  rw [Nat.sub_zero] at h0
  rw [← h0]
  simp only [Function.comp_def, hpending]

end DAG

/-! ### Rounds of a pipeline -/

/-- Merging what a node returns into the state it was given comes to what it returns. -/
def Absorbs [Merge S] (node : String → S → NodeOutput S) : Prop :=
  ∀ name s, Merge.merge s (node name s).state = (node name s).state

/-- The names of the nodes that are executed in waves, in order. -/
def waveNames (tr : List (Event (ops S))) : List String :=
  (waves tr).flatMap fun wave => wave.tasks.map WaveTask.nodeName

@[simp] theorem waveNames_append (tr tr' : List (Event (ops S))) :
    waveNames (tr ++ tr') = waveNames tr ++ waveNames tr' := by
  simp [waveNames]

theorem waveNames_of_waves_nil {tr : List (Event (ops S))} (h : waves tr = []) : waveNames tr = [] := by
  rw [waveNames, h]
  rfl

variable {env : Env S} {g : Graph S} {threadId : String} {cancellation : Bool} {node : String → S → NodeOutput S}
  {v : Waves S} {w : World} {name : String}

/-- The loop has come to the `k`-th node of a pipeline, or to its end. -/
structure AtStage (newId : Nat → Uuid) (names : List String) (k : Nat) (v : Waves S) : Prop where
  dag : v.dag = .stage newId names k
  synced : v.Synced
  spent : v.runningCostEur ≠ -0

namespace AtStage

variable (h : AtStage newId names k v)
include h

theorem ready_nil (hk : k = names.length) : v.dag.ready v.completed = [] := by
  rw [h.synced.ready_eq, h.dag, hk, DAG.wave_stage_length]

theorem namesOf : v.dag.namesOf [.pending] = names.drop k := by rw [h.dag, DAG.namesOf_stage]

variable (hfresh : Function.Injective newId) (hname : names[k]? = some name)
include hname

theorem stepType : v.dag.stepType k = name := by rw [h.dag, DAG.stepType_stage hname]

include hfresh

theorem ready_eq : v.dag.ready v.completed = [k] := by
  rw [h.synced.ready_eq, h.dag, DAG.wave_stage hfresh (List.getElem?_eq_some_iff.1 hname).1]

theorem advance_eq : v.dag.advance = .stage newId names (k + 1) := by
  rw [h.dag, DAG.advance_stage hfresh (List.getElem?_eq_some_iff.1 hname).1]

theorem tasks_eq : v.tasks threadId cancellation = [⟨k, threadId, name, v.state, cancellation⟩] := by
  rw [Waves.tasks, h.ready_eq hfresh hname, List.map_singleton, h.stepType hname]

theorem waveGated_iff : g.WaveGated v ↔ v.isFirstWave = false ∧ name ∈ g.interruptBefore := by
  unfold Graph.WaveGated
  simp only [h.ready_eq hfresh hname, List.mem_singleton, exists_eq_left, h.stepType hname]

theorem waveNames_eq {n : Nat} {tr : List (Event (ops S))}
    (hwaves : waves tr = [v.wave threadId cancellation env n]) : waveNames tr = [name] := by
  rw [waveNames, hwaves, List.flatMap_singleton, Waves.wave, h.tasks_eq hfresh hname]
  rfl

variable (g threadId cancellation) in
/-- The wave is joined, unless its node exceeds its budget. -/
theorem joining_cases [Merge S] (hsucc : env.WaveSucceeds node) (n : Nat) :
    (∃ j, g.joining env threadId cancellation v n = .ok j ∧
        exceeded (g.effectiveNodeBudget name) (node name v.state).info.cost = none) ∨
      ∃ limit dag, exceeded (g.effectiveNodeBudget name) (node name v.state).info.cost = some limit ∧
        g.joining env threadId cancellation v n =
          .error (.budgetExceeded (node name v.state).info.cost limit, dag) := by
  have hcases := joining_of_allSucceed g threadId cancellation (hsucc n) v
  unfold Graph.NodesAfford at hcases
  simp only [h.tasks_eq hfresh hname, List.mem_singleton, forall_eq, exists_eq_left] at hcases
  rcases hcases with ⟨⟨j, hj⟩, hafford⟩ | ⟨limit, dag, hlimit, herr⟩
  · exact Or.inl ⟨j, hj, hafford⟩
  · exact Or.inr ⟨limit, dag, hlimit, herr⟩

/-- What a wave that is joined comes to: adding its sum up from `0` changes nothing. -/
theorem of_joining [Merge S] (hsucc : env.WaveSucceeds node) (habsorbs : Absorbs node) {n : Nat} {j : Joining S}
    (hjoin : g.joining env threadId cancellation v n = .ok j) :
    j.dag = .stage newId names (k + 1) ∧ mergeWave v.state j.waveStates = (node name v.state).state ∧
      v.runningCostEur + j.waveCost = v.runningCostEur + (node name v.state).info.cost := by
  have hj := advanced_of_joining (hsucc n) h.synced hjoin
  refine ⟨hj.dag.trans (h.advance_eq hfresh hname), ?_, ?_⟩
  · rw [hj.state, Waves.merged, Waves.outputs, h.tasks_eq hfresh hname]
    have hsort : ([(k, (node name v.state).state)].mergeSort fun a b => decide (a.1 ≤ b.1)) =
        [(k, (node name v.state).state)] := List.mergeSort_singleton _
    change List.foldl _ v.state ([(k, (node name v.state).state)].mergeSort fun a b => decide (a.1 ≤ b.1)) = _
    rw [hsort]
    exact habsorbs name v.state
  · have horder : (env.order n [⟨k, threadId, name, v.state, cancellation⟩]).1 =
        [⟨k, threadId, name, v.state, cancellation⟩] :=
      List.perm_singleton.1 (env.order n [⟨k, threadId, name, v.state, cancellation⟩]).2
    rw [hj.cost, Waves.cost, h.tasks_eq hfresh hname, horder]
    exact Binary64.add_zero_add h.spent _

end AtStage

/-! ### The wave engine -/

section Run

variable [State S] [Merge S]

/-- What a run returns to its caller, without the DAG. -/
def waveResult (u : Run (ops S) WaveError (S × DAG) World) : Except TakelnError S :=
  (u.result.map Prod.fst).mapError Prod.fst

/-- What a round at the `k`-th node of a pipeline can do. -/
inductive StageRound (g : Graph S) (node : String → S → NodeOutput S) (newId : Nat → Uuid) (names : List String)
    (k : Nat) (v : Waves S) (u : Run (ops S) WaveError (WaveFlow S) World) : Prop
  | failed (e : WaveError) (hres : u.result = .error e)
      (hrealises : Realises (g.pipe node (names.drop k) v.isFirstWave v.runningCostEur v.state) (.error e.1)
        (waveNames u.trace) (writes u.trace))
  | stopped (v' : Waves S) (hres : u.result = .ok (.stop v'))
      (hrealises : Realises (g.pipe node (names.drop k) v.isFirstWave v.runningCostEur v.state) (.ok v'.state)
        (waveNames u.trace) (writes u.trace))
  | next (v' : Waves S) (name : String) (args : SaveArgs S) (hk : k < names.length) (hres : u.result = .ok (.next v'))
      (hstage : AtStage newId names (k + 1) v')
      (hpipe : g.pipe node (names.drop k) v.isFirstWave v.runningCostEur v.state =
        (g.pipe node (names.drop (k + 1)) v'.isFirstWave v'.runningCostEur v'.state).after name
          (args.state, args.nextNode, args.status))
      (hnames : waveNames u.trace = [name]) (hwrites : writes u.trace = [args])

section Round

variable {u : Run (ops S) WaveError (WaveFlow S) World}

/-- At the end of a pipeline nothing is ready, and nothing is pending. -/
theorem stageRound_of_end (h : AtStage newId names names.length v)
    (hu : WaveRound env g threadId cancellation v w u) : StageRound g node newId names names.length v u := by
  have hready := h.ready_nil rfl
  have hpending : v.dag.namesOf [.pending] = [] := by rw [h.namesOf, List.drop_length]
  cases hu with
  | ended _ _ hres hq hwaves =>
    refine .stopped v hres ?_
    rw [List.drop_length]
    exact ⟨rfl, waveNames_of_waves_nil hwaves, congrArg _ hq.writes⟩
  | deadlocked _ hne => exact absurd hpending hne
  | gated _ _ hne => exact absurd hready hne
  | gateFailed _ hgate =>
    obtain ⟨_, idx, hidx, _⟩ := hgate
    rw [hready] at hidx
    cases hidx
  | unregistered _ _ hfind =>
    rw [hready] at hfind
    cases hfind
  | brokenOff _ hlaunch => exact absurd hready hlaunch.1
  | failed _ hlaunch => exact absurd hready hlaunch.1
  | yielded _ _ _ hlaunch => exact absurd hready hlaunch.1
  | yieldFailed _ _ hlaunch => exact absurd hready hlaunch.1
  | completed _ _ _ hlaunch => exact absurd hready hlaunch.1
  | completeFailed _ _ hlaunch => exact absurd hready hlaunch.1

variable (hfresh : Function.Injective newId)
include hfresh

/-- What refuses the output of the node of a wave that was joined. -/
theorem refusal_of_joining (h : AtStage newId names k v) (hname : names[k]? = some name) (hsucc : env.WaveSucceeds node)
    {n : Nat} {j : Joining S} (hjoin : g.joining env threadId cancellation v n = .ok j) :
    g.refusal name v.runningCostEur (node name v.state) =
      match exceeded g.budgetEur (v.runningCostEur + (node name v.state).info.cost) with
      | some limit => some (.budgetExceeded (v.runningCostEur + (node name v.state).info.cost) limit)
      | none => g.saveError (node name v.state).state := by
  rcases h.joining_cases g threadId cancellation hfresh hname hsucc n with ⟨_, _, hnode⟩ | ⟨_, _, _, herr⟩
  · exact Graph.refusal_eq hnode _
  · cases herr.symm.trans hjoin

/-- Before the end of a pipeline the wave is its next node. -/
theorem stageRound_of_lt (hsucc : env.WaveSucceeds node) (habsorbs : Absorbs node) (h : AtStage newId names k v)
    (hname : names[k]? = some name) (hu : WaveRound env g threadId cancellation v w u) :
    StageRound g node newId names k v u := by
  have hready := h.ready_eq hfresh hname
  have hgated := h.waveGated_iff (g := g) hfresh hname
  have hregs : (∀ idx ∈ v.dag.ready v.completed, g.registered (v.dag.stepType idx)) ↔ g.registered name := by
    rw [hready, List.forall_mem_singleton, h.stepType hname]
  obtain ⟨hlt, hget⟩ := List.getElem?_eq_some_iff.1 hname
  have hdrop : names.drop k = name :: names.drop (k + 1) := by rw [← hget, List.drop_eq_getElem_cons hlt]
  cases hu with
  | ended hnil => cases hready.symm.trans hnil
  | deadlocked hnil => cases hready.symm.trans hnil
  | gateFailed e hgate herr hres hq hwaves =>
    refine .failed _ hres ?_
    rw [hdrop, Graph.pipe_gated (hgated.1 hgate), herr]
    exact ⟨rfl, waveNames_of_waves_nil hwaves, congrArg _ hq.writes⟩
  | gated val id _ hgate hval hres hsaves hwaves =>
    refine .stopped v hres ?_
    rw [hdrop, Graph.pipe_gated (hgated.1 hgate), Graph.saveError_of_savable hval, hsaves.writes, hready,
      List.map_singleton, h.stepType hname]
    exact ⟨rfl, waveNames_of_waves_nil hwaves, rfl⟩
  | unregistered idx hgate hfind hres hq hwaves =>
    have hidx : idx = k := by simpa [hready] using List.mem_of_find?_eq_some hfind
    have hreg : ¬ g.registered name := by simpa [hidx, h.stepType hname] using List.find?_some hfind
    refine .failed _ hres ?_
    rw [hdrop, Graph.pipe_unregistered (mt hgated.2 hgate) hreg, hidx, h.stepType hname]
    exact ⟨rfl, waveNames_of_waves_nil hwaves, congrArg _ hq.writes⟩
  | brokenOff e hlaunch hjoin hres hq hwaves =>
    -- only the budget of the node breaks the joining off
    rcases h.joining_cases g threadId cancellation hfresh hname hsucc w.waves with
      ⟨j, hj, _⟩ | ⟨limit, dag, hlimit, herr⟩
    · cases hj.symm.trans hjoin
    cases herr.symm.trans hjoin
    have hrefusal : g.refusal name v.runningCostEur (node name v.state) =
        some (.budgetExceeded (node name v.state).info.cost limit) := by
      unfold Graph.refusal
      rw [hlimit]
    refine .failed _ hres ?_
    rw [hdrop, Graph.pipe_refused (mt hgated.2 hlaunch.2.1) (hregs.1 hlaunch.2.2) hrefusal]
    exact ⟨rfl, h.waveNames_eq hfresh hname hwaves, congrArg _ hq.writes⟩
  | failed j hlaunch hjoin hfailed =>
    exact absurd (advanced_of_joining (hsucc w.waves) h.synced hjoin).waveFailed hfailed
  | yielded j val id hlaunch hjoin _ hyield =>
    cases (advanced_of_joining (hsucc w.waves) h.synced hjoin).hasYielded.symm.trans hyield
  | yieldFailed j e hlaunch hjoin _ hyield =>
    cases (advanced_of_joining (hsucc w.waves) h.synced hjoin).hasYielded.symm.trans hyield
  | completed j val id hlaunch hjoin _ _ haff hval hres hsaves hwaves =>
    obtain ⟨hdag, hstate, hcost⟩ := h.of_joining hfresh hname hsucc habsorbs hjoin
    rw [hcost] at haff
    rw [hstate] at hval hres hsaves
    have hrefusal : g.refusal name v.runningCostEur (node name v.state) = none := by
      rw [refusal_of_joining hfresh h hname hsucc hjoin, haff]
      exact Graph.saveError_of_savable hval
    have hsaved := hsaves.writes
    rw [hdag, DAG.namesOf_stage] at hsaved
    have hpipe := hdrop ▸ Graph.pipe_saved (mt hgated.2 hlaunch.2.1) (hregs.1 hlaunch.2.2) hrefusal
    have hafter : (∃ idx ∈ v.dag.ready v.completed, v.dag.stepType idx ∈ g.interruptAfter) ↔
        name ∈ g.interruptAfter := by
      simp only [hready, List.mem_singleton, exists_eq_left, h.stepType hname]
    by_cases hmem : name ∈ g.interruptAfter
    · rw [if_pos (hafter.2 hmem)] at hres
      rw [if_pos hmem] at hpipe
      refine .stopped _ hres ?_
      rw [hpipe, hsaved]
      exact ⟨rfl, h.waveNames_eq hfresh hname hwaves, rfl⟩
    · rw [if_neg (mt hafter.1 hmem)] at hres
      rw [if_neg hmem, ← hcost] at hpipe
      refine .next _ name _ hlt hres ⟨hdag, mem_completed_of_joining hjoin h.synced, ?_⟩ ?_
        (h.waveNames_eq hfresh hname hwaves) hsaved
      · exact Binary64.add_ne_neg_zero h.spent _
      · exact hpipe
  | completeFailed j e hlaunch hjoin _ _ hno hres hq hwaves =>
    obtain ⟨hdag, hstate, hcost⟩ := h.of_joining hfresh hname hsucc habsorbs hjoin
    rw [hcost, hstate] at hno
    have hrefusal : g.refusal name v.runningCostEur (node name v.state) = some e := by
      rw [refusal_of_joining hfresh h hname hsucc hjoin]
      rcases hno with ⟨limit, hlimit, rfl⟩ | ⟨haff, herr⟩
      · rw [hlimit]
      · rw [haff]
        exact herr
    refine .failed _ hres ?_
    rw [hdrop, Graph.pipe_refused (mt hgated.2 hlaunch.2.1) (hregs.1 hlaunch.2.2) hrefusal]
    exact ⟨rfl, h.waveNames_eq hfresh hname hwaves, congrArg _ hq.writes⟩

end Round

/-- The loop executes the names from a stage on as a pipeline. -/
theorem exec_runWaves_pipe (hsucc : env.WaveSucceeds node) (habsorbs : Absorbs node)
    (hrecords : 0 < g.resourceLimits.maxExecutionRecords) (hfresh : Function.Injective newId) {n : Nat}
    (h : AtStage newId names k v) (hk : k ≤ names.length) (hn : names.length < k + n) (w : World) :
    ∃ u, exec (memory env) (g.runWaves threadId cancellation n v) w = some u ∧
      Realises (g.pipe node (names.drop k) v.isFirstWave v.runningCostEur v.state) (waveResult u)
        (waveNames u.trace) (writes u.trace) := by
  induction n generalizing k v w with
  | zero => omega
  | succ n ih =>
    obtain ⟨⟨x, w₁, t₁⟩, hbody⟩ := exec_waveBody_isSome env g threadId cancellation hrecords v w
    have hround : StageRound g node newId names k v ⟨x, w₁, t₁⟩ := by
      rcases Nat.eq_or_lt_of_le hk with rfl | hlt
      · exact stageRound_of_end h (waveRound_of_exec hbody)
      · exact stageRound_of_lt hfresh hsucc habsorbs h (List.getElem?_eq_getElem hlt) (waveRound_of_exec hbody)
    cases hround with
    | failed e hres hrealises =>
      cases hres
      exact ⟨_, exec_runWaves_fail hbody, hrealises⟩
    | stopped v' hres hrealises =>
      cases hres
      obtain ⟨tr, hu, hwrites, hwaves⟩ := exec_runWaves_stop (k := n) hbody
      refine ⟨_, hu, hrealises.result, ?_, ?_⟩
      · rw [waveNames_append, hrealises.executed, waveNames_of_waves_nil hwaves]
        exact List.append_nil _
      · rw [writes_append, hwrites, List.append_nil, hrealises.saved]
    | next v' name args hlt hres hstage hpipe hnames hwrites =>
      cases hres
      obtain ⟨u, hu, hrealises⟩ := ih hstage hlt (by omega) w₁
      rw [exec_runWaves_next hbody, hpipe]
      refine ⟨u.after t₁, congrArg (Option.map (Run.after t₁)) hu, hrealises.result, ?_, ?_⟩
      · rw [trace_after, waveNames_append, hrealises.executed]
        exact congrArg (· ++ _) hnames
      · rw [trace_after, writes_append, List.map_append, hrealises.saved]
        exact congrArg (fun l => List.map _ l ++ _) hwrites

/-- `run_dag` executes a pipeline. -/
theorem exec_runDag_pipe (hsucc : env.WaveSucceeds node) (habsorbs : Absorbs node)
    (hrecords : 0 < g.resourceLimits.maxExecutionRecords) (hfresh : Function.Injective newId) (names : List String)
    (hsize : names.length ≤ g.resourceLimits.maxDagNodes) {depth : Nat} (hdepth : depth ≤ 8) (state : S) (w : World) :
    ∃ u, exec (memory env) (g.runDag threadId cancellation (.pipeline newId names) state depth) w = some u ∧
      Realises (g.pipe node names true 0 state) (waveResult u) (waveNames u.trace) (writes u.trace) := by
  have hstart : AtStage newId names 0 (.start (.stage newId names 0) state none) :=
    ⟨rfl, Waves.synced_start _ _ _, Binary64.zero_ne_neg_zero⟩
  obtain ⟨u, hu, hrealises⟩ := exec_runWaves_pipe hsucc habsorbs hrecords hfresh hstart (Nat.zero_le _)
    (by omega : names.length < 0 + (names.length + 1)) w
  rw [← DAG.length_stage] at hsize hu
  rw [DAG.pipeline_eq]
  exact ⟨_, exec_runDag hdepth hsize hu, hrealises.result, hrealises.executed, hrealises.saved⟩

/-- The two engines agree on pipelines: where nodes succeed, depend only on the state and return what the state can be
merged into, `run` from the first of the names that the edges lead to and `run_dag` on a pipeline of these names return
the same, execute the same nodes, and save the same states under the same next nodes and statuses. -/
theorem engines_agree {env' : Env S} {threadId' : String} {cancellation' : Bool} {w' : World} [External]
    (hsucc : env.Succeeds node) (hsucc' : env'.WaveSucceeds node) (habsorbs : Absorbs node)
    (hrecords : 0 < g.resourceLimits.maxExecutionRecords) (hfresh : Function.Injective newId) {state : S}
    {startNode : String} (hnames : g.Unrolls node state startNode names)
    (hsteps : names.length < g.resourceLimits.maxSequentialSteps)
    (hsize : names.length ≤ g.resourceLimits.maxDagNodes) {depth : Nat} (hdepth : depth ≤ 8) :
    ∃ u u', exec (memory env) (g.run threadId cancellation state startNode) w = some u ∧
      exec (memory env') (g.runDag threadId' cancellation' (.pipeline newId names) state depth) w' = some u' ∧
      Realises (g.pipe node names true 0 state) u.result (executions u.trace) (writes u.trace) ∧
      Realises (g.pipe node names true 0 state) (waveResult u') (waveNames u'.trace) (writes u'.trace) := by
  obtain ⟨u, hu, hrealises⟩ := exec_run_pipe hsucc hrecords hnames hsteps w
  obtain ⟨u', hu', hrealises'⟩ := exec_runDag_pipe hsucc' habsorbs hrecords hfresh names hsize hdepth state w'
  exact ⟨u, u', hu, hu', hrealises, hrealises'⟩

end Run

section Examples

attribute [local instance] shortRuns

/-- `A` leads to `B`, which is stopped before. -/
def stoppedBeforeB : Graph Bool where
  nodes := ["A", "B"]
  edges name := if name = "A" then some (.unconditional "B") else none
  interruptBefore := ["B"]

/-- Every node raises the flag. -/
def raise (_ : String) (_ : Bool) : NodeOutput Bool := { state := true }

theorem engines_agree_stoppedBeforeB :
    stoppedBeforeB.pipe raise ["A", "B"] true 0 false =
        { result := .ok true, executed := ["A"], saved := [(true, "B", .complete), (true, "B", .interrupted)] } ∧
      ∃ u u', exec (memory raising) (stoppedBeforeB.run "t" false false "A") World.empty = some u ∧
        exec (memory raising) (stoppedBeforeB.runDag "d" false (.pipeline id ["A", "B"]) false 0) World.empty =
          some u' ∧
        Realises (stoppedBeforeB.pipe raise ["A", "B"] true 0 false) u.result (executions u.trace) (writes u.trace) ∧
        Realises (stoppedBeforeB.pipe raise ["A", "B"] true 0 false) (waveResult u') (waveNames u'.trace)
          (writes u'.trace) := by
  have hnames : stoppedBeforeB.Unrolls raise false "A" ["A", "B"] :=
    .step (by decide) (.step (by decide) (.ended true))
  exact ⟨rfl, engines_agree (fun _ _ _ _ _ => rfl) (fun _ _ => rfl) (fun _ _ => rfl) (by decide) Function.injective_id
    hnames (by decide) (by decide) (by decide)⟩

end Examples

end Takeln
