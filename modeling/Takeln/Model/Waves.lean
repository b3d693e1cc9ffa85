import Mathlib.Data.List.Sort
import Takeln.Model.Graph

/-!
# The wave engine

`run_dag` and `resume_dag` (`graph.rs`).  A wave launches every ready node of the DAG at once and then joins them; how
each of them ends and in which order is the answer to `joinWave`, and a wave that is left early drops the rest.  The
caller keeps its `&mut DAG` whatever happens, so a failure carries the DAG too.
-/

namespace Takeln

open Effect (Prog)

variable [Money] {S : Type}

/-- A failed wave run: the error and the DAG the caller is left with. -/
abbrev WaveError := TakelnError × DAG

namespace DAG

variable (dag : DAG)

/-- The indices of the nodes that can be launched: `Pending`, with every dependency completed. -/
def ready (completed : List Uuid) : List Nat :=
  (dag.nodes.zipIdx.filter fun (n, _) => decide (n.status = .pending ∧ ∀ dep ∈ n.dependsOn, dep ∈ completed)).map
    Prod.snd

/-- The step types of the nodes with one of the statuses. -/
def namesOf (statuses : List NodeStatus) : List String :=
  (dag.nodes.filter fun n => decide (n.status ∈ statuses)).map DAGNode.stepType

def setStatuses (indices : List Nat) (status : NodeStatus) : DAG :=
  indices.foldl (fun dag idx => dag.setStatus idx status) dag

/-- What a crash recovery policy makes of the `Running` nodes of a restored DAG. -/
def recover (policy : CrashRecoveryPolicy) : DAG :=
  { nodes := dag.nodes.map fun n =>
      if n.status = .running then
        match policy with
        | .resetToPending => { n with status := .pending }
        | .skipAndContinue => { n with status := .done }
        | .failFast => n
      else n }

end DAG

/-- The local variables of the loop of `run_dag`. -/
structure Waves (S : Type) where
  dag : DAG
  state : S
  completed : List Uuid
  runningCostEur : Eur := 0
  isFirstWave : Bool := true
  expectedHead : Option String

/-- The local variables of the loop that joins a wave. -/
structure Joining (S : Type) where
  dag : DAG
  completed : List Uuid
  waveStates : List (Nat × S) := []
  waveCost : Eur := 0
  hasYielded : Bool := false
  waveSucceeded : List String := []
  waveFailed : List (String × String) := []
  latestYieldRequest : Option YieldRequest := none

/-- The context a task hands to its node: neither the last checkpoint nor the budget is tracked in a wave. -/
def WaveTask.context [External] (t : WaveTask S) (attempt : Nat) : NodeContext :=
  NodeContext.new t.threadId t.nodeName attempt none none t.cancellation none

namespace Joining

/-- The task of the node at `idx` returned `out`. -/
def succeed (j : Joining S) (idx : Nat) (out : NodeOutput S) : Joining S :=
  { j with
    dag := j.dag.setStatus idx .done, completed := j.completed ++ (j.dag.nodes[idx]?.map DAGNode.id).toList,
    waveStates := j.waveStates ++ [(idx, out.state)], waveCost := j.waveCost + out.info.cost,
    waveSucceeded := j.waveSucceeded ++ [j.dag.stepType idx] }

/-- The task of the node at `idx` yielded. -/
def yield (j : Joining S) (idx : Nat) (request : YieldRequest) : Joining S :=
  { j with dag := j.dag.setStatus idx .yielded, hasYielded := true, latestYieldRequest := some request }

/-- The task of the node at `idx` failed, and the wave goes on. -/
def fail (j : Joining S) (idx : Nat) (e : GraphError) : Joining S :=
  { j with
    dag := j.dag.setStatus idx .failed, waveFailed := j.waveFailed ++ [(j.dag.stepType idx, e.display)] }

end Joining

/-- Merge the outputs of a wave into the state, in the order of their nodes. -/
def mergeWave [Merge S] (state : S) (waveStates : List (Nat × S)) : S :=
  (waveStates.mergeSort fun a b => decide (a.1 ≤ b.1)).foldl (fun state ws => Merge.merge state ws.2) state

/-- The local variables before the first wave. -/
def Waves.start (dag : DAG) (state : S) (expectedHead : Option String) : Waves S where
  dag := dag
  state := state
  completed := (dag.nodes.filter fun n => decide (n.status = .done)).map DAGNode.id
  expectedHead := expectedHead

/-- The local variables after a wave was merged into `state`, and its checkpoint got the id `id`. -/
def Waves.afterSave (v : Waves S) (j : Joining S) (state : S) (id : String) : Waves S :=
  { v with
    dag := j.dag, state := state, completed := j.completed, runningCostEur := v.runningCostEur + j.waveCost,
    isFirstWave := false, expectedHead := some id }

/-- How a wave ends: go on, leave the loop, or return at once. -/
inductive WaveFlow (S : Type)
  | next (v : Waves S)
  | stop (v : Waves S)
  | yielded (v : Waves S)

namespace Graph

section Loop

variable (g : Graph S)

/-- Join the nodes of a wave in the order in which they end. -/
def joinLoop : List (JoinResult S) → Joining S → Prog (ops S) WaveError (Joining S)
  | [], j => .ret j
  | .error panic :: _, j => .fail (.joinError panic, j.dag)
  | .ok (idx, .ok out) :: results, j => do
    let name := j.dag.stepType idx
    record g.resourceLimits.maxExecutionRecords
      { nodeName := name, status := "success", costEur := out.info.costEur, checkpointId := none, attempts := 0,
        actor := none, responseHash := none, tokensIn := out.info.tokensIn, tokensOut := out.info.tokensOut }
    match exceeded (g.effectiveNodeBudget name) out.info.cost with
    | some limit => .fail (.budgetExceeded out.info.cost limit, j.dag)
    | none => joinLoop results (j.succeed idx out)
  | .ok (idx, .error (.yield request)) :: results, j => joinLoop results (j.yield idx request)
  | .ok (idx, .error (.budgetExceeded spentEur limitEur)) :: _, j =>
    .fail (.budgetExceeded spentEur limitEur, j.dag.setStatus idx .failed)
  | .ok (idx, .error e) :: results, j =>
    match g.waveFailurePolicy with
    | .failFast =>
      .fail (.executionError s!"Node {j.dag.stepType idx} failed: {e.display}", j.dag.setStatus idx .failed)
    | .continueOnError => joinLoop results (j.fail idx e)

variable [State S] [Merge S] (threadId : String) (cancellation : Bool)

/-- The checkpoint `run_dag` writes. -/
def waveSave (v : Waves S) (dag : DAG) (state : S) (nextNode : String) (status : CheckpointStatus)
    (yieldRequest : Option YieldRequest) : SaveArgs S where
  threadId := threadId
  state := state
  nextNode := nextNode
  dag := some dag
  status := status
  yieldRequest := yieldRequest
  claimedInterrupt := none
  resolvedInterrupt := none
  proof := checkpointProof v.expectedHead

/-- After a wave was joined: report its failures, or save its yield, or merge and save it. -/
def afterJoin (v : Waves S) (ready : List Nat) (j : Joining S) : Prog (ops S) WaveError (WaveFlow S) :=
  if j.waveFailed ≠ [] then
    .fail (.partialWaveFailure j.waveSucceeded j.waveFailed, j.dag)
  else if j.hasYielded then do
    let nextPending := ",".intercalate (j.dag.namesOf [.yielded, .pending])
    let _ ← (g.saveChecked (waveSave threadId v j.dag v.state nextPending .yielded j.latestYieldRequest)).mapError
      (·, j.dag)
    return .yielded { v with dag := j.dag }
  else
    let state := mergeWave v.state j.waveStates
    match exceeded g.budgetEur (v.runningCostEur + j.waveCost) with
    | some limit => .fail (.budgetExceeded (v.runningCostEur + j.waveCost) limit, j.dag)
    | none => do
      let nextPending := (j.dag.namesOf [.pending]).head?.getD "__END__"
      let id ← (g.saveChecked (waveSave threadId v j.dag state nextPending .complete none)).mapError (·, j.dag)
      return if ∃ idx ∈ ready, j.dag.stepType idx ∈ g.interruptAfter then .stop (v.afterSave j state id)
        else .next (v.afterSave j state id)

/-- Launch the ready nodes and join them.  If a name is unknown, what was launched before it is dropped. -/
def launch (v : Waves S) (ready : List Nat) : Prog (ops S) WaveError (WaveFlow S) :=
  let dag := v.dag.setStatuses ready .running
  match ready.find? fun idx => ¬ g.registered (dag.stepType idx) with
  | some idx => .fail (.nodeNotFound (dag.stepType idx), dag)
  | none => do
    let results ← joinWave
      (ready.map fun idx => ⟨idx, threadId, dag.stepType idx, v.state, cancellation⟩)
    let j ← g.joinLoop results { dag := dag, completed := v.completed }
    g.afterJoin threadId v ready j

/-- One round of the loop of `run_dag`. -/
def waveBody (v : Waves S) : Prog (ops S) WaveError (WaveFlow S) :=
  let ready := v.dag.ready v.completed
  if ready = [] then
    if v.dag.namesOf [.pending] ≠ [] then
      .fail (.dagDeadlock (", ".intercalate (v.dag.namesOf [.pending])), v.dag)
    else .ret (.stop v)
  else if v.isFirstWave = false ∧ ∃ idx ∈ ready, v.dag.stepType idx ∈ g.interruptBefore then do
    let nextPending := ",".intercalate (ready.map v.dag.stepType)
    let _ ← (g.saveChecked (waveSave threadId v v.dag v.state nextPending .interrupted none)).mapError (·, v.dag)
    return .stop v
  else g.launch threadId cancellation v ready

/-- The loop.  Every wave launches a `Pending` node, so there are at most `remaining` waves left. -/
def runWaves : Nat → Waves S → Prog (ops S) WaveError (S × DAG)
  | 0, v => .fail (.dagDeadlock "", v.dag)
  | remaining + 1, v => do
    match ← g.waveBody threadId cancellation v with
    | .next v => runWaves remaining v
    | .stop v => do
      emit (.graphFinished threadId v.runningCostEur)
      return (v.state, v.dag)
    | .yielded v => return (v.state, v.dag)

end Loop

section Callers

variable [State S] [Merge S] (g : Graph S) (threadId : String) (cancellation : Bool)

/-- Execute a DAG in parallel waves. -/
def runDag (dag : DAG) (state : S) (depth : Nat) : Prog (ops S) WaveError (S × DAG) :=
  let maxDepthGlobal := 8
  if maxDepthGlobal < depth then .fail (.recursionLimitExceeded depth maxDepthGlobal, dag)
  else if g.resourceLimits.maxDagNodes < dag.nodes.length then
    .fail (.executionError
      s!"DAG has {dag.nodes.length} nodes, exceeding max_dag_nodes limit of {g.resourceLimits.maxDagNodes}", dag)
  else do
    let expectedHead ← (currentHead threadId).mapError (·, dag)
    g.runWaves threadId cancellation (dag.nodes.length + 1) (.start dag state expectedHead)

/-- Resume the execution of a DAG from the last checkpoint of its thread. -/
def resumeDag (dag : DAG) (depth : Nat) : Prog (ops S) WaveError (Option S × DAG) := do
  match ← (loadState threadId).mapError (·, dag) with
  | some ⟨state, info, some savedDag⟩ =>
    if info.status = .running ∧ g.crashRecoveryPolicy = .failFast then
      .fail (.executionError
        s!"DAG checkpoint for thread '{threadId}' has Running status (crash detected). FailFast policy applied.", dag)
    else do
      let restored := dag.restoreStatuses savedDag
      let recovered := if info.status = .running then restored.recover g.crashRecoveryPolicy else restored
      let (final, dag) ← g.runDag threadId cancellation recovered state depth
      return (some final, dag)
  | _ => return (none, dag)

end Callers

end Graph

end Takeln
