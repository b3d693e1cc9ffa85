import Takeln.Model.Graph

/-!
# The sequential engine

`run_inner` with its node loop, and its callers `run`, `resume_with`, `resume` and `resume_with_input`
(`graph.rs`).  A failure of `run_inner` carries the value its out-parameter `last_head` has then.
-/

namespace Takeln

open Effect (Prog)

variable [Money] {S E : Type}

/-- The local variables of the loop of `run_inner`. -/
structure Loop (S : Type) where
  state : S
  currentNodeName : String
  runningCostEur : Eur := 0
  isFirstStep : Bool := true
  lastCheckpointId : Option String := none
  totalCost : Eur := 0
  pendingResumedInput : Option Value
  expectedHead : Option String
  lastHead : Option (Option String)

/-- The local variables before the first round. -/
def Loop.start (state : S) (startNode : String) (resumedInput : Option Value) (expectedHead : Option String) :
    Loop S where
  state := state
  currentNodeName := startNode
  pendingResumedInput := resumedInput
  expectedHead := expectedHead
  lastHead := some expectedHead

/-- The local variables after the current node returned `out` and its checkpoint got the id `id`. -/
def Loop.afterSave (v : Loop S) (out : NodeOutput S) (id : String) : Loop S :=
  { v with
    state := out.state, runningCostEur := v.runningCostEur + out.info.cost,
    totalCost := v.runningCostEur + out.info.cost, isFirstStep := false, pendingResumedInput := none,
    expectedHead := some id, lastHead := some (some id), lastCheckpointId := some id }

/-- How a round of the loop ends: go on with the next node, or `break`. -/
inductive Flow (S : Type)
  | next (v : Loop S)
  | stop (v : Loop S)

/-- A failed run: the error and `last_head`. -/
abbrev RunError := TakelnError × Option (Option String)

namespace Graph

section Loop

variable [External] (g : Graph S) (threadId : String) (cancellation : Bool)

def context (v : Loop S) (attempt : Nat) (resumedInput : Option Value) : NodeContext :=
  NodeContext.new threadId v.currentNodeName attempt v.lastCheckpointId (g.budgetEur.map (· - v.totalCost))
    cancellation resumedInput

/-- The retry loop of a regular node.  `left` is `max_attempts - 1 - attempt`, so the last attempt is the one with
`left = 0`; the resumed input is taken by the first one. -/
def callRetrying (v : Loop S) :
    Nat → Nat → Option Value → Prog (ops S) E (Nat × Except GraphError (NodeOutput S))
  | left, attempt, input =>
    .perform (F := ops S)
      (.callNode (g.context threadId cancellation v attempt input) v.state (g.effectiveTimeout v.currentNodeName)
        cancellation)
      fun answer =>
        match CallAnswer.result v.currentNodeName answer with
        | .ok out => .ret (attempt, .ok out)
        | .error (.retryable msg) =>
          match left with
          | 0 => .ret (attempt + 1, .error (.retryable msg))
          | left + 1 => callRetrying v left (attempt + 1) none
        | .error e => .ret (attempt, .error e)

/-- Call the current node: a dynamic node once, a regular one under its retry policy. -/
def callNode (v : Loop S) : Prog (ops S) E (Nat × Except GraphError (NodeOutput S)) :=
  if v.currentNodeName ∈ g.dynamicNodes then
    .perform (F := ops S)
      (.callNode (g.context threadId cancellation v 0 v.pendingResumedInput) v.state none false)
      fun answer => .ret (0, CallAnswer.result v.currentNodeName answer)
  else
    g.callRetrying threadId cancellation v ((g.effectiveRetry v.currentNodeName).maxAttempts - 1) 0
      v.pendingResumedInput

variable [State S] (resolvedInterrupt : Option String)

/-- The checkpoint `run_inner` writes when it is in the loop state `v`. -/
def loopSave (v : Loop S) (state : S) (nextNode : String) (status : CheckpointStatus)
    (yieldRequest : Option YieldRequest) (resolvedInterrupt : Option String) : SaveArgs S where
  threadId := threadId
  state := state
  nextNode := nextNode
  dag := none
  status := status
  yieldRequest := yieldRequest
  claimedInterrupt := none
  resolvedInterrupt := resolvedInterrupt
  proof := checkpointProof v.expectedHead

/-- The node an output leads to: the one its event names, else the successor by the edges. -/
def nextNode (name : String) (out : NodeOutput S) : String :=
  match out.event with
  | some target => target
  | none => g.successor name out.state

/-- The node returned a state: budgets, record, checkpoint, gate. -/
def onSuccess (v : Loop S) (attempt : Nat) (out : NodeOutput S) : Prog (ops S) RunError (Flow S) :=
  let name := v.currentNodeName
  let runningCostEur := v.runningCostEur + out.info.cost
  match exceeded (g.effectiveNodeBudget name) out.info.cost with
  | some limit => do
    emit (.nodeFinished threadId name "failed" out.info.costEur)
    .fail (.budgetExceeded out.info.cost limit, v.lastHead)
  | none =>
    match exceeded g.budgetEur runningCostEur with
    | some limit => do
      emit (.nodeFinished threadId name "failed" out.info.costEur)
      .fail (.budgetExceeded runningCostEur limit, v.lastHead)
    | none => do
      record g.resourceLimits.maxExecutionRecords
        { nodeName := name, status := "success", costEur := out.info.costEur, checkpointId := none,
          attempts := attempt, actor := none, responseHash := none, tokensIn := out.info.tokensIn,
          tokensOut := out.info.tokensOut }
      emit (.nodeFinished threadId name "success" out.info.costEur)
      let nextNode := g.nextNode name out
      let id ← (g.saveChecked (loopSave threadId v out.state nextNode .complete none resolvedInterrupt)).mapError
        (·, v.lastHead)
      return if name ∈ g.interruptAfter then .stop (v.afterSave out id)
        else .next { v.afterSave out id with currentNodeName := nextNode }

/-- The node answered with an error: a yield is saved, everything else fails the run. -/
def onError (v : Loop S) : GraphError → Prog (ops S) RunError (Flow S)
  | .yield request => do
    emit (.nodeFinished threadId v.currentNodeName "yielded" none)
    let _ ← (g.saveChecked (loopSave threadId v v.state v.currentNodeName .yielded (some request) none)).mapError
      (·, v.lastHead)
    return .stop v
  | .retryable msg => do
    emit (.nodeFinished threadId v.currentNodeName "failed" none)
    .fail (.executionError s!"Node {v.currentNodeName} failed (retryable) after max attempts: {msg}", v.lastHead)
  | .fatal msg => do
    emit (.nodeFinished threadId v.currentNodeName "failed" none)
    .fail (.executionError s!"Node {v.currentNodeName} failed fatally: {msg}", v.lastHead)
  | .budgetExceeded spentEur limitEur => do
    emit (.nodeFinished threadId v.currentNodeName "failed" none)
    .fail (.budgetExceeded spentEur limitEur, v.lastHead)
  | .yieldInDynamicNode interruptId =>
    .fail (.executionError
      s!"HITL yield inside dynamic node is not supported (node: '{v.currentNodeName}', interrupt: '{interruptId}'). Move the yielding node to a top-level graph node.",
      v.lastHead)

/-- One round of the loop of `run_inner`, after the step limit has been checked. -/
def loopBody (v : Loop S) : Prog (ops S) RunError (Flow S) :=
  if v.currentNodeName = "__END__" then do
    emit (.graphFinished threadId v.runningCostEur)
    return .stop v
  else if v.isFirstStep = false ∧ v.currentNodeName ∈ g.interruptBefore then do
    let _ ← (g.saveChecked
      (loopSave threadId v v.state v.currentNodeName .interrupted none resolvedInterrupt)).mapError (·, v.lastHead)
    return .stop v
  else if ¬ g.registered v.currentNodeName then
    .fail (.nodeNotFound v.currentNodeName, v.lastHead)
  else do
    emit (.nodeStarted threadId v.currentNodeName)
    let (attempt, result) ← g.callNode threadId cancellation v
    match result with
    | .ok out => g.onSuccess threadId resolvedInterrupt v attempt out
    | .error e => g.onError threadId v e

/-- The loop stops before the current node. -/
def GatedBefore (v : Loop S) : Prop := v.isFirstStep = false ∧ v.currentNodeName ∈ g.interruptBefore

/-- The loop calls the current node. -/
def Runs (v : Loop S) : Prop :=
  v.currentNodeName ≠ "__END__" ∧ ¬ g.GatedBefore v ∧ g.registered v.currentNodeName

/-- The loop.  `remaining` is `max_sequential_steps - step_count`, so the step limit is reached at 0. -/
def runLoop : Nat → Loop S → Prog (ops S) RunError S
  | 0, v => .fail (.stepLimitExceeded g.resourceLimits.maxSequentialSteps g.resourceLimits.maxSequentialSteps,
    v.lastHead)
  | remaining + 1, v => do
    match ← g.loopBody threadId cancellation resolvedInterrupt v with
    | .next v => runLoop remaining v
    | .stop v => return v.state

/-- Internal execution engine that supports an optional resumed input. -/
def runInner (state : S) (startNode : String) (resumedInput : Option Value) : Prog (ops S) RunError S := do
  let expectedHead ← (currentHead threadId).mapError (·, none)
  g.runLoop threadId cancellation resolvedInterrupt g.resourceLimits.maxSequentialSteps
    (.start state startNode resumedInput expectedHead)

end Loop

section Callers

variable [External] [State S] (g : Graph S) (threadId : String) (cancellation : Bool)

/-- Run the graph from a start node. -/
def run (state : S) (startNode : String) : Prog (ops S) TakelnError S :=
  (g.runInner threadId cancellation none state startNode none).mapError Prod.fst

/-- Resume a thread from its last checkpoint, with `rebind` applied to the loaded state. -/
def resumeWith (rebind : S → S) : Prog (ops S) TakelnError (Option S) := do
  match ← loadState threadId with
  | none => return none
  | some loaded =>
    let state := rebind loaded.state
    let continueAt (node : String) : Prog (ops S) TakelnError (Option S) := do
      let final ← (g.runInner threadId cancellation loaded.info.claimedInterrupt state node none).mapError Prod.fst
      return some final
    if loaded.info.status = .running then
      match g.crashRecoveryPolicy with
      | .resetToPending => continueAt loaded.info.nextNode
      | .failFast =>
        .fail (.executionError
          s!"Checkpoint for thread '{threadId}' has Running status (crash detected). FailFast policy applied.")
      | .skipAndContinue =>
        match g.edges loaded.info.nextNode with
        | some edge => continueAt (edge.target state)
        | none => continueAt loaded.info.nextNode
    else continueAt loaded.info.nextNode

def resume : Prog (ops S) TakelnError (Option S) := g.resumeWith threadId cancellation id

/-- The checkpoint a rollback writes. -/
def revertSave (state : S) (nextNode : String) (yieldRequest : YieldRequest) (expectedHead : Option String) :
    SaveArgs S where
  threadId := threadId
  state := state
  nextNode := nextNode
  dag := none
  status := .yielded
  yieldRequest := some yieldRequest
  claimedInterrupt := none
  resolvedInterrupt := none
  proof := checkpointProof expectedHead

/-- Roll a thread back to its yielded checkpoint after a failed resume. -/
def revertToYielded (state : S) (nextNode : String) (yieldRequest : YieldRequest)
    (lastHead : Option (Option String)) : Prog (ops S) TakelnError Unit := do
  let expectedHead ← match lastHead with
    | some head => Prog.ret head
    | none => currentHead threadId
  let save ← saveStateBound (revertSave threadId state nextNode yieldRequest expectedHead)
  let _ ← Prog.ofExcept (checkpointId save)

/-- Run the claimed interrupt from `startNode`; if that fails, roll back and fail. -/
def runClaimed (loaded : Loaded S) (yieldRequest : YieldRequest) (interruptId startNode : String)
    (resumedInput : Option Value) : Prog (ops S) TakelnError S := do
  match ← (g.runInner threadId cancellation (some interruptId) loaded.state startNode resumedInput).attempt with
  | .ok final => return final
  | .error (e, lastHead) =>
    match ← (revertToYielded threadId loaded.state loaded.info.nextNode yieldRequest lastHead).attempt with
    | .ok () => .fail e
    | .error saveErr =>
      .fail (.executionError s!"Execution failed: {e.display}. Rollback save failed: {saveErr.display}")

/-- The node a resume starts at: the yielded node again, or the one its edge leads to. -/
def resumeStart (loaded : Loaded S) (yieldRequest : YieldRequest) : String :=
  match yieldRequest.resumeMode with
  | .reEntry => loaded.info.nextNode
  | .handoff => g.successor loaded.info.nextNode loaded.state

/-- The input a resume hands to its first node. -/
def resumeInput (yieldRequest : YieldRequest) (input : Value) : Option Value :=
  match yieldRequest.resumeMode with
  | .reEntry => some input
  | .handoff => none

/-- What `resume_with_input` checks between its claim and its run. -/
def checkResume (interruptId : String) (input : Value) (loaded : Loaded S) : Except TakelnError YieldRequest :=
  match loaded.info.yieldRequest with
  | none => .error (.nothingToResume s!"Thread '{threadId}' has no yield_request metadata")
  | some yieldRequest =>
    if yieldRequest.interruptId ≠ interruptId then
      .error (.invalidResume s!"Expected interrupt_id '{yieldRequest.interruptId}', got '{interruptId}'")
    else
      match yieldRequest.schema with
      | none => .ok yieldRequest
      | some schema => (validateInputAgainstSchema interruptId input schema).map fun _ => yieldRequest

/-- Run a claimed and checked resume, then record it. -/
def resumeClaimed (loaded : Loaded S) (yieldRequest : YieldRequest) (interruptId : String) (input : Value)
    (context : ResumeContext) : Prog (ops S) TakelnError (Option S) := do
  let final ← g.runClaimed threadId cancellation loaded yieldRequest interruptId
    (g.resumeStart loaded yieldRequest) (resumeInput yieldRequest input)
  record g.resourceLimits.maxExecutionRecords
    { nodeName := loaded.info.nextNode, status := "resumed", costEur := none,
      checkpointId := some loaded.info.checkpointId, attempts := 0, actor := context.actor,
      responseHash := some (computeResponseHash input), tokensIn := none, tokensOut := none }
  return some final

/-- Resume execution with structured input for a yielded checkpoint. -/
def resumeWithInput (interruptId : String) (input : Value) (context : ResumeContext) :
    Prog (ops S) TakelnError (Option S) := do
  let claim ← claimInterrupt threadId interruptId
  match ← loadState threadId with
  | none => .fail (.nothingToResume threadId)
  | some loaded =>
    match claim with
    | .alreadyCompleted => return some loaded.state
    | .inProgress =>
      .fail (.executionError s!"Resume in progress for interrupt '{interruptId}' on thread '{threadId}'")
    | .claimed =>
      let yieldRequest ← Prog.ofExcept (checkResume threadId interruptId input loaded)
      g.resumeClaimed threadId cancellation loaded yieldRequest interruptId input context

end Callers

end Graph

end Takeln
