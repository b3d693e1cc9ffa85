import Takeln.Effect.Prog
import Takeln.Model.Checkpoint

/-!
# Graphs and the operations they perform

The graph with its configuration (`graph.rs`, `resource_limits.rs`), the context handed to a node (`context.rs`), and
the operations an engine performs on the world outside it: the checkpointer, the calls of nodes, the broadcast
channel and the execution history.  What a node does is not part of the graph: it is the answer to a call.  Timing,
spans and metrics, which nothing reads back, are left out.
-/

namespace Takeln

open Effect (Signature Prog)

variable [Money]

/-- `std::time::Duration`, in nanoseconds. -/
structure Duration where
  nanos : Nat
  deriving DecidableEq

/-- The digits of `frac / (10 * divisor)` after the point, without trailing zeros. -/
private def fracDigits : Nat → Nat → Nat → String
  | 0, _, _ => ""
  | fuel + 1, frac, divisor =>
    if frac = 0 then "" else toString (frac / divisor) ++ fracDigits fuel (frac % divisor) (divisor / 10)

/-- `{:?}` of a duration. -/
def Duration.debug (d : Duration) : String :=
  let print (unit : Nat) (suffix : String) : String :=
    let digits := fracDigits 9 (d.nanos % unit) (unit / 10)
    let point := if digits = "" then "" else "."
    s!"{d.nanos / unit}{point}{digits}{suffix}"
  if 1000000000 ≤ d.nanos then print 1000000000 "s"
  else if 1000000 ≤ d.nanos then print 1000000 "ms"
  else if 1000 ≤ d.nanos then print 1000 "µs"
  else print 1 "ns"

/-! ### Configuration -/

structure RetryPolicy where
  maxAttempts : Nat := 3
  baseDelayMs : Nat := 500
  maxDelayMs : Nat := 30000
  jitter : Bool := true

structure NodeConfig where
  retryPolicy : Option RetryPolicy := none
  timeout : Option Duration := none
  budgetEur : Option Eur := none

inductive WaveFailurePolicy
  | failFast
  | continueOnError
  deriving DecidableEq

structure ResourceLimits where
  maxConcurrentNodes : Nat := 64
  maxExecutionRecords : Nat := 10000
  maxCheckpointBytes : Nat := 10 * 1024 * 1024
  maxDagNodes : Nat := 10000
  maxSequentialSteps : Nat := 1000

inductive Edge (S : Type)
  | unconditional (target : String)
  | conditional (f : S → String)

def Edge.target {S : Type} (state : S) : Edge S → String
  | unconditional target => target
  | conditional f => f state

/-- The registered names, the edges and the settings of a graph. -/
structure Graph (S : Type) where
  nodes : List String
  dynamicNodes : List String := []
  edges : String → Option (Edge S)
  retryPolicy : RetryPolicy := {}
  budgetEur : Option Eur := none
  interruptBefore : List String := []
  interruptAfter : List String := []
  crashRecoveryPolicy : CrashRecoveryPolicy := .resetToPending
  nodeConfigs : String → Option NodeConfig := fun _ => none
  waveFailurePolicy : WaveFailurePolicy := .failFast
  resourceLimits : ResourceLimits := {}

/-- The budget that an amount exceeds, if there is a budget and it is exceeded. -/
def exceeded (budget : Option Eur) (spent : Eur) : Option Eur := budget.filter fun limit => decide (limit < spent)

/-! ### Nodes -/

structure NodeMeta where
  tokensIn : Option Nat := none
  tokensOut : Option Nat := none
  costEur : Option Eur := none

/-- `meta.cost_eur.unwrap_or(0.0)` -/
def NodeMeta.cost (m : NodeMeta) : Eur := m.costEur.getD 0

structure NodeOutput (S : Type) where
  state : S
  event : Option String := none
  info : NodeMeta := {}

structure NodeContext where
  threadId : String
  nodeName : String
  attempt : Nat
  executionId : String
  lastCheckpointId : Option String
  budgetRemainingEur : Option Eur
  cancellation : Bool
  resumedInput : Option Value

/-- The text the execution id is derived from. -/
def executionSeed (threadId nodeName : String) (lastCheckpointId : Option String) : String :=
  let checkpoint := lastCheckpointId.getD "initial"
  s!"{threadId}:{nodeName}:{checkpoint}"

def NodeContext.new [External] (threadId nodeName : String) (attempt : Nat) (lastCheckpointId : Option String)
    (budgetRemainingEur : Option Eur) (cancellation : Bool) (resumedInput : Option Value) : NodeContext where
  threadId := threadId
  nodeName := nodeName
  attempt := attempt
  executionId := External.newV5 (executionSeed threadId nodeName lastCheckpointId)
  lastCheckpointId := lastCheckpointId
  budgetRemainingEur := budgetRemainingEur
  cancellation := cancellation
  resumedInput := resumedInput

/-- How a call of a node ends: it returns, or loses the race against its timeout or the cancellation token. -/
inductive CallAnswer (S : Type) : Option Duration → Bool → Type
  | returned {timeout : Option Duration} {token : Bool} (r : Except GraphError (NodeOutput S)) :
      CallAnswer S timeout token
  | timedOut {d : Duration} {token : Bool} : CallAnswer S (some d) token
  | cancelled {timeout : Option Duration} : CallAnswer S timeout true

/-- What the engine makes of the end of a call. -/
def CallAnswer.result {S : Type} (nodeName : String) {timeout : Option Duration} {token : Bool} :
    CallAnswer S timeout token → Except GraphError (NodeOutput S)
  | returned r => r
  | @timedOut _ _ d _ => .error (.fatal s!"Node '{nodeName}' timed out after {d.debug}")
  | cancelled => .error (.yield (YieldRequest.simple "Cancelled"))

/-- A node launched in a wave: its index in the DAG, and what its task is given. -/
structure WaveTask (S : Type) where
  idx : Nat
  threadId : String
  nodeName : String
  state : S
  cancellation : Bool

/-- What the `JoinSet` hands out for a task: its result, or the report of a panic. -/
abbrev JoinResult (S : Type) := Except String (Nat × Except GraphError (NodeOutput S))

/-! ### Events and records -/

inductive GraphEvent
  | nodeStarted (threadId nodeName : String) (sequenceNumber : Nat)
  | nodeFinished (threadId nodeName : String) (status : String) (cost : Option Eur) (sequenceNumber : Nat)
  | graphFinished (threadId : String) (cost : Eur) (sequenceNumber : Nat)
  deriving DecidableEq

structure ExecutionRecord where
  nodeName : String
  status : String
  costEur : Option Eur
  checkpointId : Option String
  attempts : Nat
  actor : Option String
  responseHash : Option String
  tokensIn : Option Nat
  tokensOut : Option Nat

/-- `while records.len() >= max { records.pop_front() }`; it never ends if `max` is 0. -/
def trimRecords (max : Nat) : List ExecutionRecord → Option (List ExecutionRecord)
  | [] => if max = 0 then none else some []
  | r :: rs => if max ≤ (r :: rs).length then trimRecords max rs else some (r :: rs)

/-- Trim the execution history, then append a record. -/
def pushRecord (max : Nat) (records : List ExecutionRecord) (record : ExecutionRecord) :
    Option (List ExecutionRecord) :=
  (trimRecords max records).map (· ++ [record])

/-! ### Operations -/

/-- What an engine asks of the world outside it. -/
inductive Op (S : Type)
  | currentHead (threadId : String)
  | saveStateBound (args : SaveArgs S)
  | loadState (threadId : String)
  | claimInterrupt (threadId interruptId : String)
  | callNode (ctx : NodeContext) (state : S) (timeout : Option Duration) (token : Bool)
  | joinWave (tasks : List (WaveTask S))
  | nextSeq
  | send (event : GraphEvent)
  | record (max : Nat) (record : ExecutionRecord)

def Op.Answer {S : Type} : Op S → Type
  | currentHead _ => Except TakelnError (Option String)
  | saveStateBound _ => Except TakelnError CheckpointSave
  | loadState _ => Except TakelnError (Option (Loaded S))
  | claimInterrupt _ _ => Except TakelnError ClaimResult
  | callNode _ _ timeout token => CallAnswer S timeout token
  | joinWave _ => List (JoinResult S)
  | nextSeq => Nat
  | send _ => Unit
  | record _ _ => Unit

abbrev ops (S : Type) : Signature := ⟨Op S, Op.Answer⟩

section

variable {S E : Type}

def currentHead (threadId : String) : Prog (ops S) TakelnError (Option String) :=
  Prog.perform (F := ops S) (.currentHead threadId) fun r => .ofExcept r

def saveStateBound (args : SaveArgs S) : Prog (ops S) TakelnError CheckpointSave :=
  Prog.perform (F := ops S) (.saveStateBound args) fun r => .ofExcept r

def loadState (threadId : String) : Prog (ops S) TakelnError (Option (Loaded S)) :=
  Prog.perform (F := ops S) (.loadState threadId) fun r => .ofExcept r

def claimInterrupt (threadId interruptId : String) : Prog (ops S) TakelnError ClaimResult :=
  Prog.perform (F := ops S) (.claimInterrupt threadId interruptId) fun r => .ofExcept r

def joinWave (tasks : List (WaveTask S)) : Prog (ops S) E (List (JoinResult S)) :=
  Prog.perform (F := ops S) (.joinWave tasks) .ret

/-- Number an event and broadcast it. -/
def emit (event : Nat → GraphEvent) : Prog (ops S) E Unit :=
  Prog.perform (F := ops S) .nextSeq fun n => .perform (F := ops S) (.send (event n)) fun _ => .ret ()

def record (max : Nat) (r : ExecutionRecord) : Prog (ops S) E Unit :=
  Prog.perform (F := ops S) (.record max r) fun _ => .ret ()

end

/-! ### Lookups -/

namespace Graph

variable {S : Type} (g : Graph S)

/-- A name the engines can run: a dynamic or a regular node. -/
def registered (name : String) : Prop := name ∈ g.dynamicNodes ∨ name ∈ g.nodes

instance (name : String) : Decidable (g.registered name) := inferInstanceAs (Decidable (_ ∨ _))

def effectiveRetry (name : String) : RetryPolicy :=
  ((g.nodeConfigs name).bind NodeConfig.retryPolicy).getD g.retryPolicy

def effectiveTimeout (name : String) : Option Duration := (g.nodeConfigs name).bind NodeConfig.timeout

def effectiveNodeBudget (name : String) : Option Eur := (g.nodeConfigs name).bind NodeConfig.budgetEur

/-- The successor an edge names; without an edge the run ends. -/
def successor (name : String) (state : S) : String :=
  match g.edges name with
  | some edge => edge.target state
  | none => "__END__"

/-- Check that the state does not exceed the maximal checkpoint payload. -/
def checkCheckpointSize [State S] (state : S) : Except TakelnError Unit :=
  let estimatedSize := match State.toStringLen state with
    | .ok n => n
    | .error _ => 0
  if g.resourceLimits.maxCheckpointBytes < estimatedSize then
    .error (.executionError
      s!"Checkpoint payload {estimatedSize} bytes exceeds max_checkpoint_bytes limit of {g.resourceLimits.maxCheckpointBytes}")
  else .ok ()

/-- Check the size, write the checkpoint and take the id of the accepted write. -/
def saveChecked [State S] (args : SaveArgs S) : Prog (ops S) TakelnError String := do
  Prog.ofExcept (g.checkCheckpointSize args.state)
  let save ← saveStateBound args
  Prog.ofExcept (checkpointId save)

end Graph

end Takeln
