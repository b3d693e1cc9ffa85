import Takeln.Model.Value

/-!
# Checkpoints and DAGs

What a checkpoint store keeps and answers (`checkpoint.rs`, `checkpoint_meta.rs`), and the DAGs whose snapshots it
keeps (`dag.rs`).  `graph_version` and `state_schema_version`, which are never set, and the creation stamps of a DAG,
which are never read, are left out.
-/

namespace Takeln

/-- A state type: its JSON encoding (`serde`). -/
class State (S : Type) where
  /-- `serde_json::to_value` -/
  toValue : S → Except String Value
  /-- `serde_json::from_value` -/
  fromValue : Value → Except String S
  /-- The length of `serde_json::to_string`. -/
  toStringLen : S → Except String Nat

/-- What was serialised can be read back. -/
class RoundTrip (S : Type) [State S] : Prop where
  fromValue_toValue {s : S} {v : Value} : State.toValue s = .ok v → State.fromValue v = .ok s

/-- `merge`: combine the result of a parallel node into the running state. -/
class Merge (S : Type) where
  merge : S → S → S

/-! ### DAGs -/

abbrev Uuid := Nat

inductive NodeStatus
  | pending
  | running
  | done
  | failed
  | yielded
  deriving DecidableEq

structure DAGNode where
  id : Uuid
  stepType : String
  dependsOn : List Uuid
  status : NodeStatus
  deriving DecidableEq

structure DAG where
  nodes : List DAGNode
  deriving DecidableEq

namespace DAG

/-- The status a snapshot holds for an id; of several nodes with the id the last one counts. -/
def statusOf (checkpointed : DAG) (id : Uuid) : Option NodeStatus :=
  (checkpointed.nodes.reverse.find? fun n => n.id == id).map DAGNode.status

/-- Take over the statuses of a checkpointed snapshot, by id. -/
def restoreStatuses (dag checkpointed : DAG) : DAG :=
  { nodes := dag.nodes.map fun n =>
      match checkpointed.statusOf n.id with
      | some status => { n with status := status }
      | none => n }

/-- Set the status of the node at an index. -/
def setStatus (dag : DAG) (idx : Nat) (status : NodeStatus) : DAG :=
  { nodes := dag.nodes.modify idx fun n => { n with status := status } }

/-- The step type of the node at an index. -/
def stepType (dag : DAG) (idx : Nat) : String := (dag.nodes[idx]?.map DAGNode.stepType).getD ""

end DAG

/-! ### Checkpoints -/

inductive CheckpointStatus
  | complete
  | running
  | yielded
  | failed
  | interrupted
  deriving DecidableEq

def CheckpointStatus.debug : CheckpointStatus → String
  | complete => "Complete"
  | running => "Running"
  | yielded => "Yielded"
  | failed => "Failed"
  | interrupted => "Interrupted"

structure CheckpointMeta where
  checkpointId : String
  threadId : String
  nextNode : String
  status : CheckpointStatus
  createdAt : Int
  yieldRequest : Option YieldRequest
  claimedInterrupt : Option String
  resolvedInterrupt : Option String

/-- The precondition a durable write carries. -/
structure CheckpointProof where
  authorizationHash : Option String
  receiptChainCount : Nat
  receiptChainHead : Option String
  expectedHead : Option String

def checkpointProof (expectedHead : Option String) : CheckpointProof where
  authorizationHash := none
  receiptChainCount := 0
  receiptChainHead := none
  expectedHead := expectedHead

/-- The arguments of `save_state_bound`. -/
structure SaveArgs (S : Type) where
  threadId : String
  state : S
  nextNode : String
  dag : Option DAG
  status : CheckpointStatus
  yieldRequest : Option YieldRequest
  claimedInterrupt : Option String
  resolvedInterrupt : Option String
  proof : CheckpointProof

inductive CheckpointSave
  | created (checkpointId : String)
  | advanced (checkpointId : String)
  | idempotentReplay (checkpointId : String)
  | conflict (actualHead : Option String)
  deriving DecidableEq

/-- The id of an accepted save; a conflict is an error. -/
def checkpointId [Money] : CheckpointSave → Except TakelnError String
  | .created id => .ok id
  | .advanced id => .ok id
  | .idempotentReplay id => .ok id
  | .conflict actualHead =>
    let head := actualHead.getD "<genesis>"
    .error (.executionError s!"checkpoint head conflict; actual head: {head}")

inductive ClaimResult
  | claimed
  | inProgress
  | alreadyCompleted
  deriving DecidableEq

/-- What `load_state` finds: the state, its metadata and the DAG snapshot. -/
structure Loaded (S : Type) where
  state : S
  info : CheckpointMeta
  dag : Option DAG

inductive CrashRecoveryPolicy
  | resetToPending
  | failFast
  | skipAndContinue
  deriving DecidableEq

end Takeln
