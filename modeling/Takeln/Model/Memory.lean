import Mathlib.Algebra.Ring.Nat
import Mathlib.Data.List.Perm.Basic
import Mathlib.Logic.Function.Basic
import Takeln.Model.Graph

/-!
# The in-memory checkpointer

`InMemoryCheckpointer` (`store/memory.rs`): for each thread the list of its checkpoints, in the order of their saves.
`memory` answers the operations of the engines with such a store; the ids and clock readings of the saves, what the
nodes answer and the order in which the nodes of a wave end are taken from an `Env`.
-/

namespace Takeln

open Effect (Handler)

variable [Money]

structure MemoryCheckpoint where
  checkpointId : String
  state : Value
  nextNode : String
  dag : Option DAG
  status : CheckpointStatus
  createdAt : Int
  yieldRequest : Option YieldRequest
  claimedInterrupt : Option String
  resolvedInterrupt : Option String

namespace MemoryCheckpoint

def toMeta (threadId : String) (cp : MemoryCheckpoint) : CheckpointMeta where
  checkpointId := cp.checkpointId
  threadId := threadId
  nextNode := cp.nextNode
  status := cp.status
  createdAt := cp.createdAt
  yieldRequest := cp.yieldRequest
  claimedInterrupt := cp.claimedInterrupt
  resolvedInterrupt := cp.resolvedInterrupt

/-- Read a checkpoint back. -/
def load {S : Type} [State S] (threadId : String) (cp : MemoryCheckpoint) : Except TakelnError (Loaded S) :=
  match State.fromValue cp.state with
  | .ok state => .ok { state := state, info := cp.toMeta threadId, dag := cp.dag }
  | .error e => .error (.deserializationError e)

/-- The checkpoint a save writes. -/
def ofSave {S : Type} (checkpointId : String) (createdAt : Int) (state : Value) (args : SaveArgs S) :
    MemoryCheckpoint where
  checkpointId := checkpointId
  state := state
  nextNode := args.nextNode
  dag := args.dag
  status := args.status
  createdAt := createdAt
  yieldRequest := args.yieldRequest
  claimedInterrupt := args.claimedInterrupt
  resolvedInterrupt := args.resolvedInterrupt

end MemoryCheckpoint

/-! ### Retention -/

inductive RetentionPolicy
  | keepAll
  | keepLast (n : Nat)
  | olderThan (duration : Duration)

/-- The longest `chrono::Duration`, in nanoseconds: its milliseconds fit into an `i64`. -/
def maxDuration : Nat := (2 ^ 63 - 1) * 1000000

/-- `Utc::now() - chrono::Duration::from_std(duration)?` -/
def cutoff (now : Int) (duration : Duration) : Except TakelnError Int :=
  if duration.nanos ≤ maxDuration then .ok (now - duration.nanos)
  else .error (.checkpointError "Source duration value is out of range for the target type")

/-! ### The store -/

/-- The checkpoints of every thread; `none` if nothing was ever saved under an id. -/
abbrev MemoryStore := String → Option (List MemoryCheckpoint)

namespace MemoryStore

variable {S : Type} [State S] (store : MemoryStore)

/-- The checkpoints of a thread. -/
def rows (threadId : String) : List MemoryCheckpoint := (store threadId).getD []

def saveState (checkpointId : String) (createdAt : Int) (args : SaveArgs S) :
    Except TakelnError String × MemoryStore :=
  match State.toValue args.state with
  | .error e => (.error (.serializationError e), store)
  | .ok val =>
    (.ok checkpointId, Function.update store args.threadId
      (some (store.rows args.threadId ++ [.ofSave checkpointId createdAt val args])))

def loadState (threadId : String) : Except TakelnError (Option (Loaded S)) :=
  match (store.rows threadId).getLast? with
  | some cp => (cp.load threadId).map some
  | none => .ok none

def loadVersion (threadId checkpointId : String) : Except TakelnError (Option (Loaded S)) :=
  match (store.rows threadId).find? fun cp => cp.checkpointId == checkpointId with
  | some cp => (cp.load threadId).map some
  | none => .ok none

def listCheckpoints (threadId : String) : Except TakelnError (List CheckpointMeta) :=
  .ok ((store.rows threadId).map fun cp => cp.toMeta threadId)

/-- Delete the checkpoints a policy does not keep, and count them. -/
def deleteCheckpoints (threadId : String) (policy : RetentionPolicy) (now : Int) :
    Except TakelnError Nat × MemoryStore :=
  match store threadId with
  | none => (.ok 0, store)
  | some list =>
    match policy with
    | .keepAll => (.ok 0, store)
    | .keepLast n =>
      if list.length > n then
        let drainCount := list.length - n
        (.ok drainCount, Function.update store threadId (some (list.drop drainCount)))
      else (.ok 0, store)
    | .olderThan duration =>
      match cutoff now duration with
      | .error e => (.error e, store)
      | .ok cutoff =>
        let kept := list.filter fun cp => decide (cutoff ≤ cp.createdAt)
        (.ok (list.length - kept.length), Function.update store threadId (some kept))

/-- Check and claim an interrupt in one step. -/
def claimInterrupt (threadId interruptId : String) : Except TakelnError ClaimResult × MemoryStore :=
  match store threadId with
  | none => (.error (.nothingToResume threadId), store)
  | some list =>
    -- 1. a checkpoint in the history already resolves the interrupt
    if list.any (·.resolvedInterrupt == some interruptId) then (.ok .alreadyCompleted, store)
    else
      match list.getLast? with
      | none => (.error (.nothingToResume threadId), store)
      | some last =>
        -- 2. the latest checkpoint is already claimed for it
        if last.status = .running ∧ last.claimedInterrupt = some interruptId then (.ok .inProgress, store)
        else
          match last.status with
          | .yielded =>
            match last.yieldRequest with
            | none =>
              (.error (.nothingToResume s!"Thread '{threadId}' has Yielded status but no yield_request metadata"),
                store)
            | some request =>
              if request.interruptId ≠ interruptId then
                (.error (.invalidResume s!"Expected interrupt_id '{request.interruptId}', got '{interruptId}'"),
                  store)
              else
                (.ok .claimed, Function.update store threadId
                  (some (list.dropLast ++
                    [{ last with status := .running, claimedInterrupt := some interruptId }])))
          | .running =>
            let claimed := last.claimedInterrupt.getD "none"
            (.error (.executionError
              s!"Resume claim failed: thread '{threadId}' is already running with claimed_interrupt '{claimed}'"),
              store)
          | status =>
            (.error (.nothingToResume
              s!"Thread '{threadId}' latest checkpoint status is {status.debug}, expected Yielded"), store)

end MemoryStore

/-- Everything outside the engines and the store: generated ids, the clock, and what nodes do. -/
structure Env (S : Type) where
  /-- The id drawn for the `n`-th save. -/
  newId : Nat → String
  /-- The clock at the `n`-th save. -/
  now : Nat → Int
  /-- How the `n`-th call of a node ends. -/
  answer : Nat → NodeContext → S → (timeout : Option Duration) → (token : Bool) → CallAnswer S timeout token
  /-- How a task of the `n`-th wave ends: with a result, or in a panic. -/
  outcome : Nat → WaveTask S → Except String (Except GraphError (NodeOutput S))
  /-- The order in which the tasks of the `n`-th wave end. -/
  order : Nat → (tasks : List (WaveTask S)) → { done : List (WaveTask S) // done.Perm tasks }

/-- The tasks of a wave end in the order in which they were launched. -/
def inOrder {S : Type} (tasks : List (WaveTask S)) : { done : List (WaveTask S) // done.Perm tasks } :=
  ⟨tasks, .refl tasks⟩

/-- The store, with counters of the saves, node calls and waves so far, and the shared state of the graph. -/
structure World where
  store : MemoryStore
  saves : Nat := 0
  calls : Nat := 0
  waves : Nat := 0
  seq : Nat := 0
  records : List ExecutionRecord := []

/-- Nothing was ever saved. -/
def World.empty : World := { store := fun _ => none }

def World.rows (w : World) (threadId : String) : List MemoryCheckpoint := w.store.rows threadId

/-- What the `JoinSet` hands out for a task that ends like this. -/
def WaveTask.joinResult {S : Type} (t : WaveTask S) :
    Except String (Except GraphError (NodeOutput S)) → JoinResult S
  | .ok r => .ok (t.idx, r)
  | .error panic => .error panic

/-- The engines on an in-memory checkpointer. -/
def memory {S : Type} [State S] (env : Env S) : Handler (ops S) World
  | w, .currentHead _ => some (.ok none, w)
  | w, .saveStateBound args =>
    let (r, store) := w.store.saveState (env.newId w.saves) (env.now w.saves) args
    some (r.map .created, { w with store := store, saves := w.saves + 1 })
  | w, .loadState threadId => some (w.store.loadState threadId, w)
  | w, .claimInterrupt threadId interruptId =>
    let (r, store) := w.store.claimInterrupt threadId interruptId
    some (r, { w with store := store })
  | w, .callNode ctx state timeout token =>
    some (env.answer w.calls ctx state timeout token, { w with calls := w.calls + 1 })
  | w, .joinWave tasks =>
    some ((env.order w.waves tasks).1.map fun t => t.joinResult (env.outcome w.waves t),
      { w with waves := w.waves + 1 })
  | w, .nextSeq => some (w.seq, { w with seq := w.seq + 1 })
  | w, .send _ => some ((), w)
  | w, .record max r => (pushRecord max w.records r).map fun records => ((), { w with records := records })

/-! ### Counters and flags as states -/

/-- `u64` is a state type. -/
instance : State Nat where
  toValue n := .ok (.number (.posInt n))
  fromValue
    | .number (.posInt n) => .ok n
    | _ => .error "invalid type, expected u64"
  toStringLen n := .ok (toString n).length

instance : RoundTrip Nat where
  fromValue_toValue h := by cases h; rfl

instance : Merge Nat where
  merge := (· + ·)

/-- `bool` is a state type. -/
instance : State Bool where
  toValue b := .ok (.bool b)
  fromValue
    | .bool b => .ok b
    | _ => .error "invalid type, expected a boolean"
  toStringLen b := .ok (toString b).length

instance : RoundTrip Bool where
  fromValue_toValue h := by cases h; rfl

/-- The last one wins. -/
instance : Merge Bool where
  merge _ b := b

/-- The functions of other crates, on the texts a short run of a thread `t` feeds them. -/
@[reducible] def shortRuns : External where
  newV5 seed := (List.lookup seed
    [("t:A:initial", "87abecdd-b0f7-5f6a-87c5-908cdaa4573d"), ("t:B:initial", "af820cf9-b185-5c59-8939-a7f7d34326f1"),
      ("t:B:c0", "1baea614-a016-5ac1-b2a0-09d81042df1c"), ("t:B:c1", "d74f1842-3f57-5521-bc9a-c7a949f4fea2")]).getD ""
  sha256Hex text := (List.lookup text
    [("null", "74234e98afe7498fb5daf1f36ac2d78acc339464f950703b8c019892f982b90b")]).getD ""
  valueToString
    | .null => "null"
    | _ => ""
  debugStr s := s!"\"{s}\""
  debugValue
    | .null => "Null"
    | _ => ""

end Takeln
