import Takeln.Effect.Interleave
import Takeln.Model.Waves

/-!
# The tasks of a wave

What `run_dag` spawns for a node of a wave: wait for a permit of the semaphore, announce the node, call it, announce
how it ended, and give the permit back.  The tasks of a wave share the semaphore and the counter of the events, and run
interleaved.  Taking a number (`fetch_add`) and broadcasting the event that carries it are two operations.
-/

namespace Takeln

open Effect (Signature Prog Semantics Entry)

/-- What a task asks of the world it shares with the others. -/
inductive TaskOp (S : Type)
  | acquire
  | fetchAdd
  | send (event : GraphEvent)
  | callNode (ctx : NodeContext) (state : S) (timeout : Option Duration) (token : Bool)
  | release

/-- A call may panic. -/
def TaskOp.Answer {S : Type} : TaskOp S → Type
  | acquire => Unit
  | fetchAdd => Nat
  | send _ => Unit
  | callNode _ _ timeout token => Except String (CallAnswer S timeout token)
  | release => Unit

abbrev taskOps (S : Type) : Signature := ⟨TaskOp S, TaskOp.Answer⟩

variable {S E : Type}

/-- Number an event and broadcast it. -/
def announce (event : Nat → GraphEvent) : Prog (taskOps S) E Unit :=
  Prog.perform (F := taskOps S) .fetchAdd fun n => .perform (F := taskOps S) (.send (event n)) fun _ => .ret ()

def acquire : Prog (taskOps S) E Unit := Prog.perform (F := taskOps S) .acquire fun _ => .ret ()

/-- The permit is given back when the task drops it. -/
def release : Prog (taskOps S) E Unit := Prog.perform (F := taskOps S) .release fun _ => .ret ()

/-- The status and the cost a wave announces for the end of a node. -/
def announced : Except GraphError (NodeOutput S) → String × Option Eur
  | .ok out => ("success", out.info.costEur)
  | .error (.yield _) => ("yielded", none)
  | .error _ => ("failed", none)

namespace WaveTask

variable [External] (g : Graph S) (t : WaveTask S)

/-- The retry loop of a regular node.  `left` is `max_attempts - 1 - attempt`. -/
def callRetrying : Nat → Nat → Prog (taskOps S) String (Except GraphError (NodeOutput S))
  | left, attempt =>
    .perform (F := taskOps S)
      (.callNode (t.context attempt) t.state (g.effectiveTimeout t.nodeName) t.cancellation) fun answer =>
      match answer with
      | .error panic => .fail panic
      | .ok answer =>
        match CallAnswer.result t.nodeName answer with
        | .ok out => .ret (.ok out)
        | .error (.retryable msg) =>
          match left with
          | 0 => .ret (.error (.retryable msg))
          | left + 1 => callRetrying left (attempt + 1)
        | .error e => .ret (.error e)

/-- Call the node of a task: a dynamic node once, a regular one under its retry policy. -/
def callNode : Prog (taskOps S) String (Except GraphError (NodeOutput S)) :=
  if t.nodeName ∈ g.dynamicNodes then
    .perform (F := taskOps S) (.callNode (t.context 0) t.state none false) fun answer =>
      match answer with
      | .error panic => .fail panic
      | .ok answer => .ret (CallAnswer.result t.nodeName answer)
  else t.callRetrying g ((g.effectiveRetry t.nodeName).maxAttempts - 1) 0

/-- The task.  A panic of the node ends it without a further event; the permit is dropped all the same. -/
def run : Prog (taskOps S) String (Nat × Except GraphError (NodeOutput S)) := do
  acquire
  announce (.nodeStarted t.threadId t.nodeName)
  match ← (t.callNode g).attempt with
  | .error panic => do
    release
    .fail panic
  | .ok result => do
    announce (.nodeFinished t.threadId t.nodeName (announced result).1 (announced result).2)
    release
    return (t.idx, result)

end WaveTask

/-! ### The world of a wave -/

/-- The free permits of the semaphore, and the counter of the events. -/
structure WaveWorld where
  permits : Nat
  eventSeq : Nat

/-- The semaphore of `run_dag` has at least one permit. -/
def WaveWorld.start (g : Graph S) (eventSeq : Nat) : WaveWorld where
  permits := max g.resourceLimits.maxConcurrentNodes 1
  eventSeq := eventSeq

/-- What an operation may be answered: a task that finds no permit waits, and a call may end in any way. -/
def taskSteps : Semantics (taskOps S) WaveWorld
  | w, .acquire, _, w' => 0 < w.permits ∧ w' = { w with permits := w.permits - 1 }
  | w, .fetchAdd, n, w' => n = w.eventSeq ∧ w' = { w with eventSeq := w.eventSeq + 1 }
  | w, .send _, _, w' => w' = w
  | w, .callNode .., _, w' => w' = w
  | w, .release, _, w' => w' = { w with permits := w.permits + 1 }

def TaskOp.sent : TaskOp S → Option GraphEvent
  | send event => some event
  | _ => none

def GraphEvent.sequenceNumber : GraphEvent → Nat
  | nodeStarted _ _ n => n
  | nodeFinished _ _ _ _ n => n
  | graphFinished _ _ n => n

/-- What a subscriber of the broadcast channel receives: the events in the order in which they were sent. -/
def received {ι : Type} (tr : List (Entry (taskOps S) ι WaveWorld)) : List GraphEvent :=
  tr.filterMap fun e => TaskOp.sent e.op

@[simp] theorem received_nil {ι : Type} : received ([] : List (Entry (taskOps S) ι WaveWorld)) = [] := rfl

@[simp] theorem received_append {ι : Type} (tr tr' : List (Entry (taskOps S) ι WaveWorld)) :
    received (tr ++ tr') = received tr ++ received tr' := List.filterMap_append

end Takeln
