import Takeln.Model.Graph

/-!
# Dynamic nodes

The handle by which a dynamic node calls other nodes of the graph (`dynamic.rs`).  A child runs inside the call of its
dynamic node: in a context of its own, but without retries, timeouts and checkpoints.
-/

namespace Takeln

open Effect (Prog)

/-- `ChildRunner`, with the names of the nodes it may call. -/
structure ChildRunner where
  nodes : List String

/-- The context of a child: it inherits the identity of the parent's. -/
def NodeContext.child [External] (ctx : NodeContext) (childName : String) : NodeContext :=
  NodeContext.new ctx.threadId childName 0 ctx.lastCheckpointId ctx.budgetRemainingEur ctx.cancellation none

/-- `ChildRunner::run_child` -/
def ChildRunner.runChild {S : Type} [External] (runner : ChildRunner) (childName : String) (ctx : NodeContext)
    (state : S) : Prog (ops S) GraphError (NodeOutput S) :=
  if childName ∈ runner.nodes then
    .perform (F := ops S) (.callNode (ctx.child childName) state none false) fun answer =>
      match CallAnswer.result childName answer with
      | .error (.yield request) => .fail (.yieldInDynamicNode request.interruptId)
      | .error e => .fail e
      | .ok output => .ret output
  else .fail (.fatal s!"Child node '{childName}' not found in graph")

end Takeln
