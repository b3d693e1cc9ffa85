import Mathlib.Data.List.Induction
import Takeln.Concurrent.Calls
import Takeln.Effect.Session

/-!
# Executions

The node executions of a session of calls on one thread, in the sequential loop and in waves, each with what was done
before it: the latest checkpoint of the thread, and what its own call has done.
-/

namespace Takeln

open Effect Effect.Prog

variable {S : Type}

/-! ### Saved checkpoints -/

/-- The id of the checkpoint that an operation saved. -/
def savedId : Event (ops S) → Option String
  | ⟨.saveStateBound _, .ok save⟩ => (checkpointId save).toOption
  | _ => none

/-- The id of the checkpoint saved last. -/
def lastSaved (tr : List (Event (ops S))) : Option String := (tr.filterMap savedId).getLast?

theorem lastSaved_append (tr tr' : List (Event (ops S))) :
    lastSaved (tr ++ tr') = (lastSaved tr').or (lastSaved tr) := by
  unfold lastSaved
  rw [List.filterMap_append, List.getLast?_append]

theorem lastSaved_concat (tr : List (Event (ops S))) (e : Event (ops S)) :
    lastSaved (tr ++ [e]) = (savedId e).or (lastSaved tr) := by
  rw [lastSaved_append]
  cases h : savedId e <;> simp [lastSaved, h]

/-! ### Executions in a session -/

/-- The id of the node at an index of the DAG of a call. -/
def Call.dagNode (call : Call S) (idx : Nat) : Option Uuid :=
  call.dag.bind fun dag => dag.nodes[idx]?.map DAGNode.id

/-- An operation of a call hands a context to a node: to the current one of the sequential loop, or to one of a wave, at
some attempt. -/
inductive Hands [External] (call : Call S) : Event (ops S) → Option Uuid → NodeContext → Prop
  | called (ctx : NodeContext) (state : S) (timeout : Option Duration) (token : Bool) (r : CallAnswer S timeout token) :
      Hands call ⟨.callNode ctx state timeout token, r⟩ none ctx
  | launched (tasks : List (WaveTask S)) (r : List (JoinResult S)) (t : WaveTask S) (ht : t ∈ tasks) (attempt : Nat)
      (id : Uuid) (hid : call.dagNode t.idx = some id) : Hands call ⟨.joinWave tasks, r⟩ (some id) (t.context attempt)

/-- An execution of a node: the earlier calls, its own one and what that has done before, the DAG node it is of if it is
part of a wave, and the context the node is handed. -/
structure Execution (S : Type) where
  earlier : List (Call S × List (Event (ops S)))
  call : Call S
  done : List (Event (ops S))
  dagNode : Option Uuid
  ctx : NodeContext

namespace Execution

/-- Everything done before on the thread. -/
def before (e : Execution S) : List (Event (ops S)) := performed e.earlier ++ e.done

/-- The calls contain the execution. -/
def In [External] (e : Execution S) (calls : List (Call S × List (Event (ops S)))) : Prop :=
  ∃ ev rest later, calls = e.earlier ++ (e.call, e.done ++ ev :: rest) :: later ∧ Hands e.call ev e.dagNode e.ctx

/-- The latest checkpoint of the thread; `none` if nothing has been saved in the session. -/
def latest (e : Execution S) : Option String := lastSaved e.before

end Execution

/-! ### Reading executions off -/

/-- The context an operation hands to the current node. -/
def calledContext : Event (ops S) → Option NodeContext
  | ⟨.callNode ctx _ _ _, _⟩ => some ctx
  | _ => none

/-- The execution that is operation `k` of call `i`. -/
def executionAt (calls : List (Call S × List (Event (ops S)))) (i k : Nat) : Option (Execution S) :=
  calls[i]?.bind fun c => c.2[k]?.bind fun ev => (calledContext ev).map fun ctx =>
    { earlier := calls.take i, call := c.1, done := c.2.take k, dagNode := none, ctx := ctx }

theorem in_of_executionAt [External] {calls : List (Call S × List (Event (ops S)))} {i k : Nat} {e : Execution S}
    (h : executionAt calls i k = some e) : e.In calls := by
  obtain ⟨⟨call, tr⟩, hi, h⟩ := Option.bind_eq_some_iff.1 h
  obtain ⟨ev, hk, h⟩ := Option.bind_eq_some_iff.1 h
  obtain ⟨ctx, hctx, rfl⟩ := Option.map_eq_some_iff.1 h
  refine ⟨ev, tr.drop (k + 1), calls.drop (i + 1), ?_, ?_⟩
  · obtain ⟨hlt, hget⟩ := List.getElem?_eq_some_iff.1 hi
    obtain ⟨hlt', hget'⟩ := List.getElem?_eq_some_iff.1 hk
    have htr : tr.take k ++ ev :: tr.drop (k + 1) = tr := by
      rw [← hget', List.getElem_cons_drop, List.take_append_drop]
    dsimp only
    rw [htr, ← hget, List.getElem_cons_drop, List.take_append_drop]
  · obtain ⟨o, r⟩ := ev
    cases o with
    | callNode ctx' state timeout token =>
      cases hctx
      exact .called _ _ _ _ _
    | _ => cases hctx

theorem earlier_of_executionAt {calls : List (Call S × List (Event (ops S)))} {i k : Nat} {e : Execution S}
    (h : executionAt calls i k = some e) : e.earlier = calls.take i := by
  obtain ⟨c, _, h⟩ := Option.bind_eq_some_iff.1 h
  obtain ⟨ev, _, h⟩ := Option.bind_eq_some_iff.1 h
  obtain ⟨ctx, _, rfl⟩ := Option.map_eq_some_iff.1 h
  rfl

end Takeln
