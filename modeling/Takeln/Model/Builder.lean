import Takeln.Model.Checkpoint
import Mathlib.Algebra.Ring.Nat
import Mathlib.Logic.Function.Basic

/-!
# The DAG builder

`DAGBuilder::build` of `dag.rs`: the check of the step types, the resolution of the names and the detection of cycles
by a worklist. The ids that are drawn for the entries are `newId 0`, `newId 1`, …; the id and the creation time of the
DAG itself are left out.
-/

namespace Takeln

/-- A set of names in their order. -/
abbrev BTreeSet := { names : List String // names.Pairwise (· < ·) }

/-- What the caller has declared. A `Vec` has less than 2 ^ 64 members. -/
structure DAGBuilder where
  entries : List (String × List String)
  /-- `none` means unconstrained -/
  allowedStepTypes : Option BTreeSet
  fits : entries.length < 2 ^ 64
  fits_dependsOn : ∀ e ∈ entries, e.2.length < 2 ^ 64

/-- Why there is no DAG. -/
inductive BuildFailure
  | error (message : String)
  | panicked
  deriving DecidableEq

/-- What the worklist does to a counter or to its queue. -/
inductive Touch
  | decremented (i before : Nat)
  | enqueued (i : Nat)
  deriving DecidableEq

/-- The counters, the queue and the number of visited nodes; `log` is what has been done so far. -/
structure Worklist where
  inDegree : List Nat
  queue : List Nat
  visited : Nat
  log : List Touch

namespace Worklist

/-- The counters hold the numbers of dependencies, and the nodes without one wait. -/
def start (nodes : List DAGNode) : Worklist :=
  let inDegree := nodes.map fun node => node.dependsOn.length
  let queue := (inDegree.zipIdx.filter fun p => p.1 = 0).map Prod.snd
  ⟨inDegree, queue, 0, queue.map .enqueued⟩

/-- `in_degree[i] -= 1`, and the node waits if that makes it 0. At 0 the subtraction panics, or wraps around where
overflow is not checked. -/
def decrement (overflowChecks : Bool) (i : Nat) (s : Worklist) : Except Worklist Worklist :=
  match s.inDegree[i]? with
  | none => .error s
  | some before =>
    let log := s.log ++ [.decremented i before]
    if before = 0 ∧ overflowChecks then .error { s with log := log }
    else
      let d := if before = 0 then 2 ^ 64 - 1 else before - 1
      let inDegree := s.inDegree.set i d
      if d = 0 then .ok { s with inDegree := inDegree, queue := s.queue ++ [i], log := log ++ [.enqueued i] }
      else .ok { s with inDegree := inDegree, log := log }

/-- Every node from the `i`-th on that depends on a visited id. -/
def sweep (overflowChecks : Bool) (nodeId : Uuid) : List DAGNode → Nat → Worklist → Except Worklist Worklist
  | [], _, s => .ok s
  | node :: nodes, i, s =>
    if node.dependsOn.contains nodeId then
      match s.decrement overflowChecks i with
      | .error s => .error s
      | .ok s => sweep overflowChecks nodeId nodes (i + 1) s
    else sweep overflowChecks nodeId nodes (i + 1) s

/-- Take the first node of the queue. -/
def visit (overflowChecks : Bool) (nodes : List DAGNode) (idx : Nat) (queue : List Nat) (s : Worklist) :
    Except Worklist Worklist :=
  match nodes[idx]? with
  | none => .error s
  | some node => sweep overflowChecks node.id nodes 0 { s with queue := queue, visited := s.visited + 1 }

/-- Visit nodes until none waits. -/
def run (overflowChecks : Bool) (nodes : List DAGNode) : Nat → Worklist → Except Worklist Worklist
  | 0, s => .ok s
  | fuel + 1, s =>
    match s.queue with
    | [] => .ok s
    | idx :: queue =>
      match s.visit overflowChecks nodes idx queue with
      | .error s => .error s
      | .ok s => run overflowChecks nodes fuel s

end Worklist

namespace DAGBuilder

variable (newId : Nat → Uuid) (overflowChecks : Bool) (b : DAGBuilder)

/-- The step types outside of the allowed ones are all named at once. -/
def checkStepTypes : Except BuildFailure Unit :=
  match b.allowedStepTypes with
  | none => .ok ()
  | some allowed =>
    let offenders := (b.entries.map Prod.fst).filter fun stepType => stepType ∉ allowed.1
    if offenders = [] then .ok ()
    else
      let declared := if allowed.1 = [] then "none declared" else ", ".intercalate allowed.1
      let named := ", ".intercalate offenders
      .error (.error s!"step type(s) not allowed: {named} (allowed: {declared})")

/-- First pass: the id of a step type is that of the last entry with it. -/
def nameToId : String → Option Uuid :=
  b.entries.zipIdx.foldl (fun ids p => Function.update ids p.1.1 (some (newId p.2))) fun _ => none

def resolveDep (ids : String → Option Uuid) (stepType dep : String) : Except BuildFailure Uuid :=
  match ids dep with
  | some id => .ok id
  | none => .error (.error s!"Dependency '{dep}' not found for node '{stepType}'")

/-- Second pass. -/
def resolveEntry (ids : String → Option Uuid) (entry : String × List String) : Except BuildFailure DAGNode := do
  let dependsOn ← entry.2.mapM (resolveDep ids entry.1)
  match ids entry.1 with
  | some id => .ok ⟨id, entry.1, dependsOn, .pending⟩
  | none => .error .panicked

def resolve : Except BuildFailure (List DAGNode) := do
  checkStepTypes b
  b.entries.mapM (resolveEntry (b.nameToId newId))

/-- The worklist at the end of the loop, or at a panic. -/
def topologicalSort (nodes : List DAGNode) : Except Worklist Worklist :=
  Worklist.run overflowChecks nodes nodes.length (.start nodes)

def verdict (nodes : List DAGNode) : Except Worklist Worklist → Except BuildFailure DAG
  | .error _ => .error .panicked
  | .ok s => if s.visited = nodes.length then .ok ⟨nodes⟩ else .error (.error "Cycle detected in DAG")

def build : Except BuildFailure DAG := do
  let nodes ← b.resolve newId
  verdict nodes (topologicalSort overflowChecks nodes)

/-- What the worklist has done, also if it has panicked. -/
def touched : Except Worklist Worklist → List Touch
  | .error s => s.log
  | .ok s => s.log

/-- What the worklist does in a build: nothing, where the build fails before. -/
def touches : List Touch :=
  match b.resolve newId with
  | .error _ => []
  | .ok nodes => touched (topologicalSort overflowChecks nodes)

end DAGBuilder

end Takeln
