import Takeln.Effect.Session
import Takeln.Concurrent.Calls
import Takeln.Threads.Saves

/-!
# Answering yields

`resume_with_input` reaches a yield only if `claim_interrupt` answers `Claimed`, and a claim looks for its interrupt in
the whole history first.  So a yield can be answered exactly if its id was never answered before on the thread
(`yield_answerable_iff`): a node that yields the same id on each visit is answered once.
-/

namespace Takeln

open Effect Effect.Prog

variable {S : Type} [State S] {env : Env S} {threadId : String} {w₀ w : World} {tr : List (Event (ops S))}

/-- A checkpoint of a run that was resumed for the interrupt was saved. -/
def Answered (threadId interruptId : String) (tr : List (Event (ops S))) : Prop :=
  ∃ args ∈ savesOf threadId tr, args.resolvedInterrupt = some interruptId

/-- On a thread that was empty at first, the resolved interrupts are the answered ones. -/
theorem resolved_iff_answered (hs : Steps (memory env) w₀ tr w) (hempty : w₀.rows threadId = []) (i : String) :
    Resolved (w.rows threadId) i ↔ Answered threadId i tr := by
  have hrows : (w.rows threadId).map MemoryCheckpoint.resolvedInterrupt =
      (w₀.rows threadId).map MemoryCheckpoint.resolvedInterrupt ++
        (savesOf threadId tr).map SaveArgs.resolvedInterrupt :=
    rows_map_of_steps (fun _ _ _ _ => rfl) (fun _ _ _ => rfl) hs threadId
  rw [hempty, List.map_nil, List.nil_append] at hrows
  have hmem : some i ∈ (w.rows threadId).map MemoryCheckpoint.resolvedInterrupt ↔
      some i ∈ (savesOf threadId tr).map SaveArgs.resolvedInterrupt := by
    rw [hrows]
  simpa only [List.mem_map, Resolved, Answered] using hmem

/-- Whatever was done on a thread, its last yield can be claimed if and only if no run resumed for its id has saved a
checkpoint before. -/
theorem yield_answerable_iff (hs : Steps (memory env) w₀ tr w) (hempty : w₀.rows threadId = [])
    {last : MemoryCheckpoint}
    {request : YieldRequest} (hlast : (w.rows threadId).getLast? = some last) (hyielded : last.status = .yielded)
    (hrequest : last.yieldRequest = some request) :
    (w.store.claimInterrupt threadId request.interruptId).1 = .ok .claimed ↔
      ¬ Answered threadId request.interruptId tr := by
  rw [MemoryStore.claimInterrupt_claimed_iff, ← resolved_iff_answered hs hempty]
  have hopen := open_iff_of_getLast? hlast (i := request.interruptId)
  constructor
  · intro h
    exact (hopen.1 h).1
  · intro hno
    exact hopen.2 ⟨hno, hyielded, request, hrequest, rfl⟩

/-! ### A node that asks on each visit -/

section Examples

/-- The functions of other crates, where `A` runs again after its second checkpoint. -/
@[reducible] def secondVisit : External where
  newV5 seed := if seed = "t:A:c1" then "7b1fffad-20a9-58a2-885d-d135db59d7c6" else shortRuns.newV5 seed
  sha256Hex := shortRuns.sha256Hex
  valueToString := shortRuns.valueToString
  debugStr := shortRuns.debugStr
  debugValue := shortRuns.debugValue

attribute [local instance] secondVisit

/-- A node that leads back to itself. -/
def circular : Graph Nat where
  nodes := ["A"]
  edges _ := some (.unconditional "A")

/-- Every visit asks for an approval, and goes on with it. -/
def alwaysAsking : Env Nat where
  newId n := s!"c{n}"
  now n := n
  answer _ ctx state _ _ := .returned <|
    if ctx.resumedInput.isSome then .ok { state := state + 1 } else .error (.yield (YieldRequest.simple "approve"))
  outcome _ task := .ok (.ok { state := task.state })
  order _ := inOrder

/-- The first visit asks. -/
def firstVisit : List (Call Nat × List (Event (ops Nat))) × World :=
  replay (memory alwaysAsking) (Call.prog "t") [(.run circular false 0 "A", 20)] [] World.empty

/-- It is answered, and the next visit asks again. -/
def revisited : List (Call Nat × List (Event (ops Nat))) × World :=
  replay (memory alwaysAsking) (Call.prog "t") [(.resumeWithInput circular false "approve" .null {}, 40)] firstVisit.1
    firstVisit.2

theorem firstVisit_session : Session (memory alwaysAsking) (Call.prog "t") World.empty firstVisit.1 firstVisit.2 :=
  Session.start.replay _

/-- The second answer is taken for the first one: the resume returns, and executes nothing. -/
theorem yield_answerable_false :
    Session (memory alwaysAsking) (Call.prog "t") World.empty revisited.1 revisited.2 ∧
      ((revisited.2.rows "t").getLast?.map fun last =>
        (last.status, last.yieldRequest.map YieldRequest.interruptId)) = some (.yielded, some "approve") ∧
      (revisited.2.store.claimInterrupt "t" "approve").1 = .ok .alreadyCompleted ∧
      ∃ u, exec (memory alwaysAsking) (circular.resumeWithInput "t" false "approve" .null {}) revisited.2 = some u ∧
        u.result = .ok (some 1) ∧ executions u.trace = [] := by
  refine ⟨firstVisit_session.replay _, by decide +kernel, by decide +kernel, ?_⟩
  exact ⟨_, (Option.some_get (show Option.isSome _ = true by decide +kernel)).symm, by decide +kernel,
    by decide +kernel⟩

def asksFirst : MemoryCheckpoint := (firstVisit.2.rows "t").getLast?.get (by decide +kernel)

theorem getLast?_asksFirst : (firstVisit.2.rows "t").getLast? = some asksFirst := (Option.some_get _).symm

theorem yield_answerable_firstVisit :
    (firstVisit.2.store.claimInterrupt "t" "approve").1 = .ok .claimed ↔
      ¬ Answered "t" "approve" (performed firstVisit.1) := by
  have hid : asksFirst.yieldRequest.map YieldRequest.interruptId = some "approve" := by decide +kernel
  obtain ⟨request, hrequest, hname⟩ := Option.map_eq_some_iff.1 hid
  rw [← hname]
  exact yield_answerable_iff firstVisit_session.steps rfl getLast?_asksFirst (by decide +kernel) hrequest

end Examples

end Takeln
