import Takeln.Sequential.Executed
import Takeln.Sequential.Rounds

/-!
# The step limit

The loop checks its counter before it looks for `__END__`, so that the round that would find it counts as a step. A run
whose path ends after exactly as many nodes as the limit allows fails, whatever it ends at; the limit is exact if no
path does that (`step_limit_exact_iff`).
-/

namespace Takeln

open Effect Effect.Prog

variable {S : Type}

/-! ### Where the limit is reached -/

section

variable [External] [State S] {env : Env S} {g : Graph S} {threadId : String} {cancellation : Bool}
  {resolvedInterrupt : Option String} {state : S} {startNode : String} {input : Option Value} {w : World}

omit [External] in
theorem saveError_ne_stepLimit {s : S} {e : TakelnError} (h : g.saveError s = some e) (steps limit : Nat) :
    e ≠ .stepLimitExceeded steps limit := by
  rintro rfl
  unfold Graph.saveError at h
  split at h
  · rename_i e' hsize
    cases h
    unfold Graph.checkCheckpointSize at hsize
    dsimp only at hsize
    split_ifs at hsize
    cases hsize
  · cases h
  · cases h

/-- Neither a node nor a save is answered with the error of the step limit. -/
theorem raises_loopBody (v : Loop S) :
    Raises (memory env) (fun e => ∀ steps limit, e.1 ≠ .stepLimitExceeded steps limit)
      (g.loopBody threadId cancellation resolvedInterrupt v) := by
  have hemit (event : Nat → GraphEvent) : Raises (memory env)
    (fun e => ∀ steps limit, e.1 ≠ .stepLimitExceeded steps limit)
      (emit event : Prog (ops S) RunError Unit) := raises_perform fun _ => raises_perform fun _ => raises_ret ()
  have hsave (args : SaveArgs S) (f : String → Flow S) :
      Raises (memory env) (fun e => ∀ steps limit, e.1 ≠ .stepLimitExceeded steps limit)
        (((g.saveChecked args).mapError (·, v.lastHead)).bind fun id => .ret (f id)) := by
    refine raises_bind (raises_mapError fun w u e hu he => ?_) fun id => raises_ret _
    rcases exec_saveChecked hu with ⟨val, id, -, hres, -⟩ | ⟨⟨e', herr, hres⟩, -, -⟩
    · rw [hres] at he
      cases he
    · rw [hres] at he
      cases he
      exact saveError_ne_stepLimit herr
  have hfail (event : Nat → GraphEvent) {e : TakelnError} (he : ∀ steps limit, e ≠ .stepLimitExceeded steps limit) :
      Raises (memory env) (fun e => ∀ steps limit, e.1 ≠ .stepLimitExceeded steps limit)
        ((emit event).bind fun _ => (.fail (e, v.lastHead) : Prog (ops S) RunError (Flow S))) :=
    raises_bind (hemit event) fun _ => raises_fail he
  unfold Graph.loopBody
  split
  · exact raises_bind (hemit _) fun _ => raises_ret _
  split
  · exact hsave _ _
  split
  · exact raises_fail (by simp)
  refine raises_bind (hemit _) fun _ => raises_bind ?_ fun y => ?_
  -- the call of a node returns its error as a value
  · intro w u e hu he
    obtain ⟨attempts, u', hu', hres, -⟩ := exec_callNode (E := RunError) env g threadId cancellation v w
    rw [hu] at hu'
    cases hu'
    rw [hres] at he
    cases he
  · rcases y with ⟨attempt, err | out⟩
    · unfold Graph.onError
      cases err with
      | yield request => exact raises_bind (hemit _) fun _ => hsave _ _
      | yieldInDynamicNode i => exact raises_fail (by simp)
      | _ => exact hfail _ (by simp)
    · unfold Graph.onSuccess
      dsimp only
      split
      · exact hfail _ (by simp)
      split
      · exact hfail _ (by simp)
      · exact raises_bind (raises_perform fun _ => raises_ret ()) fun _ => raises_bind (hemit _) fun _ => hsave _ _

/-- After as many nodes as the limit allows the loop is in the state `v`. -/
def Graph.AtLimit (env : Env S) (g : Graph S) (threadId : String) (cancellation : Bool)
    (resolvedInterrupt : Option String)
    (state : S) (startNode : String) (input : Option Value) (w : World) (v : Loop S) : Prop :=
  ∃ w' tr, g.rounds (memory env) threadId cancellation resolvedInterrupt g.resourceLimits.maxSequentialSteps
    (.start state startNode input none) w = some (v, w', tr)

/-- No run executes more nodes than the limit allows, it fails with the error of the limit exactly if its path would
execute another node after as many, and a path that is at `__END__` after exactly as many returns its state. -/
structure StepLimitExact (env : Env S) (g : Graph S) (threadId : String) (cancellation : Bool)
    (resolvedInterrupt : Option String) (state : S) (startNode : String) (input : Option Value) (w : World) : Prop where
  atMost (tr : List (Event (ops S))) (p : Prog (ops S) RunError S) (w' : World) :
    Reaches (memory env) (g.runInner threadId cancellation resolvedInterrupt state startNode input) w tr p w' →
      (executed tr).length ≤ g.resourceLimits.maxSequentialSteps
  exceeded_iff : (∃ steps limit head w' tr, exec (memory env)
      (g.runInner threadId cancellation resolvedInterrupt state startNode input) w =
        some ⟨.error (.stepLimitExceeded steps limit, head), w', tr⟩) ↔
    ∃ v, g.AtLimit env threadId cancellation resolvedInterrupt state startNode input w v ∧ g.Runs v
  finished (v : Loop S) : g.AtLimit env threadId cancellation resolvedInterrupt state startNode input w v →
    v.currentNodeName = "__END__" → ∃ w' tr, exec (memory env)
      (g.runInner threadId cancellation resolvedInterrupt state startNode input) w = some ⟨.ok v.state, w', tr⟩

/-- Where the limit is reached the run fails. -/
theorem exec_runInner_of_atLimit {v : Loop S}
    (h : g.AtLimit env threadId cancellation resolvedInterrupt state startNode input w v) :
    ∃ steps limit head w' tr, exec (memory env)
      (g.runInner threadId cancellation resolvedInterrupt state startNode input) w =
        some ⟨.error (.stepLimitExceeded steps limit, head), w', tr⟩ := by
  obtain ⟨w', tr, hrounds⟩ := h
  have hloop := exec_runLoop_of_rounds hrounds 0
  rw [Nat.add_zero] at hloop
  exact ⟨_, _, v.lastHead, w', ⟨.currentHead threadId, (.ok none : Except TakelnError (Option String))⟩ :: (tr ++ []),
    congrArg (Option.map (Run.after _)) hloop⟩

theorem runs_of_stepLimitExact (h : StepLimitExact env g threadId cancellation resolvedInterrupt state
    startNode input w)
    {v : Loop S} (hv : g.AtLimit env threadId cancellation resolvedInterrupt state startNode input w v) : g.Runs v := by
  obtain ⟨v', ⟨w₁, tr₁, hrounds⟩, hruns⟩ := h.exceeded_iff.1 (exec_runInner_of_atLimit hv)
  obtain ⟨w₂, tr₂, hrounds'⟩ := hv
  rw [hrounds] at hrounds'
  cases hrounds'
  exact hruns

/-- The step limit is exact if and only if the path does not end after exactly as many nodes as the limit allows. -/
theorem step_limit_exact_iff :
    StepLimitExact env g threadId cancellation resolvedInterrupt state startNode input w ↔
      ∀ v, g.AtLimit env threadId cancellation resolvedInterrupt state startNode input w v → g.Runs v := by
  refine ⟨fun h v hv => runs_of_stepLimitExact h hv, fun hruns =>
    ⟨fun tr p w' hr => (startsWith_executed hr).length_le, ?_, ?_⟩⟩
  · constructor
    · rintro ⟨steps, limit, head, w', tr, hu⟩
      obtain ⟨u, hloop, heq⟩ := Option.map_eq_some_iff.1 hu
      obtain ⟨n, v, w₁, tr₁, hrounds, ⟨rfl, -⟩ | ⟨-, x, w₂, tr₂, hlast, -, rfl⟩⟩ := exec_runLoop_rounds hloop
      · exact ⟨v, ⟨w₁, tr₁, hrounds⟩, hruns v ⟨w₁, tr₁, hrounds⟩⟩
      · have hres : x.map Flow.state = .error (.stepLimitExceeded steps limit, head) := congrArg Run.result heq
        cases x with
        | ok flow => cases hres
        | error e =>
          cases hres
          exact absurd rfl (raises_loopBody v _ _ _ hlast rfl steps limit)
    · rintro ⟨v, hv, -⟩
      exact exec_runInner_of_atLimit hv
  · intro v hv hname
    exact absurd hname (hruns v hv).1

end

section Examples

attribute [local instance] shortRuns

/-- One node, and one step. -/
def oneStep : Graph Nat where
  nodes := ["A"]
  edges _ := none
  resourceLimits := { maxSequentialSteps := 1 }

/-- Every node returns the next number. -/
def succeeding : Env Nat where
  newId n := s!"c{n}"
  now n := n
  answer _ _ state _ _ := .returned (.ok { state := state + 1 })
  outcome _ task := .ok (.ok { state := task.state })
  order _ := inOrder

theorem step_limit_exact_false : ¬ StepLimitExact succeeding oneStep "t" false none 0 "A" none .empty := by
  intro h
  have hend : (oneStep.rounds (memory succeeding) "t" false none 1 (.start 0 "A" none none) .empty).map
      (fun x => x.1.currentNodeName) = some "__END__" := by decide +kernel
  obtain ⟨⟨v, w, tr⟩, hrounds, hname⟩ := Option.map_eq_some_iff.1 hend
  exact (runs_of_stepLimitExact h ⟨w, tr, hrounds⟩).1 hname

end Examples

end Takeln
