import Takeln.Sequential.Path

/-!
# Pipelines

A pipeline is a list of names, executed one after the other.  `Graph.pipe` says what is executed and saved of one,
with gates, budgets, unknown names and states that cannot be saved, in terms of neither engine.  Where nodes succeed and
depend only on the state, the sequential engine does this on the names its edges lead to (`exec_run_pipe`).
-/

namespace Takeln

open Effect Effect.Prog

variable {S E α : Type} {env : Env S} {g : Graph S} {threadId : String} {cancellation : Bool}
  {resolvedInterrupt : Option String} {w : World} {node : String → S → NodeOutput S}

/-! ### What is executed of a pipeline -/

/-- A checkpoint, as far as both engines save it. -/
abbrev Saved (S : Type) := S × String × CheckpointStatus

/-- The result of a pipeline, the names that were executed, and the checkpoints. -/
structure Piped (S : Type) where
  result : Except TakelnError S
  executed : List String := []
  saved : List (Saved S) := []

/-- What is executed and saved before. -/
def Piped.after (p : Piped S) (name : String) (saved : Saved S) : Piped S where
  result := p.result
  executed := name :: p.executed
  saved := saved :: p.saved

variable [State S]

/-- What refuses the output of a node, with `spent` on the account before. -/
def Graph.refusal (g : Graph S) (name : String) (spent : Eur) (out : NodeOutput S) : Option TakelnError :=
  match exceeded (g.effectiveNodeBudget name) out.info.cost with
  | some limit => some (.budgetExceeded out.info.cost limit)
  | none =>
    match exceeded g.budgetEur (spent + out.info.cost) with
    | some limit => some (.budgetExceeded (spent + out.info.cost) limit)
    | none => g.saveError out.state

/-- Where the node can be afforded, the graph and the save remain. -/
theorem Graph.refusal_eq {g : Graph S} {name : String} {out : NodeOutput S}
    (h : exceeded (g.effectiveNodeBudget name) out.info.cost = none) (spent : Eur) :
    g.refusal name spent out = match exceeded g.budgetEur (spent + out.info.cost) with
      | some limit => some (.budgetExceeded (spent + out.info.cost) limit)
      | none => g.saveError out.state := by
  unfold Graph.refusal
  rw [h]

/-- What is executed and saved of a pipeline in a state, with `spent` on the account; `first` says that nothing was
executed before. -/
def Graph.pipe (g : Graph S) (node : String → S → NodeOutput S) : List String → Bool → Eur → S → Piped S
  | [], _, _, state => { result := .ok state }
  | name :: names, first, spent, state =>
    if first = false ∧ name ∈ g.interruptBefore then
      match g.saveError state with
      | some e => { result := .error e }
      | none => { result := .ok state, saved := [(state, name, .interrupted)] }
    else if ¬ g.registered name then { result := .error (.nodeNotFound name) }
    else
      let out := node name state
      match g.refusal name spent out with
      | some e => { result := .error e, executed := [name] }
      | none =>
        let saved := (out.state, names.head?.getD "__END__", CheckpointStatus.complete)
        if name ∈ g.interruptAfter then { result := .ok out.state, executed := [name], saved := [saved] }
        else (g.pipe node names false (spent + out.info.cost) out.state).after name saved

section Pipe

variable {name : String} {names : List String} {first : Bool} {spent : Eur} {state : S}

theorem Graph.pipe_gated (hgate : first = false ∧ name ∈ g.interruptBefore) :
    g.pipe node (name :: names) first spent state =
      match g.saveError state with
      | some e => { result := .error e }
      | none => { result := .ok state, saved := [(state, name, .interrupted)] } := if_pos hgate

variable (hgate : ¬ (first = false ∧ name ∈ g.interruptBefore))
include hgate

theorem Graph.pipe_unregistered (hreg : ¬ g.registered name) :
    g.pipe node (name :: names) first spent state = { result := .error (.nodeNotFound name) } := by
  rw [Graph.pipe, if_neg hgate, if_pos hreg]

variable (hreg : g.registered name)
include hreg

theorem Graph.pipe_refused {e : TakelnError} (hrefusal : g.refusal name spent (node name state) = some e) :
    g.pipe node (name :: names) first spent state = { result := .error e, executed := [name] } := by
  rw [Graph.pipe, if_neg hgate, if_neg (not_not.2 hreg)]
  dsimp only
  rw [hrefusal]

/-- The state a node leaves, and the checkpoint it is saved in. -/
theorem Graph.pipe_saved (hrefusal : g.refusal name spent (node name state) = none) :
    g.pipe node (name :: names) first spent state =
      if name ∈ g.interruptAfter then
        { result := .ok (node name state).state, executed := [name]
          saved := [((node name state).state, names.head?.getD "__END__", .complete)] }
      else (g.pipe node names false (spent + (node name state).info.cost) (node name state).state).after name
        ((node name state).state, names.head?.getD "__END__", .complete) := by
  rw [Graph.pipe, if_neg hgate, if_neg (not_not.2 hreg)]
  dsimp only
  rw [hrefusal]

end Pipe

/-- What a run came to, what it executed and what it wrote, is what is executed and saved of a pipeline. -/
structure Realises (p : Piped S) (result : Except TakelnError S) (executed : List String) (saves : List (SaveArgs S)) :
    Prop where
  result : result = p.result
  executed : executed = p.executed
  saved : saves.map (fun args => (args.state, args.nextNode, args.status)) = p.saved

/-- The names that the edges lead to from a state and a node, up to `__END__`. -/
inductive Graph.Unrolls (g : Graph S) (node : String → S → NodeOutput S) : S → String → List String → Prop
  | ended (state : S) : Unrolls g node state "__END__" []
  | step {state : S} {name : String} {names : List String} (hname : name ≠ "__END__")
      (hrest : Unrolls g node (node name state).state (g.nextNode name (node name state)) names) :
      Unrolls g node state name (name :: names)

omit [State S] in
theorem Graph.Unrolls.name_eq {state : S} {name : String} {names : List String} (h : g.Unrolls node state name names) :
    name = names.head?.getD "__END__" := by
  cases h <;> rfl

omit [State S] in
theorem Graph.Unrolls.cons {state : S} {name name' : String} {names : List String}
    (h : g.Unrolls node state name (name' :: names)) :
    name' = name ∧ name ≠ "__END__" ∧
      g.Unrolls node (node name state).state (g.nextNode name (node name state)) names := by
  cases h with
  | step hname hrest => exact ⟨rfl, hname, hrest⟩

/-! ### The sequential engine -/

theorem Graph.saveError_of_savable {state : S} {val : Value} (h : g.Savable state val) : g.saveError state = none := by
  unfold Graph.saveError
  rw [h.1, h.2]

variable [External]

variable (g threadId cancellation) in
/-- A node that succeeds is called once. -/
theorem exec_callNode_of_succeeds (hsucc : env.Succeeds node) (v : Loop S) (w : World) :
    ∃ attempts u, exec (memory env) (g.callNode threadId cancellation v : Prog (ops S) E _) w = some u ∧
      u.result = .ok (attempts, .ok (node v.currentNodeName v.state)) ∧ Quiet w [v.currentNodeName] u := by
  obtain ⟨attempts, u, hu, hres, hq⟩ := exec_callNode (E := E) env g threadId cancellation v w
  have hrun := nodeRun_of_succeeds g threadId cancellation hsucc v w.calls
  rw [Graph.nodeResult, hrun] at hres
  rw [hrun] at hq
  exact ⟨attempts, u, hu, hres, hq⟩

/-- What the engine makes of an output. -/
inductive Accepts (env : Env S) (g : Graph S) (threadId : String) (resolvedInterrupt : Option String) (v : Loop S)
    (out : NodeOutput S) (w : World) (u : Run (ops S) RunError (Flow S) World) : Prop
  | refused (e : TakelnError) (hrefusal : g.refusal v.currentNodeName v.runningCostEur out = some e)
      (hres : u.result = .error (e, v.lastHead)) (hquiet : Quiet w [] u)
  | saved (val : Value) (id : String) (hrefusal : g.refusal v.currentNodeName v.runningCostEur out = none)
      (hres : u.result = .ok (if v.currentNodeName ∈ g.interruptAfter then .stop (v.afterSave out id)
        else .next { v.afterSave out id with currentNodeName := g.nextNode v.currentNodeName out }))
      (hsaves : Saves env w [] (Graph.loopSave threadId v out.state (g.nextNode v.currentNodeName out) .complete none
        resolvedInterrupt) val id u)

omit [External] in
theorem accepts_of_exec {v : Loop S} {attempt : Nat} {out : NodeOutput S} {u : Run (ops S) RunError (Flow S) World}
    (hu : exec (memory env) (g.onSuccess threadId resolvedInterrupt v attempt out) w = some u) :
    Accepts env g threadId resolvedInterrupt v out w u := by
  have hfail {limit : Eur} {spent : Eur} (hrefusal : g.refusal v.currentNodeName v.runningCostEur out =
        some (.budgetExceeded spent limit))
      (hfailed : exec (memory env) ((emit (.nodeFinished threadId v.currentNodeName "failed" out.info.costEur)).bind
        fun _ => .fail (.budgetExceeded spent limit, v.lastHead)) w = some u) :
      Accepts env g threadId resolvedInterrupt v out w u := by
    obtain ⟨tr, hem, hq⟩ := exec_emit (E := RunError) env
      (.nodeFinished threadId v.currentNodeName "failed" out.info.costEur) w
    rw [exec_bind_ok hem] at hfailed
    cases hfailed
    exact .refused _ hrefusal rfl
      ⟨hq.store, by simpa [Run.after] using hq.writes, by simpa [Run.after] using hq.executions⟩
  unfold Graph.onSuccess at hu
  dsimp only at hu
  split at hu
  · rename_i limit hnode
    exact hfail (by unfold Graph.refusal; rw [hnode]) hu
  · rename_i hnode
    split at hu
    · rename_i limit hrun
      exact hfail (by unfold Graph.refusal; rw [hnode]; dsimp only; rw [hrun]) hu
    · rename_i hrun
      have hrefusal : g.refusal v.currentNodeName v.runningCostEur out = g.saveError out.state := by
        unfold Graph.refusal
        rw [hnode]
        dsimp only
        rw [hrun]
      rcases exec_bind_eq_some hu with ⟨e, w₁, t₁, hrec, rfl⟩ | ⟨_, w₁, t₁, u₁, hrec, hu₁, rfl⟩
      · cases (exec_record hrec).1
      obtain ⟨_, hq₁, _⟩ := exec_record hrec
      obtain ⟨t₂, hem, hq₂⟩ := exec_emit (E := RunError) env
        (.nodeFinished threadId v.currentNodeName "success" out.info.costEur) w₁
      rw [bind_eq, exec_bind_ok hem] at hu₁
      obtain ⟨u₂, hu₂, rfl⟩ := Option.map_eq_some_iff.1 hu₁
      rcases exec_saveThen hu₂ with ⟨val, id, hval, hres, hsaves⟩ | ⟨⟨e, herr, hres⟩, _, hq₃⟩
      · exact .saved val id (hrefusal.trans (Graph.saveError_of_savable hval)) hres
          (Saves.after hq₁ (Saves.after hq₂ hsaves))
      · exact .refused e (hrefusal.trans herr) hres (hq₁.after (hq₂.after hq₃))

/-- A round executes the current node, unless a gate stops it or the name is unknown. -/
inductive PipeRound (env : Env S) (g : Graph S) (threadId : String) (resolvedInterrupt : Option String)
    (node : String → S → NodeOutput S) (v : Loop S) (w : World) (u : Run (ops S) RunError (Flow S) World) : Prop
  | gateFailed (e : TakelnError) (hgate : g.GatedBefore v) (herr : g.saveError v.state = some e)
      (hres : u.result = .error (e, v.lastHead)) (hquiet : Quiet w [] u)
  | gated (val : Value) (id : String) (hgate : g.GatedBefore v) (herr : g.saveError v.state = none)
      (hres : u.result = .ok (.stop v))
      (hsaves : Saves env w [] (Graph.loopSave threadId v v.state v.currentNodeName .interrupted none
        resolvedInterrupt) val id u)
  | unregistered (hgate : ¬ g.GatedBefore v) (hreg : ¬ g.registered v.currentNodeName)
      (hres : u.result = .error (.nodeNotFound v.currentNodeName, v.lastHead)) (hquiet : Quiet w [] u)
  | executed (w₁ : World) (tr : List (Event (ops S))) (u₁ : Run (ops S) RunError (Flow S) World)
      (hgate : ¬ g.GatedBefore v) (hreg : g.registered v.currentNodeName)
      (hbefore : Quiet w [v.currentNodeName] (⟨.ok (), w₁, tr⟩ : Run (ops S) RunError Unit World))
      (haccepts : Accepts env g threadId resolvedInterrupt v (node v.currentNodeName v.state) w₁ u₁)
      (hu : u = u₁.after tr)

theorem pipeRound_of_exec (hsucc : env.Succeeds node) {v : Loop S} (hname : v.currentNodeName ≠ "__END__")
    {u : Run (ops S) RunError (Flow S) World}
    (hu : exec (memory env) (g.loopBody threadId cancellation resolvedInterrupt v) w = some u) :
    PipeRound env g threadId resolvedInterrupt node v w u := by
  unfold Graph.loopBody at hu
  rw [if_neg hname] at hu
  split at hu
  · rename_i hgate
    rcases exec_saveThen hu with ⟨val, id, hval, hres, hsaves⟩ | ⟨⟨e, herr, hres⟩, _, hq⟩
    · exact .gated val id hgate (Graph.saveError_of_savable hval) hres hsaves
    · exact .gateFailed e hgate herr hres hq
  rename_i hgate
  split at hu
  · rename_i hreg
    cases hu
    exact .unregistered hgate hreg rfl ⟨rfl, rfl, rfl⟩
  rename_i hreg
  obtain ⟨t₁, hem, hq₁⟩ := exec_emit (E := RunError) env (.nodeStarted threadId v.currentNodeName) w
  rw [bind_eq, exec_bind_ok hem] at hu
  obtain ⟨u₁, hu₁, rfl⟩ := Option.map_eq_some_iff.1 hu
  obtain ⟨attempts, ⟨x, w₂, t₂⟩, hcall, hres, hq₂⟩ := exec_callNode_of_succeeds (E := RunError) g
    threadId cancellation hsucc v { w with seq := w.seq + 1 }
  cases hres
  rw [bind_eq, exec_bind_ok hcall] at hu₁
  obtain ⟨u₂, hu₂, rfl⟩ := Option.map_eq_some_iff.1 hu₁
  have hbefore := Quiet.after hq₁ hq₂
  refine .executed w₂ (t₁ ++ t₂) u₂ hgate (not_not.1 hreg) ⟨hbefore.store, hbefore.writes, hbefore.executions⟩
    (accepts_of_exec hu₂) (by simp [Run.after])

variable (threadId cancellation resolvedInterrupt) in
/-- The loop executes the names that the edges lead to as a pipeline. -/
theorem exec_runLoop_pipe (hsucc : env.Succeeds node) (hrecords : 0 < g.resourceLimits.maxExecutionRecords) {k : Nat}
    {names : List String} {v : Loop S} (hnames : g.Unrolls node v.state v.currentNodeName names)
    (hk : names.length < k) (w : World) :
    ∃ u, exec (memory env) (g.runLoop threadId cancellation resolvedInterrupt k v) w = some u ∧
      Realises (g.pipe node names v.isFirstStep v.runningCostEur v.state) (u.result.mapError Prod.fst)
        (executions u.trace) (writes u.trace) := by
  induction names generalizing k v w with
  | nil =>
    obtain ⟨k, rfl⟩ := Nat.exists_eq_succ_of_ne_zero (by omega : k ≠ 0)
    have hend : v.currentNodeName = "__END__" := hnames.name_eq
    unfold Graph.runLoop Graph.loopBody
    rw [if_pos hend]
    exact ⟨_, rfl, rfl, rfl, rfl⟩
  | cons name names ih =>
    rw [List.length_cons] at hk
    obtain ⟨k, rfl⟩ := Nat.exists_eq_succ_of_ne_zero (by omega : k ≠ 0)
    obtain ⟨rfl, hname, hrest⟩ := hnames.cons
    obtain ⟨⟨x, w₁, t₁⟩, hbody⟩ := exec_loopBody_isSome env g threadId cancellation resolvedInterrupt hrecords v w
    have hgated : g.GatedBefore v ↔ v.isFirstStep = false ∧ v.currentNodeName ∈ g.interruptBefore := Iff.rfl
    cases pipeRound_of_exec hsucc hname hbody with
    | gateFailed e hgate herr hres hq =>
      cases hres
      rw [exec_runLoop_fail hbody, Graph.pipe_gated (hgated.1 hgate), herr]
      exact ⟨_, rfl, rfl, hq.executions, congrArg _ hq.writes⟩
    | gated val id hgate herr hres hsaves =>
      cases hres
      have hwrites : writes t₁ = _ := hsaves.writes
      rw [exec_runLoop_stop hbody, Graph.pipe_gated (hgated.1 hgate), herr]
      exact ⟨_, rfl, rfl, hsaves.executions, by simp [hwrites, Graph.loopSave]⟩
    | unregistered hgate hreg hres hq =>
      cases hres
      rw [exec_runLoop_fail hbody, Graph.pipe_unregistered (mt hgated.2 hgate) hreg]
      exact ⟨_, rfl, rfl, hq.executions, congrArg _ hq.writes⟩
    | executed w₂ t₂ u₂ hgate hreg hbefore haccepts hu =>
      obtain ⟨x₂, w₃, t₃⟩ := u₂
      cases hu
      cases haccepts with
      | refused e hrefusal hres hq =>
        cases hres
        rw [exec_runLoop_fail hbody, Graph.pipe_refused (mt hgated.2 hgate) hreg hrefusal]
        have hquiet := hbefore.after hq
        exact ⟨_, rfl, rfl, hquiet.executions, congrArg _ hquiet.writes⟩
      | saved val id hrefusal hres hsaves =>
        have hsaves' := Saves.after hbefore hsaves
        have hwrites : writes (t₂ ++ t₃) = _ := hsaves'.writes
        have hcalls : executions (t₂ ++ t₃) = [v.currentNodeName] := hsaves'.executions
        have hnext := hrest.name_eq
        rw [Graph.pipe_saved (mt hgated.2 hgate) hreg hrefusal]
        by_cases hafter : v.currentNodeName ∈ g.interruptAfter
        · rw [if_pos hafter] at hres ⊢
          cases hres
          rw [exec_runLoop_stop hbody]
          refine ⟨_, rfl, rfl, hcalls, ?_⟩
          simp [-writes_append, hwrites, Graph.loopSave, hnext]
        · rw [if_neg hafter] at hres ⊢
          cases hres
          rw [exec_runLoop_next hbody]
          obtain ⟨u, hu, hrealises⟩ := ih (k := k) (v := { v.afterSave (node v.currentNodeName v.state) id with
            currentNodeName := g.nextNode v.currentNodeName (node v.currentNodeName v.state) }) hrest (by omega) w₃
          refine ⟨u.after (t₂ ++ t₃), congrArg (Option.map (Run.after _)) hu, hrealises.result, ?_, ?_⟩
          · rw [trace_after, executions_append, hcalls, hrealises.executed]
            rfl
          · rw [trace_after, writes_append, hwrites, List.map_append, hrealises.saved, hnext]
            rfl

/-- A run of a graph executes the names that the edges lead to as a pipeline. -/
theorem exec_run_pipe (hsucc : env.Succeeds node) (hrecords : 0 < g.resourceLimits.maxExecutionRecords) {state : S}
    {startNode : String} {names : List String} (hnames : g.Unrolls node state startNode names)
    (hsteps : names.length < g.resourceLimits.maxSequentialSteps) (w : World) :
    ∃ u, exec (memory env) (g.run threadId cancellation state startNode) w = some u ∧
      Realises (g.pipe node names true 0 state) u.result (executions u.trace) (writes u.trace) := by
  obtain ⟨u, hu, hrealises⟩ := exec_runLoop_pipe threadId cancellation none hsucc hrecords
    (v := .start state startNode none none) hnames hsteps w
  have hinner : exec (memory env) (g.runInner threadId cancellation none state startNode none) w =
      some (u.after [(⟨.currentHead threadId, .ok none⟩ : Event (ops S))]) :=
    congrArg (Option.map (Run.after [(⟨.currentHead threadId, .ok none⟩ : Event (ops S))])) hu
  unfold Graph.run
  rw [exec_mapError, hinner]
  exact ⟨_, rfl, hrealises.result, hrealises.executed, hrealises.saved⟩

end Takeln
