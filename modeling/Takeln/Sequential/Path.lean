import Takeln.Sequential.Follows
import Takeln.Sequential.Resume

/-!
# Paths

Where nodes succeed and depend only on the state, a graph walks one path from a state and a node (`Graph.Path`), and
the state and the next node that a checkpoint holds are a point of it.  A call that is stopped right after a write has
walked a part of the path, and the thread stands at its end (`path_of_reaches`); a call that reaches `__END__` has
walked the rest (`path_of_returns`).  What it may spend on the way is `Graph.Solvent`.
-/

namespace Takeln

open Effect Effect.Prog

variable {S α : Type} {env : Env S} {g : Graph S} {threadId : String} {cancellation : Bool}
  {resolvedInterrupt : Option String} {w w' : World} {node : String → S → NodeOutput S}

/-- Every node succeeds, and what it returns depends only on its state. -/
def Env.Succeeds (env : Env S) (node : String → S → NodeOutput S) : Prop :=
  ∀ n ctx state timeout token, env.answer n ctx state timeout token = .returned (.ok (node ctx.nodeName state))

variable [State S]

/-- From `state` at the node `name` the graph executes `names` and is then at `name'` with `state'`. -/
inductive Graph.Path (g : Graph S) (node : String → S → NodeOutput S) :
    S → String → List String → S → String → Prop
  | refl (state : S) (name : String) : Path g node state name [] state name
  | step {state state' : S} {name name' : String} {names : List String} {val : Value} (hname : name ≠ "__END__")
      (hreg : g.registered name)
      (hbudget : exceeded (g.effectiveNodeBudget name) (node name state).info.cost = none)
      (hval : g.Savable (node name state).state val) (hrecords : 0 < g.resourceLimits.maxExecutionRecords)
      (hrest : Path g node (node name state).state (g.nextNode name (node name state)) names state' name') :
      Path g node state name (name :: names) state' name'

theorem Graph.Path.trans {s s' s'' : S} {name name' name'' : String} {names names' : List String}
    (h : g.Path node s name names s' name') (h' : g.Path node s' name' names' s'' name'') :
    g.Path node s name (names ++ names') s'' name'' := by
  induction h with
  | refl s name => exact h'
  | step hname hreg hbudget hval hrecords _ ih => exact .step hname hreg hbudget hval hrecords (ih h')

/-- A thread stands at a node, with a state: this is what `resume` loads and goes on with. -/
def Stands (threadId : String) (w : World) (state : S) (name : String) : Prop :=
  ∃ loaded : Loaded S, w.store.loadState threadId = .ok (some loaded) ∧ loaded.state = state ∧
    loaded.info.nextNode = name ∧ loaded.info.status ≠ .running

theorem Saves.stands [RoundTrip S] {E : Type} {names : List String} {args : SaveArgs S} {val : Value} {id : String}
    {u : Run (ops S) E α World} (h : Saves env w names args val id u) (hval : State.toValue args.state = .ok val)
    (hstatus : args.status ≠ .running) : Stands args.threadId u.world args.state args.nextNode := by
  obtain ⟨time, hrows⟩ := h.rows
  exact ⟨_, loadState_append hval hrows, rfl, rfl, hstatus⟩

/-! ### One round -/

section Round

variable [External] {v : Loop S}

omit [State S] in
theorem nodeRun_of_succeeds (g : Graph S) (threadId : String) (cancellation : Bool) (hsucc : env.Succeeds node)
    (v : Loop S) (n : Nat) : g.nodeRun env threadId cancellation v n = (0, .ok (node v.currentNodeName v.state)) := by
  unfold Graph.nodeRun
  by_cases hdyn : v.currentNodeName ∈ g.dynamicNodes
  · simp [hdyn, hsucc n, CallAnswer.result, Graph.context, NodeContext.new]
  · rw [if_neg hdyn]
    unfold Graph.retried
    simp [hsucc n, CallAnswer.result, Graph.context, NodeContext.new]

/-- What a round can do where every node succeeds. -/
inductive PathRound (env : Env S) (g : Graph S) (threadId : String) (node : String → S → NodeOutput S) (v : Loop S)
    (w : World) (u : Run (ops S) RunError (Flow S) World) : Prop
  | ended (hname : v.currentNodeName = "__END__") (hres : u.result = .ok (.stop v)) (hquiet : Quiet w [] u)
      (hend : Finishes u.trace)
  | gated (args : SaveArgs S) (val : Value) (id : String) (hgate : g.GatedBefore v) (hres : u.result = .ok (.stop v))
      (hsaves : Saves env w [] args val id u) (hstands : Stands threadId u.world v.state v.currentNodeName)
  | completed (args : SaveArgs S) (val : Value) (id : String) (hruns : g.Runs v)
      (haff : g.Affords v (node v.currentNodeName v.state))
      (hval : g.Savable (node v.currentNodeName v.state).state val)
      (hrecords : 0 < g.resourceLimits.maxExecutionRecords)
      (hres : u.result = .ok (if v.currentNodeName ∈ g.interruptAfter
        then .stop (v.afterSave (node v.currentNodeName v.state) id)
        else .next { v.afterSave (node v.currentNodeName v.state) id with
          currentNodeName := g.nextNode v.currentNodeName (node v.currentNodeName v.state) }))
      (hsaves : Saves env w [v.currentNodeName] args val id u)
      (hstands : Stands threadId u.world (node v.currentNodeName v.state).state
        (g.nextNode v.currentNodeName (node v.currentNodeName v.state)))
  | failed (e : RunError) (hres : u.result = .error e) (hwrites : writes u.trace = [])

theorem Round.path [RoundTrip S] (hsucc : env.Succeeds node) {u : Run (ops S) RunError (Flow S) World}
    (h : Round env g threadId cancellation resolvedInterrupt v w u) : PathRound env g threadId node v w u := by
  have hrun := nodeRun_of_succeeds g threadId cancellation hsucc v w.calls
  have hresult : g.nodeResult env threadId cancellation v w.calls = .ok (node v.currentNodeName v.state) := by
    rw [Graph.nodeResult, hrun]
  cases h with
  | ended hname hres hq hend => exact .ended hname hres hq hend
  | gated val id hname hgate hval hres hs =>
    exact .gated _ val id hgate hres hs (hs.stands hval.2 (by simp [Graph.loopSave]))
  | gateFailed e _ _ _ hres hq => exact .failed _ hres hq.writes
  | unregistered _ _ _ hres hq => exact .failed _ hres hq.writes
  | completed n out val id hn hruns hnode haff hval hres hs hrecords =>
    cases hresult.symm.trans hnode
    rw [hn, hrun] at hs
    exact .completed _ val id hruns haff hval hrecords hres hs (hs.stands hval.2 (by simp [Graph.loopSave]))
  | yielded _ _ _ _ _ hnode => cases hresult.symm.trans hnode
  | failed _ e _ _ _ hres hq => exact .failed _ hres hq.writes

/-- Nothing follows a save. -/
def saveLast (S : Type) : Protocol (ops S) Bool where
  allow saved _ := saved = false
  next _ o _ := match o with
    | .saveStateBound _ => true
    | _ => false

omit [External] in
/-- A program that writes last has ended where it is stopped right after a write. -/
theorem exec_of_saveLast {E : Type} {p q : Prog (ops S) E α} {tr : List (Event (ops S))}
    (hp : Follows (saveLast S) p false fun _ _ => True) (hr : Reaches (memory env) p w tr q w')
    (hlast : EndsInWrite tr) :
    ∃ x, exec (memory env) p w = some ⟨x, w', tr⟩ := by
  have hrest := hp.reaches hr
  have hsaved : (saveLast S).after false tr = true := by
    rcases List.eq_nil_or_concat tr with rfl | ⟨pre, ⟨o, r⟩, rfl⟩
    · cases hlast
    · have he : (written ⟨o, r⟩).isSome := by simpa [EndsInWrite] using hlast
      cases o with
      | saveStateBound args => simp [Protocol.after, saveLast]
      | _ => cases he
  rw [hsaved] at hrest
  cases q with
  | ret x => exact ⟨.ok x, by rw [hr.exec_eq]; simp [Run.after]⟩
  | fail e => exact ⟨.error e, by rw [hr.exec_eq]; simp [Run.after]⟩
  | perform o k => cases hrest.1

omit [External] in
/-- A program that writes last has written nothing, or is stopped right after its write. -/
theorem endsInWrite_of_saveLast {E : Type} {p q : Prog (ops S) E α} {tr : List (Event (ops S))}
    (hp : Follows (saveLast S) p false fun _ _ => True) (hr : Reaches (memory env) p w tr q w')
    (hwrites : writes tr ≠ []) : EndsInWrite tr := by
  obtain ⟨args, hargs⟩ := List.exists_mem_of_ne_nil _ hwrites
  obtain ⟨⟨o, r⟩, he, hwritten⟩ := List.mem_filterMap.1 hargs
  obtain ⟨pre, post, rfl⟩ := List.append_of_mem he
  cases post with
  | nil => simp [EndsInWrite, hwritten]
  | cons e' post =>
    rw [List.append_cons] at hr
    have hallow : (saveLast S).after false (pre ++ [⟨o, r⟩]) = false := hp.allow_of_reaches hr
    rw [Protocol.after_concat] at hallow
    cases o with
    | saveStateBound args' => cases hallow
    | _ => cases hwritten

/-- A round that is stopped right after a write has ended. -/
theorem exec_of_endsInWrite {p : Prog (ops S) RunError (Flow S)} {tr : List (Event (ops S))}
    (hr : Reaches (memory env) (g.loopBody threadId cancellation resolvedInterrupt v) w tr p w')
    (hlast : EndsInWrite tr) :
    ∃ x, exec (memory env) (g.loopBody threadId cancellation resolvedInterrupt v) w = some ⟨x, w', tr⟩ := by
  have hfollows : Follows (saveLast S) (g.loopBody threadId cancellation resolvedInterrupt v) false
    fun _ _ => True := by
    refine follows_loopBody ⟨⟨rfl, fun _ => rfl⟩, fun _ => ⟨rfl, rfl⟩, fun _ => ⟨rfl, rfl⟩⟩
      (fun _ _ _ => ⟨rfl, fun _ => rfl⟩) trivial (fun _ => trivial) fun args flow _ => ⟨rfl, fun r => ?_⟩
    cases r.bind checkpointId <;> trivial
  exact exec_of_saveLast hfollows hr hlast

end Round

/-! ### Stopped and finished calls -/

section Calls

variable [External] [RoundTrip S]

/-- A loop that is stopped right after a write has walked a part of the path, and the thread stands at its end. -/
theorem path_of_reaches (hsucc : env.Succeeds node) {k : Nat} {v : Loop S} {tr : List (Event (ops S))}
    {p : Prog (ops S) RunError S}
    (hr : Reaches (memory env) (g.runLoop threadId cancellation resolvedInterrupt k v) w tr p w')
    (hlast : EndsInWrite tr) :
    ∃ state name, g.Path node v.state v.currentNodeName (executions tr) state name ∧ Stands threadId w' state name := by
  induction k generalizing v w tr p with
  | zero =>
    cases hr
    cases hlast
  | succ k ih =>
    -- what the round came to, if it is all that was done
    have round {x t w₁} (hbody : exec (memory env) (g.loopBody threadId cancellation resolvedInterrupt v) w =
        some ⟨x, w₁, t⟩) (ht : EndsInWrite t) :
        ∃ state name, g.Path node v.state v.currentNodeName (executions t) state name ∧
          Stands threadId w₁ state name := by
      cases (round_of_exec hbody).path hsucc with
      | ended _ _ _ hend => exact absurd ht hend.not_endsInWrite
      | gated args val id _ _ hsaves hstands =>
        refine ⟨_, _, ?_, hstands⟩
        rw [hsaves.executions]
        exact .refl _ _
      | completed args val id hruns haff hval hrecords _ hsaves hstands =>
        refine ⟨_, _, ?_, hstands⟩
        rw [hsaves.executions]
        exact .step hruns.1 hruns.2.2 haff.1 hval hrecords (.refl _ _)
      | failed _ _ hwrites => exact absurd hwrites ht.writes_ne_nil
    unfold Graph.runLoop at hr
    rcases hr.bind_cases with ⟨p', hbody⟩ | ⟨flow, w₁, t₁, t₂, hbody, hrest, rfl⟩
    · obtain ⟨x, hx⟩ := exec_of_endsInWrite hbody hlast
      exact round hx hlast
    · rcases t₂ with _ | ⟨e, t₂⟩
      · rw [List.append_nil] at hlast ⊢
        rw [hrest.nil.2]
        exact round hbody hlast
      · cases flow with
        | stop v' => cases hrest
        | next v' =>
          obtain ⟨state, name, hpath, hstands⟩ := ih hrest (hlast.of_append (List.cons_ne_nil e t₂))
          refine ⟨state, name, ?_, hstands⟩
          cases (round_of_exec hbody).path hsucc with
          | ended _ hres => cases hres
          | gated _ _ _ _ hres => cases hres
          | failed _ hres => cases hres
          | completed args val id hruns haff hval hrecords hres hsaves hstands₁ =>
            have hcalls : executions t₁ = [v.currentNodeName] := hsaves.executions
            rw [executions_append, hcalls]
            split at hres
            · cases hres
            · cases hres
              exact .step hruns.1 hruns.2.2 haff.1 hval hrecords hpath

/-- The graph has a gate. -/
def Graph.Gated (g : Graph S) : Prop := (∃ name, name ∈ g.interruptBefore) ∨ ∃ name, name ∈ g.interruptAfter

/-- A loop that returns has reached `__END__` and walked the rest of the path, or a gate has stopped it right after a
write. -/
theorem path_of_returns (hsucc : env.Succeeds node) {k : Nat} {v : Loop S} {u : Run (ops S) RunError S World} {s : S}
    (hu : exec (memory env) (g.runLoop threadId cancellation resolvedInterrupt k v) w = some u)
    (hres : u.result = .ok s) :
    Finishes u.trace ∧ g.Path node v.state v.currentNodeName (executions u.trace) s "__END__" ∨
      EndsInWrite u.trace ∧ g.Gated := by
  induction k generalizing v w u with
  | zero =>
    cases hu
    cases hres
  | succ k ih =>
    obtain ⟨u₁, hround, hrest⟩ := runLoop_cases hu
    rcases hrest with ⟨e, _, rfl⟩ | ⟨v', hv', rfl⟩ | ⟨v', u₂, hv', hu₂, rfl⟩
    · cases hres
    · cases hround.path hsucc with
      | ended hname hres₁ hquiet hend =>
        cases hres₁.symm.trans hv'
        cases hres
        refine Or.inl ⟨hend, ?_⟩
        rw [hquiet.executions, hname]
        exact .refl _ _
      | gated _ _ _ hgate _ hsaves => exact Or.inr ⟨hsaves.endsInWrite, Or.inl ⟨_, hgate.2⟩⟩
      | completed _ _ _ _ _ _ _ hres₁ hsaves =>
        rw [hres₁] at hv'
        split at hv'
        · rename_i hafter
          exact Or.inr ⟨hsaves.endsInWrite, Or.inr ⟨_, hafter⟩⟩
        · cases hv'
      | failed _ hres₁ => cases hres₁.symm.trans hv'
    · cases hround.path hsucc with
      | ended _ hres₁ => cases hres₁.symm.trans hv'
      | gated _ _ _ _ hres₁ => cases hres₁.symm.trans hv'
      | failed _ hres₁ => cases hres₁.symm.trans hv'
      | completed args val id hruns haff hval hrecords hres₁ hsaves _ =>
        rw [hres₁] at hv'
        split at hv'
        · cases hv'
        · cases hv'
          rcases ih hu₂ hres with ⟨hend, hpath⟩ | ⟨hlast, hgates⟩
          · refine Or.inl ⟨hend.append _, ?_⟩
            rw [trace_after, executions_append, hsaves.executions]
            exact .step hruns.1 hruns.2.2 haff.1 hval hrecords hpath
          · exact Or.inr ⟨hlast.append _, hgates⟩

end Calls

/-! ### Gates and budgets -/

/-- The graph without its gates. -/
def Graph.gateFree (g : Graph S) : Graph S := { g with interruptBefore := [], interruptAfter := [] }

omit [State S] in
theorem Graph.not_gated_gateFree (g : Graph S) : ¬ g.gateFree.Gated := by
  rintro (⟨name, h⟩ | ⟨name, h⟩) <;> cases h

theorem Graph.Path.of_gateFree {s s' : S} {name name' : String} {names : List String}
    (h : g.gateFree.Path node s name names s' name') : g.Path node s name names s' name' := by
  induction h with
  | refl s name => exact .refl s name
  | step hname hreg hbudget hval hrecords _ ih => exact .step hname hreg hbudget hval hrecords ih

theorem Graph.Path.gateFree {s s' : S} {name name' : String} {names : List String}
    (h : g.Path node s name names s' name') : g.gateFree.Path node s name names s' name' := by
  induction h with
  | refl s name => exact .refl s name
  | step hname hreg hbudget hval hrecords _ ih => exact .step hname hreg hbudget hval hrecords ih

/-- There is only one path. -/
theorem Graph.Path.of_append {s s' s'' : S} {name name' name'' : String} {names names' : List String}
    (h : g.Path node s name names s' name') (h' : g.Path node s name (names ++ names') s'' name'') :
    g.Path node s' name' names' s'' name'' := by
  induction h with
  | refl s name => exact h'
  | step _ _ _ _ _ _ ih =>
    cases h' with
    | step _ _ _ _ _ hrest => exact ih hrest

/-- What is on the account of the call that executes `name`: the running total starts anew behind a gate. -/
def Graph.spentAt (g : Graph S) (name : String) (spent : Eur) : Eur := if name ∈ g.interruptBefore then 0 else spent

/-- What is on the account of the call that goes on after `name`. -/
def Graph.spentAfter (g : Graph S) (name : String) (spent : Eur) : Eur := if name ∈ g.interruptAfter then 0 else spent

/-- From `state` at `name`, with `spent` on the account, the budget lasts for `n` nodes, or up to `__END__`, if the
calls are stopped by gates only. -/
def Graph.SolventFor (g : Graph S) (node : String → S → NodeOutput S) : Eur → S → String → Nat → Prop
  | _, _, _, 0 => True
  | spent, state, name, n + 1 =>
    name = "__END__" ∨
      exceeded g.budgetEur (g.spentAt name spent + (node name state).info.cost) = none ∧
        SolventFor g node (g.spentAfter name (g.spentAt name spent + (node name state).info.cost))
          (node name state).state (g.nextNode name (node name state)) n

/-- No call from `state` at `name` on, the first one with `spent` on its account, exceeds the budget. -/
def Graph.Solvent (g : Graph S) (node : String → S → NodeOutput S) (spent : Eur) (state : S) (name : String) : Prop :=
  ∀ n, g.SolventFor node spent state name n

omit [State S] in
theorem Graph.solvent_end (spent : Eur) (state : S) : g.Solvent node spent state "__END__" := fun n => by
  cases n with
  | zero => trivial
  | succ n => exact Or.inl rfl

omit [State S] in
theorem Graph.solvent_iff {name : String} (hname : name ≠ "__END__") (spent : Eur) (state : S) :
    g.Solvent node spent state name ↔
      exceeded g.budgetEur (g.spentAt name spent + (node name state).info.cost) = none ∧
        g.Solvent node (g.spentAfter name (g.spentAt name spent + (node name state).info.cost))
          (node name state).state (g.nextNode name (node name state)) := by
  constructor
  · intro h
    have hstep (n : Nat) := (h (n + 1)).resolve_left hname
    exact ⟨(hstep 0).1, fun n => (hstep n).2⟩
  · rintro ⟨hbudget, hrest⟩ n
    cases n with
    | zero => trivial
    | succ n => exact Or.inr ⟨hbudget, hrest n⟩

/-- A round ends if the history has room. -/
theorem exec_loopBody_isSome [External] (env : Env S) (g : Graph S) (threadId : String) (cancellation : Bool)
    (resolvedInterrupt : Option String) (hrecords : 0 < g.resourceLimits.maxExecutionRecords) (v : Loop S) (w : World) :
    ∃ u, exec (memory env) (g.loopBody threadId cancellation resolvedInterrupt v) w = some u := by
  have hfollows : Follows (hasRoom S) (g.loopBody threadId cancellation resolvedInterrupt v) () fun _ _ => True := by
    refine follows_loopBody ⟨⟨trivial, fun _ => rfl⟩, fun _ => ⟨trivial, rfl⟩, fun _ => ⟨hrecords, rfl⟩⟩
      (fun _ _ _ => ⟨trivial, fun _ => rfl⟩) trivial (fun _ => trivial) fun args flow _ => ⟨trivial, fun r => ?_⟩
    cases r.bind checkpointId <;> trivial
  exact hfollows.exec_isSome (hasRoom_answered env) w

end Takeln
