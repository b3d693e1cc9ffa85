import Takeln.Effect.Protocol
import Takeln.Model.Sequential

/-!
# Protocols of the sequential engine

What it takes for the sequential engine to keep to a protocol.  The rule of the loop body (`follows_loopBody`) asks
for the calls of the current node and for the saves the body can make (`LoopSave`); the rule of the loop
(`follows_runLoop`) asks for an invariant of its rounds.
-/

namespace Takeln

open Effect Effect.Prog

variable [Money] {S E α Q : Type} {π : Protocol (ops S) Q} {q : Q}

/-- Numbering, broadcasting and recording in a history of size `max` are allowed and change nothing. -/
structure Silent (π : Protocol (ops S) Q) (q : Q) (max : Nat) : Prop where
  nextSeq : π.allow q .nextSeq ∧ ∀ n, π.next q .nextSeq n = q
  send (event : GraphEvent) : π.allow q (.send event) ∧ π.next q (.send event) () = q
  record (r : ExecutionRecord) : π.allow q (.record max r) ∧ π.next q (.record max r) () = q

/-- The same of the events of nodes only. -/
structure SilentNodes (π : Protocol (ops S) Q) (q : Q) (max : Nat) : Prop where
  nextSeq : π.allow q .nextSeq ∧ ∀ n, π.next q .nextSeq n = q
  started (t name : String) (n : Nat) : π.allow q (.send (.nodeStarted t name n)) ∧
    π.next q (.send (.nodeStarted t name n)) () = q
  finished (t name status : String) (cost : Option Eur) (n : Nat) :
    π.allow q (.send (.nodeFinished t name status cost n)) ∧
      π.next q (.send (.nodeFinished t name status cost n)) () = q
  record (r : ExecutionRecord) : π.allow q (.record max r) ∧ π.next q (.record max r) () = q

theorem Silent.nodes {max : Nat} (hq : Silent π q max) : SilentNodes π q max :=
  ⟨hq.nextSeq, fun _ _ _ => hq.send _, fun _ _ _ _ _ => hq.send _, hq.record⟩

/-- Numbering and broadcasting an event is allowed, and leads to `Φ`. -/
def EmitFollows (π : Protocol (ops S) Q) (q : Q) (event : Nat → GraphEvent) (Φ : Q → Prop) : Prop :=
  π.allow q .nextSeq ∧ ∀ n : Nat, π.allow (π.next q .nextSeq n) (.send (event n)) ∧
    Φ (π.next (π.next q .nextSeq n) (.send (event n)) ())

theorem follows_emit {event : Nat → GraphEvent} {Φ : Q → Except E Unit → Prop}
    (h : EmitFollows π q event fun q' => Φ q' (.ok ())) : Follows π (emit event : Prog (ops S) E Unit) q Φ :=
  ⟨h.1, fun n => ⟨(h.2 n).1, fun _ => (h.2 n).2⟩⟩

/-- An event that changes nothing. -/
theorem emitFollows_of_silent {event : Nat → GraphEvent} {Φ : Q → Prop}
    (hseq : π.allow q .nextSeq ∧ ∀ n, π.next q .nextSeq n = q)
    (hsend : ∀ n, π.allow q (.send (event n)) ∧ π.next q (.send (event n)) () = q) (h : Φ q) :
    EmitFollows π q event Φ := by
  refine ⟨hseq.1, fun n => ?_⟩
  have hn : π.next q .nextSeq n = q := hseq.2 n
  rw [hn, (hsend n).2]
  exact ⟨(hsend n).1, h⟩

theorem Silent.emit {max : Nat} (hq : Silent π q max) (event : Nat → GraphEvent) {Φ : Q → Prop} (h : Φ q) :
    EmitFollows π q event Φ := emitFollows_of_silent hq.nextSeq (fun _ => hq.send _) h

theorem SilentNodes.emitFinished {max : Nat} (hq : SilentNodes π q max) (t name status : String) (cost : Option Eur)
    {Φ : Q → Prop} (h : Φ q) : EmitFollows π q (.nodeFinished t name status cost) Φ :=
  emitFollows_of_silent hq.nextSeq (hq.finished _ _ _ _) h

theorem SilentNodes.emitStarted {max : Nat} (hq : SilentNodes π q max) (t name : String) {Φ : Q → Prop} (h : Φ q) :
    EmitFollows π q (.nodeStarted t name) Φ := emitFollows_of_silent hq.nextSeq (hq.started _ _) h

theorem follows_record {max : Nat} (hq : SilentNodes π q max) (r : ExecutionRecord) {Φ : Q → Except E Unit → Prop}
    (h : Φ q (.ok ())) : Follows π (record max r : Prog (ops S) E Unit) q Φ := by
  refine ⟨(hq.record r).1, fun u => ?_⟩
  have hu : π.next q (.record max r) u = q := (hq.record r).2
  rw [hu]
  exact h

/-- A save is allowed, and leads to `Φ` however it is answered. -/
def SaveFollows (π : Protocol (ops S) Q) (q : Q) (args : SaveArgs S)
    (Φ : Q → Except TakelnError String → Prop) : Prop :=
  π.allow q (.saveStateBound args) ∧ ∀ r : Except TakelnError CheckpointSave,
    Φ (π.next q (.saveStateBound args) r) (r.bind checkpointId)

theorem follows_save {args : SaveArgs S} {Φ : Q → Except TakelnError String → Prop} (h : SaveFollows π q args Φ) :
    Follows π ((saveStateBound args).bind fun save => Prog.ofExcept (checkpointId save)) q Φ := by
  refine ⟨h.1, fun r => ?_⟩
  have hr := h.2 r
  cases r with
  | error e => exact hr
  | ok save =>
    change Follows π (Prog.ofExcept (checkpointId save)) _ Φ
    rw [follows_ofExcept]
    exact hr

theorem follows_saveChecked [State S] {g : Graph S} {args : SaveArgs S} {Φ : Q → Except TakelnError String → Prop}
    (herr : ∀ e, Φ q (.error e)) (h : SaveFollows π q args Φ) : Follows π (g.saveChecked args) q Φ := by
  unfold Graph.saveChecked
  rw [bind_eq, follows_bind, follows_ofExcept]
  cases g.checkCheckpointSize args.state with
  | error e => exact herr e
  | ok _ => exact follows_save h

/-! ### The loop -/

section Loop

variable [External] [State S] {g : Graph S} {threadId : String} {cancellation : Bool}
  {resolvedInterrupt : Option String}

/-- The call of a node with a state is allowed and changes nothing. -/
def CallSilent (π : Protocol (ops S) Q) (q : Q) (state : S) : Prop :=
  ∀ ctx timeout token, π.allow q (.callNode ctx state timeout token) ∧
    ∀ r, π.next q (.callNode ctx state timeout token) r = q

omit [State S] in
/-- What the calls of a node with some attempts left keep as long as it is retried, and what the last answer brings
about. -/
theorem follows_callRetrying {v : Loop S} {J : Nat → Nat → Option Value → Q → Prop}
    {Ψ : Q → Except GraphError (NodeOutput S) → Prop}
    (hcall : ∀ q left attempt input, J left attempt input q →
      π.allow q (.callNode (g.context threadId cancellation v attempt input) v.state
          (g.effectiveTimeout v.currentNodeName) cancellation) ∧
        ∀ r : CallAnswer S (g.effectiveTimeout v.currentNodeName) cancellation,
          (∀ left' msg, left = left' + 1 → CallAnswer.result v.currentNodeName r = .error (.retryable msg) →
            J left' (attempt + 1) none
              (π.next q (.callNode (g.context threadId cancellation v attempt input) v.state _ _) r)) ∧
          Ψ (π.next q (.callNode (g.context threadId cancellation v attempt input) v.state _ _) r)
            (CallAnswer.result v.currentNodeName r))
    {Φ : Q → Except E (Nat × Except GraphError (NodeOutput S)) → Prop} (h : ∀ q x, Ψ q x.2 → Φ q (.ok x))
    (left attempt : Nat) (input : Option Value) (hq : J left attempt input q) :
    Follows π (g.callRetrying threadId cancellation v left attempt input) q Φ := by
  -- by induction on the attempts that are left
  induction left generalizing q attempt input with
  | zero =>
    unfold Graph.callRetrying
    refine ⟨(hcall q _ _ _ hq).1, fun answer => ?_⟩
    obtain ⟨_, hΨ⟩ := (hcall q _ attempt input hq).2 answer
    dsimp only
    split
    · rename_i hres
      exact h _ _ (hres ▸ hΨ)
    · rename_i hres
      exact h _ _ (hres ▸ hΨ)
    · rename_i hres
      exact h _ _ (hres ▸ hΨ)
  | succ left ih =>
    unfold Graph.callRetrying
    refine ⟨(hcall q _ _ _ hq).1, fun answer => ?_⟩
    obtain ⟨hJ, hΨ⟩ := (hcall q _ attempt input hq).2 answer
    dsimp only
    split
    · rename_i hres
      exact h _ _ (hres ▸ hΨ)
    · rename_i hres
      exact ih _ _ (hJ _ _ rfl hres)
    · rename_i hres
      exact h _ _ (hres ▸ hΨ)

omit [State S] in
theorem follows_callNode {v : Loop S} {J : Q → Prop} {Ψ : Q → Except GraphError (NodeOutput S) → Prop}
    (hcall : ∀ q, J q → ∀ attempt input timeout token,
      π.allow q (.callNode (g.context threadId cancellation v attempt input) v.state timeout token) ∧
        ∀ r : CallAnswer S timeout token,
          (∀ msg, CallAnswer.result v.currentNodeName r = .error (.retryable msg) →
            J (π.next q (.callNode (g.context threadId cancellation v attempt input) v.state timeout token) r)) ∧
          Ψ (π.next q (.callNode (g.context threadId cancellation v attempt input) v.state timeout token) r)
            (CallAnswer.result v.currentNodeName r))
    {Φ : Q → Except E (Nat × Except GraphError (NodeOutput S)) → Prop} (h : ∀ q x, Ψ q x.2 → Φ q (.ok x))
    (hq : J q) : Follows π (g.callNode threadId cancellation v) q Φ := by
  unfold Graph.callNode
  split
  · refine ⟨(hcall q hq _ _ _ _).1, fun answer => ?_⟩
    exact h _ _ ((hcall q hq 0 v.pendingResumedInput none false).2 answer).2
  · refine follows_callRetrying (J := fun _ _ _ q => J q) (fun q _ attempt input hq => ?_) h _ _ _ hq
    obtain ⟨hallow, hnext⟩ := hcall q hq attempt input (g.effectiveTimeout v.currentNodeName) cancellation
    exact ⟨hallow, fun r => ⟨fun _ msg _ => (hnext r).1 msg, (hnext r).2⟩⟩

/-- A save of the loop body in the loop state `v`, and how the body goes on if it gets the id `id`. -/
inductive LoopSave (g : Graph S) (threadId : String) (resolvedInterrupt : Option String) (v : Loop S) :
    SaveArgs S → String → Flow S → Prop
  | interrupted (id : String) : LoopSave g threadId resolvedInterrupt v
      (Graph.loopSave threadId v v.state v.currentNodeName .interrupted none resolvedInterrupt) id (.stop v)
  | yielded (request : YieldRequest) (id : String) : LoopSave g threadId resolvedInterrupt v
      (Graph.loopSave threadId v v.state v.currentNodeName .yielded (some request) none) id (.stop v)
  | completed (out : NodeOutput S) (id : String) : LoopSave g threadId resolvedInterrupt v
      (Graph.loopSave threadId v out.state (g.nextNode v.currentNodeName out) .complete none resolvedInterrupt) id
      (if v.currentNodeName ∈ g.interruptAfter then .stop (v.afterSave out id)
        else .next { v.afterSave out id with currentNodeName := g.nextNode v.currentNodeName out })

section

variable {v v' : Loop S} {args : SaveArgs S} {id : String} {flow : Flow S}

omit [External] [State S] in
theorem LoopSave.threadId_eq (h : LoopSave g threadId resolvedInterrupt v args id flow) : args.threadId = threadId := by
  cases h <;> rfl

omit [External] [State S] in
theorem LoopSave.proof_eq (h : LoopSave g threadId resolvedInterrupt v args id flow) :
    args.proof = checkpointProof v.expectedHead := by
  cases h <;> rfl

omit [External] [State S] in
theorem LoopSave.dag_eq (h : LoopSave g threadId resolvedInterrupt v args id flow) : args.dag = none := by
  cases h <;> rfl

omit [External] [State S] in
/-- The loop goes on only after a completed node. -/
theorem LoopSave.of_next (h : LoopSave g threadId resolvedInterrupt v args id (.next v')) :
    ∃ out, args.status = .complete ∧
      v' = { v.afterSave out id with currentNodeName := g.nextNode v.currentNodeName out } := by
  generalize hflow : Flow.next v' = flow at h
  cases h with
  | interrupted => cases hflow
  | yielded => cases hflow
  | completed out =>
    split at hflow
    · cases hflow
    · cases hflow
      exact ⟨out, rfl, rfl⟩

end

omit [External] in
/-- A checked save of the loop body, and then the flow. -/
theorem follows_loopSave {v : Loop S} {args : SaveArgs S} (flow : String → Flow S)
    {Φ : Q → Except RunError (Flow S) → Prop} (herr : ∀ e, Φ q (.error (e, v.lastHead)))
    (hsave : SaveFollows π q args fun q' x => match x with
      | .ok id => Φ q' (.ok (flow id))
      | .error e => Φ q' (.error (e, v.lastHead))) :
    Follows π (((g.saveChecked args).mapError (·, v.lastHead)).bind fun id => .ret (flow id)) q Φ := by
  rw [follows_bind, follows_mapError]
  refine follows_saveChecked herr ⟨hsave.1, fun r => ?_⟩
  have hr := hsave.2 r
  cases hx : r.bind checkpointId <;> rw [hx] at hr <;> exact hr

omit [External] [State S] in
/-- A failure after its event. -/
theorem follows_emit_fail {v : Loop S} {max : Nat} (hq : SilentNodes π q max) {Φ : Q → Except RunError (Flow S) → Prop}
    (name status : String) (cost : Option Eur) {e : TakelnError} (h : Φ q (.error (e, v.lastHead))) :
    Follows π ((emit (.nodeFinished threadId name status cost)).bind fun _ => .fail (e, v.lastHead)) q Φ := by
  rw [follows_bind]
  exact follows_emit (hq.emitFinished _ _ _ _ h)

omit [External] in
/-- After a node has returned `out`: one of the budgets refuses it, or it is saved. -/
theorem follows_onSuccess {v : Loop S} {attempt : Nat} {out : NodeOutput S} {Φ : Q → Except RunError (Flow S) → Prop}
    (hq : SilentNodes π q g.resourceLimits.maxExecutionRecords) (hbudget : ∀ spent limit,
      (exceeded (g.effectiveNodeBudget v.currentNodeName) out.info.cost).isSome ∨
        (exceeded g.budgetEur (v.runningCostEur + out.info.cost)).isSome →
      Φ q (.error (.budgetExceeded spent limit, v.lastHead)))
    (hsave : exceeded (g.effectiveNodeBudget v.currentNodeName) out.info.cost = none →
      exceeded g.budgetEur (v.runningCostEur + out.info.cost) = none → (∀ e, Φ q (.error (e, v.lastHead))) ∧
        SaveFollows π q
      (Graph.loopSave threadId v out.state (g.nextNode v.currentNodeName out) .complete none resolvedInterrupt)
      fun q' x => match x with
        | .ok id => Φ q' (.ok (if v.currentNodeName ∈ g.interruptAfter then .stop (v.afterSave out id)
            else .next { v.afterSave out id with currentNodeName := g.nextNode v.currentNodeName out }))
        | .error e => Φ q' (.error (e, v.lastHead))) :
    Follows π (g.onSuccess threadId resolvedInterrupt v attempt out) q Φ := by
  unfold Graph.onSuccess
  dsimp only
  split
  · rename_i hnode
    exact follows_emit_fail hq _ _ _ (hbudget _ _ (Or.inl (by rw [hnode]; rfl)))
  rename_i hnode
  split
  · rename_i hrun
    exact follows_emit_fail hq _ _ _ (hbudget _ _ (Or.inr (by rw [hrun]; rfl)))
  rename_i hrun
  rw [bind_eq, follows_bind]
  refine follows_record hq _ ?_
  dsimp only
  rw [bind_eq, follows_bind]
  exact follows_emit (hq.emitFinished _ _ _ _ (follows_loopSave _ (hsave hnode hrun).1 (hsave hnode hrun).2))

omit [External] in
/-- After a node has answered with an error: a yield is saved. -/
theorem follows_onError {v : Loop S} {err : GraphError} {Φ : Q → Except RunError (Flow S) → Prop}
    (hq : SilentNodes π q g.resourceLimits.maxExecutionRecords) (herr : ∀ e, Φ q (.error (e, v.lastHead)))
    (hsave : ∀ request, err = .yield request → SaveFollows π q
      (Graph.loopSave threadId v v.state v.currentNodeName .yielded (some request) none)
      fun q' x => match x with
        | .ok _ => Φ q' (.ok (.stop v))
        | .error e => Φ q' (.error (e, v.lastHead))) :
    Follows π (g.onError threadId v err) q Φ := by
  unfold Graph.onError
  cases err with
  | yield request =>
    dsimp only
    rw [bind_eq, follows_bind]
    exact follows_emit (hq.emitFinished _ _ _ _ (follows_loopSave _ herr (hsave request rfl)))
  | yieldInDynamicNode i => exact herr _
  | _ => exact follows_emit_fail hq _ _ _ (herr _)

/-- The loop body follows a protocol that allows it to stop at a gate, or to call its node and to go on from there. -/
theorem follows_loopBody_cases {v : Loop S} {Φ : Q → Except RunError (Flow S) → Prop}
    {Ψ : Q → Nat × Except GraphError (NodeOutput S) → Prop} (hq : SilentNodes π q g.resourceLimits.maxExecutionRecords)
    (hend : v.currentNodeName = "__END__" →
      EmitFollows π q (.graphFinished threadId v.runningCostEur) fun q' => Φ q' (.ok (.stop v)))
    (herr : ∀ e, Φ q (.error (e, v.lastHead)))
    (hgate : v.isFirstStep = false ∧ v.currentNodeName ∈ g.interruptBefore → SaveFollows π q
      (Graph.loopSave threadId v v.state v.currentNodeName .interrupted none resolvedInterrupt)
      fun q' x => match x with
        | .ok _ => Φ q' (.ok (.stop v))
        | .error e => Φ q' (.error (e, v.lastHead)))
    (hcall : g.Runs v →
      Follows π (g.callNode threadId cancellation v : Prog (ops S) RunError _) q fun q' x => match x with
        | .ok y => Ψ q' y
        | .error e => Φ q' (.error e))
    (hok : ∀ q' attempt out, Ψ q' (attempt, .ok out) →
      Follows π (g.onSuccess threadId resolvedInterrupt v attempt out) q' Φ)
    (hfail : ∀ q' attempt err, Ψ q' (attempt, .error err) → Follows π (g.onError threadId v err) q' Φ) :
    Follows π (g.loopBody threadId cancellation resolvedInterrupt v) q Φ := by
  unfold Graph.loopBody
  split
  · rename_i hname
    rw [bind_eq, follows_bind]
    exact follows_emit (hend hname)
  rename_i hname
  split
  · rename_i hgated
    exact follows_loopSave (fun _ => .stop v) herr (hgate hgated)
  rename_i hgated
  split
  · exact herr _
  rename_i hregistered
  rw [bind_eq, follows_bind]
  refine follows_emit (hq.emitStarted _ _ ?_)
  dsimp only
  rw [bind_eq, follows_bind]
  refine (hcall ⟨hname, hgated, not_not.1 hregistered⟩).mono fun q' x hx => ?_
  rcases x with e | ⟨attempt, err | out⟩
  · exact hx
  · exact hfail q' attempt err hx
  · exact hok q' attempt out hx

/-- The loop body follows a protocol that allows its calls and its saves. -/
theorem follows_loopBody {v : Loop S} {Φ : Q → Except RunError (Flow S) → Prop}
    (hq : Silent π q g.resourceLimits.maxExecutionRecords) (hcall : CallSilent π q v.state)
    (hend : Φ q (.ok (.stop v))) (herr : ∀ e, Φ q (.error (e, v.lastHead)))
    (hsave : ∀ (args : SaveArgs S) (flow : String → Flow S),
      (∀ id, LoopSave g threadId resolvedInterrupt v args id (flow id)) → SaveFollows π q args fun q' x => match x with
        | .ok id => Φ q' (.ok (flow id))
        | .error e => Φ q' (.error (e, v.lastHead))) :
    Follows π (g.loopBody threadId cancellation resolvedInterrupt v) q Φ := by
  refine follows_loopBody_cases (Ψ := fun q' _ => q' = q) hq.nodes (fun _ => hq.emit _ hend) herr
    (fun _ => hsave _ (fun _ => .stop v) fun id => .interrupted id) (fun _ => ?_) ?_ ?_
  · refine follows_callNode (J := fun q' => q' = q) (Ψ := fun q' _ => q' = q) ?_ (fun q' x hq' => hq') rfl
    rintro q' rfl attempt input timeout token
    refine ⟨(hcall _ _ _).1, fun r => ⟨fun _ _ => (hcall _ _ _).2 r, (hcall _ _ _).2 r⟩⟩
  · rintro q' attempt out rfl
    exact follows_onSuccess hq.nodes (fun _ _ _ => herr _) fun _ _ => ⟨herr, hsave _ _ fun id => .completed out id⟩
  · rintro q' attempt err rfl
    exact follows_onError hq.nodes herr fun request _ => hsave _ (fun _ => .stop v) fun id => .yielded request id

/-- The loop follows a protocol if its rounds keep an invariant. -/
theorem follows_runLoop {I : Q → Loop S → Prop} {Φ : Q → Except RunError S → Prop}
    (hbody : ∀ q v, I q v → Follows π (g.loopBody threadId cancellation resolvedInterrupt v) q fun q' x => match x with
      | .ok (.next v') => I q' v'
      | .ok (.stop v') => Φ q' (.ok v'.state)
      | .error e => Φ q' (.error e))
    (hlimit : ∀ q v e, I q v → Φ q (.error (e, v.lastHead))) {k : Nat} {v : Loop S} (hI : I q v) :
    Follows π (g.runLoop threadId cancellation resolvedInterrupt k v) q Φ := by
  induction k generalizing q v with
  | zero => exact hlimit q v _ hI
  | succ k ih =>
    unfold Graph.runLoop
    rw [bind_eq, follows_bind]
    refine (hbody q v hI).mono fun q' x hx => ?_
    cases x with
    | error e => exact hx
    | ok flow =>
      cases flow with
      | next v' => exact ih hx
      | stop v' => exact hx

/-- `run_inner` follows a protocol that allows it to read the head and whose invariant its loop then keeps. -/
theorem follows_runInner {I : Q → Loop S → Prop} {Φ : Q → Except RunError S → Prop} {state : S} {startNode : String}
    {input : Option Value} (hhead : π.allow q (.currentHead threadId))
    (hfail : ∀ e : TakelnError, Φ (π.next q (.currentHead threadId) (.error e : Except TakelnError (Option String)))
      (.error (e, none)))
    (hstart : ∀ head : Option String, I (π.next q (.currentHead threadId)
      (.ok head : Except TakelnError (Option String))) (.start state startNode input head))
    (hbody : ∀ q v, I q v → Follows π (g.loopBody threadId cancellation resolvedInterrupt v) q fun q' x => match x with
      | .ok (.next v') => I q' v'
      | .ok (.stop v') => Φ q' (.ok v'.state)
      | .error e => Φ q' (.error e))
    (hlimit : ∀ q v e, I q v → Φ q (.error (e, v.lastHead))) :
    Follows π (g.runInner threadId cancellation resolvedInterrupt state startNode input) q Φ := by
  refine ⟨hhead, fun r => ?_⟩
  rcases r with e | head
  · exact hfail e
  · exact follows_runLoop hbody hlimit (hstart head)

/-- `resume_with` follows a protocol that allows it to load, and then its run. -/
theorem follows_resumeWith {rebind : S → S} {Φ : Q → Except TakelnError (Option S) → Prop}
    (hload : π.allow q (.loadState threadId))
    (hidle : ∀ (r : Except TakelnError (Option (Loaded S))) x, Φ (π.next q (.loadState threadId) r) x)
    (hrun : ∀ (loaded : Loaded S) (node : String),
      ¬ (loaded.info.status = .running ∧ g.crashRecoveryPolicy = .failFast) →
      Follows π (g.runInner threadId cancellation loaded.info.claimedInterrupt (rebind loaded.state) node none)
        (π.next q (.loadState threadId) (.ok (some loaded) : Except TakelnError (Option (Loaded S))))
        fun q' x => Φ q' ((x.mapError Prod.fst).map some)) :
    Follows π (g.resumeWith threadId cancellation rebind) q Φ := by
  refine ⟨hload, fun r => ?_⟩
  rcases r with e | _ | loaded
  · exact hidle (.error e) _
  · exact hidle (.ok none) _
  have continueAt (node : String) (hgoes : ¬ (loaded.info.status = .running ∧ g.crashRecoveryPolicy = .failFast)) :
      Follows π
        (((g.runInner threadId cancellation loaded.info.claimedInterrupt (rebind loaded.state) node none).mapError
          Prod.fst).bind fun final => .ret (some final))
        (π.next q (.loadState threadId) (.ok (some loaded) : Except TakelnError (Option (Loaded S)))) Φ := by
    rw [follows_bind, follows_mapError]
    refine (hrun loaded node hgoes).mono fun q' x hx => ?_
    cases x <;> exact hx
  change Follows π (ite _ _ _) _ _
  split
  · cases hpolicy : g.crashRecoveryPolicy with
    | resetToPending => exact continueAt _ (by simp [hpolicy])
    | failFast => exact hidle (.ok (some loaded)) _
    | skipAndContinue =>
      dsimp only
      split
      · exact continueAt _ (by simp [hpolicy])
      · exact continueAt _ (by simp [hpolicy])
  · rename_i hstatus
    exact continueAt _ fun h => hstatus h.1

end Loop

/-! ### Resuming with input -/

section Resume

variable {threadId : String}

/-- A rollback follows a protocol that allows its save, with the head it is given or else reads. -/
theorem follows_revertToYielded {state : S} {nextNode : String} {request : YieldRequest}
    {lastHead : Option (Option String)} {Φ : Q → Except TakelnError Unit → Prop}
    (hknown : ∀ head, lastHead = some head →
      SaveFollows π q (Graph.revertSave threadId state nextNode request head) fun q' x => Φ q' (x.map fun _ => ()))
    (hread : lastHead = none → π.allow q (.currentHead threadId) ∧
      (∀ e : TakelnError, Φ (π.next q (.currentHead threadId) (.error e : Except TakelnError (Option String)))
        (.error e)) ∧
      ∀ head : Option String, SaveFollows π (π.next q (.currentHead threadId)
        (.ok head : Except TakelnError (Option String)))
        (Graph.revertSave threadId state nextNode request head) fun q' x => Φ q' (x.map fun _ => ())) :
    Follows π (Graph.revertToYielded threadId state nextNode request lastHead) q Φ := by
  have save {q : Q} {head : Option String}
      (h : SaveFollows π q (Graph.revertSave threadId state nextNode request head) fun q' x =>
        Φ q' (x.map fun _ => ())) :
      Follows π ((saveStateBound (Graph.revertSave threadId state nextNode request head)).bind fun save =>
        Prog.bind (Prog.ofExcept (checkpointId save)) fun _ => .ret ()) q Φ := by
    rw [← Prog.bind_assoc, follows_bind]
    refine follows_save ⟨h.1, fun r => ?_⟩
    have hr := h.2 r
    cases hx : r.bind checkpointId <;> rw [hx] at hr <;> exact hr
  unfold Graph.revertToYielded
  cases lastHead with
  | some head => exact save (hknown head rfl)
  | none =>
    obtain ⟨hallow, hfail, hsave⟩ := hread rfl
    refine ⟨hallow, fun r => ?_⟩
    rcases r with e | head
    · exact hfail e
    · exact save (hsave head)

variable [External] [State S] {g : Graph S} {cancellation : Bool}

theorem follows_runClaimed {loaded : Loaded S} {request : YieldRequest} {interruptId startNode : String}
    {input : Option Value} {Φ : Q → Except TakelnError S → Prop}
    (hrun : Follows π (g.runInner threadId cancellation (some interruptId) loaded.state startNode input) q fun q' x =>
      match x with
      | .ok final => Φ q' (.ok final)
      | .error (e, lastHead) =>
        Follows π (Graph.revertToYielded threadId loaded.state loaded.info.nextNode request lastHead) q' fun q'' y =>
          match y with
          | .ok _ => Φ q'' (.error e)
          | .error _ => ∀ msg, Φ q'' (.error (.executionError msg))) :
    Follows π (g.runClaimed threadId cancellation loaded request interruptId startNode input) q Φ := by
  unfold Graph.runClaimed
  rw [bind_eq, follows_bind, follows_attempt]
  refine hrun.mono fun q' x hx => ?_
  rcases x with ⟨e, lastHead⟩ | final
  · dsimp only at hx ⊢
    rw [bind_eq, follows_bind, follows_attempt]
    refine hx.mono fun q'' y hy => ?_
    cases y with
    | ok _ => exact hy
    | error saveErr => exact hy _
  · exact hx

/-- `resume_with_input` follows a protocol that allows it to claim and to load, and then its run. -/
theorem follows_resumeWithInput {interruptId : String} {input : Value} {context : ResumeContext}
    {Φ : Q → Except TakelnError (Option S) → Prop} (hclaim : π.allow q (.claimInterrupt threadId interruptId))
    (hrefused : ∀ e x, Φ (π.next q (.claimInterrupt threadId interruptId)
      (.error e : Except TakelnError ClaimResult)) x)
    (hload : ∀ claim : ClaimResult,
      π.allow (π.next q (.claimInterrupt threadId interruptId) (.ok claim : Except TakelnError ClaimResult))
        (.loadState threadId))
    (hidle : ∀ (claim : ClaimResult) (r : Except TakelnError (Option (Loaded S))) x,
      Φ (π.next (π.next q (.claimInterrupt threadId interruptId) (.ok claim : Except TakelnError ClaimResult))
        (.loadState threadId) r) x)
    (hrun : ∀ (loaded : Loaded S) (request : YieldRequest),
      Follows π (g.runClaimed threadId cancellation loaded request interruptId (g.resumeStart loaded request)
          (Graph.resumeInput request input))
        (π.next (π.next q (.claimInterrupt threadId interruptId) (.ok .claimed : Except TakelnError ClaimResult))
          (.loadState threadId) (.ok (some loaded) : Except TakelnError (Option (Loaded S))))
        fun q' x => Φ q' (x.map some) ∧ ∀ final, x = .ok final →
          SilentNodes π q' g.resourceLimits.maxExecutionRecords) :
    Follows π (g.resumeWithInput threadId cancellation interruptId input context) q Φ := by
  refine ⟨hclaim, fun r => ?_⟩
  rcases r with e | claim
  · exact hrefused e _
  refine ⟨hload claim, fun r => ?_⟩
  rcases r with e | _ | loaded
  · exact hidle claim (.error e) _
  · exact hidle claim (.ok none) _
  cases claim with
  | inProgress => exact hidle .inProgress (.ok (some loaded)) _
  | alreadyCompleted => exact hidle .alreadyCompleted (.ok (some loaded)) _
  | claimed =>
    change Follows π ((Prog.ofExcept (Graph.checkResume threadId interruptId input loaded)).bind _) _ _
    rw [follows_bind, follows_ofExcept]
    cases Graph.checkResume threadId interruptId input loaded with
    | error e => exact hidle .claimed (.ok (some loaded)) _
    | ok request =>
      dsimp only
      unfold Graph.resumeClaimed
      rw [bind_eq, follows_bind]
      refine (hrun loaded request).mono fun q' x hx => ?_
      cases x with
      | error e => exact hx.1
      | ok final =>
        dsimp only
        rw [bind_eq, follows_bind]
        exact follows_record (hx.2 final rfl) _ hx.1

end Resume

end Takeln
