import Takeln.Effect.Matched
import Takeln.Sequential.Follows
import Takeln.Sequential.Rounds

/-!
# Isolation of threads

Calls on any number of threads share a graph and an in-memory checkpointer.  What a call does depends on its own thread
only, apart from the ids drawn for its checkpoints, the clock, the event counter and the execution history, and none of
these decides anything.  So the calls on a thread do the same without all the others (`threads_isolated`): they match
themselves operation by operation when what is generated is replaced, and the calls on other threads leave the
checkpoints of the thread alone.
-/

namespace Takeln

open Effect Effect.Prog

variable {S E : Type}

/-! ### What is generated -/

/-- A checkpoint without its generated id and its timestamp. -/
def MemoryCheckpoint.anonymous (cp : MemoryCheckpoint) : MemoryCheckpoint :=
  { cp with checkpointId := "", createdAt := 0 }

def CheckpointMeta.anonymous (info : CheckpointMeta) : CheckpointMeta :=
  { info with checkpointId := "", createdAt := 0 }

def Loaded.anonymous (loaded : Loaded S) : Loaded S := { loaded with info := loaded.info.anonymous }

/-- A context without the id of the last checkpoint, and without the execution id made from it. -/
def NodeContext.anonymous (ctx : NodeContext) : NodeContext :=
  { ctx with
    executionId := if ctx.lastCheckpointId.isSome then "" else ctx.executionId
    lastCheckpointId := ctx.lastCheckpointId.map fun _ => "" }

/-- What a node answers is determined by its state and its context, and does not depend on generated ids. -/
def Env.Deterministic (env : Env S) : Prop :=
  ∀ (n n' : Nat) (ctx ctx' : NodeContext) (s : S) (d : Option Duration) (b : Bool), ctx.anonymous = ctx'.anonymous →
    env.answer n ctx s d b = env.answer n' ctx' s d b

/-- The same environment with other ids and another clock. -/
def Env.regenerate (env : Env S) (newId : Nat → String) (now : Nat → Int) : Env S :=
  { env with newId := newId, now := now }

/-! ### Calls side by side -/

/-- The operations of a call on a thread, up to what is generated. -/
inductive SameOp (t : String) : Op S → Op S → Prop
  | currentHead : SameOp t (.currentHead t) (.currentHead t)
  | save {args args' : SaveArgs S} (ht : args.threadId = t) (h : { args with proof := args'.proof } = args') :
      SameOp t (.saveStateBound args) (.saveStateBound args')
  | loadState : SameOp t (.loadState t) (.loadState t)
  | claimInterrupt (i : String) : SameOp t (.claimInterrupt t i) (.claimInterrupt t i)
  | callNode {ctx ctx' : NodeContext} (s : S) (d : Option Duration) (b : Bool) (h : ctx.anonymous = ctx'.anonymous) :
      SameOp t (.callNode ctx s d b) (.callNode ctx' s d b)
  | nextSeq : SameOp t .nextSeq .nextSeq
  | send (event event' : GraphEvent) : SameOp t (.send event) (.send event')
  | record (max : Nat) (r r' : ExecutionRecord) : SameOp t (.record max r) (.record max r')

/-- The answers to such operations, up to what is generated. -/
inductive SameAnswer : (o : Op S) → o.Answer → (o' : Op S) → o'.Answer → Prop
  | head (t : String) : SameAnswer (.currentHead t) (.ok none) (.currentHead t) (.ok none)
  | saved (args args' : SaveArgs S) (id id' : String) :
      SameAnswer (.saveStateBound args) (.ok (.created id)) (.saveStateBound args') (.ok (.created id'))
  | refused (args args' : SaveArgs S) (e : TakelnError) :
      SameAnswer (.saveStateBound args) (.error e) (.saveStateBound args') (.error e)
  | loaded (t : String) {l l' : Loaded S} (h : l.anonymous = l'.anonymous) :
      SameAnswer (.loadState t) (.ok (some l)) (.loadState t) (.ok (some l'))
  | absent (t : String) : SameAnswer (.loadState t) (.ok none) (.loadState t) (.ok none)
  | unreadable (t : String) (e : TakelnError) : SameAnswer (.loadState t) (.error e) (.loadState t) (.error e)
  | claim (t i : String) (r : Except TakelnError ClaimResult) :
      SameAnswer (.claimInterrupt t i) r (.claimInterrupt t i) r
  | call (ctx ctx' : NodeContext) (s : S) {d : Option Duration} {b : Bool} (r : CallAnswer S d b) :
      SameAnswer (.callNode ctx s d b) r (.callNode ctx' s d b) r
  | nextSeq (n n' : Nat) : SameAnswer .nextSeq n .nextSeq n'
  | send (event event' : GraphEvent) : SameAnswer (.send event) () (.send event') ()
  | record (max : Nat) (r r' : ExecutionRecord) : SameAnswer (.record max r) () (.record max r') ()

/-- The pairing of the calls on a thread. -/
def sameCall (S : Type) (t : String) : Pairing (ops S) := ⟨SameOp t, SameAnswer⟩

section Engine

variable {t : String}

theorem matched_emit {α α' E' : Type} {event event' : Nat → GraphEvent} {f : Unit → Prog (ops S) E α}
    {f' : Unit → Prog (ops S) E' α'} {Φ : Except E α → Except E' α' → Prop}
    (h : Matched (sameCall S t) Φ (f ()) (f' ())) :
    Matched (sameCall S t) Φ ((emit event).bind f) ((emit event').bind f') :=
  .perform .nextSeq fun _ _ _ => .perform (.send _ _) fun _ _ _ => h

theorem matched_record {α α' E' : Type} {max : Nat} {r r' : ExecutionRecord} {f : Unit → Prog (ops S) E α}
    {f' : Unit → Prog (ops S) E' α'} {Φ : Except E α → Except E' α' → Prop}
    (h : Matched (sameCall S t) Φ (f ()) (f' ())) :
    Matched (sameCall S t) Φ ((record max r).bind f) ((record max r').bind f') :=
  .perform (.record _ _ _) fun _ _ _ => h

/-- A save is accepted on both sides or refused on both sides. -/
theorem matched_save {args args' : SaveArgs S} {Φ : Except TakelnError String → Except TakelnError String → Prop}
    (ht : args.threadId = t) (hargs : { args with proof := args'.proof } = args') (herr : ∀ e, Φ (.error e) (.error e))
    (hok : ∀ id id', Φ (.ok id) (.ok id')) :
    Matched (sameCall S t) Φ ((saveStateBound args).bind fun save => Prog.ofExcept (checkpointId save))
      ((saveStateBound args').bind fun save => Prog.ofExcept (checkpointId save)) := by
  refine .perform (.save ht hargs) fun r r' h => ?_
  cases h with
  | saved _ _ id id' => exact .ret (hok id id')
  | refused _ _ e => exact .fail (herr e)

variable [State S] {g : Graph S}

theorem matched_saveChecked {args args' : SaveArgs S}
    {Φ : Except TakelnError String → Except TakelnError String → Prop} (ht : args.threadId = t)
    (hargs : { args with proof := args'.proof } = args') (herr : ∀ e, Φ (.error e) (.error e))
    (hok : ∀ id id', Φ (.ok id) (.ok id')) : Matched (sameCall S t) Φ (g.saveChecked args) (g.saveChecked args') := by
  have hstate : args'.state = args.state := by rw [← hargs]
  unfold Graph.saveChecked
  rw [hstate, bind_eq, bind_eq]
  cases g.checkCheckpointSize args.state with
  | error e => exact .fail (herr e)
  | ok _ => exact matched_save ht hargs herr hok

/-! ### The loop side by side -/

/-- Loop states that differ in generated ids only. -/
structure Loop.Alike (v v' : Loop S) : Prop where
  state : v.state = v'.state
  currentNodeName : v.currentNodeName = v'.currentNodeName
  runningCostEur : v.runningCostEur = v'.runningCostEur
  isFirstStep : v.isFirstStep = v'.isFirstStep
  totalCost : v.totalCost = v'.totalCost
  pendingResumedInput : v.pendingResumedInput = v'.pendingResumedInput
  lastCheckpointId : v.lastCheckpointId.isSome = v'.lastCheckpointId.isSome
  lastHead : v.lastHead.isSome = v'.lastHead.isSome

/-- Rounds that end alike. -/
inductive RoundsAlike : Except RunError (Flow S) → Except RunError (Flow S) → Prop
  | next {v v' : Loop S} (h : v.Alike v') : RoundsAlike (.ok (.next v)) (.ok (.next v'))
  | stop {v v' : Loop S} (h : v.Alike v') : RoundsAlike (.ok (.stop v)) (.ok (.stop v'))
  | error (e : TakelnError) {h h' : Option (Option String)} (hh : h.isSome = h'.isSome) :
      RoundsAlike (.error (e, h)) (.error (e, h'))

/-- Runs that end alike. -/
inductive RunsAlike : Except RunError S → Except RunError S → Prop
  | ok (s : S) : RunsAlike (.ok s) (.ok s)
  | error (e : TakelnError) {h h' : Option (Option String)} (hh : h.isSome = h'.isSome) :
      RunsAlike (.error (e, h)) (.error (e, h'))

omit [State S] in
theorem Loop.Alike.afterSave {v v' : Loop S} (h : v.Alike v') (out : NodeOutput S) (id id' : String) :
    (v.afterSave out id).Alike (v'.afterSave out id') := by
  obtain ⟨_, hname, hcost, _, _, _, _, _⟩ := h
  constructor
  case currentNodeName => exact hname
  case runningCostEur => exact congrArg (· + out.info.cost) hcost
  case totalCost => exact congrArg (· + out.info.cost) hcost
  all_goals rfl

variable [External] {cancellation : Bool} {resolvedInterrupt : Option String}

omit [State S] in
theorem Loop.Alike.context {v v' : Loop S} (h : v.Alike v') (attempt : Nat) (input : Option Value) :
    (g.context t cancellation v attempt input).anonymous = (g.context t cancellation v' attempt input).anonymous := by
  have hname := h.currentNodeName
  have htotal := h.totalCost
  have hid := h.lastCheckpointId
  unfold Graph.context NodeContext.new NodeContext.anonymous
  cases hv : v.lastCheckpointId with
  | none =>
    rw [hv] at hid
    have hv' : v'.lastCheckpointId = none := by simpa using hid.symm
    simp only [hv', hname, htotal]
  | some id =>
    rw [hv] at hid
    obtain ⟨id', hv'⟩ := Option.isSome_iff_exists.1 hid.symm
    simp only [hv', hname, htotal, Option.isSome_some, Option.map_some, if_true]

omit [State S] in
theorem matched_callRetrying {v v' : Loop S} (hv : v.Alike v') (left attempt : Nat) (input : Option Value) :
    Matched (sameCall S t) Eq (g.callRetrying t cancellation v left attempt input : Prog (ops S) E _)
      (g.callRetrying t cancellation v' left attempt input) := by
  induction left generalizing attempt input with
  | zero =>
    rw [Graph.callRetrying, Graph.callRetrying, ← hv.currentNodeName, ← hv.state]
    refine .perform (.callNode _ _ _ (hv.context attempt input)) fun r r' h => ?_
    cases h with
    | call _ _ _ r =>
      cases hr : CallAnswer.result v.currentNodeName r with
      | ok out => exact .ret rfl
      | error e => cases e <;> exact .ret rfl
  | succ left ih =>
    rw [Graph.callRetrying, Graph.callRetrying, ← hv.currentNodeName, ← hv.state]
    refine .perform (.callNode _ _ _ (hv.context attempt input)) fun r r' h => ?_
    cases h with
    | call _ _ _ r =>
      cases hr : CallAnswer.result v.currentNodeName r with
      | ok out => exact .ret rfl
      | error e =>
        cases e with
        | retryable msg => exact ih (attempt + 1) none
        | _ => exact .ret rfl

omit [State S] in
theorem matched_callNode {v v' : Loop S} (hv : v.Alike v') :
    Matched (sameCall S t) Eq (g.callNode t cancellation v : Prog (ops S) E _) (g.callNode t cancellation v') := by
  unfold Graph.callNode
  rw [← hv.currentNodeName, ← hv.pendingResumedInput]
  split
  · rw [← hv.state]
    refine .perform (.callNode _ _ _ (hv.context 0 v.pendingResumedInput)) fun r r' h => ?_
    cases h with
    | call _ _ _ r => exact .ret rfl
  · exact matched_callRetrying hv _ _ _

omit [External] in
/-- A save of the loop, and how the round ends after it. -/
theorem matched_loopSave {v v' : Loop S} (hv : v.Alike v') {state : S} {nextNode : String} {status : CheckpointStatus}
    {request : Option YieldRequest} {resolved : Option String} {flow flow' : String → Flow S}
    (hflow : ∀ id id', RoundsAlike (.ok (flow id)) (.ok (flow' id'))) :
    Matched (sameCall S t) RoundsAlike
      (((g.saveChecked (Graph.loopSave t v state nextNode status request resolved)).mapError (·, v.lastHead)).bind
        fun id => .ret (flow id))
      (((g.saveChecked (Graph.loopSave t v' state nextNode status request resolved)).mapError (·, v'.lastHead)).bind
        fun id => .ret (flow' id)) := by
  refine .bind (Φ := fun x x' => (∃ id id', x = .ok id ∧ x' = .ok id') ∨
    ∃ e, x = .error (e, v.lastHead) ∧ x' = .error (e, v'.lastHead)) (.mapError ?_) ?_ ?_
  · exact matched_saveChecked rfl rfl (fun e => Or.inr ⟨e, rfl, rfl⟩) fun id id' => Or.inl ⟨id, id', rfl, rfl⟩
  · rintro id id' -
    exact .ret (hflow id id')
  · rintro e e' (⟨_, _, h, _⟩ | ⟨e₁, h, h'⟩)
    · cases h
    · cases h
      cases h'
      exact .error e₁ hv.lastHead

omit [External] in
theorem matched_onSuccess {v v' : Loop S} (hv : v.Alike v') (attempt : Nat) (out : NodeOutput S) :
    Matched (sameCall S t) RoundsAlike (g.onSuccess t resolvedInterrupt v attempt out)
      (g.onSuccess t resolvedInterrupt v' attempt out) := by
  unfold Graph.onSuccess
  rw [← hv.currentNodeName, ← hv.runningCostEur]
  dsimp only
  cases exceeded (g.effectiveNodeBudget v.currentNodeName) out.info.cost with
  | some limit => exact matched_emit (.fail (.error _ hv.lastHead))
  | none =>
    cases exceeded g.budgetEur (v.runningCostEur + out.info.cost) with
    | some limit => exact matched_emit (.fail (.error _ hv.lastHead))
    | none =>
      refine matched_record (matched_emit (matched_loopSave hv fun id id' => ?_))
      have hsaved := hv.afterSave out id id'
      split
      · exact .stop hsaved
      · exact .next ⟨hsaved.state, rfl, hsaved.runningCostEur, hsaved.isFirstStep, hsaved.totalCost,
          hsaved.pendingResumedInput, hsaved.lastCheckpointId, hsaved.lastHead⟩

omit [External] in
theorem matched_onError {v v' : Loop S} (hv : v.Alike v') (e : GraphError) :
    Matched (sameCall S t) RoundsAlike (g.onError t v e) (g.onError t v' e) := by
  unfold Graph.onError
  rw [← hv.currentNodeName]
  cases e with
  | yield request =>
    rw [← hv.state]
    exact matched_emit (matched_loopSave hv fun _ _ => .stop hv)
  | yieldInDynamicNode i => exact .fail (.error _ hv.lastHead)
  | _ => exact matched_emit (.fail (.error _ hv.lastHead))

/-- One round does the same, and ends alike. -/
theorem matched_loopBody {v v' : Loop S} (hv : v.Alike v') :
    Matched (sameCall S t) RoundsAlike (g.loopBody t cancellation resolvedInterrupt v)
      (g.loopBody t cancellation resolvedInterrupt v') := by
  unfold Graph.loopBody
  rw [← hv.currentNodeName, ← hv.isFirstStep]
  split
  · exact matched_emit (.ret (.stop hv))
  split
  · rw [← hv.state]
    exact matched_loopSave hv fun _ _ => .stop hv
  split
  · exact .fail (.error _ hv.lastHead)
  refine matched_emit ((matched_callNode hv).bind ?_ fun e e' h => ?_)
  · rintro ⟨attempt, result⟩ _ h
    cases h
    cases result with
    | ok out => exact matched_onSuccess hv attempt out
    | error e => exact matched_onError hv e
  · cases h
    exact .error e.1 rfl

theorem matched_runLoop {v v' : Loop S} (hv : v.Alike v') (k : Nat) :
    Matched (sameCall S t) RunsAlike (g.runLoop t cancellation resolvedInterrupt k v)
      (g.runLoop t cancellation resolvedInterrupt k v') := by
  induction k generalizing v v' with
  | zero => exact .fail (.error _ hv.lastHead)
  | succ k ih =>
    unfold Graph.runLoop
    refine (matched_loopBody hv).bind (fun flow flow' h => ?_) fun e e' h => ?_
    · cases h with
      | next h => exact ih h
      | stop h =>
        dsimp only
        rw [← h.state]
        exact .ret (.ok _)
    · cases h with
      | error e hh => exact .error e hh

/-- A run that starts with the same input does the same. -/
theorem matched_runInner (state : S) (startNode : String) (input : Option Value) :
    Matched (sameCall S t) RunsAlike (g.runInner t cancellation resolvedInterrupt state startNode input)
      (g.runInner t cancellation resolvedInterrupt state startNode input) := by
  refine .perform .currentHead fun r r' h => ?_
  cases h with
  | head => exact matched_runLoop ⟨rfl, rfl, rfl, rfl, rfl, rfl, rfl, rfl⟩ _

omit [External] [State S] in
/-- Its result, without the last head. -/
theorem matched_result {p p' : Prog (ops S) RunError S} (h : Matched (sameCall S t) RunsAlike p p') :
    Matched (sameCall S t) Eq (p.mapError Prod.fst) (p'.mapError Prod.fst) := by
  refine .mapError (h.mono fun x x' hx => ?_)
  cases hx <;> rfl

/-! ### The callers side by side -/

omit [External] [State S] in
/-- What is loaded differs in the id and the timestamp only. -/
theorem Loaded.eq_of_anonymous {l l' : Loaded S} (h : l.anonymous = l'.anonymous) :
    l' = { l with info := { l.info with checkpointId := l'.info.checkpointId, createdAt := l'.info.createdAt } } := by
  obtain ⟨s, ⟨id, thread, next, status, time, request, claimed, resolved⟩, dag⟩ := l
  obtain ⟨s', ⟨id', thread', next', status', time', request', claimed', resolved'⟩, dag'⟩ := l'
  cases h
  rfl

theorem matched_resumeWith (rebind : S → S) :
    Matched (sameCall S t) Eq (g.resumeWith t cancellation rebind) (g.resumeWith t cancellation rebind) := by
  refine .perform .loadState fun r r' h => ?_
  cases h with
  | absent => exact .ret rfl
  | unreadable _ e => exact .fail rfl
  | @loaded _ l l' h =>
    rw [Loaded.eq_of_anonymous h]
    have continueAt (node : String) : Matched (sameCall S t) Eq
        (((g.runInner t cancellation l.info.claimedInterrupt (rebind l.state) node none).mapError Prod.fst).bind
          fun final => .ret (some final))
        (((g.runInner t cancellation l.info.claimedInterrupt (rebind l.state) node none).mapError Prod.fst).bind
          fun final => .ret (some final)) := by
      refine (matched_result (matched_runInner _ _ _)).bind (fun s s' h => ?_) fun e e' h => ?_
      · cases h
        exact .ret rfl
      · cases h
        rfl
    change Matched _ _ (ite _ _ _) (ite _ _ _)
    dsimp only
    split
    · cases g.crashRecoveryPolicy with
      | resetToPending => exact continueAt _
      | failFast => exact .fail rfl
      | skipAndContinue =>
        dsimp only
        cases g.edges l.info.nextNode with
        | some edge => exact continueAt _
        | none => exact continueAt _
    · exact continueAt _

omit [External] [State S] in
theorem matched_revertToYielded (state : S) (nextNode : String) (request : YieldRequest)
    {lastHead lastHead' : Option (Option String)} (h : lastHead.isSome = lastHead'.isSome) :
    Matched (sameCall S t) Eq (Graph.revertToYielded t state nextNode request lastHead)
      (Graph.revertToYielded t state nextNode request lastHead') := by
  have save (head head' : Option String) : Matched (sameCall S t) Eq
      ((saveStateBound (Graph.revertSave t state nextNode request head)).bind fun save =>
        Prog.bind (Prog.ofExcept (checkpointId save)) fun _ => .ret ())
      ((saveStateBound (Graph.revertSave t state nextNode request head')).bind fun save =>
        Prog.bind (Prog.ofExcept (checkpointId save)) fun _ => .ret ()) := by
    refine .perform (.save rfl rfl) fun r r' h => ?_
    cases h with
    | saved => exact .ret rfl
    | refused => exact .fail rfl
  unfold Graph.revertToYielded
  cases lastHead with
  | none =>
    obtain rfl : lastHead' = none := by simpa using h.symm
    refine .perform .currentHead fun r r' h => ?_
    cases h with
    | head => exact save none none
  | some head =>
    obtain ⟨head', rfl⟩ := Option.isSome_iff_exists.1 h.symm
    exact save head head'

theorem matched_runClaimed (l : Loaded S) (info : CheckpointMeta) (hnext : info.nextNode = l.info.nextNode)
    (request : YieldRequest) (i startNode : String) (input : Option Value) :
    Matched (sameCall S t) Eq (g.runClaimed t cancellation l request i startNode input)
      (g.runClaimed t cancellation { l with info := info } request i startNode input) := by
  unfold Graph.runClaimed
  dsimp only
  rw [hnext]
  refine (matched_runInner l.state startNode input).attempt_bind fun x x' h => ?_
  cases h with
  | ok s => exact .ret rfl
  | error e hh =>
    refine (matched_revertToYielded l.state l.info.nextNode request hh).attempt_bind fun y y' hy => ?_
    subst hy
    cases y with
    | ok _ => exact .fail rfl
    | error saveErr => exact .fail rfl

theorem matched_resumeWithInput (i : String) (input : Value) (context : ResumeContext) :
    Matched (sameCall S t) Eq (g.resumeWithInput t cancellation i input context)
      (g.resumeWithInput t cancellation i input context) := by
  refine .perform (.claimInterrupt i) fun r r' h => ?_
  cases h with
  | claim _ _ r =>
    rcases r with e | claim
    · exact .fail rfl
    refine .perform .loadState fun r r' h => ?_
    cases h with
    | absent => exact .fail rfl
    | unreadable _ e => exact .fail rfl
    | @loaded _ l l' h =>
      rw [Loaded.eq_of_anonymous h]
      cases claim with
      | alreadyCompleted => exact .ret rfl
      | inProgress => exact .fail rfl
      | claimed =>
        change Matched _ _ ((Prog.ofExcept (Graph.checkResume t i input l)).bind _)
          ((Prog.ofExcept (Graph.checkResume t i input l)).bind _)
        cases Graph.checkResume t i input l with
        | error e => exact .fail rfl
        | ok request =>
          refine (matched_runClaimed l _ rfl request i _ _).bind (fun final final' h => ?_) fun e e' h => ?_
          · cases h
            exact matched_record (.ret rfl)
          · cases h
            rfl

end Engine

/-! ### The store -/

section Store

variable {store store' : MemoryStore} {t i : String}

/-- The stores hold the same checkpoints of a thread, up to what is generated. -/
def MemoryStore.SameThread (t : String) (store store' : MemoryStore) : Prop :=
  (store t).map (List.map MemoryCheckpoint.anonymous) = (store' t).map (List.map MemoryCheckpoint.anonymous)

theorem MemoryStore.SameThread.rows (h : MemoryStore.SameThread t store store') :
    (store.rows t).map MemoryCheckpoint.anonymous = (store'.rows t).map MemoryCheckpoint.anonymous := by
  unfold MemoryStore.SameThread at h
  unfold MemoryStore.rows
  cases hs : store t with
  | none =>
    rw [hs] at h
    cases hs' : store' t with
    | none => rfl
    | some l' =>
      rw [hs'] at h
      cases h
  | some l =>
    rw [hs] at h
    cases hs' : store' t with
    | none =>
      rw [hs'] at h
      cases h
    | some l' =>
      rw [hs'] at h
      exact Option.some.inj h

theorem MemoryStore.sameThread_update (store store' : MemoryStore) {l l' : List MemoryCheckpoint}
    (hl : l.map MemoryCheckpoint.anonymous = l'.map MemoryCheckpoint.anonymous) :
    MemoryStore.SameThread t (Function.update store t (some l)) (Function.update store' t (some l')) := by
  unfold MemoryStore.SameThread
  rw [Function.update_self, Function.update_self, Option.map_some, Option.map_some, hl]

/-- The latest checkpoints of a thread. -/
theorem MemoryStore.SameThread.getLast (h : MemoryStore.SameThread t store store') :
    (store.rows t).getLast?.map MemoryCheckpoint.anonymous =
      (store'.rows t).getLast?.map MemoryCheckpoint.anonymous := by
  rw [← List.getLast?_map, ← List.getLast?_map, h.rows]

/-- A claim is answered alike. -/
theorem MemoryStore.SameThread.claimInterrupt (h : MemoryStore.SameThread t store store') (i : String) :
    (store.claimInterrupt t i).1 = (store'.claimInterrupt t i).1 := by
  unfold MemoryStore.SameThread at h
  unfold MemoryStore.claimInterrupt
  cases hs : store t with
  | none =>
    rw [hs] at h
    cases hs' : store' t with
    | none => rfl
    | some l' =>
      rw [hs'] at h
      cases h
  | some l =>
    rw [hs] at h
    cases hs' : store' t with
    | none =>
      rw [hs'] at h
      cases h
    | some l' =>
      rw [hs'] at h
      -- the histories differ in ids and times, which a claim does not look at
      have hl := Option.some.inj h
      have hany (l : List MemoryCheckpoint) : l.any (·.resolvedInterrupt == some i) =
          (l.map MemoryCheckpoint.anonymous).any (·.resolvedInterrupt == some i) := by
        rw [List.any_map]
        rfl
      have hlast := congrArg List.getLast? hl
      rw [List.getLast?_map, List.getLast?_map] at hlast
      dsimp only
      rw [hany l, hany l', hl]
      split
      · rfl
      cases hlast₁ : l.getLast? with
      | none =>
        rw [hlast₁] at hlast
        have hlast₂ : l'.getLast? = none := by simpa using hlast.symm
        rw [hlast₂]
      | some last =>
        rw [hlast₁] at hlast
        obtain ⟨last', hlast₂, hsame⟩ := Option.map_eq_some_iff.1 hlast.symm
        rw [hlast₂]
        obtain ⟨id, state, next, dag, status, time, request, claimed, resolved⟩ := last
        obtain ⟨id', state', next', dag', status', time', request', claimed', resolved'⟩ := last'
        cases hsame
        dsimp only
        split
        · rfl
        cases status with
        | yielded =>
          cases request with
          | none => rfl
          | some request =>
            dsimp only
            split <;> rfl
        | _ => rfl

theorem MemoryStore.SameThread.claimed (h : MemoryStore.SameThread t store store') (i : String) :
    MemoryStore.SameThread t (store.claimInterrupt t i).2 (store'.claimInterrupt t i).2 := by
  rw [MemoryStore.claimInterrupt_store, MemoryStore.claimInterrupt_store, h.claimInterrupt]
  split
  · refine MemoryStore.sameThread_update store store' ?_
    unfold claimLast
    have hlast (l : List MemoryCheckpoint) : (l.getLast?.map (·.claimedFor i)).toList.map MemoryCheckpoint.anonymous =
        ((l.map MemoryCheckpoint.anonymous).getLast?.map (·.claimedFor i)).toList := by
      rw [List.getLast?_map]
      cases l.getLast? <;> rfl
    rw [List.map_append, List.map_append, hlast, hlast, List.map_dropLast, List.map_dropLast, h.rows]
  · exact h

/-- The latest checkpoint is read back alike. -/
theorem MemoryStore.SameThread.loadState [State S] (h : MemoryStore.SameThread t store store') :
    SameAnswer (S := S) (.loadState t) (store.loadState t) (.loadState t) (store'.loadState t) := by
  have hlast := h.getLast
  unfold MemoryStore.loadState
  cases hl : (store.rows t).getLast? with
  | none =>
    rw [hl] at hlast
    have hl' : (store'.rows t).getLast? = none := by simpa using hlast.symm
    rw [hl']
    exact .absent t
  | some last =>
    rw [hl] at hlast
    obtain ⟨last', hl', hsame⟩ := Option.map_eq_some_iff.1 hlast.symm
    rw [hl']
    obtain ⟨id, state, next, dag, status, time, request, claimed, resolved⟩ := last
    obtain ⟨id', state', next', dag', status', time', request', claimed', resolved'⟩ := last'
    cases hsame
    unfold MemoryCheckpoint.load
    dsimp only
    cases State.fromValue (S := S) state with
    | error e => exact .unreadable t _
    | ok s => exact .loaded t rfl

variable [State S] {env : Env S} {newId : Nat → String} {now : Nat → Int} {w w₁ w' : World}

/-- In worlds with the same checkpoints of a thread, its calls are answered alike, and the checkpoints stay the same. -/
theorem answered_alike (hdet : env.Deterministic) {o o' : Op S} {r : o.Answer} (ho : SameOp t o o')
    (hr : memory env w o = some (r, w₁)) (hw : MemoryStore.SameThread t w.store w'.store) :
    ∃ r' w₁', memory (env.regenerate newId now) w' o' = some (r', w₁') ∧ SameAnswer o r o' r' ∧
      MemoryStore.SameThread t w₁.store w₁'.store := by
  cases ho with
  | currentHead =>
    cases hr
    exact ⟨_, _, rfl, .head t, hw⟩
  | @save args args' ht hargs =>
    subst ht
    rw [← hargs]
    simp only [memory, MemoryStore.saveState] at hr ⊢
    cases hval : State.toValue args.state with
    | error e =>
      rw [hval] at hr
      cases hr
      exact ⟨_, _, rfl, .refused _ _ _, hw⟩
    | ok val =>
      rw [hval] at hr
      cases hr
      refine ⟨_, _, rfl, .saved _ _ _ _, MemoryStore.sameThread_update _ _ ?_⟩
      rw [List.map_append, List.map_append, hw.rows]
      rfl
  | loadState =>
    obtain ⟨rfl, rfl⟩ := Prod.mk.inj (Option.some.inj hr)
    exact ⟨_, _, rfl, hw.loadState, hw⟩
  | claimInterrupt i =>
    have hpair : ((w.store.claimInterrupt t i).1, ({ w with store := (w.store.claimInterrupt t i).2 } : World)) =
        (r, w₁) := Option.some.inj hr
    obtain ⟨rfl, rfl⟩ := Prod.mk.inj hpair
    have hclaim : SameAnswer (S := S) (.claimInterrupt t i) (w.store.claimInterrupt t i).1 (.claimInterrupt t i)
        (w'.store.claimInterrupt t i).1 := hw.claimInterrupt i ▸ .claim t i _
    exact ⟨_, { w' with store := (w'.store.claimInterrupt t i).2 }, rfl, hclaim, hw.claimed i⟩
  | @callNode ctx ctx' s d b hctx =>
    -- the same call is answered alike, whenever it comes
    cases hr
    have hcall : SameAnswer (S := S) (.callNode ctx s d b) (env.answer w.calls ctx s d b) (.callNode ctx' s d b)
        (env.answer w'.calls ctx' s d b) := hdet w.calls w'.calls ctx ctx' s d b hctx ▸ .call ctx ctx' s _
    exact ⟨_, _, rfl, hcall, hw⟩
  | nextSeq =>
    cases hr
    exact ⟨_, _, rfl, .nextSeq _ _, hw⟩
  | send event event' =>
    cases hr
    exact ⟨_, _, rfl, .send _ _, hw⟩
  | record max rec rec' =>
    obtain ⟨records, hrecords, hpair⟩ := Option.map_eq_some_iff.1 hr
    cases hpair
    have hmax : 0 < max := pushRecord_isSome_iff.1 (by rw [hrecords]; rfl)
    obtain ⟨records', hr'⟩ := memory_record_some (env.regenerate newId now) hmax rec' w'
    exact ⟨_, _, hr', .record _ _ _, hw⟩

/-- Saves and claims are those of other threads. -/
def elsewhere (S : Type) (t : String) : Protocol (ops S) Unit where
  allow
    | _, .saveStateBound args => args.threadId ≠ t
    | _, .claimInterrupt t' _ => t' ≠ t
    | _, _ => True
  next _ _ _ := ()

/-- Operations elsewhere leave the thread alone. -/
theorem store_of_elsewhere {o : Op S} {r : o.Answer} (hallow : (elsewhere S t).allow () o)
    (hr : memory env w o = some (r, w₁)) : w₁.store t = w.store t := by
  cases o with
  | saveStateBound args =>
    have ht : args.threadId ≠ t := hallow
    simp only [memory, MemoryStore.saveState] at hr
    cases hval : State.toValue args.state with
    | error e =>
      rw [hval] at hr
      cases hr
      rfl
    | ok val =>
      rw [hval] at hr
      cases hr
      exact Function.update_of_ne (Ne.symm ht) _ _
  | claimInterrupt t' i =>
    have ht : t' ≠ t := hallow
    have hpair : ((w.store.claimInterrupt t' i).1, ({ w with store := (w.store.claimInterrupt t' i).2 } : World)) =
        (r, w₁) := Option.some.inj hr
    obtain ⟨-, rfl⟩ := Prod.mk.inj hpair
    dsimp only
    rw [MemoryStore.claimInterrupt_store]
    split
    · exact Function.update_of_ne (Ne.symm ht) _ _
    · rfl
  | record max rec =>
    obtain ⟨records, -, hpair⟩ := Option.map_eq_some_iff.1 hr
    cases hpair
    rfl
  | _ =>
    cases hr
    rfl

end Store

/-! ### Calls on many threads -/

/-- A call of the sequential engine. -/
inductive SequentialCall (S : Type)
  | run (cancellation : Bool) (state : S) (startNode : String)
  | resume (cancellation : Bool)
  | resumeWith (cancellation : Bool) (rebind : S → S)
  | resumeWithInput (cancellation : Bool) (interruptId : String) (input : Value) (context : ResumeContext)

section Calls

variable [External] [State S] (g : Graph S)

/-- The call on a thread. -/
def SequentialCall.prog (threadId : String) : SequentialCall S → Prog (ops S) TakelnError (Option S)
  | .run c state startNode => (g.run threadId c state startNode).bind fun final => .ret (some final)
  | .resume c => g.resume threadId c
  | .resumeWith c rebind => g.resumeWith threadId c rebind
  | .resumeWithInput c i input context => g.resumeWithInput threadId c i input context

variable {g} {t t' : String}

theorem SequentialCall.matched (call : SequentialCall S) :
    Matched (sameCall S t) Eq (call.prog g t) (call.prog g t) := by
  cases call with
  | run c state startNode =>
    refine (matched_result (matched_runInner state startNode none)).bind (fun s s' h => ?_) fun e e' h => ?_
    · cases h
      exact .ret rfl
    · cases h
      rfl
  | resume c => exact matched_resumeWith id
  | resumeWith c rebind => exact matched_resumeWith rebind
  | resumeWithInput c i input context => exact matched_resumeWithInput i input context

omit [External] [State S] in
private theorem elsewhere_silent (max : Nat) : Silent (elsewhere S t) () max :=
  ⟨⟨trivial, fun _ => rfl⟩, fun _ => ⟨trivial, rfl⟩, fun _ => ⟨trivial, rfl⟩⟩

private theorem runInner_elsewhere {c : Bool} {resolvedInterrupt : Option String} (ht : t' ≠ t) (state : S)
    (node : String) (input : Option Value) :
    Follows (elsewhere S t) (g.runInner t' c resolvedInterrupt state node input) () fun _ _ => True := by
  refine follows_runInner (I := fun _ _ => True) trivial (fun _ => trivial) (fun _ => trivial) ?_ fun _ _ _ _ => trivial
  rintro ⟨⟩ v -
  refine follows_loopBody (elsewhere_silent _) (fun _ _ _ => ⟨trivial, fun _ => rfl⟩) trivial (fun _ => trivial) ?_
  intro args flow hsave
  have hargs : args.threadId ≠ t := fun h => ht ((hsave "").threadId_eq.symm.trans h)
  refine ⟨hargs, fun r => ?_⟩
  cases r.bind checkpointId with
  | error e => trivial
  | ok id =>
    dsimp only
    cases flow id <;> trivial

/-- A call on another thread saves and claims there. -/
theorem SequentialCall.follows_elsewhere (ht : t' ≠ t) (call : SequentialCall S) :
    Follows (elsewhere S t) (call.prog g t') () fun _ _ => True := by
  have resumeWith (c : Bool) (rebind : S → S) :
      Follows (elsewhere S t) (g.resumeWith t' c rebind) () fun _ _ => True :=
    follows_resumeWith trivial (fun _ _ => trivial) fun loaded node _ =>
      (runInner_elsewhere ht _ _ _).mono fun _ _ _ => trivial
  cases call with
  | run c state startNode =>
    unfold SequentialCall.prog Graph.run
    rw [follows_bind, follows_mapError]
    refine (runInner_elsewhere ht _ _ _).mono fun _ x _ => ?_
    cases x <;> trivial
  | resume c => exact resumeWith c id
  | resumeWith c rebind => exact resumeWith c rebind
  | resumeWithInput c i input context =>
    refine follows_resumeWithInput ht (fun _ _ => trivial) (fun _ => trivial) (fun _ _ _ => trivial)
      fun loaded request => follows_runClaimed ?_
    refine (runInner_elsewhere ht _ _ _).mono fun q x _ => ?_
    rcases x with ⟨e, lastHead⟩ | final
    · refine (follows_revertToYielded (fun _ _ => ⟨ht, fun _ => trivial⟩) fun _ =>
        ⟨trivial, fun _ => trivial, fun _ => ⟨ht, fun _ => trivial⟩⟩ :
          Follows _ _ q fun _ _ => True).mono fun q y _ => ?_
      cases y with
      | ok _ => exact ⟨trivial, fun _ h => by cases h⟩
      | error _ => exact fun _ => ⟨trivial, fun _ h => by cases h⟩
    · exact ⟨trivial, fun _ _ => (elsewhere_silent _).nodes⟩

end Calls

/-! ### A thread on its own -/

section Main

variable {ι : Type} {thread : ι → String} {t : String}

/-- The operations of the calls on a thread. -/
def onThread (thread : ι → String) (t : String) (tr : List (Entry (ops S) ι World)) : List (Entry (ops S) ι World) :=
  tr.filter fun e => decide (thread e.who = t)

/-- The calls on a thread, among others and on their own: they execute the same nodes, leave the same checkpoints, up to
generated ids and timestamps, and come to the same results. -/
structure DoesTheSame (thread : ι → String) (t : String) (tr : List (Entry (ops S) ι World))
    (P : ι → Prog (ops S) TakelnError (Option S)) (w : World) (tr' : List (Entry (ops S) ι World))
    (P' : ι → Prog (ops S) TakelnError (Option S)) (w' : World) : Prop where
  executed : executions ((onThread thread t tr).map Entry.event) = executions (tr'.map Entry.event)
  saved : (w.rows t).map MemoryCheckpoint.anonymous = (w'.rows t).map MemoryCheckpoint.anonymous
  result (i : ι) (x : Except TakelnError (Option S)) : thread i = t → (P i = .ofExcept x ↔ P' i = .ofExcept x)

private theorem executions_of_entries {tr tr' : List (Entry (ops S) ι World)}
    (h : List.Forall₂ (sameCall S t).Entries tr tr') :
    executions (tr.map Entry.event) = executions (tr'.map Entry.event) := by
  induction h with
  | nil => rfl
  | @cons e e' tr tr' he _ ih =>
    have hcalled : calledNode e.event = calledNode e'.event := by
      obtain ⟨i, w, o, r⟩ := e
      obtain ⟨i', w', o', r'⟩ := e'
      cases he.ops with
      | @callNode ctx ctx' s d b hctx =>
        have hname : ctx.anonymous.nodeName = ctx'.anonymous.nodeName := congrArg NodeContext.nodeName hctx
        exact congrArg some hname
      | _ => rfl
    unfold executions at ih ⊢
    rw [List.map_cons, List.map_cons, List.filterMap_cons, List.filterMap_cons, hcalled, ih]

private theorem turns_of_entries {tr tr' : List (Entry (ops S) ι World)}
    (h : List.Forall₂ (sameCall S t).Entries tr tr') : tr'.map Entry.who = tr.map Entry.who := by
  induction h with
  | nil => rfl
  | cons he _ ih => rw [List.map_cons, List.map_cons, ih, he.who]

/-- Whatever the interleaving with calls on other threads, a thread whose calls take the same turns on their own, in an
environment that draws other ids and has another clock, does the same. -/
theorem threads_isolated [External] [State S] [DecidableEq ι] {env : Env S} (g : Graph S)
    (calls : ι → SequentialCall S) (thread : ι → String) (hdet : env.Deterministic) (t : String)
    (newId : Nat → String) (now : Nat → Int) {w₀ w₀' w : World} {tr : List (Entry (ops S) ι World)}
    {P : ι → Prog (ops S) TakelnError (Option S)} (hstart : w₀'.store t = w₀.store t)
    (hI : Interleaving (memory env).semantics (fun i => (calls i).prog g (thread i)) w₀ tr P w) :
    ∃ tr' P' w', schedule (memory (env.regenerate newId now)) ((onThread thread t tr).map Entry.who) []
        (fun i => (calls i).prog g (thread i)) w₀' = some (tr', P', w') ∧
      DoesTheSame thread t tr P w tr' P' w' := by
  have hmine (i : ι) (hi : thread i = t) :
      Matched (sameCall S t) Eq ((calls i).prog g (thread i)) ((calls i).prog g (thread i)) := hi ▸ (calls i).matched
  have hframe (q : Unit) (o : Op S) (w : World) (r : o.Answer) (w₁ w' : World) (hallow : (elsewhere S t).allow q o)
      (hsem : memory env w o = some (r, w₁)) (hw : MemoryStore.SameThread t w.store w'.store) :
      MemoryStore.SameThread t w₁.store w'.store :=
    (congrArg (Option.map (List.map MemoryCheckpoint.anonymous)) (store_of_elsewhere hallow hsem)).trans hw
  have hstart' : MemoryStore.SameThread t w₀.store w₀'.store :=
    congrArg (Option.map (List.map MemoryCheckpoint.anonymous)) hstart.symm
  have hanswered (o o' : Op S) (w : World) (r : o.Answer) (w₁ w' : World) (ho : SameOp t o o')
      (hsem : memory env w o = some (r, w₁)) (hw : MemoryStore.SameThread t w.store w'.store) :
      ∃ r' w₁', memory (env.regenerate newId now) w' o' = some (r', w₁') ∧ SameAnswer o r o' r' ∧
        MemoryStore.SameThread t w₁.store w₁'.store := answered_alike hdet ho hsem hw
  obtain ⟨tr', P', w', hI', htr, hsame, hmatched⟩ :=
    hI.project (fun i => thread i = t) (fun w w' : World => MemoryStore.SameThread t w.store w'.store) hmine
      (fun i hi => (calls i).follows_elsewhere hi) hframe hanswered hstart'
  refine ⟨tr', P', w', ?_, executions_of_entries htr, hsame.rows, fun i x hi => (hmatched i hi).ended_iff x⟩
  have hturns := hI'.schedule_turns
  rwa [turns_of_entries htr] at hturns

end Main

/-! ### Two threads at once -/

section Examples

attribute [local instance] shortRuns

/-- `B` after `A`. -/
def relay : Graph Nat where
  nodes := ["A", "B"]
  edges name := if name = "A" then some (.unconditional "B") else none

/-- Every node counts up. -/
def steady : Env Nat where
  newId n := s!"c{n}"
  now n := n
  answer _ _ state _ _ := .returned (.ok { state := state + 1 })
  outcome _ task := .ok (.ok { state := task.state })
  order _ := inOrder

/-- Two runs of the graph, on the threads `t` and `u`. -/
def twoRuns (first : Bool) : SequentialCall Nat := .run false (if first then 0 else 10) "A"

def twoThreads (first : Bool) : String := if first then "t" else "u"

/-- The runs take turns. -/
def alternating : List (Entry (ops Nat) Bool World) × (Bool → Prog (ops Nat) TakelnError (Option Nat)) × World :=
  (schedule (memory steady) ((List.replicate 18 [true, false]).flatten) []
    (fun i => (twoRuns i).prog relay (twoThreads i)) World.empty).get (by decide +kernel)

theorem threads_isolated_alternating :
    executions ((onThread twoThreads "t" alternating.1).map Entry.event) = ["A", "B"] ∧
      ∃ tr' P' w', schedule (memory (steady.regenerate (fun n => s!"d{n}") fun n => n + 100))
          ((onThread twoThreads "t" alternating.1).map Entry.who) []
          (fun i => (twoRuns i).prog relay (twoThreads i)) World.empty = some (tr', P', w') ∧
        DoesTheSame twoThreads "t" alternating.1 alternating.2.1 alternating.2.2 tr' P' w' :=
  ⟨by decide +kernel, threads_isolated relay twoRuns twoThreads (fun _ _ _ _ _ _ _ _ => rfl) "t" _ _ rfl
    (Interleaving.start.schedule (Option.some_get _).symm)⟩

end Examples

end Takeln
