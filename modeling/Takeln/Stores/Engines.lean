import Takeln.Effect.Akin
import Takeln.Threads.Continuity

/-!
# What the engines notice of a store

Two stores may report the same failure in different words and date a checkpoint differently.  The engines do not act on
either: told such answers, a call does the same as before, and it ends with the same state or with an error of the same
kind (`Call.akin`).
-/

namespace Takeln

open Effect Effect.Prog

/-- Errors of the same constructor; their texts may differ. -/
def SameKind (e e' : TakelnError) : Prop := e.ctorIdx = e'.ctorIdx

/-- The same kind of error, in the same situation. -/
def SameFailure {A : Type} (x x' : TakelnError × A) : Prop := SameKind x.1 x'.1 ∧ x.2 = x'.2

variable {S : Type}

/-- The checkpoint with another date. -/
def Loaded.datedAt (l : Loaded S) (t : Int) : Loaded S := { l with info := { l.info with createdAt := t } }

/-- The same checkpoint, or none in both cases; the dates may differ. -/
inductive SameFind : Option (Loaded S) → Option (Loaded S) → Prop
  | none : SameFind none none
  | some (l : Loaded S) (t : Int) : SameFind (some l) (some (l.datedAt t))

/-- What two stores answer to a load. -/
inductive SameLoad : Except TakelnError (Option (Loaded S)) → Except TakelnError (Option (Loaded S)) → Prop
  | ok {x x' : Option (Loaded S)} (h : SameFind x x') : SameLoad (.ok x) (.ok x')
  | error {e e' : TakelnError} (h : SameKind e e') : SameLoad (.error e) (.error e')

/-- Answers in which stores may differ; everything else is answered alike. -/
def Told : AnswerRel (ops S)
  | .currentHead _, r, r' => SameEnd SameKind r r'
  | .saveStateBound _, r, r' => SameEnd SameKind r r'
  | .loadState _, r, r' => SameLoad r r'
  | .claimInterrupt _ _, r, r' => SameEnd SameKind r r'
  | .callNode _ _ _ _, r, r' => r = r'
  | .joinWave _, r, r' => r = r'
  | .nextSeq, r, r' => r = r'
  | .send _, r, r' => r = r'
  | .record _ _, r, r' => r = r'

/-! ### Operations -/

section Operations

variable {E α : Type} {kind : E → E → Prop}

theorem akin_emit (event : Nat → GraphEvent) : Akin Told (SameEnd kind) (emit (S := S) event) (emit event) := by
  refine .perform fun n n' hn => ?_
  cases (show n = n' from hn)
  exact .perform fun _ _ _ => .ret ()

theorem akin_record (max : Nat) (r : ExecutionRecord) :
    Akin Told (SameEnd kind) (record (S := S) max r) (record max r) := .perform fun _ _ _ => .ret ()

theorem akin_ofExcept (hkind : ∀ e, kind e e) (x : Except E α) :
    Akin (F := ops S) Told (SameEnd kind) (Prog.ofExcept x) (Prog.ofExcept x) := by
  cases x with
  | ok a => exact .ret a
  | error e => exact .fail (hkind e)

theorem sameKind_refl (e : TakelnError) : SameKind e e := rfl

theorem sameFailure_refl {A : Type} (x : TakelnError × A) : SameFailure x x := ⟨rfl, rfl⟩

theorem akin_currentHead (threadId : String) :
    Akin Told (SameEnd SameKind) (currentHead (S := S) threadId) (currentHead threadId) :=
  .perform fun _ _ h => .ofExcept h

theorem akin_saveStateBound (args : SaveArgs S) :
    Akin Told (SameEnd SameKind) (saveStateBound args) (saveStateBound args) :=
  .perform fun _ _ h => .ofExcept h

theorem akin_claimInterrupt (threadId interruptId : String) :
    Akin Told (SameEnd SameKind) (claimInterrupt (S := S) threadId interruptId)
      (claimInterrupt threadId interruptId) :=
  .perform fun _ _ h => .ofExcept h

/-- Going on with what was loaded, whatever its date. -/
theorem akin_load {threadId : String} {f : Option (Loaded S) → Prog (ops S) TakelnError α} (hnone : Akin Told
    (SameEnd SameKind) (f none) (f none))
    (hsome : ∀ l t, Akin Told (SameEnd SameKind) (f (some l)) (f (some (l.datedAt t)))) :
    Akin Told (SameEnd SameKind) ((loadState threadId).bind f) ((loadState threadId).bind f) := by
  refine .perform fun r r' h => ?_
  cases (show SameLoad r r' from h) with
  | ok hfind =>
    cases hfind with
    | none => exact hnone
    | some l t => exact hsome l t
  | error he => exact .fail he

end Operations

/-- A checked save, as the engines make it. -/
theorem akin_saveChecked [State S] {A β : Type} (g : Graph S) (args : SaveArgs S) (a : A)
    {f : String → Prog (ops S) (TakelnError × A) β}
    (hf : ∀ id, Akin Told (SameEnd SameFailure) (f id) (f id)) :
    Akin Told (SameEnd SameFailure) (((g.saveChecked args).mapError (·, a)).bind f)
      (((g.saveChecked args).mapError (·, a)).bind f) := by
  have hsave : Akin Told (SameEnd SameKind) (g.saveChecked args) (g.saveChecked args) :=
    (akin_ofExcept sameKind_refl _).andThen fun _ =>
      (akin_saveStateBound args).andThen fun save => akin_ofExcept sameKind_refl _
  have hmapped : Akin Told (SameEnd SameFailure) ((g.saveChecked args).mapError (·, a))
      ((g.saveChecked args).mapError (·, a)) := hsave.mapError fun _ _ he => ⟨he, rfl⟩
  exact hmapped.andThen hf

/-! ### The sequential engine -/

namespace Graph

variable [External] (g : Graph S) (threadId : String) (cancellation : Bool)

theorem akin_callRetrying {E : Type} {kind : E → E → Prop} (v : Loop S) (left attempt : Nat) (input : Option Value) :
    Akin Told (SameEnd kind) (g.callRetrying threadId cancellation v left attempt input)
      (g.callRetrying threadId cancellation v left attempt input) := by
  induction left generalizing attempt input with
  | zero =>
    unfold callRetrying
    refine .perform fun r r' hr => ?_
    cases (show r = r' from hr)
    split <;> exact .ret _
  | succ left ih =>
    unfold callRetrying
    refine .perform fun r r' hr => ?_
    cases (show r = r' from hr)
    split
    · exact .ret _
    · exact ih _ _
    · exact .ret _

theorem akin_callNode {E : Type} {kind : E → E → Prop} (v : Loop S) :
    Akin Told (SameEnd kind) (g.callNode threadId cancellation v) (g.callNode threadId cancellation v) := by
  unfold callNode
  split
  · refine .perform fun r r' hr => ?_
    cases (show r = r' from hr)
    exact .ret _
  · exact g.akin_callRetrying threadId cancellation v _ _ _

variable [State S] (resolvedInterrupt : Option String)

omit [External] in
theorem akin_onSuccess (v : Loop S) (attempt : Nat) (out : NodeOutput S) :
    Akin Told (SameEnd SameFailure) (g.onSuccess threadId resolvedInterrupt v attempt out)
      (g.onSuccess threadId resolvedInterrupt v attempt out) := by
  unfold onSuccess
  dsimp only
  split
  · exact (akin_emit _).andThen fun _ => .fail (sameFailure_refl _)
  split
  · exact (akin_emit _).andThen fun _ => .fail (sameFailure_refl _)
  · refine (akin_record _ _).andThen fun _ => (akin_emit _).andThen fun _ => ?_
    exact akin_saveChecked g _ _ fun _ => .ret _

omit [External] in
theorem akin_onError (v : Loop S) (e : GraphError) :
    Akin Told (SameEnd SameFailure) (g.onError threadId v e) (g.onError threadId v e) := by
  cases e with
  | yield request =>
    exact (akin_emit _).andThen fun _ => akin_saveChecked g _ _ fun _ => .ret _
  | retryable msg => exact (akin_emit _).andThen fun _ => .fail (sameFailure_refl _)
  | fatal msg => exact (akin_emit _).andThen fun _ => .fail (sameFailure_refl _)
  | budgetExceeded spentEur limitEur => exact (akin_emit _).andThen fun _ => .fail (sameFailure_refl _)
  | yieldInDynamicNode interruptId => exact .fail (sameFailure_refl _)

theorem akin_loopBody (v : Loop S) :
    Akin Told (SameEnd SameFailure) (g.loopBody threadId cancellation resolvedInterrupt v)
      (g.loopBody threadId cancellation resolvedInterrupt v) := by
  unfold loopBody
  split
  · exact (akin_emit _).andThen fun _ => .ret _
  split
  · exact akin_saveChecked g _ _ fun _ => .ret _
  split
  · exact .fail (sameFailure_refl _)
  · refine (akin_emit _).andThen fun _ => (g.akin_callNode threadId cancellation v).andThen ?_
    rintro ⟨attempt, out | e⟩
    · exact g.akin_onError threadId v _
    · exact g.akin_onSuccess threadId resolvedInterrupt v attempt _

theorem akin_runLoop (remaining : Nat) (v : Loop S) :
    Akin Told (SameEnd SameFailure) (g.runLoop threadId cancellation resolvedInterrupt remaining v)
      (g.runLoop threadId cancellation resolvedInterrupt remaining v) := by
  induction remaining generalizing v with
  | zero => exact .fail (sameFailure_refl _)
  | succ remaining ih =>
    refine (g.akin_loopBody threadId cancellation resolvedInterrupt v).andThen fun flow => ?_
    cases flow with
    | next v => exact ih v
    | stop v => exact .ret _

theorem akin_runInner (state : S) (startNode : String) (resumedInput : Option Value) :
    Akin Told (SameEnd SameFailure) (g.runInner threadId cancellation resolvedInterrupt state startNode resumedInput)
      (g.runInner threadId cancellation resolvedInterrupt state startNode resumedInput) := by
  have hhead : Akin Told (SameEnd SameFailure)
      ((currentHead (S := S) threadId).mapError (·, (none : Option (Option String))))
      ((currentHead (S := S) threadId).mapError (·, (none : Option (Option String)))) :=
    (akin_currentHead threadId).mapError fun _ _ he => ⟨he, rfl⟩
  exact hhead.andThen fun head => g.akin_runLoop threadId cancellation resolvedInterrupt _ _

/-- The end of a run, for its callers. -/
theorem akin_runInner_fst (state : S) (startNode : String) (resumedInput : Option Value) :
    Akin Told (SameEnd SameKind)
      ((g.runInner threadId cancellation resolvedInterrupt state startNode resumedInput).mapError Prod.fst)
      ((g.runInner threadId cancellation resolvedInterrupt state startNode resumedInput).mapError Prod.fst) :=
  (g.akin_runInner threadId cancellation resolvedInterrupt state startNode resumedInput).mapError fun _ _ he => he.1

theorem akin_resumeWith (rebind : S → S) :
    Akin Told (SameEnd SameKind) (g.resumeWith threadId cancellation rebind)
      (g.resumeWith threadId cancellation rebind) := by
  refine akin_load (.ret _) fun l t => ?_
  have continueAt (node : String) : Akin Told (SameEnd SameKind)
      (((g.runInner threadId cancellation l.info.claimedInterrupt (rebind l.state) node none).mapError Prod.fst).bind
        fun final => .ret (some final))
      (((g.runInner threadId cancellation l.info.claimedInterrupt (rebind l.state) node none).mapError Prod.fst).bind
        fun final => .ret (some final)) :=
    (g.akin_runInner_fst threadId cancellation _ _ _ _).andThen fun _ => .ret _
  change Akin Told (SameEnd SameKind) (ite (l.info.status = .running) _ _) (ite (l.info.status = .running) _ _)
  split
  · cases hpolicy : g.crashRecoveryPolicy with
    | resetToPending => exact continueAt _
    | failFast => exact .fail rfl
    | skipAndContinue =>
      dsimp only [Loaded.datedAt]
      cases g.edges l.info.nextNode with
      | none => exact continueAt _
      | some edge => exact continueAt _
  · exact continueAt _

omit [External] [State S] in
theorem akin_revertToYielded (state : S) (nextNode : String) (request : YieldRequest)
    (lastHead : Option (Option String)) :
    Akin Told (SameEnd SameKind) (revertToYielded threadId state nextNode request lastHead)
      (revertToYielded threadId state nextNode request lastHead) := by
  have hsave (head : Option String) : Akin Told (SameEnd SameKind)
      ((saveStateBound (revertSave threadId state nextNode request head)).bind fun save =>
        (Prog.ofExcept (checkpointId save)).bind fun _ => .ret ())
      ((saveStateBound (revertSave threadId state nextNode request head)).bind fun save =>
        (Prog.ofExcept (checkpointId save)).bind fun _ => .ret ()) :=
    (akin_saveStateBound _).andThen fun save => (akin_ofExcept sameKind_refl _).andThen fun _ => .ret _
  cases lastHead with
  | some head => exact hsave head
  | none => exact (akin_currentHead threadId).andThen hsave

theorem akin_runClaimed (l : Loaded S) (t : Int) (request : YieldRequest) (interruptId startNode : String)
    (input : Option Value) :
    Akin Told (SameEnd SameKind) (g.runClaimed threadId cancellation l request interruptId startNode input)
      (g.runClaimed threadId cancellation (l.datedAt t) request interruptId startNode input) := by
  refine (g.akin_runInner threadId cancellation (some interruptId) l.state startNode input).attempt
    fun x x' hx => ?_
  cases hx with
  | ok final => exact .ret _
  | @error e e' he =>
    obtain ⟨e, lastHead⟩ := e
    obtain ⟨e', lastHead'⟩ := e'
    obtain ⟨hkind, rfl⟩ : SameKind e e' ∧ lastHead = lastHead' := he
    refine (akin_revertToYielded threadId l.state l.info.nextNode request lastHead).attempt fun y y' hy => ?_
    cases hy with
    | ok => exact .fail hkind
    | error _ => exact .fail rfl

theorem akin_resumeWithInput (interruptId : String) (input : Value) (context : ResumeContext) :
    Akin Told (SameEnd SameKind) (g.resumeWithInput threadId cancellation interruptId input context)
      (g.resumeWithInput threadId cancellation interruptId input context) := by
  refine (akin_claimInterrupt threadId interruptId).andThen fun claim => ?_
  refine akin_load (.fail rfl) fun l t => ?_
  cases claim with
  | inProgress => exact .fail rfl
  | alreadyCompleted => exact .ret _
  | claimed =>
    refine (akin_ofExcept sameKind_refl (checkResume threadId interruptId input l)).andThen fun request => ?_
    refine (g.akin_runClaimed threadId cancellation l t request interruptId _ _).andThen fun final => ?_
    exact (akin_record _ _).andThen fun _ => .ret _

end Graph

/-! ### The wave engine -/

namespace Graph

variable (g : Graph S) (threadId : String) (cancellation : Bool)

theorem akin_joinLoop (results : List (JoinResult S)) (j : Joining S) :
    Akin Told (SameEnd SameFailure) (g.joinLoop results j) (g.joinLoop results j) := by
  induction results generalizing j with
  | nil => exact .ret _
  | cons result results ih =>
    rcases result with panic | ⟨idx, e | out⟩
    · exact .fail (sameFailure_refl _)
    · cases e with
      | yield request => exact ih _
      | budgetExceeded spentEur limitEur => exact .fail (sameFailure_refl _)
      | _ =>
        unfold joinLoop
        split
        · exact .fail (sameFailure_refl _)
        · exact ih _
    · refine (akin_record _ _).andThen fun _ => ?_
      split
      · exact .fail (sameFailure_refl _)
      · exact ih _

variable [State S] [Merge S]

theorem akin_afterJoin (v : Waves S) (ready : List Nat) (j : Joining S) :
    Akin Told (SameEnd SameFailure) (g.afterJoin threadId v ready j) (g.afterJoin threadId v ready j) := by
  unfold afterJoin
  split
  · exact .fail (sameFailure_refl _)
  split
  · exact akin_saveChecked g _ _ fun _ => .ret _
  dsimp only
  split
  · exact .fail (sameFailure_refl _)
  · exact akin_saveChecked g _ _ fun _ => .ret _

theorem akin_waveBody (v : Waves S) :
    Akin Told (SameEnd SameFailure) (g.waveBody threadId cancellation v) (g.waveBody threadId cancellation v) := by
  unfold waveBody
  dsimp only
  split
  · split
    · exact .fail (sameFailure_refl _)
    · exact .ret _
  split
  · exact akin_saveChecked g _ _ fun _ => .ret _
  unfold launch
  dsimp only
  split
  · exact .fail (sameFailure_refl _)
  · refine .perform fun r r' hr => ?_
    cases (show r = r' from hr)
    exact (g.akin_joinLoop r _).andThen fun j => g.akin_afterJoin threadId v _ j

theorem akin_runWaves (remaining : Nat) (v : Waves S) :
    Akin Told (SameEnd SameFailure) (g.runWaves threadId cancellation remaining v)
      (g.runWaves threadId cancellation remaining v) := by
  induction remaining generalizing v with
  | zero => exact .fail (sameFailure_refl _)
  | succ remaining ih =>
    refine (g.akin_waveBody threadId cancellation v).andThen fun flow => ?_
    cases flow with
    | next v => exact ih v
    | stop v => exact (akin_emit _).andThen fun _ => .ret _
    | yielded v => exact .ret _

theorem akin_runDag (dag : DAG) (state : S) (depth : Nat) :
    Akin Told (SameEnd SameFailure) (g.runDag threadId cancellation dag state depth)
      (g.runDag threadId cancellation dag state depth) := by
  unfold runDag
  dsimp only
  split
  · exact .fail (sameFailure_refl _)
  split
  · exact .fail (sameFailure_refl _)
  have hhead : Akin Told (SameEnd SameFailure) ((currentHead (S := S) threadId).mapError (·, dag))
      ((currentHead (S := S) threadId).mapError (·, dag)) :=
    (akin_currentHead threadId).mapError fun _ _ he => ⟨he, rfl⟩
  exact hhead.andThen fun head => g.akin_runWaves threadId cancellation _ _

theorem akin_resumeDag (dag : DAG) (depth : Nat) :
    Akin Told (SameEnd SameFailure) (g.resumeDag threadId cancellation dag depth)
      (g.resumeDag threadId cancellation dag depth) := by
  refine .perform fun r r' h => ?_
  cases (show SameLoad r r' from h) with
  | error he => exact .fail ⟨he, rfl⟩
  | ok hfind =>
    cases hfind with
    | none => exact .ret _
    | some l t =>
      obtain ⟨state, info, _ | saved⟩ := l
      · exact .ret _
      change Akin Told (SameEnd SameFailure) (ite (info.status = .running ∧ _) _ _)
        (ite (info.status = .running ∧ _) _ _)
      split
      · exact .fail (sameFailure_refl _)
      · exact (g.akin_runDag threadId cancellation _ state depth).andThen fun _ => .ret _

end Graph

/-! ### Calls -/

/-- Whatever a store says in its errors, and however it dates its checkpoints, a call does and returns the same. -/
theorem Call.akin [External] [State S] [Merge S] (threadId : String) (call : Call S) :
    Akin Told (SameEnd SameKind) (call.answer threadId) (call.answer threadId) := by
  cases call with
  | run g c state startNode => exact (g.akin_runInner_fst threadId c none state startNode none).andThen fun _ => .ret _
  | resume g c => exact g.akin_resumeWith threadId c id
  | resumeWith g c rebind => exact g.akin_resumeWith threadId c rebind
  | resumeWithInput g c i input context => exact g.akin_resumeWithInput threadId c i input context
  | runDag g c dag state depth =>
    have hrun : Akin Told (SameEnd SameKind) ((g.runDag threadId c dag state depth).mapError Prod.fst)
        ((g.runDag threadId c dag state depth).mapError Prod.fst) :=
      (g.akin_runDag threadId c dag state depth).mapError fun _ _ he => he.1
    exact hrun.andThen fun _ => .ret _
  | resumeDag g c dag depth =>
    have hrun : Akin Told (SameEnd SameKind) ((g.resumeDag threadId c dag depth).mapError Prod.fst)
        ((g.resumeDag threadId c dag depth).mapError Prod.fst) :=
      (g.akin_resumeDag threadId c dag depth).mapError fun _ _ he => he.1
    exact hrun.andThen fun _ => .ret _

end Takeln
