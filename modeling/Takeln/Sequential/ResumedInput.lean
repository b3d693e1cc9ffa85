import Takeln.Sequential.Follows
import Takeln.Sequential.Resume

/-!
# The input of a resumed run

A resume in the mode `ReEntry` hands its input to the first call of the yielded node.  The input is taken then: the
attempts after a retryable error, and all the calls of the rest of the run, are made without it.
-/

namespace Takeln

open Effect Effect.Prog

variable {S : Type}

/-! ### Attempts of the yielded node -/

/-- The context of the call an operation is. -/
def calledWith (e : Event (ops S)) : Option NodeContext :=
  match e.op with
  | .callNode ctx _ _ _ => some ctx
  | _ => none

/-- The operation is a durable write. -/
def isSave (e : Event (ops S)) : Bool :=
  match e.op with
  | .saveStateBound _ => true
  | _ => false

/-- Up to the first durable write, which ends the execution of the first node, every call is one of `name` with the
input; after it no call has an input. -/
structure InputHeld (name : String) (input : Value) (tr : List (Event (ops S))) : Prop where
  attempts {pre post : List (Event (ops S))} {e : Event (ops S)} {ctx : NodeContext} : tr = pre ++ e :: post →
    calledWith e = some ctx → (∀ e' ∈ pre, isSave e' = false) → ctx.nodeName = name ∧ ctx.resumedInput = some input
  others {pre post : List (Event (ops S))} {e : Event (ops S)} {ctx : NodeContext} : tr = pre ++ e :: post →
    calledWith e = some ctx → (∃ e' ∈ pre, isSave e' = true) → ctx.resumedInput = none

/-- How far a resumed run has got: no call yet, a call that ends the first node or one that is followed by another
attempt, or a save. -/
inductive Attempts
  | fresh
  | called
  | retrying
  | saved
  deriving DecidableEq

section

variable (g : Graph S) (name : String)

/-- A regular node whose first attempt ends like this is called again. -/
def Graph.TriesAgain {timeout : Option Duration} {token : Bool} (r : CallAnswer S timeout token) : Prop :=
  name ∉ g.dynamicNodes ∧ 2 ≤ (g.effectiveRetry name).maxAttempts ∧
    ∃ msg, CallAnswer.result name r = .error (.retryable msg)

open Classical in
/-- The first attempt is made with `ctx`; nothing after it has an input. -/
noncomputable def taking (ctx : NodeContext) (state : S) : Protocol (ops S) Attempts where
  allow q o := match q, o with
    | .fresh, .callNode ctx' state' timeout token => g.Starts name ∧ ctx' = ctx ∧ state' = state ∧
      (name ∉ g.dynamicNodes → timeout = g.effectiveTimeout name ∧ token = ctx.cancellation)
    | .called, .callNode _ _ _ _ => False
    | .retrying, .callNode ctx' _ _ _ => ctx'.resumedInput = none
    | .saved, .callNode ctx' _ _ _ => ctx'.resumedInput = none
    | _, _ => True
  next q o r := match q, o, r with
    | .fresh, .callNode _ _ _ _, r => if g.TriesAgain name r then .retrying else .called
    | _, .saveStateBound _, _ => .saved
    | q, _, _ => q

variable {g name}

theorem taking_silent {ctx : NodeContext} {state : S} (q : Attempts) (max : Nat) :
    Silent (taking g name ctx state) q max := by
  constructor <;> cases q <;> intros <;> exact ⟨trivial, by intros; rfl⟩

/-- What the first call leads to. -/
theorem taking_call (ctx ctx' : NodeContext) (state state' : S) {timeout : Option Duration} {token : Bool}
    (r : CallAnswer S timeout token) :
    (taking g name ctx state).next .fresh (.callNode ctx' state' timeout token) r = .called ∨
      (taking g name ctx state).next .fresh (.callNode ctx' state' timeout token) r = .retrying ∧
        g.TriesAgain name r := by
  classical
  by_cases h : g.TriesAgain name r
  · exact Or.inr ⟨if_pos h, h⟩
  · exact Or.inl (if_neg h)

theorem taking_save {ctx : NodeContext} {state : S} {q : Attempts} {args : SaveArgs S}
    {Φ : Attempts → Except TakelnError String → Prop} (h : ∀ x, Φ .saved x) :
    SaveFollows (taking g name ctx state) q args Φ := by
  cases q <;> exact ⟨trivial, fun r => h _⟩

end

section

variable [External] [State S] {g : Graph S} {threadId : String} {cancellation : Bool} {i : String}

/-- The context of the first call of a resumed run. -/
def Graph.firstContext (g : Graph S) (threadId : String) (cancellation : Bool) (name : String) (state : S)
    (input : Value) : NodeContext :=
  g.context threadId cancellation (.start state name (some input) none) 0 (some input)

omit [State S] in
/-- After the first node has saved, a node is called without an input. -/
theorem callNode_taking_saved {name : String} {ctx : NodeContext} {state : S} {v : Loop S}
    (hinput : v.pendingResumedInput = none)
    {Φ : Attempts → Except RunError (Nat × Except GraphError (NodeOutput S)) → Prop} (h : ∀ x, Φ .saved (.ok x)) :
    Follows (taking g name ctx state) (g.callNode threadId cancellation v) .saved Φ := by
  unfold Graph.callNode
  rw [hinput]
  split
  · exact ⟨rfl, fun _ => h _⟩
  · refine follows_callRetrying (J := fun _ _ input q => q = .saved ∧ input = none) (Ψ := fun q _ => q = .saved) ?_
      (fun q x hq => hq ▸ h x) _ _ _ ⟨rfl, rfl⟩
    rintro _ left attempt _ ⟨rfl, rfl⟩
    exact ⟨rfl, fun _ => ⟨fun _ _ _ _ => ⟨rfl, rfl⟩, rfl⟩⟩

omit [State S] in
/-- The first node of a resumed run is called with the input, and then without. -/
theorem callNode_taking_fresh {name : String} {state : S} {input : Value} {head : Option String}
    (hstarts : g.Starts name)
    {Φ : Attempts → Except RunError (Nat × Except GraphError (NodeOutput S)) → Prop} (h : ∀ q x, Φ q (.ok x)) :
    Follows (taking g name (g.firstContext threadId cancellation name state input) state)
      (g.callNode threadId cancellation (.start state name (some input) head)) .fresh Φ := by
  unfold Graph.callNode
  split
  · rename_i hdynamic
    exact ⟨⟨hstarts, rfl, rfl, fun h => absurd hdynamic h⟩, fun _ => h _ _⟩
  · rename_i hregular
    refine follows_callRetrying (Ψ := fun _ _ => True)
      (J := fun left attempt input' q => (q = .fresh ∧ left = (g.effectiveRetry name).maxAttempts - 1 ∧ attempt = 0 ∧
        input' = some input) ∨ (q = .retrying ∧ input' = none)) ?_ (fun q x _ => h q x) _ _ _
          (Or.inl ⟨rfl, rfl, rfl, rfl⟩)
    rintro _ left attempt _ (⟨rfl, hleft, rfl, rfl⟩ | ⟨rfl, rfl⟩)
    · refine ⟨⟨hstarts, rfl, rfl, fun _ => ⟨rfl, rfl⟩⟩, fun r => ⟨fun left' msg hl hmsg => Or.inr ⟨?_, rfl⟩, trivial⟩⟩
      exact if_pos ⟨hregular, by omega, msg, hmsg⟩
    · exact ⟨rfl, fun r => ⟨fun _ _ _ _ => Or.inr ⟨rfl, rfl⟩, trivial⟩⟩

/-- A round that goes on has saved, and has no input any more. -/
private def AfterRound : Attempts → Except RunError (Flow S) → Prop
  | q, .ok (.next v) => q = .saved ∧ v.pendingResumedInput = none
  | _, _ => True

/-- A resumed run takes its input once. -/
theorem runInner_taking (name : String) (state : S) (input : Value) (resolvedInterrupt : Option String) :
    Follows (taking g name (g.firstContext threadId cancellation name state input) state)
      (g.runInner threadId cancellation resolvedInterrupt state name (some input)) .fresh fun _ _ => True := by
  rcases Nat.eq_zero_or_pos g.resourceLimits.maxSequentialSteps with hlimit | hlimit
  · unfold Graph.runInner
    rw [hlimit]
    refine ⟨trivial, fun r => ?_⟩
    cases r <;> trivial
  -- the loop is at its start until the first save, and has given the input away after it
  refine follows_runInner (I := fun q v => (q = .fresh ∧ ∃ head, v = .start state name (some input) head) ∨
    (q = .saved ∧ v.pendingResumedInput = none)) trivial (fun _ => trivial) (fun head => Or.inl ⟨rfl, head, rfl⟩) ?_
    (fun _ _ _ _ => trivial)
  have goes {q : Attempts} {v : Loop S} (hcall : g.Runs v → Follows (taking g name
      (g.firstContext threadId cancellation name state input) state) (g.callNode threadId cancellation v :
        Prog (ops S) RunError _) q fun _ _ => True) :
      Follows (taking g name (g.firstContext threadId cancellation name state input) state)
        (g.loopBody threadId cancellation resolvedInterrupt v) q AfterRound := by
    refine follows_loopBody_cases (Ψ := fun _ _ => True) (taking_silent _ _).nodes
      (fun _ => (taking_silent _ 0).emit _ trivial) (fun _ => trivial)
      (fun _ => taking_save fun x => by cases x <;> trivial)
      (fun hruns => (hcall hruns).mono fun _ x _ => by cases x <;> trivial) (fun q' attempt out _ => ?_)
      fun q' attempt err _ => ?_
    · refine follows_onSuccess (taking_silent _ _).nodes (fun _ _ _ => trivial) fun _ _ => ⟨fun _ => trivial,
        taking_save fun x => ?_⟩
      cases x with
      | error e => trivial
      | ok id =>
        dsimp only
        by_cases hafter : v.currentNodeName ∈ g.interruptAfter
        · rw [if_pos hafter]
          trivial
        · rw [if_neg hafter]
          exact ⟨rfl, rfl⟩
    · exact follows_onError (taking_silent _ _).nodes (fun _ => trivial) fun _ _ =>
        taking_save fun x => by cases x <;> trivial
  rintro q v (⟨rfl, head, rfl⟩ | ⟨rfl, hinput⟩)
  · refine (goes fun hruns => callNode_taking_fresh ⟨hlimit, hruns.1, hruns.2.2⟩ fun _ _ => trivial).mono
      fun q' x hx => ?_
    rcases x with e | ⟨v' | v'⟩
    · trivial
    · exact Or.inr hx
    · trivial
  · refine (goes fun _ => callNode_taking_saved hinput fun _ => trivial).mono fun q' x hx => ?_
    rcases x with e | ⟨v' | v'⟩
    · trivial
    · exact Or.inr hx
    · trivial

/-- So does the whole resume. -/
theorem resumeClaimed_taking {loaded : Loaded S} {request : YieldRequest} (hmode : request.resumeMode = .reEntry)
    (input : Value) (context : ResumeContext) :
    Follows (taking g loaded.info.nextNode
        (g.firstContext threadId cancellation loaded.info.nextNode loaded.state input) loaded.state)
      (g.resumeClaimed threadId cancellation loaded request i input context) .fresh fun _ _ => True := by
  unfold Graph.resumeClaimed Graph.resumeStart Graph.resumeInput
  rw [hmode, bind_eq, follows_bind]
  refine follows_runClaimed ((runInner_taking _ _ input _).mono fun q x _ => ?_)
  rcases x with ⟨e, lastHead⟩ | final
  · refine follows_revertToYielded (fun _ _ => taking_save fun x => ?_) fun _ => ⟨?_, fun _ => ?_,
      fun _ => taking_save fun x => ?_⟩
    · cases x with
      | error e => exact fun _ => trivial
      | ok id => trivial
    · cases q <;> trivial
    · exact fun _ => trivial
    · cases x with
      | error e => exact fun _ => trivial
      | ok id => trivial
  · dsimp only
    rw [bind_eq, follows_bind]
    exact follows_record (taking_silent _ _).nodes _ trivial

/-! ### Attempts of a stopped run -/

section

variable {name : String} {ctx : NodeContext} {state : S}

omit [External] [State S] in
/-- The first node has saved exactly if there was a save. -/
theorem after_taking_eq_saved_iff {q : Attempts} (hq : q ≠ .saved) (tr : List (Event (ops S))) :
    (taking g name ctx state).after q tr = .saved ↔ ∃ e ∈ tr, isSave e = true := by
  induction tr generalizing q with
  | nil => simp [Protocol.after, hq]
  | cons e tr ih =>
    have hstays : (taking g name ctx state).after .saved tr = .saved := by
      clear ih
      induction tr with
      | nil => rfl
      | cons e' tr ih =>
        obtain ⟨o, r⟩ := e'
        cases o <;> exact ih
    obtain ⟨o, r⟩ := e
    cases hsave : isSave ⟨o, r⟩ with
    | true =>
      refine iff_of_true ?_ ⟨_, List.mem_cons_self, hsave⟩
      cases o with
      | saveStateBound args => cases q <;> exact hstays
      | _ => cases hsave
    | false =>
      have hnext : (taking g name ctx state).next q o r ≠ .saved := by
        cases o with
        | saveStateBound args => cases hsave
        | callNode ctx' state' timeout token =>
          cases q with
          | fresh =>
            rcases taking_call (g := g) ctx ctx' state state' r with hcall | ⟨hcall, -⟩
            · rw [hcall]
              intro h
              cases h
            · rw [hcall]
              intro h
              cases h
          | _ => exact hq
        | _ => cases q <;> exact hq
      refine (ih hnext).trans ?_
      simp [hsave]

end

/-- The first attempt fails with a retryable error, and there is another one. -/
def FirstRetried (env : Env S) (g : Graph S) (threadId : String) (cancellation : Bool) (name : String) (state : S)
    (input : Value) (n : Nat) : Prop :=
  g.Starts name ∧ g.TriesAgain name (env.answer n (g.firstContext threadId cancellation name state input) state
    (g.effectiveTimeout name) cancellation)

variable {env : Env S} {w : World} {loaded : Loaded S} {request : YieldRequest} {input : Value}
  {context : ResumeContext}

/-- Unless the first attempt is retried, the rest of the run is called without an input. -/
theorem inputHeld_of_not_retried (hmode : request.resumeMode = .reEntry)
    (hfirst : ¬ FirstRetried env g threadId cancellation loaded.info.nextNode loaded.state input w.calls)
    {tr : List (Event (ops S))} {p : Prog (ops S) TakelnError (Option S)} {w' : World}
    (hr : Reaches (memory env) (g.resumeClaimed threadId cancellation loaded request i input context) w tr p w') :
    InputHeld loaded.info.nextNode input tr := by
  have hfollow : Follows (taking g loaded.info.nextNode _ loaded.state)
      (g.resumeClaimed threadId cancellation loaded request i input context) .fresh fun _ _ => True :=
    resumeClaimed_taking hmode input context
  -- the first call is not retried, so no call is while the input is held
  have hstate : ∀ {pre post : List (Event (ops S))}, tr = pre ++ post →
      (taking g loaded.info.nextNode (g.firstContext threadId cancellation loaded.info.nextNode loaded.state input)
        loaded.state).after .fresh pre ≠ .retrying := by
    rintro pre post rfl
    obtain ⟨p₁, w₁, hpre, -⟩ := hr.split
    refine (hfollow.invariant (I := fun q _ w' => (q = .fresh → w'.calls = w.calls) ∧ q ≠ .retrying) ?_ hpre
      ⟨fun _ => rfl, fun h => by cases h⟩).2
    rintro q _ w₁ o r w₂ hallow hstep ⟨hcalls, hq⟩
    cases o with
    | callNode ctx state timeout token =>
      cases q with
      | fresh =>
        obtain ⟨hstarts, rfl, rfl, htime⟩ := hallow
        rcases taking_call (g := g) (g.firstContext threadId cancellation loaded.info.nextNode loaded.state input)
          (g.firstContext threadId cancellation loaded.info.nextNode loaded.state input) loaded.state loaded.state r
          with hcall | ⟨hcall, hagain⟩
        · rw [hcall]
          exact ⟨fun h => (by cases h), fun h => (by cases h)⟩
        · obtain ⟨rfl, rfl⟩ := htime hagain.1
          cases hstep
          rw [hcalls rfl] at hagain
          exact absurd ⟨hstarts, hagain⟩ hfirst
      | called => exact absurd hallow id
      | retrying => exact absurd rfl hq
      | saved => exact ⟨fun h => (by cases h), fun h => (by cases h)⟩
    | saveStateBound args => cases q <;> exact ⟨fun h => (by cases h), fun h => (by cases h)⟩
    | record max rec =>
      obtain ⟨records, -, hw⟩ := Option.map_eq_some_iff.1 hstep
      cases hw
      cases q <;> exact ⟨hcalls, hq⟩
    | _ =>
      cases hstep
      cases q <;> exact ⟨hcalls, hq⟩
  -- the protocol knows whether something was saved
  have hsaved : ∀ pre : List (Event (ops S)),
      (taking g loaded.info.nextNode (g.firstContext threadId cancellation loaded.info.nextNode loaded.state input)
        loaded.state).after .fresh pre = .saved ↔ ∃ e ∈ pre, isSave e = true :=
    after_taking_eq_saved_iff (by intro h; cases h)
  constructor
  · rintro pre post ⟨o, r⟩ ctx htr hctx hnone
    have hallow := hfollow.allow_of_reaches (htr ▸ hr)
    have hretrying := hstate htr
    have hnot := mt (hsaved pre).1 fun ⟨e, he, hsave⟩ => by simp [hnone e he] at hsave
    cases o <;> cases hctx
    generalize (taking g loaded.info.nextNode _ loaded.state).after .fresh pre = q at hallow hretrying hnot
    cases q with
    | fresh =>
      obtain ⟨-, rfl, -⟩ := hallow
      exact ⟨rfl, rfl⟩
    | called => exact absurd hallow id
    | retrying => exact absurd rfl hretrying
    | saved => exact absurd rfl hnot
  · rintro pre post ⟨o, r⟩ ctx htr hctx hsave
    have hallow := hfollow.allow_of_reaches (htr ▸ hr)
    rw [(hsaved pre).2 hsave] at hallow
    cases o <;> cases hctx
    exact hallow

/-- If the first attempt is retried, the second one is made without the input. -/
theorem reaches_secondCall (hfirst : FirstRetried env g threadId cancellation loaded.info.nextNode loaded.state
    input w.calls) (hmode : request.resumeMode = .reEntry) :
    ∃ pre e₁ e₂ ctx p w', Reaches (memory env) (g.runLoop threadId cancellation (some i)
        g.resourceLimits.maxSequentialSteps (g.resumeLoop loaded request input)) w (pre ++ [e₁, e₂]) p w' ∧
      (∀ e ∈ pre ++ [e₁], isSave e = false) ∧ calledWith e₂ = some ctx ∧ ctx.resumedInput = none := by
  obtain ⟨⟨hlimit, hname, hregistered⟩, hregular, hattempts, msg, hmsg⟩ := hfirst
  obtain ⟨k, hk⟩ := Nat.exists_eq_succ_of_ne_zero hlimit.ne'
  obtain ⟨left, hleft⟩ := Nat.exists_eq_add_of_le hattempts
  have hloop : g.resumeLoop loaded request input =
      .start loaded.state loaded.info.nextNode (some input) none := by
    simp [Graph.resumeLoop, Graph.resumeStart, Graph.resumeInput, hmode]
  rw [hloop]
  generalize hv : Loop.start loaded.state loaded.info.nextNode (some input) none = v
  have hcalls : ∃ e₁ e₂ ctx p w', Reaches (memory env) (g.callNode threadId cancellation v : Prog (ops S) RunError _)
      { w with seq := w.seq + 1 } [e₁, e₂] p w' ∧ isSave e₁ = false ∧ calledWith e₂ = some ctx ∧
        ctx.resumedInput = none := by
    have hleft' : (g.effectiveRetry v.currentNodeName).maxAttempts - 1 = left + 1 := by
      subst hv
      exact (congrArg (· - 1) hleft).trans (by omega)
    unfold Graph.callNode
    rw [if_neg (by subst hv; exact hregular), hleft']
    have hresult : CallAnswer.result v.currentNodeName (env.answer w.calls
        (g.context threadId cancellation v 0 v.pendingResumedInput) v.state (g.effectiveTimeout v.currentNodeName)
        cancellation) = .error (.retryable msg) := by
      subst hv
      exact hmsg
    have hsecond : ∃ r p w', Reaches (memory env)
        (g.callRetrying threadId cancellation v left 1 none : Prog (ops S) RunError _)
        { w with seq := w.seq + 1, calls := w.calls + 1 } [⟨.callNode (g.context threadId cancellation v 1 none) v.state
          (g.effectiveTimeout v.currentNodeName) cancellation, r⟩] p w' := by
      cases left <;> unfold Graph.callRetrying <;> exact ⟨_, _, _, .step rfl (.here _ _)⟩
    obtain ⟨r, p, w', hsecond⟩ := hsecond
    refine ⟨⟨.callNode (g.context threadId cancellation v 0 v.pendingResumedInput) v.state
        (g.effectiveTimeout v.currentNodeName) cancellation, env.answer w.calls (g.context threadId cancellation v 0
        v.pendingResumedInput) v.state (g.effectiveTimeout v.currentNodeName) cancellation⟩,
      ⟨.callNode (g.context threadId cancellation v 1 none) v.state (g.effectiveTimeout v.currentNodeName) cancellation,
        r⟩, _, p, w', ?_, rfl, rfl, rfl⟩
    unfold Graph.callRetrying
    refine .step rfl ?_
    simp only [hresult]
    exact hsecond
  obtain ⟨e₁, e₂, ctx, p, w', hreach, he₁, he₂, hctx⟩ := hcalls
  -- the loop makes both calls in its first round
  have hruns : v.currentNodeName ≠ "__END__" ∧ ¬ g.GatedBefore v ∧ g.registered v.currentNodeName := by
    subst hv
    exact ⟨hname, fun h => Bool.noConfusion h.1, hregistered⟩
  rw [hk]
  unfold Graph.runLoop Graph.loopBody
  rw [if_neg hruns.1, if_neg (show ¬ (v.isFirstStep = false ∧ _) from hruns.2.1), if_neg (not_not.2 hruns.2.2)]
  refine ⟨[⟨.nextSeq, w.seq⟩, ⟨.send (.nodeStarted threadId v.currentNodeName w.seq), ()⟩], e₁, e₂, ctx, _, w',
    .step rfl (.step rfl ((hreach.bind _).bind _)), ?_, he₂, hctx⟩
  simp only [List.cons_append, List.nil_append, List.forall_mem_cons]
  exact ⟨rfl, rfl, he₁, fun _ h => absurd h List.not_mem_nil⟩

omit [External] [State S] in
/-- Operations before the run that neither call nor save. -/
theorem inputHeld_append_iff {name : String} {pre tr : List (Event (ops S))}
    (hpre : ∀ e ∈ pre, calledWith e = none ∧ isSave e = false) :
    InputHeld name input (pre ++ tr) ↔ InputHeld name input tr := by
  constructor
  · intro h
    constructor
    · intro pre' post e ctx htr hctx hnone
      have hsplit : pre ++ tr = (pre ++ pre') ++ e :: post := by rw [htr, List.append_assoc]
      refine h.attempts hsplit hctx fun e' he' => ?_
      rcases List.mem_append.1 he' with he' | he'
      · exact (hpre e' he').2
      · exact hnone e' he'
    · rintro pre' post e ctx htr hctx ⟨e', he', hsave⟩
      have hsplit : pre ++ tr = (pre ++ pre') ++ e :: post := by rw [htr, List.append_assoc]
      exact h.others hsplit hctx ⟨e', List.mem_append_right _ he', hsave⟩
  · intro h
    -- a call is not among the operations of `pre`
    have hsplit : ∀ {pre' post : List (Event (ops S))} {e : Event (ops S)} {ctx : NodeContext},
        pre ++ tr = pre' ++ e :: post → calledWith e = some ctx → ∃ mid, pre' = pre ++ mid ∧ tr = mid ++ e :: post := by
      intro pre' post e ctx htr hctx
      rcases List.append_eq_append_iff.1 htr with ⟨mid, hpre', htr'⟩ | ⟨mid, hpre', htr'⟩
      · exact ⟨mid, hpre', htr'⟩
      · cases mid with
        | nil => exact ⟨[], by simpa using hpre'.symm, by simpa using htr'.symm⟩
        | cons e' mid =>
          obtain ⟨rfl, -⟩ := List.cons.inj htr'
          have he := (hpre e (by rw [hpre']; simp)).1
          rw [hctx] at he
          cases he
    constructor
    · intro pre' post e ctx htr hctx hnone
      obtain ⟨mid, rfl, htr'⟩ := hsplit htr hctx
      exact h.attempts htr' hctx fun e' he' => hnone e' (List.mem_append_right _ he')
    · rintro pre' post e ctx htr hctx ⟨e', he', hsave⟩
      obtain ⟨mid, rfl, htr'⟩ := hsplit htr hctx
      refine h.others htr' hctx ⟨e', ?_, hsave⟩
      rcases List.mem_append.1 he' with he' | he'
      · rw [(hpre e' he').2] at hsave
        cases hsave
      · exact he'

omit [External] [State S] in
theorem inputHeld_of_no_call {name : String} {tr : List (Event (ops S))}
    (h : ∀ e ∈ tr, calledWith e = none ∧ isSave e = false) : InputHeld name input tr := by
  rw [← List.append_nil tr, inputHeld_append_iff h]
  constructor <;> intro pre post e ctx htr <;> simp at htr

omit [External] [State S] in
theorem opening_quiet : ∀ e ∈ opening threadId i loaded, calledWith e = none ∧ isSave e = false := by
  simp [opening, calledWith, isSave]

/-- A retried node loses the input. -/
theorem not_inputHeld_of_retried (hopen : Open (w.rows threadId) i)
    (hload : w.store.loadState threadId = .ok (some loaded))
    (hcheck : Graph.checkResume threadId i input loaded = .ok request) (hmode : request.resumeMode = .reEntry)
    (context : ResumeContext)
    (hfirst : FirstRetried env g threadId cancellation loaded.info.nextNode loaded.state input w.calls) :
    ¬ ∀ tr p w', Reaches (memory env) (g.resumeWithInput threadId cancellation i input context) w tr p w' →
      InputHeld loaded.info.nextNode input tr := by
  intro hheld
  have hfirst' : FirstRetried env g threadId cancellation loaded.info.nextNode loaded.state input
    (w.claimed threadId i).calls := hfirst
  obtain ⟨pre, e₁, e₂, ctx, p, w', hloop, hnone, hcall, hctx⟩ := reaches_secondCall (i := i) hfirst' hmode
  obtain ⟨p', hreach⟩ := reaches_resumeWithInput hopen hload hcheck context hloop
  have hresumed := (inputHeld_append_iff opening_quiet).1 (hheld _ _ _ hreach)
  have hnone' : ∀ e ∈ ⟨Op.currentHead threadId, (.ok none : Except TakelnError (Option String))⟩ :: (pre ++ [e₁]),
      isSave e = false := by
    rw [List.forall_mem_cons]
    exact ⟨rfl, hnone⟩
  have hsplit : ⟨Op.currentHead threadId, (.ok none : Except TakelnError (Option String))⟩ :: (pre ++ [e₁, e₂]) =
      (⟨Op.currentHead threadId, (.ok none : Except TakelnError (Option String))⟩ :: (pre ++ [e₁])) ++ [e₂] := by simp
  have hsecond := (hresumed.attempts hsplit hcall hnone').2
  rw [hctx] at hsecond
  cases hsecond

/-- In a resume in the mode `ReEntry` every attempt of the yielded node, and no other call, has the input, if and only
if the first attempt is not retried. -/
theorem input_held_iff (hopen : Open (w.rows threadId) i) (hload : w.store.loadState threadId = .ok (some loaded))
    (hcheck : Graph.checkResume threadId i input loaded = .ok request) (hmode : request.resumeMode = .reEntry)
    (context : ResumeContext) :
    (∀ tr p w', Reaches (memory env) (g.resumeWithInput threadId cancellation i input context) w tr p w' →
        InputHeld loaded.info.nextNode input tr) ↔
      ¬ FirstRetried env g threadId cancellation loaded.info.nextNode loaded.state input w.calls := by
  refine ⟨fun hheld hfirst => not_inputHeld_of_retried hopen hload hcheck hmode context hfirst hheld, ?_⟩
  intro hfirst tr p w' hr
  have hopens := resumeWithInput_open env g cancellation hopen hload hcheck context
  rcases hr.total hopens with ⟨t, rfl, ht⟩ | ⟨t, ht, -⟩
  · rw [inputHeld_append_iff opening_quiet]
    have hfirst' : ¬ FirstRetried env g threadId cancellation (loaded.claimedFor i).info.nextNode
        (loaded.claimedFor i).state input (w.claimed threadId i).calls := hfirst
    exact inputHeld_of_not_retried hmode hfirst' ht
  · -- the run was stopped before the claim or the load
    refine inputHeld_of_no_call fun e he => ?_
    have hmem : e ∈ opening threadId i loaded := ht ▸ List.mem_append_left t he
    exact opening_quiet e hmem

end

section Examples

attribute [local instance] shortRuns

/-- One node. -/
def responder : Graph Nat where
  nodes := ["A"]
  edges _ := none

/-- The node `A` has asked a question. -/
def askedOnce : World where
  store t := if t = "t" then
      some [⟨"c0", .number (.posInt 0), "A", none, .yielded, 0, some (.simple "q"), none, none⟩]
    else none

/-- The first `failures` calls fail, for the time being. -/
def flaky (failures : Nat) : Env Nat where
  newId n := s!"c{n}"
  now n := n
  answer n _ state _ _ := .returned (if n < failures then .error (.retryable "busy") else .ok { state := state })
  outcome _ t := .ok (.ok { state := t.state })
  order _ := inOrder

/-- What is loaded of `askedOnce`. -/
def askedFirst : Loaded Nat where
  state := 0
  info := ⟨"c0", "t", "A", .yielded, 0, some (.simple "q"), none, none⟩
  dag := none

theorem asked_open : Open (askedOnce.rows "t") "q" := by
  refine ⟨fun cp hcp => ?_, _, rfl, rfl, _, rfl, rfl⟩
  obtain rfl := List.mem_singleton.1 hcp
  intro h
  cases h

theorem asked_load : askedOnce.store.loadState "t" = .ok (some askedFirst) := rfl

theorem input_held_alone : (∀ tr p w', Reaches (memory (flaky 0)) (responder.resumeWithInput "t" false "q" .null {})
      askedOnce tr p w' → InputHeld "A" .null tr) ↔
    ¬ FirstRetried (flaky 0) responder "t" false "A" 0 .null askedOnce.calls :=
  input_held_iff asked_open asked_load rfl rfl {}

theorem input_held_false : ¬ ∀ tr p w', Reaches (memory (flaky 1)) (responder.resumeWithInput "t" false "q" .null {})
    askedOnce tr p w' → InputHeld "A" .null tr :=
  not_inputHeld_of_retried asked_open asked_load rfl rfl {}
    ⟨⟨by decide, by decide, by decide⟩, by decide, by decide, "busy", rfl⟩

end Examples

end Takeln
