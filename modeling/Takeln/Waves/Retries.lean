import Takeln.Effect.Retry
import Takeln.Model.Memory
import Takeln.Model.Sequential
import Takeln.Model.Tasks

/-!
# Retried nodes

The retry loops of the two engines are one loop: a node is called again with the next attempt number and the same
execution id, until an outcome other than `Retryable` or until its attempts are used up (`retry_count`).  The `u8`
counter of the attempts, which is incremented before it is compared, has room for every `max_attempts`.
-/

namespace Takeln

open Effect Effect.Prog

variable {S : Type}

/-- The node is called again after this outcome, if an attempt is left. -/
def Retryable : Except GraphError (NodeOutput S) → Prop
  | .error (.retryable _) => True
  | _ => False

instance : DecidablePred (Retryable (S := S))
  | .error (.retryable _) => .isTrue trivial
  | .error (.yield _) => .isFalse id
  | .error (.fatal _) => .isFalse id
  | .error (.budgetExceeded _ _) => .isFalse id
  | .error (.yieldInDynamicNode _) => .isFalse id
  | .ok _ => .isFalse id

/-- A node was called with these contexts, one after another, and came to `result`, where its outcomes are `ω`. -/
structure RetriedAs (name : String) (policy : RetryPolicy) (ω : Nat → Except GraphError (NodeOutput S))
    (contexts : List NodeContext) (result : Except GraphError (NodeOutput S)) : Prop where
  count : (contexts.length : ℕ∞) = min (firstKept Retryable ω) ((max 1 policy.maxAttempts : Nat) : ℕ∞)
  nodeName : ∀ ctx ∈ contexts, ctx.nodeName = name
  attempts : contexts.map NodeContext.attempt = List.range contexts.length
  executionId : ∀ ctx ∈ contexts, ∀ ctx' ∈ contexts, ctx.executionId = ctx'.executionId
  result : result = ω (contexts.length - 1)

/-- The contexts of `n` attempts, up to the first outcome that is kept or up to the limit. -/
theorem retriedAs_of_attempts {name : String} {policy : RetryPolicy} {ω : Nat → Except GraphError (NodeOutput S)}
    {context : Nat → NodeContext} {id : String} {n : Nat} (hname : ∀ i, (context i).nodeName = name)
    (hattempt : ∀ i, (context i).attempt = i) (hid : ∀ i, (context i).executionId = id) (hpos : 0 < n)
    (hn : n ≤ policy.maxAttempts - 1 + 1) (hagain : ∀ i, i + 1 < n → Retryable (ω i))
    (hkept : n < policy.maxAttempts - 1 + 1 → ¬ Retryable (ω (n - 1))) :
    RetriedAs name policy ω ((List.range n).map context) (ω (n - 1)) where
  count := by
    have hlimit : max 1 policy.maxAttempts = policy.maxAttempts - 1 + 1 := by omega
    rw [List.length_map, List.length_range, hlimit]
    exact eq_min_firstKept hpos hn hagain hkept
  nodeName ctx hctx := by
    obtain ⟨i, -, rfl⟩ := List.mem_map.1 hctx
    exact hname i
  attempts := by
    rw [List.length_map, List.length_range, List.map_map]
    exact (List.map_congr_left fun i _ => hattempt i).trans (List.map_id _)
  executionId ctx hctx ctx' hctx' := by
    obtain ⟨i, -, rfl⟩ := List.mem_map.1 hctx
    obtain ⟨i', -, rfl⟩ := List.mem_map.1 hctx'
    rw [hid, hid]
  result := by rw [List.length_map, List.length_range]

/-! ### The sequential engine -/

section Sequential

variable [External] {g : Graph S} {threadId : String} {cancellation : Bool} {v : Loop S}

/-- The outcome of a call of the node. -/
def outcomeOf (name : String) : Event (ops S) → Option (Except GraphError (NodeOutput S))
  | ⟨.callNode _ _ _ _, ans⟩ => some (CallAnswer.result name ans)
  | _ => none

namespace Graph

variable (g) (threadId) (cancellation) (v)

/-- The context of an attempt: the resumed input goes to the first one. -/
def attemptContext (attempt : Nat) : NodeContext :=
  g.context threadId cancellation v attempt (if attempt = 0 then v.pendingResumedInput else none)

/-- The call of an attempt. -/
def attemptCall (attempt : Nat) : Op S :=
  .callNode (g.attemptContext threadId cancellation v attempt) v.state
    (g.effectiveTimeout v.currentNodeName) cancellation

/-- The retry loop of `run_inner` with its counter, which overflows at its 256th increment. -/
def countedCalls : Prog (ops S) RunError (Option (Nat × Except GraphError (NodeOutput S))) :=
  retryCounted (g.attemptCall threadId cancellation v) (fun _ ans => .ok (CallAnswer.result v.currentNodeName ans))
    Retryable (g.effectiveRetry v.currentNodeName).maxAttempts 255 0

variable {g threadId cancellation v}

theorem callRetrying_eq {left attempt : Nat} {input : Option Value}
    (hinput : input = if attempt = 0 then v.pendingResumedInput else none) :
    (g.callRetrying threadId cancellation v left attempt input : Prog (ops S) RunError _) =
      retry (g.attemptCall threadId cancellation v) (fun _ ans => .ok (CallAnswer.result v.currentNodeName ans))
        Retryable left attempt := by
  subst hinput
  induction left generalizing attempt with
  | zero =>
    unfold callRetrying retry
    congr 1
    funext ans
    dsimp only
    cases CallAnswer.result v.currentNodeName ans with
    | ok out => rfl
    | error e => cases e <;> rfl
  | succ left ih =>
    unfold callRetrying retry
    congr 1
    funext ans
    dsimp only
    cases CallAnswer.result v.currentNodeName ans with
    | ok out => rfl
    | error e =>
      cases e with
      | retryable msg => exact @ih (attempt + 1)
      | _ => rfl

theorem callNode_eq (hregular : v.currentNodeName ∉ g.dynamicNodes) :
    (g.callNode threadId cancellation v : Prog (ops S) RunError _) =
      retry (g.attemptCall threadId cancellation v) (fun _ ans => .ok (CallAnswer.result v.currentNodeName ans))
        Retryable ((g.effectiveRetry v.currentNodeName).maxAttempts - 1) 0 := by
  unfold callNode
  rw [if_neg hregular]
  exact callRetrying_eq rfl

/-- The counter of `run_inner` never overflows. -/
theorem countedCalls_eq (hregular : v.currentNodeName ∉ g.dynamicNodes)
    (hmax : (g.effectiveRetry v.currentNodeName).maxAttempts < 256) :
    g.countedCalls threadId cancellation v = (g.callNode threadId cancellation v).bind fun x => .ret (some x) := by
  rw [callNode_eq hregular]
  exact retryCounted_eq (by omega) (by omega)

end Graph

/-- The calls of a regular node by the sequential engine. -/
theorem callNode_retriedAs {W : Type} {h : Handler (ops S) W} {w : W}
    {u : Run (ops S) RunError (Nat × Except GraphError (NodeOutput S)) W} {ω : Nat → Except GraphError (NodeOutput S)}
    (hregular : v.currentNodeName ∉ g.dynamicNodes)
    (hu : exec h (g.callNode threadId cancellation v) w = some u)
    (hω : ∀ i e, u.trace[i]? = some e → outcomeOf v.currentNodeName e = some (ω i)) :
    ∃ contexts attempts, u.trace.map Event.op = contexts.map (fun ctx =>
        .callNode ctx v.state (g.effectiveTimeout v.currentNodeName) cancellation) ∧
      u.result = .ok (attempts, ω (contexts.length - 1)) ∧
      RetriedAs v.currentNodeName (g.effectiveRetry v.currentNodeName) ω contexts (ω (contexts.length - 1)) := by
  rw [Graph.callNode_eq hregular] at hu
  obtain ⟨n, k, hpos, hn, hops, hres, hagain, hkept⟩ := exec_retry hu fun i m hm ans hi => by
    have hshown := hω i _ hi
    rw [hm, Nat.zero_add]
    exact congrArg Except.ok (Option.some.inj hshown)
  simp only [Nat.zero_add] at hres hagain hkept
  refine ⟨(List.range n).map (g.attemptContext threadId cancellation v), k, ?_, ?_, ?_⟩
  · rw [hops, List.range_eq_range', List.map_map]
    rfl
  · rw [List.length_map, List.length_range]
    exact hres
  · rw [List.length_map, List.length_range]
    exact retriedAs_of_attempts (fun _ => rfl) (fun _ => rfl) (fun _ => rfl) hpos hn hagain hkept

end Sequential

/-! ### The wave engine -/

section Waves

variable [External] {g : Graph S} {t : WaveTask S}

/-- The outcome of a call of the node; a panic has none. -/
def taskOutcome (name : String) : Event (taskOps S) → Option (Except GraphError (NodeOutput S))
  | ⟨.callNode _ _ _ _, .ok ans⟩ => some (CallAnswer.result name ans)
  | _ => none

/-- What a call of a node by a task comes to. -/
def taskResult (name : String) {timeout : Option Duration} {token : Bool} :
    Except String (CallAnswer S timeout token) → Except String (Except GraphError (NodeOutput S))
  | .error panic => .error panic
  | .ok ans => .ok (CallAnswer.result name ans)

namespace WaveTask

variable (g) (t)

/-- The call of an attempt. -/
def attemptCall (attempt : Nat) : TaskOp S :=
  .callNode (t.context attempt) t.state (g.effectiveTimeout t.nodeName) t.cancellation

/-- The retry loop of a task with its counter, which overflows at its 256th increment. -/
def countedCalls : Prog (taskOps S) String (Option (Except GraphError (NodeOutput S))) :=
  (retryCounted (t.attemptCall g) (fun _ ans => taskResult t.nodeName ans) Retryable
    (g.effectiveRetry t.nodeName).maxAttempts 255 0).bind fun x => .ret (x.map Prod.snd)

variable {g t}

theorem callRetrying_eq (left attempt : Nat) : t.callRetrying g left attempt =
    (retry (t.attemptCall g) (fun _ ans => taskResult t.nodeName ans) Retryable left attempt).bind
      fun x => .ret x.2 := by
  induction left generalizing attempt with
  | zero =>
    unfold callRetrying retry
    rw [perform_bind]
    congr 1
    funext ans
    cases ans with
    | error panic => rfl
    | ok ans =>
      dsimp only [taskResult]
      cases CallAnswer.result t.nodeName ans with
      | ok out => rfl
      | error e => cases e <;> rfl
  | succ left ih =>
    unfold callRetrying retry
    rw [perform_bind]
    congr 1
    funext ans
    cases ans with
    | error panic => rfl
    | ok ans =>
      dsimp only [taskResult]
      cases CallAnswer.result t.nodeName ans with
      | ok out => rfl
      | error e =>
        cases e with
        | retryable msg => exact ih (attempt + 1)
        | _ => rfl

theorem callNode_eq (hregular : t.nodeName ∉ g.dynamicNodes) : t.callNode g =
    (retry (t.attemptCall g) (fun _ ans => taskResult t.nodeName ans) Retryable
      ((g.effectiveRetry t.nodeName).maxAttempts - 1) 0).bind fun x => .ret x.2 := by
  unfold callNode
  rw [if_neg hregular]
  exact callRetrying_eq _ _

/-- The counter of a task never overflows. -/
theorem countedCalls_eq (hregular : t.nodeName ∉ g.dynamicNodes)
    (hmax : (g.effectiveRetry t.nodeName).maxAttempts < 256) :
    t.countedCalls g = (t.callNode g).bind fun x => .ret (some x) := by
  unfold countedCalls
  rw [callNode_eq hregular, retryCounted_eq (by omega) (by omega), bind_assoc, bind_assoc]
  rfl

/-- The calls of a regular node by a task. -/
theorem callNode_retriedAs {W : Type} {h : Handler (taskOps S) W} {w : W}
    {u : Run (taskOps S) String (Except GraphError (NodeOutput S)) W} {ω : Nat → Except GraphError (NodeOutput S)}
    (hregular : t.nodeName ∉ g.dynamicNodes) (hu : exec h (t.callNode g) w = some u)
    (hω : ∀ i e, u.trace[i]? = some e → taskOutcome t.nodeName e = some (ω i)) :
    ∃ contexts, u.trace.map Event.op = contexts.map (fun ctx =>
        .callNode ctx t.state (g.effectiveTimeout t.nodeName) t.cancellation) ∧
      u.result = .ok (ω (contexts.length - 1)) ∧
      RetriedAs t.nodeName (g.effectiveRetry t.nodeName) ω contexts (ω (contexts.length - 1)) := by
  rw [callNode_eq hregular, exec_bind_ret] at hu
  obtain ⟨u₁, hu₁, rfl⟩ := Option.map_eq_some_iff.1 hu
  obtain ⟨n, k, hpos, hn, hops, hres, hagain, hkept⟩ := exec_retry hu₁ fun i m hm ans hi => by
    have hshown := hω i _ hi
    rw [hm, Nat.zero_add]
    cases ans with
    | error panic => cases hshown
    | ok ans => exact congrArg Except.ok (Option.some.inj hshown)
  simp only [Nat.zero_add] at hres hagain hkept
  refine ⟨(List.range n).map t.context, ?_, ?_, ?_⟩
  · change u₁.trace.map Event.op = _
    rw [hops, List.range_eq_range', List.map_map]
    rfl
  · change u₁.result.map Prod.snd = _
    rw [List.length_map, List.length_range, hres]
    rfl
  · rw [List.length_map, List.length_range]
    exact retriedAs_of_attempts (fun _ => rfl) (fun _ => rfl) (fun _ => rfl) hpos hn hagain hkept

end WaveTask

end Waves

/-! ### Both engines -/

/-- A regular node under a `u8` limit: both engines call it with the attempts 0, 1, … and one execution id until an
outcome is not retryable or the limit is reached, return the last outcome, and never overflow their counter. -/
theorem retry_count [External] {g : Graph S} {name : String} (hregular : name ∉ g.dynamicNodes)
    (hmax : (g.effectiveRetry name).maxAttempts < 256) :
    (∀ (threadId : String) (cancellation : Bool) (v : Loop S), v.currentNodeName = name →
      g.countedCalls threadId cancellation v = (g.callNode threadId cancellation v).bind (fun x => .ret (some x)) ∧
      ∀ (W : Type) (h : Handler (ops S) W) (w : W), (∀ w o, (h w o).isSome = true) →
        ∃ u, exec h (g.callNode threadId cancellation v : Prog (ops S) RunError _) w = some u ∧
          ∀ ω, (∀ i e, u.trace[i]? = some e → outcomeOf name e = some (ω i)) →
            ∃ contexts attempts, u.trace.map Event.op = contexts.map (fun ctx =>
                .callNode ctx v.state (g.effectiveTimeout name) cancellation) ∧
              u.result = .ok (attempts, ω (contexts.length - 1)) ∧
              RetriedAs name (g.effectiveRetry name) ω contexts (ω (contexts.length - 1))) ∧
    ∀ t : WaveTask S, t.nodeName = name →
      t.countedCalls g = (t.callNode g).bind (fun x => .ret (some x)) ∧
      ∀ (W : Type) (h : Handler (taskOps S) W) (w : W), (∀ w o, (h w o).isSome = true) →
        ∃ u, exec h (t.callNode g) w = some u ∧
          ∀ ω, (∀ i e, u.trace[i]? = some e → taskOutcome name e = some (ω i)) →
            ∃ contexts, u.trace.map Event.op = contexts.map (fun ctx =>
                .callNode ctx t.state (g.effectiveTimeout name) t.cancellation) ∧
              u.result = .ok (ω (contexts.length - 1)) ∧
              RetriedAs name (g.effectiveRetry name) ω contexts (ω (contexts.length - 1)) := by
  constructor
  · rintro threadId cancellation v rfl
    refine ⟨Graph.countedCalls_eq hregular hmax, fun W h w hans => ?_⟩
    obtain ⟨u, hu⟩ := exec_isSome hans (g.callNode threadId cancellation v : Prog (ops S) RunError _) w
    exact ⟨u, hu, fun ω hω => callNode_retriedAs hregular hu hω⟩
  · rintro t rfl
    refine ⟨WaveTask.countedCalls_eq hregular hmax, fun W h w hans => ?_⟩
    obtain ⟨u, hu⟩ := exec_isSome hans (t.callNode g) w
    exact ⟨u, hu, fun ω hω => WaveTask.callNode_retriedAs hregular hu hω⟩

section Examples

attribute [local instance] shortRuns

def solitary : Graph Nat where
  nodes := ["A"]
  edges _ := none

/-- The first call answers with a retryable error, later ones return. -/
def busyAtFirst : Handler (taskOps Nat) Nat
  | n, .acquire => some ((), n)
  | n, .fetchAdd => some ((0 : Nat), n)
  | n, .send _ => some ((), n)
  | n, .callNode _ state _ _ =>
    some (.ok (.returned (if n = 0 then .error (.retryable "busy") else .ok { state := state })), n + 1)
  | n, .release => some ((), n)

def soleTask : WaveTask Nat := ⟨0, "t", "A", 0, false⟩

theorem retry_count_busy : ∃ u, exec busyAtFirst (soleTask.callNode solitary) 0 = some u ∧
    ∀ ω, (∀ i e, u.trace[i]? = some e → taskOutcome "A" e = some (ω i)) →
      ∃ contexts, u.trace.map Event.op = contexts.map (fun ctx => .callNode ctx 0 none false) ∧
        u.result = .ok (ω (contexts.length - 1)) ∧
        RetriedAs "A" (solitary.effectiveRetry "A") ω contexts (ω (contexts.length - 1)) := by
  have hans : ∀ w o, (busyAtFirst w o).isSome = true := by
    intro w o
    cases o <;> rfl
  have hregular : "A" ∉ solitary.dynamicNodes := by decide
  exact ((retry_count hregular (by decide)).2 soleTask rfl).2 Nat busyAtFirst 0 hans

end Examples

end Takeln
