import Mathlib.Algebra.Ring.Rat
import Mathlib.Data.List.Induction
import Takeln.Concurrent.Calls
import Takeln.Effect.Session

/-!
# Budgets

`set_budget_eur` caps what a thread may spend, but each engine adds up the costs of one call only.  Results that would
take a thread over its budget are refused, and their call returns `BudgetExceeded`, as long as they would take that call
over it as well (`budget_kept`); otherwise a thread can spend the budget once in every call.  Costs are exact here, so
that what several calls spent can be added up in any order.
-/

namespace Takeln

open Effect Effect.Prog

attribute [local instance] exact

variable {S : Type}

/-! ### Bills -/

/-- Results that wait for their checkpoint: what they cost, and whether the budget of a node refuses them. -/
structure Due where
  cost : ℚ
  refused : Bool
  deriving DecidableEq

/-- What the checkpointed results of a call have cost, the results that wait, and whether the store rejected a save. -/
structure Bill where
  paid : ℚ := 0
  due : Option Due := none
  rejected : Bool := false
  deriving DecidableEq

/-- After a save was answered: the checkpoint of completed nodes pays for them. -/
def Bill.saved (q : Bill) (args : SaveArgs S) (r : Except TakelnError CheckpointSave) : Bill :=
  match r.bind checkpointId with
  | .error _ => { q with rejected := true }
  | .ok _ =>
    if args.status = .complete then { q with paid := q.paid + (q.due.map Due.cost).getD 0, due := none } else q

/-- The task has returned a state. -/
def returned : JoinResult S → Bool
  | .ok (_, .ok _) => true
  | _ => false

namespace Graph

variable (g : Graph S)

/-- What waits once a node has come to its result. -/
def callDue (name : String) : Except GraphError (NodeOutput S) → Option Due
  | .ok out => some ⟨out.info.cost, (exceeded (g.effectiveNodeBudget name) out.info.cost).isSome⟩
  | .error _ => none

/-- The budget of its node refuses a result of a wave. -/
def overspends (tasks : List (WaveTask S)) : JoinResult S → Bool
  | .ok (idx, .ok out) =>
    tasks.any fun t => t.idx == idx && (exceeded (g.effectiveNodeBudget t.nodeName) out.info.cost).isSome
  | _ => false

/-- What waits once a wave has ended: all of its results, if every task has returned. -/
def waveDue (tasks : List (WaveTask S)) (results : List (JoinResult S)) : Option Due :=
  if ∀ res ∈ results, returned res = true then some ⟨(costs results).sum, results.any (g.overspends tasks)⟩ else none

/-- The bill after an operation. -/
def bill (q : Bill) : Event (ops S) → Bill
  | ⟨.callNode ctx _ _ _, r⟩ => { q with due := g.callDue ctx.nodeName (CallAnswer.result ctx.nodeName r) }
  | ⟨.joinWave tasks, r⟩ => { q with due := g.waveDue tasks r }
  | ⟨.saveStateBound args, r⟩ => q.saved args r
  | _ => q

/-- The bill of a call that has performed `tr`. -/
def billOf (tr : List (Event (ops S))) : Bill := tr.foldl g.bill {}

theorem billOf_concat (tr : List (Event (ops S))) (e : Event (ops S)) :
    g.billOf (tr ++ [e]) = g.bill (g.billOf tr) e := by
  unfold billOf
  rw [List.foldl_append]
  rfl

end Graph

namespace Bill

/-- The results that wait are refused: by the budget of a node, or by the budget `b` of the call. -/
def Refused (b : ℚ) (q : Bill) : Prop := ∃ d, q.due = some d ∧ (d.refused = true ∨ b < q.paid + d.cost)

/-- Refused results end a call with `BudgetExceeded`, if the store rejects nothing. -/
def Settled (b : ℚ) (q : Bill) (x : Except TakelnError Unit) : Prop :=
  q.Refused b → q.rejected = true ∨ ∃ spent limit, x = .error (.budgetExceeded spent limit)

variable {b : ℚ} {q : Bill} {x : Except TakelnError Unit}

theorem settled_of_due (h : q.due = none) : q.Settled b x := by
  rintro ⟨d, hd, _⟩
  cases h.symm.trans hd

theorem settled_of_exceeded (spent limit : ℚ) : q.Settled b (.error (.budgetExceeded spent limit)) :=
  fun _ => Or.inr ⟨spent, limit, rfl⟩

theorem settled_of_rejected (h : q.rejected = true) : q.Settled b x := fun _ => Or.inl h

end Bill

/-! ### Waves -/

section Waves

variable {g : Graph S} {tasks : List (WaveTask S)} {results : List (JoinResult S)} {j j' : Joining S}

/-- If every task has returned, only a budget breaks off the joining. -/
theorem joinAll_error_of_returned {e : WaveError} (hret : ∀ res ∈ results, returned res = true)
    (h : g.joinAll results j = .error e) : ∃ spent limit, e.1 = .budgetExceeded spent limit := by
  obtain ⟨pre, res, post, rfl, hrefuse⟩ := Graph.joinAll_eq_error h
  have hres := hret res (by simp)
  rcases res with panic | ⟨idx, err | out⟩
  · cases hres
  · cases hres
  · rw [Graph.refuses_success] at hrefuse
    obtain ⟨limit, _, rfl⟩ := Option.map_eq_some_iff.1 hrefuse
    exact ⟨_, limit, rfl⟩

/-- A wave was joined without failures and yields exactly if every task has returned. -/
theorem returned_iff_of_joinAll (hfailed : j.waveFailed = []) (hyield : j.hasYielded = false)
    (h : g.joinAll results j = .ok j') :
    (∀ res ∈ results, returned res = true) ↔ j'.waveFailed = [] ∧ j'.hasYielded = false := by
  obtain ⟨rfl, hpanic⟩ := Graph.joinAll_eq_ok h
  rw [Joining.waveFailed_addAll, ← Bool.not_eq_true (j.addAll results).hasYielded, Joining.hasYielded_addAll, hyield]
  constructor
  · intro hret
    refine ⟨⟨hfailed, fun idx x hx => ?_⟩, ?_⟩
    · have hres := hret _ hx
      cases x with
      | ok out => exact nofun
      | error e => cases hres
    · rintro (hfalse | ⟨idx, request, hx⟩)
      · cases hfalse
      · cases hret _ hx
  · rintro ⟨⟨_, hstatus⟩, hno⟩ res hres
    rcases res with panic | ⟨idx, err | out⟩
    · exact absurd hres (hpanic panic)
    · have hne := hstatus idx _ hres
      cases err with
      | yield request => exact absurd (Or.inr ⟨idx, request, hres⟩) hno
      | _ => exact absurd rfl hne
    · rfl

/-- A wave that was joined overspends no budget of a node. -/
theorem overspends_of_joinAll (hnames : ∀ t ∈ tasks, t.nodeName = j.dag.stepType t.idx)
    (h : g.joinAll results j = .ok j') : results.any (g.overspends tasks) = false := by
  rw [List.any_eq_false]
  intro res hres
  rcases res with panic | ⟨idx, err | out⟩
  · exact nofun
  · exact nofun
  · obtain ⟨pre, post, hsplit⟩ := List.append_of_mem hres
    have hrefuse := Graph.refuses_of_joinAll_ok h hsplit
    rw [Graph.refuses_success, Joining.stepType_addAll, Option.map_eq_none_iff] at hrefuse
    unfold Graph.overspends
    rw [List.any_eq_true]
    rintro ⟨t, ht, hover⟩
    rw [Bool.and_eq_true, beq_iff_eq] at hover
    obtain ⟨rfl, hover⟩ := hover
    rw [hnames t ht, hrefuse] at hover
    cases hover

end Waves

/-! ### The bill of a call -/

section Call

variable [External] {g : Graph S} {threadId : String} {cancellation : Bool} {resolvedInterrupt : Option String} {b : ℚ}
  {q : Bill}

/-- No node is called while results wait, and a checkpoint of completed nodes is only written for results that no budget
refuses. -/
def billing (g : Graph S) (b : ℚ) : Protocol (ops S) Bill where
  allow
    | q, .callNode _ _ _ _ => q.due = none
    | q, .joinWave _ => q.due = none
    | q, .saveStateBound args =>
      args.status = .complete → ∃ d, q.due = some d ∧ d.refused = false ∧ q.paid + d.cost ≤ b
    | _, _ => True
  next q o r := g.bill q ⟨o, r⟩

omit [External] in
theorem billing_silent (q : Bill) (max : Nat) : Silent (billing g b) q max :=
  ⟨⟨trivial, fun _ => rfl⟩, fun _ => ⟨trivial, rfl⟩, fun _ => ⟨trivial, rfl⟩⟩

omit [External] in
/-- A save of anything but completed nodes changes nothing unless it is rejected. -/
theorem billing_save {args : SaveArgs S} (hargs : args.status ≠ .complete) {Φ : Bill → Except TakelnError String → Prop}
    (hok : ∀ id, Φ q (.ok id)) (herr : ∀ e, Φ { q with rejected := true } (.error e)) :
    SaveFollows (billing g b) q args Φ := by
  refine ⟨fun h => absurd h hargs, fun r => ?_⟩
  show Φ (q.saved args r) _
  unfold Bill.saved
  cases r.bind checkpointId with
  | error e => exact herr e
  | ok id =>
    dsimp only
    rw [if_neg hargs]
    exact hok id

omit [External] in
/-- A save of completed nodes pays for their results, which no budget refuses. -/
theorem billing_saveComplete {args : SaveArgs S} (hargs : args.status = .complete) {d : Due} (hd : q.due = some d)
    (hrefused : d.refused = false) (hcost : q.paid + d.cost ≤ b) {Φ : Bill → Except TakelnError String → Prop}
    (hok : ∀ id, Φ { q with paid := q.paid + d.cost, due := none } (.ok id))
    (herr : ∀ e, Φ { q with rejected := true } (.error e)) : SaveFollows (billing g b) q args Φ := by
  refine ⟨fun _ => ⟨d, hd, hrefused, hcost⟩, fun r => ?_⟩
  show Φ (q.saved args r) _
  unfold Bill.saved
  cases r.bind checkpointId with
  | error e => exact herr e
  | ok id =>
    dsimp only
    rw [if_pos hargs, hd]
    exact hok id

omit [External] in
theorem exceeded_eq_none_iff (spent : ℚ) : exceeded (some b) spent = none ↔ spent ≤ b := by
  rw [← Rat.not_lt]
  simp only [exceeded, Option.filter_eq_none_iff, Option.some.injEq, forall_eq', decide_eq_true_eq]

omit [External] in
/-- Results that the budgets cover are not refused. -/
theorem not_refused_of_le {d : Due} (hd : q.due = some d) (hrefused : d.refused = false) (hcost : q.paid + d.cost ≤ b) :
    ¬ q.Refused b := by
  rintro ⟨d', hd', hcase⟩
  cases hd.symm.trans hd'
  rcases hcase with h | h
  · cases hrefused.symm.trans h
  · exact absurd hcost (Rat.not_le.2 h)

/-- What a run leaves its caller with: a failed one is settled, and has read the head if anything waits. -/
def RunSettled (b : ℚ) (q : Bill) : Except RunError S → Prop
  | .ok _ => q.due = none
  | .error (e, lastHead) => q.Settled b (.error e) ∧ (lastHead = none → q.due = none)

variable [State S]

theorem runInner_bills (hb : g.budgetEur = some b) (hq : q.paid = 0 ∧ q.due = none) (state : S) (node : String)
    (input : Option Value) :
    Follows (billing g b) (g.runInner threadId cancellation resolvedInterrupt state node input) q (RunSettled b) := by
  refine follows_runInner (I := fun q v => q.paid = v.runningCostEur ∧ q.due = none ∧ v.lastHead ≠ none) trivial
    (fun e => ⟨Bill.settled_of_due hq.2, fun _ => hq.2⟩) (fun head => ⟨hq.1, hq.2, Option.some_ne_none _⟩) ?_ ?_
  · rintro q v ⟨hpaid, hdue, hhead⟩
    have fails {q : Bill} {e : TakelnError} (h : q.Settled b (.error e)) :
        RunSettled (S := S) b q (.error (e, v.lastHead)) := ⟨h, fun hnone => absurd hnone hhead⟩
    refine follows_loopBody_cases
      (Ψ := fun q' y => q'.paid = v.runningCostEur ∧ q'.due = g.callDue v.currentNodeName y.2)
      (billing_silent _ _).nodes
      (fun _ => (billing_silent _ 0).emit _ hdue) (fun _ => fails (Bill.settled_of_due hdue)) (fun _ => ?_)
      (fun _ => ?_) ?_ ?_
    · exact billing_save (fun h => CheckpointStatus.noConfusion h) (fun _ => hdue) fun _ =>
        fails (Bill.settled_of_rejected rfl)
    · refine follows_callNode (J := fun q' => q'.paid = v.runningCostEur ∧ q'.due = none)
        (Ψ := fun q' x => q'.paid = v.runningCostEur ∧ q'.due = g.callDue v.currentNodeName x) ?_ (fun _ _ h => h)
        ⟨hpaid, hdue⟩
      rintro q' ⟨hpaid', hdue'⟩ attempt input timeout token
      -- an attempt that may be repeated is not billed
      refine ⟨hdue', fun r => ⟨fun msg hr => ⟨hpaid', ?_⟩, hpaid', rfl⟩⟩
      show g.callDue v.currentNodeName (CallAnswer.result v.currentNodeName r) = none
      rw [hr]
      rfl
    · rintro q' attempt out ⟨hpaid', hdue'⟩
      refine follows_onSuccess (billing_silent _ _).nodes
        (fun spent limit _ => fails (Bill.settled_of_exceeded spent limit)) ?_
      intro hnode hrun
      have hrefused : (exceeded (g.effectiveNodeBudget v.currentNodeName) out.info.cost).isSome = false :=
        by rw [hnode]; rfl
      -- what was paid is the running cost, which is checked with the new one
      have hcost : q'.paid + out.info.cost ≤ b := by
        rw [hb, exceeded_eq_none_iff] at hrun
        rwa [hpaid']
      have hno : ¬ q'.Refused b := not_refused_of_le hdue' hrefused hcost
      refine ⟨fun e => fails fun h => absurd h hno, ?_⟩
      refine billing_saveComplete rfl hdue' hrefused hcost (fun id => ?_) fun e => fails (Bill.settled_of_rejected rfl)
      dsimp only
      by_cases hafter : v.currentNodeName ∈ g.interruptAfter
      · rw [if_pos hafter]
        rfl
      · rw [if_neg hafter]
        exact ⟨congrArg (· + out.info.cost) hpaid', rfl, Option.some_ne_none _⟩
    · rintro q' attempt err ⟨_, hdue'⟩
      exact follows_onError (billing_silent _ _).nodes (fun _ => fails (Bill.settled_of_due hdue')) fun request _ =>
        billing_save (fun h => CheckpointStatus.noConfusion h) (fun _ => hdue') fun _ =>
          fails (Bill.settled_of_rejected rfl)
  · rintro q v e ⟨_, hdue, _⟩
    exact ⟨Bill.settled_of_due hdue, fun _ => hdue⟩

omit [External] [State S] in
/-- A rollback keeps a failed run settled. -/
theorem revertToYielded_bills {e : TakelnError} {lastHead : Option (Option String)} (hsettled : q.Settled b (.error e))
    (hnone : lastHead = none → q.due = none) (state : S) (node : String) (request : YieldRequest) :
    Follows (billing g b) (Graph.revertToYielded threadId state node request lastHead) q fun q' y => match y with
      | .ok _ => q'.Settled b (.error e)
      | .error _ => ∀ msg, q'.Settled b (.error (.executionError msg)) := by
  have save (head : Option String) : SaveFollows (billing g b) q (Graph.revertSave threadId state node request head)
      fun q' x => match x.map fun _ => () with
        | .ok _ => q'.Settled b (.error e)
        | .error _ => ∀ msg, q'.Settled b (.error (.executionError msg)) :=
    billing_save (fun h => CheckpointStatus.noConfusion h) (fun _ => hsettled) fun _ _ => Bill.settled_of_rejected rfl
  exact follows_revertToYielded (fun head _ => save head)
    fun hread => ⟨trivial, fun _ _ => Bill.settled_of_due (hnone hread), fun head => save head⟩

omit [External] in
theorem runDag_bills [Merge S] (hb : g.budgetEur = some b) (hq : q.paid = 0 ∧ q.due = none) (dag : DAG) (state : S)
    (depth : Nat) :
    Follows (billing g b) (g.runDag threadId cancellation dag state depth) q fun q' x =>
      q'.Settled b ((x.mapError Prod.fst).map fun _ => ()) := by
  refine follows_runDag (I := fun q v => q.paid = v.runningCostEur ∧ q.due = none) (fun _ => Bill.settled_of_due hq.2)
    trivial (fun _ => Bill.settled_of_due hq.2) (fun head => hq) ?_ fun q v e hI => Bill.settled_of_due hI.2
  rintro q v ⟨hpaid, hdue⟩
  refine follows_waveBody_cases ((billing_silent _ 0).emit _ (Bill.settled_of_due hdue))
    (fun _ => Bill.settled_of_due hdue) (fun _ => ?_) ?_
  · exact billing_save (fun h => CheckpointStatus.noConfusion h)
      (fun _ => (billing_silent _ 0).emit _ (Bill.settled_of_due hdue)) fun _ => Bill.settled_of_rejected rfl
  intro tasks htasks
  refine ⟨hdue, fun r dag hnames => follows_joinLoop (billing_silent _ _).nodes ?_⟩
  have hwave : g.waveDue tasks r = if ∀ res ∈ r, returned res = true then
      some ⟨(costs r).sum, r.any (g.overspends tasks)⟩ else none := rfl
  cases hjoin : g.joinAll r { dag := dag, completed := v.completed } with
  | error e =>
    by_cases hret : ∀ res ∈ r, returned res = true
    · obtain ⟨spent, limit, he⟩ := joinAll_error_of_returned hret hjoin
      exact fun _ => Or.inr ⟨spent, limit, congrArg Except.error he⟩
    · exact Bill.settled_of_due (hwave.trans (if_neg hret))
  | ok j =>
    intro ready
    -- what waits while the wave is joined
    show Follows (billing g b) (g.afterJoin threadId v ready j) { q with due := g.waveDue tasks r } _
    have hiff := returned_iff_of_joinAll rfl rfl hjoin
    have nothing (h : ¬ (j.waveFailed = [] ∧ j.hasYielded = false)) : g.waveDue tasks r = none :=
      hwave.trans (if_neg (mt hiff.1 h))
    refine follows_afterJoin (fun hfailed => ?_) (fun _ hyield nextNode => ?_) (fun _ _ limit _ => ?_)
      fun hfailed hyield hrun nextNode => ?_
    · exact Bill.settled_of_due (nothing fun h => hfailed h.1)
    · have hnone := nothing fun h => Bool.noConfusion (hyield.symm.trans h.2)
      exact ⟨fun _ => Bill.settled_of_due hnone, billing_save (fun h => CheckpointStatus.noConfusion h)
        (fun _ => Bill.settled_of_due hnone) fun _ => Bill.settled_of_rejected rfl⟩
    · exact Bill.settled_of_exceeded _ limit
    · have hsome := hwave.trans (if_pos (hiff.2 ⟨hfailed, hyield⟩))
      have hrefused : r.any (g.overspends tasks) = false :=
        overspends_of_joinAll (fun t ht => (htasks t ht).2.2.trans (hnames t.idx).symm) hjoin
      have hwaveCost : j.waveCost = (costs r).sum := by
        rw [(Graph.joinAll_eq_ok hjoin).1, Joining.waveCost_addAll, List.sum_eq_foldl]
      have hcost : q.paid + (costs r).sum ≤ b := by
        rw [hb, exceeded_eq_none_iff] at hrun
        rwa [hpaid, ← hwaveCost]
      have hno : ¬ Bill.Refused b { q with due := g.waveDue tasks r } := not_refused_of_le hsome hrefused hcost
      refine ⟨fun _ h => absurd h hno, ?_⟩
      refine billing_saveComplete rfl hsome hrefused hcost (fun id => ?_) fun _ => Bill.settled_of_rejected rfl
      dsimp only
      by_cases hafter : ∃ idx ∈ ready, j.dag.stepType idx ∈ g.interruptAfter
      · rw [if_pos hafter]
        exact (billing_silent _ 0).emit _ (Bill.settled_of_due rfl)
      · rw [if_neg hafter]
        refine ⟨?_, rfl⟩
        show q.paid + (costs r).sum = v.runningCostEur + j.waveCost
        rw [hpaid, hwaveCost]

/-- Every call bills its results against the budget of its graph, starting from nothing. -/
theorem call_bills [Merge S] {call : Call S} (hb : call.graph.budgetEur = some b) :
    Follows (billing call.graph b) (call.prog threadId) {} fun q x => q.Settled b x := by
  refine follows_call (fun _ => Bill.settled_of_due rfl) ⟨trivial, fun _ => rfl⟩ (fun _ => ⟨trivial, fun _ => rfl⟩)
    (fun c r state node input => ?_) fun _ c dag state depth => runDag_bills hb ⟨rfl, rfl⟩ dag state depth
  refine (runInner_bills hb ⟨rfl, rfl⟩ state node input).mono fun q x hx => ?_
  rcases x with ⟨e, lastHead⟩ | final
  · refine ⟨hx.1, fun state node request => (revertToYielded_bills hx.1 hx.2 state node request).mono fun _ y hy => ?_⟩
    cases y with
    | ok _ => exact hy
    | error _ => exact hy
  · exact ⟨Bill.settled_of_due hx, (billing_silent _ _).nodes⟩

end Call

/-! ### The budget of a thread -/

theorem mem_writes {args : SaveArgs S} {tr : List (Event (ops S))} (h : args ∈ writes tr) :
    ∃ (pre : List (Event (ops S))) (r : Except TakelnError CheckpointSave) (post : List (Event (ops S))),
      tr = pre ++ ⟨.saveStateBound args, r⟩ :: post := by
  obtain ⟨⟨o, r⟩, he, hw⟩ := List.mem_filterMap.1 h
  obtain ⟨pre, post, rfl⟩ := List.append_of_mem he
  cases o with
  | saveStateBound args' =>
    rcases r with e | save
    · cases hw
    · have hargs : args' = args := by
        unfold written at hw
        dsimp only at hw
        split at hw
        · exact Option.some.inj hw
        · cases hw
      subst hargs
      exact ⟨pre, .ok save, post, rfl⟩
  | _ => cases hw

/-- What the checkpointed results of some calls have cost. -/
def spent (calls : List (Call S × List (Event (ops S)))) : ℚ := (calls.map fun c => (c.1.graph.billOf c.2).paid).sum

/-- A point of a session: the earlier calls, the current one and what that has done. -/
structure Point (S : Type) where
  earlier : List (Call S × List (Event (ops S)))
  call : Call S
  done : List (Event (ops S))

namespace Point

/-- The calls come through the point. -/
def In (p : Point S) (calls : List (Call S × List (Event (ops S)))) : Prop :=
  ∃ rest later, calls = p.earlier ++ (p.call, p.done ++ rest) :: later

def bill (p : Point S) : Bill := p.call.graph.billOf p.done

/-- What the checkpointed results of the thread have cost. -/
def total (p : Point S) : ℚ := spent p.earlier + p.bill.paid

/-- The results that wait would take the thread over the budget. -/
def Exceeds (b : ℚ) (p : Point S) : Prop := ∃ d, p.bill.due = some d ∧ b < p.total + d.cost

variable [External] [State S] [Merge S] {W : Type}

/-- The call returns `BudgetExceeded` and checkpoints no completed node any more. -/
def Stops (h : Handler (ops S) W) (threadId : String) (w₀ : W) (p : Point S) : Prop :=
  ∀ w, Session h (Call.prog threadId) w₀ p.earlier w →
    (∃ u spent limit, exec h (p.call.prog threadId) w = some u ∧ u.result = .error (.budgetExceeded spent limit)) ∧
      ∀ rest q w', Reaches h (p.call.prog threadId) w (p.done ++ rest) q w' →
        ∀ args ∈ writes rest, args.status ≠ .complete

/-- The budget of a node or of the call alone refuses the results that wait, the history of the graph has room, and the
store rejects no save of the call. -/
def Caught (h : Handler (ops S) W) (threadId : String) (w₀ : W) (b : ℚ) (p : Point S) : Prop :=
  p.bill.Refused b ∧ 0 < p.call.graph.resourceLimits.maxExecutionRecords ∧
    ∀ w u, Session h (Call.prog threadId) w₀ p.earlier w → exec h (p.call.prog threadId) w = some u →
      (p.call.graph.billOf u.trace).rejected = false

end Point

section Session

variable [External] [State S] [Merge S] {W : Type} {h : Handler (ops S) W} {threadId : String} {w₀ w : W} {b : ℚ}
  {calls : List (Call S × List (Event (ops S)))}

/-- A call whose history has room comes to an end. -/
theorem call_hasRoom {call : Call S} (hrecords : 0 < call.graph.resourceLimits.maxExecutionRecords) :
    Follows (hasRoom S) (call.prog threadId) () fun _ _ => True := by
  have quiet : Silent (hasRoom S) () call.graph.resourceLimits.maxExecutionRecords :=
    ⟨⟨trivial, fun _ => rfl⟩, fun _ => ⟨trivial, rfl⟩, fun _ => ⟨hrecords, rfl⟩⟩
  have save (args : SaveArgs S) {Φ : Unit → Except TakelnError String → Prop} (hΦ : ∀ x, Φ () x) :
      SaveFollows (hasRoom S) () args Φ := ⟨trivial, fun _ => hΦ _⟩
  have run (c : Bool) (r : Option String) (state : S) (node : String) (input : Option Value) :
      Follows (hasRoom S) (call.graph.runInner threadId c r state node input) () fun _ _ => True := by
    refine follows_runInner (I := fun _ _ => True) trivial (fun _ => trivial) (fun _ => trivial) (fun _ v _ => ?_)
      fun _ _ _ _ => trivial
    refine follows_loopBody quiet (fun _ _ _ => ⟨trivial, fun _ => rfl⟩) trivial (fun _ => trivial) fun args flow _ =>
      save args fun x => ?_
    cases x with
    | error e => trivial
    | ok id =>
      dsimp only
      cases flow id <;> trivial
  refine follows_call (fun _ => trivial) ⟨trivial, fun _ => rfl⟩ (fun _ => ⟨trivial, fun _ => rfl⟩)
    (fun c r state node input => ?_) fun _ c dag state depth => ?_
  · refine (run c r state node input).mono fun _ x _ => ?_
    rcases x with ⟨e, lastHead⟩ | final
    · refine ⟨trivial, fun state node request => follows_revertToYielded (fun _ _ => save _ fun y => ?_)
        fun _ => ⟨trivial, fun _ _ => trivial, fun _ => save _ fun y => ?_⟩⟩
      · cases y with
        | ok _ => trivial
        | error _ => exact fun _ => trivial
      · cases y with
        | ok _ => trivial
        | error _ => exact fun _ => trivial
    · exact ⟨trivial, quiet.nodes⟩
  · refine follows_runDag (I := fun _ _ => True) (fun _ => trivial) trivial (fun _ => trivial) (fun _ => trivial) ?_
      fun _ _ _ _ => trivial
    rintro _ v -
    refine follows_waveBody quiet (fun _ _ => ⟨trivial, fun _ => rfl⟩) (quiet.emit _ trivial) (fun _ => trivial)
      fun args flow dag _ => save args fun x => ?_
    cases x with
    | error e => trivial
    | ok id =>
      dsimp only
      cases flow id with
      | next v' => trivial
      | stop v' => exact quiet.emit _ trivial
      | yielded v' => trivial

omit [External] [State S] [Merge S] in
/-- Refused results stay refused: nothing is executed and nothing paid while they wait. -/
theorem refused_step {g : Graph S} {q : Bill} {o : Op S} {r : o.Answer} (hallow : (billing g b).allow q o)
    (hq : q.Refused b) : Bill.Refused b ((billing g b).next q o r) := by
  obtain ⟨d, hd, hcase⟩ := hq
  cases o with
  | callNode ctx state timeout token => cases hd.symm.trans hallow
  | joinWave tasks => cases hd.symm.trans hallow
  | saveStateBound args =>
    have hargs : args.status ≠ .complete := by
      intro hcomplete
      obtain ⟨d', hd', hrefused, hcost⟩ := hallow hcomplete
      exact not_refused_of_le hd' hrefused hcost ⟨d, hd, hcase⟩
    show Bill.Refused b (q.saved args r)
    unfold Bill.saved
    cases r.bind checkpointId with
    | error e => exact ⟨d, hd, hcase⟩
    | ok id =>
      dsimp only
      rw [if_neg hargs]
      exact ⟨d, hd, hcase⟩
  | _ => exact ⟨d, hd, hcase⟩

omit [External] [State S] [Merge S] in
/-- Only results that no budget refuses are paid for. -/
theorem paid_step {g : Graph S} {q : Bill} {o : Op S} {r : o.Answer} (hallow : (billing g b).allow q o) :
    ((billing g b).next q o r).paid = q.paid ∨
      ∃ d, q.due = some d ∧ ¬ q.Refused b ∧ ((billing g b).next q o r).paid = q.paid + d.cost := by
  cases o with
  | saveStateBound args =>
    show (q.saved args r).paid = _ ∨ ∃ d, _ ∧ _ ∧ (q.saved args r).paid = _
    unfold Bill.saved
    cases r.bind checkpointId with
    | error e => exact Or.inl rfl
    | ok id =>
      dsimp only
      by_cases hargs : args.status = .complete
      · obtain ⟨d, hd, hrefused, hcost⟩ := hallow hargs
        refine Or.inr ⟨d, hd, not_refused_of_le hd hrefused hcost, ?_⟩
        rw [if_pos hargs, hd]
        rfl
      · rw [if_neg hargs]
        exact Or.inl rfl
  | _ => exact Or.inl rfl

/-- Results that are refused stop their call, if the store rejects nothing. -/
theorem stops_of_caught {p : Point S} (hS : Session h (Call.prog threadId) w₀ calls w)
    (hanswers : ∀ w o, (hasRoom S).allow () o → (h w o).isSome) (hb : p.call.graph.budgetEur = some b) (hp : p.In calls)
    (hcaught : p.Caught h threadId w₀ b) : p.Stops h threadId w₀ := by
  obtain ⟨hrefused, hrecords, hkept⟩ := hcaught
  obtain ⟨done', later, rfl⟩ := hp
  obtain ⟨w₁, q₁, w₂, hearlier, hreach⟩ := hS.split
  intro w₁' hearlier'
  cases hearlier.unique hearlier'
  have hfollows : Follows (billing p.call.graph b) (p.call.prog threadId) {} fun q x => q.Settled b x := call_bills hb
  have stays (rest : List (Event (ops S))) {q : Prog (ops S) TakelnError Unit} {w' : W}
      (hr : Reaches h (p.call.prog threadId) w₁ (p.done ++ rest) q w') :
      Bill.Refused b (p.call.graph.billOf (p.done ++ rest)) :=
    hfollows.keeps (fun _ _ _ => refused_step) hr hrefused
  refine ⟨?_, fun rest q w' hr args hargs hcomplete => ?_⟩
  · have hroom : Follows (hasRoom S) (p.call.prog threadId) () fun _ _ => True := call_hasRoom hrecords
    obtain ⟨u, hu⟩ := hroom.exec_isSome (fun _ o ho w => hanswers w o ho) w₁
    obtain ⟨v, _, hv⟩ := hreach.prefix_exec hu
    have htrace : u.trace = p.done ++ (done' ++ v.trace) := by
      rw [hv, ← List.append_assoc]
      rfl
    have hend := reaches_of_exec hu
    rw [htrace] at hend
    have hrefused' := stays _ hend
    rw [← htrace] at hrefused'
    rcases hfollows.of_exec hu hrefused' with hrejected | ⟨spent, limit, hres⟩
    · cases (hkept w₁ u hearlier hu).symm.trans hrejected
    · exact ⟨u, spent, limit, hu, hres⟩
  · obtain ⟨pre, r, post, rfl⟩ := mem_writes hargs
    have hr' : Reaches h (p.call.prog threadId) w₁ ((p.done ++ pre) ++ ⟨.saveStateBound args, r⟩ :: post) q w' := by
      rw [List.append_assoc]
      exact hr
    obtain ⟨p', w₃, hpre, _⟩ := hr'.split
    obtain ⟨d, hd, hno, hcost⟩ := hfollows.allow_of_reaches hr' hcomplete
    exact not_refused_of_le hd hno hcost (stays pre hpre)

omit [External] [State S] [Merge S] in
theorem spent_concat (calls : List (Call S × List (Event (ops S)))) (call : Call S) (tr : List (Event (ops S))) :
    spent (calls ++ [(call, tr)]) = (Point.mk calls call tr).total := by
  simp [spent, Point.total, Point.bill]

/-- A call keeps the budget if the earlier ones did. -/
theorem total_of_earlier (hS : Session h (Call.prog threadId) w₀ calls w) {p : Point S}
    (hb : p.call.graph.budgetEur = some b) (hcaught : ∀ q : Point S, q.In calls → q.Exceeds b → q.bill.Refused b)
    (hearlier : spent p.earlier ≤ b ∨ spent p.earlier = 0) (hp : p.In calls) : p.total ≤ b ∨ p.total = 0 := by
  obtain ⟨earlier, call, done⟩ := p
  induction done using List.reverseRecOn with
  | nil =>
    have hzero : (Point.mk earlier call []).total = spent earlier := Rat.add_zero _
    rw [hzero]
    exact hearlier
  | append_singleton done e ih =>
    obtain ⟨rest, later, hcalls⟩ := hp
    have hp' : (Point.mk earlier call done).In calls := by
      refine ⟨e :: rest, later, ?_⟩
      rw [hcalls, List.append_assoc]
      rfl
    have hallow : (billing call.graph b).allow (call.graph.billOf done) e.op := by
      rw [hcalls, List.append_assoc] at hS
      exact hS.allow (call_bills hb)
    rcases paid_step (r := e.ans) hallow with hpaid | ⟨d, hd, hno, hpaid⟩
    · have htotal : (Point.mk earlier call (done ++ [e])).total = (Point.mk earlier call done).total := by
        unfold Point.total Point.bill
        rw [Graph.billOf_concat]
        exact congrArg (spent earlier + ·) hpaid
      rw [htotal]
      exact ih hb hearlier hp'
    · have htotal : (Point.mk earlier call (done ++ [e])).total = (Point.mk earlier call done).total + d.cost := by
        unfold Point.total Point.bill
        rw [Graph.billOf_concat, Rat.add_assoc]
        exact congrArg (spent earlier + ·) hpaid
      rw [htotal]
      exact Or.inl (Rat.not_lt.1 fun hexceeds => hno (hcaught _ hp' ⟨d, hd, hexceeds⟩))

/-- The costs of the checkpointed results of a thread stay within the budget, and the call whose results would exceed
it returns `BudgetExceeded` without them, if results that exceed the budget are always refused by a node or as costs of
their own call. -/
theorem budget_kept (hS : Session h (Call.prog threadId) w₀ calls w)
    (hanswers : ∀ w o, (hasRoom S).allow () o → (h w o).isSome) (hbudget : ∀ c ∈ calls, c.1.graph.budgetEur = some b)
    (hcaught : ∀ p : Point S, p.In calls → p.Exceeds b → p.Caught h threadId w₀ b) :
    (∀ p : Point S, p.In calls → p.Exceeds b → p.Stops h threadId w₀) ∧
      ∀ p : Point S, p.In calls → p.total ≤ b ∨ p.total = 0 := by
  have hcall {p : Point S} (hp : p.In calls) : p.call.graph.budgetEur = some b := by
    obtain ⟨rest, later, rfl⟩ := hp
    exact hbudget (p.call, p.done ++ rest) (by simp)
  refine ⟨fun p hp hexceeds => stops_of_caught hS hanswers (hcall hp) hp (hcaught p hp hexceeds), ?_⟩
  have key (earlier : List (Call S × List (Event (ops S)))) :
      ∀ call done, (Point.mk earlier call done).In calls → spent earlier ≤ b ∨ spent earlier = 0 := by
    induction earlier using List.reverseRecOn with
    | nil => exact fun _ _ _ => Or.inr rfl
    | append_singleton earlier c ih =>
      intro call done hp
      obtain ⟨rest, later, hcalls⟩ := hp
      have hp' : (Point.mk earlier c.1 c.2).In calls := by
        refine ⟨[], (call, done ++ rest) :: later, ?_⟩
        rw [hcalls, List.append_nil, List.append_assoc]
        rfl
      rw [spent_concat]
      exact total_of_earlier hS (hcall hp') (fun q hq hexceeds => (hcaught q hq hexceeds).1) (ih _ _ hp') hp'
  intro p hp
  exact total_of_earlier hS (hcall hp) (fun q hq hexceeds => (hcaught q hq hexceeds).1)
    (key p.earlier p.call p.done hp) hp

end Session

/-- In the first call of a thread, results that would exceed the budget are refused. -/
theorem refused_of_exceeds {b : ℚ} {p : Point S} (hp : spent p.earlier = 0) (h : p.Exceeds b) : p.bill.Refused b := by
  obtain ⟨d, hd, hcost⟩ := h
  unfold Point.total at hcost
  rw [hp, Rat.zero_add] at hcost
  exact ⟨d, hd, Or.inr hcost⟩

/-! ### A thread that spends its budget twice -/

/-- The point after `k` operations of call `i`. -/
def pointAt (calls : List (Call S × List (Event (ops S)))) (i k : Nat) : Option (Point S) :=
  calls[i]?.map fun c => ⟨calls.take i, c.1, c.2.take k⟩

theorem in_of_pointAt {calls : List (Call S × List (Event (ops S)))} {i k : Nat} {p : Point S}
    (h : pointAt calls i k = some p) : p.In calls := by
  obtain ⟨c, hi, rfl⟩ := Option.map_eq_some_iff.1 h
  obtain ⟨hlt, hget⟩ := List.getElem?_eq_some_iff.1 hi
  refine ⟨c.2.drop k, calls.drop (i + 1), ?_⟩
  dsimp only
  rw [List.take_append_drop, ← hget, List.getElem_cons_drop, List.take_append_drop]

theorem earlier_of_pointAt {calls : List (Call S × List (Event (ops S)))} {i k : Nat} {p : Point S}
    (h : pointAt calls i k = some p) : p.earlier = calls.take i := by
  obtain ⟨c, _, rfl⟩ := Option.map_eq_some_iff.1 h
  rfl

section Examples

attribute [local instance] shortRuns

/-- Two nodes in a row, and a budget of one euro. -/
def ungated : Graph Nat where
  nodes := ["A", "B"]
  edges name := if name = "A" then some (.unconditional "B") else none
  budgetEur := some 1

/-- A gate after the first node. -/
def capped : Graph Nat := { ungated with interruptAfter := ["A"] }

/-- Every node counts up and costs one euro. -/
def charging : Env Nat where
  newId n := s!"c{n}"
  now n := n
  answer _ _ state _ _ := .returned (.ok { state := state + 1, info := { costEur := some 1 } })
  outcome _ task := .ok (.ok { state := task.state })
  order _ := inOrder

/-- A run spends the budget of one euro and stops at its gate. -/
def firstEuro : List (Call Nat × List (Event (ops Nat))) × World :=
  replay (memory charging) (Call.prog "t") [(.run capped false 0 "A", 20)] [] World.empty

/-- A resume spends another one. -/
def secondEuro : List (Call Nat × List (Event (ops Nat))) × World :=
  replay (memory charging) (Call.prog "t") [(.resume capped false, 20)] firstEuro.1 firstEuro.2

theorem firstEuro_session : Session (memory charging) (Call.prog "t") World.empty firstEuro.1 firstEuro.2 :=
  Session.start.replay _

theorem secondEuro_session : Session (memory charging) (Call.prog "t") World.empty secondEuro.1 secondEuro.2 :=
  firstEuro_session.replay _

/-- `B` has returned. -/
def overdrawn : Point Nat := (pointAt secondEuro.1 1 5).get (by decide +kernel)

theorem pointAt_overdrawn : pointAt secondEuro.1 1 5 = some overdrawn := (Option.some_get _).symm

/-- Without the gate the run is refused its second euro. -/
def refusal : List (Call Nat × List (Event (ops Nat))) × World :=
  replay (memory charging) (Call.prog "t") [(.run ungated false 0 "A", 20)] [] World.empty

theorem refusal_session : Session (memory charging) (Call.prog "t") World.empty refusal.1 refusal.2 :=
  Session.start.replay _

theorem earlier_of_in_refusal {p : Point Nat} (hp : p.In refusal.1) :
    p.earlier = [] ∧ p.call = .run ungated false 0 "A" := by
  obtain ⟨rest, later, hcalls⟩ := hp
  have hone : refusal.1 = [(.run ungated false 0 "A", (refusal.1.headD (p.call, [])).2)] := rfl
  rw [hone] at hcalls
  obtain ⟨hearlier, hcons⟩ | ⟨as, hearlier, hnil⟩ := List.cons_eq_append_iff.1 hcalls
  · obtain ⟨hhead, _⟩ := List.cons.inj hcons
    exact ⟨hearlier, (Prod.mk.inj hhead).1⟩
  · exact absurd hnil.symm (by simp)

theorem overdrawn_earlier : overdrawn.earlier = firstEuro.1 := by
  have hlen : firstEuro.1.length = 1 := by decide +kernel
  rw [earlier_of_pointAt pointAt_overdrawn, ← hlen]
  exact List.take_left

theorem budget_kept_false :
    Session (memory charging) (Call.prog "t") World.empty secondEuro.1 secondEuro.2 ∧
      (∀ c ∈ secondEuro.1, c.1.graph.budgetEur = some 1) ∧ overdrawn.In secondEuro.1 ∧ overdrawn.Exceeds 1 ∧
      ¬ overdrawn.Stops (memory charging) "t" World.empty ∧ spent secondEuro.1 = 2 := by
  refine ⟨secondEuro_session, by decide +kernel, in_of_pointAt pointAt_overdrawn, ⟨⟨1, false⟩, ?_, ?_⟩, ?_, ?_⟩
  · decide +kernel
  · decide +kernel
  · intro hstops
    obtain ⟨⟨u, cost, limit, hu, hres⟩, _⟩ := hstops firstEuro.2 (overdrawn_earlier ▸ firstEuro_session)
    have hfails : (exec (memory charging) (overdrawn.call.prog "t") firstEuro.2).map (·.result.toBool) = some true := by
      decide +kernel
    rw [hu] at hfails
    rw [Option.map_some, hres] at hfails
    cases hfails
  · decide +kernel

theorem budget_kept_refusal :
    (∀ p : Point Nat, p.In refusal.1 → p.Exceeds 1 → p.Stops (memory charging) "t" World.empty) ∧
      ∀ p : Point Nat, p.In refusal.1 → p.total ≤ 1 ∨ p.total = 0 := by
  refine budget_kept refusal_session (fun w o ho => hasRoom_answered charging () o ho w) (by decide +kernel)
    fun p hp hexceeds => ?_
  obtain ⟨hearlier, hcall⟩ := earlier_of_in_refusal hp
  refine ⟨refused_of_exceeds (by rw [hearlier]; rfl) hexceeds, by rw [hcall]; decide, fun w u hw hu => ?_⟩
  rw [hearlier] at hw
  cases hw.unique .start
  have hkept : (exec (memory charging) (Call.prog "t" (.run ungated false 0 "A")) World.empty).map
      (fun u => (ungated.billOf u.trace).rejected) = some false := by
    decide +kernel
  rw [hcall] at hu ⊢
  rw [hu] at hkept
  exact Option.some.inj hkept

end Examples

end Takeln
