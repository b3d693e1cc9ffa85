import Takeln.Effect.Protocol
import Takeln.Model.Sequential
import Takeln.Sequential.Interrupts

/-!
# Rounds of the sequential engine

What the pieces of `run_inner` do on an in-memory checkpointer, and from that what one round of its loop can do
(`Round`): it ends, stops at a gate, finds no node, or executes the current node, which completes (its state is
checkpointed), yields or fails.  A round writes at most one checkpoint, as its last operation, and every later result
about sequential runs is a case analysis over `Round`.
-/

namespace Takeln

open Effect Effect.Prog

variable [Money] {S E α : Type}

/-! ### Observations -/

/-- The node an operation calls. -/
def calledNode (e : Event (ops S)) : Option String :=
  match e.op with
  | .callNode ctx _ _ _ => some ctx.nodeName
  | _ => none

/-- The names of the nodes called, in order. -/
def executions (tr : List (Event (ops S))) : List String := tr.filterMap calledNode

/-- The accepted save an operation is. -/
def written : Event (ops S) → Option (SaveArgs S)
  | ⟨.saveStateBound args, .ok save⟩ =>
    match checkpointId save with
    | .ok _ => some args
    | .error _ => none
  | _ => none

/-- The accepted saves, in order. -/
def writes (tr : List (Event (ops S))) : List (SaveArgs S) := tr.filterMap written

/-- The operation broadcasts that the graph has finished. -/
def finishesGraph (e : Event (ops S)) : Bool :=
  match e.op with
  | .send (.graphFinished _ _ _) => true
  | _ => false

/-- The last operation broadcasts that the graph has finished: the run has reached `__END__`. -/
def Finishes (tr : List (Event (ops S))) : Prop := tr.getLast?.any finishesGraph = true

/-- The last operation is an accepted save. -/
def EndsInWrite (tr : List (Event (ops S))) : Prop := tr.getLast?.any (fun e => (written e).isSome) = true

@[simp] theorem executions_nil : executions ([] : List (Event (ops S))) = [] := rfl

@[simp] theorem executions_append (tr tr' : List (Event (ops S))) :
    executions (tr ++ tr') = executions tr ++ executions tr' := List.filterMap_append ..

@[simp] theorem writes_nil : writes ([] : List (Event (ops S))) = [] := rfl

@[simp] theorem writes_append (tr tr' : List (Event (ops S))) : writes (tr ++ tr') = writes tr ++ writes tr' :=
  List.filterMap_append ..

@[simp] theorem result_after (u : Run (ops S) E α World) (tr : List (Event (ops S))) :
    (u.after tr).result = u.result := rfl

@[simp] theorem world_after (u : Run (ops S) E α World) (tr : List (Event (ops S))) :
    (u.after tr).world = u.world := rfl

@[simp] theorem trace_after (u : Run (ops S) E α World) (tr : List (Event (ops S))) :
    (u.after tr).trace = tr ++ u.trace := rfl

theorem EndsInWrite.writes_ne_nil {tr : List (Event (ops S))} (h : EndsInWrite tr) : writes tr ≠ [] := by
  rcases List.eq_nil_or_concat tr with rfl | ⟨pre, e, rfl⟩
  · cases h
  · obtain ⟨args, hargs⟩ := Option.isSome_iff_exists.1 (by simpa [EndsInWrite] using h : (written e).isSome)
    simp [writes, hargs]

theorem EndsInWrite.of_append {tr tr' : List (Event (ops S))} (h : EndsInWrite (tr ++ tr')) (hne : tr' ≠ []) :
    EndsInWrite tr' := by
  unfold EndsInWrite at h
  rwa [List.getLast?_append_of_ne_nil _ hne] at h

theorem EndsInWrite.append {tr' : List (Event (ops S))} (h : EndsInWrite tr') (tr : List (Event (ops S))) :
    EndsInWrite (tr ++ tr') := by
  unfold EndsInWrite
  rw [List.getLast?_append_of_ne_nil]
  · exact h
  · rintro rfl
    cases h

theorem Finishes.append {tr' : List (Event (ops S))} (h : Finishes tr') (tr : List (Event (ops S))) :
    Finishes (tr ++ tr') := by
  unfold Finishes
  rw [List.getLast?_append_of_ne_nil]
  · exact h
  · rintro rfl
    cases h

theorem finishes_append_iff {tr : List (Event (ops S))} (h : ¬ Finishes tr) (tr' : List (Event (ops S))) :
    Finishes (tr ++ tr') ↔ Finishes tr' := by
  refine ⟨fun hend => ?_, fun hend => hend.append tr⟩
  rcases List.eq_nil_or_concat tr' with rfl | ⟨pre, e, rfl⟩
  · rw [List.append_nil] at hend
    exact absurd hend h
  · unfold Finishes at hend ⊢
    rwa [List.getLast?_append_of_ne_nil _ (by simp)] at hend

theorem Finishes.not_endsInWrite {tr : List (Event (ops S))} (h : Finishes tr) : ¬ EndsInWrite tr := by
  rcases List.eq_nil_or_concat tr with rfl | ⟨pre, ⟨o, r⟩, rfl⟩
  · cases h
  · have h' : finishesGraph ⟨o, r⟩ = true := by simpa [Finishes] using h
    cases o <;> simp_all [finishesGraph, EndsInWrite, written]

/-- The run `u` calls the nodes `names` and writes nothing. -/
structure Quiet (w : World) (names : List String) (u : Run (ops S) E α World) : Prop where
  store : u.world.store = w.store
  writes : writes u.trace = []
  executions : executions u.trace = names

/-- The run `u` calls the nodes `names` and, as its last operation and only write, saves `args`. -/
structure Saves [State S] (env : Env S) (w : World) (names : List String) (args : SaveArgs S) (val : Value)
    (id : String) (u : Run (ops S) E α World) : Prop where
  trace : ∃ (pre : List (Event (ops S))) (e : Event (ops S)) (w₁ : World), u.trace = pre ++ [e] ∧
    Takeln.writes pre = [] ∧ written e = some args ∧
    w₁.store = w.store ∧ env.newId w₁.saves = id ∧ u.world = w₁.saved env args val
  executions : executions u.trace = names

section

variable {β : Type} {w w' : World} {names names' : List String} {x : Except E β} {tr : List (Event (ops S))}
  {u : Run (ops S) E α World}

theorem Quiet.rows (h : Quiet w names u) (t : String) : u.world.rows t = w.rows t := World.rows_congr h.store t

theorem Quiet.written_eq_none (h : Quiet w names u) {e : Event (ops S)} (he : e ∈ u.trace) : written e = none :=
  List.filterMap_eq_nil_iff.1 h.writes e he

theorem Quiet.after (h : Quiet w names ⟨x, w', tr⟩) (hu : Quiet w' names' u) :
    Quiet w (names ++ names') (u.after tr) where
  store := hu.store.trans h.store
  writes := by rw [trace_after, writes_append, h.writes, hu.writes]; rfl
  executions := by rw [trace_after, executions_append, h.executions, hu.executions]

variable [State S] {env : Env S} {args : SaveArgs S} {val : Value} {id : String}

theorem Saves.after (h : Quiet w names ⟨x, w', tr⟩) (hu : Saves env w' names' args val id u) :
    Saves env w (names ++ names') args val id (u.after tr) where
  trace := by
    obtain ⟨pre, e, w₁, htr, hpre, he, hstore, hid, hw⟩ := hu.trace
    refine ⟨tr ++ pre, e, w₁, ?_, ?_, he, hstore.trans h.store, hid, hw⟩
    · rw [trace_after, htr, List.append_assoc]
    · rw [writes_append, h.writes, hpre]; rfl
  executions := by rw [trace_after, executions_append, h.executions, hu.executions]

theorem Saves.writes (h : Saves env w names args val id u) : writes u.trace = [args] := by
  obtain ⟨pre, e, w₁, htr, hpre, he, _⟩ := h.trace
  rw [htr, writes_append, hpre]
  simp [Takeln.writes, he]

/-- The write of a save is its last operation. -/
theorem Saves.eq_of_written (h : Saves env w names args val id u) {pre post : List (Event (ops S))}
    {e : Event (ops S)} {args' : SaveArgs S} (htr : u.trace = pre ++ e :: post) (he : written e = some args') :
    args' = args ∧ post = [] := by
  obtain ⟨pre', e', w₁, htr', hpre', he', _⟩ := h.trace
  rcases List.eq_nil_or_concat post with rfl | ⟨post, last, rfl⟩
  · obtain ⟨_, hlast⟩ := List.append_inj' (htr'.symm.trans htr) rfl
    cases hlast
    exact ⟨Option.some.inj (he.symm.trans he'), rfl⟩
  · rw [List.concat_eq_append, ← List.cons_append, ← List.append_assoc] at htr
    obtain ⟨rfl, _⟩ := List.append_inj' (htr'.symm.trans htr) rfl
    simp [Takeln.writes, he] at hpre'

theorem Saves.endsInWrite (h : Saves env w names args val id u) : EndsInWrite u.trace := by
  obtain ⟨pre, e, _, htr, _, he, _⟩ := h.trace
  simp [EndsInWrite, htr, he]

/-- The checkpoint a save writes is the new last one. -/
theorem Saves.rows (h : Saves env w names args val id u) :
    ∃ time, u.world.rows args.threadId = w.rows args.threadId ++ [.ofSave id time val args] := by
  obtain ⟨pre, e, w₁, _, _, _, hstore, rfl, hw⟩ := h.trace
  refine ⟨env.now w₁.saves, ?_⟩
  rw [hw, World.rows_saved, World.rows_congr hstore]

end

/-! ### The pieces of a round -/

section Pieces

variable [State S] (env : Env S) {w : World}

theorem exec_emit (event : Nat → GraphEvent) (w : World) :
    ∃ tr, exec (memory env) (emit event : Prog (ops S) E Unit) w = some ⟨.ok (), { w with seq := w.seq + 1 }, tr⟩ ∧
      Quiet w [] (⟨.ok (), { w with seq := w.seq + 1 }, tr⟩ : Run (ops S) E Unit World) :=
  ⟨_, rfl, rfl, rfl, rfl⟩

variable {env}

/-- A record is pushed exactly if the history has room for one. -/
theorem pushRecord_isSome_iff {max : Nat} {records : List ExecutionRecord} {r : ExecutionRecord} :
    (pushRecord max records r).isSome ↔ 0 < max := by
  have htrim : (trimRecords max records).isSome ↔ 0 < max := by
    induction records with
    | nil =>
      unfold trimRecords
      split <;> simp <;> omega
    | cons r rs ih =>
      unfold trimRecords
      split
      · exact ih
      · rename_i hlen
        simp only [List.length_cons] at hlen
        simp
        omega
  unfold pushRecord
  rw [Option.isSome_map]
  exact htrim

/-- The history has room. -/
def hasRoom (S : Type) : Protocol (ops S) Unit where
  allow _ o := match o with
    | .record max _ => 0 < max
    | _ => True
  next _ _ _ := ()

theorem hasRoom_answered (env : Env S) (q : Unit) (o : Op S) (h : (hasRoom S).allow q o) (w : World) :
    (memory env w o).isSome := by
  cases o with
  | record max r =>
    unfold memory
    rw [Option.isSome_map]
    exact pushRecord_isSome_iff.2 h
  | _ => rfl

theorem memory_record_some (env : Env S) {max : Nat} (h : 0 < max) (r : ExecutionRecord) (w : World) :
    ∃ records, memory env w (.record max r) = some ((), { w with records := records }) := by
  obtain ⟨records, hr⟩ := Option.isSome_iff_exists.1 ((pushRecord_isSome_iff).2 h : (pushRecord max w.records r).isSome)
  refine ⟨records, ?_⟩
  unfold memory
  dsimp only
  rw [hr]
  rfl

theorem memory_record_none (env : Env S) {max : Nat} (h : ¬ 0 < max) (r : ExecutionRecord) (w : World) :
    memory env w (.record max r) = none := by
  have hr : pushRecord max w.records r = none := by
    rw [← Option.not_isSome_iff_eq_none, pushRecord_isSome_iff]
    exact h
  unfold memory
  dsimp only
  rw [hr]
  rfl

theorem exec_record {max : Nat} {r : ExecutionRecord} {u : Run (ops S) E Unit World}
    (hu : exec (memory env) (record max r) w = some u) : u.result = .ok () ∧ Quiet w [] u ∧ 0 < max := by
  obtain ⟨_, w', v, hr, hv, rfl⟩ := exec_perform_eq_some.1 hu
  obtain ⟨records, hpush, hw⟩ := Option.map_eq_some_iff.1 hr
  cases hv
  cases hw
  exact ⟨rfl, ⟨rfl, rfl, rfl⟩, pushRecord_isSome_iff.1 (Option.isSome_iff_exists.2 ⟨records, hpush⟩)⟩

/-- The size check passes and the state serialises to `val`. -/
def Graph.Savable (g : Graph S) (state : S) (val : Value) : Prop :=
  g.checkCheckpointSize state = .ok () ∧ State.toValue state = .ok val

/-- The error a save fails with, if it does. -/
def Graph.saveError (g : Graph S) (state : S) : Option TakelnError :=
  match g.checkCheckpointSize state, State.toValue state with
  | .error e, _ => some e
  | .ok _, .error e => some (.serializationError e)
  | .ok _, .ok _ => none

theorem exec_saveStateBound {args : SaveArgs S} {val : Value} (h : State.toValue args.state = .ok val) :
    exec (memory env) (saveStateBound args) w =
      some ⟨.ok (.created (env.newId w.saves)), w.saved env args val,
        [⟨.saveStateBound args, .ok (.created (env.newId w.saves))⟩]⟩ := by
  simp [saveStateBound, exec, memory, MemoryStore.saveState, h, World.saved, World.rows, Run.after, Except.map,
    Prog.ofExcept]

theorem exec_saveStateBound_error {args : SaveArgs S} {e : String} (h : State.toValue args.state = .error e) :
    exec (memory env) (saveStateBound args) w =
      some ⟨.error (.serializationError e), { w with saves := w.saves + 1 },
        [⟨.saveStateBound args, .error (.serializationError e)⟩]⟩ := by
  simp [saveStateBound, exec, memory, MemoryStore.saveState, h, Run.after, Except.map, Prog.ofExcept]

variable {g : Graph S} {args : SaveArgs S} {u : Run (ops S) TakelnError String World}

/-- A checked save writes its checkpoint, or fails and writes nothing. -/
theorem exec_saveChecked (hu : exec (memory env) (g.saveChecked args) w = some u) :
    (∃ val id, g.Savable args.state val ∧ u.result = .ok id ∧ Saves env w [] args val id u) ∨
      (∃ e, g.saveError args.state = some e ∧ u.result = .error e) ∧ (∀ val, ¬ g.Savable args.state val) ∧
        Quiet w [] u := by
  cases hc : g.checkCheckpointSize args.state with
  | error e =>
    simp only [Graph.saveChecked, hc, bind_eq, Prog.ofExcept, fail_bind, exec_fail] at hu
    cases hu
    refine Or.inr ⟨⟨e, ?_, rfl⟩, fun val h => by simp [Graph.Savable, hc] at h, rfl, rfl, rfl⟩
    simp only [Graph.saveError, hc]
  | ok _ =>
    simp only [Graph.saveChecked, hc, bind_eq, Prog.ofExcept, ret_bind] at hu
    cases hv : State.toValue args.state with
    | error e =>
      rw [exec_bind_error (exec_saveStateBound_error hv)] at hu
      cases hu
      refine Or.inr ⟨⟨_, ?_, rfl⟩, fun val h => by simp [Graph.Savable, hv] at h, rfl, rfl, rfl⟩
      simp only [Graph.saveError, hc, hv]
    | ok val =>
      rw [exec_bind_ok (exec_saveStateBound hv)] at hu
      cases hu
      exact Or.inl ⟨val, _, ⟨hc, hv⟩, rfl, ⟨[], _, w, rfl, rfl, rfl, rfl, rfl, rfl⟩, rfl⟩

/-- A checked save and what follows it: the checkpoint is written, or the error is passed on. -/
theorem exec_saveThen {wrap : TakelnError → E} {f : String → α} {u : Run (ops S) E α World}
    (hu : exec (memory env) (((g.saveChecked args).mapError wrap).bind fun id => .ret (f id)) w = some u) :
    (∃ val id, g.Savable args.state val ∧ u.result = .ok (f id) ∧ Saves env w [] args val id u) ∨
      (∃ e, g.saveError args.state = some e ∧ u.result = .error (wrap e)) ∧ (∀ val, ¬ g.Savable args.state val) ∧
        Quiet w [] u := by
  rcases exec_bind_eq_some hu with ⟨e, w', tr, hsave, rfl⟩ | ⟨id, w', tr, u', hsave, hret, rfl⟩
  · rw [exec_mapError] at hsave
    obtain ⟨u₁, hrun, heq⟩ := Option.map_eq_some_iff.1 hsave
    rcases exec_saveChecked hrun with ⟨val, id, _, hres, _⟩ | ⟨⟨e, herr, hres⟩, hval, hquiet⟩
    · simp [hres, Except.mapError] at heq
    · simp only [hres, Except.mapError, Run.mk.injEq, Except.error.injEq] at heq
      obtain ⟨rfl, rfl, rfl⟩ := heq
      exact Or.inr ⟨⟨e, herr, rfl⟩, hval, hquiet.store, hquiet.writes, hquiet.executions⟩
  · rw [exec_mapError] at hsave
    obtain ⟨u₁, hrun, heq⟩ := Option.map_eq_some_iff.1 hsave
    cases hret
    rcases exec_saveChecked hrun with ⟨val, id, hval, hres, hsaves⟩ | ⟨⟨e, _, hres⟩, _, _⟩
    · simp only [hres, Except.mapError, Run.mk.injEq, Except.ok.injEq] at heq
      obtain ⟨rfl, rfl, rfl⟩ := heq
      refine Or.inl ⟨val, _, hval, rfl, ?_, ?_⟩
      · simpa [Run.after] using hsaves.trace
      · simpa [Run.after] using hsaves.executions
    · simp [hres, Except.mapError] at heq

end Pieces

/-! ### Calls of a node -/

section Calls

variable [External] [State S] (env : Env S) (g : Graph S) (threadId : String) (cancellation : Bool)

/-- The retry loop of a node whose first call is the `n`-th one: how many more calls it makes, and its result. -/
def Graph.retried (v : Loop S) : Nat → Nat → Option Value → Nat → Nat × Except GraphError (NodeOutput S)
  | left, attempt, input, n =>
    match CallAnswer.result v.currentNodeName (env.answer n (g.context threadId cancellation v attempt input) v.state
        (g.effectiveTimeout v.currentNodeName) cancellation) with
    | .ok out => (0, .ok out)
    | .error (.retryable msg) =>
      match left with
      | 0 => (0, .error (.retryable msg))
      | left + 1 => Prod.map (· + 1) id (retried v left (attempt + 1) none (n + 1))
    | .error e => (0, .error e)

/-- The calls of the current node, if its first call is the `n`-th one. -/
def Graph.nodeRun (v : Loop S) (n : Nat) : Nat × Except GraphError (NodeOutput S) :=
  if v.currentNodeName ∈ g.dynamicNodes then
    (0, CallAnswer.result v.currentNodeName
      (env.answer n (g.context threadId cancellation v 0 v.pendingResumedInput) v.state none false))
  else
    g.retried env threadId cancellation v ((g.effectiveRetry v.currentNodeName).maxAttempts - 1) 0
      v.pendingResumedInput n

/-- What the current node comes to if its first call is the `n`-th one. -/
def Graph.nodeResult (v : Loop S) (n : Nat) : Except GraphError (NodeOutput S) :=
  (g.nodeRun env threadId cancellation v n).2

theorem exec_callRetrying (v : Loop S) (left attempt : Nat) (input : Option Value) (w : World) :
    ∃ attempts u,
      exec (memory env) (g.callRetrying threadId cancellation v left attempt input : Prog (ops S) E _) w = some u ∧
        u.result = .ok (attempts, (g.retried env threadId cancellation v left attempt input w.calls).2) ∧
        Quiet w (List.replicate ((g.retried env threadId cancellation v left attempt input w.calls).1 + 1)
          v.currentNodeName) u := by
  induction left generalizing attempt input w with
  | zero =>
    unfold Graph.callRetrying Graph.retried
    rw [exec_perform (show memory env w _ = some (_, { w with calls := w.calls + 1 }) from rfl)]
    dsimp only
    generalize CallAnswer.result v.currentNodeName (env.answer w.calls _ _ _ _) = x
    cases x with
    | ok out => exact ⟨_, _, rfl, rfl, rfl, rfl, rfl⟩
    | error e => cases e <;> exact ⟨_, _, rfl, rfl, rfl, rfl, rfl⟩
  | succ left ih =>
    unfold Graph.callRetrying Graph.retried
    rw [exec_perform (show memory env w _ = some (_, { w with calls := w.calls + 1 }) from rfl)]
    dsimp only
    generalize CallAnswer.result v.currentNodeName (env.answer w.calls _ _ _ _) = x
    cases x with
    | ok out => exact ⟨_, _, rfl, rfl, rfl, rfl, rfl⟩
    | error e =>
      cases e with
      | retryable msg =>
        obtain ⟨attempts, u, he, hres, hq⟩ := ih (attempt + 1) none { w with calls := w.calls + 1 }
        dsimp only
        rw [he]
        exact ⟨attempts, _, rfl, hres, hq.store, hq.writes, congrArg (List.cons v.currentNodeName) hq.executions⟩
      | _ => exact ⟨_, _, rfl, rfl, rfl, rfl, rfl⟩

/-- A node is called at least once, and nothing else happens. -/
theorem exec_callNode (v : Loop S) (w : World) :
    ∃ attempts u,
      exec (memory env) (g.callNode threadId cancellation v : Prog (ops S) E _) w = some u ∧
        u.result = .ok (attempts, g.nodeResult env threadId cancellation v w.calls) ∧
        Quiet w (List.replicate ((g.nodeRun env threadId cancellation v w.calls).1 + 1) v.currentNodeName) u := by
  unfold Graph.callNode Graph.nodeResult Graph.nodeRun
  by_cases hdyn : v.currentNodeName ∈ g.dynamicNodes
  · simp only [hdyn, if_true]
    exact ⟨_, _, rfl, rfl, rfl, rfl, rfl⟩
  · simp only [hdyn, if_false]
    exact exec_callRetrying ..

end Calls

/-! ### One round -/

section Round

variable [External] [State S] (env : Env S) (g : Graph S) (threadId : String) (cancellation : Bool)

/-- Neither the budget of the node nor that of the run refuses the output. -/
def Graph.Affords (v : Loop S) (out : NodeOutput S) : Prop :=
  exceeded (g.effectiveNodeBudget v.currentNodeName) out.info.cost = none ∧
    exceeded g.budgetEur (v.runningCostEur + out.info.cost) = none

/-- The current node, first called by the `n`-th call, returns a state that is affordable and can be saved. -/
def Graph.Completes (v : Loop S) (n : Nat) : Prop :=
  ∃ out val, g.nodeResult env threadId cancellation v n = .ok out ∧ g.Affords v out ∧ g.Savable out.state val

/-- The current node, first called by the `n`-th call, yields, and the state can be saved. -/
def Graph.Yields (v : Loop S) (n : Nat) (request : YieldRequest) : Prop :=
  ∃ val, g.nodeResult env threadId cancellation v n = .error (.yield request) ∧ g.Savable v.state val

variable (resolvedInterrupt : Option String)

/-- What a round can do in the loop state `v` and the world `w`. -/
inductive Round (v : Loop S) (w : World) (u : Run (ops S) RunError (Flow S) World) : Prop
  | ended (hname : v.currentNodeName = "__END__") (hres : u.result = .ok (.stop v)) (hquiet : Quiet w [] u)
      (hend : Finishes u.trace)
  | gated (val : Value) (id : String) (hname : v.currentNodeName ≠ "__END__") (hgate : g.GatedBefore v)
      (hval : g.Savable v.state val) (hres : u.result = .ok (.stop v))
      (hsaves : Saves env w []
        (Graph.loopSave threadId v v.state v.currentNodeName .interrupted none resolvedInterrupt) val id u)
  | gateFailed (e : TakelnError) (hname : v.currentNodeName ≠ "__END__") (hgate : g.GatedBefore v)
      (hval : ∀ val, ¬ g.Savable v.state val) (hres : u.result = .error (e, v.lastHead)) (hquiet : Quiet w [] u)
  | unregistered (hname : v.currentNodeName ≠ "__END__") (hgate : ¬ g.GatedBefore v)
      (hreg : ¬ g.registered v.currentNodeName)
      (hres : u.result = .error (.nodeNotFound v.currentNodeName, v.lastHead)) (hquiet : Quiet w [] u)
  | completed (n : Nat) (out : NodeOutput S) (val : Value) (id : String)
      (hretries : n = (g.nodeRun env threadId cancellation v w.calls).1) (hruns : g.Runs v)
      (hnode : g.nodeResult env threadId cancellation v w.calls = .ok out) (haff : g.Affords v out)
      (hval : g.Savable out.state val)
      (hres : u.result = .ok (if v.currentNodeName ∈ g.interruptAfter then .stop (v.afterSave out id)
        else .next { v.afterSave out id with currentNodeName := g.nextNode v.currentNodeName out }))
      (hsaves : Saves env w (List.replicate (n + 1) v.currentNodeName)
        (Graph.loopSave threadId v out.state (g.nextNode v.currentNodeName out) .complete none
          resolvedInterrupt) val id u)
      (hrecords : 0 < g.resourceLimits.maxExecutionRecords)
  | yielded (n : Nat) (request : YieldRequest) (val : Value) (id : String) (hruns : g.Runs v)
      (hnode : g.nodeResult env threadId cancellation v w.calls = .error (.yield request))
      (hval : g.Savable v.state val) (hres : u.result = .ok (.stop v))
      (hsaves : Saves env w (List.replicate (n + 1) v.currentNodeName)
        (Graph.loopSave threadId v v.state v.currentNodeName .yielded (some request) none) val id u)
  | failed (n : Nat) (e : TakelnError) (hruns : g.Runs v)
      (hcomp : ¬ g.Completes env threadId cancellation v w.calls)
      (hyield : ∀ request, ¬ g.Yields env threadId cancellation v w.calls request)
      (hres : u.result = .error (e, v.lastHead))
      (hquiet : Quiet w (List.replicate (n + 1) v.currentNodeName) u)

variable {env g threadId cancellation resolvedInterrupt} {v : Loop S} {w w' : World} {names : List String}

omit [External] in
/-- A failure after the event that reports it. -/
private theorem exec_emit_fail {event : Nat → GraphEvent} {e : TakelnError}
    {u : Run (ops S) RunError (Flow S) World}
    (hu : exec (memory env) ((emit event).bind fun _ => .fail (e, v.lastHead)) w = some u) :
    u.result = .error (e, v.lastHead) ∧ Quiet w [] u := by
  obtain ⟨tr, hem, hq⟩ := exec_emit (E := RunError) env event w
  rw [exec_bind_ok hem] at hu
  cases hu
  exact ⟨rfl, hq.store, by simpa [Run.after] using hq.writes, by simpa [Run.after] using hq.executions⟩

omit [External] in
/-- After the node has returned `out`. -/
private theorem exec_onSuccess {attempt : Nat} {out : NodeOutput S} {u : Run (ops S) RunError (Flow S) World}
    (hu : exec (memory env) (g.onSuccess threadId resolvedInterrupt v attempt out) w = some u) :
    (∃ val id, g.Affords v out ∧ g.Savable out.state val ∧
        u.result = .ok (if v.currentNodeName ∈ g.interruptAfter then .stop (v.afterSave out id)
          else .next { v.afterSave out id with currentNodeName := g.nextNode v.currentNodeName out }) ∧
        Saves env w [] (Graph.loopSave threadId v out.state (g.nextNode v.currentNodeName out) .complete none
          resolvedInterrupt) val id u ∧ 0 < g.resourceLimits.maxExecutionRecords) ∨
      (∃ e, u.result = .error (e, v.lastHead)) ∧ (∀ val, ¬ (g.Affords v out ∧ g.Savable out.state val)) ∧
        Quiet w [] u := by
  unfold Graph.onSuccess at hu
  dsimp only at hu
  split at hu
  · rename_i limit hnode
    obtain ⟨hres, hq⟩ := exec_emit_fail hu
    exact Or.inr ⟨⟨_, hres⟩, fun val h => by simp [Graph.Affords, hnode] at h, hq⟩
  · rename_i hnode
    split at hu
    · rename_i limit hrun
      obtain ⟨hres, hq⟩ := exec_emit_fail hu
      exact Or.inr ⟨⟨_, hres⟩, fun val h => by simp [Graph.Affords, hrun] at h, hq⟩
    · rename_i hrun
      have haff : g.Affords v out := ⟨hnode, hrun⟩
      rcases exec_bind_eq_some hu with ⟨e, w₁, t₁, hrec, rfl⟩ | ⟨_, w₁, t₁, u₁, hrec, hu₁, rfl⟩
      · cases (exec_record hrec).1
      have ⟨_, hq₁, hmax⟩ := exec_record hrec
      obtain ⟨t₂, hem, hq₂⟩ := exec_emit (E := RunError) env
        (.nodeFinished threadId v.currentNodeName "success" out.info.costEur) w₁
      rw [bind_eq, exec_bind_ok hem] at hu₁
      obtain ⟨u₂, hu₂, rfl⟩ := Option.map_eq_some_iff.1 hu₁
      rcases exec_saveThen hu₂ with ⟨val, id, hval, hres, hsaves⟩ | ⟨⟨e, _, hres⟩, hval, hq₃⟩
      · exact Or.inl ⟨val, id, haff, hval, hres, Saves.after hq₁ (Saves.after hq₂ hsaves), hmax⟩
      · exact Or.inr ⟨⟨e, hres⟩, fun val h => hval val h.2, hq₁.after (hq₂.after hq₃)⟩

omit [External] in
/-- After the node has answered with an error. -/
private theorem exec_onError {err : GraphError} {u : Run (ops S) RunError (Flow S) World}
    (hu : exec (memory env) (g.onError threadId v err) w = some u) :
    (∃ request val id, err = .yield request ∧ g.Savable v.state val ∧ u.result = .ok (.stop v) ∧
        Saves env w [] (Graph.loopSave threadId v v.state v.currentNodeName .yielded (some request) none) val id u) ∨
      (∃ e, u.result = .error (e, v.lastHead)) ∧
        (∀ request, err = .yield request → ∀ val, ¬ g.Savable v.state val) ∧ Quiet w [] u := by
  unfold Graph.onError at hu
  cases err with
  | yield request =>
    dsimp only at hu
    obtain ⟨t₁, hem, hq⟩ := exec_emit (E := RunError) env
      (.nodeFinished threadId v.currentNodeName "yielded" none) w
    rw [bind_eq, exec_bind_ok hem] at hu
    obtain ⟨u₁, hu₁, rfl⟩ := Option.map_eq_some_iff.1 hu
    rcases exec_saveThen hu₁ with ⟨val, id, hval, hres, hsaves⟩ | ⟨⟨e, _, hres⟩, hval, hq₁⟩
    · exact Or.inl ⟨request, val, id, rfl, hval, hres, Saves.after hq hsaves⟩
    · exact Or.inr ⟨⟨e, hres⟩, fun _ _ => hval, hq.after hq₁⟩
  | yieldInDynamicNode i =>
    cases hu
    exact Or.inr ⟨⟨_, rfl⟩, fun _ h => (by cases h), rfl, rfl, rfl⟩
  | _ =>
    obtain ⟨hres, hq⟩ := exec_emit_fail hu
    exact Or.inr ⟨⟨_, hres⟩, fun _ h => (by cases h), hq⟩

/-- A round of the loop does what `Round` says. -/
theorem round_of_exec {u : Run (ops S) RunError (Flow S) World}
    (hu : exec (memory env) (g.loopBody threadId cancellation resolvedInterrupt v) w = some u) :
    Round env g threadId cancellation resolvedInterrupt v w u := by
  unfold Graph.loopBody at hu
  split at hu
  · rename_i hname
    cases hu
    exact .ended hname rfl ⟨rfl, rfl, rfl⟩ rfl
  rename_i hname
  split at hu
  · rename_i hgate
    rcases exec_saveThen hu with ⟨val, id, hval, hres, hsaves⟩ | ⟨⟨e, _, hres⟩, hval, hq⟩
    · exact .gated val id hname hgate hval hres hsaves
    · exact .gateFailed e hname hgate hval hres hq
  rename_i hgate
  split at hu
  · rename_i hreg
    cases hu
    exact .unregistered hname hgate hreg rfl ⟨rfl, rfl, rfl⟩
  rename_i hreg
  have hruns : g.Runs v := ⟨hname, hgate, not_not.1 hreg⟩
  obtain ⟨t₁, hem, hq₁⟩ := exec_emit (E := RunError) env (.nodeStarted threadId v.currentNodeName) w
  rw [bind_eq, exec_bind_ok hem] at hu
  obtain ⟨u₁, hu₁, rfl⟩ := Option.map_eq_some_iff.1 hu
  obtain ⟨attempts, ⟨x, w₂, t₂⟩, hcall, hres, hq₂⟩ :=
    exec_callNode (E := RunError) env g threadId cancellation v { w with seq := w.seq + 1 }
  cases hres
  rw [bind_eq, exec_bind_ok hcall] at hu₁
  obtain ⟨u₂, hu₂, rfl⟩ := Option.map_eq_some_iff.1 hu₁
  dsimp only at hu₂
  split at hu₂
  · rename_i out hnode
    rcases exec_onSuccess hu₂ with ⟨val, id, haff, hval, hres, hsaves, hmax⟩ | ⟨⟨e, hres⟩, hno, hq₃⟩
    · exact .completed _ out val id rfl hruns hnode haff hval hres
        (by simpa using Saves.after hq₁ (Saves.after hq₂ hsaves)) hmax
    · refine .failed _ e hruns ?_ ?_ hres (by simpa using hq₁.after (hq₂.after hq₃))
      · rintro ⟨out', val, hnode', haff, hval⟩
        cases hnode.symm.trans hnode'
        exact hno val ⟨haff, hval⟩
      · rintro request ⟨val, hnode', _⟩
        cases hnode.symm.trans hnode'
  · rename_i err hnode
    rcases exec_onError hu₂ with ⟨request, val, id, rfl, hval, hres, hsaves⟩ | ⟨⟨e, hres⟩, hno, hq₃⟩
    · exact .yielded _ request val id hruns hnode hval hres (by simpa using Saves.after hq₁ (Saves.after hq₂ hsaves))
    · refine .failed _ e hruns ?_ ?_ hres (by simpa using hq₁.after (hq₂.after hq₃))
      · rintro ⟨out', val, hnode', _⟩
        cases hnode.symm.trans hnode'
      · rintro request ⟨val, hnode', hval⟩
        cases hnode.symm.trans hnode'
        exact hno request rfl val hval

section Loop

variable {W : Type} {h : Handler (ops S) W} {w w' : W} {v' : Loop S} {k : Nat} {tr : List (Event (ops S))}

/-- The loop ends with a round that stops it. -/
theorem exec_runLoop_stop (hbody : exec h (g.loopBody threadId cancellation resolvedInterrupt v) w =
      some ⟨.ok (.stop v'), w', tr⟩) :
    exec h (g.runLoop threadId cancellation resolvedInterrupt (k + 1) v) w = some ⟨.ok v'.state, w', tr⟩ := by
  rw [Graph.runLoop, bind_eq, exec_bind_ok hbody]
  simp [Run.after]

/-- The loop goes on after a round that does not stop it. -/
theorem exec_runLoop_next (hbody : exec h (g.loopBody threadId cancellation resolvedInterrupt v) w =
      some ⟨.ok (.next v'), w', tr⟩) :
    exec h (g.runLoop threadId cancellation resolvedInterrupt (k + 1) v) w =
      (exec h (g.runLoop threadId cancellation resolvedInterrupt k v') w').map (Run.after tr) := by
  rw [Graph.runLoop, bind_eq, exec_bind_ok hbody]

/-- The loop fails with a round that fails. -/
theorem exec_runLoop_fail {e : RunError} (hbody : exec h (g.loopBody threadId cancellation resolvedInterrupt v) w =
      some ⟨.error e, w', tr⟩) :
    exec h (g.runLoop threadId cancellation resolvedInterrupt (k + 1) v) w = some ⟨.error e, w', tr⟩ := by
  rw [Graph.runLoop, bind_eq, exec_bind_error hbody]

end Loop

/-- The loop fails at its step limit; otherwise it does a round and goes on as the round says. -/
theorem runLoop_cases {k : Nat} {u : Run (ops S) RunError S World}
    (hu : exec (memory env) (g.runLoop threadId cancellation resolvedInterrupt (k + 1) v) w = some u) :
    ∃ u₁, Round env g threadId cancellation resolvedInterrupt v w u₁ ∧
      ((∃ e, u₁.result = .error e ∧ u = ⟨.error e, u₁.world, u₁.trace⟩) ∨
        (∃ v', u₁.result = .ok (.stop v') ∧ u = ⟨.ok v'.state, u₁.world, u₁.trace⟩) ∨
        ∃ v' u₂, u₁.result = .ok (.next v') ∧
          exec (memory env) (g.runLoop threadId cancellation resolvedInterrupt k v') u₁.world = some u₂ ∧
          u = u₂.after u₁.trace) := by
  rw [Graph.runLoop, bind_eq] at hu
  rcases exec_bind_eq_some hu with ⟨e, w₁, t₁, hbody, rfl⟩ | ⟨flow, w₁, t₁, u₂, hbody, hu₂, rfl⟩
  · exact ⟨_, round_of_exec hbody, Or.inl ⟨e, rfl, rfl⟩⟩
  · refine ⟨_, round_of_exec hbody, Or.inr ?_⟩
    cases flow with
    | stop v' =>
      cases hu₂
      exact Or.inl ⟨v', rfl, by simp [Run.after]⟩
    | next v' => exact Or.inr ⟨v', u₂, rfl, hu₂, rfl⟩

end Round

end Takeln
