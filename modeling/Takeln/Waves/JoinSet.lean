import Takeln.Model.Memory
import Takeln.Waves.Permits

/-!
# Waves as interleaved tasks

The engine joins a wave in one operation, which hands out the results of its nodes in any order.  That is what the tasks
of the wave come to when they run interleaved: the lists of results that the `JoinSet` may hand out, in the order in
which the tasks end, are exactly the answers to `joinWave` (`joinWave_interleaved_iff`).
-/

namespace Takeln

open Effect Prog

variable {S : Type}

/-! ### The order in which tasks end -/

/-- The task drops its permit, which is the last thing it does. -/
def TaskOp.ends : TaskOp S → Bool
  | release => true
  | _ => false

section Finished

variable {ι : Type}

/-- The tasks that have ended, in the order in which they did. -/
def finished (tr : List (Entry (taskOps S) ι WaveWorld)) : List ι :=
  (tr.filter fun e => TaskOp.ends e.op).map Entry.who

/-- What the `JoinSet` has to hand out. -/
def handedOut {E α : Type} (tr : List (Entry (taskOps S) ι WaveWorld)) (P : ι → Prog (taskOps S) E α) :
    List (Except E α) := (finished tr).filterMap fun i => (P i).outcome

theorem finished_append (tr tr' : List (Entry (taskOps S) ι WaveWorld)) :
    finished (tr ++ tr') = finished tr ++ finished tr' := by
  rw [finished, List.filter_append, List.map_append]
  rfl

theorem handedOut_of_outcome {E α : Type} {tr : List (Entry (taskOps S) ι WaveWorld)}
    {P : ι → Prog (taskOps S) E α} {result : ι → Except E α} (h : ∀ i, (P i).outcome = some (result i)) :
    handedOut tr P = (finished tr).map result := by
  rw [handedOut, ← List.filterMap_eq_map]
  exact List.filterMap_congr fun i _ => h i

variable [DecidableEq ι]

theorem count_finished (tr : List (Entry (taskOps S) ι WaveWorld)) (i : ι) :
    (finished tr).count i = (own i tr).countP fun e => TaskOp.ends e.op := by
  induction tr with
  | nil => rfl
  | cons e tr ih =>
    rw [← List.singleton_append, finished_append, own_append, List.count_append, List.countP_append, ih]
    congr 1
    obtain ⟨j, w, o, r⟩ := e
    by_cases hj : j = i
    · subst hj
      cases o <;> simp [finished, own, TaskOp.ends, Entry.event]
    · cases o <;> simp [finished, own, TaskOp.ends, hj]

end Finished

section Wave

variable [External] {g : Graph S} {tasks : List (WaveTask S)} {eventSeq : Nat}
  {tr : List (Entry (taskOps S) (Fin tasks.length) WaveWorld)}
  {P : Fin tasks.length → Prog (taskOps S) String (Nat × Except GraphError (NodeOutput S))} {w : WaveWorld}

/-- A task drops its permit once. -/
def TaskPhase.ended : TaskPhase → Nat
  | .done => 1
  | _ => 0

namespace WaveRun

theorem count_finished (hI : WaveRun g tasks eventSeq tr P w) (i : Fin tasks.length) :
    (finished tr).count i = (phaseAt tr i).ended := by
  rw [Takeln.count_finished]
  refine hI.own_invariant (i := i) (I := fun q evs => evs.countP (fun e => TaskOp.ends e.op) = q.ended)
    ((tasks.get i).follows_run g) rfl fun q evs o r hallow h => ?_
  rw [List.countP_append, h]
  cases o <;> (obtain rfl : q = _ := hallow) <;> rfl

/-- A task has ended just if it has dropped its permit. -/
theorem phase_of_outcome (hI : WaveRun g tasks eventSeq tr P w) {i : Fin tasks.length}
    {x : Except String (Nat × Except GraphError (NodeOutput S))} (hx : (P i).outcome = some x) :
    phaseAt tr i = .done ∧ ∃ outcome, x = (tasks.get i).joinResult outcome := by
  obtain ⟨hdone, hidx⟩ := (hI.follows_rest i).of_outcome hx
  refine ⟨hdone, ?_⟩
  cases x with
  | error panic => exact ⟨.error panic, rfl⟩
  | ok r =>
    refine ⟨.ok r.2, ?_⟩
    rw [WaveTask.joinResult, ← hidx r rfl]

/-- When all tasks have ended each of them has been handed out once. -/
theorem finished_perm (hI : WaveRun g tasks eventSeq tr P w) (hall : ∀ i, (P i).outcome ≠ none) :
    (finished tr).Perm (List.finRange tasks.length) := by
  refine List.perm_iff_count.2 fun i => ?_
  obtain ⟨x, hx⟩ := Option.ne_none_iff_exists'.1 (hall i)
  rw [hI.count_finished, (hI.phase_of_outcome hx).1,
    List.count_eq_one_of_mem (List.nodup_finRange _) (List.mem_finRange i)]
  rfl

/-- A task that has dropped its permit has ended. -/
theorem outcome_of_finished (hI : WaveRun g tasks eventSeq tr P w) {i : Fin tasks.length} (hi : i ∈ finished tr) :
    (P i).outcome ≠ none := by
  intro hnone
  obtain ⟨o, k, hop⟩ := outcome_eq_none hnone
  have hallow := hI.follows_rest i
  rw [hop, follows_perform] at hallow
  have hcount := hI.count_finished i
  have hpos := List.count_pos_iff.2 hi
  have hdone : phaseAt tr i = .done := by
    cases hphase : phaseAt tr i with
    | done => rfl
    | _ =>
      rw [hcount, hphase] at hpos
      cases hpos
  rw [hdone] at hallow
  cases o <;> cases hallow.1

/-- The tasks of a wave can be driven to their ends, which leaves what was handed out. -/
theorem exists_complete (hI : WaveRun g tasks eventSeq tr P w) :
    ∃ tr' P' w' rest, WaveRun g tasks eventSeq tr' P' w' ∧ (∀ i, (P' i).outcome ≠ none) ∧
      handedOut tr' P' = handedOut tr P ++ rest := by
  obtain ⟨tr', P', w', hI', hall, hkeeps⟩ := Interleaving.exists_complete
    (fun _ _ _ hI => hI.length_le fun i => (tasks.get i).countdown_run g)
    (fun _ _ _ hI ⟨_, hi⟩ => WaveRun.exists_step hI hi) hI
  refine ⟨_, P', w', (finished tr').filterMap fun i => (P' i).outcome, hI', hall, ?_⟩
  rw [handedOut, finished_append, List.filterMap_append, handedOut]
  congr 1
  refine List.filterMap_congr fun i hi => ?_
  obtain ⟨x, hx⟩ := Option.ne_none_iff_exists'.1 (hI.outcome_of_finished hi)
  rw [hx, hkeeps i x hx]

end WaveRun

end Wave

/-! ### Any order, any outcome -/

section Alone

variable [External] (g : Graph S) (t : WaveTask S) (x : Except String (Except GraphError (NodeOutput S)))

/-- The semaphore has a permit, and every call of the node ends with `x`. -/
def serving : Handler (taskOps S) WaveWorld
  | w, .acquire => if 0 < w.permits then some ((), { w with permits := w.permits - 1 }) else none
  | w, .fetchAdd => some (w.eventSeq, { w with eventSeq := w.eventSeq + 1 })
  | w, .send _ => some ((), w)
  | w, .callNode .. => some (x.map .returned, w)
  | w, .release => some ((), { w with permits := w.permits + 1 })

omit [External] in
theorem taskSteps_of_serving {w w' : WaveWorld} {o : TaskOp S} {r : o.Answer} (h : serving x w o = some (r, w')) :
    taskSteps w o r w' := by
  cases o with
  | acquire =>
    simp only [serving] at h
    split at h
    · cases h
      exact ⟨‹_›, rfl⟩
    · cases h
  | _ =>
    cases h
    first | exact rfl | exact ⟨rfl, rfl⟩

private theorem exec_callRetrying_alone (left attempt : Nat) (w : WaveWorld) :
    ∃ tr, exec (serving x) (t.callRetrying g left attempt) w = some ⟨x, w, tr⟩ := by
  induction left generalizing attempt with
  | zero =>
    rw [WaveTask.callRetrying, exec_perform rfl]
    rcases x with panic | result
    · exact ⟨_, rfl⟩
    · rcases result with e | out
      · cases e <;> exact ⟨_, rfl⟩
      · exact ⟨_, rfl⟩
  | succ left ih =>
    rw [WaveTask.callRetrying, exec_perform rfl]
    rcases x with panic | result
    · exact ⟨_, rfl⟩
    · rcases result with e | out
      · cases e with
        | retryable msg =>
          obtain ⟨tr, htr⟩ := ih (attempt + 1)
          exact ⟨_, congrArg (Option.map (Run.after _)) htr⟩
        | _ => exact ⟨_, rfl⟩
      · exact ⟨_, rfl⟩

private theorem exec_callNode_alone (w : WaveWorld) :
    ∃ tr, exec (serving x) (t.callNode g) w = some ⟨x, w, tr⟩ := by
  rw [WaveTask.callNode]
  split
  · rw [exec_perform rfl]
    rcases x with panic | result <;> exact ⟨_, rfl⟩
  · exact exec_callRetrying_alone g t x _ _ w

/-- A task that runs alone ends as its node does, and gives its permit back. -/
theorem exec_run_alone {w : WaveWorld} (hfree : 0 < w.permits) :
    ∃ eventSeq tr, exec (serving x) (t.run g) w = some ⟨t.joinResult x, { w with eventSeq := eventSeq }, tr⟩ := by
  obtain ⟨tr, htr⟩ := exec_callNode_alone g t x
    { w with permits := w.permits - 1, eventSeq := w.eventSeq + 1 }
  have hgiven : w.permits - 1 + 1 = w.permits := Nat.sub_add_cancel hfree
  have hacquire : serving x w .acquire = some ((), { w with permits := w.permits - 1 }) := if_pos hfree
  simp only [WaveTask.run, acquire, announce, bind_eq, perform_bind, ret_bind]
  rw [exec_perform hacquire, exec_perform rfl, exec_perform rfl, exec_attempt_bind htr]
  cases x with
  | error panic =>
    simp only [release, perform_bind, ret_bind]
    rw [exec_perform rfl, exec_fail, hgiven]
    exact ⟨_, _, rfl⟩
  | ok result =>
    simp only [release, perform_bind, ret_bind]
    rw [exec_perform rfl, exec_perform rfl, exec_perform rfl, pure_eq, exec_ret, hgiven]
    exact ⟨_, _, rfl⟩

end Alone

/-- A permutation of a list is a permutation of its positions. -/
private theorem exists_positions {α : Type} {l l' : List α} (h : l'.Perm l) :
    ∃ order : List (Fin l.length), order.Perm (List.finRange l.length) ∧ order.map l.get = l' := by
  have hget : List.Forall₂ (fun a i => a = l.get i) l (List.finRange l.length) := by
    have hself : List.Forall₂ Eq l ((List.finRange l.length).map l.get) := by
      rw [List.map_get_finRange, List.forall₂_eq_eq_eq]
    exact List.forall₂_map_right_iff.1 hself
  obtain ⟨order, hsame, hperm⟩ := List.perm_comp_forall₂ h hget
  refine ⟨order, hperm, ?_⟩
  have hmap : List.Forall₂ Eq l' (order.map l.get) := List.forall₂_map_right_iff.2 hsame
  rw [List.forall₂_eq_eq_eq] at hmap
  exact hmap.symm

section Wave

variable [External] {g : Graph S} {tasks : List (WaveTask S)} {eventSeq : Nat}

/-- The tasks run one after another, in any order, each to any end. -/
theorem WaveRun.exists_sequential (g : Graph S) (tasks : List (WaveTask S)) (eventSeq : Nat)
    (outcome : WaveTask S → Except String (Except GraphError (NodeOutput S))) {order : List (Fin tasks.length)}
    (hnodup : order.Nodup) :
    ∃ tr P w, WaveRun g tasks eventSeq tr P w ∧ 0 < w.permits ∧ finished tr = order ∧
      (∀ i ∈ order, (P i).outcome = some ((tasks.get i).joinResult (outcome (tasks.get i)))) ∧
      ∀ i ∉ order, P i = (tasks.get i).run g := by
  induction order using List.reverseRecOn with
  | nil => exact ⟨[], _, _, .start, Nat.lt_of_lt_of_le Nat.one_pos (Nat.le_max_right _ _), rfl, by simp, by simp⟩
  | append_singleton order i ih =>
    obtain ⟨hnodup, -, hnew⟩ := List.nodup_append.1 hnodup
    have hi : i ∉ order := fun hmem => hnew i hmem i (List.mem_singleton_self i) rfl
    obtain ⟨tr, P, w, hI, hfree, hfinished, hends, hrest⟩ := ih hnodup
    obtain ⟨eventSeq', evs, hexec⟩ := exec_run_alone g (tasks.get i) (outcome (tasks.get i)) hfree
    obtain ⟨p', hp', hreaches⟩ := reaches_outcome hexec
    rw [← hrest i hi] at hreaches
    obtain ⟨tr', -, hwho, hI'⟩ := hI.run_alone (fun _ _ _ _ => taskSteps_of_serving _) hreaches
    have hI'' : WaveRun g tasks eventSeq (tr ++ tr') (Function.update P i p') { w with eventSeq := eventSeq' } := hI'
    refine ⟨_, _, _, hI'', hfree, ?_, fun j hj => ?_, fun j hj => ?_⟩
    · -- the task ends once, and nobody else does meanwhile
      have hself := hp'
      rw [← Function.update_self i p' P] at hself
      have hcount := hI''.count_finished i
      rw [(hI''.phase_of_outcome hself).1, finished_append, hfinished, List.count_append,
        List.count_eq_zero_of_not_mem hi, Nat.zero_add] at hcount
      have honly : ∀ j ∈ finished tr', j = i := by
        intro j hj
        obtain ⟨e, he, rfl⟩ := List.mem_map.1 hj
        exact hwho e (List.mem_of_mem_filter he)
      rw [List.eq_replicate_of_mem honly, List.count_replicate_self] at hcount
      rw [finished_append, hfinished, List.eq_replicate_of_mem honly, hcount]
      rfl
    · by_cases hji : j = i
      · subst hji
        rw [Function.update_self]
        exact hp'
      · rw [Function.update_of_ne hji]
        exact hends j (by simpa [hji] using hj)
    · rw [List.mem_append, not_or, List.mem_singleton] at hj
      rw [Function.update_of_ne hj.2]
      exact hrest j hj.1

/-- The lists of results that the interleaved tasks can hand out are the permutations of any outcomes of the nodes. -/
theorem exists_handedOut_iff (hidx : (tasks.map WaveTask.idx).Nodup) {results : List (JoinResult S)} :
    (∃ tr P w, WaveRun g tasks eventSeq tr P w ∧ (∀ i, (P i).outcome ≠ none) ∧ handedOut tr P = results) ↔
      ∃ (done : List (WaveTask S)) (outcome : WaveTask S → Except String (Except GraphError (NodeOutput S))),
        done.Perm tasks ∧ results = done.map fun t => t.joinResult (outcome t) := by
  constructor
  · rintro ⟨tr, P, w, hI, hall, rfl⟩
    have hends (i : Fin tasks.length) :
        ∃ outcome, (P i).outcome = some ((tasks.get i).joinResult outcome) := by
      obtain ⟨x, hx⟩ := Option.ne_none_iff_exists'.1 (hall i)
      obtain ⟨-, outcome, rfl⟩ := hI.phase_of_outcome hx
      exact ⟨outcome, hx⟩
    choose outcomes houtcomes using hends
    -- the tasks differ, so each outcome can be looked up by its task
    have hinj : Function.Injective tasks.get := List.nodup_iff_injective_get.1 (List.Nodup.of_map _ hidx)
    refine ⟨(finished tr).map tasks.get, Function.extend tasks.get outcomes fun _ => .error "", ?_, ?_⟩
    · have hperm := (hI.finished_perm hall).map tasks.get
      rw [List.map_get_finRange] at hperm
      exact hperm
    · rw [handedOut_of_outcome houtcomes, List.map_map]
      refine List.map_congr_left fun i _ => ?_
      rw [Function.comp_apply, hinj.extend_apply]
  · rintro ⟨done, outcome, hperm, rfl⟩
    obtain ⟨order, horder, rfl⟩ := exists_positions hperm
    obtain ⟨tr, P, w, hI, -, hfinished, hends, -⟩ :=
      WaveRun.exists_sequential g tasks eventSeq outcome (horder.nodup_iff.2 (List.nodup_finRange _))
    have hends (i : Fin tasks.length) := hends i (horder.mem_iff.2 (List.mem_finRange i))
    refine ⟨tr, P, w, hI, fun i => ?_, ?_⟩
    · rw [hends i]
      exact Option.some_ne_none _
    · rw [handedOut_of_outcome hends, hfinished, List.map_map]
      rfl

omit [External] in
/-- What the engine may be answered when it joins a wave. -/
theorem exists_memory_joinWave_iff [State S] {results : List (JoinResult S)} :
    (∃ (env : Env S) (w w' : World), memory env w (.joinWave tasks) = some (results, w')) ↔
      ∃ (done : List (WaveTask S)) (outcome : WaveTask S → Except String (Except GraphError (NodeOutput S))),
        done.Perm tasks ∧ results = done.map fun t => t.joinResult (outcome t) := by
  classical
  constructor
  · rintro ⟨env, w, w', h⟩
    obtain ⟨rfl, -⟩ := Prod.mk.inj (Option.some.inj h)
    exact ⟨_, env.outcome w.waves, (env.order w.waves tasks).2, rfl⟩
  · rintro ⟨done, outcome, hperm, rfl⟩
    have horder : ∃ order : (tasks : List (WaveTask S)) → { done : List (WaveTask S) // done.Perm tasks },
        order tasks = ⟨done, hperm⟩ :=
      ⟨Function.update inOrder tasks ⟨done, hperm⟩, Function.update_self ..⟩
    obtain ⟨order, horder⟩ := horder
    refine ⟨⟨fun _ => "", fun _ => 0, fun _ _ _ _ _ => .returned (.error (.fatal "")), fun _ => outcome,
      fun _ => order⟩, .empty, { World.empty with waves := 1 }, ?_⟩
    simp only [memory, horder]
    rfl

end Wave

/-- `run_dag` joins a wave as if its tasks ended in one operation: the answers to `joinWave` are exactly the lists of
results, in the order in which the tasks end, of the complete interleavings of the tasks of the wave, whatever the
number of permits, the retry policies and the timeouts; and what any interleaving has handed out so far, which is all
that `run_dag` goes by when it leaves a wave early, begins such an answer. -/
theorem joinWave_interleaved_iff [External] [State S] (g : Graph S) (v : Waves S) (threadId : String)
    (cancellation : Bool) (eventSeq : Nat) :
    (∀ results : List (JoinResult S),
      (∃ (env : Env S) (w w' : World), memory env w (.joinWave (v.tasks threadId cancellation)) = some (results, w')) ↔
        ∃ tr P w, WaveRun g (v.tasks threadId cancellation) eventSeq tr P w ∧ (∀ i, (P i).outcome ≠ none) ∧
          handedOut tr P = results) ∧
      ∀ tr P w, WaveRun g (v.tasks threadId cancellation) eventSeq tr P w →
        ∃ (env : Env S) (w w' : World) (rest : List (JoinResult S)),
          memory env w (.joinWave (v.tasks threadId cancellation)) = some (handedOut tr P ++ rest, w') := by
  have hidx : ((v.tasks threadId cancellation).map WaveTask.idx).Nodup := by
    rw [v.map_idx_tasks]
    exact DAG.nodup_ready _
  refine ⟨fun results => by rw [exists_memory_joinWave_iff, exists_handedOut_iff hidx], fun tr P w hI => ?_⟩
  obtain ⟨tr', P', w', rest, hI', hall, hhanded⟩ := hI.exists_complete
  obtain ⟨env, w₁, w₂, hanswer⟩ := exists_memory_joinWave_iff.2
    ((exists_handedOut_iff hidx).1 ⟨tr', P', w', hI', hall, hhanded⟩)
  exact ⟨env, w₁, w₂, rest, hanswer⟩

end Takeln
