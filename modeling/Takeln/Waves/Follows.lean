import Takeln.Sequential.Follows
import Takeln.Waves.Statuses

/-!
# Protocols of the wave engine

What it takes for the wave engine to keep to a protocol, in the manner of the sequential one: the joining of a wave
only records, a round makes one of the saves of `WaveSave`, and the loop needs an invariant of its rounds.
-/

namespace Takeln

open Effect Effect.Prog

variable [Money] {S Q : Type} {π : Protocol (ops S) Q} {q : Q} {g : Graph S}

/-- Joining a wave only records, and comes to what `joinAll` says. -/
theorem follows_joinLoop (hq : SilentNodes π q g.resourceLimits.maxExecutionRecords) {results : List (JoinResult S)}
    {j : Joining S} {Φ : Q → Except WaveError (Joining S) → Prop} (h : Φ q (g.joinAll results j)) :
    Follows π (g.joinLoop results j) q Φ := by
  induction results generalizing j with
  | nil => exact h
  | cons res results ih =>
    rcases res with panic | ⟨idx, err | out⟩
    · exact h
    · cases err with
      | yield request => exact ih h
      | budgetExceeded spent limit => exact h
      | _ =>
        unfold Graph.joinLoop
        cases hpolicy : g.waveFailurePolicy with
        | failFast =>
          rw [Graph.joinAll_cons_some (by simp only [Graph.refuses, hpolicy]; rfl)] at h
          exact h
        | continueOnError =>
          rw [Graph.joinAll_cons_none (by simp only [Graph.refuses, hpolicy])] at h
          exact ih h
    · unfold Graph.joinLoop
      dsimp only
      rw [bind_eq, follows_bind]
      refine follows_record hq _ ?_
      dsimp only
      cases hlimit : exceeded (g.effectiveNodeBudget (j.dag.stepType idx)) out.info.cost with
      | some limit =>
        rw [Graph.joinAll_cons_some (by simp only [Graph.refuses, hlimit]; rfl)] at h
        exact h
      | none =>
        rw [Graph.joinAll_cons_none (by simp only [Graph.refuses, hlimit]; rfl)] at h
        exact ih h

section Loop

variable [State S] [Merge S] {threadId : String} {cancellation : Bool}

/-- A save of a round in the loop state `v`, and how the round ends if it gets the id `id`. -/
inductive WaveSave (g : Graph S) (threadId : String) (v : Waves S) : SaveArgs S → String → WaveFlow S → Prop
  | interrupted (nextNode id : String) : WaveSave g threadId v
      (Graph.waveSave threadId v v.dag v.state nextNode .interrupted none) id (.stop v)
  | yielded (j : Joining S) (nextNode id : String) : WaveSave g threadId v
      (Graph.waveSave threadId v j.dag v.state nextNode .yielded j.latestYieldRequest) id
      (.yielded { v with dag := j.dag })
  | completed (j : Joining S) (ready : List Nat) (nextNode id : String) : WaveSave g threadId v
      (Graph.waveSave threadId v j.dag (mergeWave v.state j.waveStates) nextNode .complete none) id
      (if ∃ idx ∈ ready, j.dag.stepType idx ∈ g.interruptAfter then
        .stop (v.afterSave j (mergeWave v.state j.waveStates) id)
      else .next (v.afterSave j (mergeWave v.state j.waveStates) id))

section

variable {v v' : Waves S} {args : SaveArgs S} {id : String} {flow : WaveFlow S}

omit [State S] in
theorem WaveSave.proof_eq (h : WaveSave g threadId v args id flow) : args.proof = checkpointProof v.expectedHead := by
  cases h <;> rfl

omit [State S] in
/-- The loop goes on only after a merged wave. -/
theorem WaveSave.of_next (h : WaveSave g threadId v args id (.next v')) :
    ∃ j, args.status = .complete ∧ v' = v.afterSave j (mergeWave v.state j.waveStates) id := by
  generalize hflow : WaveFlow.next v' = flow at h
  cases h with
  | interrupted => cases hflow
  | yielded => cases hflow
  | completed j =>
    split at hflow
    · cases hflow
    · cases hflow
      exact ⟨j, rfl, rfl⟩

end

omit [Merge S] in
/-- A checked save of a round, and then the flow. -/
theorem follows_waveSave {args : SaveArgs S} {flow : String → WaveFlow S} {Φ : Q → Except WaveError (WaveFlow S) → Prop}
    (dag : DAG) (herr : ∀ e, Φ q (.error (e, dag)))
    (hsave : SaveFollows π q args fun q' x => match x with
      | .ok id => Φ q' (.ok (flow id))
      | .error e => Φ q' (.error (e, dag))) :
    Follows π (((g.saveChecked args).mapError (·, dag)).bind fun id => .ret (flow id)) q Φ := by
  rw [follows_bind, follows_mapError]
  refine follows_saveChecked herr ⟨hsave.1, fun r => ?_⟩
  have hr := hsave.2 r
  cases hx : r.bind checkpointId <;> rw [hx] at hr <;> exact hr

/-- After a wave was joined: it is reported, or saved as yielded, or refused by the budget, or merged and saved. -/
theorem follows_afterJoin {v : Waves S} {ready : List Nat} {j : Joining S}
    {Φ : Q → Except WaveError (WaveFlow S) → Prop}
    (hfailed : j.waveFailed ≠ [] → Φ q (.error (.partialWaveFailure j.waveSucceeded j.waveFailed, j.dag)))
    (hyield : j.waveFailed = [] → j.hasYielded = true → ∀ nextNode, (∀ e, Φ q (.error (e, j.dag))) ∧ SaveFollows π q
      (Graph.waveSave threadId v j.dag v.state nextNode .yielded j.latestYieldRequest) fun q' x => match x with
        | .ok _ => Φ q' (.ok (.yielded { v with dag := j.dag }))
        | .error e => Φ q' (.error (e, j.dag)))
    (hbudget : j.waveFailed = [] → j.hasYielded = false → ∀ limit,
      exceeded g.budgetEur (v.runningCostEur + j.waveCost) = some limit →
      Φ q (.error (.budgetExceeded (v.runningCostEur + j.waveCost) limit, j.dag)))
    (hsave : j.waveFailed = [] → j.hasYielded = false → exceeded g.budgetEur (v.runningCostEur + j.waveCost) = none →
      ∀ nextNode, (∀ e, Φ q (.error (e, j.dag))) ∧ SaveFollows π q
        (Graph.waveSave threadId v j.dag (mergeWave v.state j.waveStates) nextNode .complete none)
        fun q' x => match x with
          | .ok id => Φ q' (.ok (if ∃ idx ∈ ready, j.dag.stepType idx ∈ g.interruptAfter then
              .stop (v.afterSave j (mergeWave v.state j.waveStates) id)
            else .next (v.afterSave j (mergeWave v.state j.waveStates) id)))
          | .error e => Φ q' (.error (e, j.dag))) :
    Follows π (g.afterJoin threadId v ready j) q Φ := by
  unfold Graph.afterJoin
  split
  · rename_i h
    exact hfailed h
  rename_i h
  replace h : j.waveFailed = [] := not_not.1 h
  split
  · rename_i hy
    exact follows_waveSave _ (hyield h hy "").1 (hyield h hy _).2
  rename_i hy
  replace hy : j.hasYielded = false := Bool.eq_false_iff.2 hy
  dsimp only
  split
  · rename_i limit hlimit
    exact hbudget h hy limit hlimit
  · rename_i hlimit
    exact follows_waveSave _ (hsave h hy hlimit "").1 (hsave h hy hlimit _).2

/-- A round follows a protocol that allows it to stop at a gate, or to launch its wave and to go on from there. -/
theorem follows_waveBody_cases {v : Waves S} {Φ : Q → Except WaveError (WaveFlow S) → Prop}
    (hend : Φ q (.ok (.stop v))) (herr : ∀ e, Φ q (.error e))
    (hgate : ∀ nextNode, SaveFollows π q (Graph.waveSave threadId v v.dag v.state nextNode .interrupted none)
      fun q' x => match x with
        | .ok _ => Φ q' (.ok (.stop v))
        | .error e => Φ q' (.error (e, v.dag)))
    (hjoin : ∀ tasks : List (WaveTask S),
      (∀ t ∈ tasks, t.state = v.state ∧ t.threadId = threadId ∧ t.nodeName = v.dag.stepType t.idx) →
      π.allow q (.joinWave tasks) ∧ ∀ (r : List (JoinResult S)) (dag : DAG), (∀ k, dag.stepType k = v.dag.stepType k) →
        Follows π (g.joinLoop r { dag := dag, completed := v.completed }) (π.next q (.joinWave tasks) r) fun q' x =>
          match x with
          | .ok j => ∀ ready, Follows π (g.afterJoin threadId v ready j) q' Φ
          | .error e => Φ q' (.error e)) :
    Follows π (g.waveBody threadId cancellation v) q Φ := by
  unfold Graph.waveBody
  dsimp only
  split
  · split
    · exact herr _
    · exact hend
  split
  · exact follows_waveSave _ (fun _ => herr _) (hgate _)
  unfold Graph.launch
  dsimp only
  split
  · exact herr _
  have hname (k : Nat) : (v.dag.setStatuses (v.dag.ready v.completed) .running).stepType k = v.dag.stepType k :=
    DAG.stepType_setStatuses _ _ _ _
  have htasks : ∀ t ∈ (v.dag.ready v.completed).map fun idx => (⟨idx, threadId,
      (v.dag.setStatuses (v.dag.ready v.completed) .running).stepType idx, v.state, cancellation⟩ : WaveTask S),
      t.state = v.state ∧ t.threadId = threadId ∧ t.nodeName = v.dag.stepType t.idx := by
    intro t ht
    obtain ⟨idx, _, rfl⟩ := List.mem_map.1 ht
    exact ⟨rfl, rfl, hname idx⟩
  refine ⟨(hjoin _ htasks).1, fun r => ?_⟩
  change Follows π ((g.joinLoop r _).bind _) _ Φ
  rw [follows_bind]
  refine ((hjoin _ htasks).2 r _ hname).mono fun q' x hx => ?_
  cases x with
  | error e => exact hx
  | ok j => exact hx _

/-- A round follows a protocol that allows its wave and its saves. -/
theorem follows_waveBody {v : Waves S} {Φ : Q → Except WaveError (WaveFlow S) → Prop}
    (hq : Silent π q g.resourceLimits.maxExecutionRecords)
    (hjoin : ∀ tasks : List (WaveTask S), (∀ t ∈ tasks, t.state = v.state ∧ t.threadId = threadId) →
      π.allow q (.joinWave tasks) ∧ ∀ r, π.next q (.joinWave tasks) r = q)
    (hend : Φ q (.ok (.stop v))) (herr : ∀ e, Φ q (.error e))
    (hsave : ∀ (args : SaveArgs S) (flow : String → WaveFlow S) (dag : DAG),
      (∀ id, WaveSave g threadId v args id (flow id)) → SaveFollows π q args fun q' x => match x with
        | .ok id => Φ q' (.ok (flow id))
        | .error e => Φ q' (.error (e, dag))) :
    Follows π (g.waveBody threadId cancellation v) q Φ := by
  refine follows_waveBody_cases hend herr (fun _ => hsave _ (fun _ => .stop v) _ fun id => .interrupted _ id) ?_
  intro tasks htasks
  have hwave := hjoin tasks fun t ht => ⟨(htasks t ht).1, (htasks t ht).2.1⟩
  refine ⟨hwave.1, fun r dag _ => ?_⟩
  have hr : π.next q (.joinWave tasks) r = q := hwave.2 r
  rw [hr]
  refine follows_joinLoop hq.nodes ?_
  cases g.joinAll r { dag := dag, completed := v.completed } with
  | error e => exact herr e
  | ok j =>
    intro ready
    refine follows_afterJoin (fun _ => herr _) (fun _ _ nextNode => ⟨fun _ => herr _, ?_⟩) (fun _ _ _ _ => herr _)
      fun _ _ _ nextNode => ⟨fun _ => herr _, ?_⟩
    · exact hsave _ (fun _ => .yielded { v with dag := j.dag }) _ fun id => .yielded j nextNode id
    · exact hsave _ _ _ fun id => .completed j ready nextNode id

/-- The loop follows a protocol if its rounds keep an invariant. -/
theorem follows_runWaves {I : Q → Waves S → Prop} {Φ : Q → Except WaveError (S × DAG) → Prop}
    (hbody : ∀ q v, I q v → Follows π (g.waveBody threadId cancellation v) q fun q' x => match x with
      | .ok (.next v') => I q' v'
      | .ok (.stop v') => EmitFollows π q' (.graphFinished threadId v'.runningCostEur) fun q'' =>
        Φ q'' (.ok (v'.state, v'.dag))
      | .ok (.yielded v') => Φ q' (.ok (v'.state, v'.dag))
      | .error e => Φ q' (.error e))
    (hlimit : ∀ q v e, I q v → Φ q (.error (e, v.dag))) {k : Nat} {v : Waves S} (hI : I q v) :
    Follows π (g.runWaves threadId cancellation k v) q Φ := by
  induction k generalizing q v with
  | zero => exact hlimit q v _ hI
  | succ k ih =>
    unfold Graph.runWaves
    rw [bind_eq, follows_bind]
    refine (hbody q v hI).mono fun q' x hx => ?_
    cases x with
    | error e => exact hx
    | ok flow =>
      cases flow with
      | next v' => exact ih hx
      | yielded v' => exact hx
      | stop v' =>
        dsimp only
        rw [bind_eq, follows_bind]
        exact follows_emit hx

/-- `run_dag` follows a protocol that allows it to read the head and whose invariant its loop then keeps. -/
theorem follows_runDag {I : Q → Waves S → Prop} {Φ : Q → Except WaveError (S × DAG) → Prop} {dag : DAG} {state : S}
    {depth : Nat} (herr : ∀ e, Φ q (.error (e, dag))) (hhead : π.allow q (.currentHead threadId))
    (hfail : ∀ e : TakelnError, Φ (π.next q (.currentHead threadId) (.error e : Except TakelnError (Option String)))
      (.error (e, dag)))
    (hstart : ∀ head : Option String, I (π.next q (.currentHead threadId)
      (.ok head : Except TakelnError (Option String))) (.start dag state head))
    (hbody : ∀ q v, I q v → Follows π (g.waveBody threadId cancellation v) q fun q' x => match x with
      | .ok (.next v') => I q' v'
      | .ok (.stop v') => EmitFollows π q' (.graphFinished threadId v'.runningCostEur) fun q'' =>
        Φ q'' (.ok (v'.state, v'.dag))
      | .ok (.yielded v') => Φ q' (.ok (v'.state, v'.dag))
      | .error e => Φ q' (.error e))
    (hlimit : ∀ q v e, I q v → Φ q (.error (e, v.dag))) :
    Follows π (g.runDag threadId cancellation dag state depth) q Φ := by
  unfold Graph.runDag
  dsimp only
  split
  · exact herr _
  split
  · exact herr _
  refine ⟨hhead, fun r => ?_⟩
  rcases r with e | head
  · exact hfail e
  · exact follows_runWaves hbody hlimit (hstart head)

/-- `resume_dag` follows a protocol that allows it to load, and then its run. -/
theorem follows_resumeDag {dag : DAG} {depth : Nat} {Φ : Q → Except WaveError (Option S × DAG) → Prop}
    (hload : π.allow q (.loadState threadId))
    (hidle : ∀ (r : Except TakelnError (Option (Loaded S))) x, Φ (π.next q (.loadState threadId) r) x)
    (hrun : ∀ (loaded : Loaded S) (dag : DAG), Follows π (g.runDag threadId cancellation dag loaded.state depth)
      (π.next q (.loadState threadId) (.ok (some loaded) : Except TakelnError (Option (Loaded S))))
      fun q' x => Φ q' (x.map (Prod.map some id))) :
    Follows π (g.resumeDag threadId cancellation dag depth) q Φ := by
  refine ⟨hload, fun r => ?_⟩
  rcases r with e | _ | ⟨state, info, _ | saved⟩
  · exact hidle (.error e) _
  · exact hidle (.ok none) _
  · exact hidle (.ok (some ⟨state, info, none⟩)) _
  change Follows π (ite _ _ _) _ _
  split
  · exact hidle (.ok (some ⟨state, info, some saved⟩)) _
  · rw [bind_eq, follows_bind]
    refine (hrun ⟨state, info, some saved⟩ _).mono fun q' x hx => ?_
    cases x <;> exact hx

end Loop

end Takeln
