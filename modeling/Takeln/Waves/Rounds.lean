import Takeln.Sequential.Resume
import Takeln.Waves.Follows
import Takeln.Waves.Statuses

/-!
# Rounds of the wave engine

What one round of the loop of `run_dag` can do on an in-memory checkpointer (`WaveRound`): no node is ready, it stops
at a gate, a name is unknown, the joining is broken off, or the wave is joined and then reported, saved as yielded, or
merged and saved.  A round joins at most one wave and writes at most one checkpoint, as its last operation.
-/

namespace Takeln

open Effect Effect.Prog

variable {S E α : Type}

/-! ### The waves of a run -/

/-- A wave that was launched, and what its tasks came to in the order in which they ended. -/
structure JoinedWave (S : Type) where
  tasks : List (WaveTask S)
  results : List (JoinResult S)

/-- The wave an operation joins. -/
def joinedWave : Event (ops S) → Option (JoinedWave S)
  | ⟨.joinWave tasks, results⟩ => some ⟨tasks, results⟩
  | _ => none

/-- The waves launched, in order. -/
def waves (tr : List (Event (ops S))) : List (JoinedWave S) := tr.filterMap joinedWave

@[simp] theorem waves_nil : waves ([] : List (Event (ops S))) = [] := rfl

@[simp] theorem waves_append (tr tr' : List (Event (ops S))) : waves (tr ++ tr') = waves tr ++ waves tr' :=
  List.filterMap_append ..

/-- The indices of the nodes launched, in order. -/
def launched (tr : List (Event (ops S))) : List Nat := (waves tr).flatMap fun wave => wave.tasks.map WaveTask.idx

@[simp] theorem launched_nil : launched ([] : List (Event (ops S))) = [] := rfl

@[simp] theorem launched_append (tr tr' : List (Event (ops S))) :
    launched (tr ++ tr') = launched tr ++ launched tr' := by
  simp [launched]

/-- A protocol that allows everything but waves. -/
def waveless : Protocol (ops S) Unit where
  allow _ o := ∀ tasks, o ≠ .joinWave tasks
  next _ _ _ := ()

theorem waveless_silent (max : Nat) : Silent (waveless (S := S)) () max where
  nextSeq := ⟨fun _ h => (by cases h), fun _ => rfl⟩
  send _ := ⟨fun _ h => (by cases h), rfl⟩
  record _ := ⟨fun _ h => (by cases h), rfl⟩

/-- A program without waves launches none. -/
theorem waves_of_waveless {p : Prog (ops S) E α} {W : Type} {h : Handler (ops S) W} {w : W} {u : Run (ops S) E α W}
    (hp : Follows waveless p () fun _ _ => True) (hu : exec h p w = some u) : waves u.trace = [] := by
  unfold waves
  rw [List.filterMap_eq_nil_iff]
  intro e he
  obtain ⟨pre, post, htr⟩ := List.append_of_mem he
  have hallow := hp.allow_of_exec hu htr
  obtain ⟨o, r⟩ := e
  cases o with
  | joinWave tasks => exact absurd rfl (hallow tasks)
  | _ => rfl

theorem saveThen_waveless [State S] {g : Graph S} {args : SaveArgs S} {wrap : TakelnError → E} {f : String → α} :
    Follows waveless (((g.saveChecked args).mapError wrap).bind fun id => .ret (f id)) () fun _ _ => True := by
  rw [follows_bind, follows_mapError]
  refine follows_saveChecked (fun e => trivial) ⟨fun _ h => (by cases h), fun r => ?_⟩
  cases r.bind checkpointId <;> trivial

/-! ### Joining -/

/-- How the tasks of the `n`-th wave end, in the order in which they do. -/
def Env.results (env : Env S) (n : Nat) (tasks : List (WaveTask S)) : List (JoinResult S) :=
  (env.order n tasks).1.map fun t => t.joinResult (env.outcome n t)

/-- Only launched nodes have results. -/
theorem mem_tasks_of_mem_results {env : Env S} {n idx : Nat} {tasks : List (WaveTask S)}
    {x : Except GraphError (NodeOutput S)} (h : .ok (idx, x) ∈ env.results n tasks) :
    ∃ t ∈ tasks, t.idx = idx ∧ env.outcome n t = .ok x := by
  obtain ⟨t, ht, heq⟩ := List.mem_map.1 h
  refine ⟨t, (env.order n tasks).2.mem_iff.1 ht, ?_⟩
  cases hout : env.outcome n t with
  | error panic =>
    rw [hout] at heq
    cases heq
  | ok r =>
    rw [hout] at heq
    cases heq
    exact ⟨rfl, rfl⟩

/-- If no task panics, every launched node has one result. -/
theorem resultIdx_results {env : Env S} {n : Nat} {tasks : List (WaveTask S)}
    (h : ∀ panic, .error panic ∉ env.results n tasks) :
    ((env.results n tasks).filterMap resultIdx).Perm (tasks.map WaveTask.idx) := by
  have hidx : (env.results n tasks).filterMap resultIdx = (env.order n tasks).1.map WaveTask.idx := by
    unfold Env.results at h ⊢
    rw [List.filterMap_map, ← List.filterMap_eq_map]
    refine List.filterMap_congr fun t ht => ?_
    have hout := h
    simp only [List.mem_map, not_exists, not_and] at hout
    cases hx : env.outcome n t with
    | error panic => exact absurd (by rw [hx]; rfl) (hout panic t ht)
    | ok r => simp [Function.comp_apply, hx, WaveTask.joinResult, resultIdx]
  rw [hidx]
  exact (env.order n tasks).2.map _

section Joined

variable [State S] {env : Env S} {g : Graph S} {w : World}

/-- Joining a wave records and comes to what `joinAll` says. -/
theorem exec_joinLoop {results : List (JoinResult S)} {j : Joining S} {u : Run (ops S) WaveError (Joining S) World}
    (hu : exec (memory env) (g.joinLoop results j) w = some u) : u.result = g.joinAll results j ∧ Quiet w [] u := by
  induction results generalizing j w u with
  | nil =>
    cases hu
    exact ⟨rfl, rfl, rfl, rfl⟩
  | cons res results ih =>
    rcases res with panic | ⟨idx, err | out⟩
    · cases hu
      exact ⟨rfl, rfl, rfl, rfl⟩
    · cases err with
      | yield request => exact ih hu
      | budgetExceeded spent limit =>
        cases hu
        exact ⟨rfl, rfl, rfl, rfl⟩
      | _ =>
        unfold Graph.joinLoop at hu
        cases hpolicy : g.waveFailurePolicy with
        | failFast =>
          rw [hpolicy] at hu
          cases hu
          rw [Graph.joinAll_cons_some (by simp only [Graph.refuses, hpolicy]; rfl)]
          exact ⟨rfl, rfl, rfl, rfl⟩
        | continueOnError =>
          rw [hpolicy] at hu
          rw [Graph.joinAll_cons_none (by simp only [Graph.refuses, hpolicy])]
          exact ih hu
    · unfold Graph.joinLoop at hu
      dsimp only at hu
      rw [bind_eq] at hu
      rcases exec_bind_eq_some hu with ⟨e, w₁, t₁, hrec, rfl⟩ | ⟨_, w₁, t₁, u₁, hrec, hu₁, rfl⟩
      · cases (exec_record hrec).1
      have hq := (exec_record hrec).2.1
      -- the budget of the node is looked at after the record is written
      cases hlimit : exceeded (g.effectiveNodeBudget (j.dag.stepType idx)) out.info.cost with
      | some limit =>
        rw [hlimit] at hu₁
        cases hu₁
        rw [Graph.joinAll_cons_some (by simp only [Graph.refuses, hlimit]; rfl)]
        exact ⟨rfl, hq.store, by simpa [Run.after] using hq.writes, by simpa [Run.after] using hq.executions⟩
      | none =>
        rw [hlimit] at hu₁
        rw [Graph.joinAll_cons_none (by simp only [Graph.refuses, hlimit]; rfl)]
        obtain ⟨hres, hq₁⟩ := ih hu₁
        exact ⟨hres, hq.after hq₁⟩

omit [State S] in
theorem joinLoop_waveless (results : List (JoinResult S)) (j : Joining S) :
    Follows waveless (g.joinLoop results j) () fun _ _ => True :=
  follows_joinLoop (waveless_silent _).nodes trivial

end Joined

/-! ### One round -/

namespace Waves

variable (v : Waves S) (threadId : String) (cancellation : Bool)

/-- The tasks of the next wave. -/
def tasks : List (WaveTask S) :=
  (v.dag.ready v.completed).map fun idx => ⟨idx, threadId, v.dag.stepType idx, v.state, cancellation⟩

/-- The next wave, if it is the `n`-th one. -/
def wave (env : Env S) (n : Nat) : JoinedWave S :=
  ⟨v.tasks threadId cancellation, env.results n (v.tasks threadId cancellation)⟩

theorem map_idx_tasks : (v.tasks threadId cancellation).map WaveTask.idx = v.dag.ready v.completed := by
  unfold tasks
  rw [List.map_map]
  exact List.map_id _

end Waves

section Round

variable [State S] [Merge S] (env : Env S) (g : Graph S) (threadId : String) (cancellation : Bool)

/-- The loop stops before the next wave. -/
def Graph.WaveGated (v : Waves S) : Prop :=
  v.isFirstWave = false ∧ ∃ idx ∈ v.dag.ready v.completed, v.dag.stepType idx ∈ g.interruptBefore

/-- The loop launches the next wave. -/
def Graph.Launches (v : Waves S) : Prop :=
  v.dag.ready v.completed ≠ [] ∧ ¬ g.WaveGated v ∧ ∀ idx ∈ v.dag.ready v.completed, g.registered (v.dag.stepType idx)

/-- What joining the next wave comes to, if it is the `n`-th one. -/
def Graph.joining (v : Waves S) (n : Nat) : Except WaveError (Joining S) :=
  g.joinAll (v.wave threadId cancellation env n).results
    { dag := v.dag.setStatuses (v.dag.ready v.completed) .running, completed := v.completed }

/-- What a round can do in the loop state `v` and the world `w`. -/
inductive WaveRound (v : Waves S) (w : World) (u : Run (ops S) WaveError (WaveFlow S) World) : Prop
  | ended (hready : v.dag.ready v.completed = []) (hpending : v.dag.namesOf [.pending] = [])
      (hres : u.result = .ok (.stop v)) (hquiet : Quiet w [] u) (hwaves : waves u.trace = [])
  | deadlocked (hready : v.dag.ready v.completed = []) (hpending : v.dag.namesOf [.pending] ≠ [])
      (hres : u.result = .error (.dagDeadlock (", ".intercalate (v.dag.namesOf [.pending])), v.dag))
      (hquiet : Quiet w [] u) (hwaves : waves u.trace = [])
  | gated (val : Value) (id : String) (hready : v.dag.ready v.completed ≠ []) (hgate : g.WaveGated v)
      (hval : g.Savable v.state val) (hres : u.result = .ok (.stop v))
      (hsaves : Saves env w [] (Graph.waveSave threadId v v.dag v.state
        (",".intercalate ((v.dag.ready v.completed).map v.dag.stepType)) .interrupted none) val id u)
      (hwaves : waves u.trace = [])
  | gateFailed (e : TakelnError) (hgate : g.WaveGated v) (hval : g.saveError v.state = some e)
      (hres : u.result = .error (e, v.dag)) (hquiet : Quiet w [] u) (hwaves : waves u.trace = [])
  | unregistered (idx : Nat) (hgate : ¬ g.WaveGated v)
      (hfind : (v.dag.ready v.completed).find? (fun idx => ¬ g.registered (v.dag.stepType idx)) = some idx)
      (hres : u.result = .error (.nodeNotFound (v.dag.stepType idx),
        v.dag.setStatuses (v.dag.ready v.completed) .running))
      (hquiet : Quiet w [] u) (hwaves : waves u.trace = [])
  | brokenOff (e : WaveError) (hlaunch : g.Launches v)
      (hjoin : g.joining env threadId cancellation v w.waves = .error e) (hres : u.result = .error e)
      (hquiet : Quiet w [] u) (hwaves : waves u.trace = [v.wave threadId cancellation env w.waves])
  | failed (j : Joining S) (hlaunch : g.Launches v)
      (hjoin : g.joining env threadId cancellation v w.waves = .ok j) (hfailed : j.waveFailed ≠ [])
      (hres : u.result = .error (.partialWaveFailure j.waveSucceeded j.waveFailed, j.dag)) (hquiet : Quiet w [] u)
      (hwaves : waves u.trace = [v.wave threadId cancellation env w.waves])
  | yielded (j : Joining S) (val : Value) (id : String) (hlaunch : g.Launches v)
      (hjoin : g.joining env threadId cancellation v w.waves = .ok j) (hfailed : j.waveFailed = [])
      (hyield : j.hasYielded = true) (hval : g.Savable v.state val)
      (hres : u.result = .ok (.yielded { v with dag := j.dag }))
      (hsaves : Saves env w [] (Graph.waveSave threadId v j.dag v.state
        (",".intercalate (j.dag.namesOf [.yielded, .pending])) .yielded j.latestYieldRequest) val id u)
      (hwaves : waves u.trace = [v.wave threadId cancellation env w.waves])
  | yieldFailed (j : Joining S) (e : TakelnError) (hlaunch : g.Launches v)
      (hjoin : g.joining env threadId cancellation v w.waves = .ok j) (hfailed : j.waveFailed = [])
      (hyield : j.hasYielded = true) (hval : g.saveError v.state = some e) (hres : u.result = .error (e, j.dag))
      (hquiet : Quiet w [] u) (hwaves : waves u.trace = [v.wave threadId cancellation env w.waves])
  | completed (j : Joining S) (val : Value) (id : String) (hlaunch : g.Launches v)
      (hjoin : g.joining env threadId cancellation v w.waves = .ok j) (hfailed : j.waveFailed = [])
      (hyield : j.hasYielded = false) (haff : exceeded g.budgetEur (v.runningCostEur + j.waveCost) = none)
      (hval : g.Savable (mergeWave v.state j.waveStates) val)
      (hres : u.result = .ok (if ∃ idx ∈ v.dag.ready v.completed, v.dag.stepType idx ∈ g.interruptAfter then
          .stop (v.afterSave j (mergeWave v.state j.waveStates) id)
        else .next (v.afterSave j (mergeWave v.state j.waveStates) id)))
      (hsaves : Saves env w [] (Graph.waveSave threadId v j.dag (mergeWave v.state j.waveStates)
        ((j.dag.namesOf [.pending]).head?.getD "__END__") .complete none) val id u)
      (hwaves : waves u.trace = [v.wave threadId cancellation env w.waves])
  | completeFailed (j : Joining S) (e : TakelnError) (hlaunch : g.Launches v)
      (hjoin : g.joining env threadId cancellation v w.waves = .ok j) (hfailed : j.waveFailed = [])
      (hyield : j.hasYielded = false)
      (hno : (∃ limit, exceeded g.budgetEur (v.runningCostEur + j.waveCost) = some limit ∧
          e = .budgetExceeded (v.runningCostEur + j.waveCost) limit) ∨
        exceeded g.budgetEur (v.runningCostEur + j.waveCost) = none ∧
          g.saveError (mergeWave v.state j.waveStates) = some e)
      (hres : u.result = .error (e, j.dag)) (hquiet : Quiet w [] u)
      (hwaves : waves u.trace = [v.wave threadId cancellation env w.waves])

variable {env g threadId cancellation} {v : Waves S} {w : World}

/-- After a wave that was joined. -/
private theorem exec_afterJoin {ready : List Nat} {j : Joining S} {u : Run (ops S) WaveError (WaveFlow S) World}
    (hu : exec (memory env) (g.afterJoin threadId v ready j) w = some u) :
    waves u.trace = [] ∧
    ((j.waveFailed ≠ [] ∧ u.result = .error (.partialWaveFailure j.waveSucceeded j.waveFailed, j.dag) ∧ Quiet w [] u) ∨
      j.waveFailed = [] ∧ j.hasYielded = true ∧
        ((∃ val id, g.Savable v.state val ∧ u.result = .ok (.yielded { v with dag := j.dag }) ∧
          Saves env w [] (Graph.waveSave threadId v j.dag v.state
            (",".intercalate (j.dag.namesOf [.yielded, .pending])) .yielded j.latestYieldRequest) val id u) ∨
        ∃ e, g.saveError v.state = some e ∧ u.result = .error (e, j.dag) ∧ Quiet w [] u) ∨
      j.waveFailed = [] ∧ j.hasYielded = false ∧
        ((∃ val id, exceeded g.budgetEur (v.runningCostEur + j.waveCost) = none ∧
          g.Savable (mergeWave v.state j.waveStates) val ∧
          u.result = .ok (if ∃ idx ∈ ready, j.dag.stepType idx ∈ g.interruptAfter then
              .stop (v.afterSave j (mergeWave v.state j.waveStates) id)
            else .next (v.afterSave j (mergeWave v.state j.waveStates) id)) ∧
          Saves env w [] (Graph.waveSave threadId v j.dag (mergeWave v.state j.waveStates)
            ((j.dag.namesOf [.pending]).head?.getD "__END__") .complete none) val id u) ∨
        ∃ e, ((∃ limit, exceeded g.budgetEur (v.runningCostEur + j.waveCost) = some limit ∧
            e = .budgetExceeded (v.runningCostEur + j.waveCost) limit) ∨
          exceeded g.budgetEur (v.runningCostEur + j.waveCost) = none ∧
            g.saveError (mergeWave v.state j.waveStates) = some e) ∧
          u.result = .error (e, j.dag) ∧ Quiet w [] u)) := by
  unfold Graph.afterJoin at hu
  split at hu
  · rename_i hfailed
    cases hu
    exact ⟨rfl, Or.inl ⟨hfailed, rfl, rfl, rfl, rfl⟩⟩
  rename_i hfailed
  replace hfailed : j.waveFailed = [] := not_not.1 hfailed
  split at hu
  · rename_i hyield
    -- a yield is saved with the state from before the wave
    refine ⟨waves_of_waveless saveThen_waveless hu, Or.inr (Or.inl ⟨hfailed, hyield, ?_⟩)⟩
    rcases exec_saveThen hu with ⟨val, id, hval, hres, hsaves⟩ | ⟨⟨e, herr, hres⟩, _, hq⟩
    · exact Or.inl ⟨val, id, hval, hres, hsaves⟩
    · exact Or.inr ⟨e, herr, hres, hq⟩
  rename_i hyield
  replace hyield : j.hasYielded = false := Bool.eq_false_iff.2 hyield
  dsimp only at hu
  split at hu
  · rename_i limit hlimit
    cases hu
    exact ⟨rfl, Or.inr (Or.inr ⟨hfailed, hyield, Or.inr ⟨_, Or.inl ⟨limit, hlimit, rfl⟩, rfl, rfl, rfl, rfl⟩⟩)⟩
  · rename_i haff
    -- the wave is merged and saved
    refine ⟨waves_of_waveless saveThen_waveless hu, Or.inr (Or.inr ⟨hfailed, hyield, ?_⟩)⟩
    rcases exec_saveThen hu with ⟨val, id, hval, hres, hsaves⟩ | ⟨⟨e, herr, hres⟩, _, hq⟩
    · exact Or.inl ⟨val, id, haff, hval, hres, hsaves⟩
    · exact Or.inr ⟨e, Or.inr ⟨haff, herr⟩, hres, hq⟩

omit [State S] [Merge S] in
theorem launched_of_waves_nil {tr : List (Event (ops S))} (h : waves tr = []) : launched tr = [] := by
  simp [launched, h]

omit [State S] [Merge S] in
/-- A wave launches the ready nodes. -/
theorem launched_of_wave {n : Nat} {tr : List (Event (ops S))} (h : waves tr = [v.wave threadId cancellation env n]) :
    launched tr = v.dag.ready v.completed := by
  simp only [launched, h, List.flatMap_cons, List.flatMap_nil, List.append_nil]
  exact v.map_idx_tasks threadId cancellation

omit [State S] [Merge S] in
/-- A wave that was joined has taken over all of its results. -/
theorem joined_of_joining {n : Nat} {j : Joining S} (h : g.joining env threadId cancellation v n = .ok j) :
    j = joined v.dag v.completed (v.wave threadId cancellation env n).results ∧
      ((v.wave threadId cancellation env n).results.filterMap resultIdx).Perm (v.dag.ready v.completed) := by
  obtain ⟨hj, hpanic⟩ := Graph.joinAll_eq_ok h
  refine ⟨hj, ?_⟩
  rw [← v.map_idx_tasks threadId cancellation]
  exact resultIdx_results hpanic

/-- A round of the loop does what `WaveRound` says. -/
theorem waveRound_of_exec {u : Run (ops S) WaveError (WaveFlow S) World}
    (hu : exec (memory env) (g.waveBody threadId cancellation v) w = some u) :
    WaveRound env g threadId cancellation v w u := by
  unfold Graph.waveBody at hu
  dsimp only at hu
  split at hu
  · rename_i hready
    split at hu
    · rename_i hpending
      cases hu
      exact .deadlocked hready hpending rfl ⟨rfl, rfl, rfl⟩ rfl
    · rename_i hpending
      cases hu
      exact .ended hready (not_not.1 hpending) rfl ⟨rfl, rfl, rfl⟩ rfl
  rename_i hready
  split at hu
  · rename_i hgate
    have hwaves := waves_of_waveless saveThen_waveless hu
    rcases exec_saveThen hu with ⟨val, id, hval, hres, hsaves⟩ | ⟨⟨e, herr, hres⟩, _, hq⟩
    · exact .gated val id hready hgate hval hres hsaves hwaves
    · exact .gateFailed e hgate herr hres hq hwaves
  rename_i hgate
  unfold Graph.launch at hu
  simp only [DAG.stepType_setStatuses] at hu
  split at hu
  · rename_i idx hfind
    cases hu
    exact .unregistered idx hgate hfind rfl ⟨rfl, rfl, rfl⟩ rfl
  rename_i hfind
  have hlaunch : g.Launches v := ⟨hready, hgate, by simpa using List.find?_eq_none.1 hfind⟩
  obtain ⟨results, w₁, u₁, hjoin, hu₁, rfl⟩ := exec_perform_eq_some.1 hu
  cases hjoin
  change exec _ ((g.joinLoop _ _).bind _) _ = _ at hu₁
  rcases exec_bind_eq_some hu₁ with ⟨e, w₂, t₂, hloop, rfl⟩ | ⟨j, w₂, t₂, u₂, hloop, hu₂, rfl⟩
  · have ⟨hres, hq⟩ := exec_joinLoop hloop
    have hwaves := waves_of_waveless (joinLoop_waveless _ _) hloop
    refine .brokenOff e hlaunch hres.symm rfl ?_ ?_
    · exact ⟨hq.store, hq.writes, hq.executions⟩
    · exact congrArg _ hwaves
  · have ⟨hres, hq⟩ := exec_joinLoop hloop
    have hwaves := waves_of_waveless (joinLoop_waveless _ _) hloop
    have hjoin : g.joining env threadId cancellation v w.waves = .ok j := hres.symm
    have hstep (idx : Nat) : j.dag.stepType idx = v.dag.stepType idx := by
      rw [(joined_of_joining hjoin).1, joined, Joining.stepType_addAll, DAG.stepType_setStatuses]
    -- the wave itself, and then the joining
    set e₁ : Event (ops S) :=
      ⟨.joinWave (v.tasks threadId cancellation), (v.wave threadId cancellation env w.waves).results⟩
    have hq₁ : Quiet w [] (⟨.ok j, w₂, e₁ :: t₂⟩ : Run (ops S) WaveError (Joining S) World) :=
      ⟨hq.store, hq.writes, hq.executions⟩
    obtain ⟨hwaves₂, h⟩ := exec_afterJoin hu₂
    simp only [hstep] at h
    have hall : waves (e₁ :: (t₂ ++ u₂.trace)) = [v.wave threadId cancellation env w.waves] := by
      rw [← List.singleton_append, waves_append, waves_append, hwaves, hwaves₂]
      rfl
    rcases h with ⟨hfailed, hres, hq₂⟩ | ⟨hfailed, hyield, ⟨val, id, hval, hres, hsaves⟩ | ⟨e, hval, hres, hq₂⟩⟩ |
      ⟨hfailed, hyield, ⟨val, id, haff, hval, hres, hsaves⟩ | ⟨e, hno, hres, hq₂⟩⟩
    · exact .failed j hlaunch hjoin hfailed hres (hq₁.after hq₂) hall
    · exact .yielded j val id hlaunch hjoin hfailed hyield hval hres (Saves.after hq₁ hsaves) hall
    · exact .yieldFailed j e hlaunch hjoin hfailed hyield hval hres (hq₁.after hq₂) hall
    · exact .completed j val id hlaunch hjoin hfailed hyield haff hval hres (Saves.after hq₁ hsaves) hall
    · exact .completeFailed j e hlaunch hjoin hfailed hyield hno hres (hq₁.after hq₂) hall

section Loop

variable {W : Type} {h : Handler (ops S) W} {w w' : W} {v' : Waves S} {k : Nat} {tr : List (Event (ops S))}

/-- The loop ends with a round that stops it, and the end of the graph is broadcast. -/
theorem exec_runWaves_stop {w w' : World} (hbody : exec (memory env) (g.waveBody threadId cancellation v) w =
      some ⟨.ok (.stop v'), w', tr⟩) :
    ∃ tr', exec (memory env) (g.runWaves threadId cancellation (k + 1) v) w =
        some ⟨.ok (v'.state, v'.dag), { w' with seq := w'.seq + 1 }, tr ++ tr'⟩ ∧
      writes tr' = [] ∧ waves tr' = [] := by
  rw [Graph.runWaves, bind_eq, exec_bind_ok hbody]
  exact ⟨_, rfl, rfl, rfl⟩

/-- The loop goes on after a round that does not stop it. -/
theorem exec_runWaves_next (hbody : exec h (g.waveBody threadId cancellation v) w = some ⟨.ok (.next v'), w', tr⟩) :
    exec h (g.runWaves threadId cancellation (k + 1) v) w =
      (exec h (g.runWaves threadId cancellation k v') w').map (Run.after tr) := by
  rw [Graph.runWaves, bind_eq, exec_bind_ok hbody]

/-- The loop fails with a round that fails. -/
theorem exec_runWaves_fail {e : WaveError}
    (hbody : exec h (g.waveBody threadId cancellation v) w = some ⟨.error e, w', tr⟩) :
    exec h (g.runWaves threadId cancellation (k + 1) v) w = some ⟨.error e, w', tr⟩ := by
  rw [Graph.runWaves, bind_eq, exec_bind_error hbody]

end Loop

/-- The loop does a round and goes on as the round says. -/
theorem runWaves_split {k : Nat} {u : Run (ops S) WaveError (S × DAG) World}
    (hu : exec (memory env) (g.runWaves threadId cancellation (k + 1) v) w = some u) :
    ∃ u₁, exec (memory env) (g.waveBody threadId cancellation v) w = some u₁ ∧
      ((∃ e, u₁.result = .error e ∧ u = ⟨.error e, u₁.world, u₁.trace⟩) ∨
        (∃ v' tr, u₁.result = .ok (.stop v') ∧
          u = ⟨.ok (v'.state, v'.dag), { u₁.world with seq := u₁.world.seq + 1 }, u₁.trace ++ tr⟩ ∧
          tr = [⟨.nextSeq, u₁.world.seq⟩, ⟨.send (.graphFinished threadId v'.runningCostEur u₁.world.seq), ()⟩]) ∨
        (∃ v', u₁.result = .ok (.yielded v') ∧ u = ⟨.ok (v'.state, v'.dag), u₁.world, u₁.trace⟩) ∨
        ∃ v' u₂, u₁.result = .ok (.next v') ∧
          exec (memory env) (g.runWaves threadId cancellation k v') u₁.world = some u₂ ∧ u = u₂.after u₁.trace) := by
  rw [Graph.runWaves, bind_eq] at hu
  rcases exec_bind_eq_some hu with ⟨e, w₁, t₁, hbody, rfl⟩ | ⟨flow, w₁, t₁, u₂, hbody, hu₂, rfl⟩
  · exact ⟨_, hbody, Or.inl ⟨e, rfl, rfl⟩⟩
  refine ⟨_, hbody, Or.inr ?_⟩
  cases flow with
  | stop v' =>
    cases hu₂
    exact Or.inl ⟨v', _, rfl, rfl, rfl⟩
  | yielded v' =>
    cases hu₂
    exact Or.inr (Or.inl ⟨v', rfl, by simp [Run.after]⟩)
  | next v' => exact Or.inr (Or.inr ⟨v', u₂, rfl, hu₂, rfl⟩)

theorem runWaves_cases {k : Nat} {u : Run (ops S) WaveError (S × DAG) World}
    (hu : exec (memory env) (g.runWaves threadId cancellation (k + 1) v) w = some u) :
    ∃ u₁, WaveRound env g threadId cancellation v w u₁ ∧
      ((∃ e, u₁.result = .error e ∧ u = ⟨.error e, u₁.world, u₁.trace⟩) ∨
        (∃ v' tr, u₁.result = .ok (.stop v') ∧
          u = ⟨.ok (v'.state, v'.dag), { u₁.world with seq := u₁.world.seq + 1 }, u₁.trace ++ tr⟩ ∧
          tr = [⟨.nextSeq, u₁.world.seq⟩, ⟨.send (.graphFinished threadId v'.runningCostEur u₁.world.seq), ()⟩]) ∨
        (∃ v', u₁.result = .ok (.yielded v') ∧ u = ⟨.ok (v'.state, v'.dag), u₁.world, u₁.trace⟩) ∨
        ∃ v' u₂, u₁.result = .ok (.next v') ∧
          exec (memory env) (g.runWaves threadId cancellation k v') u₁.world = some u₂ ∧ u = u₂.after u₁.trace) := by
  obtain ⟨u₁, hbody, hrest⟩ := runWaves_split hu
  exact ⟨u₁, waveRound_of_exec hbody, hrest⟩

omit [State S] [Merge S] in
theorem statusAt_of_joining_error {n k : Nat} {e : TakelnError} {dag : DAG}
    (h : g.joining env threadId cancellation v n = .error (e, dag)) (hk : k ∉ v.dag.ready v.completed) :
    dag.statusAt k = v.dag.statusAt k := by
  obtain ⟨pre, res, post, hresults, hrefuses⟩ := Graph.joinAll_eq_error h
  have hmem (x : Except GraphError (NodeOutput S)) : .ok (k, x) ∉ (v.wave threadId cancellation env n).results := by
    intro hx
    obtain ⟨t, ht, rfl, _⟩ := mem_tasks_of_mem_results hx
    refine hk ?_
    rw [← v.map_idx_tasks threadId cancellation]
    exact List.mem_map_of_mem ht
  rw [hresults] at hmem
  rw [Graph.statusAt_of_refuses hrefuses, Joining.statusAt_addAll_of_notMem, DAG.statusAt_setStatuses, if_neg hk]
  · intro x hx
    exact hmem x (List.mem_append_left _ hx)
  · rintro x rfl
    exact hmem x (by simp)

omit [State S] [Merge S] in
theorem statusAt_of_joining_ok {n k : Nat} {j : Joining S}
    (h : g.joining env threadId cancellation v n = .ok j) (hk : k ∉ v.dag.ready v.completed) :
    j.dag.statusAt k = v.dag.statusAt k := by
  obtain ⟨hj, hperm⟩ := joined_of_joining h
  rw [hj]
  exact statusAt_joined_of_notMem hperm hk

/-- The loop state a round goes on or stops with. -/
def WaveFlow.waves : WaveFlow S → Waves S
  | next v => v
  | stop v => v
  | yielded v => v

/-- A round launches ready nodes only, and leaves the status of every other node alone. -/
theorem WaveRound.frame {u : Run (ops S) WaveError (WaveFlow S) World}
    (h : WaveRound env g threadId cancellation v w u) {k : Nat} (hk : k ∉ v.dag.ready v.completed) :
    k ∉ launched u.trace ∧ (∀ flow, u.result = .ok flow → flow.waves.dag.statusAt k = v.dag.statusAt k) ∧
      ∀ e dag, u.result = .error (e, dag) → dag.statusAt k = v.dag.statusAt k := by
  have idle (hwaves : Takeln.waves u.trace = []) : k ∉ launched u.trace := by
    rw [launched_of_waves_nil hwaves]
    exact List.not_mem_nil
  have busy {n : Nat} (hwaves : Takeln.waves u.trace = [v.wave threadId cancellation env n]) :
    k ∉ launched u.trace := by
    rwa [launched_of_wave hwaves]
  have ends {x : Except WaveError (WaveFlow S)} (hres : u.result = x)
      (hok : ∀ flow, x = .ok flow → flow.waves.dag.statusAt k = v.dag.statusAt k)
      (herr : ∀ e dag, x = .error (e, dag) → dag.statusAt k = v.dag.statusAt k) :
      (∀ flow, u.result = .ok flow → flow.waves.dag.statusAt k = v.dag.statusAt k) ∧
        ∀ e dag, u.result = .error (e, dag) → dag.statusAt k = v.dag.statusAt k := by
    subst hres
    exact ⟨hok, herr⟩
  cases h with
  | ended _ _ hres _ hwaves =>
    exact ⟨idle hwaves, ends hres (by rintro _ ⟨⟩; rfl) (by rintro _ _ ⟨⟩)⟩
  | deadlocked _ _ hres _ hwaves =>
    exact ⟨idle hwaves, ends hres (by rintro _ ⟨⟩) (by rintro _ _ ⟨⟩; rfl)⟩
  | gated _ _ _ _ _ hres _ hwaves =>
    exact ⟨idle hwaves, ends hres (by rintro _ ⟨⟩; rfl) (by rintro _ _ ⟨⟩)⟩
  | gateFailed _ _ _ hres _ hwaves =>
    exact ⟨idle hwaves, ends hres (by rintro _ ⟨⟩) (by rintro _ _ ⟨⟩; rfl)⟩
  | unregistered _ _ _ hres _ hwaves =>
    refine ⟨idle hwaves, ends hres (by rintro _ ⟨⟩) ?_⟩
    rintro _ _ ⟨⟩
    rw [DAG.statusAt_setStatuses, if_neg hk]
  | brokenOff _ _ hjoin hres _ hwaves =>
    refine ⟨busy hwaves, ends hres (by rintro _ ⟨⟩) ?_⟩
    rintro _ _ ⟨⟩
    exact statusAt_of_joining_error hjoin hk
  | failed _ _ hjoin _ hres _ hwaves =>
    refine ⟨busy hwaves, ends hres (by rintro _ ⟨⟩) ?_⟩
    rintro _ _ ⟨⟩
    exact statusAt_of_joining_ok hjoin hk
  | yielded _ _ _ _ hjoin _ _ _ hres _ hwaves =>
    refine ⟨busy hwaves, ends hres ?_ (by rintro _ _ ⟨⟩)⟩
    rintro _ ⟨⟩
    exact statusAt_of_joining_ok hjoin hk
  | yieldFailed _ _ _ hjoin _ _ _ hres _ hwaves =>
    refine ⟨busy hwaves, ends hres (by rintro _ ⟨⟩) ?_⟩
    rintro _ _ ⟨⟩
    exact statusAt_of_joining_ok hjoin hk
  | completed _ _ _ _ hjoin _ _ _ _ hres _ hwaves =>
    refine ⟨busy hwaves, ends hres ?_ (by rintro _ _ ⟨⟩)⟩
    rintro _ ⟨⟩
    split <;> exact statusAt_of_joining_ok hjoin hk
  | completeFailed _ _ _ hjoin _ _ _ hres _ hwaves =>
    refine ⟨busy hwaves, ends hres (by rintro _ ⟨⟩) ?_⟩
    rintro _ _ ⟨⟩
    exact statusAt_of_joining_ok hjoin hk

/-- The loop goes on only after a wave that was merged and saved. -/
theorem WaveRound.of_next {u : Run (ops S) WaveError (WaveFlow S) World} {v' : Waves S}
    (h : WaveRound env g threadId cancellation v w u) (hres : u.result = .ok (.next v')) :
    ∃ j id, g.Launches v ∧ g.joining env threadId cancellation v w.waves = .ok j ∧
      v' = v.afterSave j (mergeWave v.state j.waveStates) id ∧
      ∃ args, Takeln.writes u.trace = [args] ∧ args.status = .complete := by
  cases h with
  | completed j val id hlaunch hjoin _ _ _ _ hres' hsaves =>
    have hflow := hres'.symm.trans hres
    split at hflow
    · cases hflow
    · cases hflow
      exact ⟨j, id, hlaunch, hjoin, rfl, _, hsaves.writes, rfl⟩
  | ended _ _ hres' => cases hres'.symm.trans hres
  | deadlocked _ _ hres' => cases hres'.symm.trans hres
  | gated _ _ _ _ _ hres' => cases hres'.symm.trans hres
  | gateFailed _ _ _ hres' => cases hres'.symm.trans hres
  | unregistered _ _ _ hres' => cases hres'.symm.trans hres
  | brokenOff _ _ _ hres' => cases hres'.symm.trans hres
  | failed _ _ _ _ hres' => cases hres'.symm.trans hres
  | yielded _ _ _ _ _ _ _ _ hres' => cases hres'.symm.trans hres
  | yieldFailed _ _ _ _ _ _ _ hres' => cases hres'.symm.trans hres
  | completeFailed _ _ _ _ _ _ _ hres' => cases hres'.symm.trans hres

/-! ### Runs -/

/-- `run_dag` refuses a run that is too deep or a DAG that is too large; otherwise it reads the head and loops. -/
theorem runDag_cases {dag : DAG} {state : S} {depth : Nat} {u : Run (ops S) WaveError (S × DAG) World}
    (hu : exec (memory env) (g.runDag threadId cancellation dag state depth) w = some u) :
    (8 < depth ∧ u = ⟨.error (.recursionLimitExceeded depth 8, dag), w, []⟩) ∨
      (g.resourceLimits.maxDagNodes < dag.nodes.length ∧ ∃ msg, u = ⟨.error (.executionError msg, dag), w, []⟩) ∨
      ∃ u₁, depth ≤ 8 ∧ dag.nodes.length ≤ g.resourceLimits.maxDagNodes ∧
        exec (memory env) (g.runWaves threadId cancellation (dag.nodes.length + 1) (.start dag state none))
          w = some u₁ ∧
        u = u₁.after [(⟨.currentHead threadId, .ok none⟩ : Event (ops S))] := by
  unfold Graph.runDag at hu
  dsimp only at hu
  split at hu
  · rename_i hdepth
    cases hu
    exact Or.inl ⟨hdepth, rfl⟩
  rename_i hdepth
  split at hu
  · rename_i hsize
    cases hu
    exact Or.inr (Or.inl ⟨hsize, _, rfl⟩)
  rename_i hsize
  obtain ⟨r, w₁, u₁, hr, hu₁, rfl⟩ := exec_perform_eq_some.1 hu
  cases hr
  exact Or.inr (Or.inr ⟨u₁, by omega, by omega, hu₁, rfl⟩)

theorem exec_runDag {dag : DAG} {state : S} {depth : Nat} {u : Run (ops S) WaveError (S × DAG) World}
    (hdepth : depth ≤ 8) (hsize : dag.nodes.length ≤ g.resourceLimits.maxDagNodes)
    (hu : exec (memory env) (g.runWaves threadId cancellation (dag.nodes.length + 1) (.start dag state none))
      w = some u) :
    exec (memory env) (g.runDag threadId cancellation dag state depth) w =
      some (u.after [(⟨.currentHead threadId, .ok none⟩ : Event (ops S))]) := by
  unfold Graph.runDag
  dsimp only
  rw [if_neg (by omega), if_neg (by omega)]
  exact congrArg (Option.map (Run.after [(⟨.currentHead threadId, .ok none⟩ : Event (ops S))])) hu

/-- `resume_dag` of a checkpoint that is not `Running` runs the DAG with the statuses of the snapshot. -/
theorem resumeDag_of_loaded {dag saved : DAG} {state : S} {info : CheckpointMeta} {depth : Nat}
    {u : Run (ops S) WaveError (Option S × DAG) World}
    (hload : w.store.loadState threadId = .ok (some ⟨state, info, some saved⟩)) (hinfo : info.status ≠ .running)
    (hu : exec (memory env) (g.resumeDag threadId cancellation dag depth) w = some u) :
    ∃ u₁, exec (memory env) (g.runDag threadId cancellation (dag.restoreStatuses saved) state depth) w = some u₁ ∧
      u.result = u₁.result.map (Prod.map some id) ∧ u.world = u₁.world ∧
      u.trace = (⟨.loadState threadId, .ok (some ⟨state, info, some saved⟩)⟩ : Event (ops S)) :: u₁.trace := by
  have hl : exec (memory env) ((loadState threadId : Prog (ops S) TakelnError (Option (Loaded S))).mapError
    (·, dag)) w =
      some ⟨.ok (some ⟨state, info, some saved⟩), w,
        [⟨.loadState threadId, .ok (some ⟨state, info, some saved⟩)⟩]⟩ := by
    rw [exec_mapError, exec_loadState, hload]
    rfl
  unfold Graph.resumeDag at hu
  rw [bind_eq, exec_bind_ok hl] at hu
  obtain ⟨u₁, hu₁, rfl⟩ := Option.map_eq_some_iff.1 hu
  simp only [hinfo, false_and, if_false] at hu₁
  rcases exec_bind_eq_some hu₁ with ⟨e, w₂, t₂, hrun, rfl⟩ | ⟨⟨final, dag'⟩, w₂, t₂, u₂, hrun, hu₂, rfl⟩
  · exact ⟨_, hrun, rfl, rfl, rfl⟩
  · cases hu₂
    exact ⟨_, hrun, rfl, rfl, by simp [Run.after]⟩

end Round

end Takeln
