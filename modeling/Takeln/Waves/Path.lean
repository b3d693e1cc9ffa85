import Takeln.Waves.Scheduler

/-!
# Paths of waves

Where nodes succeed and depend only on the state, `run_dag` walks one path from a DAG and a state
(`Graph.WavePath`), and the state and the snapshot that a checkpoint holds are a point of it.  A call that is stopped
right after a write has walked a part of the path, and the thread stands at its end (`wavePath_of_reaches`); a call
that comes to its end has walked the rest (`wavePath_of_exec`).  What it may spend on the way is `Graph.WaveSolvent`.
-/

namespace Takeln

open Effect Effect.Prog

variable {S α : Type} {env : Env S} {g : Graph S} {threadId : String} {cancellation : Bool} {w w' : World}
  {node : String → S → NodeOutput S} {v : Waves S} {dag dag' dag'' : DAG} {s s' s'' : S} {ws ws' : List (List Nat)}

/-! ### What a wave comes to -/

/-- What a task returns, if the functions of the nodes depend only on the state. -/
def onState (node : String → S → NodeOutput S) (t : WaveTask S) : NodeOutput S := node t.nodeName t.state

/-- Every node of a wave succeeds, and what it returns depends only on its state. -/
def Env.WaveSucceeds (env : Env S) (node : String → S → NodeOutput S) : Prop := ∀ n, env.AllSucceed n (onState node)

namespace DAG

/-- The state after the next wave of a DAG, which starts in `s`. -/
def merged [Merge S] (dag : DAG) (node : String → S → NodeOutput S) (s : S) : S :=
  mergeWave s (dag.wave.map fun k => (k, (node (dag.stepType k) s).state))

/-- The tasks of the next wave. -/
def tasks (dag : DAG) (threadId : String) (cancellation : Bool) (s : S) : List (WaveTask S) :=
  dag.wave.map fun k => ⟨k, threadId, dag.stepType k, s, cancellation⟩

/-- What the next wave costs, if it is the `n`-th one: its costs are added up in the order in which its nodes end. -/
def cost (dag : DAG) (env : Env S) (threadId : String) (cancellation : Bool) (node : String → S → NodeOutput S)
    (n : Nat) (s : S) : Eur :=
  ((env.order n (dag.tasks threadId cancellation s)).1.map fun t => (onState node t).info.cost).foldl (· + ·) 0

end DAG

theorem tasks_eq (hv : v.Synced) : v.tasks threadId cancellation = v.dag.tasks threadId cancellation v.state := by
  unfold Waves.tasks DAG.tasks
  rw [hv.ready_eq]

theorem merged_onState [Merge S] (hv : v.Synced) :
    v.merged threadId cancellation (onState node) = v.dag.merged node v.state := by
  unfold Waves.merged Waves.outputs Waves.tasks
  rw [List.map_map, hv.ready_eq]
  rfl

theorem cost_onState (hv : v.Synced) (n : Nat) : v.cost env n threadId cancellation (onState node) =
    v.dag.cost env threadId cancellation node n v.state := by
  unfold Waves.cost DAG.cost
  rw [tasks_eq hv]

theorem nodesAfford_onState (hv : v.Synced) : g.NodesAfford v threadId cancellation (onState node) ↔
    ∀ k ∈ v.dag.wave, exceeded (g.effectiveNodeBudget (v.dag.stepType k))
      (node (v.dag.stepType k) v.state).info.cost = none := by
  unfold Graph.NodesAfford Waves.tasks
  rw [hv.ready_eq]
  exact List.forall_mem_map

variable [State S] [Merge S]

/-! ### Paths -/

/-- From `dag` in the state `s` the graph executes the waves `ws` and is then at `dag'` in the state `s'`. -/
inductive Graph.WavePath (g : Graph S) (node : String → S → NodeOutput S) :
    DAG → S → List (List Nat) → DAG → S → Prop
  | refl (dag : DAG) (s : S) : WavePath g node dag s [] dag s
  | step {dag dag' : DAG} {s s' : S} {ws : List (List Nat)} {val : Value} (hwave : dag.wave ≠ [])
      (hreg : ∀ k ∈ dag.wave, g.registered (dag.stepType k))
      (hafford : ∀ k ∈ dag.wave,
        exceeded (g.effectiveNodeBudget (dag.stepType k)) (node (dag.stepType k) s).info.cost = none)
      (hval : g.Savable (dag.merged node s) val) (hrecords : 0 < g.resourceLimits.maxExecutionRecords)
      (hrest : WavePath g node dag.advance (dag.merged node s) ws dag' s') :
      WavePath g node dag s (dag.wave :: ws) dag' s'

theorem Graph.WavePath.trans (h : g.WavePath node dag s ws dag' s') (h' : g.WavePath node dag' s' ws' dag'' s'') :
    g.WavePath node dag s (ws ++ ws') dag'' s'' := by
  induction h with
  | refl _ _ => exact h'
  | step hwave hreg hafford hval hrecords _ ih => exact .step hwave hreg hafford hval hrecords (ih h')

theorem Graph.WavePath.waved (h : g.WavePath node dag s ws dag' s') : dag.Waved ws dag' := by
  induction h with
  | refl _ _ => exact .refl _
  | step hwave _ _ _ _ _ ih => exact .step hwave ih

/-- A thread stands at a DAG, in a state: this is what `resume_dag` loads and goes on with. -/
def StandsAt (threadId : String) (w : World) (s : S) (dag : DAG) : Prop :=
  ∃ loaded : Loaded S, w.store.loadState threadId = .ok (some loaded) ∧ loaded.state = s ∧ loaded.dag = some dag ∧
    loaded.info.status ≠ .running

omit [Merge S] in
theorem StandsAt.congr (h : StandsAt threadId w s dag) (hstore : w'.store = w.store) : StandsAt threadId w' s dag := by
  unfold StandsAt
  rw [hstore]
  exact h

omit [Merge S] in
theorem Saves.standsAt [RoundTrip S] {E : Type} {names : List String} {args : SaveArgs S} {val : Value} {id : String}
    {u : Run (ops S) E α World} (h : Saves env w names args val id u) (hval : State.toValue args.state = .ok val)
    (hdag : args.dag = some dag) (hstatus : args.status ≠ .running) :
    StandsAt args.threadId u.world args.state dag := by
  obtain ⟨time, hrows⟩ := h.rows
  exact ⟨_, loadState_append hval hrows, rfl, hdag, hstatus⟩

/-! ### One round -/

omit [State S] [Merge S] in
/-- A wave of nodes that succeed is only joined if the history has room. -/
theorem maxExecutionRecords_pos_of_joinLoop [State S] {nodeOf : WaveTask S → NodeOutput S} {tasks : List (WaveTask S)}
    (htasks : tasks ≠ []) {j : Joining S} {u : Run (ops S) WaveError (Joining S) World}
    (hu : exec (memory env) (g.joinLoop (tasks.map fun t => .ok (t.idx, .ok (nodeOf t))) j) w = some u) :
    0 < g.resourceLimits.maxExecutionRecords := by
  obtain ⟨t, tasks, rfl⟩ := List.exists_cons_of_ne_nil htasks
  rw [List.map_cons] at hu
  unfold Graph.joinLoop at hu
  dsimp only at hu
  rw [bind_eq] at hu
  rcases exec_bind_eq_some hu with ⟨_, _, _, hrec, _⟩ | ⟨_, _, _, _, hrec, _, _⟩
  · exact (exec_record hrec).2.2
  · exact (exec_record hrec).2.2

omit [State S] in
/-- A round that launches its wave and ends has room in the history. -/
theorem maxExecutionRecords_pos_of_launches [State S] {nodeOf : WaveTask S → NodeOutput S}
    {u : Run (ops S) WaveError (WaveFlow S) World}
    (hu : exec (memory env) (g.waveBody threadId cancellation v) w = some u) (hlaunch : g.Launches v)
    (hsucc : env.AllSucceed w.waves nodeOf) : 0 < g.resourceLimits.maxExecutionRecords := by
  have hfind : ((v.dag.ready v.completed).find? fun idx => ¬ g.registered (v.dag.stepType idx)) = none := by
    rw [List.find?_eq_none]
    simpa using hlaunch.2.2
  have hgate : ¬ (v.isFirstWave = false ∧
      ∃ idx ∈ v.dag.ready v.completed, v.dag.stepType idx ∈ g.interruptBefore) := hlaunch.2.1
  unfold Graph.waveBody at hu
  dsimp only at hu
  rw [if_neg hlaunch.1, if_neg hgate] at hu
  unfold Graph.launch at hu
  simp only [DAG.stepType_setStatuses, hfind] at hu
  obtain ⟨results, w₁, u₁, hjoin, hu₁, rfl⟩ := exec_perform_eq_some.1 hu
  cases hjoin
  change exec _ ((g.joinLoop (env.results w.waves (v.tasks threadId cancellation)) _).bind _) _ = _ at hu₁
  rw [results_of_allSucceed hsucc] at hu₁
  have hne : (env.order w.waves (v.tasks threadId cancellation)).1 ≠ [] := by
    intro hnil
    have hperm := (env.order w.waves (v.tasks threadId cancellation)).2
    rw [hnil] at hperm
    have hidx := v.map_idx_tasks threadId cancellation
    rw [hperm.symm.eq_nil] at hidx
    exact hlaunch.1 hidx.symm
  rcases exec_bind_eq_some hu₁ with ⟨_, _, _, hloop, _⟩ | ⟨_, _, _, _, hloop, _, _⟩
  · exact maxExecutionRecords_pos_of_joinLoop hne hloop
  · exact maxExecutionRecords_pos_of_joinLoop hne hloop

/-- What a round can do where nodes depend only on the state. -/
inductive StrideRound (env : Env S) (g : Graph S) (threadId : String) (cancellation : Bool)
    (node : String → S → NodeOutput S) (v : Waves S) (w : World) (u : Run (ops S) WaveError (WaveFlow S) World) : Prop
  | stuck (hwave : v.dag.wave = []) (hwrites : writes u.trace = []) (hwaves : waves u.trace = [])
      (hres : u.result = if v.dag.namesOf [.pending] = [] then .ok (.stop v)
        else .error (.dagDeadlock (", ".intercalate (v.dag.namesOf [.pending])), v.dag))
  | gated (args : SaveArgs S) (hgate : g.WaveGated v) (hres : u.result = .ok (.stop v))
      (hwrites : writes u.trace = [args]) (hstatus : args.status = .interrupted) (hlast : EndsInWrite u.trace)
      (hwaves : waves u.trace = []) (hstands : StandsAt threadId u.world v.state v.dag)
  | completed (args : SaveArgs S) (v' : Waves S) (val : Value) (hwave : v.dag.wave ≠ [])
      (hreg : ∀ k ∈ v.dag.wave, g.registered (v.dag.stepType k))
      (hafford : ∀ k ∈ v.dag.wave,
        exceeded (g.effectiveNodeBudget (v.dag.stepType k)) (node (v.dag.stepType k) v.state).info.cost = none)
      (hbudget : exceeded g.budgetEur
        (v.runningCostEur + v.dag.cost env threadId cancellation node w.waves v.state) = none)
      (hval : g.Savable (v.dag.merged node v.state) val) (hrecords : 0 < g.resourceLimits.maxExecutionRecords)
      (hres : u.result = .ok (if ∃ k ∈ v.dag.wave, v.dag.stepType k ∈ g.interruptAfter then .stop v' else .next v'))
      (hdag : v'.dag = v.dag.advance) (hstate : v'.state = v.dag.merged node v.state)
      (hcost : v'.runningCostEur = v.runningCostEur + v.dag.cost env threadId cancellation node w.waves v.state)
      (hsynced : v'.Synced)
      (hwrites : writes u.trace = [args]) (hstatus : args.status = .complete) (hlast : EndsInWrite u.trace)
      (wave : JoinedWave S) (hwaves : waves u.trace = [wave])
      (htasks : wave.tasks.map WaveTask.nodeName = v.dag.wave.map v.dag.stepType)
      (hlaunched : launched u.trace = v.dag.wave) (hstands : StandsAt threadId u.world v'.state v'.dag)
      (hfirst : v'.isFirstWave = false) (hungated : ¬ g.WaveGated v)
  | failed (e : TakelnError) (dag : DAG) (hwave : v.dag.wave ≠ []) (hres : u.result = .error (e, dag))
      (hnames : ∀ names, e ≠ .dagDeadlock names) (hwrites : writes u.trace = [])
      (hno : (∀ k ∈ v.dag.wave, g.registered (v.dag.stepType k)) → ¬ g.WaveGated v →
        (∀ k ∈ v.dag.wave,
          exceeded (g.effectiveNodeBudget (v.dag.stepType k)) (node (v.dag.stepType k) v.state).info.cost = none) →
        (∃ val, g.Savable (v.dag.merged node v.state) val) →
        exceeded g.budgetEur (v.runningCostEur + v.dag.cost env threadId cancellation node w.waves v.state) ≠ none)
      (hgated : g.WaveGated v → ∀ val, ¬ g.Savable v.state val)

theorem strideRound_of_exec [RoundTrip S] (hsucc : env.WaveSucceeds node) (hv : v.Synced)
    {u : Run (ops S) WaveError (WaveFlow S) World}
    (hu : exec (memory env) (g.waveBody threadId cancellation v) w = some u) :
    StrideRound env g threadId cancellation node v w u := by
  cases (waveRound_of_exec hu).advance (hsucc w.waves) hv with
  | ended hwave hpending hres hwrites hwaves =>
    refine .stuck hwave hwrites hwaves ?_
    rw [hres, if_pos hpending]
  | deadlocked hwave hpending hres hwrites hwaves =>
    refine .stuck hwave hwrites hwaves ?_
    rw [hres, if_neg hpending]
  | gated nextNode val id hgate hval hres hsaves hwaves =>
    exact .gated _ hgate hres hsaves.writes rfl hsaves.endsInWrite hwaves
      (hsaves.standsAt hval.2 rfl (by simp [Graph.waveSave]))
  | completed j nextNode val id hlaunch hafford hj hcompleted haff hval hres hsaves hwaves =>
    have hrecords := maxExecutionRecords_pos_of_launches hu hlaunch (hsucc w.waves)
    have hstands := hsaves.standsAt hval.2 rfl (by simp [Graph.waveSave])
    have hlaunched := launched_of_wave hwaves
    rw [cost_onState hv] at haff
    rw [merged_onState hv] at hval hres hsaves hstands
    rw [nodesAfford_onState hv] at hafford
    rw [hv.ready_eq] at hlaunched
    refine .completed _ _ val (hv.ready_eq ▸ hlaunch.1) (hv.ready_eq ▸ hlaunch.2.2) hafford haff hval hrecords hres
      hj.dag rfl ?_ hcompleted hsaves.writes rfl hsaves.endsInWrite _ hwaves ?_ hlaunched ?_ rfl
      hlaunch.2.1
    · change v.runningCostEur + j.waveCost = _
      rw [hj.cost, cost_onState hv]
    · change (v.tasks threadId cancellation).map WaveTask.nodeName = _
      unfold Waves.tasks
      rw [List.map_map, hv.ready_eq]
      rfl
    · rw [← hj.dag] at hstands
      exact hstands
  | failed e dag hwave hres hnames hno hgated hwrites =>
    refine .failed e dag hwave hres hnames hwrites (fun hreg hgate hafford ⟨val, hval⟩ hbudget => hno val ?_) hgated
    rw [nodesAfford_onState hv, cost_onState hv, merged_onState hv]
    exact ⟨⟨hv.ready_eq ▸ hwave, hgate, hv.ready_eq ▸ hreg⟩, hafford, hbudget, hval⟩

/-! ### Stopped and finished calls -/

/-- A gate has stopped the call: it saved an interrupted checkpoint, or has executed a node of `interrupt_after`. -/
def Graph.StoppedByGate (g : Graph S) (tr : List (Event (ops S))) : Prop :=
  (∃ args ∈ writes tr, args.status = .interrupted) ∨ ∃ wave ∈ waves tr, ∃ t ∈ wave.tasks, t.nodeName ∈ g.interruptAfter

omit [State S] [Merge S] in
theorem Graph.stoppedByGate_append (tr tr' : List (Event (ops S))) :
    g.StoppedByGate (tr ++ tr') ↔ g.StoppedByGate tr ∨ g.StoppedByGate tr' := by
  unfold Graph.StoppedByGate
  simp only [writes_append, waves_append, List.mem_append, or_and_right, exists_or]
  exact or_or_or_comm

omit [State S] [Merge S] in
theorem Graph.not_stoppedByGate {tr : List (Event (ops S))} (hwrites : writes tr = []) (hwaves : waves tr = []) :
    ¬ g.StoppedByGate tr := by
  unfold Graph.StoppedByGate
  rw [hwrites, hwaves]
  rintro (⟨_, h, _⟩ | ⟨_, h, _⟩) <;> cases h

omit [State S] [Merge S] in
/-- A wave that is saved as complete is stopped by a gate if it executes a node of `interrupt_after`. -/
theorem Graph.stoppedByGate_of_wave {tr : List (Event (ops S))} {args : SaveArgs S} {wave : JoinedWave S}
    (hwrites : writes tr = [args]) (hstatus : args.status = .complete) (hwaves : waves tr = [wave])
    (htasks : wave.tasks.map WaveTask.nodeName = dag.wave.map dag.stepType) :
    g.StoppedByGate tr ↔ ∃ k ∈ dag.wave, dag.stepType k ∈ g.interruptAfter := by
  have hnames : (∃ t ∈ wave.tasks, t.nodeName ∈ g.interruptAfter) ↔
    ∃ k ∈ dag.wave, dag.stepType k ∈ g.interruptAfter := by
    have hany := congrArg (fun names => names.any fun name => decide (name ∈ g.interruptAfter)) htasks
    simpa only [List.any_map, List.any_eq_true, Function.comp_apply, decide_eq_true_eq, eq_iff_iff] using
      congrArg (· = true) hany
  unfold Graph.StoppedByGate
  rw [hwrites, hwaves]
  simp only [List.mem_singleton, exists_eq_left, hstatus, reduceCtorEq, false_or]
  exact hnames

/-- How a call from `dag` in the state `s` ends: it is stopped by a gate, gets stuck at the end of the path, or fails.
-/
inductive StrideEnd (g : Graph S) (threadId : String) (node : String → S → NodeOutput S) (dag : DAG) (s : S)
    (returns : S × DAG → α) (u : Run (ops S) WaveError α World) : Prop
  | gated (ws : List (List Nat)) (dag' : DAG) (s' : S) (hpath : g.WavePath node dag s ws dag' s')
      (hlaunched : launched u.trace = ws.flatten) (hgate : g.StoppedByGate u.trace) (hgated : g.Gated)
      (hres : u.result = .ok (returns (s', dag'))) (hstands : StandsAt threadId u.world s' dag')
  | stuck (ws : List (List Nat)) (dag' : DAG) (s' : S) (hpath : g.WavePath node dag s ws dag' s')
      (hlaunched : launched u.trace = ws.flatten) (hgate : ¬ g.StoppedByGate u.trace) (hwave : dag'.wave = [])
      (hres : u.result = (stuckResult s' dag').map returns)
  | failed (e : TakelnError) (dag' : DAG) (hres : u.result = .error (e, dag'))
      (hnames : ∀ names, e ≠ .dagDeadlock names)

/-- A wave that is merged and stopped by no gate, before a run that ends. -/
theorem StrideEnd.cons {dag dag₁ : DAG} {s s₁ : S} {returns : S × DAG → α} {tr : List (Event (ops S))}
    {u : Run (ops S) WaveError α World} {wave : List Nat}
    (hcons : ∀ {ws : List (List Nat)} {dag' : DAG} {s' : S}, g.WavePath node dag₁ s₁ ws dag' s' →
      g.WavePath node dag s (wave :: ws) dag' s')
    (hlaunched : launched tr = wave) (hgate : g.StoppedByGate (tr ++ u.trace) ↔ g.StoppedByGate u.trace)
    (h : StrideEnd g threadId node dag₁ s₁ returns u) : StrideEnd g threadId node dag s returns (u.after tr) := by
  have hwaves {ws : List (List Nat)} (hws : launched u.trace = ws.flatten) :
      launched (u.after tr).trace = (wave :: ws).flatten := by
    rw [trace_after, launched_append, hlaunched, hws, List.flatten_cons]
  cases h with
  | gated ws dag' s' hpath hws hstop hgated hres hstands =>
    exact .gated _ dag' s' (hcons hpath) (hwaves hws) (hgate.2 hstop) hgated hres hstands
  | stuck ws dag' s' hpath hws hstop hstuck hres =>
    exact .stuck _ dag' s' (hcons hpath) (hwaves hws) (fun h => hstop (hgate.1 h)) hstuck hres
  | failed e dag' hres hnames => exact .failed e dag' hres hnames

theorem waveBody_saveLast (v : Waves S) :
    Follows (saveLast S) (g.waveBody threadId cancellation v) false fun _ _ => True := by
  refine follows_waveBody ⟨⟨rfl, fun _ => rfl⟩, fun _ => ⟨rfl, rfl⟩, fun _ => ⟨rfl, rfl⟩⟩
    (fun _ _ => ⟨rfl, fun _ => rfl⟩) trivial (fun _ => trivial) fun args flow dag _ => ⟨rfl, fun r => ?_⟩
  cases r.bind checkpointId <;> trivial

/-- A loop that is stopped right after a write has walked a part of the path, and the thread stands at its end. -/
theorem wavePath_of_reaches [RoundTrip S] (hsucc : env.WaveSucceeds node) {k : Nat} {tr : List (Event (ops S))}
    {p : Prog (ops S) WaveError (S × DAG)} (hv : v.Synced)
    (hr : Reaches (memory env) (g.runWaves threadId cancellation k v) w tr p w') (hlast : EndsInWrite tr) :
    ∃ ws dag s, g.WavePath node v.dag v.state ws dag s ∧ launched tr = ws.flatten ∧ StandsAt threadId w' s dag := by
  induction k generalizing v w tr p with
  | zero =>
    cases hr
    cases hlast
  | succ k ih =>
    -- what the round came to, if it is all that was done
    have round {x t w₁} (hbody : exec (memory env) (g.waveBody threadId cancellation v) w = some ⟨x, w₁, t⟩)
        (ht : EndsInWrite t) :
        ∃ ws dag s, g.WavePath node v.dag v.state ws dag s ∧ launched t = ws.flatten ∧ StandsAt threadId w₁ s dag := by
      cases strideRound_of_exec hsucc hv hbody with
      | stuck _ hwrites => exact absurd hwrites ht.writes_ne_nil
      | gated args _ _ _ _ _ hwaves hstands =>
        exact ⟨[], v.dag, v.state, .refl _ _, launched_of_waves_nil hwaves, hstands⟩
      | completed args v' val hwave hreg hafford _ hval hrecords _ hdag hstate _ _ _ _ _ wave hwaves _
        hlaunched hstands =>
        rw [hstate, hdag] at hstands
        refine ⟨_, _, _, .step hwave hreg hafford hval hrecords (.refl _ _), ?_, hstands⟩
        rw [hlaunched]
        simp
      | failed _ _ _ _ _ hwrites => exact absurd hwrites ht.writes_ne_nil
    unfold Graph.runWaves at hr
    rcases hr.bind_cases with ⟨p', hbody⟩ | ⟨flow, w₁, t₁, t₂, hbody, hrest, rfl⟩
    · obtain ⟨x, hx⟩ := exec_of_saveLast (waveBody_saveLast v) hbody hlast
      exact round hx hlast
    · rcases t₂ with _ | ⟨e, t₂⟩
      · rw [List.append_nil] at hlast ⊢
        rw [hrest.nil.2]
        exact round hbody hlast
      · have hlast₂ := hlast.of_append (List.cons_ne_nil e t₂)
        cases flow with
        | yielded v' => cases hrest
        | stop v' =>
          -- only the end of the graph is broadcast
          cases hrest with
          | step hr₁ hrest =>
            cases hrest with
            | here => cases hlast₂
            | step hr₂ hrest =>
              cases hrest
              cases hlast₂
        | next v' =>
          cases strideRound_of_exec hsucc hv hbody with
          | stuck _ _ _ hres => split at hres <;> cases hres
          | gated _ _ hres => cases hres
          | failed _ _ _ hres => cases hres
          | completed args v'' val hwave hreg hafford _ hval hrecords hres hdag hstate _ hsynced _ _ _ wave _ _
            hlaunched =>
            split at hres
            · cases hres
            · cases hres
              obtain ⟨ws, dag, s, hpath, hws, hstands⟩ := ih hsynced hrest hlast₂
              rw [hdag, hstate] at hpath
              refine ⟨_, dag, s, .step hwave hreg hafford hval hrecords hpath, ?_, hstands⟩
              have hlaunched₁ : launched t₁ = v.dag.wave := hlaunched
              rw [launched_append, hlaunched₁, hws, List.flatten_cons]

section StrideRound

variable {u : Run (ops S) WaveError (WaveFlow S) World} {v' : Waves S}

/-- The loop fails with the round: the wave is stuck with pending nodes, or cannot be merged. -/
theorem StrideRound.strideEnd_of_error (h : StrideRound env g threadId cancellation node v w u) {e : WaveError}
    (he : u.result = .error e) : StrideEnd g threadId node v.dag v.state id ⟨.error e, u.world, u.trace⟩ := by
  cases h with
  | stuck hwave hwrites hwaves hres =>
    refine .stuck [] v.dag v.state (.refl _ _) (launched_of_waves_nil hwaves) (Graph.not_stoppedByGate hwrites hwaves)
      hwave ?_
    rw [he] at hres
    split at hres
    · cases hres
    · rename_i hpending
      cases hres
      rw [stuckResult, if_neg hpending]
      rfl
  | gated _ _ hres => cases hres.symm.trans he
  | completed _ _ _ _ _ _ _ _ _ hres => cases hres.symm.trans he
  | failed e dag' _ hres hnames =>
    cases hres.symm.trans he
    exact .failed e dag' rfl hnames

/-- The loop is left after the round, and nothing is written or executed any more. -/
theorem StrideRound.strideEnd_of_stop (h : StrideRound env g threadId cancellation node v w u)
    (hstop : u.result = .ok (.stop v')) {tr : List (Event (ops S))} (hwrites' : writes tr = [])
    (hwaves' : waves tr = []) (hstore : w'.store = u.world.store) :
    StrideEnd g threadId node v.dag v.state id ⟨.ok (v'.state, v'.dag), w', u.trace ++ tr⟩ := by
  have hlaunched : launched (u.trace ++ tr) = launched u.trace := by
    rw [launched_append, launched_of_waves_nil hwaves', List.append_nil]
  have hgate : g.StoppedByGate (u.trace ++ tr) ↔ g.StoppedByGate u.trace :=
    (Graph.stoppedByGate_append u.trace tr).trans (or_iff_left (Graph.not_stoppedByGate hwrites' hwaves'))
  cases h with
  | stuck hwave hwrites hwaves hres =>
    refine .stuck [] v.dag v.state (.refl _ _) (hlaunched.trans (launched_of_waves_nil hwaves))
      (mt hgate.1 (Graph.not_stoppedByGate hwrites hwaves)) hwave ?_
    rw [hstop] at hres
    split at hres
    · rename_i hpending
      cases hres
      rw [stuckResult, if_pos hpending]
      rfl
    · cases hres
  | gated args hbefore hres hwrites hstatus _ hwaves hstands =>
    cases hres.symm.trans hstop
    obtain ⟨idx, _, hidx⟩ := hbefore.2
    refine .gated [] v.dag v.state (.refl _ _) (hlaunched.trans (launched_of_waves_nil hwaves)) ?_ (Or.inl ⟨_, hidx⟩)
      rfl (hstands.congr hstore)
    exact hgate.2 (Or.inl ⟨args, by rw [hwrites]; exact List.mem_singleton_self _, hstatus⟩)
  | completed args v'' val hwave hreg hafford _ hval hrecords hres hdag hstate _ _ hwrites hstatus _ wave hwaves htasks
      hlaunched₁ hstands =>
    rw [hres] at hstop
    split at hstop
    · rename_i hafter
      cases hstop
      rw [hstate, hdag] at hstands
      obtain ⟨idx, hidx, hmem⟩ := hafter
      refine .gated _ _ _ (.step hwave hreg hafford hval hrecords (.refl _ _)) ?_ ?_ (Or.inr ⟨_, hmem⟩) ?_
        (hstands.congr hstore)
      · rw [hlaunched, hlaunched₁]
        simp
      · exact hgate.2 ((Graph.stoppedByGate_of_wave hwrites hstatus hwaves htasks).2 ⟨idx, hidx, hmem⟩)
      · rw [← hstate, ← hdag]
        rfl
    · cases hstop
  | failed _ _ _ hres => cases hres.symm.trans hstop

/-- No node yields. -/
theorem StrideRound.result_ne_yielded (h : StrideRound env g threadId cancellation node v w u) (v' : Waves S) :
    u.result ≠ .ok (.yielded v') := by
  intro hyield
  cases h with
  | stuck _ _ _ hres =>
    rw [hyield] at hres
    split at hres <;> cases hres
  | gated _ _ hres => cases hres.symm.trans hyield
  | completed _ _ _ _ _ _ _ _ _ hres =>
    rw [hres] at hyield
    split at hyield <;> cases hyield
  | failed _ _ _ hres => cases hres.symm.trans hyield

/-- The loop goes on after the round, one wave further on the path. -/
theorem StrideRound.strideEnd_of_next (h : StrideRound env g threadId cancellation node v w u)
    (hnext : u.result = .ok (.next v')) {u' : Run (ops S) WaveError (S × DAG) World}
    (hrest : v'.Synced → v'.dag = v.dag.advance → v.dag.wave ≠ [] → StrideEnd g threadId node v'.dag v'.state id u') :
    StrideEnd g threadId node v.dag v.state id (u'.after u.trace) := by
  cases h with
  | stuck _ _ _ hres =>
    rw [hnext] at hres
    split at hres <;> cases hres
  | gated _ _ hres => cases hres.symm.trans hnext
  | failed _ _ _ hres => cases hres.symm.trans hnext
  | completed args v'' val hwave hreg hafford _ hval hrecords hres hdag hstate _ hsynced hwrites hstatus _ wave hwaves
      htasks hlaunched =>
    rw [hres] at hnext
    split at hnext
    · cases hnext
    · rename_i hafter
      cases hnext
      have hend := hrest hsynced hdag hwave
      have hgate : g.StoppedByGate (u.trace ++ u'.trace) ↔ g.StoppedByGate u'.trace := by
        rw [Graph.stoppedByGate_append, Graph.stoppedByGate_of_wave hwrites hstatus hwaves htasks]
        exact or_iff_right hafter
      rw [hdag, hstate] at hend
      exact StrideEnd.cons (.step hwave hreg hafford hval hrecords) hlaunched hgate hend

end StrideRound

/-- A loop that ends was stopped by a gate, or has walked the path to its end, or has failed. -/
theorem wavePath_of_exec [RoundTrip S] (hsucc : env.WaveSucceeds node) {k : Nat}
    {u : Run (ops S) WaveError (S × DAG) World} (hv : v.Synced) (hpath₀ : dag.Waved ws v.dag)
    (hk : ws.length + k = dag.nodes.length + 1)
    (hu : exec (memory env) (g.runWaves threadId cancellation k v) w = some u) :
    StrideEnd g threadId node v.dag v.state id u := by
  induction k generalizing v w u ws with
  | zero =>
    -- a path has no more waves than the DAG has nodes
    have hle := hpath₀.length_le
    omega
  | succ k ih =>
    obtain ⟨u₁, hbody, hrest⟩ := runWaves_split hu
    have hround := strideRound_of_exec hsucc hv hbody
    rcases hrest with ⟨e, he, rfl⟩ | ⟨v', tr, hv', rfl, rfl⟩ | ⟨v', hv', rfl⟩ | ⟨v', u₂, hv', hu₂, rfl⟩
    · exact hround.strideEnd_of_error he
    -- the end of the graph is broadcast
    · exact hround.strideEnd_of_stop hv' rfl rfl rfl
    · exact absurd hv' (hround.result_ne_yielded v')
    · refine hround.strideEnd_of_next hv' fun hsynced hdag hwave => ?_
      have hpath₁ : dag.Waved (ws ++ [v.dag.wave]) v'.dag := by
        rw [hdag]
        exact hpath₀.trans (.step hwave (.refl _))
      have hk₁ : (ws ++ [v.dag.wave]).length + k = dag.nodes.length + 1 := by
        rw [List.length_append, List.length_singleton]
        omega
      exact ih hsynced hpath₁ hk₁ hu₂

omit [Merge S] in
/-- The counter of the waves counts the waves. -/
theorem waves_of_steps {tr : List (Event (ops S))} (h : Steps (memory env) w tr w') :
    w'.waves = w.waves + (waves tr).length := by
  induction h with
  | nil => rfl
  | @cons w w₁ w' o r tr hr _ ih =>
    have hone : w₁.waves = w.waves + (waves [(⟨o, r⟩ : Event (ops S))]).length := by
      cases o with
      | record max rec =>
        obtain ⟨records, _, hw⟩ := Option.map_eq_some_iff.1 hr
        cases hw
        rfl
      | _ =>
        cases hr
        rfl
    rw [ih, hone, Nat.add_assoc, ← List.length_append, ← waves_append]
    rfl

/-! ### Gates and budgets -/

theorem Graph.WavePath.of_gateFree (h : g.gateFree.WavePath node dag s ws dag' s') :
    g.WavePath node dag s ws dag' s' := by
  induction h with
  | refl dag s => exact .refl dag s
  | step hwave hreg hafford hval hrecords _ ih => exact .step hwave hreg hafford hval hrecords ih

theorem Graph.WavePath.gateFree (h : g.WavePath node dag s ws dag' s') :
    g.gateFree.WavePath node dag s ws dag' s' := by
  induction h with
  | refl dag s => exact .refl dag s
  | step hwave hreg hafford hval hrecords _ ih => exact .step hwave hreg hafford hval hrecords ih

/-- There is only one path. -/
theorem Graph.WavePath.of_append {idxs : List Nat} (h : g.WavePath node dag s ws dag' s')
    (h' : g.WavePath node dag s ws' dag'' s'') (hflatten : ws'.flatten = ws.flatten ++ idxs) :
    ∃ rest, g.WavePath node dag' s' rest dag'' s'' ∧ rest.flatten = idxs := by
  induction h generalizing ws' with
  | refl dag s => exact ⟨ws', h', hflatten⟩
  | step hwave _ _ _ _ _ ih =>
    cases h' with
    | refl => simp [hwave] at hflatten
    | step _ _ _ _ _ hrest =>
      rw [List.flatten_cons, List.flatten_cons, List.append_assoc, List.append_cancel_left_eq] at hflatten
      exact ih hrest hflatten

/-- From `dag` in the state `s` the graph executes `idxs` and gets stuck with the result `x`. -/
def Graph.Exhausts (g : Graph S) (node : String → S → NodeOutput S) (dag : DAG) (s : S) (idxs : List Nat)
    (x : Except WaveError (S × DAG)) : Prop :=
  ∃ ws dag' s', g.WavePath node dag s ws dag' s' ∧ ws.flatten = idxs ∧ dag'.wave = [] ∧ x = stuckResult s' dag'

/-- What is on the account of the call that launches the next wave of `dag`: the running total starts anew behind a
gate. -/
def Graph.waveSpentAt (g : Graph S) (dag : DAG) (spent : Eur) : Eur :=
  if ∃ k ∈ dag.wave, dag.stepType k ∈ g.interruptBefore then 0 else spent

/-- What is on the account of the call that goes on after that wave. -/
def Graph.waveSpentAfter (g : Graph S) (dag : DAG) (spent : Eur) : Eur :=
  if ∃ k ∈ dag.wave, dag.stepType k ∈ g.interruptAfter then 0 else spent

section Solvent

variable (g : Graph S) (env : Env S) (threadId : String) (cancellation : Bool) (node : String → S → NodeOutput S)

/-- From `dag` in the state `s`, with `spent` on the account, the budget lasts for `k` waves, or up to the end, if the
calls are stopped by gates only; the next wave is the `n`-th one. -/
def Graph.WaveSolventFor : Eur → Nat → DAG → S → Nat → Prop
  | _, _, _, _, 0 => True
  | spent, n, dag, s, k + 1 =>
    dag.wave = [] ∨
      exceeded g.budgetEur (g.waveSpentAt dag spent + dag.cost env threadId cancellation node n s) = none ∧
        WaveSolventFor
          (g.waveSpentAfter dag (g.waveSpentAt dag spent + dag.cost env threadId cancellation node n s)) (n + 1)
          dag.advance (dag.merged node s) k

/-- No call from `dag` in the state `s` on, the first one with `spent` on its account, exceeds the budget. -/
def Graph.WaveSolvent (spent : Eur) (n : Nat) (dag : DAG) (s : S) : Prop :=
  ∀ k, g.WaveSolventFor env threadId cancellation node spent n dag s k

variable {g env threadId cancellation node}

omit [State S] in
theorem Graph.waveSolvent_of_wave (h : dag.wave = []) (spent : Eur) (n : Nat) (s : S) :
    g.WaveSolvent env threadId cancellation node spent n dag s := fun k => by
  cases k with
  | zero => trivial
  | succ k => exact Or.inl h

omit [State S] in
theorem Graph.waveSolvent_iff (h : dag.wave ≠ []) (spent : Eur) (n : Nat) (s : S) :
    g.WaveSolvent env threadId cancellation node spent n dag s ↔
      exceeded g.budgetEur (g.waveSpentAt dag spent + dag.cost env threadId cancellation node n s) = none ∧
        g.WaveSolvent env threadId cancellation node
          (g.waveSpentAfter dag (g.waveSpentAt dag spent + dag.cost env threadId cancellation node n s)) (n + 1)
          dag.advance (dag.merged node s) := by
  constructor
  · intro hs
    have hstep (k : Nat) := (hs (k + 1)).resolve_left h
    exact ⟨(hstep 0).1, fun k => (hstep k).2⟩
  · rintro ⟨hbudget, hrest⟩ k
    cases k with
    | zero => trivial
    | succ k => exact Or.inr ⟨hbudget, hrest k⟩

end Solvent

end Takeln
