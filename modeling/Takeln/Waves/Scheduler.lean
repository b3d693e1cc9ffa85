import Takeln.Waves.Schedule

/-!
# The scheduler

Where every node succeeds and nothing hinders the waves, `run_dag` executes exactly the nodes of the least set that
holds each node whose dependencies it holds, wave by wave, with one checkpoint for each wave (`runDag_scheduled`).
-/

namespace Takeln

open Effect Effect.Prog

variable {S : Type} [State S] [Merge S] {env : Env S} {g : Graph S} {threadId : String} {cancellation : Bool}
  {v v' v'' : Waves S} {w w' w'' : World}

/-! ### Rounds that end -/

/-- A round ends if the history has room. -/
theorem exec_waveBody_isSome (env : Env S) (g : Graph S) (threadId : String) (cancellation : Bool)
    (hrecords : 0 < g.resourceLimits.maxExecutionRecords) (v : Waves S) (w : World) :
    ∃ u, exec (memory env) (g.waveBody threadId cancellation v) w = some u := by
  have hfollows : Follows (hasRoom S) (g.waveBody threadId cancellation v) () fun _ _ => True := by
    refine follows_waveBody ⟨⟨trivial, fun _ => rfl⟩, fun _ => ⟨trivial, rfl⟩, fun _ => ⟨hrecords, rfl⟩⟩
      (fun _ _ => ⟨trivial, fun _ => rfl⟩) trivial (fun _ => trivial) fun args flow dag _ => ⟨trivial, fun r => ?_⟩
    cases r.bind checkpointId <;> trivial
  exact hfollows.exec_isSome (hasRoom_answered env) w

/-- The loop states of a run from `v` in the world `w`, each with the world it is in. -/
inductive Laps (env : Env S) (g : Graph S) (threadId : String) (cancellation : Bool) (v : Waves S) (w : World) :
    Waves S → World → Prop
  | here : Laps env g threadId cancellation v w v w
  | next {v' v'' : Waves S} {w' : World} {u : Run (ops S) WaveError (WaveFlow S) World}
      (hprev : Laps env g threadId cancellation v w v' w')
      (hu : exec (memory env) (g.waveBody threadId cancellation v') w' = some u) (hres : u.result = .ok (.next v'')) :
      Laps env g threadId cancellation v w v'' u.world

/-- What a run comes to after its first round are loop states of the run. -/
theorem Laps.of_next {u : Run (ops S) WaveError (WaveFlow S) World}
    (hu : exec (memory env) (g.waveBody threadId cancellation v) w = some u) (hres : u.result = .ok (.next v'))
    (h : Laps env g threadId cancellation v' u.world v'' w'') : Laps env g threadId cancellation v w v'' w'' := by
  induction h with
  | here => exact .next .here hu hres
  | next _ hu' hres' ih => exact .next ih hu' hres'

/-- No gate, budget or limit on the size of a checkpoint hinders the next wave, the `n`-th one, and its checkpoint is
accepted. -/
structure Graph.Unhindered (g : Graph S) (env : Env S) (n : Nat) (threadId : String) (cancellation : Bool)
    (node : WaveTask S → NodeOutput S) (v : Waves S) : Prop where
  notBefore : ¬ g.WaveGated v
  notAfter : ∀ idx ∈ v.dag.wave, v.dag.stepType idx ∉ g.interruptAfter
  affords : g.NodesAfford v threadId cancellation node
  budget : exceeded g.budgetEur (v.runningCostEur + v.cost env n threadId cancellation node) = none
  savable : ∃ val, g.Savable (v.merged threadId cancellation node) val

/-! ### Traces -/

/-- At each moment every wave but the last has been saved. -/
def Alternates (tr : List (Event (ops S))) : Prop :=
  ∀ pre, pre <+: tr → (writes pre).length ≤ (waves pre).length ∧ (waves pre).length ≤ (writes pre).length + 1

section Alternates

variable {tr tr' : List (Event (ops S))}

omit [State S] [Merge S] in
theorem length_waves_le {pre : List (Event (ops S))} (h : pre <+: tr) : (waves pre).length ≤ (waves tr).length :=
  (h.filterMap joinedWave).length_le

omit [State S] [Merge S] in
theorem length_writes_le {pre : List (Event (ops S))} (h : pre <+: tr) : (writes pre).length ≤ (writes tr).length :=
  (h.filterMap written).length_le

omit [State S] [Merge S] in
theorem alternates_idle (hwrites : writes tr = []) (hwaves : waves tr = []) : Alternates tr := by
  intro pre hpre
  have hw := length_waves_le hpre
  have hs := length_writes_le hpre
  rw [hwaves] at hw
  rw [hwrites] at hs
  simp only [List.length_nil] at hw hs
  omega

omit [State S] [Merge S] in
theorem Alternates.append (h : Alternates tr) (heq : (writes tr).length = (waves tr).length) (h' : Alternates tr') :
    Alternates (tr ++ tr') := by
  intro pre hpre
  rcases List.prefix_or_prefix_of_prefix hpre (List.prefix_append tr tr') with hle | ⟨rest, rfl⟩
  · exact h pre hle
  · have hrest := h' rest ((List.prefix_append_right_inj tr).1 hpre)
    simp only [writes_append, waves_append, List.length_append]
    omega

omit [Merge S] in
/-- A wave that is saved. -/
theorem Saves.alternates {E α : Type} {args : SaveArgs S} {val : Value} {id : String} {wave : JoinedWave S}
    {u : Run (ops S) E α World} (h : Saves env w [] args val id u) (hwaves : waves u.trace = [wave]) :
    Alternates u.trace ∧ (Takeln.writes u.trace).length = (waves u.trace).length := by
  refine ⟨fun pre hpre => ?_, by rw [h.writes, hwaves]; rfl⟩
  have hwave := length_waves_le hpre
  rw [hwaves] at hwave
  obtain ⟨tr, e, _, htr, hquiet, _⟩ := h.trace
  rw [htr, List.prefix_concat_iff, ← htr] at hpre
  rcases hpre with rfl | hpre
  · rw [h.writes, hwaves]
    exact ⟨le_refl _, by simp⟩
  · have hwrites := length_writes_le hpre
    rw [hquiet] at hwrites
    simp only [List.length_cons, List.length_nil] at hwrites hwave
    omega

end Alternates

/-- A trace launches waves of the nodes `ws` of a DAG and saves each of them. -/
structure Paced (dag : DAG) (ws : List (List Nat)) (tr : List (Event (ops S))) : Prop where
  waves : (waves tr).map (fun wave => wave.tasks.map WaveTask.idx) = ws
  names : ∀ wave ∈ Takeln.waves tr, ∀ t ∈ wave.tasks, t.nodeName = dag.stepType t.idx
  alternates : Alternates tr
  saved : (writes tr).length = (Takeln.waves tr).length

namespace Paced

variable {dag dag' : DAG} {ws ws' : List (List Nat)} {tr tr' : List (Event (ops S))}

omit [State S] [Merge S] in
theorem idle (dag : DAG) (hwrites : writes tr = []) (hwaves : Takeln.waves tr = []) : Paced dag [] tr where
  waves := by rw [hwaves]; rfl
  names := by rw [hwaves]; intro _ h; cases h
  alternates := alternates_idle hwrites hwaves
  saved := by rw [hwrites, hwaves]; rfl

omit [State S] [Merge S] in
theorem append (h : Paced dag ws tr) (h' : Paced dag' ws' tr') (hshape : dag'.shape = dag.shape) :
    Paced dag (ws ++ ws') (tr ++ tr') where
  waves := by rw [waves_append, List.map_append, h.waves, h'.waves]
  names wave hwave t ht := by
    rw [waves_append, List.mem_append] at hwave
    rcases hwave with hmem | hmem
    · exact h.names wave hmem t ht
    · rw [h'.names wave hmem t ht, DAG.stepType_eq_of_shape hshape]
  alternates := h.alternates.append h.saved h'.alternates
  saved := by rw [writes_append, waves_append, List.length_append, List.length_append, h.saved, h'.saved]

omit [State S] [Merge S] in
theorem launched_eq (h : Paced dag ws tr) : launched tr = ws.flatten := by
  rw [← h.waves]
  exact List.flatMap_def ..

omit [Merge S] in
/-- A round that launches and saves a wave. -/
theorem of_saves {n : Nat} {args : SaveArgs S} {val : Value} {id : String}
    {u : Run (ops S) WaveError (WaveFlow S) World} (hv : v.Synced) (hsaves : Saves env w [] args val id u)
    (hwaves : Takeln.waves u.trace = [v.wave threadId cancellation env n]) : Paced v.dag [v.dag.wave] u.trace where
  waves := by
    rw [hwaves, List.map_singleton, ← hv.ready_eq]
    exact congrArg (fun l => [l]) (v.map_idx_tasks threadId cancellation)
  names := by
    rw [hwaves]
    intro wave hwave t ht
    rw [List.mem_singleton] at hwave
    subst hwave
    obtain ⟨idx, _, rfl⟩ := List.mem_map.1 ht
    rfl
  alternates := (hsaves.alternates hwaves).1
  saved := (hsaves.alternates hwaves).2

end Paced

/-! ### Runs -/

/-- What a run without hindrances leaves: stuck at `dag'`, it returns if nothing is pending. -/
def stuckResult (s : S) (dag' : DAG) : Except WaveError (S × DAG) :=
  if dag'.namesOf [.pending] = [] then .ok (s, dag')
  else .error (.dagDeadlock (", ".intercalate (dag'.namesOf [.pending])), dag')

/-- From a DAG that `k` waves at most can still follow, the loop launches waves until none is ready. -/
theorem runWaves_scheduled {node : Nat → WaveTask S → NodeOutput S} (hsucc : ∀ n, env.AllSucceed n (node n))
    (hrecords : 0 < g.resourceLimits.maxExecutionRecords) {dag : DAG} {ws : List (List Nat)}
    (hreg : ∀ k, ∀ status, dag.statusAt k = some status → g.registered (dag.stepType k)) {k : Nat}
    (hv : v.Synced) (hpath : dag.Waved ws v.dag) (hk : ws.length + k = dag.nodes.length + 1)
    (hfree : ∀ v' w', Laps env g threadId cancellation v w v' w' → v'.dag.wave ≠ [] →
      g.Unhindered env w'.waves threadId cancellation (node w'.waves) v') :
    ∃ u ws' dag' s, exec (memory env) (g.runWaves threadId cancellation k v) w = some u ∧ v.dag.Waved ws' dag' ∧
      dag'.wave = [] ∧ Paced v.dag ws' u.trace ∧ u.result = stuckResult s dag' := by
  induction k generalizing v w ws with
  | zero =>
    have hle := hpath.length_le
    omega
  | succ k ih =>
    obtain ⟨u, hbody⟩ := exec_waveBody_isSome env g threadId cancellation hrecords v w
    obtain ⟨x, w₁, t₁⟩ := u
    have hround := (waveRound_of_exec hbody).advance (hsucc w.waves) hv
    cases hround with
    | ended hwave hpending hres hwrites hwaves =>
      cases hres
      obtain ⟨tr, hu, hwrites', hwaves'⟩ := exec_runWaves_stop (k := k) hbody
      refine ⟨_, [], v.dag, v.state, hu, .refl _, hwave, ?_, ?_⟩
      · change Paced v.dag ([] ++ []) _
        exact (Paced.idle v.dag hwrites hwaves).append (Paced.idle v.dag hwrites' hwaves') rfl
      · rw [stuckResult, if_pos hpending]
    | deadlocked hwave hpending hres hwrites hwaves =>
      cases hres
      refine ⟨_, [], v.dag, v.state, exec_runWaves_fail hbody, .refl _, hwave, Paced.idle v.dag hwrites hwaves, ?_⟩
      rw [stuckResult, if_neg hpending]
    | gated nextNode val id hgate =>
      -- a gate in front of the wave is a gate in front of a ready node
      have hne : v.dag.wave ≠ [] := by
        obtain ⟨idx, hidx, _⟩ := hgate.2
        exact hv.ready_eq ▸ List.ne_nil_of_mem hidx
      exact absurd hgate (hfree v w .here hne).notBefore
    | completed j nextNode val id hlaunch hafford hj hcompleted haff hval hres hsaves hwaves =>
      have hne : v.dag.wave ≠ [] := hv.ready_eq ▸ hlaunch.1
      have hunhindered := hfree v w .here hne
      -- no gate stops the loop behind the wave
      have hnotAfter : ¬ ∃ idx ∈ v.dag.wave, v.dag.stepType idx ∈ g.interruptAfter := by
        rintro ⟨idx, hidx, hmem⟩
        exact hunhindered.notAfter idx hidx hmem
      rw [if_neg hnotAfter] at hres
      cases hres
      have hadvance : (v.afterSave j (v.merged threadId cancellation (node w.waves)) id).dag = v.dag.advance := hj.dag
      have hsynced : (v.afterSave j (v.merged threadId cancellation (node w.waves)) id).Synced := hcompleted
      have hpath₁ : dag.Waved (ws ++ [v.dag.wave])
          (v.afterSave j (v.merged threadId cancellation (node w.waves)) id).dag := by
        rw [hadvance]
        exact hpath.trans (.step hne (.refl _))
      have hk₁ : (ws ++ [v.dag.wave]).length + k = dag.nodes.length + 1 := by
        rw [List.length_append, List.length_singleton]
        omega
      obtain ⟨u₂, ws', dag', s, hu₂, hpath', hstuck, hpaced, hresult⟩ := ih (w := w₁) hsynced hpath₁ hk₁
        fun v' w' hlap => hfree v' w' (hlap.of_next hbody rfl)
      rw [hadvance] at hpath' hpaced
      refine ⟨u₂.after t₁, v.dag.wave :: ws', dag', s, ?_, .step hne hpath', hstuck, ?_, hresult⟩
      · rw [exec_runWaves_next hbody]
        exact congrArg (Option.map (Run.after t₁)) hu₂
      · exact (Paced.of_saves hv hsaves hwaves).append hpaced (DAG.shape_advance v.dag)
    | failed e dag' hwave hres hnames hno =>
      have hunhindered := hfree v w .here hwave
      -- the wave is affordable and can be saved, so a name would have to be unknown
      obtain ⟨val, hval⟩ := hunhindered.savable
      refine absurd ⟨⟨?_, hunhindered.notBefore, fun idx hidx => ?_⟩, hunhindered.affords, hunhindered.budget,
        hval⟩ (hno val)
      · rwa [hv.ready_eq]
      · rw [DAG.stepType_eq_of_shape hpath.shape_eq]
        have hpending : v.dag.statusAt idx = some .pending := DAG.statusAt_of_mem_ready hidx
        rw [hpath.statusAt_eq] at hpending
        split at hpending
        · cases hpending
        · exact hreg idx _ hpending

/-- What the scheduler does: the run `u` executes the nodes of the least set of `dag`. -/
structure Scheduled (dag : DAG) (u : Run (ops S) WaveError (S × DAG) World) : Prop where
  /-- Exactly the nodes of the least set are executed … -/
  executed : ∀ k, k ∈ launched u.trace ↔ k ∈ dag.executable
  /-- … each of them once … -/
  once : (launched u.trace).Nodup
  /-- … under its name, and after its dependencies. -/
  ordered : ∀ pre post tasks results, u.trace = pre ++ (⟨.joinWave tasks, results⟩ : Event (ops S)) :: post →
    ∀ t ∈ tasks, t.nodeName = dag.stepType t.idx ∧ t.idx ∈ dag.enabled {k | k ∈ launched pre}
  /-- Each wave is saved before the next one. -/
  alternates : Alternates u.trace
  saved : (writes u.trace).length = (waves u.trace).length
  rounds : (waves u.trace).length ≤ dag.nodes.length
  /-- The run returns if that is the whole DAG … -/
  returns : (∃ s dag', u.result = .ok (s, dag')) ↔ ∀ k < dag.nodes.length, k ∈ dag.executable
  /-- … and otherwise names the nodes that remain, in order. -/
  deadlock : (∃ k < dag.nodes.length, k ∉ dag.executable) → ∃ (idxs : List Nat) (dag' : DAG),
    idxs.Pairwise (· < ·) ∧ (∀ k, k ∈ idxs ↔ k < dag.nodes.length ∧ k ∉ dag.executable) ∧
      u.result = .error (.dagDeadlock (", ".intercalate (idxs.map dag.stepType)), dag')

omit [State S] [Merge S] in
/-- A run that walks the waves of a DAG whose nodes are all `Pending`, until none is ready. -/
theorem scheduled_of_waved {dag dag' : DAG} {ws : List (List Nat)} {s : S} {u : Run (ops S) WaveError (S × DAG) World}
    (hpending : dag.AllPending) (hpath : dag.Waved ws dag') (hstuck : dag'.wave = []) (hpaced : Paced dag ws u.trace)
    (hresult : u.result = stuckResult s dag') : Scheduled dag u := by
  -- the path is stuck, so it has launched all that can be executed
  have hset := hpath.mem_flatten_iff hpending hstuck
  obtain ⟨idxs, hsorted, hnames, hidxs⟩ := dag'.namesOf_eq [.pending]
  have hremain (k : Nat) : k ∈ idxs ↔ k < dag.nodes.length ∧ k ∉ dag.executable := by
    rw [hidxs, ← hset k]
    simp only [List.mem_singleton, exists_eq_left, hpath.statusAt_eq k, hpending.statusAt k]
    by_cases hk : k ∈ ws.flatten <;> by_cases hlt : k < dag.nodes.length <;> simp [hk, hlt]
  have hmap : idxs.map dag'.stepType = idxs.map dag.stepType :=
    List.map_congr_left fun k _ => DAG.stepType_eq_of_shape hpath.shape_eq k
  have hnil : dag'.namesOf [.pending] = [] ↔ ∀ k < dag.nodes.length, k ∈ dag.executable := by
    rw [hnames, List.map_eq_nil_iff, List.eq_nil_iff_forall_not_mem]
    simp only [hremain, not_and, not_not]
  constructor
  · intro k
    rw [hpaced.launched_eq]
    exact hset k
  · rw [hpaced.launched_eq]
    exact hpath.nodup
  · intro pre post tasks results htr t ht
    have hwaves : waves u.trace = waves pre ++ ⟨tasks, results⟩ :: waves post := by
      rw [htr, waves_append]
      rfl
    have hsplit := hpaced.waves
    rw [hwaves, List.map_append, List.map_cons] at hsplit
    refine ⟨hpaced.names ⟨tasks, results⟩ (by simp [hwaves]) t ht, ?_⟩
    -- what enables a node was launched in the waves before
    have henabled := hpath.enabled_of_mem hsplit.symm (List.mem_map_of_mem ht)
    refine dag.enabled.monotone (Set.union_subset (fun k hk => ?_) fun k hk => ?_) henabled
    · have hdone : dag.statusAt k = some .done := hk
      rw [hpending.statusAt] at hdone
      split at hdone <;> cases hdone
    · have hpre : launched pre = ((waves pre).map fun wave => wave.tasks.map WaveTask.idx).flatten :=
        List.flatMap_def ..
      change k ∈ launched pre
      rw [hpre]
      exact hk
  · exact hpaced.alternates
  · exact hpaced.saved
  · have hlength := congrArg List.length hpaced.waves
    rw [List.length_map] at hlength
    rw [hlength]
    exact hpath.length_le
  · rw [← hnil, hresult, stuckResult]
    by_cases hnone : dag'.namesOf [.pending] = []
    · rw [if_pos hnone]
      exact ⟨fun _ => hnone, fun _ => ⟨s, dag', rfl⟩⟩
    · rw [if_neg hnone]
      exact ⟨fun ⟨_, _, h⟩ => (by cases h), fun h => absurd h hnone⟩
  · rintro ⟨k, hlt, hk⟩
    refine ⟨idxs, dag', hsorted, hremain, ?_⟩
    rw [hresult, stuckResult, if_neg, hnames, hmap]
    exact fun h => hk (hnil.1 h k hlt)

/-- Where every name is registered, every node succeeds and nothing hinders a wave, `run_dag` launches waves until none
is ready. -/
theorem exec_runDag_waved {dag : DAG} {state : S} {depth : Nat} {node : Nat → WaveTask S → NodeOutput S}
    (hreg : ∀ n ∈ dag.nodes, g.registered n.stepType) (hsucc : ∀ n, env.AllSucceed n (node n))
    (hrecords : 0 < g.resourceLimits.maxExecutionRecords) (hdepth : depth ≤ 8)
    (hsize : dag.nodes.length ≤ g.resourceLimits.maxDagNodes)
    (hfree : ∀ v' w', Laps env g threadId cancellation (.start dag state none) w v' w' → v'.dag.wave ≠ [] →
      g.Unhindered env w'.waves threadId cancellation (node w'.waves) v') :
    ∃ u ws dag' s, exec (memory env) (g.runDag threadId cancellation dag state depth) w = some u ∧ dag.Waved ws dag' ∧
      dag'.wave = [] ∧ Paced dag ws u.trace ∧ u.result = stuckResult s dag' := by
  have hreg' (k : Nat) (status : NodeStatus) (hk : dag.statusAt k = some status) : g.registered (dag.stepType k) := by
    obtain ⟨n, hn, _⟩ := Option.map_eq_some_iff.1 hk
    rw [DAG.stepType, hn]
    exact hreg n (List.mem_of_getElem? hn)
  obtain ⟨u, ws, dag', s, hu, hpath, hstuck, hpaced, hresult⟩ := runWaves_scheduled (k := dag.nodes.length + 1) hsucc
    hrecords hreg' (Waves.synced_start dag state none) (.refl dag) (by simp) hfree
  refine ⟨_, ws, dag', s, exec_runDag hdepth hsize hu, hpath, hstuck, ?_, hresult⟩
  change Paced dag ([] ++ ws) _
  exact (Paced.idle dag (by rfl) (by rfl)).append hpaced rfl

/-- Where every node is `Pending`, every name registered, every node succeeds and nothing hinders a wave, `run_dag` ends
and does what `Scheduled` says. -/
theorem runDag_scheduled {dag : DAG} {state : S} {depth : Nat} {node : Nat → WaveTask S → NodeOutput S}
    (hpending : dag.AllPending) (hreg : ∀ n ∈ dag.nodes, g.registered n.stepType)
    (hsucc : ∀ n, env.AllSucceed n (node n)) (hrecords : 0 < g.resourceLimits.maxExecutionRecords) (hdepth : depth ≤ 8)
    (hsize : dag.nodes.length ≤ g.resourceLimits.maxDagNodes)
    (hfree : ∀ v' w', Laps env g threadId cancellation (.start dag state none) w v' w' → v'.dag.wave ≠ [] →
      g.Unhindered env w'.waves threadId cancellation (node w'.waves) v') :
    ∃ u, exec (memory env) (g.runDag threadId cancellation dag state depth) w = some u ∧ Scheduled dag u := by
  obtain ⟨u, ws, dag', s, hu, hpath, hstuck, hpaced, hresult⟩ :=
    exec_runDag_waved hreg hsucc hrecords hdepth hsize hfree
  exact ⟨u, hu, scheduled_of_waved hpending hpath hstuck hpaced hresult⟩

section Examples

/-- A node, one that depends on it, and one that depends on itself. -/
def tangled : DAG :=
  ⟨[⟨1, "A", [], .pending⟩, ⟨2, "B", [1], .pending⟩, ⟨3, "C", [1, 3], .pending⟩]⟩

def tangledGraph : Graph Bool where
  nodes := ["A", "B", "C"]
  edges _ := none

/-- Every node raises the flag. -/
def raised (_ : Nat) (_ : WaveTask Bool) : NodeOutput Bool := { state := true }

def raising : Env Bool where
  newId n := s!"c{n}"
  now n := n
  answer _ _ _ _ _ := .returned (.ok { state := true })
  outcome n task := .ok (.ok (raised n task))
  order _ := inOrder

theorem runDag_scheduled_tangled :
    ∃ u, exec (memory raising) (tangledGraph.runDag "t" false tangled false 0) World.empty = some u ∧
      Scheduled tangled u := by
  have hsucc (n : Nat) : raising.AllSucceed n (raised n) := fun _ => rfl
  refine runDag_scheduled (by decide) (by decide) hsucc (by decide) (by decide) (by decide) fun v' w' _ _ => ?_
  constructor
  · rintro ⟨_, idx, _, h⟩
    cases h
  · intro _ _ h
    cases h
  · intro _ _
    rfl
  · rfl
  · refine ⟨_, ?_, rfl⟩
    cases v'.merged "t" false (raised w'.waves) <;> rfl

end Examples

end Takeln
