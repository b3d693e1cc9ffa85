import Mathlib.Algebra.BigOperators.Group.List.Basic
import Takeln.Sequential.Path
import Takeln.Waves.Rounds

/-!
# Waves that succeed

Where every node succeeds a wave does one thing whatever the order in which its tasks end: its nodes are `Done`
(`DAG.advance`) and their outputs are merged in the order of the nodes (`Waves.merged`).  The set `completed` of the
loop always holds the ids of the nodes that are `Done` (`Waves.Synced`), so what is ready can be read off the DAG.
-/

namespace Takeln

open Effect Effect.Prog

variable {S : Type} {env : Env S} {g : Graph S} {threadId : String} {cancellation : Bool} {v : Waves S} {w : World}

/-! ### What is ready -/

namespace DAG

/-- The nodes that are ready once the nodes that are `Done` are completed. -/
def wave (dag : DAG) : List Nat := dag.ready dag.doneIds

/-- The DAG after a wave in which every node succeeded. -/
def advance (dag : DAG) : DAG := dag.setStatuses dag.wave .done

theorem statusAt_of_mem_wave {dag : DAG} {k : Nat} (h : k ∈ dag.wave) : dag.statusAt k = some .pending :=
  statusAt_of_mem_ready h

@[simp] theorem shape_advance (dag : DAG) : dag.advance.shape = dag.shape := shape_setStatuses ..

theorem statusAt_advance (dag : DAG) (k : Nat) :
    dag.advance.statusAt k = if k ∈ dag.wave then some .done else dag.statusAt k := by
  unfold advance
  rw [statusAt_setStatuses]
  by_cases hk : k ∈ dag.wave
  · rw [if_pos hk, if_pos hk, statusAt_of_mem_wave hk, Option.map_some]
  · rw [if_neg hk, if_neg hk]

end DAG

/-- The set `completed` holds the ids of the nodes that are `Done`. -/
def Waves.Synced (v : Waves S) : Prop := ∀ id, id ∈ v.completed ↔ id ∈ v.dag.doneIds

theorem Waves.synced_start (dag : DAG) (state : S) (head : Option String) : (Waves.start dag state head).Synced :=
  fun _ => Iff.rfl

theorem Waves.Synced.ready_eq (h : v.Synced) : v.dag.ready v.completed = v.dag.wave := DAG.ready_congr h

/-- Joining a wave completes the nodes it makes `Done`. -/
theorem mem_completed_of_joining {n : Nat} {j : Joining S} (h : g.joining env threadId cancellation v n = .ok j)
    (hv : v.Synced) (id : Uuid) : id ∈ j.completed ↔ id ∈ j.dag.doneIds := by
  obtain ⟨hj, hperm⟩ := joined_of_joining h
  have hshape : j.dag.shape = v.dag.shape := by
    rw [hj, joined, Joining.shape_addAll, DAG.shape_setStatuses]
  have hcompleted : id ∈ j.completed ↔ id ∈ v.completed ∨ ∃ idx out,
      .ok (idx, .ok out) ∈ (v.wave threadId cancellation env n).results ∧ v.dag.idAt idx = some id := by
    rw [hj, joined, Joining.mem_completed_addAll]
    simp only [DAG.idAt_eq_of_shape (DAG.shape_setStatuses v.dag (v.dag.ready v.completed) .running)]
  rw [hcompleted, hv id, DAG.mem_doneIds, DAG.mem_doneIds]
  simp only [DAG.idAt_eq_of_shape hshape]
  constructor
  · rintro (⟨k, hdone, hid⟩ | ⟨k, out, hout, hid⟩)
    · refine ⟨k, ?_, hid⟩
      rw [hj, statusAt_joined_of_notMem hperm, hdone]
      intro hready
      cases hdone.symm.trans (DAG.statusAt_of_mem_ready hready)
    · refine ⟨k, ?_, hid⟩
      rw [hj]
      exact statusAt_joined_of_mem hperm hout
  · rintro ⟨k, hdone, hid⟩
    rw [hj] at hdone
    rcases statusAt_joined hperm k with ⟨x, hx, hstatus⟩ | ⟨_, hstatus⟩
    · rw [hdone] at hstatus
      cases x with
      | ok out => exact Or.inr ⟨k, out, hx, hid⟩
      | error e => cases e <;> cases hstatus
    · exact Or.inl ⟨k, hstatus.symm.trans hdone, hid⟩

/-- The loop goes on in step with its DAG. -/
theorem WaveRound.synced [State S] [Merge S] {u : Run (ops S) WaveError (WaveFlow S) World} {v' : Waves S}
    (h : WaveRound env g threadId cancellation v w u) (hv : v.Synced) (hres : u.result = .ok (.next v')) :
    v'.Synced := by
  obtain ⟨j, id, _, hjoin, rfl, _⟩ := h.of_next hres
  exact fun id => mem_completed_of_joining hjoin hv id

/-! ### Waves in which every node succeeds -/

/-- The node functions: every task succeeds, with an output that depends on the task only. -/
def Env.AllSucceed (env : Env S) (n : Nat) (node : WaveTask S → NodeOutput S) : Prop :=
  ∀ t, env.outcome n t = .ok (.ok (node t))

section Succeed

variable {node : WaveTask S → NodeOutput S} {n : Nat}

/-- What the next wave outputs, in the order of its nodes. -/
def Waves.outputs (v : Waves S) (threadId : String) (cancellation : Bool) (node : WaveTask S → NodeOutput S) :
    List (Nat × S) := (v.tasks threadId cancellation).map fun t => (t.idx, (node t).state)

/-- What the next wave costs, if it is the `n`-th one: its costs are added up in the order in which its nodes end. -/
def Waves.cost (v : Waves S) (env : Env S) (n : Nat) (threadId : String) (cancellation : Bool)
    (node : WaveTask S → NodeOutput S) : Eur :=
  ((env.order n (v.tasks threadId cancellation)).1.map fun t => (node t).info.cost).foldl (· + ·) 0

/-- The state after the next wave. -/
def Waves.merged [Merge S] (v : Waves S) (threadId : String) (cancellation : Bool) (node : WaveTask S → NodeOutput S) :
    S := mergeWave v.state (v.outputs threadId cancellation node)

/-- No node of the next wave exceeds its own budget. -/
def Graph.NodesAfford (g : Graph S) (v : Waves S) (threadId : String) (cancellation : Bool)
    (node : WaveTask S → NodeOutput S) : Prop :=
  ∀ t ∈ v.tasks threadId cancellation, exceeded (g.effectiveNodeBudget t.nodeName) (node t).info.cost = none

theorem results_of_allSucceed (h : env.AllSucceed n node) (tasks : List (WaveTask S)) :
    env.results n tasks = (env.order n tasks).1.map fun t => .ok (t.idx, .ok (node t)) := by
  unfold Env.results
  refine List.map_congr_left fun t _ => ?_
  rw [h t]
  rfl

/-- The order in which the outputs come in does not matter: they are merged in the order of their nodes. -/
theorem mergeWave_perm [Merge S] (state : S) {l l' : List (Nat × S)} (h : l.Perm l') (hnodup : (l.map Prod.fst).Nodup) :
    mergeWave state l = mergeWave state l' := by
  have hsorted (l : List (Nat × S)) :
      (l.mergeSort fun a b => decide (a.1 ≤ b.1)).Pairwise fun a b => decide (a.1 ≤ b.1) = true := by
    refine List.pairwise_mergeSort ?_ ?_ l
    · intro a b c hab hbc
      rw [decide_eq_true_iff] at *
      omega
    · intro a b
      rw [Bool.or_eq_true, decide_eq_true_iff, decide_eq_true_iff]
      omega
  have hsort : (l.mergeSort fun a b => decide (a.1 ≤ b.1)) = l'.mergeSort fun a b => decide (a.1 ≤ b.1) := by
    refine List.Perm.eq_of_pairwise ?_ (hsorted l) (hsorted l')
      ((List.mergeSort_perm l _).trans (h.trans (List.mergeSort_perm l' _).symm))
    intro a b ha hb hab hba
    rw [decide_eq_true_iff] at hab hba
    have ha' : a ∈ l := (List.mergeSort_perm l _).mem_iff.1 ha
    have hb' : b ∈ l := h.mem_iff.2 ((List.mergeSort_perm l' _).mem_iff.1 hb)
    have hfst : a.1 = b.1 := by omega
    exact List.inj_on_of_nodup_map hnodup ha' hb' hfst
  unfold mergeWave
  rw [hsort]

/-- What a wave of nodes that succeed is joined to. -/
structure Advanced [Merge S] (env : Env S) (g : Graph S) (n : Nat) (threadId : String) (cancellation : Bool)
    (node : WaveTask S → NodeOutput S) (v : Waves S) (j : Joining S) : Prop where
  dag : j.dag = v.dag.advance
  state : mergeWave v.state j.waveStates = v.merged threadId cancellation node
  cost : j.waveCost = v.cost env n threadId cancellation node
  waveFailed : j.waveFailed = []
  hasYielded : j.hasYielded = false

/-- A wave of nodes that succeed makes them `Done` and outputs what they return. -/
theorem advanced_of_joining [Merge S] (hsucc : env.AllSucceed n node) (hv : v.Synced) {j : Joining S}
    (h : g.joining env threadId cancellation v n = .ok j) : Advanced env g n threadId cancellation node v j := by
  obtain ⟨hj, hperm⟩ := joined_of_joining h
  have hresults := results_of_allSucceed hsucc (v.tasks threadId cancellation)
  have hwave : (v.wave threadId cancellation env n).results = _ := hresults
  have horder := (env.order n (v.tasks threadId cancellation)).2
  constructor
  · refine DAG.eq_of_shape ?_ fun k => ?_
    · rw [hj, joined, Joining.shape_addAll, DAG.shape_setStatuses, DAG.shape_advance]
    · rw [DAG.statusAt_advance, ← hv.ready_eq, hj]
      rcases statusAt_joined hperm k with ⟨x, hx, hstatus⟩ | ⟨hk, hstatus⟩
      · have hk : k ∈ v.dag.ready v.completed := hperm.mem_iff.1 (List.mem_filterMap.2 ⟨_, hx, rfl⟩)
        rw [hwave] at hx
        obtain ⟨t, _, heq⟩ := List.mem_map.1 hx
        cases heq
        rw [if_pos hk, hstatus]
        rfl
      · rw [if_neg hk, hstatus]
  · have houtputs : Takeln.outputs (v.wave threadId cancellation env n).results =
        (env.order n (v.tasks threadId cancellation)).1.map fun t => (t.idx, (node t).state) := by
      rw [hwave, Takeln.outputs, List.filterMap_map, ← List.filterMap_eq_map]
      rfl
    -- the outputs are merged by their indices, whatever order they came in
    rw [hj, joined, Joining.waveStates_addAll, List.nil_append, houtputs]
    refine mergeWave_perm _ (horder.map _) ?_
    rw [List.map_map]
    have hidx : ((env.order n (v.tasks threadId cancellation)).1.map WaveTask.idx).Perm (v.dag.ready v.completed) := by
      rw [← v.map_idx_tasks threadId cancellation]
      exact horder.map _
    exact hidx.nodup_iff.2 (DAG.nodup_ready _)
  · have hcosts : costs (v.wave threadId cancellation env n).results =
        (env.order n (v.tasks threadId cancellation)).1.map fun t => (node t).info.cost := by
      rw [hwave, costs, List.filterMap_map, ← List.filterMap_eq_map]
      rfl
    rw [hj, joined, Joining.waveCost_addAll, hcosts]
    rfl
  · rw [hj, joined, Joining.waveFailed_addAll]
    refine ⟨rfl, fun idx x hx => ?_⟩
    rw [hwave] at hx
    obtain ⟨t, _, heq⟩ := List.mem_map.1 hx
    cases heq
    simp [resultStatus]
  · rw [hj, joined, ← Bool.not_eq_true, Joining.hasYielded_addAll]
    rintro (h | ⟨idx, request, hx⟩)
    · cases h
    · rw [hwave] at hx
      obtain ⟨t, _, heq⟩ := List.mem_map.1 hx
      cases heq

/-- The joining of a wave of nodes that succeed is broken off only by the budget of a node. -/
theorem joining_of_allSucceed (g : Graph S) (threadId : String) (cancellation : Bool) (hsucc : env.AllSucceed n node)
    (v : Waves S) :
    (∃ j, g.joining env threadId cancellation v n = .ok j) ∧ g.NodesAfford v threadId cancellation node ∨
      (∃ t ∈ v.tasks threadId cancellation, ∃ limit dag,
        exceeded (g.effectiveNodeBudget t.nodeName) (node t).info.cost = some limit ∧
        g.joining env threadId cancellation v n = .error (.budgetExceeded (node t).info.cost limit, dag)) := by
  have hresults : (v.wave threadId cancellation env n).results =
      (env.order n (v.tasks threadId cancellation)).1.map fun t => .ok (t.idx, .ok (node t)) :=
    results_of_allSucceed hsucc _
  have horder (t : WaveTask S) : t ∈ (env.order n (v.tasks threadId cancellation)).1 ↔
    t ∈ v.tasks threadId cancellation :=
    (env.order n (v.tasks threadId cancellation)).2.mem_iff
  have hname (t : WaveTask S) (ht : t ∈ v.tasks threadId cancellation) : t.nodeName = v.dag.stepType t.idx := by
    obtain ⟨idx, _, rfl⟩ := List.mem_map.1 ht
    rfl
  have hstep (pre : List (JoinResult S)) (k : Nat) :
      ((⟨v.dag.setStatuses (v.dag.ready v.completed) .running, v.completed, [], 0, false, [], [], none⟩ :
        Joining S).addAll pre).dag.stepType k = v.dag.stepType k := by
    rw [Joining.stepType_addAll, DAG.stepType_setStatuses]
  unfold Graph.joining
  cases hjoin : g.joinAll (v.wave threadId cancellation env n).results
      { dag := v.dag.setStatuses (v.dag.ready v.completed) .running, completed := v.completed } with
  | ok j =>
    refine Or.inl ⟨⟨j, rfl⟩, fun t ht => ?_⟩
    have hmem : (.ok (t.idx, .ok (node t)) : JoinResult S) ∈ (v.wave threadId cancellation env n).results := by
      rw [hresults]
      exact List.mem_map.2 ⟨t, (horder t).2 ht, rfl⟩
    obtain ⟨pre, post, hsplit⟩ := List.append_of_mem hmem
    have hnone := Graph.refuses_of_joinAll_ok hjoin hsplit
    rw [Graph.refuses_success, hstep, ← hname t ht] at hnone
    exact Option.map_eq_none_iff.1 hnone
  | error e =>
    obtain ⟨pre, res, post, hsplit, hrefuses⟩ := Graph.joinAll_eq_error hjoin
    have hmem : res ∈ (v.wave threadId cancellation env n).results := by
      rw [hsplit]
      simp
    rw [hresults] at hmem
    obtain ⟨t, ht, rfl⟩ := List.mem_map.1 hmem
    obtain ⟨limit, hlimit, rfl⟩ := Option.map_eq_some_iff.1 hrefuses
    rw [hstep, ← hname t ((horder t).1 ht)] at hlimit
    exact Or.inr ⟨t, (horder t).1 ht, limit, _, hlimit, rfl⟩

/-- What a round can do where every node succeeds. -/
inductive AdvanceRound [State S] [Merge S] (env : Env S) (g : Graph S) (threadId : String) (cancellation : Bool)
    (node : WaveTask S → NodeOutput S) (v : Waves S) (w : World) (u : Run (ops S) WaveError (WaveFlow S) World) : Prop
  | ended (hwave : v.dag.wave = []) (hpending : v.dag.namesOf [.pending] = []) (hres : u.result = .ok (.stop v))
      (hwrites : writes u.trace = []) (hwaves : waves u.trace = [])
  | deadlocked (hwave : v.dag.wave = []) (hpending : v.dag.namesOf [.pending] ≠ [])
      (hres : u.result = .error (.dagDeadlock (", ".intercalate (v.dag.namesOf [.pending])), v.dag))
      (hwrites : writes u.trace = []) (hwaves : waves u.trace = [])
  | gated (nextNode : String) (val : Value) (id : String) (hgate : g.WaveGated v) (hval : g.Savable v.state val)
      (hres : u.result = .ok (.stop v))
      (hsaves : Saves env w [] (Graph.waveSave threadId v v.dag v.state nextNode .interrupted none) val id u)
      (hwaves : waves u.trace = [])
  | completed (j : Joining S) (nextNode : String) (val : Value) (id : String) (hlaunch : g.Launches v)
      (hafford : g.NodesAfford v threadId cancellation node)
      (hj : Advanced env g w.waves threadId cancellation node v j)
      (hcompleted : ∀ id, id ∈ j.completed ↔ id ∈ j.dag.doneIds)
      (haff : exceeded g.budgetEur (v.runningCostEur + v.cost env w.waves threadId cancellation node) = none)
      (hval : g.Savable (v.merged threadId cancellation node) val)
      (hres : u.result = .ok (if ∃ idx ∈ v.dag.wave, v.dag.stepType idx ∈ g.interruptAfter then
          .stop (v.afterSave j (v.merged threadId cancellation node) id)
        else .next (v.afterSave j (v.merged threadId cancellation node) id)))
      (hsaves : Saves env w [] (Graph.waveSave threadId v v.dag.advance (v.merged threadId cancellation node) nextNode
        .complete none) val id u)
      (hwaves : waves u.trace = [v.wave threadId cancellation env w.waves])
  | failed (e : TakelnError) (dag : DAG) (hwave : v.dag.wave ≠ []) (hres : u.result = .error (e, dag))
      (hnames : ∀ names, e ≠ .dagDeadlock names)
      (hno : ∀ val, ¬ (g.Launches v ∧ g.NodesAfford v threadId cancellation node ∧
        exceeded g.budgetEur (v.runningCostEur + v.cost env w.waves threadId cancellation node) = none ∧
        g.Savable (v.merged threadId cancellation node) val))
      (hgated : g.WaveGated v → ∀ val, ¬ g.Savable v.state val) (hwrites : writes u.trace = [])

theorem Graph.not_savable_of_saveError [State S] {state : S} {e : TakelnError} (h : g.saveError state = some e)
    (val : Value) : ¬ g.Savable state val := by
  rintro ⟨hsize, hval⟩
  unfold Graph.saveError at h
  rw [hsize, hval] at h
  cases h

/-- The error of a save is no deadlock. -/
theorem Graph.saveError_ne_dagDeadlock [State S] {state : S} {e : TakelnError} (h : g.saveError state = some e)
    (names : String) : e ≠ .dagDeadlock names := by
  rintro rfl
  unfold Graph.saveError at h
  split at h
  · rename_i e hsize
    cases h
    unfold Graph.checkCheckpointSize at hsize
    dsimp only at hsize
    cases hlen : State.toStringLen state with
    | error msg =>
      rw [hlen] at hsize
      dsimp only at hsize
      split at hsize <;> cases hsize
    | ok size =>
      rw [hlen] at hsize
      dsimp only at hsize
      split at hsize <;> cases hsize
  · cases h
  · cases h

theorem WaveRound.advance [State S] [Merge S] {u : Run (ops S) WaveError (WaveFlow S) World}
    (h : WaveRound env g threadId cancellation v w u) (hsucc : env.AllSucceed w.waves node) (hv : v.Synced) :
    AdvanceRound env g threadId cancellation node v w u := by
  cases h with
  | ended hready hpending hres hq hwaves => exact .ended (hv.ready_eq ▸ hready) hpending hres hq.writes hwaves
  | deadlocked hready hpending hres hq hwaves => exact .deadlocked (hv.ready_eq ▸ hready) hpending hres hq.writes hwaves
  | gated val id _ hgate hval hres hsaves hwaves => exact .gated _ val id hgate hval hres hsaves hwaves
  | gateFailed e hgate hval hres hq =>
    obtain ⟨idx, hidx, _⟩ := hgate.2
    exact .failed e _ (hv.ready_eq ▸ List.ne_nil_of_mem hidx) hres (Graph.saveError_ne_dagDeadlock hval)
      (fun _ h => h.1.2.1 hgate) (fun _ => Graph.not_savable_of_saveError hval) hq.writes
  | unregistered idx hgate hfind hres hq =>
    refine .failed _ _ (hv.ready_eq ▸ List.ne_nil_of_mem (List.mem_of_find?_eq_some hfind)) hres (by simp)
      (fun _ h => ?_) (fun h => absurd h hgate) hq.writes
    have hreg : ¬ g.registered (v.dag.stepType idx) := by simpa using List.find?_some hfind
    exact hreg (h.1.2.2 idx (List.mem_of_find?_eq_some hfind))
  | brokenOff e hlaunch hjoin hres hq =>
    -- as every node succeeds, only the budget of a node breaks the joining off
    rcases joining_of_allSucceed g threadId cancellation hsucc v with ⟨⟨j, hj⟩, _⟩ | ⟨t, ht, limit, dag, hlimit, herr⟩
    · cases hj.symm.trans hjoin
    · cases herr.symm.trans hjoin
      refine .failed _ dag (hv.ready_eq ▸ hlaunch.1) hres (by simp) (fun _ h => ?_)
        (fun h => absurd h hlaunch.2.1) hq.writes
      cases (h.2.1 t ht).symm.trans hlimit
  | failed j hlaunch hjoin hfailed hres hq =>
    exact absurd (advanced_of_joining hsucc hv hjoin).waveFailed hfailed
  | yielded j val id hlaunch hjoin _ hyield hval hres hsaves hwaves =>
    cases (advanced_of_joining hsucc hv hjoin).hasYielded.symm.trans hyield
  | yieldFailed j e hlaunch hjoin _ hyield hval hres hq hwaves =>
    cases (advanced_of_joining hsucc hv hjoin).hasYielded.symm.trans hyield
  | completed j val id hlaunch hjoin _ _ haff hval hres hsaves hwaves =>
    have hj := advanced_of_joining hsucc hv hjoin
    have hcompleted := mem_completed_of_joining hjoin hv
    have hafford : g.NodesAfford v threadId cancellation node := by
      rcases joining_of_allSucceed g threadId cancellation hsucc v with ⟨_, h⟩ | ⟨t, ht, limit, dag, _, herr⟩
      · exact h
      · cases herr.symm.trans hjoin
    rw [hj.state] at hval hsaves hres
    rw [hj.dag] at hsaves
    rw [hv.ready_eq] at hres
    rw [hj.cost] at haff
    exact .completed j _ val id hlaunch hafford hj hcompleted haff hval hres hsaves hwaves
  | completeFailed j e hlaunch hjoin _ _ hno hres hq hwaves =>
    have hj := advanced_of_joining hsucc hv hjoin
    rw [hj.state, hj.cost] at hno
    -- the wave is over the budget, or its state cannot be saved
    rcases hno with ⟨limit, hlimit, rfl⟩ | ⟨_, herr⟩
    · refine .failed _ _ (hv.ready_eq ▸ hlaunch.1) hres (by simp) (fun _ h => ?_)
        (fun h => absurd h hlaunch.2.1) hq.writes
      cases h.2.2.1.symm.trans hlimit
    · exact .failed e _ (hv.ready_eq ▸ hlaunch.1) hres (Graph.saveError_ne_dagDeadlock herr)
        (fun val h => Graph.not_savable_of_saveError herr val h.2.2.2) (fun h => absurd h hlaunch.2.1) hq.writes

end Succeed

end Takeln
