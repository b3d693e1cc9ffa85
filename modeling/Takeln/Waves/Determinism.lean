import Takeln.Effect.Lockstep
import Takeln.Waves.Advance

/-!
# Order of completion

The order in which the tasks of a wave end is not seen from outside.  Two runs of `run_dag` that differ in nothing else
run in lockstep: as long as every node succeeds and there are no budgets they save the same checkpoints and come to the
same result (`runDag_deterministic`), although the outputs of a wave come in, and are counted up, in different orders.
-/

namespace Takeln

open Effect Effect.Prog

variable {S : Type} {env : Env S} {g : Graph S} {threadId : String} {cancellation : Bool} {v v' : Waves S}
  {w w' : World}

/-- The same environment, with another order in which the tasks of a wave end. -/
def Env.reorder (env : Env S) (order : Nat → (tasks : List (WaveTask S)) →
    { done : List (WaveTask S) // done.Perm tasks }) : Env S := { env with order := order }

/-- Worlds that differ in their execution history only. -/
structure World.Alike (w w' : World) : Prop where
  store : w.store = w'.store
  saves : w.saves = w'.saves
  calls : w.calls = w'.calls
  waves : w.waves = w'.waves
  seq : w.seq = w'.seq

/-- Loop states that differ only in the order of the completed ids, and in the order in which the costs were added up.
-/
structure Waves.Alike (v v' : Waves S) : Prop where
  dag : v.dag = v'.dag
  state : v.state = v'.state
  isFirstWave : v.isFirstWave = v'.isFirstWave
  expectedHead : v.expectedHead = v'.expectedHead
  synced : v.Synced
  synced' : v'.Synced

theorem Waves.Alike.ready_eq (h : v.Alike v') : v'.dag.ready v'.completed = v.dag.ready v.completed := by
  rw [h.synced'.ready_eq, h.synced.ready_eq, h.dag]

theorem Waves.Alike.tasks_eq (h : v.Alike v') : v'.tasks threadId cancellation = v.tasks threadId cancellation := by
  unfold Waves.tasks
  rw [h.ready_eq, h.dag, h.state]

/-- Rounds that end alike. -/
inductive WaveFlow.Alike : WaveFlow S → WaveFlow S → Prop
  | next {v v' : Waves S} (h : v.Alike v') : Alike (.next v) (.next v')
  | stop {v v' : Waves S} (h : v.Alike v') : Alike (.stop v) (.stop v')

/-- Results that are the same error, or rounds that end alike. -/
inductive EndsAlike : Except WaveError (WaveFlow S) → Except WaveError (WaveFlow S) → Prop
  | error (e : WaveError) : EndsAlike (.error e) (.error e)
  | ok {flow flow' : WaveFlow S} (h : flow.Alike flow') : EndsAlike (.ok flow) (.ok flow')

section

variable [State S] {order : Nat → (tasks : List (WaveTask S)) → { done : List (WaveTask S) // done.Perm tasks }}

/-- The runs compared: the worlds stay alike, and what is looked at are the saves. -/
abbrev Twins {E α E' α' : Type} (env : Env S)
    (order : Nat → (tasks : List (WaveTask S)) → { done : List (WaveTask S) // done.Perm tasks })
    (p : Prog (ops S) E α) (p' : Prog (ops S) E' α') (w w' : World) (Φ : Except E α → Except E' α' → Prop) : Prop :=
  Lockstep (memory env) (memory (env.reorder order)) World.Alike written p p' w w' Φ

/-- Everything but a wave is answered alike. -/
theorem World.Alike.answered (h : w.Alike w') {o : Op S} (ho : ∀ tasks, o ≠ .joinWave tasks) :
    Option.Rel (fun x x' => x.1 = x'.1 ∧ x.2.Alike x'.2) (memory env w o) (memory (env.reorder order) w' o) := by
  obtain ⟨store, saves, calls, waves, seq, records⟩ := w
  obtain ⟨store', saves', calls', waves', seq', records'⟩ := w'
  obtain ⟨rfl, rfl, rfl, rfl, rfl⟩ := h
  cases o with
  | joinWave tasks => exact absurd rfl (ho tasks)
  | record max r =>
    by_cases hmax : 0 < max
    · obtain ⟨_, hr⟩ := memory_record_some env hmax r ⟨store, saves, calls, waves, seq, records⟩
      obtain ⟨_, hr'⟩ := memory_record_some (env.reorder order) hmax r ⟨store, saves, calls, waves, seq, records'⟩
      rw [hr, hr']
      exact .some ⟨rfl, rfl, rfl, rfl, rfl, rfl⟩
    · rw [memory_record_none env hmax, memory_record_none (env.reorder order) hmax]
      exact .none
  | _ => exact .some ⟨rfl, rfl, rfl, rfl, rfl, rfl⟩

/-- A program without waves runs in lockstep with itself. -/
theorem twins_of_waveless {E α : Type} {p : Prog (ops S) E α} (hp : Follows waveless p () fun _ _ => True)
    (hw : w.Alike w') : Twins env order p p w w' fun x x' => x = x' :=
  .self hp (fun _ _ _ _ ho hw => hw.answered ho) hw

/-- A save and what follows it. -/
theorem twins_saveThen {args : SaveArgs S} {wrap : TakelnError → WaveError} {flow flow' : String → WaveFlow S}
    (hflow : ∀ id, (flow id).Alike (flow' id)) (hw : w.Alike w') :
    Twins env order (((g.saveChecked args).mapError wrap).bind fun id => .ret (flow id))
      (((g.saveChecked args).mapError wrap).bind fun id => .ret (flow' id)) w w' EndsAlike := by
  have hfollows : Follows waveless ((g.saveChecked args).mapError wrap) () fun _ _ => True := by
    rw [follows_mapError]
    refine follows_saveChecked (fun e => trivial) ⟨fun _ h => (by cases h), fun r => ?_⟩
    cases r.bind checkpointId <;> trivial
  refine (twins_of_waveless hfollows hw).bind fun x x' w₁ w₁' hw₁ hx => ?_
  subst hx
  cases x with
  | error e => exact .fail hw₁ (.error e)
  | ok id => exact .ret hw₁ (.ok (hflow id))

/-- Two waves of successes are recorded and taken over in step. -/
theorem twins_joinLoop (hnode : ∀ name, g.effectiveNodeBudget name = none) {outs outs' : List (Nat × NodeOutput S)}
    (hlength : outs.length = outs'.length) (j j' : Joining S) (hw : w.Alike w') :
    Twins env order (g.joinLoop (outs.map fun x => .ok (x.1, .ok x.2)) j)
      (g.joinLoop (outs'.map fun x => .ok (x.1, .ok x.2)) j') w w' fun x x' =>
        x = .ok (j.addAll (outs.map fun x => .ok (x.1, .ok x.2))) ∧
          x' = .ok (j'.addAll (outs'.map fun x => .ok (x.1, .ok x.2))) := by
  induction outs generalizing outs' j j' w w' with
  | nil =>
    rw [List.length_nil, eq_comm, List.length_eq_zero_iff] at hlength
    subst hlength
    exact .ret hw ⟨rfl, rfl⟩
  | cons out outs ih =>
    cases outs' with
    | nil => simp at hlength
    | cons out' outs' =>
      rw [List.length_cons, List.length_cons, Nat.add_right_cancel_iff] at hlength
      rw [List.map_cons, List.map_cons]
      unfold Graph.joinLoop
      dsimp only
      rw [hnode, hnode]
      have hrecord (max : Nat) (r r' : ExecutionRecord) {p p' : Prog (ops S) WaveError (Joining S)}
          {Φ : Except WaveError (Joining S) → Except WaveError (Joining S) → Prop}
          (hp : ∀ w w', w.Alike w' → Twins env order p p' w w' Φ) :
          Twins env order ((record max r).bind fun _ => p) ((record max r').bind fun _ => p') w w' Φ := by
        by_cases hmax : 0 < max
        · obtain ⟨_, hr⟩ := memory_record_some env hmax r w
          obtain ⟨_, hr'⟩ := memory_record_some (env.reorder order) hmax r' w'
          exact .perform hr hr' rfl (hp _ _ ⟨hw.store, hw.saves, hw.calls, hw.waves, hw.seq⟩)
        · exact .stuck (memory_record_none env hmax r w) (memory_record_none (env.reorder order) hmax r' w')
      exact hrecord _ _ _ fun w w' hw => ih hlength _ _ hw

end

section Rounds

variable [State S] [Merge S] {order : Nat → (tasks : List (WaveTask S)) →
  { done : List (WaveTask S) // done.Perm tasks }} {node : Nat → WaveTask S → NodeOutput S}

/-- Waves of the same tasks, joined: what each comes to is fixed by the loop states, which are alike. -/
structure JoinedAlike (env : Env S) (order : Nat → (tasks : List (WaveTask S)) →
      { done : List (WaveTask S) // done.Perm tasks }) (g : Graph S) (n : Nat) (threadId : String) (cancellation : Bool)
    (node : WaveTask S → NodeOutput S) (v v' : Waves S) (j j' : Joining S) : Prop where
  left : Advanced env g n threadId cancellation node v j
  right : Advanced (env.reorder order) g n threadId cancellation node v' j'
  completed : ∀ id, id ∈ j.completed ↔ id ∈ j.dag.doneIds
  completed' : ∀ id, id ∈ j'.completed ↔ id ∈ j'.dag.doneIds

omit [State S] in
/-- Without node budgets a wave of nodes that succeed is joined. -/
theorem exists_joining (threadId : String) (cancellation : Bool) (hnode : ∀ name, g.effectiveNodeBudget name = none)
    {n : Nat} (hsucc : env.AllSucceed n (node n)) (hv : v.Synced) :
    ∃ j, g.joinAll (v.wave threadId cancellation env n).results
      { dag := v.dag.setStatuses (v.dag.ready v.completed) .running, completed := v.completed } = .ok j ∧
      Advanced env g n threadId cancellation (node n) v j ∧ ∀ id, id ∈ j.completed ↔ id ∈ j.dag.doneIds := by
  rcases joining_of_allSucceed g threadId cancellation hsucc v with ⟨⟨j, hj⟩, _⟩ | ⟨t, _, limit, _, hlimit, _⟩
  · exact ⟨j, hj, advanced_of_joining hsucc hv hj, mem_completed_of_joining hj hv⟩
  · rw [hnode] at hlimit
    cases hlimit

/-- The joining of the same wave, in two orders. -/
theorem twins_joining (threadId : String) (cancellation : Bool)
    (order : Nat → (tasks : List (WaveTask S)) → { done : List (WaveTask S) // done.Perm tasks })
    (hsucc : ∀ n, env.AllSucceed n (node n)) (hnode : ∀ name, g.effectiveNodeBudget name = none)
    (hv : v.Alike v') (hw : w.Alike w') (n : Nat) :
    Twins env order
      (g.joinLoop (v.wave threadId cancellation env n).results
        { dag := v.dag.setStatuses (v.dag.ready v.completed) .running, completed := v.completed })
      (g.joinLoop (v'.wave threadId cancellation (env.reorder order) n).results
        { dag := v'.dag.setStatuses (v'.dag.ready v'.completed) .running, completed := v'.completed })
      w w' fun x x' => ∃ j j', x = .ok j ∧ x' = .ok j' ∧
        JoinedAlike env order g n threadId cancellation (node n) v v' j j' := by
  obtain ⟨j, hj, hadv, hcompleted⟩ := exists_joining threadId cancellation hnode (hsucc n) hv.synced
  obtain ⟨j', hj', hadv', hcompleted'⟩ := exists_joining threadId cancellation hnode
    (show (env.reorder order).AllSucceed n (node n) from hsucc n) hv.synced'
  have houts (env : Env S) (hsucc : env.AllSucceed n (node n)) (v : Waves S) :
      (v.wave threadId cancellation env n).results =
        ((env.order n (v.tasks threadId cancellation)).1.map fun t => (t.idx, node n t)).map
          fun x => .ok (x.1, .ok x.2) := by
    rw [List.map_map]
    exact results_of_allSucceed hsucc _
  have hleft := (Graph.joinAll_eq_ok hj).1
  have hright := (Graph.joinAll_eq_ok hj').1
  rw [houts env (hsucc n)] at hleft ⊢
  rw [houts (env.reorder order) (hsucc n)] at hright ⊢
  refine (twins_joinLoop hnode ?_ _ _ hw).mono ?_
  · rw [List.length_map, List.length_map, (env.order n _).2.length_eq, ((env.reorder order).order n _).2.length_eq,
      hv.tasks_eq]
  · rintro x x' ⟨rfl, rfl⟩
    exact ⟨j, j', congrArg _ hleft.symm, congrArg _ hright.symm, hadv, hadv', hcompleted, hcompleted'⟩

/-- After the joining both rounds go on alike. -/
theorem twins_afterJoin (hbudget : g.budgetEur = none) (hv : v.Alike v') (hw : w.Alike w') (ready : List Nat)
    {n : Nat} {j j' : Joining S} (hj : JoinedAlike env order g n threadId cancellation (node n) v v' j j') :
    Twins env order (g.afterJoin threadId v ready j) (g.afterJoin threadId v' ready j') w w' EndsAlike := by
  have hdag : j'.dag = j.dag := by rw [hj.right.dag, hj.left.dag, hv.dag]
  have hstate : mergeWave v'.state j'.waveStates = mergeWave v.state j.waveStates := by
    rw [hj.right.state, hj.left.state, Waves.merged, Waves.merged, Waves.outputs, Waves.outputs, hv.tasks_eq, hv.state]
  unfold Graph.afterJoin
  rw [if_neg (not_not.2 hj.left.waveFailed), if_neg (not_not.2 hj.right.waveFailed),
    if_neg (by rw [hj.left.hasYielded]; decide), if_neg (by rw [hj.right.hasYielded]; decide)]
  dsimp only
  rw [hbudget, hdag, hstate]
  have hargs (nextNode : String) (status : CheckpointStatus) (yieldRequest : Option YieldRequest) :
      Graph.waveSave threadId v' j.dag (mergeWave v.state j.waveStates) nextNode status yieldRequest =
        Graph.waveSave threadId v j.dag (mergeWave v.state j.waveStates) nextNode status yieldRequest := by
    unfold Graph.waveSave
    rw [hv.expectedHead]
  rw [hargs]
  refine twins_saveThen (fun id => ?_) hw
  have hafter : (v.afterSave j (mergeWave v.state j.waveStates) id).Alike
      (v'.afterSave j' (mergeWave v.state j.waveStates) id) :=
    ⟨hdag.symm, rfl, rfl, rfl, hj.completed, hj.completed'⟩
  split
  · exact .stop hafter
  · exact .next hafter

/-- A round goes on alike whatever the order in which its tasks end. -/
theorem twins_waveBody (hsucc : ∀ n, env.AllSucceed n (node n)) (hbudget : g.budgetEur = none)
    (hnode : ∀ name, g.effectiveNodeBudget name = none) (hv : v.Alike v') (hw : w.Alike w') :
    Twins env order (g.waveBody threadId cancellation v) (g.waveBody threadId cancellation v') w w' EndsAlike := by
  have hready := hv.ready_eq
  have hdag := hv.dag
  unfold Graph.waveBody
  dsimp only
  rw [hready, ← hdag, ← hv.isFirstWave, ← hv.state]
  split
  · split
    · exact .fail hw (.error _)
    · exact .ret hw (.ok (.stop hv))
  split
  · have hargs (nextNode : String) : Graph.waveSave threadId v' v.dag v.state nextNode .interrupted none =
        Graph.waveSave threadId v v.dag v.state nextNode .interrupted none := by
      unfold Graph.waveSave
      rw [hv.expectedHead]
    rw [hargs]
    exact twins_saveThen (fun _ => .stop hv) hw
  unfold Graph.launch
  rw [← hdag, ← hv.state]
  dsimp only
  split
  · exact .fail hw (.error _)
  simp only [DAG.stepType_setStatuses]
  -- both launch the same tasks, which end in different orders
  have hleft : memory env w (.joinWave (v.tasks threadId cancellation)) =
      some ((v.wave threadId cancellation env w.waves).results, { w with waves := w.waves + 1 }) := rfl
  have hright : memory (env.reorder order) w' (.joinWave (v.tasks threadId cancellation)) =
      some ((v'.wave threadId cancellation (env.reorder order) w.waves).results,
        { w' with waves := w'.waves + 1 }) := by
    rw [← hv.tasks_eq, hw.waves]
    rfl
  refine .perform hleft hright rfl ?_
  change Twins env order ((g.joinLoop _ _).bind _) ((g.joinLoop _ _).bind _) _ _ _
  have hw₁ : ({ w with waves := w.waves + 1 } : World).Alike { w' with waves := w'.waves + 1 } :=
    ⟨hw.store, hw.saves, hw.calls, congrArg (· + 1) hw.waves, hw.seq⟩
  have hjoin := twins_joining threadId cancellation order hsucc hnode hv hw₁ w.waves
  rw [hready, ← hdag] at hjoin
  refine hjoin.bind fun x x' w₂ w₂' hw₂ h => ?_
  obtain ⟨j, j', rfl, rfl, halike⟩ := h
  exact twins_afterJoin hbudget hv hw₂ _ halike

/-! ### Runs -/

/-- The loops run in lockstep to the same result. -/
theorem twins_runWaves (hsucc : ∀ n, env.AllSucceed n (node n)) (hbudget : g.budgetEur = none)
    (hnode : ∀ name, g.effectiveNodeBudget name = none) (k : Nat) (hv : v.Alike v') (hw : w.Alike w') :
    Twins env order (g.runWaves threadId cancellation k v) (g.runWaves threadId cancellation k v') w w'
      fun x x' => x = x' := by
  induction k generalizing v v' w w' with
  | zero =>
    unfold Graph.runWaves
    rw [hv.dag]
    exact .fail hw rfl
  | succ k ih =>
    unfold Graph.runWaves
    rw [bind_eq, bind_eq]
    refine (twins_waveBody hsucc hbudget hnode hv hw).bind fun x x' w₁ w₁' hw₁ h => ?_
    cases h with
    | error e => exact .fail hw₁ rfl
    | ok hflow =>
      cases hflow with
      | next hv₁ => exact ih hv₁ hw₁
      | @stop v v' hv₁ =>
        dsimp only [Prog.ofExcept_ok, ret_bind]
        rw [hv₁.state, hv₁.dag]
        -- only what is broadcast tells the costs
        refine .perform rfl rfl rfl (.perform rfl rfl rfl (.ret ?_ rfl))
        exact ⟨hw₁.store, hw₁.saves, hw₁.calls, hw₁.waves, congrArg (· + 1) hw₁.seq⟩

/-- Two runs of `run_dag` that differ in the order in which the tasks of each wave end save the same checkpoints and
come to the same result. -/
theorem runDag_deterministic (hsucc : ∀ n, env.AllSucceed n (node n)) (hbudget : g.budgetEur = none)
    (hnode : ∀ name, g.effectiveNodeBudget name = none)
    (order : Nat → (tasks : List (WaveTask S)) → { done : List (WaveTask S) // done.Perm tasks }) (dag : DAG)
    (state : S) (depth : Nat) (w : World) :
    Option.Rel (fun u u' => u.result = u'.result ∧ writes u.trace = writes u'.trace ∧ u.world.store = u'.world.store)
      (exec (memory env) (g.runDag threadId cancellation dag state depth) w)
      (exec (memory (env.reorder order)) (g.runDag threadId cancellation dag state depth) w) := by
  have hstart (head : Option String) : (Waves.start dag state head).Alike (Waves.start dag state head) :=
    ⟨rfl, rfl, rfl, rfl, Waves.synced_start _ _ _, Waves.synced_start _ _ _⟩
  have hw : w.Alike w := ⟨rfl, rfl, rfl, rfl, rfl⟩
  have hrun : Twins env order (g.runDag threadId cancellation dag state depth)
      (g.runDag threadId cancellation dag state depth) w w fun x x' => x = x' := by
    unfold Graph.runDag
    dsimp only
    split
    · exact .fail hw rfl
    split
    · exact .fail hw rfl
    · exact .perform rfl rfl rfl (twins_runWaves hsucc hbudget hnode _ (hstart none) hw)
  unfold Twins Lockstep at hrun
  generalize exec (memory env) (g.runDag threadId cancellation dag state depth) w = x at hrun
  generalize exec (memory (env.reorder order)) (g.runDag threadId cancellation dag state depth) w = x' at hrun
  cases hrun with
  | none => exact .none
  | some hu => exact .some ⟨hu.2.2, hu.2.1, hu.1.store⟩

section Examples

/-- Two nodes that know nothing of each other. -/
def unordered : DAG := ⟨[⟨1, "A", [], .pending⟩, ⟨2, "B", [], .pending⟩]⟩

def pairGraph : Graph Bool where
  nodes := ["A", "B"]
  edges _ := none

/-- Each node leaves its own mark, and the last one merged stays. -/
def marked (_ : Nat) (task : WaveTask Bool) : NodeOutput Bool := { state := task.nodeName = "A" }

def marking : Env Bool where
  newId n := s!"c{n}"
  now n := n
  answer _ _ _ _ _ := .returned (.ok { state := true })
  outcome n task := .ok (.ok (marked n task))
  order _ := inOrder

/-- Of the two nodes the second one may end first. -/
theorem runDag_deterministic_pair :
    Option.Rel (fun u u' => u.result = u'.result ∧ writes u.trace = writes u'.trace ∧ u.world.store = u'.world.store)
      (exec (memory marking) (pairGraph.runDag "t" false unordered false 0) World.empty)
      (exec (memory (marking.reorder fun _ tasks => ⟨tasks.reverse, tasks.reverse_perm⟩))
        (pairGraph.runDag "t" false unordered false 0) World.empty) := by
  have hsucc (n : Nat) : marking.AllSucceed n (marked n) := fun _ => rfl
  exact runDag_deterministic hsucc rfl (fun _ => rfl) _ unordered false 0 World.empty

end Examples

end Rounds

end Takeln
