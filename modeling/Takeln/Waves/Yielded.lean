import Takeln.Waves.Rounds

/-!
# Resuming a DAG that yielded

A run of a DAG that stops at a yield checkpoints the yielded nodes as `Yielded`.  A later `resume_dag` takes that status
over, and only `Pending` nodes are ever launched: no yielded node is executed again (`resumeDag_yielded`), whatever
waits for it is stuck, and the resume reports either success or a deadlock.
-/

namespace Takeln

open Effect Effect.Prog

variable {S : Type} [State S] [Merge S] {env env' : Env S} {g g' : Graph S} {threadId : String}
  {cancellation cancellation' : Bool} {v : Waves S} {w w' : World} {k : Nat}

/-! ### What is kept -/

/-- What is not launched in any wave keeps its status; a status that only `Pending` nodes lose is kept for ever. -/
theorem runWaves_kept {fuel : Nat} {status : NodeStatus} {u : Run (ops S) WaveError (S × DAG) World}
    (hstatus : status ≠ .pending)
    (hu : exec (memory env) (g.runWaves threadId cancellation fuel v) w = some u)
    (hk : v.dag.statusAt k = some status) :
    k ∉ launched u.trace ∧ (∀ state dag, u.result = .ok (state, dag) → dag.statusAt k = some status) ∧
      ∀ e dag, u.result = .error (e, dag) → dag.statusAt k = some status := by
  induction fuel generalizing v w u with
  | zero =>
    cases hu
    refine ⟨List.not_mem_nil, by rintro _ _ ⟨⟩, ?_⟩
    rintro _ _ ⟨⟩
    exact hk
  | succ fuel ih =>
    obtain ⟨u₁, hround, hcase⟩ := runWaves_cases hu
    have hready : k ∉ v.dag.ready v.completed := by
      intro hmem
      have hpending := (DAG.statusAt_of_mem_ready hmem).symm.trans hk
      exact hstatus (Option.some.inj hpending).symm
    obtain ⟨hnot, hok, herr⟩ := hround.frame hready
    rcases hcase with ⟨e, hres, rfl⟩ | ⟨v', tr, hres, rfl, rfl⟩ | ⟨v', hres, rfl⟩ | ⟨v', u₂, hres, hu₂, rfl⟩
    · refine ⟨hnot, by rintro _ _ ⟨⟩, ?_⟩
      rintro _ _ ⟨⟩
      exact (herr _ _ hres).trans hk
    · refine ⟨by simpa [launched, waves, joinedWave] using hnot, ?_, by rintro _ _ ⟨⟩⟩
      rintro _ _ ⟨⟩
      exact (hok _ hres).trans hk
    · refine ⟨hnot, ?_, by rintro _ _ ⟨⟩⟩
      rintro _ _ ⟨⟩
      exact (hok _ hres).trans hk
    · obtain ⟨hnot', hok', herr'⟩ := ih hu₂ ((hok _ hres).trans hk)
      refine ⟨?_, hok', herr'⟩
      rw [trace_after, launched_append, List.mem_append]
      exact fun h => h.elim hnot hnot'

/-- A run of a DAG neither launches a node that is not `Pending` nor changes its status. -/
theorem runDag_kept {dag : DAG} {state : S} {depth : Nat} {status : NodeStatus}
    {u : Run (ops S) WaveError (S × DAG) World} (hstatus : status ≠ .pending)
    (hu : exec (memory env) (g.runDag threadId cancellation dag state depth) w = some u)
    (hk : dag.statusAt k = some status) :
    k ∉ launched u.trace ∧ (∀ state dag, u.result = .ok (state, dag) → dag.statusAt k = some status) ∧
      ∀ e dag, u.result = .error (e, dag) → dag.statusAt k = some status := by
  rcases runDag_cases hu with ⟨_, rfl⟩ | ⟨_, msg, rfl⟩ | ⟨u₁, _, _, hu₁, rfl⟩
  · refine ⟨List.not_mem_nil, by rintro _ _ ⟨⟩, ?_⟩
    rintro _ _ ⟨⟩
    exact hk
  · refine ⟨List.not_mem_nil, by rintro _ _ ⟨⟩, ?_⟩
    rintro _ _ ⟨⟩
    exact hk
  · obtain ⟨hnot, hok, herr⟩ := runWaves_kept hstatus hu₁ hk
    exact ⟨by simpa [launched, waves, joinedWave] using hnot, hok, herr⟩

/-! ### The run that yields -/

/-- The last checkpoint of the thread is `args`, which has the snapshot `snapshot` of a DAG of the given shape, with a
yielded node. -/
structure YieldSaved (threadId : String) (w : World) (shape : List (Uuid × String × List Uuid)) (args : SaveArgs S) :
    Prop where
  rows : ∃ id time val, State.toValue args.state = .ok val ∧
    (w.rows threadId).getLast? = some (.ofSave id time val args)
  snapshot : ∃ snapshot k, args.dag = some snapshot ∧ snapshot.shape = shape ∧ snapshot.statusAt k = some .yielded

omit [State S] [Merge S] in
/-- Joining a wave changes nothing but statuses. -/
theorem shape_of_joining {n : Nat} {j : Joining S} (h : g.joining env threadId cancellation v n = .ok j) :
    j.dag.shape = v.dag.shape := by
  rw [(joined_of_joining h).1, joined, Joining.shape_addAll, DAG.shape_setStatuses]

/-- A round that saves a yielded checkpoint last saves a yielded node. -/
theorem WaveRound.yieldSaved {u : Run (ops S) WaveError (WaveFlow S) World}
    (h : WaveRound env g threadId cancellation v w u) {args : SaveArgs S}
    (hlast : (writes u.trace).getLast? = some args) (hstatus : args.status = .yielded) :
    YieldSaved threadId u.world v.dag.shape args := by
  have quiet (hq : Quiet w [] u) : YieldSaved threadId u.world v.dag.shape args := by
    rw [hq.writes] at hlast
    cases hlast
  cases h with
  | ended _ _ _ hq => exact quiet hq
  | deadlocked _ _ _ hq => exact quiet hq
  | gateFailed _ _ _ _ hq => exact quiet hq
  | unregistered _ _ _ _ hq => exact quiet hq
  | brokenOff _ _ _ _ hq => exact quiet hq
  | failed _ _ _ _ _ hq => exact quiet hq
  | yieldFailed _ _ _ _ _ _ _ _ hq => exact quiet hq
  | completeFailed _ _ _ _ _ _ _ _ hq => exact quiet hq
  | gated _ _ _ _ _ _ hsaves =>
    rw [hsaves.writes] at hlast
    cases hlast
    cases hstatus
  | completed _ _ _ _ _ _ _ _ _ _ hsaves =>
    rw [hsaves.writes] at hlast
    cases hlast
    cases hstatus
  | yielded j val id hlaunch hjoin _ hyield hval _ hsaves =>
    rw [hsaves.writes] at hlast
    cases hlast
    obtain ⟨time, hrows⟩ := hsaves.rows
    obtain ⟨hj, hperm⟩ := joined_of_joining hjoin
    constructor
    case rows => exact ⟨id, time, val, hval.2, (congrArg List.getLast? hrows).trans List.getLast?_concat⟩
    case snapshot =>
      rw [hj, joined, Joining.hasYielded_addAll] at hyield
      obtain ⟨k, request, hk⟩ := hyield.resolve_left (by simp)
      refine ⟨j.dag, k, rfl, shape_of_joining hjoin, ?_⟩
      rw [hj, statusAt_joined_of_mem hperm hk]
      rfl

omit [State S] [Merge S] in
/-- What was written last by two parts of a run. -/
theorem getLast?_writes_append (tr tr' : List (Event (ops S))) :
    (writes (tr ++ tr')).getLast? = (writes tr').getLast?.or (writes tr).getLast? := by
  rw [writes_append, List.getLast?_append]

/-- A run of the loop that saves a yielded checkpoint last saves a yielded node. -/
theorem runWaves_yieldSaved {fuel : Nat} {u : Run (ops S) WaveError (S × DAG) World} {args : SaveArgs S}
    (hu : exec (memory env) (g.runWaves threadId cancellation fuel v) w = some u)
    (hlast : (writes u.trace).getLast? = some args) (hstatus : args.status = .yielded) :
    YieldSaved threadId u.world v.dag.shape args := by
  induction fuel generalizing v w u with
  | zero =>
    cases hu
    cases hlast
  | succ fuel ih =>
    obtain ⟨u₁, hround, hcase⟩ := runWaves_cases hu
    rcases hcase with ⟨e, _, rfl⟩ | ⟨v', tr, _, rfl, rfl⟩ | ⟨v', _, rfl⟩ | ⟨v', u₂, hres, hu₂, rfl⟩
    · exact hround.yieldSaved hlast hstatus
    · rw [getLast?_writes_append] at hlast
      have hsaved := hround.yieldSaved hlast hstatus
      exact ⟨hsaved.rows, hsaved.snapshot⟩
    · exact hround.yieldSaved hlast hstatus
    · obtain ⟨j, id, _, hjoin, rfl, args', hwrites, hcomplete⟩ := hround.of_next hres
      rw [trace_after, getLast?_writes_append, Option.or_eq_some_iff] at hlast
      rcases hlast with hlast | ⟨_, hlast⟩
      · rw [← shape_of_joining hjoin]
        exact ih hu₂ hlast
      · rw [hwrites] at hlast
        cases hlast
        cases hcomplete.symm.trans hstatus

/-- A run of a DAG that saves a yielded checkpoint last saves a yielded node. -/
theorem runDag_yieldSaved {dag : DAG} {state : S} {depth : Nat} {u : Run (ops S) WaveError (S × DAG) World}
    {args : SaveArgs S} (hu : exec (memory env) (g.runDag threadId cancellation dag state depth) w = some u)
    (hlast : (writes u.trace).getLast? = some args) (hstatus : args.status = .yielded) :
    YieldSaved threadId u.world dag.shape args := by
  rcases runDag_cases hu with ⟨_, rfl⟩ | ⟨_, msg, rfl⟩ | ⟨u₁, _, _, hu₁, rfl⟩
  · cases hlast
  · cases hlast
  · exact runWaves_yieldSaved hu₁ hlast hstatus

/-! ### The resume -/

/-- The resume fails before it launches anything. -/
def Graph.RefusesDag (g : Graph S) (dag : DAG) (depth : Nat) : Prop :=
  8 < depth ∨ g.resourceLimits.maxDagNodes < dag.nodes.length ∨
    ∃ idx ∈ dag.ready dag.doneIds, ¬ g.registered (dag.stepType idx)

/-- A node that waits for a yielded node, itself or through nodes that wait for one. -/
inductive HeldUp (dag : DAG) : DAGNode → Prop
  | yielded {n dep : DAGNode} (hdep : dep ∈ dag.nodes) (hid : dep.id ∈ n.dependsOn) (hstatus : dep.status = .yielded) :
      HeldUp dag n
  | pending {n dep : DAGNode} (hdep : dep ∈ dag.nodes) (hid : dep.id ∈ n.dependsOn) (hstatus : dep.status = .pending)
      (hheld : HeldUp dag dep) : HeldUp dag n

/-- What a resume of a snapshot with yielded nodes has to do: unless it fails for other reasons before it launches
anything, it launches each of them; if it succeeds, every node is `Done`, a new checkpoint says what is missing, or the
last wave was stopped by a gate after it; and it reports no deadlock of nodes that only wait for a yielded one. -/
structure Graph.Reexecutes (g : Graph S) (snapshot : DAG)
    (u : Run (ops S) WaveError (Option S × DAG) World) : Prop where
  relaunched : (launched u.trace ≠ [] ∨ (∃ x, u.result = .ok x) ∨
      ∃ names dag, u.result = .error (.dagDeadlock names, dag)) →
    ∀ idx, snapshot.statusAt idx = some .yielded → idx ∈ launched u.trace
  finished : ∀ state dag, u.result = .ok (state, dag) →
    (∀ n ∈ dag.nodes, n.status = .done) ∨
      (∃ args ∈ writes u.trace, args.status = .yielded ∨ args.status = .interrupted) ∨
      ∃ wave, (waves u.trace).getLast? = some wave ∧ ∃ t ∈ wave.tasks, t.nodeName ∈ g.interruptAfter
  deadlocked : ∀ names dag, u.result = .error (.dagDeadlock names, dag) →
    ∃ n ∈ dag.nodes, n.status = .pending ∧ ¬ HeldUp dag n

/-- The first round fails before it launches anything, or launches a node, or finds none ready. -/
theorem WaveRound.first {u : Run (ops S) WaveError (WaveFlow S) World}
    (h : WaveRound env g threadId cancellation v w u) (hfirst : v.isFirstWave = true) :
    ((∃ idx ∈ v.dag.ready v.completed, ¬ g.registered (v.dag.stepType idx)) ∧ launched u.trace = [] ∧
        ∃ e dag, u.result = .error (e, dag) ∧ ∀ names, e ≠ .dagDeadlock names) ∨
      (∀ idx ∈ v.dag.ready v.completed, g.registered (v.dag.stepType idx)) ∧
        (launched u.trace ≠ [] ∨ u.result = .ok (.stop v) ∨
          ∃ names dag, u.result = .error (.dagDeadlock names, dag)) := by
  have notGated : ¬ g.WaveGated v := by
    rintro ⟨hnot, _⟩
    cases hfirst.symm.trans hnot
  have busy {n : Nat} (hlaunch : g.Launches v) (hwaves : waves u.trace = [v.wave threadId cancellation env n]) :
      (∀ idx ∈ v.dag.ready v.completed, g.registered (v.dag.stepType idx)) ∧
        (launched u.trace ≠ [] ∨ u.result = .ok (.stop v) ∨
          ∃ names dag, u.result = .error (.dagDeadlock names, dag)) := by
    refine ⟨hlaunch.2.2, Or.inl ?_⟩
    rw [launched_of_wave hwaves]
    exact hlaunch.1
  have none_ready (hready : v.dag.ready v.completed = []) (idx : Nat) (hidx : idx ∈ v.dag.ready v.completed) :
      g.registered (v.dag.stepType idx) := by
    rw [hready] at hidx
    cases hidx
  cases h with
  | ended hready _ hres => exact Or.inr ⟨none_ready hready, Or.inr (Or.inl hres)⟩
  | deadlocked hready _ hres => exact Or.inr ⟨none_ready hready, Or.inr (Or.inr ⟨_, _, hres⟩)⟩
  | gated _ _ _ hgate => exact absurd hgate notGated
  | gateFailed _ hgate => exact absurd hgate notGated
  | unregistered idx _ hfind hres _ hwaves =>
    have hreg : ¬ g.registered (v.dag.stepType idx) := by simpa using List.find?_some hfind
    exact Or.inl ⟨⟨idx, List.mem_of_find?_eq_some hfind, hreg⟩, launched_of_waves_nil hwaves, _, _, hres, by simp⟩
  | brokenOff _ hlaunch _ _ _ hwaves => exact Or.inr (busy hlaunch hwaves)
  | failed _ hlaunch _ _ _ _ hwaves => exact Or.inr (busy hlaunch hwaves)
  | yielded _ _ _ hlaunch _ _ _ _ _ _ hwaves => exact Or.inr (busy hlaunch hwaves)
  | yieldFailed _ _ hlaunch _ _ _ _ _ _ hwaves => exact Or.inr (busy hlaunch hwaves)
  | completed _ _ _ hlaunch _ _ _ _ _ _ _ hwaves => exact Or.inr (busy hlaunch hwaves)
  | completeFailed _ _ hlaunch _ _ _ _ _ _ hwaves => exact Or.inr (busy hlaunch hwaves)

/-- A run of a DAG fails before it launches anything, or launches a node, or ends without one. -/
theorem runDag_first {dag : DAG} {state : S} {depth : Nat} {u : Run (ops S) WaveError (S × DAG) World}
    (hu : exec (memory env) (g.runDag threadId cancellation dag state depth) w = some u) :
    (g.RefusesDag dag depth ∧ launched u.trace = [] ∧
        ∃ e dag', u.result = .error (e, dag') ∧ ∀ names, e ≠ .dagDeadlock names) ∨
      ¬ g.RefusesDag dag depth ∧ (launched u.trace ≠ [] ∨ (∃ x, u.result = .ok x) ∨
        ∃ names dag', u.result = .error (.dagDeadlock names, dag')) := by
  rcases runDag_cases hu with ⟨hdepth, rfl⟩ | ⟨hsize, msg, rfl⟩ | ⟨u₁, hdepth, hsize, hu₁, rfl⟩
  · exact Or.inl ⟨Or.inl hdepth, rfl, _, _, rfl, by simp⟩
  · exact Or.inl ⟨Or.inr (Or.inl hsize), rfl, _, _, rfl, by simp⟩
  have hhead : launched (u₁.after [(⟨.currentHead threadId, .ok none⟩ : Event (ops S))]).trace =
    launched u₁.trace := rfl
  rw [hhead, result_after]
  obtain ⟨u₂, hround, hcase⟩ := runWaves_cases hu₁
  rcases hround.first rfl with ⟨hreg, hnone, e, dag', hres, he⟩ | ⟨hreg, hrest⟩
  · left
    refine ⟨Or.inr (Or.inr hreg), ?_⟩
    rcases hcase with ⟨e', hres', rfl⟩ | ⟨v', tr, hres', _⟩ | ⟨v', hres', _⟩ | ⟨v', u₃, hres', _⟩
    · cases hres.symm.trans hres'
      exact ⟨hnone, e, dag', rfl, he⟩
    · cases hres.symm.trans hres'
    · cases hres.symm.trans hres'
    · cases hres.symm.trans hres'
  · right
    constructor
    · rintro (h | h | ⟨idx, hidx, hno⟩)
      · omega
      · omega
      · exact hno (hreg idx hidx)
    -- what the first round launched the run has launched
    have hlaunched (rest : List (Event (ops S))) (htr : u₁.trace = u₂.trace ++ rest) (hne : launched u₂.trace ≠ []) :
        launched u₁.trace ≠ [] := by
      rw [htr, launched_append]
      exact fun h => hne (List.append_eq_nil_iff.1 h).1
    rcases hcase with ⟨e, hres, rfl⟩ | ⟨v', tr, hres, rfl, _⟩ | ⟨v', hres, rfl⟩ | ⟨v', u₃, hres, _, rfl⟩
    · rcases hrest with hne | hstop | ⟨names, dag', hdead⟩
      · exact Or.inl hne
      · cases hres.symm.trans hstop
      · cases hres.symm.trans hdead
        exact Or.inr (Or.inr ⟨names, dag', rfl⟩)
    · exact Or.inr (Or.inl ⟨_, rfl⟩)
    · exact Or.inr (Or.inl ⟨_, rfl⟩)
    · rcases hrest with hne | hstop | ⟨names, dag', hdead⟩
      · exact Or.inl (hlaunched u₃.trace rfl hne)
      · cases hres.symm.trans hstop
      · cases hres.symm.trans hdead

/-- A resume launches no yielded node, and leaves it yielded. -/
theorem resumeDag_yielded {dag saved : DAG} {state : S} {info : CheckpointMeta} {depth : Nat}
    {u : Run (ops S) WaveError (Option S × DAG) World}
    (hload : w.store.loadState threadId = .ok (some ⟨state, info, some saved⟩)) (hinfo : info.status = .yielded)
    (hids : dag.nodes.map DAGNode.id = saved.nodes.map DAGNode.id) (hnodup : (saved.nodes.map DAGNode.id).Nodup)
    (hk : saved.statusAt k = some .yielded)
    (hu : exec (memory env) (g.resumeDag threadId cancellation dag depth) w = some u) :
    k ∉ launched u.trace ∧ (∀ state dag, u.result = .ok (state, dag) → dag.statusAt k = some .yielded) ∧
      ∀ e dag, u.result = .error (e, dag) → dag.statusAt k = some .yielded := by
  obtain ⟨u₁, hu₁, hres, _, htr⟩ := resumeDag_of_loaded hload (by simp [hinfo]) hu
  rw [← DAG.statusAt_restoreStatuses hids hnodup] at hk
  obtain ⟨hnot, hok, herr⟩ := runDag_kept (by simp) hu₁ hk
  refine ⟨?_, fun state dag hr => ?_, fun e dag hr => ?_⟩
  · rw [htr]
    exact hnot
  · cases hx : u₁.result with
    | error e =>
      rw [hres, hx] at hr
      cases hr
    | ok x =>
      rw [hres, hx] at hr
      cases hr
      exact hok _ _ hx
  · cases hx : u₁.result with
    | error e' =>
      rw [hres, hx] at hr
      cases hr
      exact herr _ _ hx
    | ok x =>
      rw [hres, hx] at hr
      cases hr

/-- A resume of a DAG that yielded does what it should only if it is refused before it launches anything. -/
theorem resumeDag_reexecutes_iff [RoundTrip S] {dag dag' snapshot : DAG} {state : S} {depth depth' : Nat}
    {args : SaveArgs S} {u : Run (ops S) WaveError (S × DAG) World} {u' : Run (ops S) WaveError (Option S × DAG) World}
    (hids : (dag.nodes.map DAGNode.id).Nodup)
    (hu : exec (memory env) (g.runDag threadId cancellation dag state depth) w = some u)
    (hlast : (writes u.trace).getLast? = some args) (hstatus : args.status = .yielded)
    (hdag : args.dag = some snapshot) (hrows : w'.rows threadId = u.world.rows threadId)
    (hids' : dag'.nodes.map DAGNode.id = dag.nodes.map DAGNode.id)
    (hu' : exec (memory env') (g'.resumeDag threadId cancellation' dag' depth') w' = some u') :
    g'.Reexecutes snapshot u' ↔ g'.RefusesDag (dag'.restoreStatuses snapshot) depth' := by
  obtain ⟨⟨id, time, val, hval, hrow⟩, snapshot', k, hdag', hshape, hk⟩ := runDag_yieldSaved hu hlast hstatus
  cases hdag.symm.trans hdag'
  have hsame := DAG.map_id_eq_of_shape hshape
  have hload := loadState_of_getLast? hval (hrows ▸ hrow : (w'.rows threadId).getLast? = _)
  rw [hdag] at hload
  have hnever := (resumeDag_yielded hload hstatus (hids'.trans hsame.symm) (hsame ▸ hids) hk hu').1
  obtain ⟨u₁, hu₁, hres, _, htr⟩ := resumeDag_of_loaded hload
    (by simp [MemoryCheckpoint.toMeta, MemoryCheckpoint.ofSave, hstatus]) hu'
  have hlaunched : launched u'.trace = launched u₁.trace := by
    rw [htr]
    rfl
  rcases runDag_first hu₁ with ⟨hrefused, hnone, e, dag₁, herr, he⟩ | ⟨hrefused, hgoes⟩
  -- it is refused before a wave is launched
  · refine iff_of_true ⟨?_, ?_, ?_⟩ hrefused
    · rw [hlaunched, hnone, hres, herr]
      rintro (h | ⟨x, hx⟩ | ⟨names, dag₂, hx⟩)
      · exact absurd rfl h
      · cases hx
      · cases hx
        exact absurd rfl (he names)
    · intro state' dag₂ hx
      rw [hres, herr] at hx
      cases hx
    · intro names dag₂ hx
      rw [hres, herr] at hx
      cases hx
      exact absurd rfl (he names)
  -- it runs, but the yielded node is not launched
  · refine iff_of_false (fun h => hnever (h.relaunched ?_ k hk)) hrefused
    rw [hlaunched, hres]
    rcases hgoes with h | ⟨x, hx⟩ | ⟨names, dag₂, hx⟩
    · exact Or.inl h
    · exact Or.inr (Or.inl ⟨_, by rw [hx]; rfl⟩)
    · exact Or.inr (Or.inr ⟨names, dag₂, by rw [hx]; rfl⟩)

/-! ### A node that waits for a yielded one -/

section Examples

/-- `B` after `A`. -/
def inARow : DAG := ⟨[⟨0, "A", [], .pending⟩, ⟨1, "B", [0], .pending⟩]⟩

def stages : Graph Nat where
  nodes := ["A", "B"]
  edges _ := none

/-- In the first wave the nodes ask a question, later they count up. -/
def asking : Env Nat where
  newId n := s!"c{n}"
  now n := n
  answer _ _ state _ _ := .returned (.ok { state := state })
  outcome n task := .ok <| if n = 0 then .error (.yield (.new "q" "Go on?")) else .ok { state := task.state + 1 }
  order _ := inOrder

/-- The run in which `A` asks, and its resume. -/
def stopped : Run (ops Nat) WaveError (Nat × DAG) World :=
  (exec (memory asking) (stages.runDag "t" false inARow 0 0) World.empty).get (by decide +kernel)

def resumed : Run (ops Nat) WaveError (Option Nat × DAG) World :=
  (exec (memory asking) (stages.resumeDag "t" false inARow 0) stopped.world).get (by decide +kernel)

/-- The snapshot of the stopped run. -/
def waiting : DAG := ⟨[⟨0, "A", [], .yielded⟩, ⟨1, "B", [0], .pending⟩]⟩

/-- The resume launches nothing and reports a deadlock. -/
theorem resumeDag_reexecutes_false :
    exec (memory asking) (stages.runDag "t" false inARow 0 0) World.empty = some stopped ∧
      (writes stopped.trace).getLast?.map SaveArgs.status = some .yielded ∧
      (writes stopped.trace).getLast?.bind SaveArgs.dag = some waiting ∧
      exec (memory asking) (stages.resumeDag "t" false inARow 0) stopped.world = some resumed ∧
      resumed.result = .error (.dagDeadlock "B", waiting) ∧ ¬ stages.Reexecutes waiting resumed := by
  refine ⟨(Option.some_get _).symm, by decide +kernel, by decide +kernel, (Option.some_get _).symm, by decide +kernel,
    fun h => ?_⟩
  have hmem := h.relaunched (Or.inr (Or.inr ⟨"B", waiting, by decide +kernel⟩)) 0 (by decide +kernel)
  exact absurd hmem (by decide +kernel)

theorem resumeDag_reexecutes_stopped :
    stages.Reexecutes waiting resumed ↔ stages.RefusesDag (inARow.restoreStatuses waiting) 0 :=
  resumeDag_reexecutes_iff (by decide) (Option.some_get (show Option.isSome _ = true by decide +kernel)).symm
    (Option.some_get (show Option.isSome (writes stopped.trace).getLast? = true by decide +kernel)).symm
    (by decide +kernel) (by decide +kernel) rfl rfl
    (Option.some_get (show Option.isSome _ = true by decide +kernel)).symm

end Examples

end Takeln
