import Takeln.Sequential.Follows
import Takeln.Sequential.Resume
import Takeln.Threads.Saves
import Takeln.Waves.Yielded

/-!
# Snapshots

`run_dag` saves its DAG with every checkpoint, and a claim leaves the DAG of the claimed one alone; but `run_inner` and
`revert_to_yielded` save none.  So the snapshot of a thread outlives a `resume_with_input` only if that saves nothing
(`resumeWithInput_snapshot_iff`).
-/

namespace Takeln

open Effect Effect.Prog

variable {S : Type}

/-! ### The snapshot of a thread -/

/-- The snapshot in the latest checkpoint of a thread. -/
def World.snapshot (w : World) (threadId : String) : Option DAG :=
  (w.rows threadId).getLast?.bind MemoryCheckpoint.dag

/-- The same nodes, and those that were `Done` still are. -/
def DAG.KeptBy (dag dag' : DAG) : Prop :=
  dag'.nodes.map DAGNode.id = dag.nodes.map DAGNode.id ∧
    ∀ k, dag.statusAt k = some .done → dag'.statusAt k = some .done

theorem DAG.KeptBy.refl (dag : DAG) : dag.KeptBy dag := ⟨rfl, fun _ h => h⟩

theorem snapshot_eq (w : World) (t : String) : w.snapshot t = ((w.rows t).map MemoryCheckpoint.dag).getLast?.join := by
  unfold World.snapshot
  rw [List.getLast?_map]
  cases (w.rows t).getLast? <;> rfl

/-- The snapshots of a thread are those of its saves: a claim changes none of them. -/
theorem dags_of_steps [State S] {env : Env S} {w w' : World} {tr : List (Event (ops S))}
    (hs : Steps (memory env) w tr w') (t : String) :
    (w'.rows t).map MemoryCheckpoint.dag = (w.rows t).map MemoryCheckpoint.dag ++ (savesOf t tr).map SaveArgs.dag :=
  rows_map_of_steps (fun _ _ _ _ => rfl) (fun _ _ _ => rfl) hs t

/-- After saves without a snapshot there is none. -/
theorem snapshot_of_steps [State S] {env : Env S} {w w' : World} {tr : List (Event (ops S))} {t : String}
    (hs : Steps (memory env) w tr w') (hnone : ∀ args ∈ savesOf t tr, args.dag = none) :
    w'.snapshot t = if savesOf t tr = [] then w.snapshot t else none := by
  rw [snapshot_eq, snapshot_eq, dags_of_steps hs]
  split
  · rename_i hnil
    rw [hnil, List.map_nil, List.append_nil]
  · rename_i hne
    have hne' : (savesOf t tr).map SaveArgs.dag ≠ [] := fun h => hne (List.map_eq_nil_iff.1 h)
    rw [List.getLast?_append_of_ne_nil _ hne', List.getLast?_map]
    cases hlast : (savesOf t tr).getLast? with
    | none => rfl
    | some args =>
      have hdag := hnone args (List.mem_of_getLast? hlast)
      rw [Option.map_some, hdag]
      rfl

section Resume

variable [External] [State S] {env : Env S} {g : Graph S} {threadId : String} {cancellation : Bool}
  {resolvedInterrupt : Option String} {w : World} {i : String} {input : Value} {context : ResumeContext}

/-! ### What a resume saves -/

omit [External] [State S] in
theorem eq_of_written {args args' : SaveArgs S} {r : Except TakelnError CheckpointSave}
    (h : written (S := S) ⟨.saveStateBound args', r⟩ = some args) : args' = args := by
  rcases r with e | save
  · cases h
  · unfold written at h
    dsimp only at h
    split at h <;> cases h
    rfl

/-- Every save is one of the thread, and without a snapshot. -/
def withoutSnapshot (S : Type) (threadId : String) : Protocol (ops S) Unit where
  allow
    | _, .saveStateBound args => args.threadId = threadId ∧ args.dag = none
    | _, _ => True
  next _ _ _ := ()

omit [External] [State S] in
theorem withoutSnapshot_silent (q : Unit) (max : Nat) : Silent (withoutSnapshot S threadId) q max :=
  ⟨⟨trivial, fun _ => rfl⟩, fun _ => ⟨trivial, rfl⟩, fun _ => ⟨trivial, rfl⟩⟩

theorem runInner_withoutSnapshot (state : S) (node : String) (input : Option Value) (q : Unit) :
    Follows (withoutSnapshot S threadId) (g.runInner threadId cancellation resolvedInterrupt state node input) q
      fun _ _ => True := by
  refine follows_runInner (I := fun _ _ => True) trivial (fun _ => trivial) (fun _ => trivial) ?_ fun _ _ _ _ => trivial
  rintro q v -
  refine follows_loopBody (withoutSnapshot_silent _ _) (fun _ _ _ => ⟨trivial, fun _ => rfl⟩) trivial
    (fun _ => trivial) ?_
  intro args flow hsave
  refine ⟨⟨(hsave "").threadId_eq, (hsave "").dag_eq⟩, fun r => ?_⟩
  cases r.bind checkpointId with
  | error e => trivial
  | ok id =>
    dsimp only
    cases flow id <;> trivial

theorem resumeWithInput_withoutSnapshot :
    Follows (withoutSnapshot S threadId) (g.resumeWithInput threadId cancellation i input context) ()
      fun _ _ => True := by
  refine follows_resumeWithInput trivial (fun _ _ => trivial) (fun _ => trivial) (fun _ _ _ => trivial)
    fun loaded request => follows_runClaimed ?_
  refine (runInner_withoutSnapshot _ _ _ _).mono fun q x _ => ?_
  rcases x with ⟨e, lastHead⟩ | final
  · have hrevert : Follows (withoutSnapshot S threadId)
        (Graph.revertToYielded threadId loaded.state loaded.info.nextNode request lastHead) q fun _ _ => True :=
      follows_revertToYielded (fun head _ => ⟨⟨rfl, rfl⟩, fun _ => trivial⟩)
        fun _ => ⟨trivial, fun _ => trivial, fun head => ⟨⟨rfl, rfl⟩, fun _ => trivial⟩⟩
    refine hrevert.mono fun q' y _ => ?_
    cases y with
    | ok _ => exact ⟨trivial, fun _ _ => (withoutSnapshot_silent _ _).nodes⟩
    | error _ => exact fun _ => ⟨trivial, fun _ _ => (withoutSnapshot_silent _ _).nodes⟩
  · exact ⟨trivial, fun _ _ => (withoutSnapshot_silent _ _).nodes⟩

theorem resumeWithInput_saves {u : Run (ops S) TakelnError (Option S) World}
    (hu : exec (memory env) (g.resumeWithInput threadId cancellation i input context) w = some u) :
    ∀ args ∈ writes u.trace, args.threadId = threadId ∧ args.dag = none := by
  intro args hargs
  obtain ⟨⟨o, r⟩, he, hwritten⟩ := List.mem_filterMap.1 hargs
  obtain ⟨tr, tr', htr⟩ := List.append_of_mem he
  have hallow := resumeWithInput_withoutSnapshot.allow_of_exec hu htr
  cases o with
  | saveStateBound args' =>
    rwa [eq_of_written hwritten] at hallow
  | _ => cases hwritten

/-- A resume that claims the interrupt saves nothing exactly if it is sent right to the end, or fails in its first node
and cannot roll back. -/
def Graph.LeavesThread (env : Env S) (g : Graph S) (threadId : String) (cancellation : Bool) (i : String)
    (input : Value) (w : World) : Prop :=
  ∀ (loaded : Loaded S) (request : YieldRequest), Open (w.rows threadId) i →
    w.store.loadState threadId = .ok (some loaded) → Graph.checkResume threadId i input loaded = .ok request →
    (0 < g.resourceLimits.maxSequentialSteps ∧ g.resumeStart loaded request = "__END__") ∨
      (∀ val, State.toValue loaded.state ≠ .ok val) ∧ ¬ (0 < g.resourceLimits.maxSequentialSteps ∧
        g.Runs (g.resumeLoop loaded request input) ∧
        g.Completes env threadId cancellation (g.resumeLoop loaded request input) w.calls)

/-- A loop that makes no step fails. -/
theorem runLoop_zero {v : Loop S} {u : Run (ops S) RunError S World} {k : Nat} (hk : k = 0)
    (hu : exec (memory env) (g.runLoop threadId cancellation resolvedInterrupt k v) w = some u) :
    ∃ e, u.result = .error e := by
  subst hk
  cases hu
  exact ⟨_, rfl⟩

/-- The run of a claimed interrupt saves nothing exactly if it is sent right to the end, or fails in its first node and
cannot roll back. -/
theorem ClaimedRun.writes_eq_nil_iff {loaded : Loaded S} {request : YieldRequest} {v : Loop S}
    {u₁ : Run (ops S) RunError S World} {u : Run (ops S) TakelnError (Option S) World} (hstate : v.state = loaded.state)
    (hrun : exec (memory env) (g.runLoop threadId cancellation resolvedInterrupt
      g.resourceLimits.maxSequentialSteps v) w = some u₁)
    (hcase : RunCase env g threadId cancellation resolvedInterrupt v w u₁)
    (hend : ClaimedRun threadId loaded request some u₁ u) :
    writes u.trace = [] ↔ (0 < g.resourceLimits.maxSequentialSteps ∧ v.currentNodeName = "__END__") ∨
      (∀ val, State.toValue loaded.state ≠ .ok val) ∧ ¬ (0 < g.resourceLimits.maxSequentialSteps ∧ g.Runs v ∧
        g.Completes env threadId cancellation v w.calls) := by
  -- a failed loop that wrote nothing: the rollback writes, unless the state has no value
  have failed {e : RunError} (hres : u₁.result = .error e) (hwrites : writes u₁.trace = [])
      (hend' : ¬ (0 < g.resourceLimits.maxSequentialSteps ∧ v.currentNodeName = "__END__"))
      (hno : ¬ (0 < g.resourceLimits.maxSequentialSteps ∧ g.Runs v ∧
        g.Completes env threadId cancellation v w.calls)) :
      writes u.trace = [] ↔ (0 < g.resourceLimits.maxSequentialSteps ∧ v.currentNodeName = "__END__") ∨
        (∀ val, State.toValue loaded.state ≠ .ok val) ∧ ¬ (0 < g.resourceLimits.maxSequentialSteps ∧ g.Runs v ∧
          g.Completes env threadId cancellation v w.calls) := by
    cases hend with
    | finished _ hfinal => cases hres.symm.trans hfinal
    | rolledBack _ _ _ val id time head hval _ hrev =>
      rw [hrev, hwrites]
      simp [hend', hval]
    | stuck _ _ _ _ _ hstuck hval =>
      rw [hstuck, hwrites]
      exact iff_of_true rfl (Or.inr ⟨hval, hno⟩)
  cases hcase with
  | noSteps hlimit e hres hq =>
    exact failed hres hq.writes (fun h => by omega) fun h => by omega
  | unregistered hname hreg e hres hq =>
    exact failed hres hq.writes (fun h => hname h.2) fun h => hreg h.2.1.2.2
  | failed hlimit hruns hcomp hyield e hres n hq =>
    exact failed hres hq.writes (fun h => hruns.1 h.2) fun h => hcomp h.2.2
  | ended hname hres hq =>
    have hpos : 0 < g.resourceLimits.maxSequentialSteps := by
      by_contra hzero
      obtain ⟨e, he⟩ := runLoop_zero (by omega) hrun
      cases hres.symm.trans he
    cases hend with
    | finished _ _ _ _ hwrites =>
      rw [hwrites, hq.writes]
      exact iff_of_true rfl (Or.inl ⟨hpos, hname⟩)
    | rolledBack _ hfail => cases hres.symm.trans hfail
    | stuck _ hfail => cases hres.symm.trans hfail
  | yielded hlimit hruns request' hyields n val id hres hsaves =>
    obtain ⟨val', _, hsavable⟩ := hyields
    rw [hstate] at hsavable
    cases hend with
    | finished _ _ _ _ hwrites =>
      rw [hwrites, hsaves.writes]
      simp [hruns.1, hsavable.2]
    | rolledBack _ hfail => cases hres.symm.trans hfail
    | stuck _ hfail => cases hres.symm.trans hfail
  | completed hlimit hruns hcomp cp new _ hrows =>
    have hsaved : writes u₁.trace ≠ [] := by
      intro hnil
      have hlen := length_rows_of_steps (steps_of_exec hrun) threadId
      rw [savesOf, hnil, hrows, List.length_append, List.length_cons, List.filter_nil, List.length_nil] at hlen
      omega
    have hwrites : writes u.trace ≠ [] := by
      cases hend with
      | finished _ _ _ _ hwrites => rwa [hwrites]
      | stuck _ _ _ _ _ hwrites => rwa [hwrites]
      | rolledBack _ _ _ _ _ _ _ _ _ hwrites =>
        rw [hwrites]
        simp
    refine iff_of_false hwrites ?_
    rintro (⟨_, hname⟩ | ⟨_, hno⟩)
    · exact hruns.1 hname
    · exact hno ⟨hlimit, hruns, hcomp⟩

/-- A call saves nothing exactly under its condition. -/
theorem resumeWithInput_writes_eq_nil_iff {u : Run (ops S) TakelnError (Option S) World}
    (hu : exec (memory env) (g.resumeWithInput threadId cancellation i input context) w = some u) :
    writes u.trace = [] ↔ g.LeavesThread env threadId cancellation i input w := by
  cases resumption_of_exec hu with
  | refused hopen hq => exact iff_of_true hq.writes fun _ _ hopen' => absurd hopen' hopen
  | rejected hopen e hres hq hreject =>
    exact iff_of_true hq.writes fun loaded request _ hload hcheck => absurd hcheck (hreject loaded request hload)
  | ran hopen loaded request hload hcheck u₁ hrun hend =>
    have hiff := hend.writes_eq_nil_iff (v := g.resumeLoop loaded request input) rfl hrun (runCase_of_exec rfl hrun)
    have hcalls : (w.claimed threadId i).calls = w.calls := rfl
    rw [hcalls] at hiff
    rw [hiff]
    constructor
    · intro h loaded' request' _ hload' hcheck'
      cases hload.symm.trans hload'
      cases hcheck.symm.trans hcheck'
      exact h
    · exact fun h => h loaded request hopen hload hcheck

/-! ### The snapshot after a resume -/

/-- No `resume_dag` finds nothing to resume. -/
def Resumable (S : Type) [State S] [Merge S] (threadId : String) (w : World) : Prop :=
  ∀ (env : Env S) (g : Graph S) (cancellation : Bool) (dag : DAG) (depth : Nat)
    (u : Run (ops S) WaveError (Option S × DAG) World),
    exec (memory env) (g.resumeDag threadId cancellation dag depth) w = some u → ∀ dag', u.result ≠ .ok (none, dag')

omit [External] in
/-- Where there is a snapshot, `resume_dag` goes on from it or fails. -/
theorem resumable_of_snapshot [Merge S] {dag : DAG} (h : w.snapshot threadId = some dag) : Resumable S threadId w := by
  intro env g c dag₀ depth u hu dag' hres
  obtain ⟨last, hlast, hdag⟩ := Option.bind_eq_some_iff.1 h
  have hload : exec (memory env) ((loadState threadId : Prog (ops S) TakelnError (Option (Loaded S))).mapError
    (·, dag₀)) w =
      some ⟨(w.store.loadState threadId).mapError (·, dag₀), w,
        [⟨.loadState threadId, w.store.loadState threadId⟩]⟩ := by
    rw [exec_mapError, exec_loadState]
    rfl
  have hrow : (w.store.loadState threadId : Except TakelnError (Option (Loaded S))) = (last.load threadId).map some :=
    MemoryStore.loadState_of_last hlast
  unfold Graph.resumeDag at hu
  rw [bind_eq] at hu
  rw [hrow] at hload
  unfold MemoryCheckpoint.load at hload
  rw [hdag] at hload
  cases hval : (State.fromValue last.state : Except String S) with
  | error e =>
    rw [hval] at hload
    rw [exec_bind_error hload] at hu
    cases hu
    cases hres
  | ok state =>
    rw [hval] at hload
    rw [exec_bind_ok hload] at hu
    obtain ⟨u₁, hu₁, rfl⟩ := Option.map_eq_some_iff.1 hu
    dsimp only at hu₁
    split at hu₁
    · cases hu₁
      cases hres
    · rcases exec_bind_eq_some hu₁ with ⟨e, w₂, t₂, _, rfl⟩ | ⟨⟨final, dag₂⟩, w₂, t₂, u₂, _, hu₂, rfl⟩
      · cases hres
      · cases hu₂
        cases hres

/-- On a thread whose latest checkpoint has a snapshot, a `resume_with_input` leaves one with the same nodes, none of
them undone, if and only if it is refused, is sent right to the end, or fails in its first node and cannot roll back. -/
theorem resumeWithInput_snapshot_iff [Merge S] {dag : DAG} (hdag : w.snapshot threadId = some dag)
    {u : Run (ops S) TakelnError (Option S) World}
    (hu : exec (memory env) (g.resumeWithInput threadId cancellation i input context) w = some u) :
    ((∃ dag', u.world.snapshot threadId = some dag' ∧ dag.KeptBy dag') ∧ Resumable S threadId u.world) ↔
      g.LeavesThread env threadId cancellation i input w := by
  have hsaves := resumeWithInput_saves hu
  have hnil : savesOf threadId u.trace = writes u.trace := by
    rw [savesOf, List.filter_eq_self]
    exact fun args hargs => decide_eq_true (hsaves args hargs).1
  have hsnap := snapshot_of_steps (t := threadId) (steps_of_exec hu) fun args hargs =>
    (hsaves args (List.mem_of_mem_filter hargs)).2
  rw [hnil] at hsnap
  rw [← resumeWithInput_writes_eq_nil_iff hu]
  constructor
  · rintro ⟨⟨dag', hdag', _⟩, _⟩
    by_contra hne
    rw [hsnap, if_neg hne] at hdag'
    cases hdag'
  · intro hwrites
    rw [if_pos hwrites, hdag] at hsnap
    exact ⟨⟨dag, hsnap, DAG.KeptBy.refl dag⟩, resumable_of_snapshot hsnap⟩

end Resume

/-! ### An answer that loses a DAG -/

section Examples

attribute [local instance] shortRuns

/-- The node of the second wave asks; every call counts up. -/
def pausing : Env Nat where
  newId n := s!"c{n}"
  now n := n
  answer _ _ state _ _ := .returned (.ok { state := state + 1 })
  outcome n task := .ok <| if n = 1 then .error (.yield (.new "q" "Go on?")) else .ok { state := task.state + 1 }
  order _ := inOrder

/-- The run in which `B` asks, the call that answers it, and the resume of the DAG. -/
def paused : Run (ops Nat) WaveError (Nat × DAG) World :=
  (exec (memory pausing) (stages.runDag "t" false inARow 0 0) World.empty).get (by decide +kernel)

def answered : Run (ops Nat) TakelnError (Option Nat) World :=
  (exec (memory pausing) (stages.resumeWithInput "t" false "q" .null {}) paused.world).get (by decide +kernel)

def lost : Run (ops Nat) WaveError (Option Nat × DAG) World :=
  (exec (memory pausing) (stages.resumeDag "t" false inARow 0) answered.world).get (by decide +kernel)

/-- The snapshot of the run. -/
def partlyDone : DAG := ⟨[⟨0, "A", [], .done⟩, ⟨1, "B", [0], .yielded⟩]⟩

theorem paused_snapshot : paused.world.snapshot "t" = some partlyDone := by decide +kernel

theorem answered_exec :
    exec (memory pausing) (stages.resumeWithInput "t" false "q" .null {}) paused.world = some answered :=
  (Option.some_get _).symm

theorem resumeWithInput_snapshot_false :
    paused.world.snapshot "t" = some partlyDone ∧
      exec (memory pausing) (stages.resumeWithInput "t" false "q" .null {}) paused.world = some answered ∧
      answered.result = .ok (some 2) ∧ ¬ (∃ dag', answered.world.snapshot "t" = some dag' ∧ partlyDone.KeptBy dag') ∧
      exec (memory pausing) (stages.resumeDag "t" false inARow 0) answered.world = some lost ∧
      lost.result = .ok (none, inARow) := by
  refine ⟨paused_snapshot, answered_exec, by decide +kernel, ?_, (Option.some_get _).symm, by decide +kernel⟩
  rintro ⟨dag', hdag', _⟩
  have hnone : answered.world.snapshot "t" = none := by decide +kernel
  cases hnone.symm.trans hdag'

theorem resumeWithInput_snapshot_answered :
    ((∃ dag', answered.world.snapshot "t" = some dag' ∧ partlyDone.KeptBy dag') ∧ Resumable Nat "t" answered.world) ↔
      stages.LeavesThread pausing "t" false "q" .null paused.world :=
  resumeWithInput_snapshot_iff paused_snapshot answered_exec

end Examples

end Takeln
