import Takeln.Sequential.CrashResume
import Takeln.Waves.Path
import Takeln.Waves.Yielded

/-!
# Crashes and gates of a DAG

Calls that are stopped, by crashes right after durable writes and at gates, leave their thread on the one path of waves
of the DAG (`StoppedDag.path`), whatever the statuses the resumed calls are given.  The call that comes next goes on
from there, and where a gate stops it a resume follows, until one is not stopped: the calls that come to an end execute
the rest of the path, each node of it once, and they do so if and only if none of them exceeds the budget of the graph
(`concludesIfSolvent_of_path`).  The running total is a local variable of a call and starts at zero again behind each
gate, so this need not be what the run without gates does (`segmentedDag_iff`).
-/

namespace Takeln

open Effect Effect.Prog

variable {S α β : Type} [State S] [Merge S] {env : Env S} {g : Graph S} {threadId : String} {cancellation : Bool}
  {w₀ w w' : World} {node : String → S → NodeOutput S} {dag₀ dag dag' : DAG} {s₀ s : S} {idxs : List Nat}
  {x : Except WaveError (S × DAG)}

/-! ### Calls in a row -/

/-- A call executes the nodes `idxs` and stops before its end: right after a durable write by a crash, or at a gate. -/
inductive WaveStops (env : Env S) (g : Graph S) (p : Prog (ops S) WaveError α) (w : World) : List Nat → World → Prop
  | crashed {tr : List (Event (ops S))} {p' : Prog (ops S) WaveError α} {w' : World}
      (hr : Reaches (memory env) p w tr p' w') (hlast : EndsInWrite tr) : WaveStops env g p w (launched tr) w'
  | gated {u : Run (ops S) WaveError α World} (hu : exec (memory env) p w = some u) (hok : ∃ a, u.result = .ok a)
      (hgate : g.StoppedByGate u.trace) : WaveStops env g p w (launched u.trace) u.world

/-- A run of a DAG and then resumes of its thread, each of which stopped before its end, executed these nodes.  A resume
is given a DAG that has everything but the statuses of the first one. -/
inductive StoppedDag (env : Env S) (g : Graph S) (threadId : String) (dag₀ : DAG) (s₀ : S) (w₀ : World) :
    List Nat → World → Prop
  | run {idxs : List Nat} {w : World} (cancellation : Bool) (depth : Nat)
      (h : WaveStops env g (g.runDag threadId cancellation dag₀ s₀ depth) w₀ idxs w) :
      StoppedDag env g threadId dag₀ s₀ w₀ idxs w
  | resume {idxs idxs' : List Nat} {w w' : World} (hprev : StoppedDag env g threadId dag₀ s₀ w₀ idxs w)
      (cancellation : Bool) (depth : Nat) (dag : DAG) (hshape : dag.shape = dag₀.shape)
      (h : WaveStops env g (g.resumeDag threadId cancellation dag depth) w idxs' w') :
      StoppedDag env g threadId dag₀ s₀ w₀ (idxs ++ idxs') w'

/-- A call has come to its end: it returns, or reports a deadlock. -/
def Concludes (x : Except WaveError (S × DAG)) : Prop :=
  (∃ s dag, x = .ok (s, dag)) ∨ ∃ names dag, x = .error (.dagDeadlock names, dag)

/-- A call has come to its end, or was stopped by a gate. -/
def atConclusion (g : Graph S) (returns : S × DAG → α) :
    Verdict (ops S) WaveError α World (Except WaveError (S × DAG)) where
  last u x := ¬ g.StoppedByGate u.trace ∧ Concludes x ∧ u.result = x.map returns
  followed u := g.StoppedByGate u.trace ∧ ∃ a, u.result = .ok a

/-- What a resume is given: a DAG that has everything but the statuses of the first one, and a depth that is not too
large. -/
structure DagResume (dag₀ : DAG) where
  dag : DAG
  shape : dag.shape = dag₀.shape
  depth : Nat
  depth_le : depth ≤ 8

instance (dag₀ : DAG) : Nonempty (DagResume dag₀) := ⟨⟨dag₀, rfl, 0, by decide⟩⟩

/-- The call `p`, and behind each gate a resume of its thread, whatever it is given, come to the end `x`, and execute
`idxs`. -/
def ReachesConclusion (env : Env S) (g : Graph S) (threadId : String) (cancellation : Bool) (dag₀ : DAG)
    (p : Prog (ops S) WaveError α) (returns : S × DAG → α) (w : World) (idxs : List Nat)
    (x : Except WaveError (S × DAG)) : Prop :=
  ∃ n, Leads (memory env) launched (atConclusion g returns)
    (Restarts (memory env) launched (atConclusion g (Prod.map some id))
      (fun r : DagResume dag₀ => g.resumeDag threadId cancellation r.dag r.depth) n) p w idxs x

/-- The call that comes next, after calls that executed these nodes: a run of the DAG at first, and then resumes. -/
inductive NextDagCall (env : Env S) (g : Graph S) (threadId : String) (cancellation : Bool) (dag₀ : DAG) (s₀ : S)
    (w₀ : World) : {α : Type} → Prog (ops S) WaveError α → (S × DAG → α) → List Nat → World → Prop
  | run {depth : Nat} (hdepth : depth ≤ 8) : NextDagCall env g threadId cancellation dag₀ s₀ w₀
      (g.runDag threadId cancellation dag₀ s₀ depth) id [] w₀
  | resume {idxs : List Nat} {w : World} (h : StoppedDag env g threadId dag₀ s₀ w₀ idxs w) (r : DagResume dag₀) :
      NextDagCall env g threadId cancellation dag₀ s₀ w₀ (g.resumeDag threadId cancellation r.dag r.depth)
        (Prod.map some id) idxs w

/-! ### One call -/

/-- From `dag` in the state `s`, a program in the world `w` walks the path of the graph: where it is stopped right after
a write the thread stands on the path, and if it ends it does so as `StrideEnd` says. -/
structure Strides (env : Env S) (g : Graph S) (threadId : String) (node : String → S → NodeOutput S) (dag : DAG) (s : S)
    (w : World) (p : Prog (ops S) WaveError α) (returns : S × DAG → α) : Prop where
  stopped {tr : List (Event (ops S))} {p' : Prog (ops S) WaveError α} {w' : World}
    (hr : Reaches (memory env) p w tr p' w') (hlast : EndsInWrite tr) :
    ∃ ws dag' s', g.WavePath node dag s ws dag' s' ∧ launched tr = ws.flatten ∧ StandsAt threadId w' s' dag'
  ended {u : Run (ops S) WaveError α World} (hu : exec (memory env) p w = some u) :
    StrideEnd g threadId node dag s returns u

variable {returns : S × DAG → α}

theorem Strides.map {p : Prog (ops S) WaveError α} (h : Strides env g threadId node dag s w p returns) (f : α → β) :
    Strides env g threadId node dag s w (p.bind fun a => .ret (f a)) fun x => f (returns x) where
  stopped hr hlast := by
    rcases hr.bind_cases with ⟨p', hp⟩ | ⟨a, w₁, t₁, t₂, hp, hret, rfl⟩
    · exact h.stopped hp hlast
    · cases hret
      rw [List.append_nil] at hlast ⊢
      exact h.stopped (reaches_of_exec hp) hlast
  ended hu := by
    rcases exec_bind_eq_some hu with ⟨e, w₁, t₁, hp, rfl⟩ | ⟨a, w₁, t₁, u₁, hp, hret, rfl⟩
    · cases h.ended hp with
      | gated _ _ _ _ _ _ _ hres => cases hres
      | stuck ws dag' s' hpath hlaunched hgate hwave hres =>
        refine .stuck ws dag' s' hpath hlaunched hgate hwave ?_
        cases hx : stuckResult s' dag' with
        | error e' =>
          rw [hx] at hres
          cases hres
          rfl
        | ok a =>
          rw [hx] at hres
          cases hres
      | failed e' dag' hres hnames =>
        cases hres
        exact .failed e' dag' rfl hnames
    · cases hret
      have htrace : t₁ ++ [] = t₁ := List.append_nil t₁
      cases h.ended hp with
      | gated ws dag' s' hpath hlaunched hgate hgated hres hstands =>
        cases hres
        refine .gated ws dag' s' hpath ?_ ?_ hgated rfl hstands
        · rw [trace_after, htrace]
          exact hlaunched
        · rw [trace_after, htrace]
          exact hgate
      | stuck ws dag' s' hpath hlaunched hgate hwave hres =>
        refine .stuck ws dag' s' hpath ?_ ?_ hwave ?_
        · rw [trace_after, htrace]
          exact hlaunched
        · rw [trace_after, htrace]
          exact hgate
        · cases hx : stuckResult s' dag' with
          | error e' =>
            rw [hx] at hres
            cases hres
          | ok b =>
            rw [hx] at hres
            cases hres
            rfl
      | failed _ _ hres => cases hres

/-- An operation that is no write and no wave comes before the walk. -/
theorem Strides.perform {o : Op S} {r : o.Answer} {k : o.Answer → Prog (ops S) WaveError α}
    (h : Strides env g threadId node dag s w (k r) returns) (hr : memory env w o = some (r, w))
    (hwrite : written (S := S) ⟨o, r⟩ = none) (hwave : joinedWave (S := S) ⟨o, r⟩ = none) :
    Strides env g threadId node dag s w (Prog.perform (F := ops S) o k) returns := by
  have hwrites : writes [(⟨o, r⟩ : Event (ops S))] = [] := by simp [writes, hwrite]
  have hwaves : waves [(⟨o, r⟩ : Event (ops S))] = [] := by simp [waves, hwave]
  have hlaunched (tr : List (Event (ops S))) : launched ([⟨o, r⟩] ++ tr) = launched tr := by
    rw [launched_append, launched_of_waves_nil hwaves, List.nil_append]
  have hgates (tr : List (Event (ops S))) : g.StoppedByGate ([⟨o, r⟩] ++ tr) ↔ g.StoppedByGate tr := by
    rw [Graph.stoppedByGate_append]
    exact or_iff_right (Graph.not_stoppedByGate hwrites hwaves)
  constructor
  · intro tr p' w' hreach hlast
    cases hreach with
    | here => cases hlast
    | step hr' hrest =>
      cases hr.symm.trans hr'
      rw [← List.singleton_append] at hlast ⊢
      rw [hlaunched]
      refine h.stopped hrest (hlast.of_append ?_)
      rintro rfl
      simp [EndsInWrite, hwrite] at hlast
  · intro u hu
    rw [exec_perform hr] at hu
    obtain ⟨u₁, hu₁, rfl⟩ := Option.map_eq_some_iff.1 hu
    cases h.ended hu₁ with
    | gated ws dag' s' hpath hws hgate hgated hres hstands =>
      exact .gated ws dag' s' hpath ((hlaunched _).trans hws) ((hgates _).2 hgate) hgated hres hstands
    | stuck ws dag' s' hpath hws hgate hstuck hres =>
      exact .stuck ws dag' s' hpath ((hlaunched _).trans hws) (fun hg => hgate ((hgates _).1 hg)) hstuck hres
    | failed e dag' hres hnames => exact .failed e dag' hres hnames

/-- A program that only fails, and not with a deadlock, walks nowhere. -/
theorem Strides.fail {e : TakelnError} (hnames : ∀ names, e ≠ .dagDeadlock names) (d : DAG) :
    Strides env g threadId node dag s w (.fail (e, d)) returns where
  stopped hr hlast := by
    cases hr
    cases hlast
  ended hu := by
    cases hu
    exact .failed e d rfl hnames

variable [RoundTrip S]

theorem strides_runDag (hsucc : env.WaveSucceeds node) (dag : DAG) (s : S) (depth : Nat) (w : World) :
    Strides env g threadId node dag s w (g.runDag threadId cancellation dag s depth) id := by
  unfold Graph.runDag
  dsimp only
  split
  · exact .fail (by simp) dag
  split
  · exact .fail (by simp) dag
  refine Strides.perform (o := .currentHead threadId)
    (r := (.ok none : Except TakelnError (Option String))) ?_ rfl rfl rfl
  constructor
  · intro tr p' w' hr hlast
    exact wavePath_of_reaches hsucc (Waves.synced_start dag s none) hr hlast
  · intro u hu
    exact wavePath_of_exec hsucc (Waves.synced_start dag s none) (.refl dag) (by simp) hu

omit [State S] [Merge S] [RoundTrip S] in
/-- A DAG of the shape of a snapshot takes over the snapshot. -/
theorem DAG.restoreStatuses_eq {snapshot : DAG} (hshape : dag.shape = snapshot.shape)
    (hids : (snapshot.nodes.map DAGNode.id).Nodup) : dag.restoreStatuses snapshot = snapshot := by
  refine DAG.eq_of_shape ?_ fun k => ?_
  · rw [DAG.shape_restoreStatuses, hshape]
  · exact DAG.statusAt_restoreStatuses (DAG.map_id_eq_of_shape hshape) hids k

/-- A resume goes on where the thread stands, whatever the statuses it is given. -/
theorem strides_resumeDag (hsucc : env.WaveSucceeds node) (hstands : StandsAt threadId w s dag')
    (hshape : dag.shape = dag'.shape) (hids : (dag'.nodes.map DAGNode.id).Nodup) (depth : Nat) :
    Strides env g threadId node dag' s w (g.resumeDag threadId cancellation dag depth) (Prod.map some id) := by
  obtain ⟨⟨state, info, saved⟩, hload, rfl, rfl, hstatus⟩ := hstands
  refine Strides.perform (o := .loadState threadId)
    (r := (.ok (some ⟨state, info, some dag'⟩) : Except TakelnError (Option (Loaded S)))) ?_
    (by rw [← hload]; rfl) rfl rfl
  change Strides env g threadId node dag' state w (ite _ _ _) _
  rw [if_neg (fun h => hstatus h.1)]
  dsimp only
  rw [if_neg hstatus, DAG.restoreStatuses_eq hshape hids]
  exact (strides_runDag hsucc dag' state depth w).map fun x => (some x.1, x.2)

/-! ### All the calls -/

omit [RoundTrip S] in
/-- A walk that stops leaves the thread on the path. -/
theorem Strides.path_of_stops {p : Prog (ops S) WaveError α} (h : Strides env g threadId node dag s w p returns)
    (hstop : WaveStops env g p w idxs w') :
    ∃ ws dag' s', g.WavePath node dag s ws dag' s' ∧ idxs = ws.flatten ∧ StandsAt threadId w' s' dag' := by
  cases hstop with
  | crashed hr hlast => exact h.stopped hr hlast
  | gated hu hok hgate =>
    obtain ⟨a, ha⟩ := hok
    cases h.ended hu with
    | gated ws dag' s' hpath hlaunched _ _ _ hstands => exact ⟨ws, dag', s', hpath, hlaunched, hstands⟩
    | stuck _ _ _ _ _ hno => exact absurd hgate hno
    | failed _ _ hres => cases hres.symm.trans ha

theorem StoppedDag.path (hids : (dag₀.nodes.map DAGNode.id).Nodup) (hsucc : env.WaveSucceeds node)
    (h : StoppedDag env g threadId dag₀ s₀ w₀ idxs w) :
    ∃ ws dag s, g.WavePath node dag₀ s₀ ws dag s ∧ idxs = ws.flatten ∧ StandsAt threadId w s dag := by
  induction h with
  | run c depth hstop => exact (strides_runDag hsucc dag₀ s₀ depth w₀).path_of_stops hstop
  | resume _ c depth dag hshape hstop ih =>
    obtain ⟨ws, dag₁, s₁, hpath, rfl, hstands⟩ := ih
    have hshape₁ : dag₁.shape = dag₀.shape := hpath.waved.shape_eq
    have hids₁ : (dag₁.nodes.map DAGNode.id).Nodup := by rwa [DAG.map_id_eq_of_shape hshape₁]
    obtain ⟨ws', dag₂, s₂, hpath', rfl, hstands'⟩ :=
      (strides_resumeDag hsucc hstands (hshape.trans hshape₁.symm) hids₁ depth).path_of_stops hstop
    exact ⟨ws ++ ws', dag₂, s₂, hpath.trans hpath', List.flatten_append.symm, hstands'⟩

/-! ### Calls that lead to an end -/

section Leads

variable {p : Prog (ops S) WaveError α} {returns : S × DAG → α}
  {next : World → List Nat → Except WaveError (S × DAG) → Prop}

omit [State S] [Merge S] [RoundTrip S] in
theorem ignores_of_not_stoppedByGate {tr : List (Event (ops S))} (h : ¬ g.StoppedByGate tr) :
    (atConclusion g returns).Ignores tr := by
  intro u
  have hgate : g.StoppedByGate (u.after tr).trace ↔ g.StoppedByGate u.trace :=
    (Graph.stoppedByGate_append tr u.trace).trans (or_iff_right h)
  exact ⟨fun x => and_congr_left' (not_congr hgate), and_congr_left' hgate⟩

omit [Merge S] [RoundTrip S] in
theorem leads_map_dag (returns : S × DAG → α) {f : α → β} (hf : Function.Injective f) :
    Leads (memory env) launched (atConclusion g fun x => f (returns x)) next (p.bind fun a => .ret (f a)) w idxs x ↔
      Leads (memory env) launched (atConclusion g returns) next p w idxs x := by
  refine leads_congr (Except.map f) (exec_bind_ret f p) (fun u x => ?_) fun u => and_congr_right' ?_
  · refine and_congr_right' (and_congr_right' ?_)
    cases u.result <;> cases x <;> simp [Except.map, hf.eq_iff]
  · cases u.result <;> simp [Except.map]

omit [Merge S] [RoundTrip S] in
/-- An operation that is no write and no wave comes before. -/
theorem leads_before_dag {o : Op S} {r : o.Answer} {k : o.Answer → Prog (ops S) WaveError α}
    (hr : memory env w o = some (r, w')) (hwrite : written (S := S) ⟨o, r⟩ = none)
    (hwave : joinedWave (S := S) ⟨o, r⟩ = none) :
    Leads (memory env) launched (atConclusion g returns) next (Prog.perform (F := ops S) o k) w idxs x ↔
      Leads (memory env) launched (atConclusion g returns) next (k r) w' idxs x := by
  have hwaves : waves [(⟨o, r⟩ : Event (ops S))] = [] := by simp [waves, hwave]
  have hwrites : writes [(⟨o, r⟩ : Event (ops S))] = [] := by simp [writes, hwrite]
  exact leads_perform launched_append hr (launched_of_waves_nil hwaves)
    (ignores_of_not_stoppedByGate (Graph.not_stoppedByGate hwrites hwaves))

end Leads

/-! ### The path and the budget -/

/-- The loop of a call is at `dag` in the state `s`. -/
structure Waves.At (g : Graph S) (v : Waves S) (dag : DAG) (s : S) : Prop where
  dag : v.dag = dag
  state : v.state = s
  synced : v.Synced
  first : v.isFirstWave = true → v.runningCostEur = 0
  savable : v.isFirstWave = false → ∃ val, g.Savable v.state val

omit [Merge S] [RoundTrip S] in
theorem Waves.at_start (g : Graph S) (dag : DAG) (s : S) : (Waves.start dag s none).At g dag s :=
  ⟨rfl, rfl, Waves.synced_start dag s none, fun _ => rfl, fun h => by cases h⟩

/-- From `dag` in the state `s` on the calls come to the end `x` and execute the waves `ws` if and only if the budget
lasts. -/
def ConcludesIfSolvent (env : Env S) (g : Graph S) (threadId : String) (cancellation : Bool) (dag₀ : DAG)
    (node : String → S → NodeOutput S) (dag : DAG) (s : S) (ws : List (List Nat)) (x : Except WaveError (S × DAG)) :
    Prop :=
  ∀ (k : Nat) (v : Waves S) (w : World), v.At g dag s → ws.length < k →
    (ReachesConclusion env g threadId cancellation dag₀ (g.runWaves threadId cancellation k v) id w ws.flatten x ↔
      g.WaveSolvent env threadId cancellation node v.runningCostEur w.waves dag s)

/-- The same for the calls that begin there. -/
def StartsIfWaveSolvent (env : Env S) (g : Graph S) (threadId : String) (cancellation : Bool) (dag₀ : DAG)
    (node : String → S → NodeOutput S) (dag : DAG) (s : S) (idxs : List Nat) (x : Except WaveError (S × DAG)) : Prop :=
  ∀ w : World, ReachesConclusion env g threadId cancellation dag₀
    (g.runWaves threadId cancellation (dag.nodes.length + 1) (.start dag s none)) id w idxs x ↔
      g.WaveSolvent env threadId cancellation node 0 w.waves dag s

variable {ws : List (List Nat)}

omit [RoundTrip S] in
theorem ConcludesIfSolvent.starts (h : ConcludesIfSolvent env g threadId cancellation dag₀ node dag s ws x)
    (hlength : ws.length ≤ dag.nodes.length) :
    StartsIfWaveSolvent env g threadId cancellation dag₀ node dag s ws.flatten x := fun w =>
  h _ _ w (Waves.at_start g dag s) (by omega)

section Begin

variable {next : World → List Nat → Except WaveError (S × DAG) → Prop} {depth : Nat}

omit [RoundTrip S] in
/-- A run that begins with `dag`. -/
theorem leads_runDag_iff (hdepth : depth ≤ 8) (hsize : dag.nodes.length ≤ g.resourceLimits.maxDagNodes) :
    Leads (memory env) launched (atConclusion g id) next (g.runDag threadId cancellation dag s depth) w idxs x ↔
      Leads (memory env) launched (atConclusion g id) next
        (g.runWaves threadId cancellation (dag.nodes.length + 1) (.start dag s none)) w idxs x := by
  unfold Graph.runDag
  dsimp only
  rw [if_neg (by omega), if_neg (by omega)]
  exact leads_before_dag (o := .currentHead threadId) (r := (.ok none : Except TakelnError (Option String))) rfl rfl rfl

omit [RoundTrip S] in
/-- A resume begins where the thread stands, whatever the statuses it is given. -/
theorem leads_resumeDag_iff (hstands : StandsAt threadId w s dag') (hshape : dag.shape = dag'.shape)
    (hids : (dag'.nodes.map DAGNode.id).Nodup) (hdepth : depth ≤ 8)
    (hsize : dag'.nodes.length ≤ g.resourceLimits.maxDagNodes) :
    Leads (memory env) launched (atConclusion g (Prod.map some id)) next (g.resumeDag threadId cancellation dag depth) w
      idxs x ↔
    Leads (memory env) launched (atConclusion g id) next
      (g.runWaves threadId cancellation (dag'.nodes.length + 1) (.start dag' s none)) w idxs x := by
  obtain ⟨⟨state, info, saved⟩, hload, rfl, rfl, hstatus⟩ := hstands
  refine (leads_before_dag (o := .loadState threadId)
    (r := (.ok (some ⟨state, info, some dag'⟩) : Except TakelnError (Option (Loaded S))))
    (by rw [← hload]; rfl) rfl rfl).trans ?_
  change Leads _ _ _ _ (ite _ _ _) w idxs x ↔ _
  rw [if_neg (fun h => hstatus h.1)]
  dsimp only
  rw [if_neg hstatus, DAG.restoreStatuses_eq hshape hids]
  have hinj : Function.Injective fun x : S × DAG => (some x.1, x.2) :=
    (Option.some_injective S).prodMap Function.injective_id
  exact (leads_map_dag id hinj).trans (leads_runDag_iff hdepth hsize)

end Begin

omit [RoundTrip S] in
/-- After a call that a gate stops the resumes go on where it has left the thread. -/
theorem reachesConclusion_iff_of_gate {p : Prog (ops S) WaveError α} {returns : S × DAG → α}
    {u : Run (ops S) WaveError α World} (h : StartsIfWaveSolvent env g threadId cancellation dag₀ node dag s idxs x)
    (hshape : dag.shape = dag₀.shape) (hids : (dag₀.nodes.map DAGNode.id).Nodup)
    (hsize : dag₀.nodes.length ≤ g.resourceLimits.maxDagNodes) (hu : exec (memory env) p w = some u)
    (hok : ∃ a, u.result = .ok a) (hgate : g.StoppedByGate u.trace) (hstands : StandsAt threadId u.world s dag) :
    ReachesConclusion env g threadId cancellation dag₀ p returns w (launched u.trace ++ idxs) x ↔
      g.WaveSolvent env threadId cancellation node 0 u.world.waves dag s := by
  have hlast (x : Except WaveError (S × DAG)) : ¬ (atConclusion g returns).last u x := fun hx => hx.1 hgate
  refine (exists_congr fun n => leads_iff_of_followed hu hlast ⟨hgate, hok⟩).trans ?_
  refine exists_restarts_iff (fun r => ⟨(), fun next idxs x => ?_⟩) fun _ => h u.world
  refine leads_resumeDag_iff hstands (r.shape.trans hshape.symm) ?_ r.depth_le ?_
  · rwa [DAG.map_id_eq_of_shape hshape]
  · rwa [DAG.length_eq_of_shape hshape]

omit [RoundTrip S] in
/-- Where nothing is ready the loop ends. -/
theorem exec_runWaves_stuck (g : Graph S) (threadId : String) (cancellation : Bool) {v : Waves S} (hv : v.Synced)
    (hwave : v.dag.wave = []) (k : Nat) (w : World) :
    ∃ u, exec (memory env) (g.runWaves threadId cancellation (k + 1) v) w = some u ∧
      u.result = stuckResult v.state v.dag ∧ launched u.trace = [] ∧ ¬ g.StoppedByGate u.trace := by
  have hready : v.dag.ready v.completed = [] := hv.ready_eq.trans hwave
  unfold Graph.runWaves Graph.waveBody stuckResult
  dsimp only
  rw [if_pos hready]
  by_cases hpending : v.dag.namesOf [.pending] = []
  · rw [if_neg (not_not.2 hpending), if_pos hpending]
    exact ⟨_, rfl, rfl, rfl, Graph.not_stoppedByGate rfl rfl⟩
  · rw [if_pos hpending, if_neg hpending]
    exact ⟨_, rfl, rfl, rfl, Graph.not_stoppedByGate rfl rfl⟩

omit [State S] [Merge S] [RoundTrip S] in
theorem concludes_stuckResult (s : S) (dag : DAG) : Concludes (stuckResult s dag) := by
  unfold stuckResult
  split
  · exact Or.inl ⟨_, _, rfl⟩
  · exact Or.inr ⟨_, _, rfl⟩

/-- At a wave that no gate stops the call before. -/
theorem reachesConclusion_runWaves_of_launches (hsucc : env.WaveSucceeds node) {v : Waves S} {val : Value}
    (hv : v.At g dag s) (hgate : ¬ g.WaveGated v) (hspent : g.waveSpentAt dag v.runningCostEur = v.runningCostEur)
    (hwave : dag.wave ≠ []) (hreg : ∀ k ∈ dag.wave, g.registered (dag.stepType k))
    (hafford : ∀ k ∈ dag.wave,
      exceeded (g.effectiveNodeBudget (dag.stepType k)) (node (dag.stepType k) s).info.cost = none)
    (hval : g.Savable (dag.merged node s) val) (hrecords : 0 < g.resourceLimits.maxExecutionRecords)
    (hshape : dag.shape = dag₀.shape) (hids : (dag₀.nodes.map DAGNode.id).Nodup)
    (hsize : dag₀.nodes.length ≤ g.resourceLimits.maxDagNodes)
    (hrest : ConcludesIfSolvent env g threadId cancellation dag₀ node dag.advance (dag.merged node s) ws x)
    (hlength : ws.length ≤ dag.advance.nodes.length) {k : Nat} (hk : ws.length < k) (w : World) :
    ReachesConclusion env g threadId cancellation dag₀ (g.runWaves threadId cancellation (k + 1) v) id w
      (dag.wave ++ ws.flatten) x ↔ g.WaveSolvent env threadId cancellation node v.runningCostEur w.waves dag s := by
  obtain ⟨rfl, rfl, hsynced, _, _⟩ := hv
  obtain ⟨⟨y, w₁, t₁⟩, hbody⟩ := exec_waveBody_isSome env g threadId cancellation hrecords v w
  rw [Graph.waveSolvent_iff hwave, hspent]
  cases strideRound_of_exec hsucc hsynced hbody with
  | stuck h => exact absurd h hwave
  | gated _ h => exact absurd h hgate
  | completed args v' val' _ _ _ hbudget _ _ hres hdag hstate hcost hsynced' hwrites hstatus _ wave hwaves htasks
      hlaunched hstands hfirst =>
    have hlaunched₁ : launched t₁ = v.dag.wave := hlaunched
    have hnext : w₁.waves = w.waves + 1 := by
      rw [waves_of_steps (steps_of_exec hbody), hwaves]
      rfl
    have hstop := Graph.stoppedByGate_of_wave (g := g) hwrites hstatus hwaves htasks
    rw [← hlaunched₁, and_iff_right hbudget, ← hnext]
    rw [hstate, hdag] at hstands
    by_cases hafter : ∃ k ∈ v.dag.wave, v.dag.stepType k ∈ g.interruptAfter
    · rw [if_pos hafter] at hres
      cases hres
      obtain ⟨tr', hu, hwrites', hwaves'⟩ := exec_runWaves_stop (k := k) hbody
      have hlaunched' : launched (t₁ ++ tr') = launched t₁ := by
        rw [launched_append, launched_of_waves_nil hwaves', List.append_nil]
      rw [Graph.waveSpentAfter, if_pos hafter, ← hlaunched']
      exact reachesConclusion_iff_of_gate (hrest.starts hlength) ((DAG.shape_advance _).trans hshape) hids hsize hu
        ⟨_, rfl⟩ ((g.stoppedByGate_append t₁ tr').2 (Or.inl (hstop.2 hafter))) (hstands.congr rfl)
    · rw [if_neg hafter] at hres
      cases hres
      rw [Graph.waveSpentAfter, if_neg hafter, ← hcost]
      refine (exists_congr fun n => leads_after launched_append (exec_runWaves_next hbody)
        (ignores_of_not_stoppedByGate (mt hstop.1 hafter))).trans ?_
      exact hrest k v' w₁ ⟨hdag, hstate, hsynced', fun h => (by cases hfirst.symm.trans h),
        fun _ => ⟨val, hstate ▸ hval⟩⟩ hk
  | failed e d _ hres hnames _ hno =>
    cases hres
    refine iff_of_false ?_ fun h => hno hreg hgate hafford ⟨val, hval⟩ h.1
    rintro ⟨n, hleads⟩
    rw [leads_iff (exec_runWaves_fail hbody)] at hleads
    rcases hleads with ⟨⟨_, hend, hx⟩, _⟩ | ⟨⟨_, a, ha⟩, _⟩
    · rcases hend with ⟨s', d', rfl⟩ | ⟨names, d', rfl⟩
      · cases hx
      · cases hx
        exact hnames names rfl
    · cases ha

/-- At a wave that a gate stops the call before. -/
theorem reachesConclusion_runWaves_of_gated (hsucc : env.WaveSucceeds node) {v : Waves S} (hv : v.At g dag s)
    (hwave : dag.wave ≠ []) (hgate : g.WaveGated v) (hrecords : 0 < g.resourceLimits.maxExecutionRecords)
    (hshape : dag.shape = dag₀.shape) (hids : (dag₀.nodes.map DAGNode.id).Nodup)
    (hsize : dag₀.nodes.length ≤ g.resourceLimits.maxDagNodes)
    (hstart : StartsIfWaveSolvent env g threadId cancellation dag₀ node dag s idxs x) {k : Nat} (w : World) :
    ReachesConclusion env g threadId cancellation dag₀ (g.runWaves threadId cancellation (k + 1) v) id w idxs x ↔
      g.WaveSolvent env threadId cancellation node v.runningCostEur w.waves dag s := by
  have hbefore : ∃ k ∈ dag.wave, dag.stepType k ∈ g.interruptBefore := by
    have h := hgate.2
    rwa [hv.synced.ready_eq, hv.dag] at h
  have hsolvent : g.WaveSolvent env threadId cancellation node v.runningCostEur w.waves dag s ↔
      g.WaveSolvent env threadId cancellation node 0 w.waves dag s := by
    rw [Graph.waveSolvent_iff hwave, Graph.waveSolvent_iff hwave, Graph.waveSpentAt, Graph.waveSpentAt,
      if_pos hbefore, if_pos hbefore]
  rw [hsolvent]
  obtain ⟨rfl, rfl, hsynced, _, hsavable⟩ := hv
  obtain ⟨⟨y, w₁, t₁⟩, hbody⟩ := exec_waveBody_isSome env g threadId cancellation hrecords v w
  cases strideRound_of_exec hsucc hsynced hbody with
  | gated args _ hres hwrites hstatus _ hwaves hstands =>
    cases hres
    obtain ⟨tr', hu, hwrites', hwaves'⟩ := exec_runWaves_stop (k := k) hbody
    have hlaunched : launched (t₁ ++ tr') = [] := by
      rw [launched_append, launched_of_waves_nil hwaves, launched_of_waves_nil hwaves', List.nil_append]
    have hstop : g.StoppedByGate (t₁ ++ tr') := by
      refine Or.inl ⟨args, ?_, hstatus⟩
      rw [writes_append, hwrites, hwrites']
      exact List.mem_singleton_self args
    have hnext : w₁.waves = w.waves := by
      rw [waves_of_steps (steps_of_exec hbody), hwaves]
      rfl
    rw [← List.nil_append idxs, ← hlaunched, ← hnext]
    exact reachesConclusion_iff_of_gate hstart hshape hids hsize hu ⟨_, rfl⟩ hstop (hstands.congr rfl)
  | stuck h => exact absurd h hwave
  | completed _ _ _ _ _ _ _ _ _ _ _ _ _ _ _ _ _ _ _ _ _ _ _ hungated => exact absurd hgate hungated
  | failed _ _ _ _ _ _ _ hno =>
    obtain ⟨val, hval⟩ := hsavable hgate.1
    exact absurd hval (hno hgate val)

/-- Along a path the calls come to its end if and only if the budget lasts. -/
theorem concludesIfSolvent_of_path {s' : S} (hsucc : env.WaveSucceeds node)
    (hpath : g.WavePath node dag s ws dag' s') (hstuck : dag'.wave = []) (hshape : dag.shape = dag₀.shape)
    (hids : (dag₀.nodes.map DAGNode.id).Nodup) (hsize : dag₀.nodes.length ≤ g.resourceLimits.maxDagNodes) :
    ConcludesIfSolvent env g threadId cancellation dag₀ node dag s ws (stuckResult s' dag') := by
  induction hpath with
  | refl dag s =>
    intro k v w hv hk
    obtain ⟨k, rfl⟩ := Nat.exists_eq_succ_of_ne_zero (by omega : k ≠ 0)
    obtain ⟨rfl, rfl, hsynced, _, _⟩ := hv
    obtain ⟨u, hu, hres, hlaunched, hgate⟩ := exec_runWaves_stuck g threadId cancellation hsynced hstuck k w
    refine iff_of_true ⟨0, (leads_iff hu).2 (Or.inl ⟨⟨hgate, concludes_stuckResult _ _, ?_⟩, hlaunched⟩)⟩
      (Graph.waveSolvent_of_wave hstuck _ _ _)
    rw [hres]
    cases stuckResult v.state v.dag <;> rfl
  | @step dag dag' s s' ws val hwave hreg hafford hval hrecords hrest ih =>
    have hshape' : dag.advance.shape = dag₀.shape := (DAG.shape_advance dag).trans hshape
    have hrest' := ih hstuck hshape'
    intro k v w hv hk
    obtain ⟨k, rfl⟩ := Nat.exists_eq_succ_of_ne_zero (by omega : k ≠ 0)
    rw [List.length_cons] at hk
    rw [List.flatten_cons]
    -- a call that stands in front of the wave and is not stopped there
    have hlaunches (k : Nat) (v : Waves S) (w : World) (hv : v.At g dag s) (hk : ws.length < k)
        (hgate : ¬ g.WaveGated v) :
        ReachesConclusion env g threadId cancellation dag₀ (g.runWaves threadId cancellation (k + 1) v) id w
          (dag.wave ++ ws.flatten) (stuckResult s' dag') ↔
          g.WaveSolvent env threadId cancellation node v.runningCostEur w.waves dag s := by
      refine reachesConclusion_runWaves_of_launches hsucc hv hgate ?_ hwave hreg hafford hval hrecords hshape hids hsize
        hrest' hrest.waved.length_le hk w
      unfold Graph.waveSpentAt
      split
      · rename_i hbefore
        -- the gate is passed only by the first wave of a call
        refine (hv.first ?_).symm
        by_contra hfirst
        refine hgate ⟨by simpa using hfirst, ?_⟩
        rwa [hv.synced.ready_eq, hv.dag]
      · rfl
    by_cases hgate : g.WaveGated v
    · refine reachesConclusion_runWaves_of_gated hsucc hv hwave hgate hrecords hshape hids hsize (fun w => ?_) w
      have hlength := (Graph.WavePath.step hwave hreg hafford hval hrecords hrest).waved.length_le
      rw [List.length_cons] at hlength
      exact hlaunches _ _ w (Waves.at_start g dag s) (by omega) fun h => by cases h.1
    · exact hlaunches k v w hv (by omega) hgate

omit [RoundTrip S] in
/-- A walk that leads to an end takes the rest of the path. -/
theorem Strides.exhausts_of_leads {p : Prog (ops S) WaveError α} {returns : S × DAG → α}
    {next : World → List Nat → Except WaveError (S × DAG) → Prop}
    (h : Strides env g threadId node dag s w p returns) (hreturns : Function.Injective returns)
    (hshape : dag.shape = dag₀.shape)
    (hnext : ∀ w idxs x, next w idxs x → ∀ dag s, dag.shape = dag₀.shape → StandsAt threadId w s dag →
      g.Exhausts node dag s idxs x)
    (hleads : Leads (memory env) launched (atConclusion g returns) next p w idxs x) : g.Exhausts node dag s idxs x := by
  cases hleads with
  | last hu hlast =>
    obtain ⟨hgate, hend, hres⟩ := hlast
    cases h.ended hu with
    | gated _ _ _ _ _ hstop => exact absurd hstop hgate
    | stuck ws dag' s' hpath hlaunched _ hwave hres' =>
      refine ⟨ws, dag', s', hpath, hlaunched.symm, hwave, ?_⟩
      have heq := hres.symm.trans hres'
      generalize stuckResult s' dag' = y at heq
      cases x with
      | error e =>
        cases y with
        | error e' =>
          cases heq
          rfl
        | ok b => cases heq
      | ok a =>
        cases y with
        | error e' => cases heq
        | ok b => rw [hreturns (Except.ok.inj heq)]
    | failed e dag' hres' hnames =>
      rw [hres] at hres'
      rcases hend with ⟨s', dag'', rfl⟩ | ⟨names, dag'', rfl⟩
      · cases hres'
      · cases hres'
        exact absurd rfl (hnames names)
  | followed hu hfollowed hrest =>
    obtain ⟨hgate, a, ha⟩ := hfollowed
    cases h.ended hu with
    | gated ws dag' s' hpath hlaunched _ _ _ hstands =>
      obtain ⟨ws', dag'', s'', hpath', rfl, hwave, rfl⟩ :=
        hnext _ _ _ hrest dag' s' (hpath.waved.shape_eq.trans hshape) hstands
      exact ⟨ws ++ ws', dag'', s'', hpath.trans hpath', by rw [hlaunched, List.flatten_append], hwave, rfl⟩
    | stuck _ _ _ _ _ hno => exact absurd hgate hno
    | failed _ _ hres => cases hres.symm.trans ha

theorem Strides.exhausts_of_reachesConclusion (hids : (dag₀.nodes.map DAGNode.id).Nodup) (hsucc : env.WaveSucceeds node)
    {p : Prog (ops S) WaveError α} {returns : S × DAG → α} (h : Strides env g threadId node dag s w p returns)
    (hreturns : Function.Injective returns) (hshape : dag.shape = dag₀.shape)
    (hend : ReachesConclusion env g threadId cancellation dag₀ p returns w idxs x) : g.Exhausts node dag s idxs x := by
  obtain ⟨n, hleads⟩ := hend
  have hinj : Function.Injective (Prod.map some id : S × DAG → Option S × DAG) :=
    (Option.some_injective S).prodMap Function.injective_id
  refine h.exhausts_of_leads hreturns hshape (fun w idxs x hn => ?_) hleads
  refine Restarts.sound (P := fun w idxs x => ∀ dag s, dag.shape = dag₀.shape → StandsAt threadId w s dag →
    g.Exhausts node dag s idxs x) (fun w next idxs x hnext hcalls dag s hshape hstands => ?_) hn
  have hids' : (dag.nodes.map DAGNode.id).Nodup := by rwa [DAG.map_id_eq_of_shape hshape]
  exact (strides_resumeDag hsucc hstands hshape.symm hids' 0).exhausts_of_leads hinj hshape hnext
    (hcalls ⟨dag₀, rfl, 0, by decide⟩)

/-- The run without gates comes to an end if and only if there is a path to this end and the budget lasts for it. -/
theorem exec_gateFree_runDag_iff (hsucc : env.WaveSucceeds node) (hids : (dag₀.nodes.map DAGNode.id).Nodup)
    (hsize : dag₀.nodes.length ≤ g.resourceLimits.maxDagNodes) (hend : Concludes x) {depth : Nat} (hdepth : depth ≤ 8)
    (w : World) :
    (∃ u, exec (memory env) (g.gateFree.runDag threadId cancellation dag₀ s₀ depth) w = some u ∧ u.result = x ∧
      launched u.trace = idxs) ↔
      g.Exhausts node dag₀ s₀ idxs x ∧ g.gateFree.WaveSolvent env threadId cancellation node 0 w.waves dag₀ s₀ := by
  have hstrides : Strides env g.gateFree threadId node dag₀ s₀ w
      (g.gateFree.runDag threadId cancellation dag₀ s₀ depth) id :=
    strides_runDag hsucc dag₀ s₀ depth w
  have hleads (h : g.Exhausts node dag₀ s₀ idxs x) :
      ReachesConclusion env g.gateFree threadId cancellation dag₀
        (g.gateFree.runDag threadId cancellation dag₀ s₀ depth) id w idxs x ↔
        g.gateFree.WaveSolvent env threadId cancellation node 0 w.waves dag₀ s₀ := by
    obtain ⟨ws, dag, s, hpath, rfl, hwave, rfl⟩ := h
    rw [← (concludesIfSolvent_of_path hsucc hpath.gateFree hwave rfl hids hsize).starts hpath.waved.length_le w]
    exact exists_congr fun n => leads_runDag_iff hdepth hsize
  constructor
  · rintro ⟨u, hu, rfl, rfl⟩
    cases hstrides.ended hu with
    | gated _ _ _ _ _ _ hgated => exact absurd hgated g.not_gated_gateFree
    | stuck ws dag s hpath hlaunched hgate hwave hres =>
      rw [Except.map_id, id_eq] at hres
      have hexhausts : g.Exhausts node dag₀ s₀ (launched u.trace) u.result :=
        ⟨ws, dag, s, hpath.of_gateFree, hlaunched.symm, hwave, hres⟩
      refine ⟨hexhausts, (hleads hexhausts).1 ⟨0, .last hu ⟨hgate, hend, ?_⟩⟩⟩
      rw [Except.map_id, id_eq]
    | failed e dag hres hnames =>
      rw [hres] at hend
      rcases hend with ⟨_, _, h⟩ | ⟨names, _, h⟩
      · cases h
      · cases h
        exact absurd rfl (hnames names)
  · rintro ⟨hexhausts, hsolvent⟩
    obtain ⟨n, h⟩ := (hleads hexhausts).2 hsolvent
    cases h with
    | last hu hlast =>
      refine ⟨_, hu, hlast.2.2.trans ?_, rfl⟩
      rw [Except.map_id, id_eq]
    | followed hu hfollowed =>
      obtain ⟨hgate, a, ha⟩ := hfollowed
      cases hstrides.ended hu with
      | gated _ _ _ _ _ _ hgated => exact absurd hgated g.not_gated_gateFree
      | stuck _ _ _ _ _ hno => exact absurd hgate hno
      | failed _ _ hres => cases hres.symm.trans ha

/-- The next call goes on where the calls so far have left the thread. -/
theorem NextDagCall.spec (hids : (dag₀.nodes.map DAGNode.id).Nodup) (hsucc : env.WaveSucceeds node)
    {p : Prog (ops S) WaveError α} {returns : S × DAG → α}
    (h : NextDagCall env g threadId cancellation dag₀ s₀ w₀ p returns idxs w) :
    ∃ ws dag s, g.WavePath node dag₀ s₀ ws dag s ∧ idxs = ws.flatten ∧
      Strides env g threadId node dag s w p returns ∧ Function.Injective returns ∧
      (dag₀.nodes.length ≤ g.resourceLimits.maxDagNodes → ∀ idxs' x,
        StartsIfWaveSolvent env g threadId cancellation dag₀ node dag s idxs' x →
        (ReachesConclusion env g threadId cancellation dag₀ p returns w idxs' x ↔
          g.WaveSolvent env threadId cancellation node 0 w.waves dag s)) := by
  cases h with
  | @run depth hdepth =>
    refine ⟨[], dag₀, s₀, .refl _ _, rfl, strides_runDag hsucc dag₀ s₀ depth w₀, Function.injective_id,
      fun hsize idxs' x h => ?_⟩
    rw [← h w₀]
    exact exists_congr fun n => leads_runDag_iff hdepth hsize
  | resume hstopped r =>
    obtain ⟨ws, dag, s, hpath, rfl, hstands⟩ := hstopped.path hids hsucc
    have hshape : dag.shape = dag₀.shape := hpath.waved.shape_eq
    have hids' : (dag.nodes.map DAGNode.id).Nodup := by rwa [DAG.map_id_eq_of_shape hshape]
    refine ⟨ws, dag, s, hpath, rfl, strides_resumeDag hsucc hstands (r.shape.trans hshape.symm) hids' r.depth,
      (Option.some_injective S).prodMap Function.injective_id, fun hsize idxs' x h => ?_⟩
    rw [← DAG.length_eq_of_shape hshape] at hsize
    rw [← h w]
    exact exists_congr fun n => leads_resumeDag_iff hstands (r.shape.trans hshape.symm) hids' r.depth_le hsize

/-! ### A DAG that fits -/

omit [RoundTrip S] in
theorem fits_of_runDag {depth : Nat} {tr : List (Event (ops S))} {p : Prog (ops S) WaveError (S × DAG)}
    (hr : Reaches (memory env) (g.runDag threadId cancellation dag s depth) w tr p w') (htr : tr ≠ []) :
    dag.nodes.length ≤ g.resourceLimits.maxDagNodes := by
  unfold Graph.runDag at hr
  dsimp only at hr
  split at hr
  · cases hr
    exact absurd rfl htr
  split at hr
  · cases hr
    exact absurd rfl htr
  · rename_i hsize
    exact not_lt.1 hsize

omit [RoundTrip S] in
theorem fits_of_concludes {depth : Nat} {u : Run (ops S) WaveError (S × DAG) World}
    (hu : exec (memory env) (g.runDag threadId cancellation dag s depth) w = some u) (hend : Concludes u.result) :
    dag.nodes.length ≤ g.resourceLimits.maxDagNodes := by
  rcases runDag_cases hu with ⟨_, rfl⟩ | ⟨_, msg, rfl⟩ | ⟨_, _, hsize, _⟩
  · rcases hend with ⟨_, _, h⟩ | ⟨_, _, h⟩ <;> cases h
  · rcases hend with ⟨_, _, h⟩ | ⟨_, _, h⟩ <;> cases h
  · exact hsize

omit [RoundTrip S] in
/-- A call that stopped did something. -/
theorem StoppedDag.fits (h : StoppedDag env g threadId dag₀ s₀ w₀ idxs w) :
    dag₀.nodes.length ≤ g.resourceLimits.maxDagNodes := by
  induction h with
  | resume _ _ _ _ _ _ ih => exact ih
  | run c depth hstop =>
    cases hstop with
    | crashed hr hlast =>
      refine fits_of_runDag hr ?_
      rintro rfl
      cases hlast
    | gated hu hok _ =>
      obtain ⟨a, ha⟩ := hok
      exact fits_of_concludes hu (Or.inl ⟨a.1, a.2, ha⟩)

omit [RoundTrip S] in
theorem NextDagCall.fits {p : Prog (ops S) WaveError α} {returns : S × DAG → α}
    (h : NextDagCall env g threadId cancellation dag₀ s₀ w₀ p returns idxs w) {idxs' : List Nat}
    (hend : ReachesConclusion env g threadId cancellation dag₀ p returns w idxs' x) :
    dag₀.nodes.length ≤ g.resourceLimits.maxDagNodes := by
  cases h with
  | resume hstopped _ => exact hstopped.fits
  | run hdepth =>
    obtain ⟨n, hleads⟩ := hend
    cases hleads with
    | last hu hlast =>
      refine fits_of_concludes hu ?_
      have hres := hlast.2.2
      rw [Except.map_id, id_eq] at hres
      exact hres ▸ hlast.2.1
    | followed hu hfollowed =>
      obtain ⟨_, a, ha⟩ := hfollowed
      exact fits_of_concludes hu (Or.inl ⟨a.1, a.2, ha⟩)

/-- Whatever calls were stopped before, the next one, with a resume behind each gate, comes to its end exactly as the
run without gates does, with the same state and statuses or the same deadlock and the same nodes executed by all the
calls, none of which was `Done`, if and only if the budget of the graph refuses both or neither of them on the path. -/
theorem segmentedDag_iff (hids : (dag₀.nodes.map DAGNode.id).Nodup) (hsucc : env.WaveSucceeds node)
    {p : Prog (ops S) WaveError α} {returns : S × DAG → α}
    (hcall : NextDagCall env g threadId cancellation dag₀ s₀ w₀ p returns idxs w) :
    ∃ ws dag s, g.WavePath node dag₀ s₀ ws dag s ∧ idxs = ws.flatten ∧
      ∀ idxs' x, Concludes x → ∀ depth ≤ 8, ∀ cancellation' w',
        (((ReachesConclusion env g threadId cancellation dag₀ p returns w idxs' x ↔
            ∃ u, exec (memory env) (g.gateFree.runDag threadId cancellation' dag₀ s₀ depth) w' = some u ∧
              u.result = x ∧ launched u.trace = idxs ++ idxs') ∧
          (ReachesConclusion env g threadId cancellation dag₀ p returns w idxs' x →
            (idxs ++ idxs').Nodup ∧ ∀ k ∈ idxs ++ idxs', dag₀.statusAt k = some .pending)) ↔
        (dag₀.nodes.length ≤ g.resourceLimits.maxDagNodes → g.Exhausts node dag s idxs' x →
          (g.WaveSolvent env threadId cancellation node 0 w.waves dag s ↔
            g.gateFree.WaveSolvent env threadId cancellation' node 0 w'.waves dag₀ s₀))) := by
  obtain ⟨ws, dag, s, hpath, rfl, hstrides, hreturns, hleads⟩ := hcall.spec hids hsucc
  refine ⟨ws, dag, s, hpath, rfl, fun idxs' x hend depth hdepth cancellation' w' => ?_⟩
  have hshape : dag.shape = dag₀.shape := hpath.waved.shape_eq
  have hexhausts : ReachesConclusion env g threadId cancellation dag₀ p returns w idxs' x →
      g.Exhausts node dag s idxs' x := hstrides.exhausts_of_reachesConclusion hids hsucc hreturns hshape
  have honce : ReachesConclusion env g threadId cancellation dag₀ p returns w idxs' x →
      (ws.flatten ++ idxs').Nodup ∧ ∀ k ∈ ws.flatten ++ idxs', dag₀.statusAt k = some .pending := by
    intro h
    obtain ⟨ws', dag', s', hpath', rfl, _⟩ := hexhausts h
    have hwaved := (hpath.trans hpath').waved
    rw [← List.flatten_append]
    exact ⟨hwaved.nodup, fun k => hwaved.pending_of_mem⟩
  rw [and_iff_left honce]
  by_cases hsize : dag₀.nodes.length ≤ g.resourceLimits.maxDagNodes
  · rw [exec_gateFree_runDag_iff hsucc hids hsize hend hdepth]
    have hwhole : g.Exhausts node dag₀ s₀ (ws.flatten ++ idxs') x ↔ g.Exhausts node dag s idxs' x := by
      constructor
      · rintro ⟨ws', dag', s', hpath', hflatten, hwave, rfl⟩
        obtain ⟨rest, hrest, rfl⟩ := hpath.of_append hpath' hflatten
        exact ⟨rest, dag', s', hrest, rfl, hwave, rfl⟩
      · rintro ⟨ws', dag', s', hpath', rfl, hwave, rfl⟩
        exact ⟨ws ++ ws', dag', s', hpath.trans hpath', List.flatten_append, hwave, rfl⟩
    rw [hwhole]
    by_cases hrest : g.Exhausts node dag s idxs' x
    · have hiff : ReachesConclusion env g threadId cancellation dag₀ p returns w idxs' x ↔
          g.WaveSolvent env threadId cancellation node 0 w.waves dag s := by
        refine hleads hsize idxs' x ?_
        obtain ⟨ws', dag', s', hpath', rfl, hwave, rfl⟩ := hrest
        exact (concludesIfSolvent_of_path hsucc hpath' hwave hshape hids hsize).starts hpath'.waved.length_le
      simp only [hiff, hrest, hsize, true_and, true_implies]
    · exact iff_of_true (iff_of_false (fun h => hrest (hexhausts h)) fun h => hrest h.1) fun _ h => absurd h hrest
  · refine iff_of_true (iff_of_false (fun h => hsize (hcall.fits h)) ?_) fun h => absurd h hsize
    rintro ⟨u, hu, rfl, _⟩
    have hfits := fits_of_concludes hu hend
    exact hsize hfits

section Examples

/-- A gate after the first of two nodes in a row, and a budget of one euro. -/
def frugal : Graph Nat where
  nodes := ["A", "B"]
  edges _ := none
  budgetEur := some 1
  interruptAfter := ["A"]

/-- Every node counts up and costs one euro. -/
def spendingWaves : Env Nat where
  newId n := s!"c{n}"
  now n := n
  answer _ ctx state _ _ := .returned (.ok (costly ctx.nodeName state))
  outcome _ task := .ok (.ok (onState costly task))
  order _ := inOrder

theorem frugal_path : frugal.WavePath costly inARow 0 [inARow.wave, inARow.advance.wave] inARow.advance.advance 3 := by
  have hstate : inARow.advance.merged costly (inARow.merged costly 0) = 3 := by decide +kernel
  have hval : ∃ val, frugal.Savable (inARow.merged costly 0) val := by
    rw [show inARow.merged costly 0 = 1 by decide +kernel]
    exact ⟨_, rfl, rfl⟩
  have hval' : ∃ val, frugal.Savable (inARow.advance.merged costly (inARow.merged costly 0)) val := by
    rw [hstate]
    exact ⟨_, rfl, rfl⟩
  obtain ⟨_, hval⟩ := hval
  obtain ⟨_, hval'⟩ := hval'
  have hpath : frugal.WavePath costly inARow 0 [inARow.wave, inARow.advance.wave] inARow.advance.advance _ :=
    .step (by decide) (by decide) (by decide +kernel) hval (by decide)
      (.step (by decide) (by decide) (by decide +kernel) hval' (by decide) (.refl _ _))
  rwa [hstate] at hpath

/-- The run stops at the gate, and the resume has a euro of its own to spend: the path costs two. -/
theorem segmentedDag_false :
    ReachesConclusion spendingWaves frugal "t" false inARow (frugal.runDag "t" false inARow 0 0) id World.empty [0, 1]
        (.ok (3, inARow.setStatuses [0, 1] .done)) ∧
      (inARow.nodes.map DAGNode.id).Nodup ∧ spendingWaves.WaveSucceeds costly ∧
      ¬ ∃ u, exec (memory spendingWaves) (frugal.gateFree.runDag "t" false inARow 0 0) World.empty = some u ∧
        u.result = .ok (3, inARow.setStatuses [0, 1] .done) := by
  have hsucc : spendingWaves.WaveSucceeds costly := fun _ _ => rfl
  refine ⟨?_, by decide, hsucc, ?_⟩
  · have hsolvent : frugal.WaveSolvent spendingWaves "t" false costly 0 World.empty.waves inARow 0 :=
      (Graph.waveSolvent_iff (by decide) _ _ _).2 ⟨by decide +kernel,
        (Graph.waveSolvent_iff (by decide) _ _ _).2 ⟨by decide +kernel, Graph.waveSolvent_of_wave (by decide) _ _ _⟩⟩
    have hstarts : StartsIfWaveSolvent spendingWaves frugal "t" false inARow costly inARow 0 [0, 1]
        (stuckResult 3 inARow.advance.advance) :=
      (concludesIfSolvent_of_path hsucc frugal_path (by decide) rfl (by decide) (by decide)).starts (by decide)
    exact (exists_congr fun n => leads_runDag_iff (by decide) (by decide)).2 ((hstarts World.empty).2 hsolvent)
  rintro ⟨u, hu, hres⟩
  have hok := (congrArg (Option.map (·.result)) hu).trans (congrArg some hres)
  exact absurd hok (by decide +kernel)

/-- Behind the gate a resume is next, which may be given the DAG it began with. -/
theorem segmentedDag_frugal :
    ∃ w, StoppedDag spendingWaves frugal "t" inARow 0 World.empty [0] w ∧
      ∃ ws dag s, frugal.WavePath costly inARow 0 ws dag s ∧ [0] = ws.flatten ∧
        ∀ idxs x, Concludes x → ∀ depth ≤ 8, ∀ cancellation w',
          (((ReachesConclusion spendingWaves frugal "t" false inARow (frugal.resumeDag "t" false inARow 0)
              (Prod.map some id) w idxs x ↔
              ∃ u, exec (memory spendingWaves) (frugal.gateFree.runDag "t" cancellation inARow 0 depth) w' = some u ∧
                u.result = x ∧ launched u.trace = [0] ++ idxs) ∧
            (ReachesConclusion spendingWaves frugal "t" false inARow (frugal.resumeDag "t" false inARow 0)
              (Prod.map some id) w idxs x →
              ([0] ++ idxs).Nodup ∧ ∀ k ∈ [0] ++ idxs, inARow.statusAt k = some .pending)) ↔
          (inARow.nodes.length ≤ frugal.resourceLimits.maxDagNodes → frugal.Exhausts costly dag s idxs x →
            (frugal.WaveSolvent spendingWaves "t" false costly 0 w.waves dag s ↔
              frugal.gateFree.WaveSolvent spendingWaves "t" cancellation costly 0 w'.waves inARow 0))) := by
  have hstops : ∃ idxs w, WaveStops spendingWaves frugal (frugal.runDag "t" false inARow 0 0) World.empty idxs w ∧
      idxs = [0] := by
    refine ⟨_, _, .gated (Option.some_get (by decide +kernel)).symm ⟨(1, inARow.setStatuses [0] .done), by
      decide +kernel⟩ ?_, by decide +kernel⟩
    unfold Graph.StoppedByGate
    decide +kernel
  obtain ⟨_, w, hstops, rfl⟩ := hstops
  have hstopped : StoppedDag spendingWaves frugal "t" inARow 0 World.empty [0] w := .run false 0 hstops
  exact ⟨w, hstopped, segmentedDag_iff (by decide) (fun _ _ => rfl) (.resume hstopped ⟨inARow, rfl, 0, by decide⟩)⟩

end Examples

end Takeln
