import Takeln.Effect.Restart
import Takeln.Sequential.Path

/-!
# Crashes and gates

Calls that are stopped, by crashes right after durable writes and at gates, leave their thread on the one path of the
graph (`Stopped.path`).  The call that comes next goes on from there, and where a gate stops it a resume follows, until
one gets to `__END__`: the calls that lead there execute the rest of the path, each node of it once, and they get there
if and only if none of them exceeds the budget of the graph (`reachesEndIfSolvent_of_path`).  The running total is a
local variable of a call and starts at zero again behind each gate, so this need not be what the run without gates does
(`segmented_run_iff`).
-/

namespace Takeln

open Effect Effect.Prog

variable {S α : Type} [State S] {env : Env S} {g : Graph S} {threadId : String} {cancellation : Bool}
  {w₀ w w' : World} {node : String → S → NodeOutput S} {s₀ s : S} {start : String} {names : List String}

/-! ### Calls in a row -/

/-- A call executes `names` and stops before `__END__`: right after a durable write by a crash, or at a gate. -/
inductive Stops (env : Env S) (p : Prog (ops S) TakelnError α) (w : World) : List String → World → Prop
  | crashed {tr : List (Event (ops S))} {p' : Prog (ops S) TakelnError α} {w' : World}
      (hr : Reaches (memory env) p w tr p' w') (hlast : EndsInWrite tr) : Stops env p w (executions tr) w'
  | gated {u : Run (ops S) TakelnError α World} (hu : exec (memory env) p w = some u)
      (hok : ∃ a, u.result = .ok a) (hend : ¬ Finishes u.trace) : Stops env p w (executions u.trace) u.world

section

variable [External]

/-- A run and then resumes of its thread, each of which stopped before `__END__`, executed these nodes. -/
inductive Stopped (env : Env S) (g : Graph S) (threadId : String) (s₀ : S) (start : String) (w₀ : World) :
    List String → World → Prop
  | run {names : List String} {w : World} (cancellation : Bool)
      (h : Stops env (g.run threadId cancellation s₀ start) w₀ names w) : Stopped env g threadId s₀ start w₀ names w
  | resume {names names' : List String} {w w' : World} (hprev : Stopped env g threadId s₀ start w₀ names w)
      (cancellation : Bool) (h : Stops env (g.resume threadId cancellation) w names' w') :
      Stopped env g threadId s₀ start w₀ (names ++ names') w'

/-- A call has returned the state it has come to `__END__` with, or was stopped by a gate. -/
def atEnd {E : Type} (returns : S → α) : Verdict (ops S) E α World S where
  last u s := Finishes u.trace ∧ u.result = .ok (returns s)
  followed u := ¬ Finishes u.trace ∧ ∃ a, u.result = .ok a

/-- The call `p`, and behind each gate a resume of its thread, however it is called, get to `__END__` with the state
`s`, and execute `names`. -/
def ReachesEnd {E : Type} (env : Env S) (g : Graph S) (threadId : String) (p : Prog (ops S) E α) (returns : S → α)
    (w : World) (names : List String) (s : S) : Prop :=
  ∃ n, Leads (memory env) executions (atEnd returns)
    (Restarts (memory env) executions (atEnd some) (g.resume threadId) n) p w names s

/-- The call that comes next, after calls that executed these nodes: a run at first, and then resumes. -/
inductive NextCall (env : Env S) (g : Graph S) (threadId : String) (s₀ : S) (start : String) (w₀ : World) :
    {α : Type} → Prog (ops S) TakelnError α → (S → α) → List String → World → Prop
  | run (cancellation : Bool) :
      NextCall env g threadId s₀ start w₀ (g.run threadId cancellation s₀ start) id [] w₀
  | resume {names : List String} {w : World} (h : Stopped env g threadId s₀ start w₀ names w) (cancellation : Bool) :
      NextCall env g threadId s₀ start w₀ (g.resume threadId cancellation) some names w

/-! ### One call -/

/-- From `state` at `name`, a program in the world `w` walks the path of the graph: where it is stopped right after a
write the thread stands on the path, and if it returns it was stopped so, or has reached `__END__`. -/
structure Walks {E : Type} (env : Env S) (g : Graph S) (threadId : String) (node : String → S → NodeOutput S)
    (state : S) (name : String) (w : World) (p : Prog (ops S) E α) (returns : S → α) : Prop where
  stopped {tr : List (Event (ops S))} {p' : Prog (ops S) E α} {w' : World} (hr : Reaches (memory env) p w tr p' w')
    (hlast : EndsInWrite tr) :
    ∃ state' name', g.Path node state name (executions tr) state' name' ∧ Stands threadId w' state' name'
  ended {u : Run (ops S) E α World} {a : α} (hu : exec (memory env) p w = some u) (hres : u.result = .ok a) :
    EndsInWrite u.trace ∧ g.Gated ∨
      Finishes u.trace ∧ ∃ s, a = returns s ∧ g.Path node state name (executions u.trace) s "__END__"

variable {E E' β : Type} {state : S} {name : String} {returns : S → α}

omit [External] in
theorem Walks.mapError {p : Prog (ops S) E α} (h : Walks env g threadId node state name w p returns) (f : E → E') :
    Walks env g threadId node state name w (p.mapError f) returns where
  stopped hr hlast := by
    obtain ⟨p', hp⟩ := hr.mapError_cases
    exact h.stopped hp hlast
  ended hu hres := by
    rw [exec_mapError] at hu
    obtain ⟨u₁, hu₁, rfl⟩ := Option.map_eq_some_iff.1 hu
    obtain ⟨x, w₁, t₁⟩ := u₁
    cases x with
    | error e => cases hres
    | ok a' =>
      cases hres
      exact h.ended hu₁ rfl

omit [External] in
theorem Walks.map {p : Prog (ops S) E α} (h : Walks env g threadId node state name w p returns) (f : α → β) :
    Walks env g threadId node state name w (p.bind fun a => .ret (f a)) fun s => f (returns s) where
  stopped hr hlast := by
    rcases hr.bind_cases with ⟨p', hp⟩ | ⟨a, w₁, t₁, t₂, hp, hret, rfl⟩
    · exact h.stopped hp hlast
    · cases hret
      rw [List.append_nil] at hlast ⊢
      exact h.stopped (reaches_of_exec hp) hlast
  ended hu hres := by
    rcases exec_bind_eq_some hu with ⟨e, w₁, t₁, _, rfl⟩ | ⟨a, w₁, t₁, u₁, hp, hret, rfl⟩
    · cases hres
    · cases hret
      cases hres
      rw [trace_after, List.append_nil]
      rcases h.ended hp rfl with hgate | ⟨hend, s, rfl, hpath⟩
      · exact Or.inl hgate
      · exact Or.inr ⟨hend, s, rfl, hpath⟩

omit [External] in
/-- An operation that is no write and no call comes before the walk. -/
theorem Walks.perform {o : Op S} {r : o.Answer} {k : o.Answer → Prog (ops S) E α}
    (h : Walks env g threadId node state name w (k r) returns) (hr : memory env w o = some (r, w))
    (hwrite : written (S := S) ⟨o, r⟩ = none) (hcall : calledNode (S := S) ⟨o, r⟩ = none) :
    Walks env g threadId node state name w (Prog.perform (F := ops S) o k) returns := by
  have hcalls (tr : List (Event (ops S))) : executions (⟨o, r⟩ :: tr) = executions tr := by
    simp [executions, hcall]
  constructor
  · intro tr p' w' hreach hlast
    cases hreach with
    | here => cases hlast
    | step hr' hrest =>
      cases hr.symm.trans hr'
      rw [hcalls]
      refine h.stopped hrest ?_
      rw [← List.singleton_append] at hlast
      refine hlast.of_append ?_
      rintro rfl
      simp [EndsInWrite, hwrite] at hlast
  · intro u a hu hres
    rw [exec_perform hr] at hu
    obtain ⟨u₁, hu₁, rfl⟩ := Option.map_eq_some_iff.1 hu
    rw [trace_after, List.singleton_append, hcalls]
    rcases h.ended hu₁ hres with ⟨hlast, hgate⟩ | ⟨hend, hpath⟩
    · exact Or.inl ⟨hlast.append [⟨o, r⟩], hgate⟩
    · exact Or.inr ⟨hend.append [⟨o, r⟩], hpath⟩

variable [RoundTrip S]

theorem walks_runInner (hsucc : env.Succeeds node) (r : Option String) (state : S) (name : String) (w : World) :
    Walks env g threadId node state name w (g.runInner threadId cancellation r state name none) id := by
  refine Walks.perform (o := .currentHead threadId)
    (r := (.ok none : Except TakelnError (Option String))) ?_ rfl rfl rfl
  constructor
  · intro tr p' w' hr hlast
    exact path_of_reaches hsucc hr hlast
  · intro u a hu hres
    rcases path_of_returns hsucc hu hres with ⟨hend, hpath⟩ | hgate
    · exact Or.inr ⟨hend, a, rfl, hpath⟩
    · exact Or.inl hgate

theorem walks_run (hsucc : env.Succeeds node) (state : S) (name : String) (w : World) :
    Walks env g threadId node state name w (g.run threadId cancellation state name) id :=
  (walks_runInner hsucc none state name w).mapError Prod.fst

/-- A resume goes on where the thread stands. -/
theorem walks_resume (hsucc : env.Succeeds node) (hstands : Stands threadId w state name) :
    Walks env g threadId node state name w (g.resume threadId cancellation) some := by
  obtain ⟨loaded, hload, hstate, hnext, hstatus⟩ := hstands
  refine Walks.perform (o := .loadState threadId) (r := (.ok (some loaded) : Except TakelnError (Option (Loaded S)))) ?_
    (by rw [← hload]; rfl) rfl rfl
  simp only [Prog.ofExcept_ok, ret_bind, if_neg hstatus, hnext, hstate, id_eq]
  exact ((walks_runInner hsucc _ state name w).mapError Prod.fst).map some

/-! ### All the calls -/

omit [External] [RoundTrip S] in
/-- A walk that stops leaves the thread on the path. -/
theorem Walks.path_of_stops {p : Prog (ops S) TakelnError α} (h : Walks env g threadId node state name w p returns)
    (hstop : Stops env p w names w') :
    ∃ state' name', g.Path node state name names state' name' ∧ Stands threadId w' state' name' := by
  cases hstop with
  | crashed hr hlast => exact h.stopped hr hlast
  | gated hu hok hend =>
    obtain ⟨a, ha⟩ := hok
    rcases h.ended hu ha with ⟨hlast, _⟩ | ⟨hend', _⟩
    · exact h.stopped (reaches_of_exec hu) hlast
    · exact absurd hend' hend

theorem Stopped.path (hsucc : env.Succeeds node) (h : Stopped env g threadId s₀ start w₀ names w) :
    ∃ state name, g.Path node s₀ start names state name ∧ Stands threadId w state name := by
  induction h with
  | run c hstop => exact (walks_run hsucc s₀ start w₀).path_of_stops hstop
  | resume _ c hstop ih =>
    obtain ⟨state, name, hpath, hstands⟩ := ih
    obtain ⟨state', name', hpath', hstands'⟩ := (walks_resume hsucc hstands).path_of_stops hstop
    exact ⟨state', name', hpath.trans hpath', hstands'⟩

/-! ### Calls that lead to the end -/

section Leads

variable {E E' β : Type} {p : Prog (ops S) E α} {returns : S → α} {next : World → List String → S → Prop}

omit [External] [State S] [RoundTrip S] in
theorem ignores_of_not_finishes {tr : List (Event (ops S))} (h : ¬ Finishes tr) :
    (atEnd (E := E) returns).Ignores tr := by
  intro u
  have hfin : Finishes (u.after tr).trace ↔ Finishes u.trace := finishes_append_iff h u.trace
  exact ⟨fun x => and_congr_left' hfin, and_congr_left' (not_congr hfin)⟩

omit [External] [RoundTrip S] in
theorem leads_mapError (f : E → E') :
    Leads (memory env) executions (atEnd returns) next (p.mapError f) w names s ↔
      Leads (memory env) executions (atEnd returns) next p w names s := by
  refine leads_congr (Except.mapError f) (exec_mapError f p) (fun u x => and_congr_right' ?_)
    fun u => and_congr_right' ?_
  · cases u.result <;> simp [Except.mapError]
  · cases u.result <;> simp [Except.mapError]

omit [External] [RoundTrip S] in
theorem leads_map {f : α → β} (hf : Function.Injective f) :
    Leads (memory env) executions (atEnd fun s => f (returns s)) next (p.bind fun a => .ret (f a)) w names s ↔
      Leads (memory env) executions (atEnd returns) next p w names s := by
  refine leads_congr (Except.map f) (exec_bind_ret f p) (fun u x => and_congr_right' ?_) fun u => and_congr_right' ?_
  · cases u.result <;> simp [Except.map, hf.eq_iff]
  · cases u.result <;> simp [Except.map]

omit [External] [RoundTrip S] in
/-- An operation that calls no node comes before. -/
theorem leads_before {o : Op S} {r : o.Answer} {k : o.Answer → Prog (ops S) E α} (hr : memory env w o = some (r, w'))
    (hcall : calledNode (S := S) ⟨o, r⟩ = none) (hfinish : finishesGraph (S := S) ⟨o, r⟩ = false) :
    Leads (memory env) executions (atEnd returns) next (Prog.perform (F := ops S) o k) w names s ↔
      Leads (memory env) executions (atEnd returns) next (k r) w' names s :=
  leads_perform executions_append hr (by simp [executions, hcall])
    (ignores_of_not_finishes (by simp [Finishes, hfinish]))

end Leads

/-! ### The path and the budget -/

/-- The loop of a call is at `name` with `state`. -/
structure Loop.At (g : Graph S) (v : Loop S) (state : S) (name : String) : Prop where
  state : v.state = state
  name : v.currentNodeName = name
  first : v.isFirstStep = true → v.runningCostEur = 0
  savable : v.isFirstStep = false → ∃ val, g.Savable v.state val

/-- From `state` at `name` on the calls get to `__END__` with `s` and execute `names` if and only if the budget lasts.
-/
def ReachesEndIfSolvent (env : Env S) (g : Graph S) (threadId : String) (node : String → S → NodeOutput S) (state : S)
    (name : String) (names : List String) (s : S) : Prop :=
  ∀ (cancellation : Bool) (r : Option String) (k : Nat) (v : Loop S) (w : World), v.At g state name →
    names.length < k → (ReachesEnd env g threadId (g.runLoop threadId cancellation r k v) id w names s ↔
      g.Solvent node v.runningCostEur state name)

/-- The same for the calls that begin there. -/
def StartsIfSolvent (env : Env S) (g : Graph S) (threadId : String) (node : String → S → NodeOutput S) (state : S)
    (name : String) (names : List String) (s : S) : Prop :=
  ∀ (cancellation : Bool) (r : Option String) (w : World),
    ReachesEnd env g threadId (g.runLoop threadId cancellation r g.resourceLimits.maxSequentialSteps
      (.start state name none none)) id w names s ↔ g.Solvent node 0 state name

variable {state : S} {name : String}

omit [RoundTrip S] in
theorem ReachesEndIfSolvent.starts (h : ReachesEndIfSolvent env g threadId node state name names s)
    (hlimit : names.length < g.resourceLimits.maxSequentialSteps) :
    StartsIfSolvent env g threadId node state name names s := fun c r w =>
  h c r _ (.start state name none none) w ⟨rfl, rfl, fun _ => rfl, fun h => by cases h⟩ hlimit

omit [RoundTrip S] in
/-- A call that begins at `name`. -/
theorem leads_runInner_iff {E : Type} {f : RunError → E} {r : Option String} {next : World → List String → S → Prop} :
    Leads (memory env) executions (atEnd id) next ((g.runInner threadId cancellation r state name none).mapError f) w
      names s ↔
    Leads (memory env) executions (atEnd id) next (g.runLoop threadId cancellation r
      g.resourceLimits.maxSequentialSteps (.start state name none none)) w names s :=
  (leads_mapError f).trans
    (leads_before (o := .currentHead threadId) (r := (.ok none : Except TakelnError (Option String))) rfl rfl rfl)

omit [RoundTrip S] in
/-- A resume begins where the thread stands. -/
theorem leads_resume_iff (env : Env S) (g : Graph S) (cancellation : Bool) (hstands : Stands threadId w state name) :
    ∃ r, ∀ next names s,
    Leads (memory env) executions (atEnd some) next (g.resume threadId cancellation) w names s ↔
      Leads (memory env) executions (atEnd id) next (g.runLoop threadId cancellation r
        g.resourceLimits.maxSequentialSteps (.start state name none none)) w names s := by
  obtain ⟨loaded, hload, hstate, hnext, hstatus⟩ := hstands
  refine ⟨loaded.info.claimedInterrupt, fun next names s => ?_⟩
  refine (leads_before (o := .loadState threadId) (r := (.ok (some loaded) : Except TakelnError (Option (Loaded S))))
    (by rw [← hload]; rfl) rfl rfl).trans ?_
  simp only [Prog.ofExcept_ok, ret_bind, if_neg hstatus, hnext, hstate, id_eq]
  exact (leads_map fun _ _ => Option.some.inj).trans leads_runInner_iff

omit [RoundTrip S] in
/-- After a call that a gate stops the resumes go on where it has left the thread. -/
theorem reachesEnd_iff_of_gate {E : Type} {p : Prog (ops S) E α} {returns : S → α} {u : Run (ops S) E α World}
    (h : StartsIfSolvent env g threadId node state name names s) (hu : exec (memory env) p w = some u)
    (hok : ∃ a, u.result = .ok a) (hend : EndsInWrite u.trace) (hstands : Stands threadId u.world state name) :
    ReachesEnd env g threadId p returns w (executions u.trace ++ names) s ↔ g.Solvent node 0 state name := by
  have hnot : ¬ Finishes u.trace := fun hfin => hfin.not_endsInWrite hend
  have hlast (x : S) : ¬ (atEnd returns).last u x := fun hx => hnot hx.1
  refine (exists_congr fun n => leads_iff_of_followed hu hlast ⟨hnot, hok⟩).trans ?_
  choose r hr using fun c => leads_resume_iff env g c hstands
  exact exists_restarts_iff (fun c => ⟨c, fun next names s => hr c next names s⟩) fun c => h c (r c) u.world

/-- At a node that no gate stops the call before. -/
theorem reachesEnd_runLoop_of_runs (hsucc : env.Succeeds node) {v : Loop S} {val : Value} (hv : v.At g state name)
    (hruns : g.Runs v) (hspent : g.spentAt name v.runningCostEur = v.runningCostEur)
    (hbudget : exceeded (g.effectiveNodeBudget name) (node name state).info.cost = none)
    (hval : g.Savable (node name state).state val) (hrecords : 0 < g.resourceLimits.maxExecutionRecords)
    (hrest : ReachesEndIfSolvent env g threadId node (node name state).state (g.nextNode name (node name state)) names
      s) (hlimit : names.length < g.resourceLimits.maxSequentialSteps) {k : Nat} (hk : names.length < k)
    (r : Option String) (w : World) :
    ReachesEnd env g threadId (g.runLoop threadId cancellation r (k + 1) v) id w (name :: names) s ↔
      g.Solvent node v.runningCostEur state name := by
  obtain ⟨rfl, rfl, _, _⟩ := hv
  obtain ⟨⟨x, w₁, t₁⟩, hbody⟩ := exec_loopBody_isSome env g threadId cancellation r hrecords v w
  have hrun := nodeRun_of_succeeds g threadId cancellation hsucc v w.calls
  have hresult : g.nodeResult env threadId cancellation v w.calls = .ok (node v.currentNodeName v.state) := by
    rw [Graph.nodeResult, hrun]
  rw [Graph.solvent_iff hruns.1, hspent]
  cases round_of_exec hbody with
  | ended h => exact absurd h hruns.1
  | gated _ _ _ h => exact absurd h hruns.2.1
  | gateFailed _ _ h => exact absurd h hruns.2.1
  | unregistered _ _ h => exact absurd hruns.2.2 h
  | yielded _ _ _ _ _ hnode => cases hresult.symm.trans hnode
  | completed n out val' id hn _ hnode haff hval' hres hs =>
    cases hresult.symm.trans hnode
    rw [hn, hrun] at hs
    cases hres
    have hcalls : executions t₁ = [v.currentNodeName] := hs.executions
    have hstands : Stands threadId w₁ (node v.currentNodeName v.state).state
        (g.nextNode v.currentNodeName (node v.currentNodeName v.state)) := hs.stands hval'.2 (by simp [Graph.loopSave])
    rw [← List.singleton_append, ← hcalls]
    refine Iff.trans ?_ (and_iff_right haff.2).symm
    by_cases hafter : v.currentNodeName ∈ g.interruptAfter
    · rw [if_pos hafter] at hbody
      rw [Graph.spentAfter, if_pos hafter]
      exact reachesEnd_iff_of_gate (hrest.starts hlimit) (exec_runLoop_stop hbody) ⟨_, rfl⟩ hs.endsInWrite hstands
    · rw [if_neg hafter] at hbody
      rw [Graph.spentAfter, if_neg hafter]
      have hnot : ¬ Finishes t₁ := fun h => h.not_endsInWrite hs.endsInWrite
      refine (exists_congr fun m => leads_after executions_append (exec_runLoop_next hbody)
        (ignores_of_not_finishes hnot)).trans ?_
      exact hrest _ r k _ w₁ ⟨rfl, rfl, fun h => (by cases h), fun _ => ⟨val, hval⟩⟩ hk
  | failed n e _ hcomp _ hres =>
    cases hres
    refine iff_of_false ?_ fun h => hcomp ⟨_, val, hresult, ⟨hbudget, h.1⟩, hval⟩
    rintro ⟨m, h⟩
    rw [leads_iff (exec_runLoop_fail hbody)] at h
    rcases h with ⟨⟨_, hres⟩, _⟩ | ⟨⟨_, _, hres⟩, _⟩ <;> cases hres

/-- At a node that a gate stops the call before. -/
theorem reachesEnd_runLoop_of_gated {v : Loop S} (hv : v.At g state name) (hname : name ≠ "__END__")
    (hgate : g.GatedBefore v) (hrecords : 0 < g.resourceLimits.maxExecutionRecords)
    (hstart : StartsIfSolvent env g threadId node state name names s) {k : Nat} (r : Option String) (w : World) :
    ReachesEnd env g threadId (g.runLoop threadId cancellation r (k + 1) v) id w names s ↔
      g.Solvent node v.runningCostEur state name := by
  have hbefore : name ∈ g.interruptBefore := hv.name ▸ hgate.2
  have hsolvent : g.Solvent node v.runningCostEur state name ↔ g.Solvent node 0 state name := by
    rw [Graph.solvent_iff hname, Graph.solvent_iff hname, Graph.spentAt, Graph.spentAt, if_pos hbefore,
      if_pos hbefore]
  rw [hsolvent]
  obtain ⟨rfl, rfl, _, hsavable⟩ := hv
  obtain ⟨⟨x, w₁, t₁⟩, hbody⟩ := exec_loopBody_isSome env g threadId cancellation r hrecords v w
  cases round_of_exec hbody with
  | gated val id _ _ hval hres hs =>
    cases hres
    have hcalls : executions t₁ = [] := hs.executions
    rw [← List.nil_append names, ← hcalls]
    exact reachesEnd_iff_of_gate hstart (exec_runLoop_stop hbody) ⟨_, rfl⟩ hs.endsInWrite
      (hs.stands hval.2 (by simp [Graph.loopSave]))
  | gateFailed e _ _ hno =>
    obtain ⟨val, hval⟩ := hsavable hgate.1
    exact absurd hval (hno val)
  | ended h => exact absurd h hname
  | unregistered _ h => exact absurd hgate h
  | completed _ _ _ _ _ h => exact absurd hgate h.2.1
  | yielded _ _ _ _ h => exact absurd hgate h.2.1
  | failed _ _ h => exact absurd hgate h.2.1

/-- Along a path the calls get to `__END__` if and only if the budget lasts. -/
theorem reachesEndIfSolvent_of_path (hsucc : env.Succeeds node) (hpath : g.Path node state name names s "__END__")
    (hlimit : names.length < g.resourceLimits.maxSequentialSteps) :
    ReachesEndIfSolvent env g threadId node state name names s := by
  generalize hend : "__END__" = name' at hpath
  induction hpath with
  | refl state name =>
    subst hend
    intro c r k v w hv hk
    obtain ⟨k, rfl⟩ := Nat.exists_eq_succ_of_ne_zero (by omega : k ≠ 0)
    obtain ⟨rfl, hname, _, _⟩ := hv
    refine iff_of_true ⟨0, ?_⟩ (Graph.solvent_end _ _)
    have hloop : ∃ w₁ tr, exec (memory env) (g.runLoop threadId c r (k + 1) v) w = some ⟨.ok v.state, w₁, tr⟩ ∧
        Finishes tr ∧ executions tr = [] := by
      unfold Graph.runLoop Graph.loopBody
      rw [if_pos hname]
      exact ⟨_, _, rfl, rfl, rfl⟩
    obtain ⟨w₁, tr, hu, hfin, hcalls⟩ := hloop
    exact (leads_iff hu).2 (Or.inl ⟨⟨hfin, rfl⟩, hcalls⟩)
  | @step state state' name name' names val hname hreg hbudget hval hrecords hrest ih =>
    rw [List.length_cons] at hlimit
    have hrest := ih (by omega) hend
    intro c r k v w hv hk
    obtain ⟨k, rfl⟩ := Nat.exists_eq_succ_of_ne_zero (by omega : k ≠ 0)
    rw [List.length_cons] at hk
    -- a call that stands in front of the node and is not stopped there
    have hruns (c : Bool) (r : Option String) (k : Nat) (v : Loop S) (w : World) (hv : v.At g state name)
        (hk : names.length < k) (hgate : ¬ g.GatedBefore v) :
        ReachesEnd env g threadId (g.runLoop threadId c r (k + 1) v) id w (name :: names) state' ↔
          g.Solvent node v.runningCostEur state name := by
      have hruns : g.Runs v := ⟨hv.name ▸ hname, hgate, hv.name ▸ hreg⟩
      refine reachesEnd_runLoop_of_runs hsucc hv hruns ?_ hbudget hval hrecords hrest (by omega) hk r w
      unfold Graph.spentAt
      split
      · rename_i hbefore
        -- the gate is passed only by the first step of a call
        refine (hv.first ?_).symm
        by_contra hfirst
        exact hgate ⟨by simpa using hfirst, hv.name ▸ hbefore⟩
      · rfl
    by_cases hgate : g.GatedBefore v
    · refine reachesEnd_runLoop_of_gated hv hname hgate hrecords (fun c r w => ?_) r w
      obtain ⟨m, hm⟩ := Nat.exists_eq_succ_of_ne_zero (by omega : g.resourceLimits.maxSequentialSteps ≠ 0)
      rw [hm]
      exact hruns c r m (.start state name none none) w ⟨rfl, rfl, fun _ => rfl, fun h => by cases h⟩ (by omega)
        fun h => by cases h.1
    · exact hruns c r k v w hv (by omega) hgate

omit [External] [RoundTrip S] in
/-- A walk that leads to `__END__` takes the rest of the path. -/
theorem Walks.path_of_leads {E : Type} {p : Prog (ops S) E α} {returns : S → α}
    {next : World → List String → S → Prop} (h : Walks env g threadId node state name w p returns)
    (hreturns : Function.Injective returns)
    (hnext : ∀ w names s, next w names s → ∀ state name, Stands threadId w state name →
      g.Path node state name names s "__END__")
    (hleads : Leads (memory env) executions (atEnd returns) next p w names s) :
    g.Path node state name names s "__END__" := by
  cases hleads with
  | last hu hlast =>
    obtain ⟨hend, hres⟩ := hlast
    rcases h.ended hu hres with ⟨hwrite, _⟩ | ⟨_, s', hs', hpath⟩
    · exact absurd hwrite hend.not_endsInWrite
    · rwa [hreturns hs']
  | followed hu hfollowed hrest =>
    obtain ⟨hend, a, ha⟩ := hfollowed
    rcases h.ended hu ha with ⟨hwrite, _⟩ | ⟨hend', _⟩
    · obtain ⟨state', name', hpath, hstands⟩ := h.stopped (reaches_of_exec hu) hwrite
      exact hpath.trans (hnext _ _ _ hrest _ _ hstands)
    · exact absurd hend' hend

theorem Walks.path_of_reachesEnd (hsucc : env.Succeeds node) {p : Prog (ops S) TakelnError α} {returns : S → α}
    (h : Walks env g threadId node state name w p returns) (hreturns : Function.Injective returns)
    (hend : ReachesEnd env g threadId p returns w names s) : g.Path node state name names s "__END__" := by
  obtain ⟨n, hleads⟩ := hend
  refine h.path_of_leads hreturns (fun w names s hn => ?_) hleads
  exact hn.sound fun w next names s hnext hcalls state name hstands =>
    (walks_resume hsucc hstands).path_of_leads (fun _ _ => Option.some.inj) hnext (hcalls false)

/-- The run without gates returns if and only if there is a path to `__END__` and the budget lasts for it. -/
theorem exec_gateFree_iff (hsucc : env.Succeeds node) (hlimit : names.length < g.resourceLimits.maxSequentialSteps)
    (w : World) :
    (∃ u, exec (memory env) (g.gateFree.run threadId cancellation s₀ start) w = some u ∧ u.result = .ok s ∧
      executions u.trace = names) ↔
      g.Path node s₀ start names s "__END__" ∧ g.gateFree.Solvent node 0 s₀ start := by
  have hwalks : Walks env g.gateFree threadId node s₀ start w (g.gateFree.run threadId cancellation s₀ start) id :=
    walks_run hsucc s₀ start w
  have hleads (hpath : g.Path node s₀ start names s "__END__") :
      ReachesEnd env g.gateFree threadId (g.gateFree.run threadId cancellation s₀ start) id w names s ↔
        g.gateFree.Solvent node 0 s₀ start := by
    rw [← (reachesEndIfSolvent_of_path hsucc hpath.gateFree hlimit).starts hlimit cancellation none w]
    exact exists_congr fun n => leads_runInner_iff
  constructor
  · rintro ⟨u, hu, hres, rfl⟩
    rcases hwalks.ended hu hres with ⟨_, hgate⟩ | ⟨hend, s', rfl, hpath⟩
    · exact absurd hgate g.not_gated_gateFree
    · exact ⟨hpath.of_gateFree, (hleads hpath.of_gateFree).1 ⟨0, .last hu ⟨hend, hres⟩⟩⟩
  · rintro ⟨hpath, hsolvent⟩
    obtain ⟨n, h⟩ := (hleads hpath).2 hsolvent
    cases h with
    | last hu hlast => exact ⟨_, hu, hlast.2, rfl⟩
    | followed hu hfollowed =>
      obtain ⟨hend, a, ha⟩ := hfollowed
      rcases hwalks.ended hu ha with ⟨_, hgate⟩ | ⟨hend', _⟩
      · exact absurd hgate g.not_gated_gateFree
      · exact absurd hend' hend

/-- The next call goes on where the calls so far have left the thread. -/
theorem NextCall.spec (hsucc : env.Succeeds node) {p : Prog (ops S) TakelnError α} {returns : S → α}
    (h : NextCall env g threadId s₀ start w₀ p returns names w) :
    ∃ state name, g.Path node s₀ start names state name ∧ Walks env g threadId node state name w p returns ∧
      Function.Injective returns ∧ ∀ names' s, StartsIfSolvent env g threadId node state name names' s →
        (ReachesEnd env g threadId p returns w names' s ↔ g.Solvent node 0 state name) := by
  cases h with
  | run c =>
    refine ⟨s₀, start, .refl _ _, walks_run hsucc s₀ start w₀, Function.injective_id, fun names' s h => ?_⟩
    rw [← h c none w₀]
    exact exists_congr fun n => leads_runInner_iff
  | resume hstopped c =>
    obtain ⟨state, name, hpath, hstands⟩ := hstopped.path hsucc
    refine ⟨state, name, hpath, walks_resume hsucc hstands, fun _ _ => Option.some.inj, fun names' s h => ?_⟩
    obtain ⟨r, hr⟩ := leads_resume_iff env g c hstands
    exact (exists_congr fun n => hr _ names' s).trans (h c r w)

/-- Whatever calls were stopped before, the next one, with a resume behind each gate, gets to `__END__` exactly as the
run without gates does, with the same state and the same nodes executed by all the calls, if and only if the budget of
the graph refuses both or neither of them on the path. -/
theorem segmented_run_iff (hsucc : env.Succeeds node) {p : Prog (ops S) TakelnError α} {returns : S → α}
    (hcall : NextCall env g threadId s₀ start w₀ p returns names w) :
    ∃ state name, g.Path node s₀ start names state name ∧
      ∀ names' s, (names ++ names').length < g.resourceLimits.maxSequentialSteps → ∀ cancellation w',
        ((ReachesEnd env g threadId p returns w names' s ↔
          ∃ u, exec (memory env) (g.gateFree.run threadId cancellation s₀ start) w' = some u ∧ u.result = .ok s ∧
            executions u.trace = names ++ names') ↔
          (g.Path node state name names' s "__END__" →
            (g.Solvent node 0 state name ↔ g.gateFree.Solvent node 0 s₀ start))) := by
  obtain ⟨state, name, hpath, hwalks, hreturns, hleads⟩ := hcall.spec hsucc
  refine ⟨state, name, hpath, fun names' s hlimit cancellation w' => ?_⟩
  rw [exec_gateFree_iff hsucc hlimit]
  have hlimit' : names'.length < g.resourceLimits.maxSequentialSteps := by
    rw [List.length_append] at hlimit
    omega
  by_cases hrest : g.Path node state name names' s "__END__"
  · rw [hleads names' s ((reachesEndIfSolvent_of_path hsucc hrest hlimit').starts hlimit')]
    have hwhole := hpath.trans hrest
    simp only [hrest, hwhole, true_and, true_implies]
  · refine iff_of_true (iff_of_false ?_ fun h => hrest (hpath.of_append h.1)) fun h => absurd h hrest
    exact fun h => hrest (hwalks.path_of_reachesEnd hsucc hreturns h)

/-! ### A budget spent twice -/

end

section Examples

attribute [local instance] shortRuns

/-- Two nodes in a row, a gate after the first one, and a budget of one euro. -/
def thrifty : Graph Nat where
  nodes := ["A", "B"]
  edges name := if name = "A" then some (.unconditional "B") else none
  budgetEur := some 1
  interruptAfter := ["A"]

/-- Every node counts up and costs one euro. -/
def costly (_ : String) (state : Nat) : NodeOutput Nat := { state := state + 1, info := { costEur := some 1 } }

def spending : Env Nat where
  newId n := s!"c{n}"
  now n := n
  answer _ ctx state _ _ := .returned (.ok (costly ctx.nodeName state))
  outcome _ task := .ok (.ok { state := task.state })
  order _ := inOrder

theorem thrifty_path : thrifty.Path costly 0 "A" ["A", "B"] 2 "__END__" :=
  .step (by decide) (by decide) rfl ⟨rfl, rfl⟩ (by decide)
    (.step (by decide) (by decide) rfl ⟨rfl, rfl⟩ (by decide) (.refl 2 "__END__"))

/-- The run stops at the gate, and the resume has a euro of its own to spend: the path costs two. -/
theorem segmented_run_false :
    ReachesEnd spending thrifty "t" (thrifty.run "t" false 0 "A") id World.empty ["A", "B"] 2 ∧
      ["A", "B"].length < thrifty.resourceLimits.maxSequentialSteps ∧
      ¬ ∃ u, exec (memory spending) (thrifty.gateFree.run "t" false 0 "A") World.empty = some u ∧ u.result = .ok 2 ∧
        executions u.trace = ["A", "B"] := by
  have hsucc : spending.Succeeds costly := fun _ _ _ _ _ => rfl
  refine ⟨?_, by decide, ?_⟩
  · have hsolvent : thrifty.Solvent costly 0 0 "A" :=
      (Graph.solvent_iff (by decide) _ _).2 ⟨by decide +kernel,
        (Graph.solvent_iff (by decide) _ _).2 ⟨by decide +kernel, Graph.solvent_end _ _⟩⟩
    have hstarts : StartsIfSolvent spending thrifty "t" costly 0 "A" ["A", "B"] 2 :=
      (reachesEndIfSolvent_of_path hsucc thrifty_path (by decide)).starts (by decide)
    exact (exists_congr fun n => leads_runInner_iff).2 ((hstarts false none World.empty).2 hsolvent)
  rintro ⟨u, hu, hres, _⟩
  have hok : (exec _ _ _).map (·.result) = some (.ok 2) :=
    (congrArg (Option.map (·.result)) hu).trans (by rw [← hres]; rfl)
  exact absurd hok (by decide +kernel)

/-- Behind the gate a resume is next. -/
theorem segmented_run_thrifty :
    ∃ w, Stopped spending thrifty "t" 0 "A" World.empty ["A"] w ∧
      ∃ state name, thrifty.Path costly 0 "A" ["A"] state name ∧
        ∀ names s, (["A"] ++ names).length < thrifty.resourceLimits.maxSequentialSteps → ∀ cancellation w',
          ((ReachesEnd spending thrifty "t" (thrifty.resume "t" false) some w names s ↔
            ∃ u, exec (memory spending) (thrifty.gateFree.run "t" cancellation 0 "A") w' = some u ∧
              u.result = .ok s ∧ executions u.trace = ["A"] ++ names) ↔
            (thrifty.Path costly state name names s "__END__" →
              (thrifty.Solvent costly 0 state name ↔ thrifty.gateFree.Solvent costly 0 0 "A"))) := by
  have hstops : ∃ names w, Stops spending (thrifty.run "t" false 0 "A") World.empty names w ∧ names = ["A"] := by
    refine ⟨_, _, .gated (Option.some_get (by decide +kernel)).symm ⟨1, by decide +kernel⟩ ?_, by decide +kernel⟩
    unfold Finishes
    decide +kernel
  obtain ⟨_, w, hstops, rfl⟩ := hstops
  have hstopped : Stopped spending thrifty "t" 0 "A" World.empty ["A"] w := .run false hstops
  exact ⟨w, hstopped, segmented_run_iff (fun _ _ _ _ _ => rfl) (.resume hstopped false)⟩

end Examples

end Takeln
