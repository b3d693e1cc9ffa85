import Takeln.Effect.Observed
import Takeln.Sequential.Executed
import Takeln.Sequential.Resume
import Takeln.Sequential.Settled
import Takeln.Threads.Saves

/-!
# Recovery from a crash

A resume finds a thread whose latest checkpoint is still `Running`.  `SkipAndContinue` goes on after the node of that
checkpoint, but only along an edge: a node without one is executed again (`skips_iff`).  `ResetToPending` goes on at the
node of the checkpoint; a claim leaves it at the yielded node, also of a `Handoff` (`handoff_survives_iff`).
-/

namespace Takeln

open Effect Effect.Prog

variable {S : Type}

/-! ### Runs from a node -/

/-- The nodes an operation calls, with the state they are given. -/
def calledFrom (e : Event (ops S)) : List (String × S) :=
  match e.op with
  | .callNode ctx state _ _ => [(ctx.nodeName, state)]
  | _ => []

theorem executions_eq_map_calledFrom (tr : List (Event (ops S))) :
    executions tr = (tr.flatMap calledFrom).map Prod.fst := by
  induction tr with
  | nil => rfl
  | cons e tr ih =>
    have hcons : executions (e :: tr) = executions [e] ++ executions tr := executions_append [e] tr
    have hone : executions [e] = (calledFrom e).map Prod.fst := by
      obtain ⟨o, r⟩ := e
      cases o <;> rfl
    rw [hcons, hone, ih, List.flatMap_cons, List.map_append]

theorem flatMap_calledFrom_eq_nil {tr : List (Event (ops S))} (h : executions tr = []) :
    tr.flatMap calledFrom = [] := by
  rw [executions_eq_map_calledFrom] at h
  exact List.map_eq_nil_iff.1 h

theorem executed_eq_nil {tr : List (Event (ops S))} (h : tr.flatMap calledFrom = []) : executed tr = [] := by
  refine List.flatMap_eq_nil_iff.2 fun e he => ?_
  have hcalled := List.flatMap_eq_nil_iff.1 h e he
  obtain ⟨o, r⟩ := e
  cases o with
  | callNode ctx state timeout token => cases hcalled
  | _ => rfl

section Runs

variable [External] [State S] {env : Env S} {g : Graph S} {threadId : String} {cancellation : Bool}
  {resolvedInterrupt : Option String} {state : S} {name : String} {w : World}

/-- A run that does not call its start node ends at once, well only at `__END__`. -/
theorem exec_runInner_of_not_starts (env : Env S) (cancellation : Bool) (threadId : String)
    (resolvedInterrupt : Option String) (state : S) (w : World) (h : ¬ g.Starts name) :
    ∃ u, exec (memory env) (g.runInner threadId cancellation resolvedInterrupt state name none) w = some u ∧
      executions u.trace = [] ∧
      ((∃ final, u.result = .ok final) ↔ 0 < g.resourceLimits.maxSequentialSteps ∧ name = "__END__") := by
  have hloop : ∃ u, exec (memory env) (g.runLoop threadId cancellation resolvedInterrupt
      g.resourceLimits.maxSequentialSteps (.start state name none none)) w = some u ∧ executions u.trace = [] ∧
      ((∃ final, u.result = .ok final) ↔ 0 < g.resourceLimits.maxSequentialSteps ∧ name = "__END__") := by
    by_cases hend : 0 < g.resourceLimits.maxSequentialSteps ∧ name = "__END__"
    · obtain ⟨hlimit, rfl⟩ := hend
      obtain ⟨k, hk⟩ := Nat.exists_eq_succ_of_ne_zero hlimit.ne'
      rw [hk]
      unfold Graph.runLoop Graph.loopBody
      have hname : (Loop.start state "__END__" none none).currentNodeName = "__END__" := rfl
      rw [if_pos hname]
      exact ⟨_, rfl, rfl, iff_of_true ⟨_, rfl⟩ ⟨Nat.succ_pos k, rfl⟩⟩
    · have hfails : g.resourceLimits.maxSequentialSteps = 0 ∨ name ≠ "__END__" ∧ ¬ g.registered name := by
        by_cases hlimit : g.resourceLimits.maxSequentialSteps = 0
        · exact Or.inl hlimit
        · have hpos := Nat.pos_of_ne_zero hlimit
          have hname : name ≠ "__END__" := fun hname => hend ⟨hpos, hname⟩
          exact Or.inr ⟨hname, fun hreg => h ⟨hpos, hname, hreg⟩⟩
      obtain ⟨u, e, hu, he, hcalls⟩ := exec_runLoop_error env g threadId cancellation resolvedInterrupt
        (v := .start state name none none) rfl hfails w
      refine ⟨u, hu, hcalls, iff_of_false ?_ hend⟩
      rintro ⟨final, hfinal⟩
      rw [he] at hfinal
      cases hfinal
  obtain ⟨u, hu, hcalls, hres⟩ := hloop
  exact ⟨u.after [⟨Op.currentHead threadId, (.ok none : Except TakelnError (Option String))⟩],
    congrArg (Option.map (Run.after _)) hu, hcalls, hres⟩

/-- A run that starts calls its start node. -/
theorem reaches_startNode (env : Env S) (cancellation : Bool) (threadId : String) (resolvedInterrupt : Option String)
    (state : S) (w : World) (h : g.Starts name) :
    ∃ tr p w', Reaches (memory env) (g.runInner threadId cancellation resolvedInterrupt state name none) w tr p w' ∧
      executions tr = [name] := by
  have hgate : ¬ g.GatedBefore (.start state name none none) := by
    rintro ⟨hfirst, -⟩
    cases hfirst
  have hruns : g.Runs (.start state name none none) := ⟨h.2.1, hgate, h.2.2⟩
  have hcalled : ∃ tr p w', Reaches (memory env) (g.runLoop threadId cancellation resolvedInterrupt
      g.resourceLimits.maxSequentialSteps (.start state name none none)) w tr p w' ∧ executions tr = [name] :=
    reaches_firstCall env h.1 hruns w
  obtain ⟨tr, p, w', hr, hcalls⟩ := hcalled
  exact ⟨⟨Op.currentHead threadId, (.ok none : Except TakelnError (Option String))⟩ :: tr, p, w', .step rfl hr, hcalls⟩

/-- The calls of a run that does not start. -/
theorem shows_runInner_of_not_starts (h : ¬ g.Starts name) {l : List (String × S)} :
    Shows (memory env) calledFrom (g.runInner threadId cancellation resolvedInterrupt state name none) w l ↔
      l = [] := by
  constructor
  · rintro ⟨tr, p, w', hr, rfl⟩
    obtain ⟨u, hu, hcalls, -⟩ := exec_runInner_of_not_starts env cancellation threadId resolvedInterrupt state w h
    obtain ⟨v, -, rfl⟩ := hr.prefix_exec hu
    rw [trace_after, executions_append] at hcalls
    exact flatMap_calledFrom_eq_nil (List.append_eq_nil_iff.1 hcalls).1
  · rintro rfl
    exact shows_nil _ _

/-- The node a run calls first is the one it starts at. -/
theorem eq_of_shows_runInner {first : String} {l : List (String × S)} (hfirst : l.map Prod.fst = [first])
    (h : Shows (memory env) calledFrom (g.runInner threadId cancellation resolvedInterrupt state name none) w l) :
    first = name := by
  obtain ⟨tr, p, w', hr, rfl⟩ := h
  rw [← executions_eq_map_calledFrom] at hfirst
  by_cases hstarts : g.Starts name
  · obtain ⟨tr', p', w'', hr', hcalls⟩ := reaches_startNode env cancellation threadId resolvedInterrupt state w hstarts
    rcases hr.total hr' with ⟨t, rfl, -⟩ | ⟨t, rfl, -⟩
    · rw [executions_append, hcalls] at hfirst
      exact (List.cons.inj hfirst).1.symm
    · rw [executions_append, hfirst] at hcalls
      exact (List.cons.inj hcalls).1
  · have hnone := (shows_runInner_of_not_starts hstarts).1 ⟨tr, p, w', hr, rfl⟩
    rw [executions_eq_map_calledFrom, hnone] at hfirst
    cases hfirst

/-- Runs from two nodes make the same calls exactly if they start at the same node or not at all. -/
theorem sameCalls_runInner_iff (env : Env S) (g : Graph S) (threadId : String) (cancellation : Bool)
    (resolvedInterrupt : Option String) (state : S) (w : World) {name name' : String} :
    (∀ l, Shows (memory env) calledFrom (g.runInner threadId cancellation resolvedInterrupt state name none) w l ↔
      Shows (memory env) calledFrom (g.runInner threadId cancellation resolvedInterrupt state name' none) w l) ↔
      name' = name ∨ ¬ g.Starts name ∧ ¬ g.Starts name' := by
  constructor
  · intro h
    by_cases hname : g.Starts name
    · obtain ⟨tr, p, w', hr, hcalls⟩ := reaches_startNode env cancellation threadId resolvedInterrupt state w hname
      rw [executions_eq_map_calledFrom] at hcalls
      exact Or.inl (eq_of_shows_runInner hcalls ((h _).1 ⟨tr, p, w', hr, rfl⟩)).symm
    · by_cases hname' : g.Starts name'
      · obtain ⟨tr, p, w', hr, hcalls⟩ := reaches_startNode env cancellation threadId resolvedInterrupt state w hname'
        rw [executions_eq_map_calledFrom] at hcalls
        exact Or.inl (eq_of_shows_runInner hcalls ((h _).2 ⟨tr, p, w', hr, rfl⟩))
      · exact Or.inr ⟨hname, hname'⟩
  · rintro (rfl | ⟨hname, hname'⟩) l
    · rfl
    · rw [shows_runInner_of_not_starts hname, shows_runInner_of_not_starts hname']

end Runs

/-! ### Where a resume goes on -/

section Skip

variable [External] [State S] (env : Env S) (g : Graph S) (threadId : String) (cancellation : Bool) (rebind : S → S)

/-- A loaded checkpoint run from a node. -/
def Graph.continueAt (loaded : Loaded S) (state : S) (node : String) : Prog (ops S) TakelnError (Option S) :=
  ((g.runInner threadId cancellation loaded.info.claimedInterrupt state node none).mapError Prod.fst).bind fun final =>
    .ret (some final)

/-- A resume that goes on at the successor of the node of the checkpoint, by its edge. -/
def Graph.resumeAtSuccessor : Prog (ops S) TakelnError (Option S) :=
  (loadState threadId).bind fun
    | none => .ret none
    | some loaded =>
      g.continueAt threadId cancellation loaded (rebind loaded.state)
        (g.successor loaded.info.nextNode (rebind loaded.state))

/-- A resume of `loaded` skips its node: it does what a resume that goes on at the successor does, and the node is
executed first only if it is its own successor. -/
structure Graph.Skips (loaded : Loaded S) (w : World) : Prop where
  continues : Alike (memory env) (g.resumeWith threadId cancellation rebind)
    (g.resumeAtSuccessor threadId cancellation rebind) w
  first (tr : List (Event (ops S))) (p : Prog (ops S) TakelnError (Option S)) (w' : World) :
    Reaches (memory env) (g.resumeWith threadId cancellation rebind) w tr p w' →
    (executed tr).head? = some loaded.info.nextNode →
    g.successor loaded.info.nextNode (rebind loaded.state) = loaded.info.nextNode

variable {env g threadId cancellation rebind} {loaded : Loaded S} {w : World}

/-- The load a resume begins with. -/
def loading (threadId : String) (loaded : Loaded S) : List (Event (ops S)) :=
  [⟨.loadState threadId, (.ok (some loaded) : Except TakelnError (Option (Loaded S)))⟩]

theorem reaches_resumeAtSuccessor (env : Env S) (g : Graph S) (cancellation : Bool) (rebind : S → S)
    (hload : w.store.loadState threadId = .ok (some loaded)) :
    Reaches (memory env) (g.resumeAtSuccessor threadId cancellation rebind) w (loading threadId loaded)
      (g.continueAt threadId cancellation loaded (rebind loaded.state)
        (g.successor loaded.info.nextNode (rebind loaded.state))) w := by
  have hl := exec_loadState env w threadId
  rw [hload] at hl
  exact Reaches.of_exec_bind hl (.here _ _)

/-- A resume of a running checkpoint goes on after its node only if the node has an edge. -/
theorem reaches_resumeWith_skipping (env : Env S) (cancellation : Bool) (rebind : S → S)
    (hload : w.store.loadState threadId = .ok (some loaded)) (hstatus : loaded.info.status = .running)
    (hpolicy : g.crashRecoveryPolicy = .skipAndContinue) :
    Reaches (memory env) (g.resumeWith threadId cancellation rebind) w (loading threadId loaded)
      (g.continueAt threadId cancellation loaded (rebind loaded.state)
        (if g.edges loaded.info.nextNode = none then loaded.info.nextNode
          else g.successor loaded.info.nextNode (rebind loaded.state))) w := by
  have hl := exec_loadState env w threadId
  rw [hload] at hl
  unfold Graph.resumeWith
  refine Reaches.of_exec_bind hl ?_
  dsimp only
  rw [if_pos hstatus, hpolicy]
  cases hedge : g.edges loaded.info.nextNode with
  | none =>
    rw [if_pos rfl]
    exact .here _ _
  | some edge =>
    have hsucc : g.successor loaded.info.nextNode (rebind loaded.state) = edge.target (rebind loaded.state) := by
      simp [Graph.successor, hedge]
    rw [if_neg (by simp), hsucc]
    exact .here _ _

/-- A resume of a running checkpoint that is reset goes on at its node. -/
theorem reaches_resumeWith_reset (rebind : S → S) (hload : w.store.loadState threadId = .ok (some loaded))
    (hpolicy : g.crashRecoveryPolicy = .resetToPending) :
    Reaches (memory env) (g.resumeWith threadId cancellation rebind) w (loading threadId loaded)
      (g.continueAt threadId cancellation loaded (rebind loaded.state) loaded.info.nextNode) w := by
  have hl := exec_loadState env w threadId
  rw [hload] at hl
  unfold Graph.resumeWith
  refine Reaches.of_exec_bind hl ?_
  dsimp only
  rw [hpolicy]
  by_cases hstatus : loaded.info.status = .running
  · rw [if_pos hstatus]
    exact .here _ _
  · rw [if_neg hstatus]
    exact .here _ _

/-- What is observed of a run that goes on with a loaded checkpoint is what is observed of its loop. -/
theorem shows_continueAt {X : Type} {obs : Event (ops S) → List X} {state : S} {node : String} {l : List X} :
    Shows (memory env) obs (g.continueAt threadId cancellation loaded state node) w l ↔
      Shows (memory env) obs (g.runInner threadId cancellation loaded.info.claimedInterrupt state node none) w l := by
  unfold Graph.continueAt
  rw [shows_bind fun final => hidden_ret (some final), shows_mapError]

theorem exec_continueAt {state : S} {node : String} :
    exec (memory env) (g.continueAt threadId cancellation loaded state node) w =
      (exec (memory env) (g.runInner threadId cancellation loaded.info.claimedInterrupt state node none) w).map fun u =>
        ⟨(u.result.mapError Prod.fst).map some, u.world, u.trace⟩ := by
  unfold Graph.continueAt
  rw [exec_bind_ret, exec_mapError, Option.map_map]
  rfl

/-- The first node of a resume is the one it goes on at. -/
theorem executed_resumeWith {node : String} {tr : List (Event (ops S))} {p : Prog (ops S) TakelnError (Option S)}
    {w' : World} (hreach : Reaches (memory env) (g.resumeWith threadId cancellation rebind) w (loading threadId loaded)
      (g.continueAt threadId cancellation loaded (rebind loaded.state) node) w)
    (hr : Reaches (memory env) (g.resumeWith threadId cancellation rebind) w tr p w') :
    StartsWith node g.resourceLimits.maxSequentialSteps (executed tr) := by
  have hshows : Shows (memory env) (fun e => executedNode e.op) (g.resumeWith threadId cancellation rebind) w
      (executed tr) := ⟨tr, p, w', hr, rfl⟩
  rw [shows_of_reaches hreach rfl, shows_continueAt] at hshows
  obtain ⟨tr', p', w'', hr', hsame⟩ := hshows
  have hstarts := startsWith_executed hr'
  rwa [show executed tr' = executed tr from hsame] at hstarts

/-- A run that may take a step and starts before the end is not the run that starts at the end. -/
theorem exec_continueAt_ne_end {state : S} {node : String} (hname : node ≠ "__END__")
    (hlimit : g.resourceLimits.maxSequentialSteps ≠ 0) :
    exec (memory env) (g.continueAt threadId cancellation loaded state node) w ≠
      exec (memory env) (g.continueAt threadId cancellation loaded state "__END__") w := by
  intro hsame
  obtain ⟨u, hu, hcalls, hres⟩ := exec_runInner_of_not_starts env cancellation threadId loaded.info.claimedInterrupt
    state w (fun h : g.Starts "__END__" => h.2.1 rfl)
  obtain ⟨final, hfinal⟩ := hres.2 ⟨Nat.pos_of_ne_zero hlimit, rfl⟩
  rw [exec_continueAt, exec_continueAt, hu, Option.map_some] at hsame
  obtain ⟨u', hu', heq⟩ := Option.map_eq_some_iff.1 hsame
  obtain ⟨hres', -, htrace⟩ := Run.mk.inj heq
  by_cases hstarts : g.Starts node
  · -- the node is called, but at the end no node is
    obtain ⟨tr, p, w', hr, hfirst⟩ := reaches_startNode env cancellation threadId loaded.info.claimedInterrupt
      state w hstarts
    obtain ⟨v, -, rfl⟩ := hr.prefix_exec hu'
    rw [← htrace, trace_after, executions_append, hfirst] at hcalls
    cases hcalls
  · -- the node is not registered, but the run at the end ends well
    obtain ⟨u₁, hu₁, -, hres₁⟩ := exec_runInner_of_not_starts env cancellation threadId loaded.info.claimedInterrupt
      state w hstarts
    cases hu'.symm.trans hu₁
    have hok : ∃ s, u'.result = .ok s := by
      rw [hfinal] at hres'
      cases hx : u'.result with
      | ok s => exact ⟨s, rfl⟩
      | error e =>
        rw [hx] at hres'
        cases hres'
    exact hname (hres₁.1 hok).2

/-- A node without an edge is skipped only if it is not executed anyway. -/
theorem edge_of_skips (hload : w.store.loadState threadId = .ok (some loaded)) (hstatus : loaded.info.status = .running)
    (hpolicy : g.crashRecoveryPolicy = .skipAndContinue) (h : g.Skips env threadId cancellation rebind loaded w) :
    g.edges loaded.info.nextNode ≠ none ∨ loaded.info.nextNode = "__END__" ∨
      g.resourceLimits.maxSequentialSteps = 0 := by
  by_contra hno
  obtain ⟨hedge, hno⟩ := not_or.1 hno
  obtain ⟨hname, hlimit⟩ := not_or.1 hno
  have hsucc : g.successor loaded.info.nextNode (rebind loaded.state) = "__END__" := by
    simp [Graph.successor, not_not.1 hedge]
  have hresume := reaches_resumeWith_skipping env cancellation rebind hload hstatus hpolicy
  have hskip := reaches_resumeAtSuccessor env g cancellation rebind hload
  rw [if_pos (not_not.1 hedge)] at hresume
  rw [hsucc] at hskip
  have hsame := h.continues.ends
  rw [hresume.exec_eq, hskip.exec_eq] at hsame
  exact exec_continueAt_ne_end hname hlimit (Option.map_injective (after_injective _) hsame)

/-- Under `SkipAndContinue` a resume skips the node exactly if the node has an edge, or is not executed anyway. -/
theorem skips_iff (hload : w.store.loadState threadId = .ok (some loaded)) (hstatus : loaded.info.status = .running)
    (hpolicy : g.crashRecoveryPolicy = .skipAndContinue) :
    g.Skips env threadId cancellation rebind loaded w ↔
      g.edges loaded.info.nextNode ≠ none ∨ loaded.info.nextNode = "__END__" ∨
        g.resourceLimits.maxSequentialSteps = 0 := by
  refine ⟨edge_of_skips hload hstatus hpolicy, fun h => ?_⟩
  have hresume := reaches_resumeWith_skipping env cancellation rebind hload hstatus hpolicy
  have hskip := reaches_resumeAtSuccessor env g cancellation rebind hload
  by_cases hedge : g.edges loaded.info.nextNode = none
  · have hsucc : g.successor loaded.info.nextNode (rebind loaded.state) = "__END__" := by
      simp [Graph.successor, hedge]
    rw [if_pos hedge] at hresume
    rw [hsucc] at hskip
    rcases h.resolve_left (not_not.2 hedge) with hname | hlimit
    · rw [hname] at hresume
      refine ⟨.of_reaches hresume hskip (.refl _ _), fun _ _ _ _ _ => ?_⟩
      rw [hsucc, hname]
    · -- without a step a run fails at once, wherever it starts
      have hprog : g.continueAt threadId cancellation loaded (rebind loaded.state) loaded.info.nextNode =
          g.continueAt threadId cancellation loaded (rebind loaded.state) "__END__" := by
        unfold Graph.continueAt Graph.runInner
        rw [hlimit]
        rfl
      refine ⟨?_, fun tr p w' hr hhead => ?_⟩
      · rw [hprog] at hresume
        exact .of_reaches hresume hskip (.refl _ _)
      · have hlength := (executed_resumeWith hresume hr).length_le
        rw [hlimit, Nat.le_zero, List.length_eq_zero_iff] at hlength
        rw [hlength] at hhead
        cases hhead
  · rw [if_neg hedge] at hresume
    refine ⟨.of_reaches hresume hskip (.refl _ _), fun tr p w' hr hhead => ?_⟩
    exact ((executed_resumeWith hresume hr).head _ hhead).symm

end Skip

/-! ### A handoff that crashes -/

section Handoff

variable [External] [State S] (env : Env S) (g : Graph S) (threadId : String) (cancellation : Bool) (i : String)
  (input : Value) (context : ResumeContext)

/-- The world with the thread as it was in `w`. -/
def World.rewound (w' w : World) (threadId : String) : World :=
  { w' with store := Function.update w'.store threadId (w.store threadId) }

/-- Wherever the resume of `i` is stopped after its claim and before its first durable write, recovering the thread
makes the calls that the resume makes if it is not stopped, and executes the yielded node first only if it is its own
successor. -/
structure Graph.HandoffSurvives (loaded : Loaded S) (w : World) : Prop where
  same {tr : List (Event (ops S))} {p : Prog (ops S) TakelnError (Option S)} {w' : World}
    (hr : Reaches (memory env) (g.resumeWithInput threadId cancellation i input context) w tr p w') (hne : tr ≠ [])
    (hwrites : writes tr = []) (l : List (String × S)) :
    Shows (memory env) calledFrom (g.resume threadId cancellation) w' l ↔
      Shows (memory env) calledFrom (g.resumeWithInput threadId cancellation i input context)
        (w'.rewound w threadId) l
  first {tr : List (Event (ops S))} {p : Prog (ops S) TakelnError (Option S)} {w' : World}
    (hr : Reaches (memory env) (g.resumeWithInput threadId cancellation i input context) w tr p w') (hne : tr ≠ [])
    (hwrites : writes tr = []) {tr' : List (Event (ops S))} {p' : Prog (ops S) TakelnError (Option S)} {w'' : World}
    (hr' : Reaches (memory env) (g.resume threadId cancellation) w' tr' p' w'')
    (hhead : (executed tr').head? = some loaded.info.nextNode) :
    g.successor loaded.info.nextNode loaded.state = loaded.info.nextNode

variable {env g threadId cancellation i input context} {loaded : Loaded S} {request : YieldRequest} {w w' : World}
  {tr : List (Event (ops S))}

omit [External] in
/-- Nothing but a save changes a thread whose latest checkpoint is running. -/
theorem rows_of_steps_of_running {t : String} (hs : Steps (memory env) w tr w') (hwrites : writes tr = [])
    (hrunning : ∃ last, (w.rows t).getLast? = some last ∧ last.status = .running) : w'.rows t = w.rows t := by
  induction hs with
  | nil w => rfl
  | @cons w w₁ w₂ o r tr hr _ ih =>
    have hsplit : writes [⟨o, r⟩] = [] ∧ writes tr = [] := by
      have happend : writes [⟨o, r⟩] ++ writes tr = [] := by rw [← writes_append]; exact hwrites
      exact List.append_eq_nil_iff.1 happend
    have hsame : w₁.rows t = w.rows t := by
      cases threadStep_of_memory hr t with
      | idle hrows => exact hrows
      | saved args => simp [writes, written, checkpointId] at hsplit
      | claimed j hopen =>
        obtain ⟨last, hlast, hstatus⟩ := hrunning
        obtain ⟨-, hyielded, -⟩ := (open_iff_of_getLast? hlast).1 hopen
        rw [hstatus] at hyielded
        cases hyielded
    rw [← hsame] at hrunning ⊢
    exact ih hsplit.2 hrunning

/-- Up to the first write after the claim the thread is as the claim has left it. -/
theorem rows_of_crash (hopen : Open (w.rows threadId) i) {p : Prog (ops S) TakelnError (Option S)}
    (hr : Reaches (memory env) (g.resumeWithInput threadId cancellation i input context) w tr p w') (hne : tr ≠ [])
    (hwrites : writes tr = []) : w'.rows threadId = claimLast (w.rows threadId) i := by
  have hrunning : ∃ last, ((w.claimed threadId i).rows threadId).getLast? = some last ∧ last.status = .running := by
    obtain ⟨last, hlast, -⟩ := hopen.2
    have hlast' : (w.rows threadId).getLast? = some last := hlast
    refine ⟨last.claimedFor i, ?_, rfl⟩
    simp [claimLast, hlast']
  have hclaim : Reaches (memory env) (g.resumeWithInput threadId cancellation i input context) w
      ([⟨.claimInterrupt threadId i, .ok .claimed⟩] ++ []) _ (w.claimed threadId i) :=
    Reaches.of_exec_bind (exec_claimInterrupt_open hopen) (.here _ _)
  rw [← World.rows_claimed]
  rcases hr.total hclaim with ⟨t, rfl, hlater⟩ | ⟨t, htr, hlater⟩
  · rw [writes_append] at hwrites
    exact rows_of_steps_of_running hlater.steps (List.append_eq_nil_iff.1 hwrites).2 hrunning
  · -- the run is stopped right after the claim
    cases tr with
    | nil => exact absurd rfl hne
    | cons e tr =>
      obtain ⟨-, hnil⟩ := List.cons.inj htr
      obtain ⟨rfl, rfl⟩ := List.append_eq_nil_iff.1 hnil.symm
      rw [hlater.nil.2]

omit [External] in
/-- The rollback of a failed resume calls no node. -/
theorem hidden_revertToYielded {state : S} {nextNode : String} {lastHead : Option (Option String)} :
    Hidden (memory env) calledFrom (Graph.revertToYielded threadId state nextNode request lastHead) := by
  have save (head : Option String) : Hidden (memory env) calledFrom
      ((saveStateBound (Graph.revertSave threadId state nextNode request head)).bind fun save =>
        (Prog.ofExcept (checkpointId save)).bind fun _ => (.ret () : Prog (ops S) TakelnError Unit)) := by
    refine hidden_bind (hidden_perform (fun _ => rfl) fun r => hidden_ofExcept r) fun save => ?_
    exact hidden_bind (hidden_ofExcept _) fun _ => hidden_ret ()
  unfold Graph.revertToYielded
  cases lastHead with
  | some head => exact save head
  | none => exact hidden_bind (hidden_perform (fun _ => rfl) fun r => hidden_ofExcept r) save

/-- A claimed resume makes the calls of its loop. -/
theorem shows_resumeClaimed {l : List (String × S)} :
    Shows (memory env) calledFrom (g.resumeClaimed threadId cancellation loaded request i input context) w l ↔
      Shows (memory env) calledFrom (g.runInner threadId cancellation (some i) loaded.state
        (g.resumeStart loaded request) (Graph.resumeInput request input)) w l := by
  unfold Graph.resumeClaimed Graph.runClaimed
  rw [bind_eq, shows_bind, bind_eq, shows_bind, shows_attempt]
  · rintro (⟨e, lastHead⟩ | final)
    · refine hidden_bind (hidden_attempt hidden_revertToYielded) fun x => ?_
      cases x with
      | ok u => exact hidden_fail e
      | error saveErr => exact hidden_fail _
    · exact hidden_ret final
  · exact fun final => hidden_bind (hidden_perform (fun _ => rfl) fun _ => hidden_ret ()) fun _ =>
      hidden_ret (some final)

omit [External] [State S] in
theorem rows_rewound (w w' : World) (threadId : String) : (w'.rewound w threadId).rows threadId = w.rows threadId := by
  simp [World.rewound, World.rows, MemoryStore.rows]

omit [External] [State S] in
/-- The thread as it was, with the interrupt claimed, is the thread as the crash has left it. -/
theorem claimed_rewound (hopen : Open (w.rows threadId) i) (hrows : w'.rows threadId = claimLast (w.rows threadId) i) :
    (w'.rewound w threadId).claimed threadId i = w' := by
  have hstore : w'.store threadId = some (claimLast (w.rows threadId) i) := by
    obtain ⟨last, hlast, -⟩ := hopen.2
    have hlast' : (w.rows threadId).getLast? = some last := hlast
    have hne : w'.rows threadId ≠ [] := by
      rw [hrows]
      simp [claimLast, hlast']
    rw [← hrows]
    cases hs : w'.store threadId with
    | none =>
      rw [World.rows, MemoryStore.rows, hs] at hne
      exact absurd rfl hne
    | some rows => simp [World.rows, MemoryStore.rows, hs]
  unfold World.claimed
  rw [rows_rewound, ← hstore]
  simp [World.rewound]

/-- The recovered run is one from the yielded node. -/
theorem shows_resume_after_crash (hload : w.store.loadState threadId = .ok (some loaded))
    (hpolicy : g.crashRecoveryPolicy = .resetToPending) (hrows : w'.rows threadId = claimLast (w.rows threadId) i)
    {X : Type} {obs : Event (ops S) → List X} (hobs : (loading threadId (loaded.claimedFor i)).flatMap obs = [])
    (l : List X) :
    Shows (memory env) obs (g.resume threadId cancellation) w' l ↔
      Shows (memory env) obs (g.runInner threadId cancellation
        (some i) loaded.state loaded.info.nextNode none) w' l := by
  have hload' : w'.store.loadState threadId = .ok (some (loaded.claimedFor i)) := by
    have hclaimed := loadState_claimed (S := S) w threadId i
    have hsame : w'.store.rows threadId = (w.claimed threadId i).store.rows threadId := by
      rw [← World.rows_claimed] at hrows
      exact hrows
    rw [hload] at hclaimed
    unfold MemoryStore.loadState at hclaimed ⊢
    rw [hsame, hclaimed]
    rfl
  have hreach : Reaches (memory env) (g.resume threadId cancellation) w' (loading threadId (loaded.claimedFor i))
      (g.continueAt threadId cancellation (loaded.claimedFor i) loaded.state loaded.info.nextNode) w' :=
    reaches_resumeWith_reset id hload' hpolicy
  rw [shows_of_reaches hreach hobs, shows_continueAt]
  rfl

/-- The resume that is not stopped makes the calls of a run from the successor. -/
theorem shows_handoff (hopen : Open (w.rows threadId) i) (hload : w.store.loadState threadId = .ok (some loaded))
    (hcheck : Graph.checkResume threadId i input loaded = .ok request) (hmode : request.resumeMode = .handoff)
    (hrows : w'.rows threadId = claimLast (w.rows threadId) i) (l : List (String × S)) :
    Shows (memory env) calledFrom (g.resumeWithInput threadId cancellation i input context) (w'.rewound w threadId) l ↔
      Shows (memory env) calledFrom (g.runInner threadId cancellation (some i) loaded.state
        (g.successor loaded.info.nextNode loaded.state) none) w' l := by
  have hback : (w'.rewound w threadId).rows threadId = w.rows threadId := rows_rewound w w' threadId
  have hload' : (w'.rewound w threadId).store.loadState threadId = .ok (some loaded) := by
    have hsame : (w'.rewound w threadId).store.rows threadId = w.store.rows threadId := hback
    rw [← hload]
    unfold MemoryStore.loadState
    rw [hsame]
  have hreach := resumeWithInput_open env g cancellation (hback ▸ hopen) hload' hcheck context
  rw [claimed_rewound hopen hrows] at hreach
  rw [shows_of_reaches hreach rfl, shows_resumeClaimed]
  unfold Graph.resumeStart Graph.resumeInput
  rw [hmode]
  rfl

/-- Stopped right after its claim already, a handoff is recovered only if nothing is to be skipped. -/
theorem successor_of_handoffSurvives (hopen : Open (w.rows threadId) i)
    (hload : w.store.loadState threadId = .ok (some loaded))
    (hcheck : Graph.checkResume threadId i input loaded = .ok request) (hmode : request.resumeMode = .handoff)
    (hpolicy : g.crashRecoveryPolicy = .resetToPending)
    (h : g.HandoffSurvives env threadId cancellation i input context loaded w) :
    g.successor loaded.info.nextNode loaded.state = loaded.info.nextNode ∨
      ¬ g.Starts loaded.info.nextNode ∧ ¬ g.Starts (g.successor loaded.info.nextNode loaded.state) := by
  have hclaim : Reaches (memory env) (g.resumeWithInput threadId cancellation i input context) w
      ([⟨.claimInterrupt threadId i, .ok .claimed⟩] ++ []) _ (w.claimed threadId i) :=
    Reaches.of_exec_bind (exec_claimInterrupt_open hopen) (.here _ _)
  have hrows := World.rows_claimed w threadId i
  refine (sameCalls_runInner_iff env g threadId cancellation (some i) loaded.state (w.claimed threadId i)).1 fun l => ?_
  have hsame := h.same hclaim (by simp) rfl l
  rw [shows_resume_after_crash hload hpolicy hrows rfl, shows_handoff hopen hload hcheck hmode hrows] at hsame
  exact hsame

/-- A crashed handoff is recovered exactly if the yielded node is its own successor, or neither of the two is executed
anyway. -/
theorem handoff_survives_iff (hopen : Open (w.rows threadId) i)
    (hload : w.store.loadState threadId = .ok (some loaded))
    (hcheck : Graph.checkResume threadId i input loaded = .ok request) (hmode : request.resumeMode = .handoff)
    (hpolicy : g.crashRecoveryPolicy = .resetToPending) :
    g.HandoffSurvives env threadId cancellation i input context loaded w ↔
      g.successor loaded.info.nextNode loaded.state = loaded.info.nextNode ∨
        ¬ g.Starts loaded.info.nextNode ∧ ¬ g.Starts (g.successor loaded.info.nextNode loaded.state) := by
  refine ⟨successor_of_handoffSurvives hopen hload hcheck hmode hpolicy, fun h => ⟨?_, ?_⟩⟩
  · intro tr p w' hr hne hwrites l
    have hrows := rows_of_crash hopen hr hne hwrites
    rw [shows_resume_after_crash hload hpolicy hrows rfl, shows_handoff hopen hload hcheck hmode hrows]
    exact (sameCalls_runInner_iff env g threadId cancellation (some i) loaded.state w').2 h l
  · intro tr p w' hr hne hwrites tr' p' w'' hr' hhead
    rcases h with hself | ⟨hstarts, -⟩
    · exact hself
    · -- the recovered run calls no node
      have hrows := rows_of_crash hopen hr hne hwrites
      have hshows : Shows (memory env) calledFrom (g.resume threadId cancellation) w' (tr'.flatMap calledFrom) :=
        ⟨tr', p', w'', hr', rfl⟩
      rw [shows_resume_after_crash hload hpolicy hrows rfl, shows_runInner_of_not_starts hstarts] at hshows
      have hnone : executed tr' = [] := executed_eq_nil hshows
      rw [hnone] at hhead
      cases hhead

end Handoff

/-! ### A node without an edge -/

section Examples

attribute [local instance] shortRuns

def skipping : Graph Nat := { single with crashRecoveryPolicy := .skipAndContinue }

/-- `A` has asked `q` and hands over to its successor. -/
def handedOff : World := questioned .handoff

theorem loadState_handedOff : ∃ (loaded : Loaded Nat) (request : YieldRequest),
    handedOff.store.loadState "t" = .ok (some loaded) ∧ Graph.checkResume "t" "q" .null loaded = .ok request ∧
      request.resumeMode = .handoff ∧ loaded.info.nextNode = "A" := by
  have hshown : (handedOff.store.loadState "t" : Except TakelnError (Option (Loaded Nat))).toOption.bind
      (Option.map fun loaded => ((Graph.checkResume "t" "q" .null loaded).toOption.map YieldRequest.resumeMode,
        loaded.info.nextNode)) = some (some .handoff, "A") := by decide +kernel
  cases hload : (handedOff.store.loadState "t" : Except TakelnError (Option (Loaded Nat))) with
  | error e => simp [hload, Except.toOption] at hshown
  | ok loaded =>
    cases loaded with
    | none => simp [hload, Except.toOption] at hshown
    | some loaded =>
      cases hcheck : Graph.checkResume "t" "q" .null loaded with
      | error e => simp [hload, hcheck, Except.toOption] at hshown
      | ok request =>
        simp [hload, hcheck, Except.toOption] at hshown
        exact ⟨loaded, request, rfl, hcheck, hshown.1, hshown.2⟩

theorem open_handedOff : Open (handedOff.rows "t") "q" :=
  MemoryStore.claimInterrupt_claimed_iff.1 (by decide +kernel)

/-- Once `q` is claimed, `A` is the node of a running checkpoint. -/
theorem loadState_claimed_handedOff : ∃ loaded : Loaded Nat,
    (handedOff.claimed "t" "q").store.loadState "t" = .ok (some loaded) ∧ loaded.info.status = .running ∧
      loaded.info.nextNode = "A" := by
  obtain ⟨loaded, request, hload, -, -, hname⟩ := loadState_handedOff
  refine ⟨loaded.claimedFor "q", ?_, rfl, hname⟩
  rw [loadState_claimed, hload]
  rfl

theorem skips_false : ∃ loaded : Loaded Nat, (handedOff.claimed "t" "q").store.loadState "t" = .ok (some loaded) ∧
    loaded.info.status = .running ∧
    ¬ skipping.Skips (curious .handoff) "t" false id loaded (handedOff.claimed "t" "q") := by
  obtain ⟨loaded, hload, hstatus, hname⟩ := loadState_claimed_handedOff
  refine ⟨loaded, hload, hstatus, fun h => ?_⟩
  rcases edge_of_skips hload hstatus rfl h with hedge | hend | hlimit
  · exact hedge rfl
  · rw [hname] at hend
    exact absurd hend (by decide)
  · exact absurd hlimit (by decide)

theorem skips_handedOff : ∃ loaded : Loaded Nat, (handedOff.claimed "t" "q").store.loadState "t" = .ok (some loaded) ∧
    (skipping.Skips (curious .handoff) "t" false id loaded (handedOff.claimed "t" "q") ↔
      skipping.edges loaded.info.nextNode ≠ none ∨ loaded.info.nextNode = "__END__" ∨
        skipping.resourceLimits.maxSequentialSteps = 0) := by
  obtain ⟨loaded, hload, hstatus, -⟩ := loadState_claimed_handedOff
  exact ⟨loaded, hload, skips_iff hload hstatus rfl⟩

theorem handoff_survives_false : ∃ loaded : Loaded Nat, handedOff.store.loadState "t" = .ok (some loaded) ∧
    ¬ single.HandoffSurvives (curious .handoff) "t" false "q" .null {} loaded handedOff := by
  obtain ⟨loaded, request, hload, hcheck, hmode, hname⟩ := loadState_handedOff
  refine ⟨loaded, hload, fun h => ?_⟩
  have hstarts : single.Starts "A" := ⟨by decide, by decide, by decide⟩
  rcases successor_of_handoffSurvives open_handedOff hload hcheck hmode rfl h with hself | ⟨hnot, -⟩
  · have hend : single.successor "A" loaded.state = "__END__" := rfl
    rw [hname, hend] at hself
    exact absurd hself (by decide)
  · rw [hname] at hnot
    exact hnot hstarts

theorem handoff_survives_handedOff : ∃ loaded : Loaded Nat, handedOff.store.loadState "t" = .ok (some loaded) ∧
    (single.HandoffSurvives (curious .handoff) "t" false "q" .null {} loaded handedOff ↔
      single.successor loaded.info.nextNode loaded.state = loaded.info.nextNode ∨
        ¬ single.Starts loaded.info.nextNode ∧ ¬ single.Starts
          (single.successor loaded.info.nextNode loaded.state)) := by
  obtain ⟨loaded, request, hload, hcheck, hmode, -⟩ := loadState_handedOff
  exact ⟨loaded, hload, handoff_survives_iff open_handedOff hload hcheck hmode rfl⟩

end Examples

end Takeln
