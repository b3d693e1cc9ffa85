import Takeln.Sequential.Rounds

/-!
# Resumed runs

What a run of the loop leaves on its thread, by what its first round does (`RunCase`), and the case analysis of
`resume_with_input` on an in-memory checkpointer (`Resumption`): the claim is refused, the claimed checkpoint is
rejected, or the run it starts ends well or is rolled back.
-/

namespace Takeln

open Effect Effect.Prog

variable {S E α : Type} [State S] {env : Env S} {g : Graph S} {threadId : String} {cancellation : Bool}
  {resolvedInterrupt : Option String} {w : World}

/-! ### Runs of the loop -/

section Runs

variable [External]

/-- A round appends at most one checkpoint, which claims nothing. -/
theorem Round.rows {v : Loop S} {u : Run (ops S) RunError (Flow S) World}
    (h : Round env g threadId cancellation resolvedInterrupt v w u) :
    ∃ new, u.world.rows threadId = w.rows threadId ++ new ∧ ∀ cp ∈ new, cp.claimedInterrupt = none := by
  have quiet {names} (hq : Quiet w names u) :
      ∃ new, u.world.rows threadId = w.rows threadId ++ new ∧ ∀ cp ∈ new, cp.claimedInterrupt = none :=
    ⟨[], by simp [hq.rows], by simp⟩
  have saves {names state next status request r val id}
      (hs : Saves env w names (Graph.loopSave threadId v state next status request r) val id u) :
      ∃ new, u.world.rows threadId = w.rows threadId ++ new ∧ ∀ cp ∈ new, cp.claimedInterrupt = none := by
    obtain ⟨time, hrows⟩ := hs.rows
    exact ⟨_, hrows, by simp [MemoryCheckpoint.ofSave, Graph.loopSave]⟩
  cases h with
  | ended _ _ hq => exact quiet hq
  | gated _ _ _ _ _ _ hs => exact saves hs
  | gateFailed _ _ _ _ _ hq => exact quiet hq
  | unregistered _ _ _ _ hq => exact quiet hq
  | completed _ _ _ _ _ _ _ _ _ _ hs => exact saves hs
  | yielded _ _ _ _ _ _ _ _ hs => exact saves hs
  | failed _ _ _ _ _ _ hq => exact quiet hq

/-- The loop only appends checkpoints, which claim nothing. -/
theorem runLoop_rows {k : Nat} {v : Loop S} {u : Run (ops S) RunError S World}
    (hu : exec (memory env) (g.runLoop threadId cancellation resolvedInterrupt k v) w = some u) :
    ∃ new, u.world.rows threadId = w.rows threadId ++ new ∧ ∀ cp ∈ new, cp.claimedInterrupt = none := by
  induction k generalizing v w u with
  | zero =>
    cases hu
    exact ⟨[], by simp, by simp⟩
  | succ k ih =>
    obtain ⟨u₁, hround, hrest⟩ := runLoop_cases hu
    obtain ⟨new, hnew, hclaim⟩ := hround.rows
    rcases hrest with ⟨e, _, rfl⟩ | ⟨v', _, rfl⟩ | ⟨v', u₂, _, hu₂, rfl⟩
    · exact ⟨new, hnew, hclaim⟩
    · exact ⟨new, hnew, hclaim⟩
    · obtain ⟨new', hnew', hclaim'⟩ := ih hu₂
      refine ⟨new ++ new', by rw [world_after, hnew', hnew, List.append_assoc], fun cp hcp => ?_⟩
      rcases List.mem_append.1 hcp with h | h
      · exact hclaim cp h
      · exact hclaim' cp h

/-- What a run from `startNode` comes to, by its first round. -/
inductive RunCase (env : Env S) (g : Graph S) (threadId : String) (cancellation : Bool)
    (resolvedInterrupt : Option String) (v : Loop S) (w : World) (u : Run (ops S) RunError S World) : Prop
  | noSteps (hlimit : g.resourceLimits.maxSequentialSteps = 0) (e : RunError) (hres : u.result = .error e)
      (hquiet : Quiet w [] u)
  | ended (hname : v.currentNodeName = "__END__") (hres : u.result = .ok v.state) (hquiet : Quiet w [] u)
  | unregistered (hname : v.currentNodeName ≠ "__END__") (hreg : ¬ g.registered v.currentNodeName) (e : RunError)
      (hres : u.result = .error e) (hquiet : Quiet w [] u)
  | completed (hlimit : 0 < g.resourceLimits.maxSequentialSteps) (hruns : g.Runs v)
      (hcomp : g.Completes env threadId cancellation v w.calls) (cp : MemoryCheckpoint) (new : List MemoryCheckpoint)
      (hresolved : cp.resolvedInterrupt = resolvedInterrupt)
      (hrows : u.world.rows threadId = w.rows threadId ++ cp :: new)
      (hclaim : ∀ cp' ∈ cp :: new, cp'.claimedInterrupt = none)
      (rest : List String) (hcalls : executions u.trace = v.currentNodeName :: rest)
  | yielded (hlimit : 0 < g.resourceLimits.maxSequentialSteps) (hruns : g.Runs v) (request : YieldRequest)
      (hyields : g.Yields env threadId cancellation v w.calls request) (n : Nat) (val : Value) (id : String)
      (hres : u.result = .ok v.state)
      (hsaves : Saves env w (List.replicate (n + 1) v.currentNodeName)
        (Graph.loopSave threadId v v.state v.currentNodeName .yielded (some request) none) val id u)
  | failed (hlimit : 0 < g.resourceLimits.maxSequentialSteps) (hruns : g.Runs v)
      (hcomp : ¬ g.Completes env threadId cancellation v w.calls)
      (hyield : ∀ request, ¬ g.Yields env threadId cancellation v w.calls request)
      (e : RunError) (hres : u.result = .error e) (n : Nat)
      (hquiet : Quiet w (List.replicate (n + 1) v.currentNodeName) u)

/-- A run that is not at a gate is one of the cases. -/
theorem runCase_of_exec {v : Loop S} {u : Run (ops S) RunError S World} (hfirst : v.isFirstStep = true)
    (hu : exec (memory env)
      (g.runLoop threadId cancellation resolvedInterrupt g.resourceLimits.maxSequentialSteps v) w = some u) :
    RunCase env g threadId cancellation resolvedInterrupt v w u := by
  have hgate : ¬ g.GatedBefore v := fun h => Bool.noConfusion (hfirst.symm.trans h.1)
  cases hlimit : g.resourceLimits.maxSequentialSteps with
  | zero =>
    rw [hlimit] at hu
    cases hu
    exact .noSteps hlimit _ rfl ⟨rfl, rfl, rfl⟩
  | succ k =>
    rw [hlimit] at hu
    have hpos : 0 < g.resourceLimits.maxSequentialSteps := by omega
    obtain ⟨u₁, hround, hrest⟩ := runLoop_cases hu
    cases hround with
    | ended hname hres hq =>
      rcases hrest with ⟨e, h, rfl⟩ | ⟨v', h, rfl⟩ | ⟨v', u₂, h, hu₂, rfl⟩ <;> cases hres.symm.trans h
      exact .ended hname rfl ⟨hq.store, hq.writes, hq.executions⟩
    | gated _ _ _ h => exact absurd h hgate
    | gateFailed _ _ h => exact absurd h hgate
    | unregistered hname _ hreg hres hq =>
      rcases hrest with ⟨e, h, rfl⟩ | ⟨v', h, rfl⟩ | ⟨v', u₂, h, hu₂, rfl⟩ <;> cases hres.symm.trans h
      exact .unregistered hname hreg _ rfl ⟨hq.store, hq.writes, hq.executions⟩
    | completed n out val id _ hruns hnode haff hval hres hsaves =>
      have hcomp : g.Completes env threadId cancellation v w.calls := ⟨out, val, hnode, haff, hval⟩
      obtain ⟨time, hrows⟩ := hsaves.rows
      change u₁.world.rows threadId = w.rows threadId ++ _ at hrows
      have hcalls := hsaves.executions
      rw [List.replicate_succ] at hcalls
      -- the loop stops behind its first node, or goes on
      rcases hrest with ⟨e, h, rfl⟩ | ⟨v', h, rfl⟩ | ⟨v', u₂, h, hu₂, rfl⟩
      · cases hres.symm.trans h
      · exact .completed hpos hruns hcomp _ [] rfl hrows (by simp [MemoryCheckpoint.ofSave, Graph.loopSave]) _ hcalls
      · obtain ⟨new, hnew, hclaim⟩ := runLoop_rows hu₂
        refine .completed hpos hruns hcomp (.ofSave id time val (Graph.loopSave threadId v out.state
          (g.nextNode v.currentNodeName out) .complete none resolvedInterrupt)) new rfl ?_ ?_
          (List.replicate n v.currentNodeName ++ executions u₂.trace) ?_
        · rw [world_after, hnew, hrows, List.append_assoc]
          rfl
        · simpa [MemoryCheckpoint.ofSave, Graph.loopSave] using hclaim
        · rw [trace_after, executions_append, hcalls]
          rfl
    | yielded n request val id hruns hnode hval hres hsaves =>
      rcases hrest with ⟨e, h, rfl⟩ | ⟨v', h, rfl⟩ | ⟨v', u₂, h, hu₂, rfl⟩ <;> cases hres.symm.trans h
      exact .yielded hpos hruns request ⟨val, hnode, hval⟩ n val id rfl ⟨hsaves.trace, hsaves.executions⟩
    | failed n e hruns hcomp hyield hres hq =>
      rcases hrest with ⟨e, h, rfl⟩ | ⟨v', h, rfl⟩ | ⟨v', u₂, h, hu₂, rfl⟩ <;> cases hres.symm.trans h
      exact .failed hpos hruns hcomp hyield _ rfl n ⟨hq.store, hq.writes, hq.executions⟩

/-- A failed loop has yielded nowhere. -/
theorem runLoop_writes_of_error {k : Nat} {v : Loop S} {u : Run (ops S) RunError S World} {e : RunError}
    (hu : exec (memory env) (g.runLoop threadId cancellation resolvedInterrupt k v) w = some u)
    (he : u.result = .error e) : ∀ args ∈ writes u.trace, args.status ≠ .yielded := by
  induction k generalizing v w u with
  | zero =>
    cases hu
    simp
  | succ k ih =>
    obtain ⟨u₁, hround, hrest⟩ := runLoop_cases hu
    rcases hrest with ⟨e, hres, rfl⟩ | ⟨v', hres, rfl⟩ | ⟨v', u₂, hres, hu₂, rfl⟩
    · have hq : writes u₁.trace = [] := by
        cases hround with
        | gateFailed _ _ _ _ _ hq => exact hq.writes
        | unregistered _ _ _ _ hq => exact hq.writes
        | failed _ _ _ _ _ _ hq => exact hq.writes
        | ended _ h => cases h.symm.trans hres
        | gated _ _ _ _ _ h => cases h.symm.trans hres
        | completed _ _ _ _ _ _ _ _ _ h => cases h.symm.trans hres
        | yielded _ _ _ _ _ _ _ h => cases h.symm.trans hres
      simp [hq]
    · cases he
    · have hone : ∀ args ∈ writes u₁.trace, args.status ≠ .yielded := by
        cases hround with
        | completed _ _ _ _ _ _ _ _ _ _ hs => simp [hs.writes, Graph.loopSave]
        | gateFailed _ _ _ _ h => cases h.symm.trans hres
        | unregistered _ _ _ h => cases h.symm.trans hres
        | failed _ _ _ _ _ h => cases h.symm.trans hres
        | ended _ h => cases h.symm.trans hres
        | gated _ _ _ _ _ h => cases h.symm.trans hres
        | yielded _ _ _ _ _ _ _ h => cases h.symm.trans hres
      intro args hargs
      rw [trace_after, writes_append] at hargs
      rcases List.mem_append.1 hargs with h | h
      · exact hone args h
      · exact ih hu₂ he args h

/-- The loop fails at once if it may take no step or does not know the name it starts with. -/
theorem exec_runLoop_error (env : Env S) (g : Graph S) (threadId : String) (cancellation : Bool)
    (resolvedInterrupt : Option String) {k : Nat} {v : Loop S} (hfirst : v.isFirstStep = true)
    (h : k = 0 ∨ v.currentNodeName ≠ "__END__" ∧ ¬ g.registered v.currentNodeName) (w : World) :
    ∃ u e, exec (memory env) (g.runLoop threadId cancellation resolvedInterrupt k v) w = some u ∧
      u.result = .error e ∧ executions u.trace = [] := by
  cases k with
  | zero => exact ⟨_, _, rfl, rfl, rfl⟩
  | succ k =>
    obtain ⟨hname, hreg⟩ := h.resolve_left (Nat.succ_ne_zero k)
    unfold Graph.runLoop Graph.loopBody
    rw [if_neg hname, if_neg (fun h => Bool.noConfusion (hfirst.symm.trans h.1)), if_pos hreg]
    exact ⟨_, _, rfl, rfl, rfl⟩

/-- A run of `run_inner` is a run of the loop. -/
theorem exec_runInner {state : S} {startNode : String} {input : Option Value} {u : Run (ops S) RunError S World}
    (hu : exec (memory env) (g.runInner threadId cancellation resolvedInterrupt state startNode input) w = some u) :
    ∃ u₁, exec (memory env) (g.runLoop threadId cancellation resolvedInterrupt g.resourceLimits.maxSequentialSteps
        (.start state startNode input none)) w = some u₁ ∧
      u.result = u₁.result ∧ u.world = u₁.world ∧ executions u.trace = executions u₁.trace ∧
      writes u.trace = writes u₁.trace := by
  obtain ⟨u₁, hu₁, rfl⟩ := Option.map_eq_some_iff.1 hu
  exact ⟨u₁, hu₁, rfl, rfl, rfl, rfl⟩

end Runs

/-! ### Claims and loads -/

theorem exec_claimInterrupt_open {t i : String} (h : Open (w.rows t) i) :
    exec (memory env) (claimInterrupt t i : Prog (ops S) TakelnError ClaimResult) w =
      some ⟨.ok .claimed, w.claimed t i, [⟨.claimInterrupt t i, .ok .claimed⟩]⟩ := by
  have hres := MemoryStore.claimInterrupt_claimed_iff.2 h
  have hstore := MemoryStore.claimInterrupt_store w.store t i
  rw [if_pos hres] at hstore
  simp only [claimInterrupt, exec, memory, hres, hstore, Prog.ofExcept]
  rfl

theorem exec_claimInterrupt_not_open (env : Env S) {t i : String} (h : ¬ Open (w.rows t) i) :
    ∃ r, r ≠ .ok .claimed ∧ (r = .ok .alreadyCompleted ↔ Resolved (w.rows t) i) ∧
      exec (memory env) (claimInterrupt t i : Prog (ops S) TakelnError ClaimResult) w =
        some ⟨r, w, [⟨.claimInterrupt t i, r⟩]⟩ := by
  have hres := mt MemoryStore.claimInterrupt_claimed_iff.1 h
  have hstore := MemoryStore.claimInterrupt_store w.store t i
  rw [if_neg hres] at hstore
  refine ⟨(w.store.claimInterrupt t i).1, hres, MemoryStore.claimInterrupt_alreadyCompleted_iff, ?_⟩
  simp only [claimInterrupt, exec, memory, hstore]
  cases (w.store.claimInterrupt t i).1 <;> rfl

theorem exec_loadState (env : Env S) (w : World) (t : String) :
    exec (memory env) (loadState t : Prog (ops S) TakelnError (Option (Loaded S))) w =
      some ⟨w.store.loadState t, w, [⟨.loadState t, w.store.loadState t⟩]⟩ := by
  simp only [loadState, exec, memory]
  cases w.store.loadState (S := S) t <;> rfl

/-- A loaded checkpoint, as it is loaded after its claim. -/
def Loaded.claimedFor (loaded : Loaded S) (interruptId : String) : Loaded S :=
  { loaded with info := { loaded.info with status := .running, claimedInterrupt := some interruptId } }

/-- A claim changes the status and the claim of the checkpoint that is loaded next, and nothing else. -/
theorem loadState_claimed (w : World) (t i : String) :
    (w.claimed t i).store.loadState t =
      (w.store.loadState t : Except TakelnError (Option (Loaded S))).map (Option.map (·.claimedFor i)) := by
  have hrows : (w.claimed t i).store.rows t = claimLast (w.rows t) i := w.rows_claimed t i
  have hown : w.store.rows t = w.rows t := rfl
  unfold MemoryStore.loadState
  rw [hrows, hown]
  cases hlast : (w.rows t).getLast? with
  | none =>
    have hnil : w.rows t = [] := List.getLast?_eq_none_iff.1 hlast
    simp [claimLast, hnil, Except.map]
  | some last =>
    have hclaim : (claimLast (w.rows t) i).getLast? = some (last.claimedFor i) := by simp [claimLast, hlast]
    rw [hclaim]
    dsimp only
    cases hval : State.fromValue (S := S) last.state <;>
      simp [MemoryCheckpoint.load, MemoryCheckpoint.claimedFor, hval, Except.map, Loaded.claimedFor,
        MemoryCheckpoint.toMeta]

/-- What was saved last is what is loaded. -/
theorem loadState_of_getLast? [RoundTrip S] {w : World} {t id : String} {time : Int} {val : Value} {args : SaveArgs S}
    (hval : State.toValue args.state = .ok val) (h : (w.rows t).getLast? = some (.ofSave id time val args)) :
    w.store.loadState t =
      .ok (some ⟨args.state, (MemoryCheckpoint.ofSave id time val args).toMeta t, args.dag⟩) := by
  have hlast : (w.store.rows t).getLast? = some (.ofSave id time val args) := h
  have hload : (MemoryCheckpoint.ofSave id time val args).load t =
      .ok ⟨args.state, (MemoryCheckpoint.ofSave id time val args).toMeta t, args.dag⟩ := by
    simp [MemoryCheckpoint.load, MemoryCheckpoint.ofSave, RoundTrip.fromValue_toValue hval]
  unfold MemoryStore.loadState
  rw [hlast]
  simp only [hload]
  rfl

theorem loadState_append [RoundTrip S] {w w' : World} {t id : String} {time : Int} {val : Value} {args : SaveArgs S}
    (hval : State.toValue args.state = .ok val) (h : w'.rows t = w.rows t ++ [.ofSave id time val args]) :
    w'.store.loadState t =
      .ok (some ⟨args.state, (MemoryCheckpoint.ofSave id time val args).toMeta t, args.dag⟩) :=
  loadState_of_getLast? hval (by rw [h, List.getLast?_concat])

/-! ### Resuming with input -/

section Resume

/-- A rollback appends a yielded checkpoint, or fails and writes nothing. -/
theorem exec_revertToYielded {t : String} {state : S} {nextNode : String} {request : YieldRequest}
    {lastHead : Option (Option String)} {u : Run (ops S) TakelnError Unit World}
    (hu : exec (memory env) (Graph.revertToYielded t state nextNode request lastHead) w = some u) :
    (∃ val id head, State.toValue state = .ok val ∧ u.result = .ok () ∧
        Saves env w [] (Graph.revertSave t state nextNode request head) val id u) ∨
      (∃ e, u.result = .error e) ∧ Quiet w [] u ∧ ∀ val, State.toValue state ≠ .ok val := by
  have hsave (head : Option String) {u : Run (ops S) TakelnError Unit World}
      (hu : exec (memory env) ((saveStateBound (Graph.revertSave t state nextNode request head)).bind fun save =>
        (Prog.ofExcept (checkpointId save)).bind fun _ => .ret ()) w = some u) :
      (∃ val id head, State.toValue state = .ok val ∧ u.result = .ok () ∧
          Saves env w [] (Graph.revertSave t state nextNode request head) val id u) ∨
        (∃ e, u.result = .error e) ∧ Quiet w [] u ∧ ∀ val, State.toValue state ≠ .ok val := by
    cases hval : State.toValue state with
    | error e =>
      rw [exec_bind_error (exec_saveStateBound_error hval)] at hu
      cases hu
      exact Or.inr ⟨⟨_, rfl⟩, ⟨rfl, rfl, rfl⟩, nofun⟩
    | ok val =>
      rw [exec_bind_ok (exec_saveStateBound hval)] at hu
      cases hu
      exact Or.inl ⟨val, _, head, rfl, rfl, ⟨[], _, w, rfl, rfl, rfl, rfl, rfl, rfl⟩, rfl⟩
  cases lastHead with
  | some head => exact hsave head hu
  | none =>
    have hu' : (exec (memory env) ((saveStateBound (Graph.revertSave t state nextNode request none)).bind fun save =>
        (Prog.ofExcept (checkpointId save)).bind fun _ => (.ret () : Prog (ops S) TakelnError Unit)) w).map
          (Run.after [⟨Op.currentHead t, (.ok none : Except TakelnError (Option String))⟩]) = some u := hu
    obtain ⟨u₁, hu₁, rfl⟩ := Option.map_eq_some_iff.1 hu'
    have hhead : Quiet w [] (⟨.ok (), w, [⟨Op.currentHead t, (.ok none : Except TakelnError (Option String))⟩]⟩ :
        Run (ops S) TakelnError Unit World) := ⟨rfl, rfl, rfl⟩
    rcases hsave none hu₁ with ⟨val, id, head, hval, hres, hsaves⟩ | ⟨hres, hq, hval⟩
    · exact Or.inl ⟨val, id, head, hval, hres, Saves.after hhead hsaves⟩
    · exact Or.inr ⟨hres, hhead.after hq, hval⟩

variable [External]

omit [State S] in
theorem checkResume_eq_ok_iff {t i : String} {input : Value} {loaded : Loaded S} {request : YieldRequest} :
    Graph.checkResume t i input loaded = .ok request ↔ loaded.info.yieldRequest = some request ∧
      request.interruptId = i ∧ ∀ schema, request.schema = some schema →
        validateInputAgainstSchema i input schema = .ok () := by
  unfold Graph.checkResume
  cases loaded.info.yieldRequest with
  | none => simp
  | some r =>
    obtain ⟨id, message, schema, mode, ref⟩ := r
    by_cases hid : id = i
    · subst hid
      cases schema with
      | none =>
        simp only [ne_eq, not_true, if_false, Except.ok.injEq, Option.some.injEq]
        constructor
        · rintro rfl
          exact ⟨rfl, rfl, by simp⟩
        · exact fun h => h.1
      | some schema =>
        simp only [ne_eq, not_true, if_false, Option.some.injEq]
        cases hval : validateInputAgainstSchema id input schema with
        | error e =>
          simp only [Except.map, reduceCtorEq, false_iff]
          rintro ⟨rfl, _, h⟩
          cases hval.symm.trans (h schema rfl)
        | ok x =>
          simp only [Except.map, Except.ok.injEq]
          constructor
          · rintro rfl
            refine ⟨rfl, rfl, fun schema' h => ?_⟩
            cases h
            exact hval
          · exact fun h => h.1
    · simp only [ne_eq, hid, not_false_eq_true, if_true, reduceCtorEq, Option.some.injEq, false_iff]
      rintro ⟨rfl, h, _⟩
      exact hid h

/-- The local variables a resumed run starts with. -/
def Graph.resumeLoop (g : Graph S) (loaded : Loaded S) (request : YieldRequest) (input : Value) : Loop S :=
  .start loaded.state (g.resumeStart loaded request) (resumeInput request input) none

/-- How a claimed run ends, given the run `u₁` of its loop; `f` is applied to its final state. -/
inductive ClaimedRun (threadId : String) (loaded : Loaded S) (request : YieldRequest) (f : S → α)
    (u₁ : Run (ops S) RunError S World) (u : Run (ops S) TakelnError α World) : Prop
  | finished (final : S) (hfinal : u₁.result = .ok final) (hres : u.result = .ok (f final))
      (hstore : u.world.store = u₁.world.store) (hwrites : writes u.trace = writes u₁.trace)
  | rolledBack (e : RunError) (hfail : u₁.result = .error e) (hres : u.result = .error e.1)
      (val : Value) (id : String) (time : Int) (head : Option String) (hval : State.toValue loaded.state = .ok val)
      (hrows : u.world.rows threadId = u₁.world.rows threadId ++
        [.ofSave id time val (Graph.revertSave threadId loaded.state loaded.info.nextNode request head)])
      (hwrites : writes u.trace = writes u₁.trace ++
        [Graph.revertSave threadId loaded.state loaded.info.nextNode request head])
  | stuck (e : RunError) (hfail : u₁.result = .error e) (e' : TakelnError) (hres : u.result = .error e')
      (hstore : u.world.store = u₁.world.store) (hwrites : writes u.trace = writes u₁.trace)
      (hval : ∀ val, State.toValue loaded.state ≠ .ok val)

/-- What `resume_with_input` can do. -/
inductive Resumption (env : Env S) (g : Graph S) (threadId : String) (cancellation : Bool) (interruptId : String)
    (input : Value) (w : World) (u : Run (ops S) TakelnError (Option S) World) : Prop
  | refused (hopen : ¬ Open (w.rows threadId) interruptId) (hquiet : Quiet w [] u)
      (hres : ∀ s, u.result = .ok s → Resolved (w.rows threadId) interruptId ∧
        ∃ loaded, w.store.loadState threadId = .ok (some loaded) ∧ s = some loaded.state)
  | rejected (hopen : Open (w.rows threadId) interruptId) (e : TakelnError) (hres : u.result = .error e)
      (hquiet : Quiet (w.claimed threadId interruptId) [] u)
      (hreject : ∀ (loaded : Loaded S) request, w.store.loadState threadId = .ok (some loaded) →
        Graph.checkResume threadId interruptId input loaded ≠ .ok request)
  | ran (hopen : Open (w.rows threadId) interruptId) (loaded : Loaded S) (request : YieldRequest)
      (hload : w.store.loadState threadId = .ok (some loaded))
      (hcheck : Graph.checkResume threadId interruptId input loaded = .ok request)
      (u₁ : Run (ops S) RunError S World)
      (hrun : exec (memory env) (g.runLoop threadId cancellation (some interruptId)
        g.resourceLimits.maxSequentialSteps (g.resumeLoop loaded request input))
          (w.claimed threadId interruptId) = some u₁)
      (hend : ClaimedRun threadId loaded request some u₁ u)
      (hcalls : executions u.trace = executions u₁.trace)

/-- How `run_claimed` ends. -/
private theorem exec_runClaimed {loaded : Loaded S} {request : YieldRequest} {i start : String} {input : Option Value}
    {u : Run (ops S) TakelnError S World}
    (hu : exec (memory env) (g.runClaimed threadId cancellation loaded request i start input) w = some u) :
    ∃ u₁, exec (memory env) (g.runLoop threadId cancellation (some i) g.resourceLimits.maxSequentialSteps
        (.start loaded.state start input none)) w = some u₁ ∧ executions u.trace = executions u₁.trace ∧
      ClaimedRun threadId loaded request id u₁ u := by
  obtain ⟨v, x, hv, hx, rfl⟩ := exec_attempt_bind_eq_some hu
  obtain ⟨u₁, hu₁, hres₁, hworld₁, hcalls₁, hwrites₁⟩ := exec_runInner hv
  refine ⟨u₁, hu₁, ?_⟩
  rw [hres₁, hworld₁] at hx
  cases hres : u₁.result with
  | ok final =>
    rw [hres] at hx
    cases hx
    exact ⟨by simp [hcalls₁], .finished final hres rfl rfl (by simp [hwrites₁])⟩
  | error e =>
    rw [hres] at hx
    obtain ⟨v', x', hv', hx', rfl⟩ := exec_attempt_bind_eq_some hx
    rcases exec_revertToYielded hv' with ⟨val, id, head, hval, hres', hsaves⟩ | ⟨⟨e', hres'⟩, hq, hval⟩
    · rw [hres'] at hx'
      cases hx'
      obtain ⟨time, hrows⟩ := hsaves.rows
      exact ⟨by simp [hcalls₁, hsaves.executions],
        .rolledBack e hres rfl val id time head hval hrows (by simp [hwrites₁, hsaves.writes])⟩
    · rw [hres'] at hx'
      cases hx'
      exact ⟨by simp [hcalls₁, hq.executions],
        .stuck e hres _ rfl hq.store (by simp [hwrites₁, hq.writes]) hval⟩

/-- A run of `resume_with_input` does what `Resumption` says. -/
theorem resumption_of_exec {i : String} {input : Value} {context : ResumeContext}
    {u : Run (ops S) TakelnError (Option S) World}
    (hu : exec (memory env) (g.resumeWithInput threadId cancellation i input context) w = some u) :
    Resumption env g threadId cancellation i input w u := by
  unfold Graph.resumeWithInput at hu
  rw [bind_eq] at hu
  by_cases hopen : Open (w.rows threadId) i
  -- the claim is granted, and what it has claimed is checked before anything runs
  · rw [exec_bind_ok (exec_claimInterrupt_open hopen)] at hu
    obtain ⟨u₁, hu₁, rfl⟩ := Option.map_eq_some_iff.1 hu
    have hclaim : Quiet (w.claimed threadId i) [] (⟨.ok (), w.claimed threadId i,
        [⟨Op.claimInterrupt threadId i, (.ok .claimed : Except TakelnError ClaimResult)⟩]⟩ :
        Run (ops S) TakelnError Unit World) := ⟨rfl, rfl, rfl⟩
    have hload := exec_loadState env (w.claimed threadId i) threadId
    rw [loadState_claimed] at hload
    cases hld : (w.store.loadState threadId : Except TakelnError (Option (Loaded S))) with
    | error e =>
      rw [hld] at hload
      rw [bind_eq, exec_bind_error hload] at hu₁
      cases hu₁
      exact .rejected hopen e rfl ⟨rfl, rfl, rfl⟩ fun _ _ hload => by cases hld.symm.trans hload
    | ok loaded =>
      rw [hld] at hload
      rw [bind_eq, exec_bind_ok hload] at hu₁
      obtain ⟨u₂, hu₂, rfl⟩ := Option.map_eq_some_iff.1 hu₁
      cases loaded with
      | none =>
        cases hu₂
        exact .rejected hopen _ rfl ⟨rfl, rfl, rfl⟩ fun _ _ hload => by cases hld.symm.trans hload
      | some loaded =>
        simp only [Option.map, bind_eq] at hu₂
        rw [show Graph.checkResume threadId i input (loaded.claimedFor i) = Graph.checkResume threadId i input loaded
          from rfl] at hu₂
        cases hcheck : Graph.checkResume threadId i input loaded with
        | error e =>
          rw [hcheck] at hu₂
          cases hu₂
          refine .rejected hopen e rfl ⟨rfl, rfl, rfl⟩ fun loaded' request hload hok => ?_
          cases hld.symm.trans hload
          cases hcheck.symm.trans hok
        | ok request =>
          rw [hcheck, ofExcept_ok, ret_bind] at hu₂
          rcases exec_bind_eq_some hu₂ with ⟨e, w₃, t₃, hrun, rfl⟩ | ⟨final, w₃, t₃, u₃, hrun, hrec, rfl⟩
          -- the run fails, and the checkpoint is rolled back
          · obtain ⟨v, hv, hcalls, hend⟩ := exec_runClaimed hrun
            refine .ran hopen loaded request hld hcheck v hv ?_ hcalls
            cases hend with
            | finished _ _ hres => cases hres
            | rolledBack e' hfail hres val id time head hval hrows hwrites =>
              cases hres
              exact .rolledBack e' hfail rfl val id time head hval hrows hwrites
            | stuck e' hfail e'' hres hstore hwrites hval => exact .stuck e' hfail _ rfl hstore hwrites hval
          -- the run returns, and the answer is recorded
          · obtain ⟨v, hv, hcalls, hend⟩ := exec_runClaimed hrun
            rcases exec_bind_eq_some hrec with ⟨e, w₄, t₄, hr, rfl⟩ | ⟨_, w₄, t₄, u₄, hr, hret, rfl⟩
            · cases (exec_record hr).1
            · have hq := (exec_record hr).2.1
              cases hret
              refine .ran hopen loaded request hld hcheck v hv ?_ ?_
              · cases hend with
                | finished final' hfinal hres hstore hwrites =>
                  cases hres
                  refine .finished _ hfinal rfl (hq.store.trans hstore) ?_
                  change writes (t₃ ++ (t₄ ++ [])) = writes v.trace
                  rw [List.append_nil, writes_append, hq.writes, List.append_nil, ← hwrites]
                | rolledBack _ _ hres => cases hres
                | stuck _ _ _ hres => cases hres
              · change executions (t₃ ++ (t₄ ++ [])) = executions v.trace
                rw [List.append_nil, executions_append, hq.executions, List.append_nil, ← hcalls]
  -- the claim is refused, and nothing is written
  · obtain ⟨r, hr, hresolved, hclaim⟩ := exec_claimInterrupt_not_open (S := S) env hopen
    cases r with
    | error e =>
      rw [exec_bind_error hclaim] at hu
      cases hu
      exact .refused hopen ⟨rfl, rfl, rfl⟩ fun s h => by cases h
    | ok claim =>
      rw [exec_bind_ok hclaim] at hu
      obtain ⟨u₁, hu₁, rfl⟩ := Option.map_eq_some_iff.1 hu
      have hload := exec_loadState env w threadId
      cases hld : (w.store.loadState threadId : Except TakelnError (Option (Loaded S))) with
      | error e =>
        rw [hld] at hload
        rw [bind_eq, exec_bind_error hload] at hu₁
        cases hu₁
        exact .refused hopen ⟨rfl, rfl, rfl⟩ fun s h => by cases h
      | ok loaded =>
        rw [hld] at hload
        rw [bind_eq, exec_bind_ok hload] at hu₁
        obtain ⟨u₂, hu₂, rfl⟩ := Option.map_eq_some_iff.1 hu₁
        cases loaded with
        | none =>
          cases hu₂
          exact .refused hopen ⟨rfl, rfl, rfl⟩ fun s h => by cases h
        | some loaded =>
          cases claim with
          | claimed => exact absurd rfl hr
          | inProgress =>
            cases hu₂
            exact .refused hopen ⟨rfl, rfl, rfl⟩ fun s h => by cases h
          | alreadyCompleted =>
            cases hu₂
            refine .refused hopen ⟨rfl, rfl, rfl⟩ fun s h => ?_
            cases h
            exact ⟨hresolved.1 rfl, loaded, hld, rfl⟩

/-! ### Resuming an open interrupt -/

/-- A run that starts at the node calls it. -/
def Graph.Starts {S : Type} (g : Graph S) (name : String) : Prop :=
  0 < g.resourceLimits.maxSequentialSteps ∧ name ≠ "__END__" ∧ g.registered name

/-- A loop that runs its first node calls it. -/
theorem reaches_firstCall (env : Env S) {v : Loop S} (hlimit : 0 < g.resourceLimits.maxSequentialSteps)
    (hruns : g.Runs v) (w : World) :
    ∃ tr p w', Reaches (memory env) (g.runLoop threadId cancellation resolvedInterrupt
        g.resourceLimits.maxSequentialSteps v) w tr p w' ∧ executions tr = [v.currentNodeName] := by
  obtain ⟨k, hk⟩ := Nat.exists_eq_succ_of_ne_zero hlimit.ne'
  obtain ⟨hname, hgate, hreg⟩ := hruns
  obtain ⟨t₁, hem, hq⟩ := exec_emit (E := RunError) env (.nodeStarted threadId v.currentNodeName) w
  have hcall : ∃ tr p w', Reaches (memory env)
      (g.callNode threadId cancellation v : Prog (ops S) RunError _) { w with seq := w.seq + 1 } tr p w' ∧
      executions tr = [v.currentNodeName] := by
    unfold Graph.callNode
    split
    · exact ⟨_, _, _, .step rfl (.here _ _), rfl⟩
    · unfold Graph.callRetrying
      exact ⟨_, _, _, .step rfl (.here _ _), rfl⟩
  obtain ⟨tr, p, w', hreach, hcalls⟩ := hcall
  rw [hk]
  unfold Graph.runLoop Graph.loopBody
  rw [if_neg hname, if_neg (show ¬ (v.isFirstStep = false ∧ _) from hgate), if_neg (not_not.2 hreg)]
  refine ⟨_, _, _, Reaches.bind (Reaches.of_exec_bind hem (hreach.bind _)) _, ?_⟩
  rw [executions_append, hq.executions, hcalls]
  rfl

section

variable {i : String} {input : Value} {loaded : Loaded S} {request : YieldRequest}

omit [External] in
/-- Every rollback ends. -/
private theorem exec_revertToYielded_isSome (env : Env S) (t : String) (state : S) (nextNode : String)
    (request : YieldRequest) (lastHead : Option (Option String)) (w : World) :
    ∃ u, exec (memory env) (Graph.revertToYielded t state nextNode request lastHead) w = some u := by
  have hsave (head : Option String) : ∃ u, exec (memory env)
      ((saveStateBound (Graph.revertSave t state nextNode request head)).bind fun save =>
        (Prog.ofExcept (checkpointId save)).bind fun _ => (.ret () : Prog (ops S) TakelnError Unit)) w = some u := by
    cases hval : State.toValue state with
    | error e => exact ⟨_, exec_bind_error (exec_saveStateBound_error hval) _⟩
    | ok val =>
      rw [exec_bind_ok (exec_saveStateBound hval)]
      exact ⟨_, rfl⟩
  cases lastHead with
  | some head => exact hsave head
  | none =>
    obtain ⟨u, hu⟩ := hsave none
    exact ⟨_, congrArg (Option.map (Run.after _)) hu⟩

/-- The claim and the load that a resume of an open interrupt begins with. -/
def opening (threadId i : String) (loaded : Loaded S) : List (Event (ops S)) :=
  [⟨.claimInterrupt threadId i, (.ok .claimed : Except TakelnError ClaimResult)⟩,
    ⟨.loadState threadId, (.ok (some (loaded.claimedFor i)) : Except TakelnError (Option (Loaded S)))⟩]

/-- Resuming an open interrupt performs the claim and the load, and then the claimed run. -/
theorem resumeWithInput_open (env : Env S) (g : Graph S) (cancellation : Bool) (hopen : Open (w.rows threadId) i)
    (hload : w.store.loadState threadId = .ok (some loaded))
    (hcheck : Graph.checkResume threadId i input loaded = .ok request) (context : ResumeContext) :
    Reaches (memory env) (g.resumeWithInput threadId cancellation i input context) w (opening threadId i loaded)
      (g.resumeClaimed threadId cancellation (loaded.claimedFor i) request i input context) (w.claimed threadId i) := by
  have hl := exec_loadState env (w.claimed threadId i) threadId
  rw [loadState_claimed, hload] at hl
  have hcheck' : Graph.checkResume threadId i input (loaded.claimedFor i) = .ok request := hcheck
  refine Reaches.of_exec_bind (exec_claimInterrupt_open hopen) ?_
  refine Reaches.of_exec_bind hl ?_
  simp only [Option.map, bind_eq, hcheck', ofExcept_ok, ret_bind]
  exact .here _ _

/-- As far as the loop gets, a resume of an open interrupt gets. -/
theorem reaches_resumeWithInput (hopen : Open (w.rows threadId) i)
    (hload : w.store.loadState threadId = .ok (some loaded))
    (hcheck : Graph.checkResume threadId i input loaded = .ok request) (context : ResumeContext)
    {tr : List (Event (ops S))} {p : Prog (ops S) RunError S} {w' : World}
    (hloop : Reaches (memory env) (g.runLoop threadId cancellation (some i) g.resourceLimits.maxSequentialSteps
      (g.resumeLoop loaded request input)) (w.claimed threadId i) tr p w') :
    ∃ p', Reaches (memory env) (g.resumeWithInput threadId cancellation i input context) w (opening threadId i loaded ++
      ⟨Op.currentHead threadId, (.ok none : Except TakelnError (Option String))⟩ :: tr) p' w' := by
  have hreach := resumeWithInput_open env g cancellation hopen hload hcheck context
  have hinner : Reaches (memory env) (g.runInner threadId cancellation (some i) loaded.state
      (g.resumeStart loaded request) (Graph.resumeInput request input)) (w.claimed threadId i)
      (⟨Op.currentHead threadId, (.ok none : Except TakelnError (Option String))⟩ :: tr) p w' := .step rfl hloop
  exact ⟨_, hreach.trans ((hinner.attempt.bind _).bind _)⟩

/-- A resume of an open interrupt whose loop fails ends. -/
theorem exec_resumeWithInput_of_error (hopen : Open (w.rows threadId) i)
    (hload : w.store.loadState threadId = .ok (some loaded))
    (hcheck : Graph.checkResume threadId i input loaded = .ok request) (context : ResumeContext)
    {u₁ : Run (ops S) RunError S World} {e : RunError}
    (hloop : exec (memory env) (g.runLoop threadId cancellation (some i) g.resourceLimits.maxSequentialSteps
      (g.resumeLoop loaded request input)) (w.claimed threadId i) = some u₁) (hfail : u₁.result = .error e) :
    ∃ u, exec (memory env) (g.resumeWithInput threadId cancellation i input context) w = some u ∧
      executions u.trace = executions u₁.trace := by
  have hreach := resumeWithInput_open env g cancellation hopen hload hcheck context
  have hinner : exec (memory env) (g.runInner threadId cancellation (some i) (loaded.claimedFor i).state
      (g.resumeStart (loaded.claimedFor i) request) (Graph.resumeInput request input)) (w.claimed threadId i) =
      some (u₁.after [⟨Op.currentHead threadId, (.ok none : Except TakelnError (Option String))⟩]) := by
    exact congrArg (Option.map (Run.after _)) hloop
  obtain ⟨v, hv⟩ := exec_revertToYielded_isSome env threadId (loaded.claimedFor i).state
    (loaded.claimedFor i).info.nextNode request e.2 u₁.world
  have hclaimed : ∃ x, exec (memory env) (g.runClaimed threadId cancellation (loaded.claimedFor i) request i
      (g.resumeStart (loaded.claimedFor i) request) (Graph.resumeInput request input)) (w.claimed threadId i) = some x ∧
      (∃ e', x.result = .error e') ∧ executions x.trace = executions u₁.trace := by
    unfold Graph.runClaimed
    rw [bind_eq, exec_attempt_bind hinner, result_after, hfail, world_after]
    dsimp only
    rw [bind_eq, exec_attempt_bind hv]
    -- the rollback executes nothing
    have hcalls : executions v.trace = [] := by
      rcases exec_revertToYielded hv with ⟨_, _, _, _, _, hsaves⟩ | ⟨_, hq, _⟩
      · exact hsaves.executions
      · exact hq.executions
    have hend (e' : TakelnError) : ∃ x : Run (ops S) TakelnError S World,
        (((exec (memory env) (.fail e' : Prog (ops S) TakelnError S) v.world).map (Run.after v.trace)).map
          (Run.after (u₁.after [⟨Op.currentHead threadId, (.ok none : Except TakelnError (Option String))⟩]).trace)) =
            some x ∧ (∃ e', x.result = .error e') ∧ executions x.trace = executions u₁.trace := by
      refine ⟨_, rfl, ⟨e', rfl⟩, ?_⟩
      rw [trace_after, trace_after, trace_after, executions_append, executions_append, executions_append, hcalls]
      exact List.append_nil _
    cases v.result with
    | ok _ => exact hend _
    | error saveErr => exact hend _
  obtain ⟨⟨y, w', t⟩, hx, ⟨e', rfl⟩, hcalls⟩ := hclaimed
  rw [hreach.exec_eq]
  unfold Graph.resumeClaimed
  rw [bind_eq, exec_bind_error hx]
  exact ⟨_, rfl, by rw [trace_after, executions_append]; exact hcalls⟩

end

end Resume

end Takeln
