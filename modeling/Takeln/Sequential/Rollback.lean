import Takeln.Sequential.Resume

/-!
# Failed resumes

A resume that fails before its first node has left the thread as it was exactly if it had not claimed
(`resumeWithInput_unchanged_iff`): none of the early returns after the claim undoes it.  A resume that fails later is
rolled back, but the checkpoints of the nodes completed before the failure stay, and each of them resolves the
interrupt; so the interrupt is open again exactly if the first node already failed (`resumeWithInput_reopened_iff`).
-/

namespace Takeln

open Effect Effect.Prog

variable {S : Type} [State S] {env : Env S} {g : Graph S} {threadId : String} {cancellation : Bool}
  {w : World} {interruptId : String} {input : Value} {context : ResumeContext}
  {u : Run (ops S) TakelnError (Option S) World}

/-! ### Failures before the first node -/

/-- A claimed thread is not what it was, whatever is appended. -/
theorem claimLast_append_ne {rows : List MemoryCheckpoint} {i : String} (h : Open rows i)
    (new : List MemoryCheckpoint) : claimLast rows i ++ new ≠ rows := by
  intro heq
  obtain ⟨last, hlast, hstatus, _⟩ := h.2
  obtain ⟨ys, rfl⟩ := List.getLast?_eq_some_iff.1 hlast
  have hclaim : claimLast (ys ++ [last]) i = ys ++ [last.claimedFor i] := by simp [claimLast]
  rw [hclaim, List.append_assoc, List.append_cancel_left_eq] at heq
  have hhead := (List.cons.inj heq).1
  rw [← hhead] at hstatus
  cases hstatus

/-- What a resume that fails before its first node has to leave: the checkpoints of the thread as they were, so that an
interrupt that was open can be claimed. -/
def Unclaimed (threadId interruptId : String) (w w' : World) : Prop :=
  w'.rows threadId = w.rows threadId ∧
    (Open (w.rows threadId) interruptId → (w'.store.claimInterrupt threadId interruptId).1 = .ok .claimed)

section Resumed

variable [External]

/-- A resume that fails before its first node leaves the thread as it was exactly if it found the interrupt not open. -/
theorem resumeWithInput_unchanged_iff
    (hu : exec (memory env) (g.resumeWithInput threadId cancellation interruptId input context) w = some u)
    (herr : ∃ e, u.result = .error e) :
    Unclaimed threadId interruptId w u.world ↔ ¬ Open (w.rows threadId) interruptId := by
  constructor
  · rintro ⟨hrows, _⟩ hopen
    cases resumption_of_exec hu with
    | refused hno => exact hno hopen
    | rejected _ _ _ hq =>
      rw [hq.rows, World.rows_claimed] at hrows
      exact claimLast_append_ne hopen [] (by rw [List.append_nil, hrows])
    | ran _ loaded request _ _ u₁ hrun hend _ =>
      obtain ⟨new, hnew, _⟩ := runLoop_rows hrun
      rw [World.rows_claimed] at hnew
      cases hend with
      | finished final _ hres =>
        obtain ⟨e, he⟩ := herr
        cases hres.symm.trans he
      | rolledBack _ _ _ _ _ _ _ _ hrows' =>
        rw [hrows', hnew, List.append_assoc] at hrows
        exact claimLast_append_ne hopen _ hrows
      | stuck _ _ _ _ hstore =>
        rw [World.rows_congr hstore, hnew] at hrows
        exact claimLast_append_ne hopen _ hrows
  · intro hopen
    cases resumption_of_exec hu with
    | refused _ hq => exact ⟨hq.rows threadId, fun h => absurd h hopen⟩
    | rejected h => exact absurd h hopen
    | ran h => exact absurd h hopen

/-! ### Failures of a node -/

/-- What a failed resume has to leave: the interrupt can be claimed, and a resume with valid input calls the node that
the failed one started with. -/
def Graph.Reopened (env : Env S) (g : Graph S) (threadId interruptId : String) (w w' : World) : Prop :=
  (w'.store.claimInterrupt threadId interruptId).1 = .ok .claimed ∧
    ∀ (loaded : Loaded S) (request : YieldRequest) (cancellation : Bool) (input : Value) (context : ResumeContext),
      w.store.loadState threadId = .ok (some loaded) →
      Graph.checkResume threadId interruptId input loaded = .ok request →
      ∃ tr p w'', Reaches (memory env) (g.resumeWithInput threadId cancellation interruptId input context) w' tr p w'' ∧
        executions tr = [g.resumeStart loaded request]

/-- The first node of a resume can be called and does not complete. -/
def Graph.FirstNodeFails (env : Env S) (g : Graph S) (threadId : String) (cancellation : Bool) (input : Value)
    (w : World) : Prop :=
  ∀ (loaded : Loaded S) (request : YieldRequest), w.store.loadState threadId = .ok (some loaded) →
    loaded.info.yieldRequest = some request →
    0 < g.resourceLimits.maxSequentialSteps ∧ g.registered (g.resumeStart loaded request) ∧
      ¬ g.Completes env threadId cancellation (g.resumeLoop loaded request input) w.calls

/-- A resume that fails after writing a yielded checkpoint has failed in the run of the loop and was rolled back. -/
private theorem rolledBack_of_exec
    (hu : exec (memory env) (g.resumeWithInput threadId cancellation interruptId input context) w = some u)
    (herr : ∃ e, u.result = .error e) (hsaved : ∃ args ∈ writes u.trace, args.status = .yielded) :
    ∃ loaded request u₁ e val id time head, Open (w.rows threadId) interruptId ∧
      w.store.loadState threadId = .ok (some loaded) ∧
      Graph.checkResume threadId interruptId input loaded = .ok request ∧
      exec (memory env) (g.runLoop threadId cancellation (some interruptId) g.resourceLimits.maxSequentialSteps
        (g.resumeLoop loaded request input)) (w.claimed threadId interruptId) = some u₁ ∧
      u₁.result = .error e ∧ State.toValue loaded.state = .ok val ∧
      u.world.rows threadId = u₁.world.rows threadId ++
        [.ofSave id time val (Graph.revertSave threadId loaded.state loaded.info.nextNode request head)] := by
  obtain ⟨args, hargs, hstatus⟩ := hsaved
  cases resumption_of_exec hu with
  | refused _ hq => rw [hq.writes] at hargs; cases hargs
  | rejected _ _ _ hq => rw [hq.writes] at hargs; cases hargs
  | ran hopen loaded request hload hcheck u₁ hrun hend _ =>
    cases hend with
    | finished _ _ hres =>
      obtain ⟨e, he⟩ := herr
      cases hres.symm.trans he
    | stuck e hfail _ _ _ hwrites =>
      rw [hwrites] at hargs
      exact absurd hstatus (runLoop_writes_of_error hrun hfail args hargs)
    | rolledBack e hfail _ val id time head hval hrows _ =>
      exact ⟨loaded, request, u₁, e, val, id, time, head, hopen, hload, hcheck, hrun, hfail, hval, hrows⟩

/-- A resume whose loop may take no step, or does not know the name it starts with, calls no node. -/
private theorem not_reaches_start {w : World} {loaded : Loaded S} {request : YieldRequest} {name : String}
    (hopen : Open (w.rows threadId) interruptId)
    (hload : w.store.loadState threadId = .ok (some loaded))
    (hcheck : Graph.checkResume threadId interruptId input loaded = .ok request)
    (hno : g.resourceLimits.maxSequentialSteps = 0 ∨
      g.resumeStart loaded request ≠ "__END__" ∧ ¬ g.registered (g.resumeStart loaded request)) :
    ¬ ∃ tr p w', Reaches (memory env) (g.resumeWithInput threadId cancellation interruptId input context) w tr p w' ∧
      executions tr = [name] := by
  rintro ⟨tr, p, w', hreach, htr⟩
  obtain ⟨u₁, e, hloop, hfail, hcalls⟩ := exec_runLoop_error env g threadId cancellation (some interruptId)
    (show (g.resumeLoop loaded request input).isFirstStep = true from rfl) hno (w.claimed threadId interruptId)
  obtain ⟨u, hu, hu'⟩ := exec_resumeWithInput_of_error hopen hload hcheck context hloop hfail
  obtain ⟨v, _, rfl⟩ := hreach.prefix_exec hu
  rw [trace_after, executions_append, htr, hcalls] at hu'
  cases hu'

/-- After a rolled back resume the interrupt is open again if and only if its first node already failed. -/
theorem resumeWithInput_reopened_iff [RoundTrip S]
    (hu : exec (memory env) (g.resumeWithInput threadId cancellation interruptId input context) w = some u)
    (herr : ∃ e, u.result = .error e) (hsaved : ∃ args ∈ writes u.trace, args.status = .yielded) :
    g.Reopened env threadId interruptId w u.world ↔ g.FirstNodeFails env threadId cancellation input w := by
  obtain ⟨loaded, request, u₁, e, val, id, time, head, hopen, hload, hcheck, hrun, hfail, hval, hrows⟩ :=
    rolledBack_of_exec hu herr hsaved
  obtain ⟨hreq, hid, _⟩ := checkResume_eq_ok_iff.1 hcheck
  -- the checkpoint the next resume loads is the one this one started from
  have hload' := loadState_append hval hrows
  set loaded' : Loaded S := ⟨_, _, _⟩ with hloaded'
  have hcheck' {input} (h : Graph.checkResume threadId interruptId input loaded = .ok request) :
      Graph.checkResume threadId interruptId input loaded' = .ok request := by
    rw [checkResume_eq_ok_iff] at h ⊢
    exact ⟨rfl, h.2⟩
  have hstart : g.resumeStart loaded' request = g.resumeStart loaded request := rfl
  constructor
  · rintro ⟨hclaim, hagain⟩ loaded₀ request₀ hload₀ hreq₀
    cases hload.symm.trans hload₀
    cases hreq.symm.trans hreq₀
    have hopen' := MemoryStore.claimInterrupt_claimed_iff.1 hclaim
    have hreach := hagain loaded request cancellation input context hload hcheck
    cases runCase_of_exec rfl hrun with
    | noSteps hlimit =>
      exact absurd hreach (not_reaches_start hopen' hload' (hcheck' hcheck) (Or.inl hlimit))
    | ended _ hres => cases hfail.symm.trans hres
    | unregistered hname hreg =>
      refine absurd hreach (not_reaches_start hopen' hload' (hcheck' hcheck) (Or.inr ?_))
      rw [hstart]
      exact ⟨hname, hreg⟩
    | completed _ _ _ cp new hresolved hrows₁ =>
      have hresolved' : Resolved (u.world.rows threadId) interruptId := by
        rw [hrows, hrows₁]
        exact ⟨cp, by simp, hresolved⟩
      exact absurd hopen' (not_open_of_resolved hresolved')
    | yielded _ _ _ _ _ _ _ hres => cases hfail.symm.trans hres
    | failed hlimit hruns hcomp => exact ⟨hlimit, hruns.2.2, hcomp⟩
  · intro hcond
    obtain ⟨hlimit, hreg, hcomp⟩ := hcond loaded request hload hreq
    cases runCase_of_exec rfl hrun with
    | noSteps h => omega
    | ended _ hres => cases hfail.symm.trans hres
    | unregistered _ h => exact absurd hreg h
    | completed _ _ h => exact absurd h hcomp
    | yielded _ _ _ _ _ _ _ hres => cases hfail.symm.trans hres
    | failed _ hruns _ _ _ _ _ hq =>
      have hopen' : Open (u.world.rows threadId) interruptId := by
        rw [hrows, hq.rows, World.rows_claimed, open_iff_of_getLast? (List.getLast?_concat ..)]
        refine ⟨fun h => ?_, rfl, request, ?_, hid⟩
        · rcases resolved_append.1 h with h | ⟨cp, hcp, hcp'⟩
          · exact not_open_of_resolved (resolved_claimLast.1 h) hopen
          · rw [List.mem_singleton.1 hcp] at hcp'
            cases hcp'
        · rfl
      refine ⟨MemoryStore.claimInterrupt_claimed_iff.2 hopen',
        fun loaded₀ request₀ c input₀ context₀ hload₀ hcheck₀ => ?_⟩
      cases hload.symm.trans hload₀
      cases hreq.symm.trans (checkResume_eq_ok_iff.1 hcheck₀).1
      have hruns' : g.Runs (g.resumeLoop loaded' request input₀) := by
        refine ⟨?_, fun h => Bool.noConfusion h.1, ?_⟩
        · exact fun h => hruns.1 (hstart.symm.trans h)
        · change g.registered (g.resumeStart loaded' request)
          rw [hstart]
          exact hreg
      obtain ⟨tr, p, w', hloop, htr⟩ := reaches_firstCall env hlimit hruns' (u.world.claimed threadId interruptId)
      obtain ⟨p', hreach⟩ := reaches_resumeWithInput hopen' hload' (hcheck' hcheck₀) context₀ hloop
      refine ⟨_, p', _, hreach, ?_⟩
      rw [executions_append]
      exact htr.trans (congrArg (· :: []) hstart)

end Resumed

/-! ### A failure at each place -/

section Examples

attribute [local instance] shortRuns

/-- `A`, then `B`. -/
def approval : Graph Nat where
  nodes := ["A", "B"]
  edges name := if name = "A" then some (.unconditional "B") else none

/-- The first call asks whether to go on, with a schema for the answer; later ones count, except that `B` fails. -/
def refusing : Env Nat where
  newId n := s!"c{n}"
  now n := n
  answer n ctx state _ _ := .returned <|
    if n = 0 then .error (.yield ((YieldRequest.new "q" "Go on?").withSchema (.object [("type", .string "null")])))
    else if ctx.nodeName = "A" then .ok { state := state + 1 } else .error (.fatal "boom")
  outcome _ task := .ok (.ok { state := task.state })
  order _ := inOrder

/-- The thread once `A` has asked. -/
def asked : World :=
  ((exec (memory refusing) (approval.run "t" false 0 "A") World.empty).get (by decide +kernel)).world

/-- An answer the schema rejects. -/
theorem resumeWithInput_unchanged_false :
    ∃ u, exec (memory refusing) (approval.resumeWithInput "t" false "q" (.bool true) {}) asked = some u ∧
      u.result = .error (.schemaValidationFailed "q" "Expected type 'null', got 'boolean'") ∧
      executions u.trace = [] ∧ ¬ Unclaimed "t" "q" asked u.world := by
  refine ⟨_, (Option.some_get (show Option.isSome _ = true by decide +kernel)).symm, by decide +kernel,
    by decide +kernel, fun h => ?_⟩
  exact absurd (congrArg (List.map MemoryCheckpoint.status) h.1) (by decide +kernel)

theorem resumeWithInput_unchanged_asked :
    ∃ u, exec (memory refusing) (approval.resumeWithInput "t" false "q" (.bool true) {}) asked = some u ∧
      (Unclaimed "t" "q" asked u.world ↔ ¬ Open (asked.rows "t") "q") := by
  refine ⟨_, (Option.some_get (show Option.isSome _ = true by decide +kernel)).symm, ?_⟩
  refine resumeWithInput_unchanged_iff (Option.some_get _).symm
    ⟨.schemaValidationFailed "q" "Expected type 'null', got 'boolean'", by decide +kernel⟩

/-- `A` completes, `B` fails. -/
theorem resumeWithInput_reopened_false :
    ∃ u, exec (memory refusing) (approval.resumeWithInput "t" false "q" .null {}) asked = some u ∧
      u.result = .error (.executionError "Node B failed fatally: boom") ∧
      (∃ args ∈ writes u.trace, args.status = .yielded) ∧
      (u.world.store.claimInterrupt "t" "q").1 = .ok .alreadyCompleted ∧
      ¬ approval.Reopened refusing "t" "q" asked u.world := by
  refine ⟨_, (Option.some_get (show Option.isSome _ = true by decide +kernel)).symm, by decide +kernel,
    by decide +kernel, by decide +kernel, fun h => ?_⟩
  exact absurd h.1 (by decide +kernel)

theorem resumeWithInput_reopened_asked :
    ∃ u, exec (memory refusing) (approval.resumeWithInput "t" false "q" .null {}) asked = some u ∧
      (approval.Reopened refusing "t" "q" asked u.world ↔ approval.FirstNodeFails refusing "t" false .null asked) := by
  refine ⟨_, (Option.some_get (show Option.isSome _ = true by decide +kernel)).symm, ?_⟩
  refine resumeWithInput_reopened_iff (Option.some_get _).symm
    ⟨.executionError "Node B failed fatally: boom", by decide +kernel⟩ (by decide +kernel)

end Examples

end Takeln
