import Takeln.Sequential.Resume

/-!
# Finished resumes

A resume that returns well has released its claim exactly if it started at a node (`resumeWithInput_released_iff`): a
handoff straight to the end writes no checkpoint.  It is idempotent exactly if the interrupt had been resolved before,
or its first node completes, or its first node asks the same question again (`resumeWithInput_settled_iff`): only the
checkpoint of a completed node records the resolution.  What makes a later resume return at once, a resolving checkpoint
and a readable latest one, survives every operation of any program (`resolved_of_steps`, `readable_of_steps`).
-/

namespace Takeln

open Effect Effect.Prog

variable {S : Type} [State S] {env : Env S} {g : Graph S} {threadId : String} {cancellation : Bool}
  {w w' : World} {interruptId : String} {input : Value} {context : ResumeContext} {tr : List (Event (ops S))}
  {u : Run (ops S) TakelnError (Option S) World}

/-! ### What every operation preserves -/

/-- The latest checkpoint of a thread can be read. -/
def Readable (S : Type) [State S] (threadId : String) (w : World) : Prop :=
  ∃ loaded : Loaded S, w.store.loadState threadId = .ok (some loaded)

theorem readable_iff_of_rows_eq {t : String} (h : w'.rows t = w.rows t) :
    Readable S t w' ↔ Readable S t w := by
  have h' : w'.store.rows t = w.store.rows t := h
  simp [Readable, MemoryStore.loadState, h']

theorem readable_append [RoundTrip S] {t id : String} {time : Int} {val : Value} {args : SaveArgs S}
    (hval : State.toValue args.state = .ok val) (h : w'.rows t = w.rows t ++ [.ofSave id time val args]) :
    Readable S t w' :=
  ⟨_, loadState_append hval h⟩

theorem readable_claimed {t i : String} (h : w'.rows t = claimLast (w.rows t) i) (hr : Readable S t w) :
    Readable S t w' := by
  obtain ⟨loaded, hload⟩ := hr
  have hclaim := loadState_claimed (S := S) w t i
  rw [hload] at hclaim
  exact (readable_iff_of_rows_eq (h.trans (w.rows_claimed t i).symm)).2 ⟨_, hclaim⟩

/-- Nothing that happens to a store unresolves an interrupt. -/
theorem resolved_of_steps {t i : String} (hs : Steps (memory env) w tr w') (h : Resolved (w.rows t) i) :
    Resolved (w'.rows t) i := by
  refine hs.invariant (I := fun w => Resolved (w.rows t) i) (fun w o r w' hr h => ?_) h
  rcases memory_rows hr t with hrows | ⟨j, hrows⟩ | ⟨args, val, id, time, _, _, hrows⟩
  · rwa [hrows]
  · rwa [hrows, resolved_claimLast]
  · rw [hrows, resolved_append]
    exact Or.inl h

/-- Nothing that happens to a store makes its latest checkpoint unreadable. -/
theorem readable_of_steps [RoundTrip S] {t : String} (hs : Steps (memory env) w tr w') (h : Readable S t w) :
    Readable S t w' := by
  refine hs.invariant (I := Readable S t) (fun w o r w' hr h => ?_) h
  rcases memory_rows hr t with hrows | ⟨j, hrows⟩ | ⟨args, val, id, time, _, hval, hrows⟩
  · exact (readable_iff_of_rows_eq hrows).2 h
  · exact readable_claimed hrows h
  · exact readable_append hval hrows

/-! ### The claim of a finished resume -/

/-- The latest checkpoint of a thread is `Running` and claimed for an interrupt. -/
def HeldFor (rows : List MemoryCheckpoint) (interruptId : String) : Prop :=
  ∃ last ∈ rows.getLast?, last.status = .running ∧ last.claimedInterrupt = some interruptId

theorem heldFor_claimLast {rows : List MemoryCheckpoint} {i : String} (h : Open rows i) :
    HeldFor (claimLast rows i) i := by
  obtain ⟨last, hlast, _⟩ := h.2
  have hlast' : rows.getLast? = some last := hlast
  exact ⟨last.claimedFor i, by simp [claimLast, hlast'], rfl, rfl⟩

theorem HeldFor.not_open {rows : List MemoryCheckpoint} {i : String} (h : HeldFor rows i) : ¬ Open rows i := by
  obtain ⟨last, hlast, hstatus, _⟩ := h
  intro hopen
  have hyielded := ((open_iff_of_getLast? hlast).1 hopen).2.1
  rw [hstatus] at hyielded
  cases hyielded

theorem not_heldFor_append {rows new : List MemoryCheckpoint} {i : String} (hne : new ≠ [])
    (h : ∀ cp ∈ new, cp.claimedInterrupt = none) : ¬ HeldFor (rows ++ new) i := by
  rintro ⟨last, hlast, _, hclaim⟩
  rw [List.getLast?_append_of_ne_nil _ hne] at hlast
  have hmem : last ∈ new := List.mem_of_getLast? hlast
  rw [h last hmem] at hclaim
  cases hclaim

section Resumed

variable [External]

/-- A resume that claimed and returns well has released its claim if and only if it started at a node. -/
theorem resumeWithInput_released_iff
    (hu : exec (memory env) (g.resumeWithInput threadId cancellation interruptId input context) w = some u)
    (hok : ∃ s, u.result = .ok s) (hopen : Open (w.rows threadId) interruptId) :
    ¬ HeldFor (u.world.rows threadId) interruptId ↔
      ∀ (loaded : Loaded S) (request : YieldRequest), w.store.loadState threadId = .ok (some loaded) →
        loaded.info.yieldRequest = some request → g.resumeStart loaded request ≠ "__END__" := by
  obtain ⟨s, hs⟩ := hok
  cases resumption_of_exec hu with
  | refused h => exact absurd hopen h
  | rejected _ e hres => cases hres.symm.trans hs
  | ran _ loaded request hload hcheck u₁ hrun hend _ =>
    cases hend with
    | rolledBack _ _ hres => cases hres.symm.trans hs
    | stuck _ _ _ hres => cases hres.symm.trans hs
    | finished final hfinal _ hstore _ =>
      have hreq := (checkResume_eq_ok_iff.1 hcheck).1
      rw [World.rows_congr hstore]
      constructor
      · intro hfree loaded' request' hload' hreq' hname
        cases hload.symm.trans hload'
        cases hreq.symm.trans hreq'
        cases runCase_of_exec rfl hrun with
        | noSteps _ _ hres => cases hres.symm.trans hfinal
        | ended _ _ hq =>
          -- nothing was saved, so the claim is held as before
          rw [hq.rows, World.rows_claimed] at hfree
          exact hfree (heldFor_claimLast hopen)
        | unregistered h => exact h hname
        | completed _ h => exact h.1 hname
        | yielded _ h => exact h.1 hname
        | failed _ h => exact h.1 hname
      · intro hstart
        cases runCase_of_exec rfl hrun with
        | noSteps _ _ hres => cases hres.symm.trans hfinal
        | ended hname => exact absurd hname (hstart loaded request hload hreq)
        | unregistered _ _ _ hres => cases hres.symm.trans hfinal
        | completed _ _ _ cp new _ hrows hclaim =>
          rw [hrows]
          exact not_heldFor_append (List.cons_ne_nil cp new) hclaim
        | yielded _ _ _ _ n val id _ hsaves =>
          obtain ⟨time, hrows⟩ := hsaves.rows
          change u₁.world.rows threadId = _ at hrows
          rw [hrows]
          exact not_heldFor_append (List.cons_ne_nil _ _) (by simp [MemoryCheckpoint.ofSave, Graph.loopSave])
        | failed _ _ _ _ _ hres => cases hres.symm.trans hfinal

/-! ### Repeating a finished resume -/

/-- A yielded checkpoint that asks for an interrupt is written to a thread. -/
def Asks (threadId interruptId : String) (tr : List (Event (ops S))) : Prop :=
  ∃ args ∈ writes tr, args.threadId = threadId ∧ args.status = .yielded ∧
    ∃ request ∈ args.yieldRequest, request.interruptId = interruptId

/-- After a resume, whatever happens to the store before the interrupt is asked again, the same resume returns the
current state, calls no node and changes nothing. -/
def Graph.Settled (env : Env S) (g : Graph S) (threadId interruptId : String)
    (u : Run (ops S) TakelnError (Option S) World) : Prop :=
  ∀ (tr : List (Event (ops S))) (w : World), Steps (memory env) u.world tr w →
    ¬ Asks threadId interruptId (u.trace ++ tr) →
    ∀ (cancellation : Bool) (input : Value) (context : ResumeContext),
      ∃ (loaded : Loaded S) (tr' : List (Event (ops S))), w.store.loadState threadId = .ok (some loaded) ∧
      exec (memory env) (g.resumeWithInput threadId cancellation interruptId input context) w =
        some ⟨.ok (some loaded.state), w, tr'⟩ ∧ executions tr' = []

/-- A resume of a resolved interrupt returns the current state. -/
theorem exec_resumeWithInput_resolved (env : Env S) (g : Graph S) (cancellation : Bool) (input : Value)
    (context : ResumeContext) {loaded : Loaded S} (hres : Resolved (w.rows threadId) interruptId)
    (hload : w.store.loadState threadId = .ok (some loaded)) :
    ∃ tr, exec (memory env) (g.resumeWithInput threadId cancellation interruptId input context) w =
      some ⟨.ok (some loaded.state), w, tr⟩ ∧ executions tr = [] := by
  obtain ⟨r, _, hdone, hclaim⟩ := exec_claimInterrupt_not_open env (not_open_of_resolved hres)
  cases hdone.2 hres
  have hl := exec_loadState env w threadId
  rw [hload] at hl
  unfold Graph.resumeWithInput
  rw [bind_eq, exec_bind_ok hclaim, bind_eq, exec_bind_ok hl]
  exact ⟨_, rfl, rfl⟩

/-- The first node of a resume is called, and completes or asks the same question again. -/
def Graph.FirstNodeSettles (env : Env S) (g : Graph S) (threadId : String) (cancellation : Bool) (interruptId : String)
    (input : Value) (w : World) : Prop :=
  ∀ (loaded : Loaded S) (request : YieldRequest), w.store.loadState threadId = .ok (some loaded) →
    loaded.info.yieldRequest = some request →
    g.Runs (g.resumeLoop loaded request input) ∧
      (g.Completes env threadId cancellation (g.resumeLoop loaded request input) w.calls ∨
        ∃ again, g.Yields env threadId cancellation (g.resumeLoop loaded request input) w.calls again ∧
          again.interruptId = interruptId)

/-- A resume returns well only if the interrupt is resolved, or open. -/
theorem Graph.Settled.resolved_or_open (h : g.Settled env threadId interruptId u)
    (hask : ¬ Asks threadId interruptId u.trace) :
    Resolved (u.world.rows threadId) interruptId ∨ Open (u.world.rows threadId) interruptId := by
  obtain ⟨loaded, tr', _, he, _⟩ := h [] u.world (.nil _) (by simpa using hask) false .null {}
  cases resumption_of_exec he with
  | refused _ _ hres => exact Or.inl (hres _ rfl).1
  | rejected hopen => exact Or.inr hopen
  | ran hopen => exact Or.inr hopen

/-- A resume that returns well is idempotent if and only if the interrupt was resolved before, or the first node of the
resume completes or asks the same question again. -/
theorem resumeWithInput_settled_iff [RoundTrip S]
    (hu : exec (memory env) (g.resumeWithInput threadId cancellation interruptId input context) w = some u)
    (hok : ∃ s, u.result = .ok s) :
    g.Settled env threadId interruptId u ↔
      Resolved (w.rows threadId) interruptId ∨ g.FirstNodeSettles env threadId cancellation interruptId input w := by
  obtain ⟨s, hs⟩ := hok
  have hsteps := steps_of_exec hu
  -- what is resolved and readable when the resume returns stays so
  have settled (hres : Resolved (u.world.rows threadId) interruptId) (hread : Readable S threadId u.world) :
      g.Settled env threadId interruptId u := by
    intro tr w' hlater _ c input' context'
    obtain ⟨loaded, hload⟩ := readable_of_steps hlater hread
    obtain ⟨tr', he, hcalls⟩ :=
      exec_resumeWithInput_resolved env g c input' context' (resolved_of_steps hlater hres) hload
    exact ⟨loaded, tr', hload, he, hcalls⟩
  cases resumption_of_exec hu with
  | rejected _ e hres => cases hres.symm.trans hs
  | refused _ _ hres =>
    obtain ⟨hresolved, loaded, hload, _⟩ := hres s hs
    exact ⟨fun _ => Or.inl hresolved, fun _ => settled (resolved_of_steps hsteps hresolved)
      (readable_of_steps hsteps ⟨loaded, hload⟩)⟩
  | ran hopen loaded request hload hcheck u₁ hrun hend _ =>
    cases hend with
    | rolledBack _ _ hres => cases hres.symm.trans hs
    | stuck _ _ _ hres => cases hres.symm.trans hs
    | finished final hfinal _ hstore hwrites =>
      have hreq := (checkResume_eq_ok_iff.1 hcheck).1
      have hrows := World.rows_congr hstore threadId
      have hunresolved : ¬ Resolved (claimLast (w.rows threadId) interruptId) interruptId := fun h =>
        not_open_of_resolved (resolved_claimLast.1 h) hopen
      -- the condition, at the checkpoint that was loaded
      have hcond : g.FirstNodeSettles env threadId cancellation interruptId input w ↔ _ :=
        ⟨fun h => h loaded request hload hreq, fun h loaded' request' hload' hreq' => by
          cases hload.symm.trans hload'
          cases hreq.symm.trans hreq'
          exact h⟩
      rw [or_iff_right (fun h => not_open_of_resolved h hopen), hcond]
      cases runCase_of_exec rfl hrun with
      | noSteps _ _ hres => cases hres.symm.trans hfinal
      | unregistered _ _ _ hres => cases hres.symm.trans hfinal
      | failed _ _ _ _ _ hres => cases hres.symm.trans hfinal
      | ended hname _ hq =>
        refine ⟨fun h => ?_, fun h => absurd hname h.1.1⟩
        rw [hq.rows, World.rows_claimed] at hrows
        have hask : ¬ Asks threadId interruptId u.trace := by
          rintro ⟨args, hargs, _⟩
          rw [hwrites, hq.writes] at hargs
          cases hargs
        rcases h.resolved_or_open hask with h | h
        · rw [hrows] at h
          exact absurd h hunresolved
        · rw [hrows] at h
          exact absurd h (heldFor_claimLast hopen).not_open
      | completed _ hruns hcomp cp new hresolved hrows₁ =>
        refine ⟨fun _ => ⟨hruns, Or.inl hcomp⟩, fun _ => settled ?_ (readable_of_steps hsteps ⟨loaded, hload⟩)⟩
        rw [hrows, hrows₁]
        exact ⟨cp, by simp, hresolved⟩
      | yielded _ hruns again hyields n val id _ hsaves =>
        obtain ⟨time, hrows₁⟩ := hsaves.rows
        change u₁.world.rows threadId = (w.claimed threadId interruptId).rows threadId ++ _ at hrows₁
        rw [hrows₁, World.rows_claimed] at hrows
        have hwrites' : writes u.trace = [_] := hwrites.trans hsaves.writes
        have ⟨val', hnode, _⟩ := hyields
        by_cases hagain : again.interruptId = interruptId
        · -- the question is asked again, so nothing is left to show
          refine ⟨fun _ => ⟨hruns, Or.inr ⟨again, hyields, hagain⟩⟩, fun _ tr w' _ hask => absurd ?_ hask⟩
          refine ⟨_, by rw [writes_append, hwrites']; exact List.mem_append_left _ (List.mem_singleton.2 rfl), rfl, rfl,
            again, rfl, hagain⟩
        · refine ⟨fun h => ?_, fun h => ?_⟩
          · have hask : ¬ Asks threadId interruptId u.trace := by
              rintro ⟨args, hargs, _, _, request', hreq', hid⟩
              rw [hwrites', List.mem_singleton] at hargs
              subst hargs
              cases hreq'
              exact hagain hid
            have hlast := List.getLast?_concat (l := claimLast (w.rows threadId) interruptId)
              (a := MemoryCheckpoint.ofSave id time val (Graph.loopSave threadId (g.resumeLoop loaded request input)
                (g.resumeLoop loaded request input).state (g.resumeLoop loaded request input).currentNodeName
                .yielded (some again) none))
            rcases h.resolved_or_open hask with h | h
            · rw [hrows, resolved_append] at h
              rcases h with h | ⟨cp, hcp, hcp'⟩
              · exact absurd h hunresolved
              · rw [List.mem_singleton.1 hcp] at hcp'
                cases hcp'
            · rw [hrows, open_iff_of_getLast? hlast] at h
              obtain ⟨_, _, request', hreq', hid⟩ := h
              cases hreq'
              exact absurd hid hagain
          · rcases h.2 with ⟨out, val'', hnode', _⟩ | ⟨again', ⟨val'', hnode', _⟩, hid⟩
            · cases hnode.symm.trans hnode'
            · cases hnode.symm.trans hnode'
              exact absurd hid hagain

end Resumed

/-! ### A handoff to the end, and a second question -/

section Examples

attribute [local instance] shortRuns

/-- A single node without an edge. -/
def single : Graph Nat where
  nodes := ["A"]
  edges _ := none

/-- The first call asks `q` in the given mode, the second one asks `r`. -/
def curious (mode : ResumeMode) : Env Nat where
  newId n := s!"c{n}"
  now n := n
  answer n _ state _ _ := .returned <|
    if n = 0 then .error (.yield ((YieldRequest.new "q" "Go on?").withResumeMode mode))
    else if n = 1 then .error (.yield (.new "r" "Sure?"))
    else .ok { state := state + 1 }
  outcome _ task := .ok (.ok { state := task.state })
  order _ := inOrder

/-- The thread once `A` has asked `q`. -/
def questioned (mode : ResumeMode) : World :=
  match exec (memory (curious mode)) (single.run "t" false 0 "A") World.empty with
  | some u => u.world
  | none => World.empty

theorem resumeWithInput_released_false :
    ∃ u, exec (memory (curious .handoff)) (single.resumeWithInput "t" false "q" .null {}) (questioned .handoff) =
        some u ∧
      u.result = .ok (some 0) ∧ Open ((questioned .handoff).rows "t") "q" ∧ HeldFor (u.world.rows "t") "q" := by
  refine ⟨_, (Option.some_get (show Option.isSome _ = true by decide +kernel)).symm, by decide +kernel, ?_, ?_⟩
  · exact MemoryStore.claimInterrupt_claimed_iff.1 (by decide +kernel)
  · unfold HeldFor
    decide +kernel

theorem resumeWithInput_released_questioned :
    ∃ u, exec (memory (curious .handoff)) (single.resumeWithInput "t" false "q" .null {}) (questioned .handoff) =
        some u ∧
      (¬ HeldFor (u.world.rows "t") "q" ↔
        ∀ (loaded : Loaded Nat) (request : YieldRequest), (questioned .handoff).store.loadState "t" =
          .ok (some loaded) →
          loaded.info.yieldRequest = some request → single.resumeStart loaded request ≠ "__END__") := by
  refine ⟨_, (Option.some_get (show Option.isSome _ = true by decide +kernel)).symm, ?_⟩
  refine resumeWithInput_released_iff (Option.some_get _).symm ⟨some 0, by decide +kernel⟩ ?_
  exact MemoryStore.claimInterrupt_claimed_iff.1 (by decide +kernel)

/-- The resumed node asks another question at once; the same resume is then refused. -/
theorem resumeWithInput_settled_false :
    ∃ u, exec (memory (curious .reEntry)) (single.resumeWithInput "t" false "q" .null {}) (questioned .reEntry) =
        some u ∧
      u.result = .ok (some 0) ∧ ¬ single.Settled (curious .reEntry) "t" "q" u := by
  refine ⟨_, (Option.some_get (show Option.isSome _ = true by decide +kernel)).symm, by decide +kernel, fun h => ?_⟩
  obtain ⟨loaded, tr, _, he, _⟩ := h [] _ (.nil _) (by unfold Asks; decide +kernel) false .null {}
  have hok : (exec _ _ _).map (fun u => u.result.toOption.isSome) = some true :=
    congrArg (Option.map fun u => u.result.toOption.isSome) he
  exact absurd hok (by decide +kernel)

theorem resumeWithInput_settled_questioned :
    ∃ u, exec (memory (curious .reEntry)) (single.resumeWithInput "t" false "q" .null {}) (questioned .reEntry) =
        some u ∧
      (single.Settled (curious .reEntry) "t" "q" u ↔ Resolved ((questioned .reEntry).rows "t") "q" ∨
        single.FirstNodeSettles (curious .reEntry) "t" false "q" .null (questioned .reEntry)) := by
  refine ⟨_, (Option.some_get (show Option.isSome _ = true by decide +kernel)).symm, ?_⟩
  exact resumeWithInput_settled_iff (Option.some_get _).symm ⟨some 0, by decide +kernel⟩

end Examples

end Takeln
