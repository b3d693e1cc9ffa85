import Mathlib.Data.Set.Card
import Takeln.Effect.Progress
import Takeln.Waves.EventOrder

/-!
# The permits of a wave

The semaphore of `run_dag` bounds how many tasks of a wave call their nodes at once, and loses no permit: those that are
not free are held, one by each task between its `acquire` and the drop of its permit, whether its node returned or
panicked (`permits_conserved`).  So the tasks of a wave never wait for each other in vain, and come to an end
(`wave_terminates`).
-/

namespace Takeln

open Effect Prog

variable {S : Type}

/-! ### Who holds a permit -/

section Holds

variable {ι : Type} [DecidableEq ι]

/-- A task has got a permit and has not dropped it. -/
def Holds (tr : List (Entry (taskOps S) ι WaveWorld)) (i : ι) : Prop :=
  TaskOp.acquire ∈ (own i tr).map Event.op ∧ TaskOp.release ∉ (own i tr).map Event.op

/-- The tasks that hold a permit. -/
def holders (tr : List (Entry (taskOps S) ι WaveWorld)) : Set ι := {i | Holds tr i}

end Holds

namespace TaskPhase

/-- The permits of a task in a phase. -/
def held : TaskPhase → Nat
  | running _ => 1
  | _ => 0

/-- What a task in a phase has performed. -/
structure Shows (q : TaskPhase) (evs : List (Event (taskOps S))) : Prop where
  acquired : TaskOp.acquire ∈ evs.map Event.op ↔ q ≠ .waiting
  released : TaskOp.release ∈ evs.map Event.op ↔ q = .done

variable {q : TaskPhase} {evs : List (Event (taskOps S))}

/-- Getting and dropping the permit are the only steps that show. -/
theorem Shows.step {o : TaskOp S} (r : o.Answer) (hallow : taskProtocol.allow q o) (h : q.Shows evs) :
    TaskPhase.Shows (taskProtocol.next q o r) (evs ++ [(⟨o, r⟩ : Event (taskOps S))]) := by
  obtain ⟨hacquired, hreleased⟩ := h
  cases o <;> (obtain rfl : q = _ := hallow) <;> constructor <;> simp [taskProtocol, hacquired, hreleased]

/-- A task in a phase holds a permit just if the phase does. -/
theorem Shows.holds_iff (h : q.Shows evs) :
    TaskOp.acquire ∈ evs.map Event.op ∧ TaskOp.release ∉ evs.map Event.op ↔ q.held = 1 := by
  rw [h.acquired, h.released]
  cases q <;> simp [held]

end TaskPhase

section Wave

variable [External] {g : Graph S} {tasks : List (WaveTask S)} {eventSeq : Nat}
  {tr : List (Entry (taskOps S) (Fin tasks.length) WaveWorld)}
  {P : Fin tasks.length → Prog (taskOps S) String (Nat × Except GraphError (NodeOutput S))} {w : WaveWorld}

/-- The phase a task is in after what it has performed. -/
def phaseAt (tr : List (Entry (taskOps S) (Fin tasks.length) WaveWorld)) (i : Fin tasks.length) : TaskPhase :=
  (taskProtocol (S := S)).after .waiting (own i tr)

namespace WaveRun

/-- The rest of a task keeps to the protocol from the phase it is in. -/
theorem follows_rest (hI : WaveRun g tasks eventSeq tr P w) (i : Fin tasks.length) :
    Follows taskProtocol (P i) (phaseAt tr i) fun q x => q = .done ∧ ∀ r, x = .ok r → r.1 = (tasks.get i).idx :=
  (hI.allow_own (i := i) ((tasks.get i).follows_run g)).1

theorem shows_phase (hI : WaveRun g tasks eventSeq tr P w) (i : Fin tasks.length) :
    (phaseAt tr i).Shows (own i tr) := by
  refine hI.own_invariant ((tasks.get i).follows_run g) ⟨?_, ?_⟩ fun q evs o r hallow h => h.step r hallow
  · simp
  · simp

theorem holds_iff (hI : WaveRun g tasks eventSeq tr P w) (i : Fin tasks.length) :
    Holds tr i ↔ (phaseAt tr i).held = 1 := (hI.shows_phase i).holds_iff

/-- A permit is free or held. -/
theorem permits_add_held (hI : WaveRun g tasks eventSeq tr P w) :
    w.permits + ∑ i, (phaseAt tr i).held = max g.resourceLimits.maxConcurrentNodes 1 := by
  have hsum := hI.conserved TaskPhase.held (fun _ w => w.permits) (fun i => (tasks.get i).follows_run g)
    fun tr w q i o r w' hallow hstep => ?_
  · have hwaiting : ∑ _ : Fin tasks.length, TaskPhase.held .waiting = 0 := Finset.sum_const_zero
    rw [hwaiting] at hsum
    exact hsum
  · cases o with
    | acquire =>
      obtain ⟨hfree, rfl⟩ := hstep
      obtain rfl : q = .waiting := hallow
      show w.permits - 1 + 1 = w.permits + 0
      omega
    | fetchAdd =>
      obtain ⟨-, rfl⟩ := hstep
      obtain rfl : q = .running none := hallow
      rfl
    | send event =>
      obtain rfl : w' = w := hstep
      obtain rfl : q = .running (some event.sequenceNumber) := hallow
      rfl
    | callNode ctx state timeout token =>
      obtain rfl : w' = w := hstep
      rfl
    | release =>
      obtain rfl : w' = _ := hstep
      obtain rfl : q = .running none := hallow
      rfl

theorem ncard_holders (hI : WaveRun g tasks eventSeq tr P w) :
    (holders tr).ncard = ∑ i, (phaseAt tr i).held := by
  classical
  have hset : holders tr = ↑(Finset.univ.filter fun i => (phaseAt tr i).held = 1) := by
    ext i
    simp [holders, hI.holds_iff]
  rw [hset, Set.ncard_coe_finset, Finset.card_filter]
  refine Finset.sum_congr rfl fun i _ => ?_
  cases phaseAt tr i <;> rfl

/-- A task that has ended has dropped its permit. -/
theorem not_holds_of_outcome (hI : WaveRun g tasks eventSeq tr P w) {i : Fin tasks.length}
    (hend : (P i).outcome ≠ none) : ¬ Holds tr i := by
  obtain ⟨x, hx⟩ := Option.ne_none_iff_exists'.1 hend
  have hdone : phaseAt tr i = .done := ((hI.follows_rest i).of_outcome hx).1
  rw [hI.holds_iff, hdone]
  decide

end WaveRun

/-- No permit of the semaphore of a wave is lost, whatever the interleaving: the permits that are not free are held, one
by each of the tasks between their `acquire` and the drop of their permit; so at most `max_concurrent_nodes` tasks, or
one if that is 0, call their nodes at once.  A node is called by a holder only, and a task that has ended holds
nothing. -/
theorem permits_conserved (g : Graph S) (tasks : List (WaveTask S)) (eventSeq : Nat)
    (tr : List (Entry (taskOps S) (Fin tasks.length) WaveWorld))
    (P : Fin tasks.length → Prog (taskOps S) String (Nat × Except GraphError (NodeOutput S))) (w : WaveWorld)
    (hI : WaveRun g tasks eventSeq tr P w) :
    w.permits + (holders tr).ncard = max g.resourceLimits.maxConcurrentNodes 1 ∧
      (∀ pre e post ctx state timeout token, tr = pre ++ e :: post → e.op = .callNode ctx state timeout token →
        Holds pre e.who) ∧
      ∀ i, (P i).outcome ≠ none → ¬ Holds tr i := by
  refine ⟨?_, fun pre e post ctx state timeout token htr hop => ?_, fun i => hI.not_holds_of_outcome⟩
  · rw [hI.ncard_holders]
    exact hI.permits_add_held
  · have hallow := hI.allow_at htr ((tasks.get e.who).follows_run g)
    rw [hop] at hallow
    have hphase : phaseAt pre e.who = .running none := hallow
    rw [htr] at hI
    obtain ⟨P', w', hpre⟩ := hI.of_append
    rw [WaveRun.holds_iff hpre, hphase]
    rfl

end Wave

/-! ### Nobody waits in vain -/

namespace WaveTask

variable [External] (g : Graph S) (t : WaveTask S)

/-- A task calls its node at most this often. -/
def maxCalls : Nat := if t.nodeName ∈ g.dynamicNodes then 1 else max 1 (g.effectiveRetry t.nodeName).maxAttempts

private theorem countdown_callRetrying (left attempt rest : Nat) :
    Follows (countdown (taskOps S)) (t.callRetrying g left attempt) (left + 1 + rest) fun n _ => rest ≤ n := by
  induction left generalizing attempt with
  | zero =>
    rw [callRetrying, follows_perform]
    refine ⟨by simp [countdown], fun answer => ?_⟩
    rcases answer with panic | answer
    · simp [countdown]
    · rcases hres : answer.result t.nodeName with e | out
      · cases e <;> simp [hres, countdown]
      · simp [hres, countdown]
  | succ left ih =>
    rw [callRetrying, follows_perform]
    refine ⟨by simp [countdown], fun answer => ?_⟩
    have hnext : (countdown (taskOps S)).next (left + 1 + 1 + rest)
        (.callNode (t.context attempt) t.state (g.effectiveTimeout t.nodeName) t.cancellation) answer =
          left + 1 + rest := by
      show left + 1 + 1 + rest - 1 = left + 1 + rest
      omega
    rw [hnext]
    rcases answer with panic | answer
    · exact Nat.le_add_left _ _
    · rcases hres : answer.result t.nodeName with e | out
      · cases e with
        | retryable msg =>
          simp only [hres]
          exact ih (attempt + 1)
        | _ => simp [hres]
      · simp [hres]

private theorem countdown_callNode (rest : Nat) :
    Follows (countdown (taskOps S)) (t.callNode g) (t.maxCalls g + rest) fun n _ => rest ≤ n := by
  rw [callNode, maxCalls]
  split
  · rw [follows_perform]
    refine ⟨by simp [countdown], fun answer => ?_⟩
    rcases answer with panic | answer <;> simp [countdown]
  · have hcalls : max 1 (g.effectiveRetry t.nodeName).maxAttempts =
        (g.effectiveRetry t.nodeName).maxAttempts - 1 + 1 := by omega
    rw [hcalls]
    exact countdown_callRetrying g t _ _ rest

/-- Besides its calls a task waits for its permit, numbers and broadcasts two events and drops the permit. -/
theorem countdown_run : Follows (countdown (taskOps S)) (t.run g) (t.maxCalls g + 6) fun _ _ => True := by
  refine (follows_bind _ _ _).2 ⟨Nat.succ_pos _, fun _ => ?_⟩
  refine (follows_bind _ _ _).2 ⟨Nat.succ_pos _, fun _ => ⟨Nat.succ_pos _, fun _ => ?_⟩⟩
  refine (follows_bind _ _ _).2 ((follows_attempt _ _).2 ((countdown_callNode g t 3).mono fun n x hn => ?_))
  cases x with
  | error panic => exact ⟨(by decide : 0 < 3).trans_le hn, fun _ => trivial⟩
  | ok result =>
    refine (follows_bind _ _ _).2 ⟨?_, fun _ => ⟨?_, fun _ => ?_⟩⟩
    · exact (by decide : 0 < 3).trans_le hn
    · show 0 < n - 1
      omega
    · refine ⟨?_, fun _ => trivial⟩
      show 0 < n - 1 - 1
      omega

end WaveTask

section Wave

variable [External] {g : Graph S} {tasks : List (WaveTask S)} {eventSeq : Nat}
  {tr : List (Entry (taskOps S) (Fin tasks.length) WaveWorld)}
  {P : Fin tasks.length → Prog (taskOps S) String (Nat × Except GraphError (NodeOutput S))} {w : WaveWorld}

omit [External] in
/-- Only an `acquire` that finds no permit keeps a task waiting. -/
theorem exists_taskSteps (w : WaveWorld) (o : TaskOp S) (hfree : o = .acquire → 0 < w.permits) :
    ∃ r w', taskSteps w o r w' := by
  cases o with
  | acquire => exact ⟨(), _, hfree rfl, rfl⟩
  | fetchAdd => exact ⟨w.eventSeq, _, rfl, rfl⟩
  | send event => exact ⟨(), _, rfl⟩
  | callNode ctx state timeout token => exact ⟨.error "", _, rfl⟩
  | release => exact ⟨(), _, rfl⟩

/-- If a task has not ended, one of them can go on: one that holds a permit, or else one that waits for a free one. -/
theorem WaveRun.exists_step (hI : WaveRun g tasks eventSeq tr P w) {i : Fin tasks.length}
    (hleft : (P i).outcome = none) : ∃ j o k r w', P j = .perform o k ∧ taskSteps w o r w' := by
  by_cases hrunning : ∃ j, (phaseAt tr j).held = 1 ∧ (P j).outcome = none
  · obtain ⟨j, hheld, hj⟩ := hrunning
    obtain ⟨o, k, hop⟩ := outcome_eq_none hj
    have hfollow := hI.follows_rest j
    rw [hop, follows_perform] at hfollow
    obtain ⟨r, w', hstep⟩ := exists_taskSteps w o fun ho => by
      subst ho
      have hwait : phaseAt tr j = .waiting := hfollow.1
      rw [hwait] at hheld
      cases hheld
    exact ⟨j, o, k, r, w', hop, hstep⟩
  · -- nobody holds a permit, so all of them are free
    have hnone (j : Fin tasks.length) : (phaseAt tr j).held = 0 := by
      by_contra hheld
      have hone : (phaseAt tr j).held = 1 := by
        cases hphase : phaseAt tr j <;> simp_all [TaskPhase.held]
      have hend : (P j).outcome ≠ none := fun h => hrunning ⟨j, hone, h⟩
      exact hI.not_holds_of_outcome hend ((hI.holds_iff j).2 hone)
    have hfree : 0 < w.permits := by
      have hsum := hI.permits_add_held
      simp only [hnone, Finset.sum_const_zero] at hsum
      omega
    obtain ⟨o, k, hop⟩ := outcome_eq_none hleft
    obtain ⟨r, w', hstep⟩ := exists_taskSteps w o fun _ => hfree
    exact ⟨i, o, k, r, w', hop, hstep⟩

/-- The tasks of a wave neither deadlock nor run for ever, whatever the order in which they get their permits: until all
of them have ended one of them can take a step, and none performs more than its calls, one for each attempt of its
retry policy, and six operations besides. -/
theorem wave_terminates (g : Graph S) (tasks : List (WaveTask S)) (eventSeq : Nat)
    (tr : List (Entry (taskOps S) (Fin tasks.length) WaveWorld))
    (P : Fin tasks.length → Prog (taskOps S) String (Nat × Except GraphError (NodeOutput S))) (w : WaveWorld)
    (hI : WaveRun g tasks eventSeq tr P w) :
    tr.length ≤ ∑ i, ((tasks.get i).maxCalls g + 6) ∧
      ((∀ i, (P i).outcome ≠ none) ∨ ∃ j o k r w', P j = .perform o k ∧ taskSteps w o r w') := by
  refine ⟨hI.length_le fun i => (tasks.get i).countdown_run g, ?_⟩
  by_cases hall : ∀ i, (P i).outcome ≠ none
  · exact Or.inl hall
  · obtain ⟨i, hi⟩ := not_forall.1 hall
    exact Or.inr (hI.exists_step (not_not.1 hi))

end Wave

/-! ### Two nodes side by side -/

section Examples

attribute [local instance] shortRuns

/-- `A` and `B` both hold a permit, and have announced themselves. -/
theorem exists_bothRunning :
    ∃ tr P w, WaveRun stages bothLaunched 0 tr P w ∧
      received tr = [.nodeStarted "t" "B" 1, .nodeStarted "t" "A" 0] := by
  have hlen : bothLaunched.length = 2 := rfl
  have hne : (⟨0, by omega⟩ : Fin bothLaunched.length) ≠ ⟨1, by omega⟩ := by simp
  exact WaveRun.exists_overtaken (g := stages) 0 hne (by decide)

theorem permits_conserved_bothRunning :
    ∃ tr P w, WaveRun stages bothLaunched 0 tr P w ∧
      received tr = [.nodeStarted "t" "B" 1, .nodeStarted "t" "A" 0] ∧ w.permits + (holders tr).ncard = 64 ∧
      (∀ pre e post ctx state timeout token, tr = pre ++ e :: post → e.op = .callNode ctx state timeout token →
        Holds pre e.who) ∧
      ∀ i, (P i).outcome ≠ none → ¬ Holds tr i := by
  obtain ⟨tr, P, w, hI, hreceived⟩ := exists_bothRunning
  exact ⟨tr, P, w, hI, hreceived, permits_conserved stages bothLaunched 0 tr P w hI⟩

theorem wave_terminates_bothRunning :
    ∃ tr P w, WaveRun stages bothLaunched 0 tr P w ∧
      received tr = [.nodeStarted "t" "B" 1, .nodeStarted "t" "A" 0] ∧
      tr.length ≤ ∑ i, ((bothLaunched.get i).maxCalls stages + 6) ∧
      ((∀ i, (P i).outcome ≠ none) ∨ ∃ j o k r w', P j = .perform o k ∧ taskSteps w o r w') := by
  obtain ⟨tr, P, w, hI, hreceived⟩ := exists_bothRunning
  exact ⟨tr, P, w, hI, hreceived, wave_terminates stages bothLaunched 0 tr P w hI⟩

end Examples

end Takeln
