import Mathlib.Data.Finset.Card
import Takeln.Effect.Progress
import Takeln.Stores.Checkpointers
import Takeln.Threads.Continuity

/-!
# Termination

Every call of the engines ends, whatever the nodes and the checkpointer answer.  The loop of `run_dag` has no limit of
its own: it ends because each of its waves launches a node that is `Pending` and no node becomes `Pending` again
(`runWaves_ends`).  The sequential loop has its step limit and the retries theirs, so the operations of a call are
bounded by its arguments, also when others take turns with it (`calls_bounded`).
-/

namespace Takeln

open Effect Effect.Prog

variable {S : Type}

/-! ### Pending nodes -/

namespace DAG

/-- The indices of the `Pending` nodes. -/
def pending (dag : DAG) : Finset Nat :=
  (Finset.range dag.nodes.length).filter fun k => dag.statusAt k = some .pending

variable {dag dag' : DAG}

theorem mem_pending {k : Nat} : k ∈ dag.pending ↔ dag.statusAt k = some .pending := by
  unfold pending
  rw [Finset.mem_filter, Finset.mem_range, and_iff_right_iff_imp]
  intro hk
  obtain ⟨n, hn, -⟩ := Option.map_eq_some_iff.1 hk
  exact (List.getElem?_eq_some_iff.1 hn).1

theorem card_pending_le (dag : DAG) : dag.pending.card ≤ dag.nodes.length :=
  (Finset.card_filter_le _ _).trans_eq (Finset.card_range _)

/-- A status that is not `Pending` makes no node `Pending`. -/
theorem pending_setStatus {idx : Nat} {status : NodeStatus} (h : status ≠ .pending) :
    (dag.setStatus idx status).pending ⊆ dag.pending := by
  intro k hk
  rw [mem_pending, statusAt_setStatus] at hk
  split at hk
  · obtain ⟨_, -, hs⟩ := Option.map_eq_some_iff.1 hk
    exact absurd hs h
  · exact mem_pending.2 hk

/-- Launching the nodes that are ready leaves fewer `Pending`. -/
theorem card_pending_launched {completed : List Uuid} (h : dag.ready completed ≠ []) :
    (dag.setStatuses (dag.ready completed) .running).pending.card < dag.pending.card := by
  obtain ⟨idx, hidx⟩ := List.exists_mem_of_ne_nil _ h
  refine Finset.card_lt_card (Finset.ssubset_iff_of_subset ?_ |>.2 ⟨idx, ?_, ?_⟩)
  · intro k hk
    rw [mem_pending, statusAt_setStatuses] at hk
    split at hk
    · rename_i hready
      exact mem_pending.2 (statusAt_of_mem_ready hready)
    · exact mem_pending.2 hk
  · exact mem_pending.2 (statusAt_of_mem_ready hidx)
  · rw [mem_pending, statusAt_setStatuses, if_pos hidx, statusAt_of_mem_ready hidx]
    simp

end DAG

/-- Joining makes no node `Pending`. -/
theorem Joining.pending_addAll (j : Joining S) (results : List (JoinResult S)) :
    (j.addAll results).dag.pending ⊆ j.dag.pending := by
  induction results generalizing j with
  | nil => exact Finset.Subset.refl _
  | cons res results ih =>
    refine (ih (j.add res)).trans ?_
    rcases res with panic | ⟨idx, e | out⟩
    · exact Finset.Subset.refl _
    · cases e <;> exact DAG.pending_setStatus (by simp)
    · exact DAG.pending_setStatus (by simp)

/-! ### Operations that are left -/

/-- Numbering, broadcasting and recording: what a call does on its own graph. -/
def Op.isLocal : Op S → Bool
  | .nextSeq | .send _ | .record _ _ => true
  | _ => false

/-- Each operation that is not local uses up one of those that are left. -/
def metered (S : Type) : Protocol (ops S) Nat where
  allow n o := o.isLocal = false → 0 < n
  next n o _ := if o.isLocal then n else n - 1

theorem silent_metered (n max : Nat) : Silent (metered S) n max := by
  have hlocal {o : Op S} (ho : o.isLocal = true) : (metered S).allow n o := by
    intro h
    rw [ho] at h
    cases h
  exact ⟨⟨hlocal rfl, fun _ => rfl⟩, fun _ => ⟨hlocal rfl, rfl⟩, fun _ => ⟨hlocal rfl, rfl⟩⟩

/-- A save uses up one. -/
theorem saveFollows_metered {n : Nat} {args : SaveArgs S} {Φ : Nat → Except TakelnError String → Prop} (hn : 0 < n)
    (h : ∀ x, Φ (n - 1) x) : SaveFollows (metered S) n args Φ := ⟨fun _ => hn, fun _ => h _⟩

section RoundLeaves

variable {v v' : Waves S} {m n : Nat}

/-- At least `m` operations are left after a round.  If the loop goes on, fewer nodes are `Pending`, and two operations
for each of them are left, too. -/
def RoundLeaves (m : Nat) (v : Waves S) (n : Nat) (x : Except WaveError (WaveFlow S)) : Prop :=
  m ≤ n ∧ ∀ v', x = .ok (.next v') → v'.dag.pending.card < v.dag.pending.card ∧ m + 2 * v'.dag.pending.card ≤ n

theorem RoundLeaves.error (h : m ≤ n) (e : WaveError) : RoundLeaves m v n (.error e) := ⟨h, by simp⟩

theorem RoundLeaves.stop (h : m ≤ n) (v' : Waves S) : RoundLeaves m v n (.ok (.stop v')) := ⟨h, by simp⟩

theorem RoundLeaves.yielded (h : m ≤ n) (v' : Waves S) : RoundLeaves m v n (.ok (.yielded v')) :=
  ⟨h, by simp⟩

theorem RoundLeaves.next (hless : v'.dag.pending.card < v.dag.pending.card)
    (h : m + 2 * v'.dag.pending.card ≤ n) : RoundLeaves m v n (.ok (.next v')) := by
  refine ⟨by omega, fun v'' hv'' => ?_⟩
  obtain rfl := WaveFlow.next.inj (Except.ok.inj hv'')
  exact ⟨hless, h⟩

end RoundLeaves

section Engines

variable [State S] {g : Graph S} {threadId : String} {cancellation : Bool}

section Waves

variable [Merge S] {v : Waves S}

/-- A round makes at most one wave and one save. -/
theorem waveBody_metered {m n : Nat} (h : m + 2 * v.dag.pending.card ≤ n) :
    Follows (metered S) (g.waveBody threadId cancellation v) n (RoundLeaves m v) := by
  unfold Graph.waveBody
  dsimp only
  split
  · split
    · exact .error (by omega) _
    · exact .stop (by omega) v
  rename_i hready
  have hlaunched := DAG.card_pending_launched hready
  split
  · refine follows_waveSave v.dag (fun _ => .error (by omega) _) (saveFollows_metered (by omega) fun x => ?_)
    cases x with
    | error e => exact .error (by omega) _
    | ok id => exact .stop (by omega) v
  unfold Graph.launch
  dsimp only
  split
  · exact .error (by omega) _
  refine ⟨fun _ => (by omega : 0 < n), fun r => ?_⟩
  change Follows (metered S) ((g.joinLoop r _).bind _) (n - 1) _
  rw [follows_bind]
  refine follows_joinLoop (silent_metered _ _).nodes ?_
  cases hj : g.joinAll r _ with
  | error e => exact .error (by omega) _
  | ok j =>
    obtain ⟨rfl, -⟩ := Graph.joinAll_eq_ok hj
    have hjoined := Finset.card_le_card (Joining.pending_addAll (S := S)
      { dag := v.dag.setStatuses (v.dag.ready v.completed) .running, completed := v.completed } r)
    dsimp only at hjoined ⊢
    generalize Joining.addAll _ r = j at hjoined ⊢
    refine follows_afterJoin (fun _ => .error (by omega) _) (fun _ _ _ => ⟨fun _ => .error (by omega) _, ?_⟩)
      (fun _ _ _ _ => .error (by omega) _) fun _ _ _ _ => ⟨fun _ => .error (by omega) _, ?_⟩
    · refine saveFollows_metered (by omega) fun x => ?_
      cases x with
      | error e => exact .error (by omega) _
      | ok id => exact .yielded (by omega) _
    · refine saveFollows_metered (by omega) fun x => ?_
      cases x with
      | error e => exact .error (by omega) _
      | ok id =>
        dsimp only
        split
        · exact .stop (by omega) _
        · exact .next (by
            show j.dag.pending.card < _
            omega) (by
            show m + 2 * j.dag.pending.card ≤ _
            omega)

/-- The loop makes at most one wave and one save for each node that is `Pending`. -/
theorem runWaves_metered {m n : Nat} (remaining : Nat) (h : m + 2 * v.dag.pending.card ≤ n) :
    Follows (metered S) (g.runWaves threadId cancellation remaining v) n fun n' _ => m ≤ n' := by
  refine follows_runWaves (I := fun n v => m + 2 * v.dag.pending.card ≤ n) (fun n v hn => ?_)
    (fun n v _ hn => by omega) h
  refine (waveBody_metered hn).mono fun n' x hx => ?_
  rcases x with e | flow
  · exact hx.1
  cases flow with
  | next v' => exact (hx.2 v' rfl).2
  | stop v' => exact (silent_metered n' 0).emit _ hx.1
  | yielded v' => exact hx.1

/-- The loop ends by itself: its bound is never reached, whatever the nodes and the checkpointer answer. -/
theorem runWaves_congr {remaining remaining' : Nat} (h : v.dag.pending.card < remaining)
    (h' : v.dag.pending.card < remaining') :
    g.runWaves threadId cancellation remaining v = g.runWaves threadId cancellation remaining' v := by
  induction remaining generalizing v remaining' with
  | zero => omega
  | succ remaining ih =>
    cases remaining' with
    | zero => omega
    | succ remaining' =>
      unfold Graph.runWaves
      rw [bind_eq, bind_eq]
      refine (waveBody_metered (m := 0) (Nat.le_refl _)).bind_congr fun n flow hflow => ?_
      cases flow with
      | next v' =>
        have hless := (hflow.2 v' rfl).1
        exact ih (by omega) (by omega)
      | stop v' => rfl
      | yielded v' => rfl

/-- So `run_dag` makes as many rounds as it needs. -/
theorem runWaves_ends {remaining : Nat} (h : v.dag.pending.card < remaining) :
    g.runWaves threadId cancellation remaining v =
      g.runWaves threadId cancellation (v.dag.pending.card + 1) v := runWaves_congr h (Nat.lt_succ_self _)

theorem runDag_metered {dag : DAG} {state : S} {depth m n : Nat} (h : m + (2 * dag.pending.card + 1) ≤ n) :
    Follows (metered S) (g.runDag threadId cancellation dag state depth) n fun n' _ => m ≤ n' := by
  unfold Graph.runDag
  dsimp only
  split
  · exact (by omega : m ≤ n)
  split
  · exact (by omega : m ≤ n)
  refine ⟨fun _ => (by omega : 0 < n), fun r => ?_⟩
  rcases r with e | head
  · exact (by omega : m ≤ n - 1)
  · exact runWaves_metered _ (by omega : m + 2 * dag.pending.card ≤ n - 1)

theorem resumeDag_metered {dag : DAG} {depth m n : Nat} (h : m + (2 * dag.nodes.length + 2) ≤ n) :
    Follows (metered S) (g.resumeDag threadId cancellation dag depth) n fun n' _ => m ≤ n' := by
  refine ⟨fun _ => (by omega : 0 < n), fun r => ?_⟩
  rcases r with e | _ | ⟨state, info, _ | saved⟩
  · exact (by omega : m ≤ n - 1)
  · exact (by omega : m ≤ n - 1)
  · exact (by omega : m ≤ n - 1)
  change Follows (metered S) (ite _ _ _) (n - 1) _
  split
  · exact (by omega : m ≤ n - 1)
  · rw [bind_eq, follows_bind]
    refine (runDag_metered (m := m) ?_).mono fun n' x hx => ?_
    · have hcard := DAG.card_pending_le (if info.status = .running then
        (dag.restoreStatuses saved).recover g.crashRecoveryPolicy else dag.restoreStatuses saved)
      have hlength : (if info.status = .running then (dag.restoreStatuses saved).recover g.crashRecoveryPolicy
          else dag.restoreStatuses saved).nodes.length = dag.nodes.length := by
        split <;> simp [DAG.recover, DAG.restoreStatuses]
      omega
    · cases x <;> exact hx

end Waves

section Sequential

variable [External] {resolvedInterrupt : Option String} {attempts : Nat}

/-- A round makes at most one save after the calls of its node. -/
theorem loopBody_metered {v : Loop S} {m n : Nat}
    (hattempts : ∀ name, (g.effectiveRetry name).maxAttempts ≤ attempts) (h : m + (max attempts 1 + 1) ≤ n) :
    Follows (metered S) (g.loopBody threadId cancellation resolvedInterrupt v) n fun n' _ => m ≤ n' := by
  refine follows_loopBody_cases (Ψ := fun n' _ => m < n') (silent_metered _ _).nodes
    (fun _ => (silent_metered _ 0).emit _ (by omega)) (fun _ => by omega)
    (fun _ => saveFollows_metered (by omega) fun x => by cases x <;> exact (by omega : m ≤ n - 1)) (fun _ => ?_)
    (fun n' attempt out hn' => ?_) fun n' attempt err hn' => ?_
  · unfold Graph.callNode
    split
    · exact ⟨fun _ => (by omega : 0 < n), fun _ => (by omega : m < n - 1)⟩
    · have hleft := hattempts v.currentNodeName
      refine follows_callRetrying (J := fun left _ _ n => m + 1 + (left + 1) ≤ n) (Ψ := fun n _ => m < n)
        (fun n left attempt input hn => ⟨fun _ => (by omega : 0 < n), fun r => ⟨fun left' msg hl _ => ?_, ?_⟩⟩)
        (fun _ _ hn => hn) _ _ _ (by omega)
      · exact (by omega : m + 1 + (left' + 1) ≤ n - 1)
      · exact (by omega : m < n - 1)
  · exact follows_onSuccess (silent_metered _ _).nodes (fun _ _ _ => by omega) fun _ _ => ⟨fun _ => by omega,
      saveFollows_metered (by omega) fun x => by cases x <;> exact Nat.le_sub_one_of_lt hn'⟩
  · exact follows_onError (silent_metered _ _).nodes (fun _ => by omega) fun _ _ => saveFollows_metered (by omega)
      fun x => by cases x <;> exact Nat.le_sub_one_of_lt hn'

/-- Each step of the loop makes the calls of its node and one save. -/
theorem runLoop_metered {v : Loop S} {m n remaining : Nat}
    (hattempts : ∀ name, (g.effectiveRetry name).maxAttempts ≤ attempts)
    (h : m + remaining * (max attempts 1 + 1) ≤ n) :
    Follows (metered S) (g.runLoop threadId cancellation resolvedInterrupt remaining v) n fun n' _ => m ≤ n' := by
  induction remaining generalizing v n with
  | zero => exact (by omega : m ≤ n)
  | succ remaining ih =>
    unfold Graph.runLoop
    rw [bind_eq, follows_bind]
    have hbody : m + remaining * (max attempts 1 + 1) + (max attempts 1 + 1) ≤ n := by
      rw [Nat.succ_mul] at h
      omega
    refine (loopBody_metered hattempts hbody).mono fun n' x hx => ?_
    rcases x with e | flow
    · exact (by omega : m ≤ n')
    cases flow with
    | next v' => exact ih hx
    | stop v' => exact (by omega : m ≤ n')

/-- How many operations a run of the sequential engine makes at most. -/
def Graph.steps (g : Graph S) (attempts : Nat) : Nat :=
  1 + g.resourceLimits.maxSequentialSteps * (max attempts 1 + 1)

theorem runInner_metered {state : S} {startNode : String} {input : Option Value} {m n : Nat}
    (hattempts : ∀ name, (g.effectiveRetry name).maxAttempts ≤ attempts) (h : m + g.steps attempts ≤ n) :
    Follows (metered S) (g.runInner threadId cancellation resolvedInterrupt state startNode input) n
      fun n' _ => m ≤ n' := by
  unfold Graph.steps at h
  refine ⟨fun _ => (by omega : 0 < n), fun r => ?_⟩
  rcases r with e | head
  · exact (by omega : m ≤ n - 1)
  · exact runLoop_metered hattempts (by omega : _ ≤ n - 1)

end Sequential

end Engines

/-! ### Calls -/

/-- How many operations a call makes at most, besides the local ones. -/
def Call.bound (attempts : Nat) : Call S → Nat
  | .run g _ _ _ => g.steps attempts
  | .resume g _ => g.steps attempts + 1
  | .resumeWith g _ _ => g.steps attempts + 1
  | .resumeWithInput g _ _ _ _ => g.steps attempts + 4
  | .runDag _ _ dag _ _ => 2 * dag.pending.card + 1
  | .resumeDag _ _ dag _ => 2 * dag.nodes.length + 2

section Calls

variable [External] [State S] [Merge S] {attempts : Nat}

theorem call_metered {threadId : String} {call : Call S}
    (hattempts : ∀ name, (call.graph.effectiveRetry name).maxAttempts ≤ attempts) :
    Follows (metered S) (call.answer threadId) (call.bound attempts) fun _ _ => True := by
  have resumed {g : Graph S} {cancellation : Bool} {rebind : S → S}
      (hattempts : ∀ name, (g.effectiveRetry name).maxAttempts ≤ attempts) :
      Follows (metered S) (g.resumeWith threadId cancellation rebind) (g.steps attempts + 1) fun _ _ => True :=
    follows_resumeWith (fun _ => Nat.succ_pos _) (fun _ _ => trivial) fun loaded node _ =>
      (runInner_metered (m := 0) hattempts (by simp [metered, Op.isLocal])).mono fun _ _ _ => trivial
  cases call with
  | run g c state startNode =>
    unfold Call.answer Graph.run
    rw [follows_bind, follows_mapError]
    refine (runInner_metered (m := 0) hattempts (Nat.zero_add _).le).mono fun n' x _ => ?_
    cases x <;> trivial
  | resume g c => exact resumed hattempts
  | resumeWith g c rebind => exact resumed hattempts
  | resumeWithInput g c interruptId input context =>
    refine follows_resumeWithInput (fun _ => Nat.succ_pos _) (fun _ _ => trivial) (fun _ _ => ?_)
      (fun _ _ _ => trivial) fun loaded request => follows_runClaimed ?_
    · simp [metered, Op.isLocal, Call.bound]
    · -- two operations are left for the rollback
      refine (runInner_metered (m := 2) hattempts ?_).mono fun n' x hx => ?_
      · simp [metered, Op.isLocal, Call.bound, Call.graph]
        omega
      rcases x with ⟨e, lastHead⟩ | final
      · refine (follows_revertToYielded (Φ := fun _ _ => True) (fun _ _ => saveFollows_metered (by omega)
          fun _ => trivial) fun _ => ⟨fun _ => by omega, fun _ => trivial, fun head => ?_⟩).mono fun n'' y _ => ?_
        · refine saveFollows_metered ?_ fun _ => trivial
          exact (by omega : 0 < n' - 1)
        · cases y with
          | ok _ => exact ⟨trivial, by simp⟩
          | error _ => exact fun _ => ⟨trivial, by simp⟩
      · exact ⟨trivial, fun _ _ => (silent_metered _ _).nodes⟩
  | runDag g c dag state depth =>
    unfold Call.answer
    rw [follows_bind, follows_mapError]
    refine (runDag_metered (m := 0) (Nat.zero_add _).le).mono fun n' x _ => ?_
    cases x <;> trivial
  | resumeDag g c dag depth =>
    unfold Call.answer
    rw [follows_bind, follows_mapError]
    refine (resumeDag_metered (m := 0) (Nat.zero_add _).le).mono fun n' x _ => ?_
    cases x <;> trivial

/-- However the calls take turns and whatever they are answered, each performs no more operations than its bound,
besides the local ones. -/
theorem calls_bounded {W ι : Type} [DecidableEq ι] {sem : Semantics (ops S) W} {threadId : ι → String}
    {call : ι → Call S} {w₀ w : W} {tr : List (Entry (ops S) ι W)} {P : ι → Prog (ops S) TakelnError (Option S)}
    (hattempts : ∀ i name, ((call i).graph.effectiveRetry name).maxAttempts ≤ attempts)
    (hI : Interleaving sem (fun i => (call i).answer (threadId i)) w₀ tr P w) (i : ι) :
    ((own i tr).filter fun e => !e.op.isLocal).length ≤ (call i).bound attempts := by
  have hspent := hI.own_invariant (i := i) (I := fun n (evs : List (Event (ops S))) =>
      n + (evs.filter fun e => !e.op.isLocal).length = (call i).bound attempts)
    (call_metered (hattempts i)) (by simp) fun n evs o r hallow hn => by
      have hcount : ((evs ++ [(⟨o, r⟩ : Event (ops S))]).filter fun e => !e.op.isLocal).length =
          (evs.filter fun e => !e.op.isLocal).length + if o.isLocal then 0 else 1 := by
        cases hlocal : o.isLocal <;> simp [hlocal]
      rw [hcount]
      cases hlocal : o.isLocal with
      | true => simpa [metered, hlocal] using hn
      | false =>
        have hpos : 0 < n := hallow hlocal
        simp only [metered, hlocal]
        simp
        omega
  omega

end Calls

section Examples

attribute [local instance] shortRuns

/-- Before the first of two waves. -/
def twoLeft : Waves Bool := .start ⟨[⟨0, "A", [], .pending⟩, ⟨1, "B", [0], .pending⟩]⟩ false none

theorem runWaves_ends_twoLeft : twoLeft.dag.pending.card = 2 ∧
    questioning.runWaves "t" false 9 twoLeft =
      questioning.runWaves "t" false (twoLeft.dag.pending.card + 1) twoLeft :=
  ⟨by decide, runWaves_ends (by decide)⟩

theorem calls_bounded_contested :
    (∀ i name, ((contest i).graph.effectiveRetry name).maxAttempts ≤ 3) ∧
      ∀ i, ((own i contested.1).filter fun e => !e.op.isLocal).length ≤ (contest i).bound 3 := by
  have hthree : ∀ i name, ((contest i).graph.effectiveRetry name).maxAttempts ≤ 3 := by
    intro i name
    obtain rfl | rfl | rfl : i = 0 ∨ i = 1 ∨ i = 2 := by omega
    all_goals exact Nat.le_refl 3
  exact ⟨hthree, calls_bounded hthree contested_interleaving⟩

end Examples

end Takeln
