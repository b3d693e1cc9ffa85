import Takeln.Waves.Completion

/-!
# Failed waves

Under `ContinueOnError` a wave in which a node fails is reported as a `PartialWaveFailure` that names each of its nodes
once, as succeeded or as failed, if and only if no node of it yields, exceeds a budget or panics: a budget error breaks
the joining off, and a yield goes to neither list (`failures_partitioned_iff`).
-/

namespace Takeln

open Effect Effect.Prog

variable {S : Type}

/-! ### What is reported -/

/-- The index of the node that a result reports as succeeded or as failed. -/
def reportedIdx : JoinResult S → Option Nat
  | .error _ => none
  | .ok (_, .error (.yield _)) => none
  | .ok (idx, _) => some idx

namespace Joining

/-- The names a joining reports so far. -/
def reported (j : Joining S) : List String := j.waveSucceeded ++ j.waveFailed.map Prod.fst

theorem reported_add (j : Joining S) (res : JoinResult S) :
    (j.add res).reported.Perm (j.reported ++ (reportedIdx res).toList.map j.dag.stepType) := by
  unfold reported
  rcases res with panic | ⟨idx, e | out⟩
  · simp [add, reportedIdx]
  · cases e <;> simp [add, fail, yield, reportedIdx]
  · simp only [add, succeed, reportedIdx, Option.toList_some, List.map_cons, List.map_nil, List.append_assoc]
    exact List.perm_append_comm.append_left _

/-- Each result adds the name of its node, unless it is a yield. -/
theorem reported_addAll (j : Joining S) (results : List (JoinResult S)) :
    (j.addAll results).reported.Perm (j.reported ++ (results.filterMap reportedIdx).map j.dag.stepType) := by
  induction results generalizing j with
  | nil => simp
  | cons res results ih =>
    have hstep : (j.add res).dag.stepType = j.dag.stepType := funext (stepType_addAll j [res])
    have hcons : (res :: results).filterMap reportedIdx =
      (reportedIdx res).toList ++ results.filterMap reportedIdx := by
      rw [List.filterMap_cons]
      cases reportedIdx res <;> rfl
    rw [addAll_cons, hcons, List.map_append, ← List.append_assoc]
    refine (ih (j.add res)).trans ?_
    rw [hstep]
    exact (reported_add j res).append_right _

end Joining

theorem reportedIdx_eq {res : JoinResult S} (h : ∀ idx request, res ≠ .ok (idx, .error (.yield request))) :
    reportedIdx res = resultIdx res := by
  rcases res with panic | ⟨idx, e | out⟩
  · rfl
  · cases e with
    | yield request => exact absurd rfl (h idx request)
    | _ => rfl
  · rfl

theorem resultIdx_of_reportedIdx {res : JoinResult S} {idx : Nat} (h : reportedIdx res = some idx) :
    resultIdx res = some idx := by
  rwa [reportedIdx_eq] at h
  rintro k request rfl
  cases h

theorem length_reportedIdx_le (results : List (JoinResult S)) :
    (results.filterMap reportedIdx).length ≤ (results.filterMap resultIdx).length := by
  induction results with
  | nil => exact Nat.le_refl _
  | cons res results ih =>
    cases hidx : reportedIdx res with
    | none =>
      rw [List.filterMap_cons_none hidx]
      refine ih.trans ?_
      rw [List.filterMap_cons]
      split
      · exact Nat.le_refl _
      · exact Nat.le_succ _
    | some idx =>
      rw [List.filterMap_cons_some hidx, List.filterMap_cons_some (resultIdx_of_reportedIdx hidx)]
      exact Nat.succ_le_succ ih

/-- Exactly the yields are missing from what is reported. -/
theorem length_reportedIdx_eq_iff {results : List (JoinResult S)} :
    (results.filterMap reportedIdx).length = (results.filterMap resultIdx).length ↔ ¬ Yields results := by
  induction results with
  | nil => exact iff_of_true rfl (by rintro ⟨_, _, h⟩; cases h)
  | cons res results ih =>
    rw [yields_cons, not_or]
    by_cases hyield : ∃ idx request, res = .ok (idx, .error (.yield request))
    · obtain ⟨idx, request, rfl⟩ := hyield
      have hle := length_reportedIdx_le results
      refine iff_of_false (fun h => ?_) fun h => h.1 ⟨idx, request, rfl⟩
      have hidx : resultIdx (.ok (idx, .error (.yield request)) : JoinResult S) = some idx := rfl
      rw [List.filterMap_cons_none rfl, List.filterMap_cons_some hidx, List.length_cons] at h
      omega
    · have hsame : reportedIdx res = resultIdx res := reportedIdx_eq fun idx request h => hyield ⟨idx, request, h⟩
      rw [List.filterMap_cons, List.filterMap_cons, hsame, ← ih]
      cases resultIdx res with
      | none => simp [hyield]
      | some idx => simp [hyield]

/-! ### What is joined -/

section Joined

variable {g : Graph S} {j : Joining S} {res : JoinResult S} {results : List (JoinResult S)}

/-- The joining goes on after the result and reports its node: it is neither a panic nor a yield, and no budget is
exceeded. -/
def Graph.Reports (g : Graph S) (stepType : Nat → String) : JoinResult S → Prop
  | .error _ => False
  | .ok (idx, .ok out) => exceeded (g.effectiveNodeBudget (stepType idx)) out.info.cost = none
  | .ok (_, .error (.yield _)) => False
  | .ok (_, .error (.budgetExceeded _ _)) => False
  | .ok (_, .error _) => True

theorem Graph.reports_iff (hpolicy : g.waveFailurePolicy = .continueOnError) :
    g.Reports j.dag.stepType res ↔ g.refuses j res = none ∧
      ∀ idx request, res ≠ .ok (idx, .error (.yield request)) := by
  rcases res with panic | ⟨idx, e | out⟩
  · simp [Graph.Reports, Graph.refuses]
  · cases e <;> simp [Graph.Reports, Graph.refuses, hpolicy]
  · simp [Graph.Reports, Graph.refuses]

/-- A joining is not broken off with a partial failure. -/
theorem Graph.refuses_ne {succeeded : List String} {failed : List (String × String)} {dag : DAG} :
    g.refuses j res ≠ some (.partialWaveFailure succeeded failed, dag) := by
  intro h
  rcases res with panic | ⟨idx, e | out⟩
  · cases h
  · cases e with
    | yield request => cases h
    | budgetExceeded spent limit => cases h
    | _ =>
      simp only [Graph.refuses] at h
      split at h <;> cases h
  · obtain ⟨limit, -, heq⟩ := Option.map_eq_some_iff.1 h
    cases heq

/-- Every result is reported if and only if the wave is joined to its end and no node yields. -/
theorem forall_reports_iff (hpolicy : g.waveFailurePolicy = .continueOnError) :
    (∀ res ∈ results, g.Reports j.dag.stepType res) ↔ (∃ j', g.joinAll results j = .ok j') ∧ ¬ Yields results := by
  induction results generalizing j with
  | nil => exact iff_of_true (fun _ h => (by cases h)) ⟨⟨j, rfl⟩, by rintro ⟨_, _, h⟩; cases h⟩
  | cons res results ih =>
    have hstep : (j.add res).dag.stepType = j.dag.stepType := funext (Joining.stepType_addAll j [res])
    have hrest := @ih (j.add res)
    rw [hstep] at hrest
    rw [List.forall_mem_cons, hrest, Graph.reports_iff hpolicy, yields_cons, not_or]
    cases hr : g.refuses j res with
    | some e => simp [Graph.joinAll_cons_some hr]
    | none =>
      rw [Graph.joinAll_cons_none hr]
      simp only [true_and, not_exists]
      tauto

end Joined

/-! ### Runs -/

/-- Some node of the wave fails. -/
def JoinedWave.Fails (wave : JoinedWave S) : Prop := ∃ idx x, .ok (idx, x) ∈ wave.results ∧ resultStatus x = .failed

/-- A partial failure is returned, which names every node of the wave once, and none of them is left running. -/
def Partitioned (wave : JoinedWave S) (x : Except WaveError (S × DAG)) : Prop :=
  ∃ succeeded failed dag, x = .error (.partialWaveFailure succeeded failed, dag) ∧
    (succeeded ++ failed.map Prod.fst).Perm (wave.tasks.map WaveTask.nodeName) ∧
    ∀ t ∈ wave.tasks, dag.statusAt t.idx ≠ some .running

section Runs

variable [State S] [Merge S] {env : Env S} {g : Graph S} {threadId : String} {cancellation : Bool} {v : Waves S}
  {w : World} {dag : DAG} {s : S} {depth n : Nat} {j : Joining S}

omit [State S] [Merge S] in
theorem map_nodeName_tasks (v : Waves S) : (v.tasks threadId cancellation).map WaveTask.nodeName =
    (v.dag.ready v.completed).map v.dag.stepType := by
  unfold Waves.tasks
  rw [List.map_map]
  rfl

omit [State S] [Merge S] in
/-- A wave that is joined to its end has reported every node if none of them yields. -/
theorem reported_perm_iff (h : g.joining env threadId cancellation v n = .ok j) :
    j.reported.Perm ((v.tasks threadId cancellation).map WaveTask.nodeName) ↔
      ¬ Yields (v.wave threadId cancellation env n).results := by
  obtain ⟨hj, hperm⟩ := joined_of_joining h
  have hreported : j.reported.Perm
      (((v.wave threadId cancellation env n).results.filterMap reportedIdx).map v.dag.stepType) := by
    have hstep : (v.dag.setStatuses (v.dag.ready v.completed) .running).stepType = v.dag.stepType :=
      funext fun k => DAG.stepType_setStatuses ..
    rw [hj, joined, ← hstep]
    exact Joining.reported_addAll _ _
  rw [map_nodeName_tasks, ← length_reportedIdx_eq_iff]
  constructor
  · intro hall
    have hlength := (hreported.symm.trans hall).length_eq
    rw [List.length_map, List.length_map] at hlength
    rw [hlength, hperm.length_eq]
  · intro hlength
    have hsame : (v.wave threadId cancellation env n).results.filterMap reportedIdx =
        (v.wave threadId cancellation env n).results.filterMap resultIdx := by
      refine List.filterMap_congr fun res hres => reportedIdx_eq ?_
      rintro idx request rfl
      exact length_reportedIdx_eq_iff.1 hlength ⟨idx, request, hres⟩
    rw [hsame] at hreported
    exact hreported.trans (hperm.map _)

omit [State S] [Merge S] in
/-- A joined wave leaves none of its nodes running. -/
theorem not_running_of_joining (h : g.joining env threadId cancellation v n = .ok j) {k : Nat}
    (hk : k ∈ v.dag.ready v.completed) : j.dag.statusAt k ≠ some .running := by
  obtain ⟨hj, hperm⟩ := joined_of_joining h
  rcases statusAt_joined hperm k with ⟨x, hx, hstatus⟩ | ⟨hnot, -⟩
  · rw [hj, hstatus]
    intro hrunning
    rcases x with e | out
    · cases e <;> cases hrunning
    · cases hrunning
  · exact absurd hk hnot

omit [State S] [Merge S] in
/-- A wave that is joined to its end and in which a node fails has reported a failure. -/
theorem waveFailed_of_fails (h : g.joining env threadId cancellation v n = .ok j)
    (hfails : (v.wave threadId cancellation env n).Fails) : j.waveFailed ≠ [] := by
  obtain ⟨hj, -⟩ := joined_of_joining h
  obtain ⟨idx, x, hx, hstatus⟩ := hfails
  intro hnone
  rw [hj, joined, Joining.waveFailed_addAll] at hnone
  exact hnone.2 idx x hx hstatus

/-- What a run returns after a wave in which a node fails. -/
def Graph.FailsWith (env : Env S) (g : Graph S) (threadId : String) (cancellation : Bool) (v : Waves S) (n : Nat)
    (x : Except WaveError (S × DAG)) : Prop :=
  (∃ e, g.joining env threadId cancellation v n = .error e ∧ x = .error e) ∨
    ∃ j, g.joining env threadId cancellation v n = .ok j ∧
      x = .error (.partialWaveFailure j.waveSucceeded j.waveFailed, j.dag)

/-- A round with a wave in which a node fails ends the run. -/
theorem WaveRound.fails {u : Run (ops S) WaveError (WaveFlow S) World} {wave : JoinedWave S}
    (h : WaveRound env g threadId cancellation v w u) (hwave : wave ∈ waves u.trace) (hfails : wave.Fails) :
    wave = v.wave threadId cancellation env w.waves ∧
      ∃ e, u.result = .error e ∧ g.FailsWith env threadId cancellation v w.waves (.error e) := by
  have idle (hnone : waves u.trace = []) : False := by
    rw [hnone] at hwave
    cases hwave
  have same (hone : waves u.trace = [v.wave threadId cancellation env w.waves]) :
      wave = v.wave threadId cancellation env w.waves := by
    rw [hone] at hwave
    exact List.mem_singleton.1 hwave
  have clean {j : Joining S} (hone : waves u.trace = [v.wave threadId cancellation env w.waves])
      (hjoin : g.joining env threadId cancellation v w.waves = .ok j) (hfailed : j.waveFailed = []) : False :=
    waveFailed_of_fails hjoin (same hone ▸ hfails) hfailed
  cases h with
  | ended _ _ _ _ hwaves => exact (idle hwaves).elim
  | deadlocked _ _ _ _ hwaves => exact (idle hwaves).elim
  | gated _ _ _ _ _ _ _ hwaves => exact (idle hwaves).elim
  | gateFailed _ _ _ _ _ hwaves => exact (idle hwaves).elim
  | unregistered _ _ _ _ _ hwaves => exact (idle hwaves).elim
  | brokenOff e _ hjoin hres _ hwaves => exact ⟨same hwaves, e, hres, Or.inl ⟨e, hjoin, rfl⟩⟩
  | failed j _ hjoin _ hres _ hwaves => exact ⟨same hwaves, _, hres, Or.inr ⟨j, hjoin, rfl⟩⟩
  | yielded _ _ _ _ hjoin hfailed _ _ _ _ hwaves => exact (clean hwaves hjoin hfailed).elim
  | yieldFailed _ _ _ hjoin hfailed _ _ _ _ hwaves => exact (clean hwaves hjoin hfailed).elim
  | completed _ _ _ _ hjoin hfailed _ _ _ _ _ hwaves => exact (clean hwaves hjoin hfailed).elim
  | completeFailed _ _ _ hjoin hfailed _ _ _ _ hwaves => exact (clean hwaves hjoin hfailed).elim

omit [State S] [Merge S] in
/-- A run that ends with a wave partitions its nodes if every result is reported, and only then. -/
theorem partitioned_iff (hpolicy : g.waveFailurePolicy = .continueOnError) {x : Except WaveError (S × DAG)}
    (h : g.FailsWith env threadId cancellation v n x) : Partitioned (v.wave threadId cancellation env n) x ↔
      ∀ res ∈ (v.wave threadId cancellation env n).results, g.Reports v.dag.stepType res := by
  have hstep : (v.dag.setStatuses (v.dag.ready v.completed) .running).stepType = v.dag.stepType :=
    funext fun k => DAG.stepType_setStatuses ..
  have hall : (∀ res ∈ (v.wave threadId cancellation env n).results, g.Reports v.dag.stepType res) ↔
      (∃ j, g.joining env threadId cancellation v n = .ok j) ∧
        ¬ Yields (v.wave threadId cancellation env n).results := by
    rw [← hstep]
    exact forall_reports_iff
      (j := { dag := v.dag.setStatuses (v.dag.ready v.completed) .running, completed := v.completed }) hpolicy
  rw [hall]
  rcases h with ⟨e, hjoin, rfl⟩ | ⟨j, hjoin, rfl⟩
  · refine iff_of_false ?_ ?_
    · rintro ⟨succeeded, failed, dag, hres, -⟩
      cases hres
      obtain ⟨pre, res, post, -, hrefuses⟩ := Graph.joinAll_eq_error hjoin
      exact Graph.refuses_ne hrefuses
    · rintro ⟨⟨j, hj⟩, -⟩
      cases hjoin.symm.trans hj
  · rw [and_iff_right ⟨j, hjoin⟩, ← reported_perm_iff hjoin]
    constructor
    · rintro ⟨succeeded, failed, dag, hres, hperm, -⟩
      cases hres
      exact hperm
    · intro hperm
      refine ⟨_, _, _, rfl, hperm, fun t ht => not_running_of_joining hjoin ?_⟩
      rw [← v.map_idx_tasks threadId cancellation]
      exact List.mem_map_of_mem ht

/-- A wave in which a node fails is the last one of its run, which ends as the joining of the wave says. -/
theorem runWaves_fails {k : Nat} {u : Run (ops S) WaveError (S × DAG) World} {wave : JoinedWave S}
    (hu : exec (memory env) (g.runWaves threadId cancellation k v) w = some u) (hwave : wave ∈ waves u.trace)
    (hfails : wave.Fails) :
    ∃ v' n, wave = v'.wave threadId cancellation env n ∧ v'.dag.shape = v.dag.shape ∧
      g.FailsWith env threadId cancellation v' n u.result := by
  induction k generalizing v w u with
  | zero =>
    cases hu
    cases hwave
  | succ k ih =>
    obtain ⟨u₁, hround, hcase⟩ := runWaves_cases hu
    rcases hcase with ⟨e, hres, rfl⟩ | ⟨v', tr, hres, rfl, rfl⟩ | ⟨v', hres, rfl⟩ | ⟨v', u₂, hres, hu₂, rfl⟩
    · obtain ⟨hsame, e', hres', hjoin⟩ := hround.fails hwave hfails
      cases hres.symm.trans hres'
      exact ⟨v, w.waves, hsame, rfl, hjoin⟩
    · obtain ⟨-, e', hres', -⟩ := hround.fails (by simpa [waves, joinedWave] using hwave) hfails
      cases hres.symm.trans hres'
    · obtain ⟨-, e', hres', -⟩ := hround.fails hwave hfails
      cases hres.symm.trans hres'
    · rw [trace_after, waves_append, List.mem_append] at hwave
      rcases hwave with hwave | hwave
      · obtain ⟨-, e', hres', -⟩ := hround.fails hwave hfails
        cases hres.symm.trans hres'
      · obtain ⟨v'', n, hsame, hshape, hjoin⟩ := ih hu₂ hwave
        obtain ⟨j, id, -, hj, rfl, -⟩ := hround.of_next hres
        exact ⟨v'', n, hsame, hshape.trans (shape_of_joining hj), hjoin⟩

/-- Under `ContinueOnError`, a wave in which a node fails is reported as a partial failure that names each of its nodes
once if and only if each result is reported: no node yields, panics or exceeds a budget. -/
theorem failures_partitioned_iff (hpolicy : g.waveFailurePolicy = .continueOnError)
    {u : Run (ops S) WaveError (S × DAG) World} {wave : JoinedWave S}
    (hu : exec (memory env) (g.runDag threadId cancellation dag s depth) w = some u) (hwave : wave ∈ waves u.trace)
    (hfails : wave.Fails) : Partitioned wave u.result ↔ ∀ res ∈ wave.results, g.Reports dag.stepType res := by
  rcases runDag_cases hu with ⟨_, rfl⟩ | ⟨_, msg, rfl⟩ | ⟨u₁, _, _, hu₁, rfl⟩
  · cases hwave
  · cases hwave
  · obtain ⟨v, n, rfl, hshape, hjoin⟩ := runWaves_fails hu₁ (by simpa [waves, joinedWave] using hwave) hfails
    have hstep : v.dag.stepType = dag.stepType := funext (DAG.stepType_eq_of_shape hshape)
    rw [← hstep]
    exact partitioned_iff hpolicy hjoin

end Runs

section Examples

/-- Two nodes that do not wait for each other. -/
def unrelated : DAG := ⟨[⟨0, "A", [], .pending⟩, ⟨1, "B", [], .pending⟩]⟩

def lenient : Graph Nat where
  nodes := ["A", "B"]
  edges _ := none
  waveFailurePolicy := .continueOnError

/-- `A` asks and `B` fails. -/
def askAndFail : Env Nat where
  newId n := s!"c{n}"
  now n := n
  answer _ _ state _ _ := .returned (.ok { state := state })
  outcome _ task := .ok (.error (if task.nodeName = "A" then .yield (.new "q" "Go on?") else .fatal "no"))
  order _ := inOrder

def halfReported : Run (ops Nat) WaveError (Nat × DAG) World :=
  (exec (memory askAndFail) (lenient.runDag "t" false unrelated 0 0) .empty).get (by decide +kernel)

def halfWave : JoinedWave Nat where
  tasks := [⟨0, "t", "A", 0, false⟩, ⟨1, "t", "B", 0, false⟩]
  results := [.ok (0, .error (.yield (.new "q" "Go on?"))), .ok (1, .error (.fatal "no"))]

theorem halfWave_mem : halfWave ∈ waves halfReported.trace := by
  have h : waves halfReported.trace = [halfWave] := by rfl
  rw [h]
  exact List.mem_singleton_self _

theorem halfWave_fails : halfWave.Fails :=
  ⟨1, .error (.fatal "no"), List.mem_cons_of_mem _ (List.mem_singleton_self _), rfl⟩

theorem failures_partitioned_false :
    exec (memory askAndFail) (lenient.runDag "t" false unrelated 0 0) .empty = some halfReported ∧
      halfWave ∈ waves halfReported.trace ∧ halfWave.Fails ∧ ¬ Partitioned halfWave halfReported.result := by
  refine ⟨(Option.some_get _).symm, halfWave_mem, halfWave_fails, ?_⟩
  rintro ⟨succeeded, failed, dag, hres, hperm, -⟩
  obtain ⟨dag', hreported⟩ : ∃ dag', halfReported.result =
      .error (.partialWaveFailure [] [("B", (GraphError.fatal "no").display)], dag') := ⟨_, rfl⟩
  rw [hreported] at hres
  cases hres
  have hlength := hperm.length_eq
  simp [halfWave] at hlength

theorem failures_partitioned_half : Partitioned halfWave halfReported.result ↔
    ∀ res ∈ halfWave.results, lenient.Reports unrelated.stepType res :=
  failures_partitioned_iff rfl (Option.some_get _).symm halfWave_mem halfWave_fails

end Examples

end Takeln
