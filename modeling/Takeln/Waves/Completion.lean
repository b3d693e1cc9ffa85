import Takeln.Waves.Path
import Takeln.Waves.Yielded

/-!
# Reported completion

The loop of `run_dag` takes a DAG without ready and without pending nodes for done.  That is right as long as every node
is `Pending` or `Done` (`DAG.Clean`), which a wave that is merged preserves; but calls that end early leave `Running`,
`Failed` and `Yielded` nodes in the caller's DAG, such nodes keep their status for ever, and a later call on the DAG
returns although they were never completed (`runDag_completes_iff`).
-/

namespace Takeln

open Effect Effect.Prog

variable {S : Type} [State S] [Merge S] {env : Env S} {g : Graph S} {threadId : String} {cancellation : Bool}
  {v v' : Waves S} {w : World} {dag₀ dag dag' : DAG} {left : List DAG} {s s' : S} {depth : Nat}

/-! ### Clean DAGs -/

namespace DAG

/-- Every node is `Done`. -/
def AllDone (dag : DAG) : Prop := ∀ n ∈ dag.nodes, n.status = .done

/-- No node is `Running`, `Failed` or `Yielded`. -/
def Clean (dag : DAG) : Prop := ∀ n ∈ dag.nodes, n.status = .pending ∨ n.status = .done

instance (dag : DAG) : Decidable dag.AllDone := inferInstanceAs (Decidable (∀ n ∈ dag.nodes, n.status = .done))

instance (dag : DAG) : Decidable dag.Clean :=
  inferInstanceAs (Decidable (∀ n ∈ dag.nodes, n.status = .pending ∨ n.status = .done))

theorem allDone_iff : dag.AllDone ↔ ∀ k status, dag.statusAt k = some status → status = .done :=
  forall_status_iff (p := fun status => status = .done)

theorem clean_iff : dag.Clean ↔ ∀ k status, dag.statusAt k = some status → status = .pending ∨ status = .done :=
  forall_status_iff (p := fun status => status = .pending ∨ status = .done)

theorem AllPending.clean (h : dag.AllPending) : dag.Clean := fun n hn => Or.inl (h n hn)

/-- A clean DAG without pending nodes is done. -/
theorem Clean.allDone (h : dag.Clean) (hpending : dag.namesOf [.pending] = []) : dag.AllDone := by
  intro n hn
  refine (h n hn).resolve_left fun hstatus => ?_
  rw [namesOf, List.map_eq_nil_iff, List.filter_eq_nil_iff] at hpending
  exact hpending n hn (by simp [hstatus])

end DAG

omit [State S] [Merge S] in
/-- A wave in which no node failed or yielded makes its nodes `Done`. -/
theorem statusAt_of_joining {n : Nat} {j : Joining S} (h : g.joining env threadId cancellation v n = .ok j)
    (hfailed : j.waveFailed = []) (hyield : j.hasYielded = false) (k : Nat) :
    j.dag.statusAt k = if k ∈ v.dag.ready v.completed then some .done else v.dag.statusAt k := by
  obtain ⟨hj, hperm⟩ := joined_of_joining h
  rw [hj, joined, Joining.waveFailed_addAll] at hfailed
  rw [hj, joined, ← Bool.not_eq_true, Joining.hasYielded_addAll] at hyield
  rcases statusAt_joined hperm k with ⟨x, hx, hstatus⟩ | ⟨hk, hstatus⟩
  · have hready : k ∈ v.dag.ready v.completed := hperm.mem_iff.1 (List.mem_filterMap.2 ⟨_, hx, rfl⟩)
    rw [if_pos hready, hj, hstatus]
    cases x with
    | ok out => rfl
    | error e =>
      cases e with
      | yield request => exact absurd (Or.inr ⟨k, request, hx⟩) hyield
      | _ => exact absurd rfl (hfailed.2 k _ hx)
  · rw [if_neg hk, hj, hstatus]

omit [State S] [Merge S] in
/-- Such a wave keeps a DAG clean. -/
theorem clean_of_joining {n : Nat} {j : Joining S} (h : g.joining env threadId cancellation v n = .ok j)
    (hfailed : j.waveFailed = []) (hyield : j.hasYielded = false) (hv : v.dag.Clean) : j.dag.Clean := by
  rw [DAG.clean_iff] at hv ⊢
  intro k status hk
  rw [statusAt_of_joining h hfailed hyield] at hk
  split at hk
  · cases hk
    exact Or.inr rfl
  · exact hv k status hk

/-! ### Calls that return -/

/-- A call that saved no yielded checkpoint and was not stopped by a gate. -/
def Graph.RanThrough (g : Graph S) (tr : List (Event (ops S))) : Prop :=
  ¬ g.StoppedByGate tr ∧ ∀ args ∈ writes tr, args.status ≠ .yielded

omit [State S] [Merge S] in
theorem Graph.RanThrough.of_append {tr tr' : List (Event (ops S))} (h : g.RanThrough (tr ++ tr')) :
    g.RanThrough tr ∧ g.RanThrough tr' := by
  obtain ⟨hgate, hyield⟩ := h
  rw [Graph.stoppedByGate_append, not_or] at hgate
  simp only [writes_append, List.mem_append, or_imp, forall_and] at hyield
  exact ⟨⟨hgate.1, hyield.1⟩, hgate.2, hyield.2⟩

/-- A round of a call that runs through keeps a clean DAG clean, and stops only when every node is `Done`. -/
theorem WaveRound.ranThrough {u : Run (ops S) WaveError (WaveFlow S) World}
    (h : WaveRound env g threadId cancellation v w u) (hv : v.dag.Clean) (hthrough : g.RanThrough u.trace) :
    (∀ v', u.result = .ok (.stop v') → v'.dag.AllDone) ∧ (∀ v', u.result ≠ .ok (.yielded v')) ∧
      ∀ v', u.result = .ok (.next v') → v'.dag.Clean := by
  have fails {e : WaveError} (hres : u.result = .error e) :
      (∀ v', u.result = .ok (.stop v') → v'.dag.AllDone) ∧ (∀ v', u.result ≠ .ok (.yielded v')) ∧
        ∀ v', u.result = .ok (.next v') → v'.dag.Clean := by
    rw [hres]
    exact ⟨fun _ h => (by cases h), fun _ h => (by cases h), fun _ h => (by cases h)⟩
  have saved {args : SaveArgs S} {val : Value} {id : String} (hsaves : Saves env w [] args val id u) :
      args ∈ writes u.trace := by
    rw [hsaves.writes]
    exact List.mem_singleton_self args
  cases h with
  | ended _ hpending hres =>
    rw [hres]
    refine ⟨fun _ h => ?_, fun _ h => (by cases h), fun _ h => (by cases h)⟩
    cases h
    exact hv.allDone hpending
  | deadlocked _ _ hres => exact fails hres
  | gated val id _ _ _ _ hsaves => exact absurd (Or.inl ⟨_, saved hsaves, rfl⟩) hthrough.1
  | gateFailed _ _ _ hres => exact fails hres
  | unregistered _ _ _ hres => exact fails hres
  | brokenOff _ _ _ hres => exact fails hres
  | failed _ _ _ _ hres => exact fails hres
  | yielded j val id _ _ _ _ _ _ hsaves =>
    have hne := hthrough.2 _ (saved hsaves)
    exact absurd rfl hne
  | yieldFailed _ _ _ _ _ _ _ hres => exact fails hres
  | completed j val id _ hjoin hfailed hyield _ _ hres _ hwaves =>
    have hafter : ¬ ∃ idx ∈ v.dag.ready v.completed, v.dag.stepType idx ∈ g.interruptAfter := by
      rintro ⟨idx, hidx, hmem⟩
      have hwave : v.wave threadId cancellation env w.waves ∈ waves u.trace := by
        rw [hwaves]
        exact List.mem_singleton_self _
      have htask : (⟨idx, threadId, v.dag.stepType idx, v.state, cancellation⟩ : WaveTask S) ∈
          (v.wave threadId cancellation env w.waves).tasks := List.mem_map_of_mem hidx
      exact hthrough.1 (Or.inr ⟨_, hwave, _, htask, hmem⟩)
    rw [hres, if_neg hafter]
    refine ⟨fun _ h => (by cases h), fun _ h => (by cases h), fun _ h => ?_⟩
    cases h
    exact clean_of_joining hjoin hfailed hyield hv
  | completeFailed _ _ _ _ _ _ _ hres => exact fails hres

/-- On a clean DAG a call that runs through and returns leaves every node `Done`. -/
theorem runWaves_allDone {k : Nat} {u : Run (ops S) WaveError (S × DAG) World} (hv : v.dag.Clean)
    (hu : exec (memory env) (g.runWaves threadId cancellation k v) w = some u) (hres : u.result = .ok (s, dag))
    (hthrough : g.RanThrough u.trace) : dag.AllDone := by
  induction k generalizing v w u with
  | zero =>
    cases hu
    cases hres
  | succ k ih =>
    obtain ⟨u₁, hround, hcase⟩ := runWaves_cases hu
    rcases hcase with ⟨e, _, rfl⟩ | ⟨v', tr, hv', rfl, rfl⟩ | ⟨v', hv', rfl⟩ | ⟨v', u₂, hv', hu₂, rfl⟩
    · cases hres
    · cases hres
      exact (hround.ranThrough hv hthrough.of_append.1).1 v' hv'
    · exact absurd hv' ((hround.ranThrough hv hthrough).2.1 v')
    · obtain ⟨hthrough₁, hthrough₂⟩ := hthrough.of_append
      exact ih ((hround.ranThrough hv hthrough₁).2.2 v' hv') hu₂ hres hthrough₂

theorem runDag_allDone {u : Run (ops S) WaveError (S × DAG) World} (hclean : dag.Clean)
    (hu : exec (memory env) (g.runDag threadId cancellation dag s depth) w = some u) (hres : u.result = .ok (s', dag'))
    (hthrough : g.RanThrough u.trace) : dag'.AllDone := by
  rcases runDag_cases hu with ⟨_, rfl⟩ | ⟨_, msg, rfl⟩ | ⟨u₁, _, _, hu₁, rfl⟩
  · cases hres
  · cases hres
  · exact runWaves_allDone hclean hu₁ hres hthrough.of_append.2

/-! ### Calls in a row -/

/-- The DAG a call leaves its caller with. -/
def leftDag (u : Run (ops S) WaveError (S × DAG) World) : DAG :=
  match u.result with
  | .ok (_, dag) => dag
  | .error (_, dag) => dag

/-- Calls of `run_dag` on a DAG, of any graphs on any threads, each on what the one before has left; the list holds what
each of them left. -/
inductive RunDags (S : Type) [State S] [Merge S] (dag₀ : DAG) : List DAG → DAG → Prop
  | start : RunDags S dag₀ [] dag₀
  | call {left : List DAG} {dag : DAG} (hprev : RunDags S dag₀ left dag) (env : Env S) (g : Graph S) (threadId : String)
      (cancellation : Bool) (s : S) (depth : Nat) (w : World) {u : Run (ops S) WaveError (S × DAG) World}
      (hu : exec (memory env) (g.runDag threadId cancellation dag s depth) w = some u) :
      RunDags S dag₀ (left ++ [leftDag u]) (leftDag u)

/-- A node that is no longer pending keeps its status in all later calls. -/
theorem RunDags.kept (h : RunDags S dag₀ left dag) {k : Nat} {status : NodeStatus} (hstatus : status ≠ .pending)
    {d : DAG} (hd : d ∈ left) (hk : d.statusAt k = some status) : dag.statusAt k = some status := by
  induction h with
  | start => cases hd
  | @call left dag hprev env g t c s depth w u hu ih =>
    have hkept (hdag : dag.statusAt k = some status) : (leftDag u).statusAt k = some status := by
      obtain ⟨_, hok, herr⟩ := runDag_kept hstatus hu hdag
      unfold leftDag
      cases hres : u.result with
      | ok x => exact hok x.1 x.2 hres
      | error e => exact herr e.1 e.2 hres
    rcases List.mem_append.1 hd with hmem | hmem
    · exact hkept (ih hmem)
    · rw [List.mem_singleton] at hmem
      rwa [← hmem]

/-- If no call has left a `Running`, `Failed` or `Yielded` node, there is none. -/
theorem RunDags.clean (h : RunDags S dag₀ left dag) (hpending : dag₀.AllPending) (hleft : ∀ d ∈ left, d.Clean) :
    dag.Clean := by
  cases h with
  | start => exact hpending.clean
  | call => exact hleft _ (by simp)

/-- A call that runs through and returns has completed the DAG if and only if no call before it on that DAG has left a
`Running`, `Failed` or `Yielded` node behind. -/
theorem runDag_completes_iff {u : Run (ops S) WaveError (S × DAG) World} (hpending : dag₀.AllPending)
    (hcalls : RunDags S dag₀ left dag)
    (hu : exec (memory env) (g.runDag threadId cancellation dag s depth) w = some u) (hres : u.result = .ok (s', dag'))
    (hthrough : g.RanThrough u.trace) : dag'.AllDone ↔ ∀ d ∈ left, d.Clean := by
  constructor
  · intro hdone d hd
    rw [DAG.clean_iff]
    intro k status hk
    by_cases hstatus : status = .pending
    · exact Or.inl hstatus
    · have hdag := hcalls.kept hstatus hd hk
      have hdag' := (runDag_kept hstatus hu hdag).2.1 s' dag' hres
      exact Or.inr (DAG.allDone_iff.1 hdone k status hdag')
  · intro hleft
    exact runDag_allDone (hcalls.clean hpending hleft) hu hres hthrough

section Examples

/-- In the first wave the nodes fail. -/
def stumbling : Env Nat where
  newId n := s!"c{n}"
  now n := n
  answer _ _ state _ _ := .returned (.ok { state := state })
  outcome n task := .ok <| if n = 0 then .error (.fatal "no") else .ok { state := task.state + 1 }
  order _ := inOrder

/-- A node on its own. -/
def alone : DAG := ⟨[⟨0, "A", [], .pending⟩]⟩

/-- The node fails, and a second call on the DAG returns. -/
def stumbled : Run (ops Nat) WaveError (Nat × DAG) World :=
  (exec (memory stumbling) (stages.runDag "t" false alone 0 0) World.empty).get (by decide +kernel)

def passed : Run (ops Nat) WaveError (Nat × DAG) World :=
  (exec (memory stumbling) (stages.runDag "t" false (leftDag stumbled) 0 0) stumbled.world).get (by decide +kernel)

theorem stumbled_called : RunDags Nat alone [leftDag stumbled] (leftDag stumbled) :=
  .call .start stumbling stages "t" false 0 0 World.empty
    (Option.some_get (show Option.isSome _ = true by decide +kernel)).symm

theorem passed_ranThrough : stages.RanThrough passed.trace := by
  unfold Graph.RanThrough Graph.StoppedByGate
  decide +kernel

theorem runDag_completes_false :
    alone.AllPending ∧ RunDags Nat alone [leftDag stumbled] (leftDag stumbled) ∧
      exec (memory stumbling) (stages.runDag "t" false (leftDag stumbled) 0 0) stumbled.world = some passed ∧
      passed.result = .ok (0, leftDag stumbled) ∧ stages.RanThrough passed.trace ∧ ¬ (leftDag stumbled).AllDone :=
  ⟨by decide, stumbled_called, (Option.some_get _).symm, by decide +kernel, passed_ranThrough, by decide +kernel⟩

theorem runDag_completes_passed : (leftDag stumbled).AllDone ↔ ∀ d ∈ [leftDag stumbled], d.Clean := by
  have hu : exec (memory stumbling) (stages.runDag "t" false (leftDag stumbled) 0 0) stumbled.world = some passed :=
    (Option.some_get _).symm
  have hres : passed.result = .ok (0, leftDag stumbled) := by decide +kernel
  exact runDag_completes_iff (by decide) stumbled_called hu hres passed_ranThrough

end Examples

end Takeln
