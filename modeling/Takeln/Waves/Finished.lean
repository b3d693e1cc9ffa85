import Takeln.Effect.Session
import Takeln.Sequential.Pairing
import Takeln.Waves.Completion

/-!
# Finished graphs

`run_dag` broadcasts `GraphFinished` whenever its loop is left by a `break`: with nothing pending, but also at a gate.
The event means that every node is `Done` if and only if no node was `Running`, `Failed` or `Yielded` at the start, and
no gate stops the loop while nodes are pending (`finished_iff`).  The sequential engine sends it at `__END__` only.
-/

namespace Takeln

open Effect Effect.Prog

variable {S : Type}

/-- `GraphFinished` was sent. -/
def Announces (tr : List (Event (ops S))) : Prop := ∃ e ∈ tr, finishesGraph e = true

theorem announces_append {tr tr' : List (Event (ops S))} : Announces (tr ++ tr') ↔ Announces tr ∨ Announces tr' := by
  unfold Announces
  simp only [List.mem_append, or_and_right, exists_or]

theorem not_announces_singleton {e : Event (ops S)} (h : finishesGraph e = false) : ¬ Announces [e] := by
  rintro ⟨e', he, hfinishes⟩
  rw [List.mem_singleton.1 he, h] at hfinishes
  cases hfinishes

/-! ### Gates on the way -/

section Gates

variable {g : Graph S} {first : Bool} {dag : DAG}

/-- On the way of `dag`, each of whose waves succeeds, a gate stops the loop while nodes are pending: before a wave, but
for the first one of the call, or after a wave that is not the last one. -/
def Graph.StopsEarly (g : Graph S) (first : Bool) (dag : DAG) : Prop :=
  ∃ ws d, dag.Waved ws d ∧ d.wave ≠ [] ∧
    (((first = false ∨ ws ≠ []) ∧ ∃ idx ∈ d.wave, d.stepType idx ∈ g.interruptBefore) ∨
      (d.advance.namesOf [.pending] ≠ [] ∧ ∃ idx ∈ d.wave, d.stepType idx ∈ g.interruptAfter))

/-- There is no gate on the way of a DAG with nothing to launch. -/
theorem Graph.not_stopsEarly (hwave : dag.wave = []) : ¬ g.StopsEarly first dag := by
  rintro ⟨ws, d, hwaved, hd, -⟩
  cases hwaved with
  | refl => exact hd hwave
  | step hne => exact hne hwave

theorem Graph.stopsEarly_iff (hwave : dag.wave ≠ []) : g.StopsEarly first dag ↔
    (first = false ∧ ∃ idx ∈ dag.wave, dag.stepType idx ∈ g.interruptBefore) ∨
      (dag.advance.namesOf [.pending] ≠ [] ∧ ∃ idx ∈ dag.wave, dag.stepType idx ∈ g.interruptAfter) ∨
        g.StopsEarly false dag.advance := by
  constructor
  · rintro ⟨ws, d, hwaved, hd, hstop⟩
    cases hwaved with
    | refl =>
      rcases hstop with ⟨hfirst, hbefore⟩ | hafter
      · exact Or.inl ⟨hfirst.resolve_right fun h => h rfl, hbefore⟩
      · exact Or.inr (Or.inl hafter)
    | step _ hrest => exact Or.inr (Or.inr ⟨_, d, hrest, hd, hstop.imp_left fun h => ⟨Or.inl rfl, h.2⟩⟩)
  · rintro (⟨hfirst, hbefore⟩ | hafter | ⟨ws, d, hwaved, hd, hstop⟩)
    · exact ⟨[], dag, .refl dag, hwave, Or.inl ⟨Or.inl hfirst, hbefore⟩⟩
    · exact ⟨[], dag, .refl dag, hwave, Or.inr hafter⟩
    · exact ⟨_, d, .step hwave hwaved, hd, hstop.imp_left fun h => ⟨Or.inr (List.cons_ne_nil _ _), h.2⟩⟩

theorem DAG.clean_advance : dag.advance.Clean ↔ dag.Clean := by
  rw [DAG.clean_iff, DAG.clean_iff]
  refine forall_congr' fun k => ?_
  rw [DAG.statusAt_advance]
  by_cases hk : k ∈ dag.wave
  · rw [if_pos hk, DAG.statusAt_of_mem_wave hk]
    simp
  · rw [if_neg hk]

/-- A DAG is done if nothing is pending and no node was given up. -/
theorem DAG.allDone_iff_clean : dag.AllDone ↔ dag.Clean ∧ dag.namesOf [.pending] = [] := by
  constructor
  · intro h
    refine ⟨fun n hn => Or.inr (h n hn), ?_⟩
    rw [DAG.namesOf, List.map_eq_nil_iff, List.filter_eq_nil_iff]
    intro n hn
    simp [h n hn]
  · rintro ⟨hclean, hpending⟩
    exact hclean.allDone hpending

/-- A node that is launched is pending. -/
theorem DAG.namesOf_of_wave (hwave : dag.wave ≠ []) : dag.namesOf [.pending] ≠ [] := by
  intro hnone
  obtain ⟨k, hk⟩ := List.exists_mem_of_ne_nil _ hwave
  have hdone : ∀ n ∈ dag.nodes, n.status ≠ .pending := by
    intro n hn hstatus
    rw [DAG.namesOf, List.map_eq_nil_iff, List.filter_eq_nil_iff] at hnone
    exact hnone n hn (by simp [hstatus])
  have hpending := DAG.statusAt_of_mem_wave hk
  obtain ⟨n, hn, hstatus⟩ := Option.map_eq_some_iff.1 hpending
  exact hdone n (List.mem_of_getElem? hn) hstatus

end Gates

/-! ### The wave engine -/

section Waves

variable [State S] [Merge S] {env : Env S} {g : Graph S} {threadId : String} {cancellation : Bool} {v : Waves S}
  {w : World} {dag : DAG} {s s' : S} {depth : Nat}

/-- A protocol that forbids `GraphFinished`. -/
def unfinished (S : Type) : Protocol (ops S) Unit where
  allow _ o := ∀ threadId cost n, o ≠ .send (.graphFinished threadId cost n)
  next _ _ _ := ()

omit [State S] [Merge S] in
theorem not_announces {E α W : Type} {p : Prog (ops S) E α} {h : Handler (ops S) W} {w : W} {u : Run (ops S) E α W}
    (hp : Follows (unfinished S) p () fun _ _ => True) (hu : exec h p w = some u) : ¬ Announces u.trace := by
  rintro ⟨⟨o, r⟩, he, hfinishes⟩
  obtain ⟨pre, post, htr⟩ := List.append_of_mem he
  have hallow := hp.allow_of_exec hu htr
  cases o with
  | send event =>
    cases event with
    | graphFinished threadId cost n => exact hallow threadId cost n rfl
    | _ => cases hfinishes
  | _ => cases hfinishes

omit [State S] [Merge S] in
theorem saveFollows_unfinished {args : SaveArgs S} {Φ : Unit → Except TakelnError String → Prop} (h : ∀ x, Φ () x) :
    SaveFollows (unfinished S) () args Φ :=
  ⟨fun _ _ _ h => (by cases h), fun _ => h _⟩

omit [State S] [Merge S] in
theorem unfinished_silent (max : Nat) : SilentNodes (unfinished S) () max where
  nextSeq := ⟨fun _ _ _ h => (by cases h), fun _ => rfl⟩
  started _ _ _ := ⟨fun _ _ _ h => (by cases h), rfl⟩
  finished _ _ _ _ _ := ⟨fun _ _ _ h => (by cases h), rfl⟩
  record _ := ⟨fun _ _ _ h => (by cases h), rfl⟩

/-- No round sends the event. -/
theorem waveBody_unfinished (v : Waves S) :
    Follows (unfinished S) (g.waveBody threadId cancellation v) () fun _ _ => True := by
  refine follows_waveBody_cases trivial (fun _ => trivial) ?_ fun tasks _ => ⟨fun _ _ _ h => (by cases h), ?_⟩
  · intro _
    refine saveFollows_unfinished fun x => ?_
    cases x <;> trivial
  intro r dag _
  refine follows_joinLoop (unfinished_silent _) ?_
  cases g.joinAll r { dag := dag, completed := v.completed } with
  | error e => trivial
  | ok j =>
    intro ready
    refine follows_afterJoin (fun _ => trivial) (fun _ _ nextNode => ⟨fun _ => trivial, ?_⟩) (fun _ _ _ _ => trivial)
      fun _ _ _ nextNode => ⟨fun _ => trivial, ?_⟩ <;>
    · refine saveFollows_unfinished fun x => ?_
      cases x <;> trivial

omit [State S] [Merge S] in
/-- A wave in which no node failed or yielded advances the DAG. -/
theorem dag_of_joining {n : Nat} {j : Joining S} (h : g.joining env threadId cancellation v n = .ok j)
    (hfailed : j.waveFailed = []) (hyield : j.hasYielded = false) (hv : v.Synced) : j.dag = v.dag.advance := by
  refine DAG.eq_of_shape ?_ fun k => ?_
  · rw [(joined_of_joining h).1, joined, Joining.shape_addAll, DAG.shape_setStatuses, DAG.shape_advance]
  · rw [DAG.statusAt_advance, ← hv.ready_eq]
    exact statusAt_of_joining h hfailed hyield k

omit [State S] [Merge S] in
/-- The gate before a wave, on a loop in step with its DAG. -/
theorem waveGated_iff (hv : v.Synced) : g.WaveGated v ↔
    v.isFirstWave = false ∧ ∃ idx ∈ v.dag.wave, v.dag.stepType idx ∈ g.interruptBefore := by
  unfold Graph.WaveGated
  rw [hv.ready_eq]

/-- What a round that sends the event leaves: nothing is ready, a gate, or the gate after its wave. -/
theorem WaveRound.of_stop {u : Run (ops S) WaveError (WaveFlow S) World} {v' : Waves S}
    (h : WaveRound env g threadId cancellation v w u) (hv : v.Synced) (hres : u.result = .ok (.stop v')) :
    (v.dag.wave = [] ∧ v.dag.namesOf [.pending] = [] ∧ v'.dag = v.dag) ∨
      (v.dag.wave ≠ [] ∧ g.WaveGated v ∧ v'.dag = v.dag) ∨
        v.dag.wave ≠ [] ∧ ¬ g.WaveGated v ∧ (∃ idx ∈ v.dag.wave, v.dag.stepType idx ∈ g.interruptAfter) ∧
          v'.dag = v.dag.advance := by
  cases h with
  | ended hready hpending hres' =>
    cases hres'.symm.trans hres
    exact Or.inl ⟨hv.ready_eq ▸ hready, hpending, rfl⟩
  | gated _ _ hready hgate _ hres' =>
    cases hres'.symm.trans hres
    exact Or.inr (Or.inl ⟨hv.ready_eq ▸ hready, hgate, rfl⟩)
  | completed j val id hlaunch hjoin hfailed hyield _ _ hres' =>
    have hflow := hres'.symm.trans hres
    split at hflow
    · rename_i hafter
      cases hflow
      rw [hv.ready_eq] at hafter
      exact Or.inr (Or.inr ⟨hv.ready_eq ▸ hlaunch.1, hlaunch.2.1, hafter, dag_of_joining hjoin hfailed hyield hv⟩)
    · cases hflow
  | deadlocked _ _ hres' => cases hres'.symm.trans hres
  | gateFailed _ _ _ hres' => cases hres'.symm.trans hres
  | unregistered _ _ _ hres' => cases hres'.symm.trans hres
  | brokenOff _ _ _ hres' => cases hres'.symm.trans hres
  | failed _ _ _ _ hres' => cases hres'.symm.trans hres
  | yielded _ _ _ _ _ _ _ _ hres' => cases hres'.symm.trans hres
  | yieldFailed _ _ _ _ _ _ _ hres' => cases hres'.symm.trans hres
  | completeFailed _ _ _ _ _ _ _ hres' => cases hres'.symm.trans hres

/-- A round that goes on has passed its gates. -/
theorem WaveRound.advances {u : Run (ops S) WaveError (WaveFlow S) World} {v' : Waves S}
    (h : WaveRound env g threadId cancellation v w u) (hv : v.Synced) (hres : u.result = .ok (.next v')) :
    v.dag.wave ≠ [] ∧ ¬ g.WaveGated v ∧ (¬ ∃ idx ∈ v.dag.wave, v.dag.stepType idx ∈ g.interruptAfter) ∧
      v'.dag = v.dag.advance ∧ v'.isFirstWave = false := by
  cases h with
  | completed j val id hlaunch hjoin hfailed hyield _ _ hres' =>
    have hflow := hres'.symm.trans hres
    split at hflow
    · cases hflow
    · rename_i hafter
      cases hflow
      rw [hv.ready_eq] at hafter
      exact ⟨hv.ready_eq ▸ hlaunch.1, hlaunch.2.1, hafter, dag_of_joining hjoin hfailed hyield hv, rfl⟩
  | ended _ _ hres' => cases hres'.symm.trans hres
  | gated _ _ _ _ _ hres' => cases hres'.symm.trans hres
  | deadlocked _ _ hres' => cases hres'.symm.trans hres
  | gateFailed _ _ _ hres' => cases hres'.symm.trans hres
  | unregistered _ _ _ hres' => cases hres'.symm.trans hres
  | brokenOff _ _ _ hres' => cases hres'.symm.trans hres
  | failed _ _ _ _ hres' => cases hres'.symm.trans hres
  | yielded _ _ _ _ _ _ _ _ hres' => cases hres'.symm.trans hres
  | yieldFailed _ _ _ _ _ _ _ hres' => cases hres'.symm.trans hres
  | completeFailed _ _ _ _ _ _ _ hres' => cases hres'.symm.trans hres

/-- A loop that sends the event leaves every node `Done` if and only if it was given a clean DAG and is not stopped
early. -/
theorem runWaves_finished {k : Nat} {u : Run (ops S) WaveError (S × DAG) World} (hv : v.Synced)
    (hu : exec (memory env) (g.runWaves threadId cancellation k v) w = some u) (hannounces : Announces u.trace) :
    ∃ s dag, u.result = .ok (s, dag) ∧ (dag.AllDone ↔ v.dag.Clean ∧ ¬ g.StopsEarly v.isFirstWave v.dag) := by
  induction k generalizing v w u with
  | zero =>
    cases hu
    obtain ⟨e, he, -⟩ := hannounces
    cases he
  | succ k ih =>
    obtain ⟨u₁, hbody, hcase⟩ := runWaves_split hu
    have hsilent := not_announces (waveBody_unfinished v) hbody
    have hround := waveRound_of_exec hbody
    rcases hcase with ⟨e, _, rfl⟩ | ⟨v', tr, hv', rfl, -⟩ | ⟨v', _, rfl⟩ | ⟨v', u₂, hv', hu₂, rfl⟩
    · exact absurd hannounces hsilent
    · refine ⟨v'.state, v'.dag, rfl, ?_⟩
      rcases hround.of_stop hv hv' with ⟨hwave, hpending, hdag⟩ | ⟨hwave, hgate, hdag⟩ | ⟨hwave, hgate, hafter, hdag⟩
      · rw [hdag, DAG.allDone_iff_clean]
        exact and_congr_right fun _ => iff_of_true hpending (Graph.not_stopsEarly hwave)
      · rw [hdag, DAG.allDone_iff_clean]
        refine iff_of_false (fun h => DAG.namesOf_of_wave hwave h.2) fun h => h.2 ?_
        exact (Graph.stopsEarly_iff hwave).2 (Or.inl ((waveGated_iff hv).1 hgate))
      · rw [hdag, DAG.allDone_iff_clean, DAG.clean_advance, Graph.stopsEarly_iff hwave, ← waveGated_iff hv]
        refine and_congr_right fun _ => ⟨fun hpending => ?_, fun hnot => ?_⟩
        · rintro (h | ⟨h, -⟩ | h)
          · exact hgate h
          · exact h hpending
          · exact Graph.not_stopsEarly (not_ne_iff.1 fun hne => DAG.namesOf_of_wave hne hpending) h
        · by_contra hpending
          exact hnot (Or.inr (Or.inl ⟨hpending, hafter⟩))
    · exact absurd hannounces hsilent
    · obtain ⟨s, dag, hres, hdone⟩ := ih (hround.synced hv hv') hu₂
        ((announces_append.1 hannounces).resolve_left hsilent)
      obtain ⟨hwave, hgate, hafter, hdag, hfirst⟩ := hround.advances hv hv'
      refine ⟨s, dag, hres, hdone.trans ?_⟩
      rw [hdag, hfirst, DAG.clean_advance, Graph.stopsEarly_iff hwave, ← waveGated_iff hv]
      simp [hgate, hafter]

/-- A call of `run_dag` that sends the event. -/
theorem runDag_finished {u : Run (ops S) WaveError (S × DAG) World}
    (hu : exec (memory env) (g.runDag threadId cancellation dag s depth) w = some u) (hannounces : Announces u.trace) :
    ∃ s' dag', u.result = .ok (s', dag') ∧ (dag'.AllDone ↔ dag.Clean ∧ ¬ g.StopsEarly true dag) := by
  rcases runDag_cases hu with ⟨_, rfl⟩ | ⟨_, msg, rfl⟩ | ⟨u₁, _, _, hu₁, rfl⟩
  · obtain ⟨e, he, -⟩ := hannounces
    cases he
  · obtain ⟨e, he, -⟩ := hannounces
    cases he
  · have hloop : Announces u₁.trace := (announces_append.1 hannounces).resolve_left (not_announces_singleton rfl)
    obtain ⟨s', dag', hres, hdone⟩ := runWaves_finished (Waves.synced_start dag s none) hu₁ hloop
    exact ⟨s', dag', hres, hdone⟩

/-! ### Calls in a row -/

/-- The DAG `resume_dag` hands to `run_dag`: the statuses of the last checkpoint, recovered if it was `Running`. -/
def Graph.resumedDag (g : Graph S) (threadId : String) (w : World) (dag : DAG) : DAG :=
  match (w.store.loadState threadId : Except TakelnError (Option (Loaded S))) with
  | .ok (some ⟨_, info, some saved⟩) =>
    if info.status = .running then (dag.restoreStatuses saved).recover g.crashRecoveryPolicy
    else dag.restoreStatuses saved
  | _ => dag

/-- A call of `resume_dag` that sends the event. -/
theorem resumeDag_finished {u : Run (ops S) WaveError (Option S × DAG) World}
    (hu : exec (memory env) (g.resumeDag threadId cancellation dag depth) w = some u) (hannounces : Announces u.trace) :
    ∃ final dag', u.result = .ok (final, dag') ∧
      (dag'.AllDone ↔ (g.resumedDag threadId w dag).Clean ∧ ¬ g.StopsEarly true (g.resumedDag threadId w dag)) := by
  have idle {r : Except TakelnError (Option (Loaded S))} :
      ¬ Announces [(⟨.loadState threadId, r⟩ : Event (ops S))] := not_announces_singleton rfl
  have hl : exec (memory env) ((loadState threadId : Prog (ops S) TakelnError (Option (Loaded S))).mapError
    (·, dag)) w =
      some ⟨(w.store.loadState threadId).mapError (·, dag), w,
        [⟨.loadState threadId, w.store.loadState threadId⟩]⟩ := by
    rw [exec_mapError, exec_loadState]
    rfl
  unfold Graph.resumeDag at hu
  unfold Graph.resumedDag
  rcases hload : (w.store.loadState threadId : Except TakelnError (Option (Loaded S))) with e | _ |
    ⟨state, info, _ | saved⟩
  -- nothing is announced before there is a DAG to run
  · rw [hload] at hl
    rw [bind_eq, exec_bind_error hl] at hu
    cases hu
    exact absurd hannounces idle
  · rw [hload] at hl
    rw [bind_eq, exec_bind_ok hl] at hu
    cases hu
    exact absurd hannounces idle
  · rw [hload] at hl
    rw [bind_eq, exec_bind_ok hl] at hu
    cases hu
    exact absurd hannounces idle
  · rw [hload] at hl
    rw [bind_eq, exec_bind_ok hl] at hu
    obtain ⟨u₁, hu₁, rfl⟩ := Option.map_eq_some_iff.1 hu
    have hannounces₁ := (announces_append.1 hannounces).resolve_left idle
    dsimp only at hu₁ ⊢
    split at hu₁
    · cases hu₁
      obtain ⟨e, he, -⟩ := hannounces₁
      cases he
    · rcases exec_bind_eq_some hu₁ with ⟨e, w₂, t₂, hrun, rfl⟩ | ⟨⟨final, dag'⟩, w₂, t₂, u₂, hrun, hu₂, rfl⟩
      · obtain ⟨s', dag', hres, -⟩ := runDag_finished hrun hannounces₁
        cases hres
      · cases hu₂
        obtain ⟨s', dag'', hres, hdone⟩ := runDag_finished hrun (by simpa [Run.after] using hannounces₁)
        cases hres
        exact ⟨some final, dag', rfl, hdone⟩

/-- A call of `run_dag` or of `resume_dag`. -/
inductive DagCall (S : Type)
  | run (graph : Graph S) (threadId : String) (cancellation : Bool) (dag : DAG) (state : S) (depth : Nat)
  | resume (graph : Graph S) (threadId : String) (cancellation : Bool) (dag : DAG) (depth : Nat)

namespace DagCall

def graph : DagCall S → Graph S
  | run g _ _ _ _ _ => g
  | resume g _ _ _ _ => g

/-- The DAG that `run_dag` is given, if the call starts in `w`. -/
def givenDag (w : World) : DagCall S → DAG
  | run _ _ _ dag _ _ => dag
  | resume g threadId _ dag _ => g.resumedDag threadId w dag

/-- The call, with the DAG it leaves its caller with. -/
def prog : DagCall S → Prog (ops S) WaveError DAG
  | run g threadId cancellation dag state depth =>
    (g.runDag threadId cancellation dag state depth).bind fun x => .ret x.2
  | resume g threadId cancellation dag depth =>
    (g.resumeDag threadId cancellation dag depth).bind fun x => .ret x.2

/-- A call that sends the event. -/
theorem finished {c : DagCall S} {u : Run (ops S) WaveError DAG World} (hu : exec (memory env) c.prog w = some u)
    (hannounces : Announces u.trace) :
    ∃ dag', u.result = .ok dag' ∧ (dag'.AllDone ↔ (c.givenDag w).Clean ∧ ¬ c.graph.StopsEarly true (c.givenDag w)) := by
  cases c with
  | run g threadId cancellation dag state depth =>
    unfold prog at hu
    rw [exec_bind_ret] at hu
    obtain ⟨u₁, hu₁, rfl⟩ := Option.map_eq_some_iff.1 hu
    obtain ⟨s', dag', hres, hdone⟩ := runDag_finished hu₁ hannounces
    exact ⟨dag', by rw [hres]; rfl, hdone⟩
  | resume g threadId cancellation dag depth =>
    unfold prog at hu
    rw [exec_bind_ret] at hu
    obtain ⟨u₁, hu₁, rfl⟩ := Option.map_eq_some_iff.1 hu
    obtain ⟨final, dag', hres, hdone⟩ := resumeDag_finished hu₁ hannounces
    exact ⟨dag', by rw [hres]; rfl, hdone⟩

end DagCall

end Waves

/-! ### The sequential engine -/

section Sequential

variable [External] [State S] {env : Env S} {g : Graph S} {threadId : String} {cancellation : Bool}
  {resolvedInterrupt : Option String} {v v' : Loop S} {w w' : World} {tr : List (Event (ops S))}

/-- No gate has stopped the run: it has not saved an interrupted checkpoint, nor called a node of `interrupt_after`. -/
def Graph.PassedGates (g : Graph S) (tr : List (Event (ops S))) : Prop :=
  (∀ args ∈ writes tr, args.status ≠ .interrupted) ∧ ∀ name ∈ executions tr, name ∉ g.interruptAfter

omit [External] [State S] in
theorem Graph.PassedGates.append {tr' : List (Event (ops S))} (h : g.PassedGates tr) (h' : g.PassedGates tr') :
    g.PassedGates (tr ++ tr') := by
  unfold Graph.PassedGates
  simp only [writes_append, executions_append, List.mem_append, or_imp, forall_and]
  exact ⟨⟨h.1, h'.1⟩, h.2, h'.2⟩

omit [External] [State S] in
/-- The event is one of those sent. -/
theorem Announces.sent (h : Announces tr) : ∃ threadId cost n, .graphFinished threadId cost n ∈ sent tr := by
  obtain ⟨⟨o, r⟩, he, hfinishes⟩ := h
  cases o with
  | send event =>
    cases event with
    | graphFinished threadId cost n => exact ⟨threadId, cost, n, List.mem_flatMap.2 ⟨_, he, by simp [sentEvent]⟩⟩
    | _ => cases hfinishes
  | _ => cases hfinishes

omit [External] in
/-- The events of nodes do not contain it. -/
theorem Pairs.not_finished {names : List String} {events : List GraphEvent} (h : Pairs threadId names events)
    {t : String} {c : Eur} {n : Nat} : .graphFinished t c n ∉ events := by
  induction h with
  | nil => exact List.not_mem_nil
  | cons name n m status cost _ ih => simpa using ih

/-- A round that goes on has passed its gates. -/
theorem Round.passedGates {u : Run (ops S) RunError (Flow S) World}
    (h : Round env g threadId cancellation resolvedInterrupt v w u) (hres : u.result = .ok (.next v')) :
    g.PassedGates u.trace := by
  cases h with
  | completed n out val id _ _ _ _ _ hres' hsaves =>
    have hflow := hres'.symm.trans hres
    split at hflow
    · cases hflow
    · rename_i hafter
      refine ⟨fun args hargs => ?_, fun name hname => ?_⟩
      · rw [hsaves.writes, List.mem_singleton] at hargs
        rw [hargs]
        simp [Graph.loopSave]
      · rw [hsaves.executions] at hname
        rwa [List.eq_of_mem_replicate hname]
  | ended _ hres' => cases hres'.symm.trans hres
  | gated _ _ _ _ _ hres' => cases hres'.symm.trans hres
  | gateFailed _ _ _ _ hres' => cases hres'.symm.trans hres
  | unregistered _ _ _ hres' => cases hres'.symm.trans hres
  | yielded _ _ _ _ _ _ _ hres' => cases hres'.symm.trans hres
  | failed _ _ _ _ _ hres' => cases hres'.symm.trans hres

theorem rounds_passedGates {n : Nat}
    (hrounds : g.rounds (memory env) threadId cancellation resolvedInterrupt n v w = some (v', w', tr)) :
    g.PassedGates tr := by
  induction n generalizing v' w' tr with
  | zero =>
    cases hrounds
    exact ⟨fun _ h => (by cases h), fun _ h => (by cases h)⟩
  | succ n ih =>
    obtain ⟨v₁, w₁, tr₁, tr₂, hn, hlast, rfl⟩ := rounds_succ_eq_some.1 hrounds
    exact (ih hn).append ((round_of_exec hlast).passedGates rfl)

omit [External] [State S] in
/-- A round that sends the event is at `__END__`. -/
theorem RoundShows.name_of_sent {y : Watched} {x : Except RunError (Flow S)} (h : RoundShows g threadId v y x)
    {t : String} {cost : Eur} {n : Nat} (hsent : .graphFinished t cost n ∈ y.sent) : v.currentNodeName = "__END__" := by
  cases h with
  | ended _ hname => exact hname
  | idle => cases hsent
  | paired => simp at hsent
  | inside => simp at hsent

/-- A run of `run_inner` sends the event only if it reaches `__END__` and no gate stops it. -/
theorem runInner_finished {state : S} {startNode : String} {input : Option Value} {u : Run (ops S) RunError S World}
    (hu : exec (memory env) (g.runInner threadId cancellation resolvedInterrupt state startNode input) w = some u)
    (hannounces : Announces u.trace) :
    g.ReachesEnd (memory env) threadId cancellation resolvedInterrupt state startNode input w ∧
      g.PassedGates u.trace := by
  obtain ⟨r, w₁, u₁, hr, hu₁, rfl⟩ := exec_perform_eq_some.1 hu
  have hhead := hr
  cases hr
  have hloop : Announces u₁.trace := (announces_append.1 hannounces).resolve_left (not_announces_singleton rfl)
  obtain ⟨t, cost, m, hsent⟩ := hloop.sent
  have hcurrent : g.PassedGates [(⟨.currentHead threadId, .ok none⟩ : Event (ops S))] :=
    ⟨fun _ h => (by cases h), fun _ h => (by cases h)⟩
  obtain ⟨n, v', w', tr, hrounds, ⟨rfl, rfl⟩ | ⟨hlt, x, w'', tr', hlast, hstop, rfl⟩⟩ := exec_runLoop_rounds hu₁
  · exact absurd hsent (rounds_pairs hrounds).1.not_finished
  · rw [sent_append, List.mem_append] at hsent
    have hname := (roundShows_of_exec hlast).name_of_sent (hsent.resolve_left (rounds_pairs hrounds).1.not_finished)
    refine ⟨⟨none, w, hhead, n, v', w', tr, hlt, hrounds, hname⟩, ?_⟩
    refine hcurrent.append ((rounds_passedGates hrounds).append ?_)
    cases round_of_exec hlast with
    | ended _ _ hquiet =>
      refine ⟨fun args h => ?_, fun name h => ?_⟩
      · rw [hquiet.writes] at h
        cases h
      · rw [hquiet.executions] at h
        cases h
    | gated _ _ hne => exact absurd hname hne
    | gateFailed _ hne => exact absurd hname hne
    | unregistered hne => exact absurd hname hne
    | completed _ _ _ _ _ hruns => exact absurd hname hruns.1
    | yielded _ _ _ _ hruns => exact absurd hname hruns.1
    | failed _ _ hruns => exact absurd hname hruns.1

end Sequential

/-! ### Both engines -/

/-- In any calls of `run_dag` and `resume_dag`, one that sends `GraphFinished` has completed its DAG if and only if no
node of it was `Running`, `Failed` or `Yielded` at the start, and no gate stops it early.  The sequential engine sends
the event only when it reaches `__END__`, and never when a gate stops it. -/
theorem graphFinished_iff [External] [State S] [Merge S] {env : Env S} {w₀ w : World}
    {calls : List (DagCall S × World × Run (ops S) WaveError DAG World)}
    (hcalls : Ended (memory env) DagCall.prog w₀ calls w) :
    (∀ c w₁ u, (c, w₁, u) ∈ calls → Announces u.trace → ∃ dag, u.result = .ok dag ∧
        (dag.AllDone ↔ (c.givenDag w₁).Clean ∧ ¬ c.graph.StopsEarly true (c.givenDag w₁))) ∧
      ∀ (g : Graph S) (threadId : String) (cancellation : Bool) (resolvedInterrupt : Option String) (state : S)
        (startNode : String) (input : Option Value) (w₁ : World) (u : Run (ops S) RunError S World),
        exec (memory env) (g.runInner threadId cancellation resolvedInterrupt state startNode input) w₁ = some u →
        Announces u.trace →
        g.ReachesEnd (memory env) threadId cancellation resolvedInterrupt state startNode input w₁ ∧
          g.PassedGates u.trace := by
  refine ⟨fun c w₁ u hc hannounces => ?_, fun g t c r state node input w₁ u hu hannounces => ?_⟩
  · exact DagCall.finished (hcalls.exec_of_mem hc) hannounces
  · exact runInner_finished hu hannounces

section Examples

attribute [local instance] shortRuns

instance (tr : List (Event (ops S))) : Decidable (Announces tr) :=
  inferInstanceAs (Decidable (∃ e ∈ tr, finishesGraph e = true))

/-- Every node succeeds. -/
def untroubled : Env Nat where
  newId n := s!"c{n}"
  now n := n
  answer _ _ state _ _ := .returned (.ok { state := state + 1 })
  outcome _ task := .ok (.ok { state := task.state + 1 })
  order _ := inOrder

/-- A run that a gate stops after `A`, with `B` pending. -/
def stoppedAfter : DagCall Nat := .run { stages with interruptAfter := ["A"] } "t" false inARow 0 0

def stoppedRun : Run (ops Nat) WaveError DAG World :=
  (exec (memory untroubled) stoppedAfter.prog .empty).get (by decide +kernel)

theorem stopped_ended :
    Ended (memory untroubled) DagCall.prog .empty [(stoppedAfter, World.empty, stoppedRun)] stoppedRun.world :=
  Ended.start.call stoppedAfter (Option.some_get _).symm

theorem graphFinished_false :
    Ended (memory untroubled) DagCall.prog .empty [(stoppedAfter, World.empty, stoppedRun)] stoppedRun.world ∧
      Announces stoppedRun.trace ∧ ∃ dag, stoppedRun.result = .ok dag ∧ ¬ dag.AllDone := by
  refine ⟨stopped_ended, by decide +kernel, ⟨[⟨0, "A", [], .done⟩, ⟨1, "B", [0], .pending⟩]⟩, ?_, by decide⟩
  decide +kernel

theorem graphFinished_stopped : ∃ dag, stoppedRun.result = .ok dag ∧
    (dag.AllDone ↔ inARow.Clean ∧ ¬ Graph.StopsEarly { stages with interruptAfter := ["A"] } true inARow) :=
  (graphFinished_iff stopped_ended).1 stoppedAfter .empty stoppedRun (List.mem_singleton_self _) (by decide +kernel)

end Examples

end Takeln
