import Takeln.Threads.Executions

/-!
# Execution ids

`ctx.execution_id` is made from the thread, the node and the last checkpoint that the engine tracks.  The loop of
`run_inner` starts to track with every call, and waves do not track at all.  So an execution that was cut short gets the
same id again only if it was the first one of its call (`executionId_stable_iff`), and the first executions of several
calls, as well as all nodes of waves, share one id per name (`executionId_distinct_iff`).
-/

namespace Takeln

open Effect Effect.Prog

variable {S W : Type}

/-! ### What an execution id is made from -/

/-- The checkpoint the engine tracks: the last one that the same call has saved, and none in a wave. -/
def Execution.tracked (e : Execution S) : Option String :=
  match e.dagNode with
  | some _ => none
  | none => lastSaved e.done

/-- What the engine tracks is the latest checkpoint, if it tracks any. -/
theorem Execution.latest_of_tracked {e : Execution S} {id : String} (h : e.tracked = some id) : e.latest = some id := by
  unfold tracked at h
  unfold latest before
  split at h
  · cases h
  · rw [lastSaved_append, h, Option.some_or]

section Tracking

variable [External] {threadId : String}

/-- The sequential loop hands out ids made from the last checkpoint that its call has saved; the tasks of waves belong
to the thread. -/
def tracking (S : Type) (threadId : String) : Protocol (ops S) (Option String) where
  allow
    | q, .callNode ctx _ _ _ => ctx.executionId = External.newV5 (executionSeed threadId ctx.nodeName q)
    | _, .joinWave tasks => ∀ t ∈ tasks, t.threadId = threadId
    | _, _ => True
  next
    | q, .saveStateBound args, r => (savedId (S := S) ⟨.saveStateBound args, r⟩).or q
    | q, _, _ => q

theorem after_tracking (tr : List (Event (ops S))) : (tracking S threadId).after none tr = lastSaved tr := by
  induction tr using List.reverseRecOn with
  | nil => rfl
  | append_singleton tr e ih =>
    rw [Protocol.after_concat, lastSaved_concat, ih]
    obtain ⟨o, r⟩ := e
    cases o <;> rfl

theorem tracking_silent (q : Option String) (max : Nat) : Silent (tracking S threadId) q max :=
  ⟨⟨trivial, fun _ => rfl⟩, fun _ => ⟨trivial, rfl⟩, fun _ => ⟨trivial, rfl⟩⟩

/-- A save is allowed, and its id is tracked from then on. -/
theorem tracking_save {q : Option String} {args : SaveArgs S} {Φ : Option String → Except TakelnError String → Prop}
    (herr : ∀ q e, Φ q (.error e)) (hok : ∀ id, Φ (some id) (.ok id)) : SaveFollows (tracking S threadId) q args Φ := by
  refine ⟨trivial, fun r => ?_⟩
  rcases r with e | save
  · exact herr _ e
  · cases save with
    | conflict actual => exact herr _ _
    | _ => exact hok _

variable [State S] {g : Graph S} {cancellation : Bool} {resolvedInterrupt : Option String}

theorem runInner_tracks (state : S) (node : String) (input : Option Value) :
    Follows (tracking S threadId) (g.runInner threadId cancellation resolvedInterrupt state node input) none
      fun _ _ => True := by
  refine follows_runInner (I := fun q v => q = v.lastCheckpointId) trivial (fun _ => trivial) (fun _ => rfl) ?_
    fun _ _ _ _ => trivial
  rintro q v rfl
  refine follows_loopBody_cases (Ψ := fun q' _ => q' = v.lastCheckpointId) (tracking_silent _ _).nodes
    (fun _ => (tracking_silent _ 0).emit _ trivial)
    (fun _ => trivial) (fun _ => tracking_save (fun _ _ => trivial) fun _ => trivial) (fun _ => ?_) ?_ ?_
  · refine follows_callNode (J := fun q' => q' = v.lastCheckpointId) (Ψ := fun q' _ => q' = v.lastCheckpointId) ?_
      (fun q' x hq' => hq') rfl
    rintro q' rfl attempt input timeout token
    exact ⟨rfl, fun _ => ⟨fun _ _ => rfl, rfl⟩⟩
  · rintro q' attempt out rfl
    refine follows_onSuccess (tracking_silent _ _).nodes (fun _ _ _ => trivial) fun _ _ => ⟨fun _ => trivial,
      tracking_save (fun _ _ => trivial) fun id => ?_⟩
    dsimp only
    by_cases hafter : v.currentNodeName ∈ g.interruptAfter
    · rw [if_pos hafter]
      trivial
    · rw [if_neg hafter]
      rfl
  · rintro q' attempt err rfl
    exact follows_onError (tracking_silent _ _).nodes (fun _ => trivial) fun _ _ =>
      tracking_save (fun _ _ => trivial) fun _ => trivial

omit [State S] in
theorem revertToYielded_tracks (state : S) (node : String) (request : YieldRequest) (lastHead : Option (Option String))
    (q : Option String) :
    Follows (tracking S threadId) (Graph.revertToYielded threadId state node request lastHead) q fun _ _ => True :=
  follows_revertToYielded (fun _ _ => tracking_save (fun _ _ => trivial) fun _ => trivial)
    fun _ => ⟨trivial, fun _ => trivial, fun _ => tracking_save (fun _ _ => trivial) fun _ => trivial⟩

theorem runDag_tracks [Merge S] (dag : DAG) (state : S) (depth : Nat) (q : Option String) :
    Follows (tracking S threadId) (g.runDag threadId cancellation dag state depth) q fun _ _ => True := by
  refine follows_runDag (I := fun _ _ => True) (fun _ => trivial) trivial (fun _ => trivial) (fun _ => trivial) ?_
    fun _ _ _ _ => trivial
  rintro q v -
  refine follows_waveBody (tracking_silent _ _) (fun tasks htasks => ⟨fun t ht => (htasks t ht).2, fun _ => rfl⟩)
    ((tracking_silent _ 0).emit _ trivial) (fun _ => trivial) fun args flow dag _ => ?_
  refine tracking_save (fun _ _ => trivial) fun id => ?_
  dsimp only
  cases flow id with
  | next v' => trivial
  | stop v' => exact (tracking_silent _ 0).emit _ trivial
  | yielded v' => trivial

theorem call_tracks [Merge S] (call : Call S) :
    Follows (tracking S threadId) (call.prog threadId) none fun _ _ => True := by
  refine follows_call (fun _ => trivial) ⟨trivial, fun _ => rfl⟩ (fun _ => ⟨trivial, fun _ => rfl⟩)
    (fun c r state node input => ?_) fun _ c dag state depth => runDag_tracks dag state depth none
  refine (runInner_tracks state node input).mono fun q x _ => ?_
  rcases x with ⟨e, lastHead⟩ | final
  · refine ⟨trivial, fun _ _ _ => (revertToYielded_tracks _ _ _ _ _).mono fun _ y _ => ?_⟩
    cases y with
    | ok _ => trivial
    | error _ => exact fun _ => trivial
  · exact ⟨trivial, (tracking_silent _ _).nodes⟩

end Tracking

/-! ### Two executions in a session -/

section Main

variable [External] [State S] [Merge S] {h : Handler (ops S) W} {threadId : String} {w₀ w : W}
  {calls : List (Call S × List (Event (ops S)))} {e e' : Execution S}

/-- The id an execution is handed is made from the name of its node and what the engine tracks then. -/
theorem Execution.executionId_eq (hS : Session h (Call.prog threadId) w₀ calls w) (he : e.In calls) :
    e.ctx.executionId = External.newV5 (executionSeed threadId e.ctx.nodeName e.tracked) := by
  obtain ⟨ev, rest, later, rfl, hhands⟩ := he
  have hallow := hS.allow (call_tracks e.call)
  rw [after_tracking] at hallow
  obtain ⟨earlier, call, done, dagNode, ctx⟩ := e
  cases hhands with
  | called ctx state timeout token r => exact hallow
  | launched tasks r t ht attempt id hid =>
    have ht : t.threadId = threadId := hallow t ht
    show External.newV5 (executionSeed t.threadId t.nodeName none) = _
    rw [ht]
    rfl

omit [State S] [Merge S] in
/-- Two executions in different calls: what the first one's call did is done before the second one's call. -/
theorem Execution.earlier_of_lt (he : e.In calls) (he' : e'.In calls) (hlater : e.earlier.length < e'.earlier.length) :
    ∃ rest, performed e'.earlier = e.before ++ rest := by
  obtain ⟨ev, rest, later, hcalls, _⟩ := he
  obtain ⟨ev', rest', later', hcalls', _⟩ := he'
  rcases List.append_eq_append_iff.1 (hcalls.symm.trans hcalls') with ⟨mid, hearlier, hmid⟩ | ⟨mid, hearlier, _⟩
  · cases mid with
    | nil =>
      rw [hearlier, List.append_nil] at hlater
      omega
    | cons c mid =>
      obtain ⟨rfl, _⟩ := List.cons.inj hmid
      refine ⟨ev :: rest ++ performed mid, ?_⟩
      rw [hearlier, performed_append, performed_cons]
      simp only [before, List.append_assoc]
  · rw [hearlier, List.length_append] at hlater
    omega

omit [State S] [Merge S] in
/-- If no id is drawn twice, an execution in a later call that finds the same latest checkpoint comes before every
checkpoint of its own call. -/
theorem Execution.tracked_eq_none (he : e.In calls) (he' : e'.In calls) (hlater : e.earlier.length < e'.earlier.length)
    (hlatest : e'.latest = e.latest) (hfresh : ((performed calls).filterMap savedId).Nodup) : e'.tracked = none := by
  rw [Option.eq_none_iff_forall_ne_some]
  intro id htracked
  have hlast : lastSaved e.before = some id := hlatest.symm.trans (latest_of_tracked htracked)
  have hbefore : id ∈ (performed e'.earlier).filterMap savedId := by
    obtain ⟨rest, hrest⟩ := earlier_of_lt he he' hlater
    rw [hrest, List.filterMap_append]
    exact List.mem_append_left _ (List.mem_of_getLast? hlast)
  have hown : id ∈ e'.done.filterMap savedId := by
    unfold tracked at htracked
    split at htracked
    · cases htracked
    · exact List.mem_of_getLast? htracked
  obtain ⟨ev', rest', later', rfl, _⟩ := he'
  rw [performed_append, performed_cons, List.filterMap_append, List.filterMap_append, List.filterMap_append] at hfresh
  exact (List.nodup_append.1 hfresh).2.2 id hbefore id (List.mem_append_left _ (List.mem_append_left _ hown)) rfl

omit [External] [State S] [Merge S] in
/-- For one node, equal texts mean equal checkpoints, as no checkpoint is called `initial`. -/
theorem tracked_eq_of_seed_eq {name : String} {c c' : Option String} (hc : c ≠ some "initial")
    (hc' : c' ≠ some "initial") (hseed : executionSeed threadId name c = executionSeed threadId name c') : c = c' := by
  have hid : c.getD "initial" = c'.getD "initial" := (String.append_right_inj _).1 hseed
  cases c with
  | none =>
    cases c' with
    | none => rfl
    | some id' => exact absurd (congrArg some hid.symm) hc'
  | some id =>
    cases c' with
    | none => exact absurd (congrArg some hid) hc
    | some id' => exact congrArg some hid

/-- An execution after which its call saved nothing, and one in a later call, of the same node with the same latest
checkpoint: the node is handed the same id if and only if the first one's call had saved nothing before it. -/
theorem executionId_stable_iff (hS : Session h (Call.prog threadId) w₀ calls w) (he : e.In calls) (he' : e'.In calls)
    (hlater : e.earlier.length < e'.earlier.length) (hname : e'.ctx.nodeName = e.ctx.nodeName)
    (hlatest : e'.latest = e.latest) (hfresh : ((performed calls).filterMap savedId).Nodup)
    (hinj : External.newV5 (executionSeed threadId e'.ctx.nodeName e'.tracked) =
        External.newV5 (executionSeed threadId e.ctx.nodeName e.tracked) →
      executionSeed threadId e'.ctx.nodeName e'.tracked = executionSeed threadId e.ctx.nodeName e.tracked)
    (hid : e.tracked ≠ some "initial") : e'.ctx.executionId = e.ctx.executionId ↔ e.tracked = none := by
  have htracked := Execution.tracked_eq_none he he' hlater hlatest hfresh
  rw [e'.executionId_eq hS he', e.executionId_eq hS he]
  constructor
  · intro heq
    have hseed := hinj heq
    rw [hname, htracked] at hseed
    exact (tracked_eq_of_seed_eq (by simp) hid hseed).symm
  · intro hnone
    rw [hname, htracked, hnone]

/-- Different pieces of work: two different nodes of DAGs, or the same node after different latest checkpoints. -/
def Execution.Differs (e e' : Execution S) : Prop :=
  (∃ n n', e.dagNode = some n ∧ e'.dagNode = some n' ∧ n ≠ n') ∨
    e.ctx.nodeName = e'.ctx.nodeName ∧ e.latest ≠ e'.latest

/-- Different pieces of work are handed different ids if and only if their nodes have different names, or one of them is
executed by the sequential loop after a checkpoint that its own call has saved. -/
theorem executionId_distinct_iff (hS : Session h (Call.prog threadId) w₀ calls w) (he : e.In calls) (he' : e'.In calls)
    (hdiff : e.Differs e')
    (hinj : External.newV5 (executionSeed threadId e.ctx.nodeName e.tracked) =
        External.newV5 (executionSeed threadId e'.ctx.nodeName e'.tracked) →
      executionSeed threadId e.ctx.nodeName e.tracked = executionSeed threadId e'.ctx.nodeName e'.tracked)
    (hid : e.tracked ≠ some "initial") (hid' : e'.tracked ≠ some "initial") :
    e.ctx.executionId ≠ e'.ctx.executionId ↔
      e.ctx.nodeName ≠ e'.ctx.nodeName ∨ e.tracked ≠ none ∨ e'.tracked ≠ none := by
  rw [e.executionId_eq hS he, e'.executionId_eq hS he']
  constructor
  · intro hne
    by_contra hsame
    rw [not_or, not_or, not_not, not_not, not_not] at hsame
    obtain ⟨hname, hnone, hnone'⟩ := hsame
    rw [hname, hnone, hnone'] at hne
    exact hne rfl
  · intro hcase heq
    have hseed := hinj heq
    rcases hdiff with ⟨n, n', hn, hn', _⟩ | ⟨hname, hlatest⟩
    · -- nodes of waves: nothing is tracked, so the names tell them apart
      have hnone : e.tracked = none := by rw [Execution.tracked, hn]
      have hnone' : e'.tracked = none := by rw [Execution.tracked, hn']
      rw [hnone, hnone'] at hseed
      have hnames := (String.append_right_inj _).1 ((String.append_left_inj _).1 ((String.append_left_inj _).1 hseed))
      rcases hcase with hne | hne | hne
      · exact hne hnames
      · exact hne hnone
      · exact hne hnone'
    -- nodes of loops: equal ids come from equal checkpoints
    · rw [hname] at hseed
      have htracked := tracked_eq_of_seed_eq hid hid' hseed
      rcases hcase with hne | hne
      · exact hne hname
      · cases hcp : e.tracked with
        | none =>
          rw [← htracked, hcp] at hne
          rcases hne with hne | hne <;> exact hne rfl
        | some id =>
          have hcp' : e'.tracked = some id := htracked ▸ hcp
          rw [Execution.latest_of_tracked hcp, Execution.latest_of_tracked hcp'] at hlatest
          exact hlatest rfl

end Main

/-! ### One key for two payments -/

section Examples

attribute [local instance] shortRuns

/-- Two nodes in a row. -/
def payment : Graph Nat where
  nodes := ["A", "B"]
  edges name := if name = "A" then some (.unconditional "B") else none

def counting : Env Nat where
  newId n := s!"c{n}"
  now n := n
  answer _ _ state _ _ := .returned (.ok { state := state + 1 })
  outcome _ task := .ok (.ok { state := task.state })
  order _ := inOrder

/-- A run crashes while it executes `B`, and is resumed. -/
def crashed : List (Call Nat × List (Event (ops Nat))) × World :=
  replay (memory counting) (Call.prog "t") [(.run payment false 0 "A", 11), (.resume payment false, 20)] [] World.empty

/-- The execution of `B` that is cut short, and the one in the resume. -/
def first : Execution Nat := (executionAt crashed.1 0 10).get (by decide +kernel)

def second : Execution Nat := (executionAt crashed.1 1 4).get (by decide +kernel)

theorem crashed_session : Session (memory counting) (Call.prog "t") World.empty crashed.1 crashed.2 :=
  Session.start.replay _

theorem first_in : first.In crashed.1 := in_of_executionAt (Option.some_get _).symm

theorem second_in : second.In crashed.1 := in_of_executionAt (Option.some_get _).symm

theorem executionId_stable_false :
    Session (memory counting) (Call.prog "t") World.empty crashed.1 crashed.2 ∧ first.In crashed.1 ∧
      second.In crashed.1 ∧ first.earlier.length < second.earlier.length ∧
      second.ctx.nodeName = first.ctx.nodeName ∧ second.latest = first.latest ∧
      second.ctx.executionId ≠ first.ctx.executionId :=
  ⟨crashed_session, first_in, second_in, by decide +kernel, by decide +kernel, by decide +kernel, by decide +kernel⟩

theorem executionId_stable_crashed :
    second.ctx.executionId = first.ctx.executionId ↔ first.tracked = none :=
  executionId_stable_iff crashed_session first_in second_in (by decide +kernel) (by decide +kernel) (by decide +kernel)
    (by decide +kernel) (by decide +kernel) (by decide +kernel)

/-- Two runs of the thread, one after the other. -/
def repeated : List (Call Nat × List (Event (ops Nat))) × World :=
  replay (memory counting) (Call.prog "t") [(.run payment false 0 "A", 20), (.run payment false 2 "A", 20)] []
    World.empty

/-- The first node of each run. -/
def former : Execution Nat := (executionAt repeated.1 0 3).get (by decide +kernel)

def latter : Execution Nat := (executionAt repeated.1 1 3).get (by decide +kernel)

theorem repeated_session : Session (memory counting) (Call.prog "t") World.empty repeated.1 repeated.2 :=
  Session.start.replay _

theorem former_in : former.In repeated.1 := in_of_executionAt (Option.some_get _).symm

theorem latter_in : latter.In repeated.1 := in_of_executionAt (Option.some_get _).symm

theorem former_differs : former.Differs latter := Or.inr ⟨by decide +kernel, by decide +kernel⟩

theorem executionId_distinct_false :
    Session (memory counting) (Call.prog "t") World.empty repeated.1 repeated.2 ∧ former.In repeated.1 ∧
      latter.In repeated.1 ∧ former.Differs latter ∧ former.ctx.executionId = latter.ctx.executionId :=
  ⟨repeated_session, former_in, latter_in, former_differs, by decide +kernel⟩

theorem executionId_distinct_repeated :
    former.ctx.executionId ≠ latter.ctx.executionId ↔
      former.ctx.nodeName ≠ latter.ctx.nodeName ∨ former.tracked ≠ none ∨ latter.tracked ≠ none :=
  executionId_distinct_iff repeated_session former_in latter_in former_differs (by decide +kernel) (by decide +kernel)
    (by decide +kernel)

end Examples

end Takeln
