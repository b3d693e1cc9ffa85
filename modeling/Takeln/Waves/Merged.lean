import Takeln.Effect.Interleave
import Takeln.Waves.Rounds

/-!
# What a snapshot has merged

A checkpoint of `run_dag` should hold the initial state with the outputs of exactly those nodes merged in, wave by
wave, that its snapshot marks `Done` (`Merged`).  The loop keeps state and snapshot together (`InStep`), and so do its
`Complete` and `Interrupted` checkpoints.  A `Yielded` one is written with the state from before the wave, although the
nodes of the wave that succeeded are `Done` in its snapshot.
-/

namespace Takeln

open Effect Effect.Prog

variable {S : Type} [Merge S]

/-! ### Merging waves -/

/-- The state with the outputs of some waves merged in, wave by wave. -/
def mergeAll (state : S) (ws : List (JoinedWave S)) : S :=
  ws.foldl (fun state wave => mergeWave state (outputs wave.results)) state

@[simp] theorem mergeAll_nil (state : S) : mergeAll state [] = state := rfl

theorem mergeAll_concat (state : S) (ws : List (JoinedWave S)) (wave : JoinedWave S) :
    mergeAll state (ws ++ [wave]) = mergeWave (mergeAll state ws) (outputs wave.results) := by
  simp [mergeAll]

omit [Merge S] in
/-- The outputs of the nodes a snapshot marks `Done`. -/
def doneOutputs (snapshot : DAG) (results : List (JoinResult S)) : List (Nat × S) :=
  (outputs results).filter fun out => decide (snapshot.statusAt out.1 = some .done)

/-- The checkpoint holds the state `s₀` with the outputs of exactly the nodes merged in that its snapshot marks `Done`;
`ws` are the waves so far. -/
def Merged (s₀ : S) (args : SaveArgs S) (ws : List (JoinedWave S)) : Prop :=
  ∃ snapshot, args.dag = some snapshot ∧
    args.state = ws.foldl (fun state wave => mergeWave state (doneOutputs snapshot wave.results)) s₀ ∧
    ∀ idx, snapshot.statusAt idx = some .done → ∃ wave ∈ ws, ∃ state, (idx, state) ∈ outputs wave.results

/-- A node is `Done` exactly if a wave has its output. -/
def Recorded (dag : DAG) (ws : List (JoinedWave S)) : Prop :=
  ∀ idx, dag.statusAt idx = some .done ↔ ∃ wave ∈ ws, ∃ state, (idx, state) ∈ outputs wave.results

/-- If the snapshot is up to date, the checkpoint is right exactly if its state is. -/
theorem merged_iff {s₀ : S} {args : SaveArgs S} {ws : List (JoinedWave S)} {snapshot : DAG}
    (hdag : args.dag = some snapshot) (hrec : Recorded snapshot ws) : Merged s₀ args ws ↔
      args.state = mergeAll s₀ ws := by
  have hall (wave : JoinedWave S) (hwave : wave ∈ ws) : doneOutputs snapshot wave.results = outputs wave.results := by
    unfold doneOutputs
    rw [List.filter_eq_self]
    rintro ⟨idx, state⟩ hout
    exact decide_eq_true ((hrec idx).2 ⟨wave, hwave, state, hout⟩)
  have hfold : ws.foldl (fun state wave => mergeWave state (doneOutputs snapshot wave.results)) s₀ =
    mergeAll s₀ ws := by
    unfold mergeAll
    exact List.foldl_ext _ _ _ fun state wave hwave => by rw [hall wave hwave]
  constructor
  · rintro ⟨snapshot', hdag', hstate, _⟩
    cases hdag.symm.trans hdag'
    rw [hstate, hfold]
  · intro hstate
    exact ⟨snapshot, hdag, hstate.trans hfold.symm, fun idx => (hrec idx).1⟩

/-! ### The loop -/

omit [Merge S] in
/-- Joining a wave records it. -/
theorem Recorded.joined {dag : DAG} {ws : List (JoinedWave S)} {completed : List Uuid} {wave : JoinedWave S}
    (h : Recorded dag ws) (hperm : (wave.results.filterMap resultIdx).Perm (dag.ready completed)) :
    Recorded (joined dag completed wave.results).dag (ws ++ [wave]) := by
  intro idx
  have hsplit : (∃ wave' ∈ ws ++ [wave], ∃ state, (idx, state) ∈ outputs wave'.results) ↔
      dag.statusAt idx = some .done ∨ ∃ state, (idx, state) ∈ outputs wave.results := by
    rw [h idx]
    simp [or_and_right, exists_or]
  rw [hsplit]
  constructor
  · intro hdone
    rcases statusAt_joined hperm idx with ⟨x, hx, hstatus⟩ | ⟨_, hstatus⟩
    · cases x with
      | ok out => exact Or.inr ⟨out.state, mem_outputs.2 ⟨out, hx, rfl⟩⟩
      | error e =>
        rw [hdone] at hstatus
        cases e <;> cases hstatus
    · exact Or.inl (hstatus.symm.trans hdone)
  · rintro (hdone | ⟨state, hout⟩)
    · rw [statusAt_joined_of_notMem hperm, hdone]
      intro hready
      cases hdone.symm.trans (DAG.statusAt_of_mem_ready hready)
    · obtain ⟨out, hout, _⟩ := mem_outputs.1 hout
      exact statusAt_joined_of_mem hperm hout

/-- The loop state holds what the waves so far came to. -/
structure InStep (s₀ : S) (v : Waves S) (ws : List (JoinedWave S)) : Prop where
  state : v.state = mergeAll s₀ ws
  recorded : Recorded v.dag ws

/-- Each checkpoint is right exactly if it is not a yielded one whose wave had outputs that change the state. -/
def MergedUnlessYielded (s₀ : S) (ws : List (JoinedWave S)) (tr : List (Event (ops S))) : Prop :=
  ∀ pre e post args, tr = pre ++ e :: post → written e = some args →
    (Merged s₀ args (ws ++ waves pre) ↔
      (args.status = .yielded → mergeAll s₀ (ws ++ waves pre) = mergeAll s₀ (ws ++ waves pre).dropLast))

omit [Merge S] in
theorem joinedWave_of_written {e : Event (ops S)} {args : SaveArgs S} (h : written e = some args) :
    joinedWave e = none := by
  obtain ⟨o, r⟩ := e
  cases o with
  | joinWave tasks => cases h
  | _ => rfl

theorem MergedUnlessYielded.append {s₀ : S} {ws : List (JoinedWave S)} {tr tr' : List (Event (ops S))}
    (h : MergedUnlessYielded s₀ ws tr) (h' : MergedUnlessYielded s₀ (ws ++ waves tr) tr') :
    MergedUnlessYielded s₀ ws (tr ++ tr') := by
  intro pre e post args htr he
  rcases List.append_eq_append_iff.1 htr with ⟨mid, rfl, hmid⟩ | ⟨mid, rfl, hmid⟩
  · rw [waves_append, ← List.append_assoc]
    exact h' mid e post args hmid he
  · cases mid with
    | nil =>
      rw [List.append_nil] at h'
      have hfirst := h' [] e post args hmid.symm he
      rwa [waves_nil, List.append_nil] at hfirst
    | cons e' mid =>
      obtain ⟨rfl, _⟩ := List.cons.inj hmid
      exact h pre e mid args rfl he

section Memory

variable [State S] {env : Env S} {g : Graph S} {threadId : String} {cancellation : Bool} {v : Waves S} {w : World}
  {s₀ : S} {ws : List (JoinedWave S)}

omit [Merge S] [State S] in
private theorem mergedUnlessYielded_of_quiet [Merge S] {E α : Type} {u : Run (ops S) E α World} (h : Quiet w [] u) :
    MergedUnlessYielded s₀ ws u.trace := by
  intro pre e post args htr he
  have hnone := h.written_eq_none (e := e) (by rw [htr]; simp)
  cases hnone.symm.trans he

private theorem mergedUnlessYielded_of_saves {E α : Type} {args : SaveArgs S} {val : Value} {id : String}
    {u : Run (ops S) E α World} (h : Saves env w [] args val id u)
    (hargs : Merged s₀ args (ws ++ waves u.trace) ↔
      (args.status = .yielded → mergeAll s₀ (ws ++ waves u.trace) = mergeAll s₀ (ws ++ waves u.trace).dropLast)) :
    MergedUnlessYielded s₀ ws u.trace := by
  intro pre e post args' htr he
  obtain ⟨rfl, rfl⟩ := h.eq_of_written htr he
  rw [htr, waves_append] at hargs
  simpa [waves, joinedWave_of_written he] using hargs

/-- What a round saves, and the loop state it leaves. -/
theorem WaveRound.merged {u : Run (ops S) WaveError (WaveFlow S) World}
    (h : WaveRound env g threadId cancellation v w u) (hv : InStep s₀ v ws) :
    MergedUnlessYielded s₀ ws u.trace ∧ ∀ v', u.result = .ok (.next v') → InStep s₀ v' (ws ++ waves u.trace) := by
  have nothing {x : Except WaveError (WaveFlow S)} (hres : u.result = x) (hx : ∀ v', x ≠ .ok (.next v'))
    (hq : Quiet w [] u) :
      MergedUnlessYielded s₀ ws u.trace ∧ ∀ v', u.result = .ok (.next v') → InStep s₀ v' (ws ++ waves u.trace) :=
    ⟨mergedUnlessYielded_of_quiet hq, fun v' hv' => absurd (hres.symm.trans hv') (hx v')⟩
  cases h with
  | ended _ _ hres hq => exact nothing hres (by simp) hq
  | deadlocked _ _ hres hq => exact nothing hres (by simp) hq
  | gateFailed e _ _ hres hq => exact nothing hres (by simp) hq
  | unregistered idx _ _ hres hq => exact nothing hres (by simp) hq
  | brokenOff e _ _ hres hq => exact nothing hres (by simp) hq
  | failed j _ _ _ hres hq => exact nothing hres (by simp) hq
  | yieldFailed j e _ _ _ _ _ hres hq => exact nothing hres (by simp) hq
  | completeFailed j e _ _ _ _ _ hres hq => exact nothing hres (by simp) hq
  | gated val id _ _ _ hres hsaves hwaves =>
    refine ⟨mergedUnlessYielded_of_saves hsaves ?_, fun v' hv' => by cases hres.symm.trans hv'⟩
    rw [hwaves, List.append_nil, merged_iff rfl hv.recorded]
    exact ⟨fun _ hy => (by cases hy), fun _ => hv.state⟩
  | yielded j val id _ hjoin _ _ _ hres hsaves hwaves =>
    obtain ⟨hj, hperm⟩ := joined_of_joining hjoin
    refine ⟨mergedUnlessYielded_of_saves hsaves ?_, fun v' hv' => by cases hres.symm.trans hv'⟩
    -- the wave is recorded, but not merged
    have hrec : Recorded j.dag (ws ++ [v.wave threadId cancellation env w.waves]) := by
      rw [hj]
      exact hv.recorded.joined hperm
    rw [hwaves, merged_iff rfl hrec, List.dropLast_concat, ← hv.state]
    exact ⟨fun heq _ => heq.symm, fun heq => (heq rfl).symm⟩
  | completed j val id _ hjoin _ _ _ _ hres hsaves hwaves =>
    obtain ⟨hj, hperm⟩ := joined_of_joining hjoin
    have hrec : Recorded j.dag (ws ++ [v.wave threadId cancellation env w.waves]) := by
      rw [hj]
      exact hv.recorded.joined hperm
    -- the wave is recorded and merged
    have hstate : mergeWave v.state j.waveStates = mergeAll s₀ (ws ++ [v.wave threadId cancellation env w.waves]) := by
      rw [mergeAll_concat, ← hv.state, hj, joined, Joining.waveStates_addAll]
      rfl
    constructor
    · refine mergedUnlessYielded_of_saves hsaves ?_
      rw [hwaves, merged_iff rfl hrec]
      exact ⟨fun _ hy => (by cases hy), fun _ => hstate⟩
    · intro v' hv'
      have hflow := hres.symm.trans hv'
      split at hflow
      · cases hflow
      · cases hflow
        rw [hwaves]
        exact ⟨hstate, hrec⟩

/-- What the loop saves. -/
theorem runWaves_merged {k : Nat} {u : Run (ops S) WaveError (S × DAG) World}
    (hu : exec (memory env) (g.runWaves threadId cancellation k v) w = some u) (hv : InStep s₀ v ws) :
    MergedUnlessYielded s₀ ws u.trace := by
  induction k generalizing v w ws u with
  | zero =>
    cases hu
    intro pre e post args htr
    simp at htr
  | succ k ih =>
    obtain ⟨u₁, hround, hcase⟩ := runWaves_cases hu
    obtain ⟨hmerged, hnext⟩ := hround.merged hv
    rcases hcase with ⟨e, _, rfl⟩ | ⟨v', tr, _, rfl, rfl⟩ | ⟨v', _, rfl⟩ | ⟨v', u₂, hres, hu₂, rfl⟩
    · exact hmerged
    · refine hmerged.append ?_
      intro pre e post args htr he
      have hmem : e ∈ pre ++ e :: post := by simp
      rw [← htr] at hmem
      simp only [List.mem_cons, List.not_mem_nil, or_false] at hmem
      rcases hmem with rfl | rfl <;> cases he
    · exact hmerged
    · exact hmerged.append (ih hu₂ (hnext v' hres))

variable {dag : DAG} {depth : Nat} {u : Run (ops S) WaveError (S × DAG) World}

/-- The checkpoints of a run of a fresh DAG hold what their snapshots mark `Done` exactly if no yielded one is written
after a wave whose outputs change the state. -/
theorem runDag_merged_iff (hpending : ∀ n ∈ dag.nodes, n.status = .pending)
    (hu : exec (memory env) (g.runDag threadId cancellation dag s₀ depth) w = some u) :
    (∀ pre e post args, u.trace = pre ++ e :: post → written e = some args → Merged s₀ args (waves pre)) ↔
      ∀ pre e post args, u.trace = pre ++ e :: post → written e = some args → args.status = .yielded →
        mergeAll s₀ (waves pre) = mergeAll s₀ (waves pre).dropLast := by
  have hstart : InStep s₀ (Waves.start dag s₀ none) [] := by
    refine ⟨rfl, fun idx => ⟨fun hdone => ?_, by simp⟩⟩
    obtain ⟨n, hn, hstatus⟩ := Option.map_eq_some_iff.1 hdone
    rw [hpending n (List.mem_of_getElem? hn)] at hstatus
    cases hstatus
  have hall : MergedUnlessYielded s₀ [] u.trace := by
    rcases runDag_cases hu with ⟨_, rfl⟩ | ⟨_, msg, rfl⟩ | ⟨u₁, _, _, hu₁, rfl⟩
    · intro pre e post args htr
      simp at htr
    · intro pre e post args htr
      simp at htr
    · refine MergedUnlessYielded.append ?_ (runWaves_merged hu₁ hstart)
      intro pre e post args htr he
      have hmem : e ∈ pre ++ e :: post := by simp
      rw [← htr] at hmem
      cases List.mem_singleton.1 hmem
      cases he
  constructor
  · intro h pre e post args htr he
    exact (hall pre e post args htr he).1 (h pre e post args htr he)
  · intro h pre e post args htr he
    exact (hall pre e post args htr he).2 (h pre e post args htr he)

end Memory

/-! ### A success next to a yield -/

section Examples

/-- `A` and `B` in one wave. -/
def sideBySide : DAG := ⟨[⟨0, "A", [], .pending⟩, ⟨1, "B", [], .pending⟩]⟩

def pair : Graph Nat where
  nodes := ["A", "B"]
  edges _ := none

/-- `A` counts up, `B` asks a question. -/
def halfway : Env Nat where
  newId n := s!"c{n}"
  now n := n
  answer _ _ state _ _ := .returned (.ok { state := state })
  outcome _ task := .ok <| if task.nodeName = "A" then .ok { state := task.state + 1 } else .error
    (.yield (.new "q" "Go on?"))
  order _ := inOrder

/-- The run of the wave. -/
def halved : Run (ops Nat) WaveError (Nat × DAG) World :=
  (exec (memory halfway) (pair.runDag "t" false sideBySide 0 0) World.empty).get (by decide +kernel)

private theorem halved_trace_ne_nil : halved.trace ≠ [] := List.ne_nil_of_length_pos (by decide +kernel)

/-- The output of `A` is in no checkpoint, and `A` is `Done`. -/
theorem runDag_merged_false :
    exec (memory halfway) (pair.runDag "t" false sideBySide 0 0) World.empty = some halved ∧
      ∃ pre e post args, halved.trace = pre ++ e :: post ∧ written e = some args ∧ ¬ Merged 0 args (waves pre) := by
  refine ⟨(Option.some_get _).symm, halved.trace.dropLast, halved.trace.getLast halved_trace_ne_nil, [], _,
    (List.dropLast_concat_getLast halved_trace_ne_nil).symm,
    (Option.some_get (show Option.isSome _ = true by decide +kernel)).symm, ?_⟩
  rintro ⟨snapshot, hdag, hstate, _⟩
  have hsnapshot : ((written (halved.trace.getLast halved_trace_ne_nil)).get (by decide +kernel)).dag =
      some ⟨[⟨0, "A", [], .done⟩, ⟨1, "B", [], .yielded⟩]⟩ := by decide +kernel
  cases hsnapshot.symm.trans hdag
  exact absurd hstate (by decide +kernel)

theorem runDag_merged_halved :
    (∀ pre e post args, halved.trace = pre ++ e :: post → written e = some args → Merged 0 args (waves pre)) ↔
      ∀ pre e post args, halved.trace = pre ++ e :: post → written e = some args → args.status = .yielded →
        mergeAll 0 (waves pre) = mergeAll 0 (waves pre).dropLast :=
  runDag_merged_iff (by decide) (Option.some_get (show Option.isSome _ = true by decide +kernel)).symm

end Examples

end Takeln
