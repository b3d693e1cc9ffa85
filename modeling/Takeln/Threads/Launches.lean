import Mathlib.Data.List.Chain
import Takeln.Threads.Executions
import Takeln.Threads.Soundness

/-!
# What a wave is launched from

The waves of a thread go by its latest checkpoint, over any number of calls: a node is launched only with the state
stored there, with its dependencies marked `Done` in the snapshot, and itself not marked `Done` in this snapshot or an
earlier one (`launches_durable`).  So whatever happens to a call, no node runs on a result that is not stored, and no
node whose result is stored runs again.
-/

namespace Takeln

open Effect Effect.Prog

variable {S : Type}

/-! ### The latest checkpoint -/

/-- What was saved last on a thread. -/
def latestSave (threadId : String) (tr : List (Event (ops S))) : Option (SaveArgs S) := (savesOf threadId tr).getLast?

theorem latestSave_append (threadId : String) (tr tr' : List (Event (ops S))) :
    latestSave threadId (tr ++ tr') = (latestSave threadId tr').or (latestSave threadId tr) := by
  rw [latestSave, savesOf_append, List.getLast?_append]
  rfl

namespace SaveArgs

/-- The nodes that are done in the snapshot of a save. -/
def doneIds (args : SaveArgs S) : List Uuid := args.dag.elim [] DAG.doneIds

/-- The later save loses no node that was done. -/
def Extends (args args' : SaveArgs S) : Prop := args.doneIds ⊆ args'.doneIds

instance : Trans (Extends (S := S)) Extends Extends := ⟨fun h h' => List.Subset.trans h h'⟩

end SaveArgs

/-- The nodes that are done in the latest snapshot; none if nothing was saved. -/
def storedDone (latest : Option (SaveArgs S)) : List Uuid := latest.elim [] SaveArgs.doneIds

/-- The state of the latest checkpoint; at first it is the one the run was given. -/
def storedState (s₀ : S) (latest : Option (SaveArgs S)) : S := latest.elim s₀ SaveArgs.state

section EndsWith

variable [State S] {env : Env S} {w w' : World} {t : String}

/-- A checkpoint holds what was saved, as far as a claim leaves it alone. -/
structure MemoryCheckpoint.Holds (cp : MemoryCheckpoint) (args : SaveArgs S) : Prop where
  state : State.toValue args.state = .ok cp.state
  nextNode : cp.nextNode = args.nextNode
  dag : cp.dag = args.dag
  yieldRequest : cp.yieldRequest = args.yieldRequest

/-- The latest checkpoint of a thread holds what was saved last. -/
def EndsWith (rows : List MemoryCheckpoint) : Option (SaveArgs S) → Prop
  | none => rows = []
  | some args => ∃ cp, rows.getLast? = some cp ∧ cp.Holds args

theorem endsWith_of_memory {latest : Option (SaveArgs S)} (h : EndsWith (w.rows t) latest) {o : Op S} {r : o.Answer}
    (hr : memory env w o = some (r, w')) :
    EndsWith (w'.rows t) ((latestSave t [(⟨o, r⟩ : Event (ops S))]).or latest) := by
  have hstep := threadStep_of_memory hr t
  generalize (⟨o, r⟩ : Event (ops S)) = e at hstep
  cases hstep with
  | idle hrows hsaves =>
    rw [latestSave, savesOf_eq_nil hsaves, List.getLast?_nil, Option.none_or, hrows]
    exact h
  | saved args val ht hval hrows =>
    rw [latestSave, savesOf_eq_singleton ht, List.getLast?_singleton, Option.some_or, hrows]
    exact ⟨_, List.getLast?_concat, hval, rfl, rfl, rfl⟩
  | claimed i hopen hrows =>
    obtain ⟨last, hlast, _⟩ := hopen.2
    have hsaves : savesOf t [(⟨.claimInterrupt t i, .ok .claimed⟩ : Event (ops S))] = [] := rfl
    rw [latestSave, hsaves, List.getLast?_nil, Option.none_or, hrows]
    cases latest with
    | none =>
      rw [EndsWith] at h
      rw [h] at hlast
      cases hlast
    | some args =>
      obtain ⟨cp, hcp, hholds⟩ := h
      cases hcp.symm.trans hlast
      refine ⟨last.claimedFor i, ?_, hholds.state, hholds.nextNode, hholds.dag, hholds.yieldRequest⟩
      simp [claimLast, hcp]

theorem endsWith_of_steps {latest : Option (SaveArgs S)} {tr : List (Event (ops S))} (hs : Steps (memory env) w tr w')
    (h : EndsWith (w.rows t) latest) : EndsWith (w'.rows t) ((latestSave t tr).or latest) := by
  induction hs generalizing latest with
  | nil w => exact h
  | @cons w w₁ w' o r tr hr _ ih =>
    have hcons : latestSave t (⟨o, r⟩ :: tr) = (latestSave t tr).or (latestSave t [(⟨o, r⟩ : Event (ops S))]) := by
      rw [← latestSave_append]
      rfl
    rw [hcons, Option.or_assoc]
    exact ih (endsWith_of_memory h hr)

theorem endsWith_of_empty {tr : List (Event (ops S))} (hs : Steps (memory env) w tr w') (hempty : w.rows t = []) :
    EndsWith (w'.rows t) (latestSave t tr) := by
  have hnone : EndsWith (S := S) (w.rows t) none := hempty
  have hstored := endsWith_of_steps hs hnone
  rwa [Option.or_none] at hstored

end EndsWith

/-! ### Launches -/

/-- A node may be launched after `latest` was stored: it is handed the state stored there, is not done there, and what
it depends on is. -/
structure LaunchedFrom (dag₀ : DAG) (s₀ : S) (latest : Option (SaveArgs S)) (nodeOf : Nat → Option Uuid)
    (t : WaveTask S) : Prop where
  state : t.state = storedState s₀ latest
  node : ∃ id, nodeOf t.idx = some id ∧ id ∉ storedDone latest ∧ ∀ dep, dag₀.Depends id dep → dep ∈ storedDone latest

/-- A chain goes on from its last element. -/
theorem isChain_append_of_getLast {A : Type} {R : A → A → Prop} {l l' : List A} (h : l.IsChain R)
    (h' : (l.getLast?.toList ++ l').IsChain R) : (l ++ l').IsChain R := by
  obtain ⟨-, hlater, hcross⟩ := List.isChain_append.1 h'
  refine List.isChain_append.2 ⟨h, hlater, fun a ha b hb => hcross a ?_ b hb⟩
  rw [Option.mem_def.1 ha]
  rfl

/-- The last of a chain of saves has all nodes done. -/
theorem doneIds_subset_of_isChain {l : List (SaveArgs S)} (h : l.IsChain SaveArgs.Extends) :
    ∀ args ∈ l, args.doneIds ⊆ storedDone l.getLast? := by
  rcases List.eq_nil_or_concat l with rfl | ⟨l, last, rfl⟩
  · exact fun _ hargs => absurd hargs List.not_mem_nil
  rw [List.concat_eq_append] at h ⊢
  rw [List.getLast?_concat]
  intro args hargs
  rcases List.mem_append.1 hargs with hargs | hargs
  · exact (List.pairwise_append.1 h.pairwise).2.2 args hargs last (List.mem_singleton_self last)
  · rw [List.mem_singleton.1 hargs]
    exact List.Subset.refl _

/-- After `latest` was stored, a trace launches nodes from the latest checkpoint only, and its snapshots lose no node
that was done. -/
structure Durable (threadId : String) (dag₀ : DAG) (s₀ : S) (nodeOf : Nat → Option Uuid) (latest : Option (SaveArgs S))
    (tr : List (Event (ops S))) : Prop where
  launched : ∀ l₁ tasks r l₂, tr = l₁ ++ (⟨.joinWave tasks, r⟩ : Event (ops S)) :: l₂ → ∀ t ∈ tasks,
    LaunchedFrom dag₀ s₀ ((latestSave threadId l₁).or latest) nodeOf t
  grows : (latest.toList ++ savesOf threadId tr).IsChain SaveArgs.Extends

namespace Durable

variable {threadId : String} {dag₀ : DAG} {s₀ : S} {nodeOf : Nat → Option Uuid} {latest : Option (SaveArgs S)}
  {tr tr' : List (Event (ops S))}

/-- A trace that launches nothing and saves nothing. -/
theorem idle (hjoins : waves tr = []) (hsaves : savesOf threadId tr = []) :
    Durable threadId dag₀ s₀ nodeOf latest tr where
  launched l₁ tasks r l₂ htr := by
    rw [htr, waves_append] at hjoins
    simp [waves, joinedWave] at hjoins
  grows := by
    rw [hsaves, List.append_nil]
    cases latest <;> simp

theorem append (h : Durable threadId dag₀ s₀ nodeOf latest tr)
    (h' : Durable threadId dag₀ s₀ nodeOf ((latestSave threadId tr).or latest) tr') :
    Durable threadId dag₀ s₀ nodeOf latest (tr ++ tr') where
  launched l₁ tasks r l₂ htr t ht := by
    rcases List.append_eq_append_iff.1 htr with ⟨l, rfl, hl⟩ | ⟨l, rfl, hl⟩
    · have := h'.launched l tasks r l₂ hl t ht
      rwa [latestSave_append, Option.or_assoc]
    · rcases l with _ | ⟨e, l⟩
      · have := h'.launched [] tasks r l₂ (by simpa using hl.symm) t ht
        rw [List.append_nil] at this
        exact this
      · obtain ⟨rfl, rfl⟩ := List.cons.inj hl
        exact h.launched l₁ tasks r l rfl t ht
  grows := by
    have hlast : (latest.toList ++ savesOf threadId tr).getLast? = (latestSave threadId tr).or latest := by
      rw [List.getLast?_append]
      cases latest <;> rfl
    rw [savesOf_append, ← List.append_assoc]
    refine isChain_append_of_getLast h.grows ?_
    rw [hlast]
    exact h'.grows

end Durable

/-! ### Rounds -/

section Rounds

variable [State S] [Merge S] {env : Env S} {g : Graph S} {threadId : String} {cancellation : Bool} {v : Waves S}
  {w w' : World} {dag₀ : DAG} {s₀ : S} {nodeOf : Nat → Option Uuid} {latest : Option (SaveArgs S)}

/-- The loop holds the latest checkpoint, in a DAG with the nodes of `dag₀`. -/
structure Waves.Continues (dag₀ : DAG) (s₀ : S) (nodeOf : Nat → Option Uuid) (latest : Option (SaveArgs S))
    (v : Waves S) : Prop extends v.Sound dag₀ where
  state : v.state = storedState s₀ latest
  done : ∀ id, id ∈ v.dag.doneIds ↔ id ∈ storedDone latest
  idAt : ∀ idx, v.dag.idAt idx = nodeOf idx

omit [State S] [Merge S] in
/-- The wave of a loop that holds the latest checkpoint is launched from it. -/
theorem Waves.Continues.launchedFrom (hv : v.Continues dag₀ s₀ nodeOf latest) :
    ∀ t ∈ v.tasks threadId cancellation, LaunchedFrom dag₀ s₀ latest nodeOf t := by
  intro t ht
  obtain ⟨idx, hready, rfl⟩ := List.mem_map.1 ht
  obtain ⟨n, hn, hpending, hdeps⟩ := DAG.mem_ready.1 hready
  have hmem := List.mem_of_getElem? hn
  have hsame {m : DAGNode} (hm : m ∈ v.dag.nodes) (hid : m.id = n.id) : m = n :=
    List.inj_on_of_nodup_map hv.nodes.nodup hm hmem hid
  refine ⟨hv.state, n.id, ?_, ?_, fun dep hdep => ?_⟩
  · rw [← hv.idAt, DAG.idAt, hn]
    rfl
  · rw [← hv.done]
    intro hdone
    obtain ⟨m, hm, hmdone, hid⟩ := DAG.mem_doneIds_iff.1 hdone
    rw [hsame hm hid, hpending] at hmdone
    cases hmdone
  · rw [← hv.done, ← hv.synced]
    obtain ⟨m, hm, hid, hmdep⟩ := (hv.nodes.depends n.id dep).2 hdep
    rw [hsame hm hid] at hmdep
    exact hdeps dep hmdep

/-- The wave is launched before anything is saved. -/
def launchFirst (tasks₀ : List (WaveTask S)) : Protocol (ops S) Bool where
  allow
    | saved, .joinWave tasks => saved = false ∧ tasks = tasks₀
    | saved, _ => saved = false
  next saved o _ := match o with
    | .saveStateBound _ => true
    | _ => saved

omit [State S] [Merge S] in
theorem writes_of_launchFirst {tasks₀ : List (WaveTask S)} {saved : Bool} {tr : List (Event (ops S))}
    (h : (launchFirst tasks₀).after saved tr = false) : saved = false ∧ writes tr = [] := by
  induction tr generalizing saved with
  | nil => exact ⟨h, rfl⟩
  | cons e tr ih =>
    obtain ⟨o, r⟩ := e
    obtain ⟨hsaved, hwrites⟩ := ih h
    cases o with
    | saveStateBound args => cases hsaved
    | _ => exact ⟨hsaved, hwrites⟩

theorem waveBody_launchFirst (v : Waves S) :
    Follows (launchFirst (v.tasks threadId cancellation)) (g.waveBody threadId cancellation v) false
      fun _ _ => True := by
  have saves (args : SaveArgs S) (flow : String → WaveFlow S) (dag : DAG) :
      Follows (launchFirst (v.tasks threadId cancellation))
        (((g.saveChecked args).mapError (·, dag)).bind fun id => .ret (flow id)) false fun _ _ => True := by
    refine follows_waveSave dag (fun _ => trivial) ⟨rfl, fun r => ?_⟩
    cases r.bind checkpointId <;> trivial
  unfold Graph.waveBody
  dsimp only
  split
  · split <;> trivial
  split
  · exact saves _ (fun _ => .stop v) _
  unfold Graph.launch
  simp only [DAG.stepType_setStatuses]
  split
  · trivial
  refine ⟨⟨rfl, rfl⟩, fun r => ?_⟩
  change Follows _ ((g.joinLoop r _).bind _) false _
  rw [follows_bind]
  refine follows_joinLoop ⟨⟨rfl, fun _ => rfl⟩, fun _ _ _ => ⟨rfl, rfl⟩, fun _ _ _ _ _ => ⟨rfl, rfl⟩,
    fun _ => ⟨rfl, rfl⟩⟩ ?_
  cases g.joinAll r _ with
  | error e => trivial
  | ok j =>
    exact follows_afterJoin (fun _ => trivial)
      (fun _ _ _ => ⟨fun _ => trivial, rfl, fun r => by cases r.bind checkpointId <;> trivial⟩)
      (fun _ _ _ _ => trivial)
      fun _ _ _ _ => ⟨fun _ => trivial, rfl, fun r => by cases r.bind checkpointId <;> trivial⟩

/-- Where a round launches its wave it has saved nothing. -/
theorem launch_of_reaches {tasks : List (WaveTask S)} {r : List (JoinResult S)} {l₁ l₂ : List (Event (ops S))}
    {p : Prog (ops S) WaveError (WaveFlow S)}
    (hr : Reaches (memory env) (g.waveBody threadId cancellation v) w
      (l₁ ++ (⟨.joinWave tasks, r⟩ : Event (ops S)) :: l₂) p w') :
    tasks = v.tasks threadId cancellation ∧ writes l₁ = [] := by
  obtain ⟨hfirst, htasks⟩ := (waveBody_launchFirst v).allow_of_reaches hr
  exact ⟨htasks, (writes_of_launchFirst hfirst).2⟩

omit [State S] [Merge S] in
/-- Joining a wave loses no node that was done. -/
theorem doneIds_of_joining {n : Nat} {j : Joining S} (h : g.joining env threadId cancellation v n = .ok j)
    (hv : v.Synced) : v.dag.doneIds ⊆ j.dag.doneIds := by
  intro id hid
  rw [← mem_completed_of_joining h hv, (joined_of_joining h).1, joined, Joining.mem_completed_addAll]
  exact Or.inl ((hv id).2 hid)

omit [State S] [Merge S] in
theorem savesOf_of_writes_nil {tr : List (Event (ops S))} (h : writes tr = []) : savesOf threadId tr = [] := by
  rw [savesOf, h]
  rfl

omit [Merge S] in
theorem Saves.savesOf {E α : Type} {names : List String} {args : SaveArgs S} {val : Value} {id : String}
    {u : Run (ops S) E α World} (h : Saves env w names args val id u) (ht : args.threadId = threadId) :
    savesOf threadId u.trace = [args] := by
  rw [Takeln.savesOf, h.writes, List.filter_singleton, decide_eq_true ht]
  rfl

/-- A round saves what extends the latest checkpoint, and goes on from there. -/
theorem WaveRound.continues {u : Run (ops S) WaveError (WaveFlow S) World}
    (h : WaveRound env g threadId cancellation v w u) (hv : v.Continues dag₀ s₀ nodeOf latest) :
    (latest.toList ++ savesOf threadId u.trace).IsChain SaveArgs.Extends ∧ ∀ v', u.result = .ok (.next v') →
      v'.Continues dag₀ s₀ nodeOf ((latestSave threadId u.trace).or latest) := by
  have hnext := (h.sound hv.toSound).2
  have quiet {x : Except WaveError (WaveFlow S)} (hq : Quiet w [] u) (hres : u.result = x)
      (hx : ∀ v', x ≠ .ok (.next v')) :
      (latest.toList ++ savesOf threadId u.trace).IsChain SaveArgs.Extends ∧ ∀ v', u.result = .ok (.next v') →
        v'.Continues dag₀ s₀ nodeOf ((latestSave threadId u.trace).or latest) := by
    rw [savesOf_of_writes_nil hq.writes, hres, List.append_nil]
    refine ⟨by cases latest <;> simp, fun v' hnext => absurd hnext (hx v')⟩
  have saved {args : SaveArgs S} {dag : DAG} (hsaves : savesOf threadId u.trace = [args]) (hdag : args.dag = some dag)
      (hdone : v.dag.doneIds ⊆ dag.doneIds) :
      (latest.toList ++ savesOf threadId u.trace).IsChain SaveArgs.Extends := by
    have hextends : storedDone latest ⊆ args.doneIds := fun id hid => by
      rw [SaveArgs.doneIds, hdag]
      exact hdone ((hv.done id).2 hid)
    rw [hsaves]
    cases latest with
    | none => simp
    | some args₀ => exact List.isChain_pair.2 hextends
  cases h with
  | ended _ _ hres hq => exact quiet hq hres nofun
  | deadlocked _ _ hres hq => exact quiet hq hres nofun
  | gated val id _ _ _ hres hs =>
    refine ⟨saved (hs.savesOf rfl) rfl (List.Subset.refl _), fun v' hnext => ?_⟩
    cases hres.symm.trans hnext
  | gateFailed e _ _ hres hq => exact quiet hq hres nofun
  | unregistered idx _ _ hres hq => exact quiet hq hres nofun
  | brokenOff e _ _ hres hq => exact quiet hq hres nofun
  | failed j _ _ _ hres hq => exact quiet hq hres nofun
  | yielded j val id _ hjoin hfailed _ _ hres hs =>
    refine ⟨saved (hs.savesOf rfl) rfl (doneIds_of_joining hjoin hv.synced), fun v' hnext => ?_⟩
    cases hres.symm.trans hnext
  | yieldFailed j e _ _ _ _ _ hres hq => exact quiet hq hres nofun
  | completed j val id _ hjoin hfailed _ _ _ hres hs =>
    refine ⟨saved (hs.savesOf rfl) rfl (doneIds_of_joining hjoin hv.synced), fun v' hres' => ?_⟩
    have hflow := hres.symm.trans hres'
    split at hflow
    · cases hflow
    · cases hflow
      have hsaves : savesOf threadId u.trace = [_] := hs.savesOf rfl
      rw [latestSave, hsaves, List.getLast?_singleton, Option.some_or]
      refine ⟨hnext _ hres', rfl, fun id => Iff.rfl, fun idx => ?_⟩
      rw [← hv.idAt]
      exact DAG.idAt_eq_of_shape (shape_of_joining hjoin) idx
  | completeFailed j e _ _ _ _ _ hres hq => exact quiet hq hres nofun

/-- A round that is stopped anywhere. -/
theorem waveBody_durable {tr : List (Event (ops S))} {p : Prog (ops S) WaveError (WaveFlow S)}
    (hr : Reaches (memory env) (g.waveBody threadId cancellation v) w tr p w')
    (hv : v.Continues dag₀ s₀ nodeOf latest) : Durable threadId dag₀ s₀ nodeOf latest tr where
  launched l₁ tasks r l₂ htr t ht := by
    subst htr
    obtain ⟨rfl, hwrites⟩ := launch_of_reaches hr
    rw [latestSave, savesOf_of_writes_nil hwrites]
    exact hv.launchedFrom t ht
  grows := by
    by_cases hwrites : writes tr = []
    · rw [savesOf_of_writes_nil hwrites, List.append_nil]
      cases latest <;> simp
    · have hlast := endsInWrite_of_saveLast (waveBody_saveLast v) hr hwrites
      obtain ⟨x, hx⟩ := exec_of_saveLast (waveBody_saveLast v) hr hlast
      exact ((waveRound_of_exec hx).continues hv).1

/-- A loop that is stopped anywhere. -/
theorem runWaves_durable {k : Nat} {tr : List (Event (ops S))} {p : Prog (ops S) WaveError (S × DAG)}
    (hr : Reaches (memory env) (g.runWaves threadId cancellation k v) w tr p w')
    (hv : v.Continues dag₀ s₀ nodeOf latest) : Durable threadId dag₀ s₀ nodeOf latest tr := by
  induction k generalizing v w tr p latest with
  | zero =>
    cases hr
    exact .idle rfl rfl
  | succ k ih =>
    unfold Graph.runWaves at hr
    rcases hr.bind_cases with ⟨p', hbody⟩ | ⟨flow, w₁, t₁, t₂, hbody, hrest, rfl⟩
    · exact waveBody_durable hbody hv
    · refine (waveBody_durable (reaches_of_exec hbody) hv).append ?_
      cases flow with
      | next v' => exact ih hrest (((waveRound_of_exec hbody).continues hv).2 v' rfl)
      | yielded v' =>
        cases hrest
        exact .idle rfl rfl
      | stop v' =>
        -- only the end of the graph is broadcast
        cases hrest with
        | here => exact .idle rfl rfl
        | step hr₁ hrest =>
          cases hrest with
          | here => exact .idle rfl rfl
          | step hr₂ hrest =>
            cases hrest
            exact .idle rfl rfl

end Rounds

/-! ### Calls -/

section Calls

variable [State S] [Merge S] {env : Env S} {threadId : String} {w₀ w w' : World} {dag₀ : DAG} {s₀ : S}
  {latest : Option (SaveArgs S)}

/-- A loop on a DAG that holds the latest checkpoint. -/
theorem runDag_durable {g : Graph S} {cancellation : Bool} {dag : DAG} {state : S} {depth : Nat}
    {tr : List (Event (ops S))} {p : Prog (ops S) WaveError (S × DAG)} {nodeOf : Nat → Option Uuid}
    (hr : Reaches (memory env) (g.runDag threadId cancellation dag state depth) w tr p w')
    (hdag : ∀ head, (Waves.start dag state head).Continues dag₀ s₀ nodeOf latest) :
    Durable threadId dag₀ s₀ nodeOf latest tr := by
  unfold Graph.runDag at hr
  dsimp only at hr
  split at hr
  · cases hr
    exact .idle rfl rfl
  split at hr
  · cases hr
    exact .idle rfl rfl
  cases hr with
  | here => exact .idle rfl rfl
  | @step _ r _ _ _ _ tr _ hr hrest =>
    cases hr
    have hwaves : Reaches (memory env)
        (g.runWaves threadId cancellation (dag.nodes.length + 1) (.start dag state none)) _ _ _ _ := hrest
    have hhead : Durable threadId dag₀ s₀ nodeOf latest [(⟨.currentHead threadId, .ok none⟩ : Event (ops S))] :=
      .idle rfl rfl
    exact hhead.append (runWaves_durable hwaves (hdag none))

theorem doneIds_restoreStatuses {dag snapshot : DAG} (h : dag.SameNodes snapshot)
    (hnodup : (snapshot.nodes.map DAGNode.id).Nodup) (id : Uuid) :
    id ∈ (dag.restoreStatuses snapshot).doneIds ↔ id ∈ snapshot.doneIds := by
  rw [DAG.mem_doneIds_iff, DAG.mem_doneIds_iff]
  constructor
  · rintro ⟨n, hn, hdone, rfl⟩
    obtain ⟨m, _, m', hm', hid, rfl⟩ := (DAG.mem_restoreStatuses h hnodup).1 hn
    exact ⟨m', hm', hdone, hid⟩
  · rintro ⟨m', hm', hdone, rfl⟩
    obtain ⟨m, hm, hid⟩ := List.mem_map.1 ((h.ids m'.id).2 (List.mem_map_of_mem hm'))
    exact ⟨_, (DAG.mem_restoreStatuses h hnodup).2 ⟨m, hm, m', hm', hid.symm, rfl⟩, hdone, hid⟩

/-- A resumed DAG holds the latest checkpoint. -/
theorem resumeDag_durable [RoundTrip S] {g : Graph S} {cancellation : Bool} {dag : DAG} {depth : Nat}
    {tr : List (Event (ops S))} {p : Prog (ops S) WaveError (Option S × DAG)} {nodeOf : Nat → Option Uuid}
    (hr : Reaches (memory env) (g.resumeDag threadId cancellation dag depth) w tr p w') (hnodes : dag.SameNodes dag₀)
    (hnodeOf : ∀ idx, dag.idAt idx = nodeOf idx) (hstored : EndsWith (w.rows threadId) latest)
    (hsound : ∀ args ∈ latest, SoundSave dag₀ args) : Durable threadId dag₀ s₀ nodeOf latest tr := by
  cases hr with
  | here => exact .idle rfl rfl
  | step hr hrest =>
    obtain ⟨hload, rfl⟩ := Prod.mk.inj (Option.some.inj hr)
    subst hload
    have hread : Durable threadId dag₀ s₀ nodeOf latest
        [(⟨.loadState threadId, w.store.loadState threadId⟩ : Event (ops S))] := .idle rfl rfl
    refine hread.append ?_
    have hlatest : (latestSave threadId [(⟨.loadState threadId, w.store.loadState threadId⟩ : Event (ops S))]).or
      latest = latest := rfl
    rw [hlatest]
    cases hloaded : w.store.loadState (S := S) threadId with
    | error e =>
      rw [hloaded] at hrest
      cases hrest
      exact .idle rfl rfl
    | ok found =>
      rw [hloaded] at hrest
      rcases found with _ | ⟨state, info, _ | saved⟩
      · cases hrest
        exact .idle rfl rfl
      · cases hrest
        exact .idle rfl rfl
      · obtain ⟨last, hlast, hrow⟩ := MemoryStore.loadState_eq_ok hloaded
        obtain ⟨hstate, -, hdag⟩ := MemoryCheckpoint.load_eq_ok_iff.1 hrow
        cases latest with
        | none =>
          have hempty : w.rows threadId = [] := hstored
          have hlast' : (w.rows threadId).getLast? = some last := hlast
          rw [hempty] at hlast'
          cases hlast'
        | some args =>
          -- the row that is loaded is the latest save
          obtain ⟨cp, hcp, hval, -, hcpdag, -⟩ := hstored
          cases hcp.symm.trans hlast
          obtain ⟨snapshot, hsnapshot, hsaved⟩ := hsound args rfl
          cases (hcpdag.symm.trans hdag.symm).symm.trans hsnapshot
          cases hstate.symm.trans (RoundTrip.fromValue_toValue hval)
          have hsame₀ := hnodes.trans_symm hsaved.1
          have hrestored : (dag.restoreStatuses saved).Sound := hsaved.2.restoreStatuses hsame₀ hsaved.1.nodup
          have hsame : (dag.restoreStatuses saved).SameNodes dag₀ := hnodes.of_shape (DAG.shape_restoreStatuses saved)
          have hstart (head : Option String) : (Waves.start (dag.restoreStatuses saved) args.state head).Continues
              dag₀ s₀ nodeOf (some args) := by
            refine ⟨⟨hsame, hrestored, Waves.synced_start _ _ _⟩, rfl, fun id => ?_, fun idx => ?_⟩
            · show _ ↔ id ∈ args.doneIds
              rw [SaveArgs.doneIds, hsnapshot]
              exact doneIds_restoreStatuses hsame₀ hsaved.1.nodup id
            · exact (DAG.idAt_eq_of_shape (DAG.shape_restoreStatuses saved) idx).trans (hnodeOf idx)
          change Reaches _ (ite _ _ _) _ _ _ _ at hrest
          split at hrest
          · cases hrest
            exact .idle rfl rfl
          -- a sound snapshot has no `Running` node to recover
          · simp only [hrestored.recover, ite_self] at hrest
            rcases hrest.bind_cases with ⟨p', hdag⟩ | ⟨⟨final, dag'⟩, w₁, t₁, t₂, hdag, hret, rfl⟩
            · exact runDag_durable hdag hstart
            · cases hret
              rw [List.append_nil]
              exact runDag_durable (reaches_of_exec hdag) hstart

end Calls

/-! ### Sessions -/

section Sessions

variable [External] [State S] [RoundTrip S] [Merge S] {env : Env S} {threadId : String} {w₀ w w' : World} {dag₀ : DAG}
  {s₀ : S} {latest : Option (SaveArgs S)}

/-- A run of `dag₀` in the state `s₀`. -/
def Call.Starts (dag₀ : DAG) (s₀ : S) (call : Call S) : Prop :=
  ∃ g cancellation depth, call = .runDag g cancellation dag₀ s₀ depth

/-- A resume with a DAG that has the nodes of `dag₀`. -/
def Call.GoesOn (dag₀ : DAG) (call : Call S) : Prop :=
  ∃ g cancellation dag depth, call = .resumeDag g cancellation dag depth ∧ dag.SameNodes dag₀

omit [RoundTrip S] in
theorem Call.Starts.durable {call : Call S} (hcall : call.Starts dag₀ s₀) (hpending : dag₀.AllPending)
    (hids : (dag₀.nodes.map DAGNode.id).Nodup) {tr : List (Event (ops S))} {p : Prog (ops S) TakelnError Unit}
    (hr : Reaches (memory env) (call.prog threadId) w tr p w') :
    Durable threadId dag₀ s₀ call.dagNode none tr := by
  obtain ⟨g, cancellation, depth, rfl⟩ := hcall
  have hstart (head : Option String) : (Waves.start dag₀ s₀ head).Continues dag₀ s₀
      (Call.dagNode (.runDag g cancellation dag₀ s₀ depth)) none := by
    refine ⟨⟨⟨hids, fun _ => Iff.rfl, fun _ _ => Iff.rfl⟩, hpending.sound, Waves.synced_start _ _ _⟩, rfl, fun id => ?_,
      fun idx => rfl⟩
    refine iff_of_false (fun hdone => ?_) List.not_mem_nil
    obtain ⟨n, hn, hdone, -⟩ := DAG.mem_doneIds_iff.1 hdone
    rw [hpending n hn] at hdone
    cases hdone
  rcases hr.bind_cases with ⟨p', hrun⟩ | ⟨x, w₁, t₁, t₂, hrun, hret, rfl⟩
  · obtain ⟨p'', hdag⟩ := hrun.mapError_cases
    exact runDag_durable hdag hstart
  · cases hret
    rw [List.append_nil]
    obtain ⟨p'', hdag⟩ := (reaches_of_exec hrun).mapError_cases
    exact runDag_durable hdag hstart

theorem Call.GoesOn.durable {call : Call S} (hcall : call.GoesOn dag₀) {tr : List (Event (ops S))}
    {p : Prog (ops S) TakelnError Unit} (hr : Reaches (memory env) (call.prog threadId) w tr p w')
    (hstored : EndsWith (w.rows threadId) latest) (hsound : ∀ args ∈ latest, SoundSave dag₀ args) :
    Durable threadId dag₀ s₀ call.dagNode latest tr := by
  obtain ⟨g, cancellation, dag, depth, rfl, hnodes⟩ := hcall
  rcases hr.bind_cases with ⟨p', hrun⟩ | ⟨x, w₁, t₁, t₂, hrun, hret, rfl⟩
  · obtain ⟨p'', hdag⟩ := hrun.mapError_cases
    exact resumeDag_durable hdag hnodes (fun _ => rfl) hstored hsound
  · cases hret
    rw [List.append_nil]
    obtain ⟨p'', hdag⟩ := (reaches_of_exec hrun).mapError_cases
    exact resumeDag_durable hdag hnodes (fun _ => rfl) hstored hsound

/-- The calls are durable, one after another. -/
theorem session_durable (hpending : dag₀.AllPending) (hids : (dag₀.nodes.map DAGNode.id).Nodup)
    (hempty : w₀.rows threadId = []) {calls : List (Call S × List (Event (ops S)))}
    (hS : Session (memory env) (Call.prog threadId) w₀ calls w) (hfirst : ∀ c ∈ calls.head?, c.1.Starts dag₀ s₀)
    (hlater : ∀ c ∈ calls.tail, c.1.GoesOn dag₀) :
    (savesOf threadId (performed calls)).IsChain SaveArgs.Extends ∧
      ∀ earlier call tr later, calls = earlier ++ (call, tr) :: later →
        Durable threadId dag₀ s₀ call.dagNode (latestSave threadId (performed earlier)) tr := by
  induction hS with
  | start => exact ⟨List.isChain_nil, fun earlier call tr later h => absurd h (by simp)⟩
  | @call calls w w' hprev c tr p hr ih =>
    have hfirst' : ∀ c' ∈ calls.head?, c'.1.Starts dag₀ s₀ := by
      cases calls with
      | nil => exact fun _ h => by cases h
      | cons => exact hfirst
    have hlater' : ∀ c' ∈ calls.tail, c'.1.GoesOn dag₀ := by
      cases calls with
      | nil => exact fun _ h => by cases h
      | cons => exact fun c' hc' => hlater c' (List.mem_append_left _ hc')
    obtain ⟨hchain, hprevious⟩ := ih hfirst' hlater'
    have hdurable : Durable threadId dag₀ s₀ c.dagNode (latestSave threadId (performed calls)) tr := by
      rcases calls with _ | ⟨c₀, calls⟩
      · exact (hfirst (c, tr) rfl).durable hpending hids hr
      · have hdrives : ∀ c' ∈ c₀ :: calls, Drives dag₀ c'.1 := by
          intro c' hc'
          rcases List.mem_cons.1 hc' with rfl | hc'
          · obtain ⟨g, cancellation, depth, hcall⟩ := hfirst' c' rfl
            exact hcall ▸ .run g cancellation dag₀ s₀ depth hpending ⟨hids, fun _ => Iff.rfl, fun _ _ => Iff.rfl⟩
          · obtain ⟨g, cancellation, dag, depth, hcall, hnodes⟩ := hlater' c' hc'
            exact hcall ▸ .resume g cancellation dag depth hnodes
        refine (hlater (c, tr) (by simp)).durable hr ?_ fun args hargs => ?_
        · exact endsWith_of_empty hprev.steps hempty
        · have hmem := List.mem_of_getLast? hargs
          exact session_sound hdrives hempty hprev args (List.mem_of_mem_filter hmem)
    refine ⟨?_, fun earlier call tr' later hcalls => ?_⟩
    · rw [performed_append, savesOf_append, performed_cons, performed_nil, List.append_nil]
      exact isChain_append_of_getLast hchain hdurable.grows
    · rcases eq_append_cons_of_concat hcalls with ⟨rfl, h, rfl⟩ | ⟨l, rfl, hprev'⟩
      · cases h
        exact hdurable
      · exact hprevious earlier call tr' l hprev'

/-- Over a run of a fresh DAG and any resumes of it, with any ends of the nodes and every call stopped anywhere: a node
is launched only with the state of the latest checkpoint of the thread, while all it depends on is `Done` in the
snapshot there, and it is not `Done` in any snapshot that was saved before; and no later snapshot loses a node that was
`Done`. -/
theorem launches_durable (hpending : dag₀.AllPending) (hids : (dag₀.nodes.map DAGNode.id).Nodup)
    (hempty : w₀.rows threadId = []) {g : Graph S} {cancellation : Bool} {depth : Nat} {tr : List (Event (ops S))}
    {resumes : List (Call S × List (Event (ops S)))} (hresumes : ∀ c ∈ resumes, c.1.GoesOn dag₀)
    (hS : Session (memory env) (Call.prog threadId) w₀ ((.runDag g cancellation dag₀ s₀ depth, tr) :: resumes) w) :
    (∀ earlier call before tasks r after later,
      (Call.runDag g cancellation dag₀ s₀ depth, tr) :: resumes =
        earlier ++ (call, before ++ (⟨.joinWave tasks, r⟩ : Event (ops S)) :: after) :: later →
      ∀ t ∈ tasks, ∃ id, call.dagNode t.idx = some id ∧
        t.state = storedState s₀ (latestSave threadId (performed earlier ++ before)) ∧
        (∀ dep, dag₀.Depends id dep → dep ∈ storedDone (latestSave threadId (performed earlier ++ before))) ∧
        ∀ args ∈ savesOf threadId (performed earlier ++ before), id ∉ args.doneIds) ∧
      (savesOf threadId (performed ((Call.runDag g cancellation dag₀ s₀ depth, tr) :: resumes))).Pairwise
        SaveArgs.Extends := by
  have hstarts : (Call.runDag g cancellation dag₀ s₀ depth).Starts dag₀ s₀ := ⟨g, cancellation, depth, rfl⟩
  obtain ⟨hchain, hdurable⟩ := session_durable hpending hids hempty hS (fun c hc => by cases hc; exact hstarts) hresumes
  refine ⟨fun earlier call before tasks r after later hcalls t ht => ?_, hchain.pairwise⟩
  obtain ⟨hstate, id, hid, hnew, hdeps⟩ :=
    (hdurable earlier call _ later hcalls).launched before tasks r after rfl t ht
  rw [← latestSave_append] at hstate hnew hdeps
  refine ⟨id, hid, hstate, hdeps, fun args hargs hdone => hnew (doneIds_subset_of_isChain ?_ args hargs hdone)⟩
  rw [hcalls, performed_append, performed_cons, List.append_assoc, ← List.append_assoc, savesOf_append] at hchain
  exact hchain.left_of_append

end Sessions

/-! ### A paused DAG -/

section Examples

attribute [local instance] shortRuns

/-- A run that stops at the gate after `A`, and a resume that launches `B`. -/
def bothTurns : List (Call Nat × List (Event (ops Nat))) :=
  [(.runDag { stages with interruptAfter := ["A"] } false inARow 0 0, gatedTurn.1),
    (.resumeDag stages false turned 0, resumedTurn.1)]

theorem launches_durable_bothTurns :
    ((waves (performed bothTurns)).map fun wave => wave.tasks.map WaveTask.nodeName) = [["A"], ["B"]] ∧
      (∀ earlier call before tasks r after later,
        bothTurns = earlier ++ (call, before ++ (⟨.joinWave tasks, r⟩ : Event (ops Nat)) :: after) :: later →
        ∀ t ∈ tasks, ∃ id, call.dagNode t.idx = some id ∧
          t.state = storedState 0 (latestSave "t" (performed earlier ++ before)) ∧
          (∀ dep, inARow.Depends id dep → dep ∈ storedDone (latestSave "t" (performed earlier ++ before))) ∧
          ∀ args ∈ savesOf "t" (performed earlier ++ before), id ∉ args.doneIds) ∧
      (savesOf "t" (performed bothTurns)).Pairwise SaveArgs.Extends := by
  have hS : Session (memory pausing) (Call.prog "t") World.empty bothTurns resumedTurn.2.2 :=
    (Session.start.call _ (reaches_advance _ _ _ _)).call _ (reaches_advance _ _ _ _)
  refine ⟨by decide +kernel, launches_durable (by decide) (by decide) rfl (fun c hc => ?_) hS⟩
  cases List.mem_singleton.1 hc
  exact ⟨stages, false, turned, 0, rfl, turned_sameNodes⟩

end Examples

end Takeln
