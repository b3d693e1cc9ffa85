import Takeln.Concurrent.Calls
import Takeln.Effect.Session
import Takeln.Threads.Snapshots
import Takeln.Waves.Path

/-!
# Sound snapshots

`run_dag` writes its checkpoints between two waves, when every node it launched has a result, and a wave with a failed
node is reported instead of saved.  So a snapshot holds neither `Running` nor `Failed` nodes, and its `Done` nodes are
closed under their dependencies (`DAG.Sound`).  Restored into a DAG with the same dependencies it makes that one sound
again, so that every snapshot of a thread is sound, over any number of calls (`snapshots_sound`).
-/

namespace Takeln

open Effect Effect.Prog

variable {S : Type}

/-! ### Sound DAGs -/

namespace DAG

/-- No node is `Running` or `Failed`, and what a `Done` node depends on is `Done`. -/
structure Sound (dag : DAG) : Prop where
  settled : ∀ n ∈ dag.nodes, n.status ≠ .running ∧ n.status ≠ .failed
  closed : ∀ n ∈ dag.nodes, n.status = .done → ∀ dep ∈ n.dependsOn, dep ∈ dag.doneIds

/-- The node with the id depends on another one. -/
def Depends (dag : DAG) (id dep : Uuid) : Prop := ∃ n ∈ dag.nodes, n.id = id ∧ dep ∈ n.dependsOn

/-- The same distinct ids, with the same dependencies. -/
structure SameNodes (dag dag' : DAG) : Prop where
  nodup : (dag.nodes.map DAGNode.id).Nodup
  ids : ∀ id, id ∈ dag.nodes.map DAGNode.id ↔ id ∈ dag'.nodes.map DAGNode.id
  depends : ∀ id dep, dag.Depends id dep ↔ dag'.Depends id dep

variable {dag dag' dag₀ : DAG}

theorem AllPending.sound (h : dag.AllPending) : dag.Sound := by
  constructor
  · intro n hn
    rw [h n hn]
    exact ⟨nofun, nofun⟩
  · intro n hn hdone
    rw [h n hn] at hdone
    cases hdone

theorem depends_iff {id dep : Uuid} :
    dag.Depends id dep ↔ ∃ x ∈ dag.shape, x.1 = id ∧ dep ∈ x.2.2 := by
  simp [Depends, shape]

/-- Statuses do not matter. -/
theorem SameNodes.of_shape (h : dag.SameNodes dag₀) (hshape : dag'.shape = dag.shape) : dag'.SameNodes dag₀ := by
  have hids := map_id_eq_of_shape hshape
  refine ⟨hids ▸ h.nodup, fun id => ?_, fun id dep => ?_⟩
  · rw [hids]
    exact h.ids id
  · rw [depends_iff, hshape, ← depends_iff]
    exact h.depends id dep

theorem SameNodes.trans_symm (h : dag.SameNodes dag₀) (h' : dag'.SameNodes dag₀) : dag.SameNodes dag' :=
  ⟨h.nodup, fun id => (h.ids id).trans (h'.ids id).symm, fun id dep =>
    (h.depends id dep).trans (h'.depends id dep).symm⟩

theorem exists_dependsOn_of_shape (h : dag.shape = dag'.shape) {k : Nat} {n : DAGNode} (hn : dag.nodes[k]? = some n) :
    ∃ n', dag'.nodes[k]? = some n' ∧ n'.dependsOn = n.dependsOn := by
  have hk := congrArg (fun l => l[k]?) h
  simp only [shape, List.getElem?_map, hn, Option.map_some] at hk
  obtain ⟨n', hn', heq⟩ := Option.map_eq_some_iff.1 hk.symm
  exact ⟨n', hn', congrArg (fun x => x.2.2) heq⟩

theorem mem_doneIds_iff {id : Uuid} : id ∈ dag.doneIds ↔ ∃ n ∈ dag.nodes, n.status = .done ∧ n.id = id := by
  simp [doneIds, and_assoc]

/-- Restoring a snapshot of the same nodes gives each node the status it has there. -/
theorem mem_restoreStatuses {snapshot : DAG} (h : dag.SameNodes snapshot)
    (hnodup : (snapshot.nodes.map DAGNode.id).Nodup) {n : DAGNode} :
    n ∈ (dag.restoreStatuses snapshot).nodes ↔
      ∃ m ∈ dag.nodes, ∃ m' ∈ snapshot.nodes, m'.id = m.id ∧ n = { m with status := m'.status } := by
  have hstatus {m : DAGNode} (hm : m ∈ dag.nodes) : ∃ m' ∈ snapshot.nodes, m'.id = m.id ∧
      snapshot.statusOf m.id = some m'.status := by
    obtain ⟨m', hm', hid⟩ := List.mem_map.1 ((h.ids m.id).1 (List.mem_map_of_mem hm))
    exact ⟨m', hm', hid, hid ▸ statusOf_id hnodup hm'⟩
  unfold restoreStatuses
  rw [List.mem_map]
  constructor
  · rintro ⟨m, hm, rfl⟩
    obtain ⟨m', hm', hid, hof⟩ := hstatus hm
    exact ⟨m, hm, m', hm', hid, by rw [hof]⟩
  · rintro ⟨m, hm, m', hm', hid, rfl⟩
    refine ⟨m, hm, ?_⟩
    rw [← hid, statusOf_id hnodup hm']

/-- Restoring a sound snapshot of the same nodes makes a DAG sound. -/
theorem Sound.restoreStatuses {snapshot : DAG} (hsound : snapshot.Sound) (h : dag.SameNodes snapshot)
    (hnodup : (snapshot.nodes.map DAGNode.id).Nodup) : (dag.restoreStatuses snapshot).Sound := by
  constructor
  · intro n hn
    obtain ⟨m, _, m', hm', _, rfl⟩ := (mem_restoreStatuses h hnodup).1 hn
    exact hsound.settled m' hm'
  · intro n hn hdone dep hdep
    obtain ⟨m, hm, m', hm', hid, rfl⟩ := (mem_restoreStatuses h hnodup).1 hn
    -- the dependency is one of the snapshot too, and `Done` there
    obtain ⟨k, hk, hkid, hkdep⟩ := (h.depends m.id dep).1 ⟨m, hm, rfl, hdep⟩
    have heq : k = m' := List.inj_on_of_nodup_map hnodup hk hm' (hkid.trans hid.symm)
    subst heq
    obtain ⟨d', hd', hd'done, rfl⟩ := mem_doneIds_iff.1 (hsound.closed k hk hdone dep hkdep)
    obtain ⟨d, hd, hdid⟩ := List.mem_map.1 ((h.ids d'.id).2 (List.mem_map_of_mem hd'))
    refine mem_doneIds_iff.2 ⟨{ d with status := d'.status }, ?_, hd'done, hdid⟩
    exact (mem_restoreStatuses h hnodup).2 ⟨d, hd, d', hd', hdid.symm, rfl⟩

/-- There is nothing to recover in a sound DAG. -/
theorem Sound.recover (h : dag.Sound) (policy : CrashRecoveryPolicy) : dag.recover policy = dag := by
  obtain ⟨nodes⟩ := dag
  refine congrArg DAG.mk ?_
  conv_rhs => rw [← List.map_id nodes]
  exact List.map_congr_left fun n hn => if_neg (h.settled n hn).1

end DAG

/-! ### Rounds -/

section Rounds

variable {env : Env S} {g : Graph S} {threadId : String} {cancellation : Bool} {v : Waves S} {w w' : World} {dag₀ : DAG}

/-- A wave in which no node failed keeps a DAG sound. -/
theorem sound_of_joining {n : Nat} {j : Joining S} (h : g.joining env threadId cancellation v n = .ok j)
    (hfailed : j.waveFailed = []) (hv : v.dag.Sound) (hsynced : v.Synced) : j.dag.Sound := by
  have hshape : j.dag.shape = v.dag.shape := shape_of_joining h
  have hcompleted := mem_completed_of_joining h hsynced
  obtain ⟨hj, hperm⟩ := joined_of_joining h
  rw [hj, joined, Joining.waveFailed_addAll] at hfailed
  constructor
  · refine (DAG.forall_status_iff (p := fun s => s ≠ .running ∧ s ≠ .failed)).2 fun k status hk => ?_
    rw [hj] at hk
    rcases statusAt_joined hperm k with ⟨x, hx, hstatus⟩ | ⟨_, hstatus⟩
    · cases hk.symm.trans hstatus
      refine ⟨?_, hfailed.2 k x hx⟩
      rcases x with e | out
      · cases e <;> simp [resultStatus]
      · simp [resultStatus]
    · exact (DAG.forall_status_iff (p := fun s => s ≠ .running ∧ s ≠ .failed)).1 hv.settled k status
        (hstatus.symm.trans hk)
  · intro m hm hdone dep hdep
    -- what was `Done` or ready before the wave has its dependencies among the completed nodes
    have hdep₀ : dep ∈ v.completed := by
      obtain ⟨k, hk⟩ := List.mem_iff_getElem?.1 hm
      obtain ⟨m₀, hk₀, hdeps⟩ := DAG.exists_dependsOn_of_shape hshape hk
      rw [← hdeps] at hdep
      have hstatus : j.dag.statusAt k = some .done := by rw [DAG.statusAt, hk, Option.map_some, hdone]
      rw [hj] at hstatus
      rcases statusAt_joined hperm k with ⟨x, hx, _⟩ | ⟨_, hkept⟩
      · have hready : k ∈ v.dag.ready v.completed := hperm.mem_iff.1 (List.mem_filterMap.2 ⟨_, hx, rfl⟩)
        obtain ⟨m₁, hk₁, _, hcompleted₁⟩ := DAG.mem_ready.1 hready
        cases hk₀.symm.trans hk₁
        exact hcompleted₁ dep hdep
      · have hdone₀ : m₀.status = .done := by
          rw [hkept, DAG.statusAt, hk₀, Option.map_some] at hstatus
          exact Option.some.inj hstatus
        exact (hsynced dep).2 (hv.closed m₀ (List.mem_of_getElem? hk₀) hdone₀ dep hdep)
    rw [← hcompleted, hj, joined, Joining.mem_completed_addAll]
    exact Or.inl hdep₀

variable [State S] [Merge S]

/-- The loop holds a sound DAG with the nodes of `dag₀`. -/
structure Waves.Sound (dag₀ : DAG) (v : Waves S) : Prop where
  nodes : v.dag.SameNodes dag₀
  sound : v.dag.Sound
  synced : v.Synced

/-- A save with a sound snapshot of the nodes of `dag₀`. -/
def SoundSave (dag₀ : DAG) (args : SaveArgs S) : Prop :=
  ∃ snapshot, args.dag = some snapshot ∧ snapshot.SameNodes dag₀ ∧ snapshot.Sound

/-- Each round saves a sound snapshot, and goes on with a sound DAG. -/
theorem WaveRound.sound {u : Run (ops S) WaveError (WaveFlow S) World} (h : WaveRound env g threadId cancellation v w u)
    (hv : v.Sound dag₀) :
    (∀ args ∈ writes u.trace, SoundSave dag₀ args) ∧ ∀ v', u.result = .ok (.next v') → v'.Sound dag₀ := by
  have joins {n : Nat} {j : Joining S} (hjoin : g.joining env threadId cancellation v n = .ok j)
      (hfailed : j.waveFailed = []) : j.dag.SameNodes dag₀ ∧ j.dag.Sound :=
    ⟨hv.nodes.of_shape (shape_of_joining hjoin), sound_of_joining hjoin hfailed hv.sound hv.synced⟩
  have quiet {x : Except WaveError (WaveFlow S)} (hq : Quiet w [] u) (hres : u.result = x)
      (hx : ∀ v', x ≠ .ok (.next v')) :
      (∀ args ∈ writes u.trace, SoundSave dag₀ args) ∧ ∀ v', u.result = .ok (.next v') → v'.Sound dag₀ := by
    rw [hq.writes, hres]
    exact ⟨fun _ hmem => absurd hmem List.not_mem_nil, fun v' hnext => absurd hnext (hx v')⟩
  have saved {args : SaveArgs S} {val : Value} {id : String} (hs : Saves env w [] args val id u)
      (hargs : SoundSave dag₀ args) : ∀ args' ∈ writes u.trace, SoundSave dag₀ args' := by
    rw [hs.writes]
    intro args' hmem
    rwa [List.mem_singleton.1 hmem]
  cases h with
  | ended _ _ hres hq => exact quiet hq hres nofun
  | deadlocked _ _ hres hq => exact quiet hq hres nofun
  | gated val id _ _ _ hres hs =>
    refine ⟨saved hs ⟨v.dag, rfl, hv.nodes, hv.sound⟩, fun v' hnext => ?_⟩
    cases hres.symm.trans hnext
  | gateFailed e _ _ hres hq => exact quiet hq hres nofun
  | unregistered idx _ _ hres hq => exact quiet hq hres nofun
  | brokenOff e _ _ hres hq => exact quiet hq hres nofun
  | failed j _ _ _ hres hq => exact quiet hq hres nofun
  | yielded j val id _ hjoin hfailed _ _ hres hs =>
    refine ⟨saved hs ⟨j.dag, rfl, joins hjoin hfailed⟩, fun v' hnext => ?_⟩
    cases hres.symm.trans hnext
  | yieldFailed j e _ _ _ _ _ hres hq => exact quiet hq hres nofun
  | completed j val id _ hjoin hfailed _ _ _ hres hs =>
    refine ⟨saved hs ⟨j.dag, rfl, joins hjoin hfailed⟩, fun v' hnext => ?_⟩
    have hflow := hres.symm.trans hnext
    split at hflow
    · cases hflow
    · cases hflow
      exact ⟨(joins hjoin hfailed).1, (joins hjoin hfailed).2, fun id => mem_completed_of_joining hjoin hv.synced id⟩
  | completeFailed j e _ _ _ _ _ hres hq => exact quiet hq hres nofun

/-! ### Stopped calls -/

/-- A loop that is stopped anywhere has saved sound snapshots only. -/
theorem runWaves_sound {k : Nat} {tr : List (Event (ops S))} {p : Prog (ops S) WaveError (S × DAG)}
    (hr : Reaches (memory env) (g.runWaves threadId cancellation k v) w tr p w') (hv : v.Sound dag₀) :
    ∀ args ∈ writes tr, SoundSave dag₀ args := by
  induction k generalizing v w tr p with
  | zero =>
    cases hr
    exact fun _ hmem => absurd hmem List.not_mem_nil
  | succ k ih =>
    unfold Graph.runWaves at hr
    rcases hr.bind_cases with ⟨p', hbody⟩ | ⟨flow, w₁, t₁, t₂, hbody, hrest, rfl⟩
    · by_cases hwrites : writes tr = []
      · rw [hwrites]
        exact fun _ hmem => absurd hmem List.not_mem_nil
      · have hlast := endsInWrite_of_saveLast (waveBody_saveLast v) hbody hwrites
        obtain ⟨x, hx⟩ := exec_of_saveLast (waveBody_saveLast v) hbody hlast
        exact ((waveRound_of_exec hx).sound hv).1
    · obtain ⟨hwritten, hnext⟩ := (waveRound_of_exec hbody).sound hv
      intro args hmem
      rw [writes_append, List.mem_append] at hmem
      refine hmem.elim (hwritten args) fun hmem => ?_
      cases flow with
      | next v' => exact ih hrest (hnext v' rfl) args hmem
      | yielded v' =>
        cases hrest
        cases hmem
      | stop v' =>
        -- only the end of the graph is broadcast
        cases hrest with
        | here => cases hmem
        | step hr₁ hrest =>
          cases hrest with
          | here => cases hmem
          | step hr₂ hrest =>
            cases hrest
            cases hmem

theorem runDag_sound {dag : DAG} {state : S} {depth : Nat} {tr : List (Event (ops S))}
    {p : Prog (ops S) WaveError (S × DAG)}
    (hr : Reaches (memory env) (g.runDag threadId cancellation dag state depth) w tr p w') (hnodes : dag.SameNodes dag₀)
    (hsound : dag.Sound) : ∀ args ∈ writes tr, SoundSave dag₀ args := by
  unfold Graph.runDag at hr
  dsimp only at hr
  have nothing : ∀ args ∈ writes ([] : List (Event (ops S))), SoundSave dag₀ args :=
    fun _ hmem => absurd hmem List.not_mem_nil
  split at hr
  · cases hr
    exact nothing
  split at hr
  · cases hr
    exact nothing
  cases hr with
  | here => exact nothing
  | step hr hrest =>
    cases hr
    have hwaves : Reaches (memory env)
        (g.runWaves threadId cancellation (dag.nodes.length + 1) (.start dag state none)) _ _ _ _ := hrest
    exact fun args hmem => runWaves_sound hwaves ⟨hnodes, hsound, Waves.synced_start dag state none⟩ args hmem

/-- A resumed DAG starts from a snapshot of the thread. -/
theorem resumeDag_sound {dag : DAG} {depth : Nat} {tr : List (Event (ops S))}
    {p : Prog (ops S) WaveError (Option S × DAG)}
    (hr : Reaches (memory env) (g.resumeDag threadId cancellation dag depth) w tr p w') (hnodes : dag.SameNodes dag₀)
    (hrows : ∀ cp ∈ w.rows threadId, ∀ snapshot, cp.dag = some snapshot → snapshot.SameNodes dag₀ ∧ snapshot.Sound) :
    ∀ args ∈ writes tr, SoundSave dag₀ args := by
  have nothing : ∀ args ∈ writes ([] : List (Event (ops S))), SoundSave dag₀ args :=
    fun _ hmem => absurd hmem List.not_mem_nil
  cases hr with
  | here => exact nothing
  | step hr hrest =>
    obtain ⟨hload, rfl⟩ := Prod.mk.inj (Option.some.inj hr)
    subst hload
    cases hloaded : w.store.loadState (S := S) threadId with
    | error e =>
      rw [hloaded] at hrest
      cases hrest
      exact nothing
    | ok found =>
      rw [hloaded] at hrest
      rcases found with _ | ⟨state, info, _ | saved⟩
      · cases hrest
        exact nothing
      · cases hrest
        exact nothing
      · obtain ⟨last, hlast, hrow⟩ := MemoryStore.loadState_eq_ok hloaded
        have hsaved := hrows last (List.mem_of_getLast? hlast) saved (MemoryCheckpoint.load_eq_ok_iff.1 hrow).2.2.symm
        have hrestored : (dag.restoreStatuses saved).Sound :=
          hsaved.2.restoreStatuses (hnodes.trans_symm hsaved.1) hsaved.1.nodup
        have hsame : (dag.restoreStatuses saved).SameNodes dag₀ := hnodes.of_shape (DAG.shape_restoreStatuses saved)
        change Reaches _ (ite _ _ _) _ _ _ _ at hrest
        split at hrest
        · cases hrest
          exact nothing
        -- a sound snapshot has no `Running` node to recover
        · simp only [hrestored.recover, ite_self] at hrest
          rcases hrest.bind_cases with ⟨p', hdag⟩ | ⟨⟨final, dag'⟩, w₁, t₁, t₂, hdag, hret, rfl⟩
          · exact fun args hmem => runDag_sound hdag hsame hrestored args hmem
          · cases hret
            rw [List.append_nil]
            exact fun args hmem => runDag_sound (reaches_of_exec hdag) hsame hrestored args hmem

end Rounds

/-! ### Sessions -/

section Sessions

variable [External] [State S] [Merge S] {env : Env S} {threadId : String} {w₀ w : World} {dag₀ : DAG}

/-- A run of a fresh DAG with the nodes of `dag₀`, or a resume with such a DAG. -/
inductive Drives (dag₀ : DAG) : Call S → Prop
  | run (g : Graph S) (cancellation : Bool) (dag : DAG) (s : S) (depth : Nat) (hpending : dag.AllPending)
      (hnodes : dag.SameNodes dag₀) : Drives dag₀ (.runDag g cancellation dag s depth)
  | resume (g : Graph S) (cancellation : Bool) (dag : DAG) (depth : Nat) (hnodes : dag.SameNodes dag₀) :
      Drives dag₀ (.resumeDag g cancellation dag depth)

theorem Drives.sound {call : Call S} (hcall : Drives dag₀ call) {tr : List (Event (ops S))}
    {p : Prog (ops S) TakelnError Unit} {w' : World} (hr : Reaches (memory env) (call.prog threadId) w tr p w')
    (hrows : ∀ cp ∈ w.rows threadId, ∀ snapshot, cp.dag = some snapshot → snapshot.SameNodes dag₀ ∧ snapshot.Sound) :
    ∀ args ∈ writes tr, SoundSave dag₀ args := by
  cases hcall with
  | run g c dag s depth hpending hnodes =>
    rcases hr.bind_cases with ⟨p', hrun⟩ | ⟨x, w₁, t₁, t₂, hrun, hret, rfl⟩
    · obtain ⟨p'', hdag⟩ := hrun.mapError_cases
      exact runDag_sound hdag hnodes hpending.sound
    · cases hret
      rw [List.append_nil]
      obtain ⟨p'', hdag⟩ := (reaches_of_exec hrun).mapError_cases
      exact runDag_sound hdag hnodes hpending.sound
  | resume g c dag depth hnodes =>
    rcases hr.bind_cases with ⟨p', hrun⟩ | ⟨x, w₁, t₁, t₂, hrun, hret, rfl⟩
    · obtain ⟨p'', hdag⟩ := hrun.mapError_cases
      exact resumeDag_sound hdag hnodes hrows
    · cases hret
      rw [List.append_nil]
      obtain ⟨p'', hdag⟩ := (reaches_of_exec hrun).mapError_cases
      exact resumeDag_sound hdag hnodes hrows

/-- Sound calls on a thread that was empty at first save sound snapshots only. -/
theorem session_sound {calls : List (Call S × List (Event (ops S)))} (hcalls : ∀ c ∈ calls, Drives dag₀ c.1)
    (hempty : w₀.rows threadId = []) (hS : Session (memory env) (Call.prog threadId) w₀ calls w) :
    ∀ args ∈ writes (performed calls), SoundSave dag₀ args := by
  induction hS with
  | start => exact fun _ hmem => absurd hmem List.not_mem_nil
  | @call calls w w' hprev c tr p hr ih =>
    have hsaved := ih fun c hc => hcalls c (List.mem_append_left _ hc)
    have hrows : ∀ cp ∈ w.rows threadId, ∀ snapshot, cp.dag = some snapshot → snapshot.SameNodes dag₀ ∧
      snapshot.Sound := by
      intro cp hcp snapshot hdag
      have hdags := dags_of_steps hprev.steps threadId
      rw [hempty, List.map_nil, List.nil_append] at hdags
      obtain ⟨args, hargs, hcpdag⟩ := List.mem_map.1 (hdags ▸ List.mem_map_of_mem hcp)
      obtain ⟨snapshot', hdag', hnodes, hsound⟩ := hsaved args (List.mem_of_mem_filter hargs)
      cases hdag'.symm.trans (hcpdag.trans hdag)
      exact ⟨hnodes, hsound⟩
    intro args hmem
    rw [performed_append, writes_append, List.mem_append] at hmem
    rcases hmem with hmem | hmem
    · exact hsaved args hmem
    · rw [performed_cons, performed_nil, List.append_nil] at hmem
      exact (hcalls (c, tr) (by simp)).sound hr hrows args hmem

/-- However the calls of `run_dag` and then `resume_dag` on a thread come out, and wherever they are stopped, every
snapshot they save is sound. -/
theorem snapshots_sound (hpending : dag₀.AllPending) (hids : (dag₀.nodes.map DAGNode.id).Nodup)
    (hempty : w₀.rows threadId = []) {g : Graph S} {cancellation : Bool} {s : S} {depth : Nat}
    {tr : List (Event (ops S))} {later : List (Call S × List (Event (ops S)))}
    (hlater : ∀ c ∈ later, ∃ g cancellation dag depth, c.1 = .resumeDag g cancellation dag depth ∧ dag.SameNodes dag₀)
    (hS : Session (memory env) (Call.prog threadId) w₀ ((.runDag g cancellation dag₀ s depth, tr) :: later) w) :
    ∀ args ∈ writes (performed ((Call.runDag g cancellation dag₀ s depth, tr) :: later)),
      ∃ snapshot, args.dag = some snapshot ∧ snapshot.Sound := by
  have hcalls : ∀ c ∈ (Call.runDag g cancellation dag₀ s depth, tr) :: later, Drives dag₀ c.1 := by
    intro c hc
    rcases List.mem_cons.1 hc with rfl | hc
    · exact .run g cancellation dag₀ s depth hpending ⟨hids, fun _ => Iff.rfl, fun _ _ => Iff.rfl⟩
    · obtain ⟨call, tr⟩ := c
      obtain ⟨g, cancellation, dag, depth, rfl, hnodes⟩ := hlater _ hc
      exact .resume g cancellation dag depth hnodes
  intro args hmem
  obtain ⟨snapshot, hdag, _, hsound⟩ := session_sound hcalls hempty hS args hmem
  exact ⟨snapshot, hdag, hsound⟩

end Sessions

/-! ### A paused DAG -/

section Examples

attribute [local instance] shortRuns

/-- The nodes of the run, in another order. -/
def turned : DAG := ⟨[⟨1, "B", [0], .failed⟩, ⟨0, "A", [], .running⟩]⟩

theorem turned_sameNodes : turned.SameNodes inARow := by
  refine ⟨by decide, fun id => ?_, fun id dep => ?_⟩
  · simp [turned, inARow, or_comm]
  · simp [DAG.Depends, turned, inARow]

/-- A run that stops at the gate after `A`, and a resume in which `B` asks. -/
def gatedTurn : List (Event (ops Nat)) × Prog (ops Nat) TakelnError Unit × World :=
  advance (memory pausing) 40 ((Call.runDag { stages with interruptAfter := ["A"] } false inARow 0 0).prog "t")
    World.empty

def resumedTurn : List (Event (ops Nat)) × Prog (ops Nat) TakelnError Unit × World :=
  advance (memory pausing) 40 ((Call.resumeDag stages false turned 0).prog "t") gatedTurn.2.2

theorem snapshots_sound_resumedTurn :
    gatedTurn.2.2.saves = 1 ∧ resumedTurn.2.2.saves = 2 ∧
      ∀ args ∈ writes (performed [(Call.runDag { stages with interruptAfter := ["A"] } false inARow 0 0, gatedTurn.1),
          (Call.resumeDag stages false turned 0, resumedTurn.1)]),
        ∃ snapshot, args.dag = some snapshot ∧ snapshot.Sound := by
  have hS : Session (memory pausing) (Call.prog "t") World.empty
      [(Call.runDag { stages with interruptAfter := ["A"] } false inARow 0 0, gatedTurn.1),
        (Call.resumeDag stages false turned 0, resumedTurn.1)] resumedTurn.2.2 :=
    (Session.start.call _ (reaches_advance _ _ _ _)).call _ (reaches_advance _ _ _ _)
  refine ⟨by decide +kernel, by decide +kernel, snapshots_sound (by decide) (by decide) rfl (fun c hc => ?_) hS⟩
  cases List.mem_singleton.1 hc
  exact ⟨stages, false, turned, 0, rfl, turned_sameNodes⟩

end Examples

end Takeln
