import Takeln.Concurrent.SingleWinner
import Takeln.Threads.Answers
import Takeln.Threads.ExecutionIds

/-!
# What a checkpoint tells

The status of the latest checkpoint is all that a later call knows of an earlier one.  `Running` is only ever written by
a claim, so a crash inside a node is detected exactly if the thread was claimed and nothing has been saved since
(`crash_detectable_iff`).  A call that returns has said why, except when a gate after a node stopped it
(`status_tells_iff`): that stop is standing like any completed node.
-/

namespace Takeln

open Effect Effect.Prog

variable {S : Type}

/-- What a call has done: whether it has claimed the thread, the node it called last and what that came to, its last
checkpoint, and whether it has announced the end of the graph. -/
structure Report (S : Type) where
  claimed : Bool := false
  called : Option (String × Except GraphError (NodeOutput S)) := none
  saved : Option (SaveArgs S) := none
  finished : Bool := false

/-- A resume with an input executes nodes only after its claim. -/
def Call.answers : Call S → Bool
  | .resumeWithInput _ _ _ _ _ => true
  | _ => false

/-- A call claims before it saves, and saves nothing as `Running`.  It executes nodes only if it has claimed, or need
not (`answers` is `false`). -/
def reporting (S : Type) (threadId : String) (answers : Bool) : Protocol (ops S) (Report S) where
  allow
    | q, .claimInterrupt t _ => t = threadId ∧ answers = true ∧ q.saved = none
    | q, .callNode _ _ _ _ => q.claimed = answers
    | _, .saveStateBound args => args.threadId = threadId ∧ args.status ≠ .running
    | _, _ => True
  next
    | q, .claimInterrupt _ _, .ok .claimed => { q with claimed := true }
    | q, .callNode ctx _ _ _, r => { q with called := some (ctx.nodeName, CallAnswer.result ctx.nodeName r) }
    | q, .send (.graphFinished _ _ _), _ => { q with finished := true }
    | q, .saveStateBound args, r =>
      match r.bind checkpointId with
      | .ok _ => { q with saved := some args }
      | .error _ => q
    | q, _, _ => q

/-- What a call has done, by its operations. -/
def reportOf (threadId : String) (tr : List (Event (ops S))) : Report S := (reporting S threadId false).after {} tr

section Follows

variable {threadId : String} {answers : Bool} {q : Report S}

theorem reporting_silentNodes (q : Report S) (max : Nat) : SilentNodes (reporting S threadId answers) q max :=
  ⟨⟨trivial, fun _ => rfl⟩, fun _ _ _ => ⟨trivial, rfl⟩, fun _ _ _ _ _ => ⟨trivial, rfl⟩, fun _ => ⟨trivial, rfl⟩⟩

theorem reporting_save {args : SaveArgs S} (hargs : args.threadId = threadId ∧ args.status ≠ .running)
    {Φ : Report S → Except TakelnError String → Prop} (herr : ∀ e, Φ q (.error e))
    (hok : ∀ id, Φ { q with saved := some args } (.ok id)) : SaveFollows (reporting S threadId answers) q args Φ := by
  refine ⟨hargs, fun r => ?_⟩
  cases hr : r.bind checkpointId with
  | error e =>
    have hnext : (reporting S threadId answers).next q (.saveStateBound args) r = q := by
      simp only [reporting, hr]
    rw [hnext]
    exact herr e
  | ok id =>
    have hnext : (reporting S threadId answers).next q (.saveStateBound args) r = { q with saved := some args } := by
      simp only [reporting, hr]
    rw [hnext]
    exact hok id

/-- The last checkpoint of a call that returns agrees with how it has stopped: at `__END__`, at a yield, at the gate
before a node, or after one that has a gate. -/
structure Report.Tells (g : Graph S) (q : Report S) (args : SaveArgs S) : Prop where
  finished : q.finished = true → args.status = .complete ∧ args.nextNode = "__END__"
  yielded (name : String) (request : YieldRequest) : q.called = some (name, .error (.yield request)) →
    args.status = .yielded ∧ args.yieldRequest = some request
  gated (name : String) (out : NodeOutput S) : q.finished = false → q.called = some (name, .ok out) →
    name ∉ g.interruptAfter → args.status = .interrupted
  after (name : String) (out : NodeOutput S) : q.called = some (name, .ok out) → name ∈ g.interruptAfter →
    q.finished = false ∧ args.status = .complete

/-- Between two rounds the last checkpoint is that of a completed node without a gate after it. -/
structure Report.Between (g : Graph S) (answers : Bool) (v : Loop S) (q : Report S) : Prop where
  claimed : q.claimed = answers
  unfinished : q.finished = false
  first : q.saved = none → v.isFirstStep = true ∧ q.called = none
  later (args : SaveArgs S) : q.saved = some args → args.status = .complete ∧ args.nextNode = v.currentNodeName ∧
    ∃ name out, q.called = some (name, .ok out) ∧ name ∉ g.interruptAfter

variable [External] [State S] {g : Graph S} {cancellation : Bool} {resolvedInterrupt : Option String}

theorem runInner_reports (state : S) (node : String) (input : Option Value) :
    Follows (reporting S threadId answers) (g.runInner threadId cancellation resolvedInterrupt state node input)
      { claimed := answers }
      fun q x => ∀ final, x = .ok final → ∀ args, q.saved = some args → q.Tells g args := by
  refine follows_runInner (I := fun q v => q.Between g answers v) trivial (fun _ _ h => by cases h)
    (fun _ => ⟨rfl, rfl, fun _ => ⟨rfl, rfl⟩, fun _ h => by cases h⟩) ?_ fun _ _ _ _ _ h => by cases h
  intro q v hq
  have fails (q' : Report S) (e : TakelnError) : ∀ final : S, (Except.error (e, v.lastHead) : Except RunError S) =
      .ok final → ∀ args, q'.saved = some args → q'.Tells g args := fun _ h => by cases h
  refine follows_loopBody_cases
    (Ψ := fun q' y => q'.claimed = answers ∧ q'.finished = false ∧ q'.called = some (v.currentNodeName, y.2))
    (reporting_silentNodes _ _) (fun hend => ?_) (fun e => fails q e) (fun hgate => ?_) (fun _ => ?_) ?_ ?_
  -- at `__END__`: the last checkpoint is the one of the node before it
  · refine ⟨trivial, fun n => ⟨trivial, ?_⟩⟩
    intro final _ args hargs
    obtain ⟨hstatus, hnext, name, out, hcalled, hname⟩ := hq.later args hargs
    refine ⟨fun _ => ⟨hstatus, hnext.trans hend⟩, fun name request h => ?_, fun _ _ h => (by cases h),
      fun name' out' h hname' => ?_⟩
    · cases hcalled.symm.trans h
    · cases hcalled.symm.trans h
      exact absurd hname' hname
  -- a gate in front of the node
  · refine reporting_save ?_ (fun e => ?_) fun id => ?_
    · exact ⟨rfl, nofun⟩
    · exact fails q e
    intro final _ args hargs
    cases hargs
    cases hsaved : q.saved with
    | none => exact absurd (hq.first hsaved).1 (by rw [hgate.1]; nofun)
    | some args' =>
      obtain ⟨_, _, name, out, hcalled, hname⟩ := hq.later args' hsaved
      refine ⟨fun h => ?_, fun name request h => ?_, fun _ _ _ _ _ => rfl, fun name' out' h hname' => ?_⟩
      · cases hq.unfinished.symm.trans h
      · cases hcalled.symm.trans h
      · cases hcalled.symm.trans h
        exact absurd hname' hname
  · refine follows_callNode (J := fun q' => q'.claimed = answers ∧ q'.finished = false)
      (Ψ := fun q' x => q'.claimed = answers ∧ q'.finished = false ∧ q'.called = some (v.currentNodeName, x)) ?_
      (fun _ _ h => h) ⟨hq.claimed, hq.unfinished⟩
    rintro q' ⟨hclaimed, hfinished⟩ attempt input timeout token
    exact ⟨hclaimed, fun r => ⟨fun _ _ => ⟨hclaimed, hfinished⟩, hclaimed, hfinished, rfl⟩⟩
  -- the node returned: its checkpoint is the last one if a gate after it stops the call
  · rintro q' attempt out ⟨hclaimed, hfinished, hcalled⟩
    refine follows_onSuccess (reporting_silentNodes _ _) (fun _ _ _ => fails q' _) fun _ _ => ⟨fails q', ?_⟩
    refine reporting_save ?_ (fun e => ?_) fun id => ?_
    · exact ⟨rfl, nofun⟩
    · exact fails q' e
    dsimp only
    by_cases hafter : v.currentNodeName ∈ g.interruptAfter
    · rw [if_pos hafter]
      intro final _ args hargs
      cases hargs
      refine ⟨fun h => ?_, fun name request h => ?_, fun name out' _ h hname => ?_, fun _ _ _ _ => ⟨hfinished, rfl⟩⟩
      · cases hfinished.symm.trans h
      · cases hcalled.symm.trans h
      · cases hcalled.symm.trans h
        exact absurd hafter hname
    · rw [if_neg hafter]
      refine ⟨hclaimed, hfinished, fun h => (by cases h), fun args hargs => ?_⟩
      cases hargs
      exact ⟨rfl, rfl, v.currentNodeName, out, hcalled, hafter⟩
  -- the node failed: only a yield is saved
  · rintro q' attempt err ⟨_, hfinished, hcalled⟩
    refine follows_onError (reporting_silentNodes _ _) (fails q') fun request herr => ?_
    refine reporting_save ?_ (fun e => ?_) fun id => ?_
    · exact ⟨rfl, nofun⟩
    · exact fails q' e
    intro final _ args hargs
    cases hargs
    refine ⟨fun h => ?_, fun name request' h => ?_, fun name out _ h => ?_, fun name out h => ?_⟩
    · cases hfinished.symm.trans h
    · rw [hcalled, herr] at h
      cases h
      exact ⟨rfl, rfl⟩
    · cases hcalled.symm.trans h
    · cases hcalled.symm.trans h

theorem resumeWith_reports (rebind : S → S) :
    Follows (reporting S threadId false) (g.resumeWith threadId cancellation rebind) {}
      fun q x => ∀ final, x = .ok final → ∀ args, q.saved = some args → q.Tells g args := by
  refine follows_resumeWith trivial (fun _ _ _ _ _ h => by cases h) fun loaded node _ => ?_
  refine (runInner_reports _ node none).mono fun q x hx => ?_
  rcases x with e | final
  · exact fun _ h => by cases h
  · exact fun _ _ => hx final rfl

theorem resumeWithInput_reports (i : String) (input : Value) (context : ResumeContext) :
    Follows (reporting S threadId true) (g.resumeWithInput threadId cancellation i input context) {}
      fun q x => ∀ final, x = .ok final → ∀ args, q.saved = some args → q.Tells g args := by
  refine follows_resumeWithInput ⟨rfl, rfl, rfl⟩ (fun _ _ _ _ _ h => by cases h) (fun _ => trivial)
    (fun claim r _ _ _ _ h => by cases claim <;> cases h) fun loaded request => follows_runClaimed ?_
  refine (runInner_reports _ _ _).mono fun q x hx => ?_
  rcases x with ⟨e, lastHead⟩ | final
  · have save (head : Option String) :
        SaveFollows (reporting S threadId true) q (Graph.revertSave threadId loaded.state loaded.info.nextNode
          request head) fun _ _ => True := by
      refine reporting_save ?_ (fun _ => trivial) fun _ => trivial
      exact ⟨rfl, nofun⟩
    refine (follows_revertToYielded (Φ := fun _ _ => True) (fun head _ => save head)
      fun _ => ⟨trivial, fun _ => trivial, save⟩).mono fun q' y _ => ?_
    cases y with
    | ok _ => exact ⟨fun _ h => (by cases h), fun _ h => by cases h⟩
    | error _ => exact fun msg => ⟨fun _ h => (by cases h), fun _ h => by cases h⟩
  · exact ⟨fun _ _ => hx final rfl, fun _ _ => reporting_silentNodes _ _⟩

theorem call_reports [Merge S] {call : Call S} (hseq : call.dag = none) :
    Follows (reporting S threadId call.answers) (call.prog threadId) {}
      fun q x => x = .ok () → ∀ args, q.saved = some args → q.Tells call.graph args := by
  have returns {α : Type} {p : Prog (ops S) TakelnError α} (hp : Follows (reporting S threadId call.answers) p {}
      fun q x => ∀ final, x = .ok final → ∀ args, q.saved = some args → q.Tells call.graph args) :
      Follows (reporting S threadId call.answers) (p.bind fun _ => .ret ()) {}
        fun q x => x = .ok () → ∀ args, q.saved = some args → q.Tells call.graph args := by
    rw [follows_bind]
    refine hp.mono fun q x hx => ?_
    rcases x with e | final
    · exact fun h => by cases h
    · exact fun _ => hx final rfl
  cases call with
  | run g c state node =>
    refine returns ?_
    unfold Graph.run
    rw [follows_mapError]
    refine (runInner_reports state node none).mono fun q x hx => ?_
    rcases x with e | final
    · exact fun _ h => by cases h
    · exact fun _ _ => hx final rfl
  | resume g c => exact returns (resumeWith_reports id)
  | resumeWith g c rebind => exact returns (resumeWith_reports rebind)
  | resumeWithInput g c i input context => exact returns (resumeWithInput_reports i input context)
  | runDag g c dag state depth => cases hseq
  | resumeDag g c dag depth => cases hseq

end Follows

/-! ### The latest checkpoint -/

section Latest

variable [State S] {env : Env S} {threadId : String} {w₁ w w' : World} {q : Report S} {tr : List (Event (ops S))}

/-- How the checkpoints of the thread agree with what a call from `w₁` has done. -/
structure Reflects (threadId : String) (w₁ : World) (q : Report S) (tr : List (Event (ops S))) (w : World) : Prop where
  saved : q.saved = (savesOf threadId tr).getLast?
  unsaved : q.saved = none → w.status threadId = if q.claimed then some .running else w₁.status threadId
  latest (args : SaveArgs S) : q.saved = some args → args.status ≠ .running ∧
    ∃ id time val, (w.rows threadId).getLast? = some (.ofSave id time val args)

theorem Reflects.step {answers : Bool} {o : Op S} {r : o.Answer} (hallow : (reporting S threadId answers).allow q o)
    (hr : memory env w o = some (r, w')) (h : Reflects threadId w₁ q tr w) :
    Reflects threadId w₁ ((reporting S threadId answers).next q o r) (tr ++ [⟨o, r⟩]) w' := by
  have hstep := threadStep_of_memory hr threadId
  generalize he : (⟨o, r⟩ : Event (ops S)) = e at hstep
  cases hstep with
  | idle hrows hsaves hclaims =>
    -- neither a save nor a claim that is granted
    have hnext : ((reporting S threadId answers).next q o r).saved = q.saved ∧
        ((reporting S threadId answers).next q o r).claimed = q.claimed := by
      subst he
      cases o with
      | saveStateBound args =>
        cases hr : r.bind checkpointId with
        | error e => simp only [reporting, hr, and_self]
        | ok id =>
          refine absurd hallow.1 (hsaves args ?_)
          rcases r with e | save
          · cases hr
          · have hid : checkpointId save = .ok id := hr
            simp only [written, hid]
      | claimInterrupt t i =>
        obtain ⟨rfl, _⟩ := hallow
        rcases r with e | claim
        · exact ⟨rfl, rfl⟩
        · cases claim with
          | claimed => exact absurd rfl (hclaims i)
          | _ => exact ⟨rfl, rfl⟩
      | send event => cases event <;> exact ⟨rfl, rfl⟩
      | _ => exact ⟨rfl, rfl⟩
    refine ⟨?_, fun hnone => ?_, fun args hargs => ?_⟩
    · rw [hnext.1, savesOf_append, savesOf_eq_nil hsaves, List.append_nil]
      exact h.saved
    · rw [hnext.2, World.status, hrows]
      exact h.unsaved (hnext.1 ▸ hnone)
    · rw [hrows]
      exact h.latest args (hnext.1 ▸ hargs)
  | saved args val ht hval hrows =>
    cases he
    refine ⟨?_, fun hnone => ?_, fun args' hargs => ?_⟩
    · rw [savesOf_append, savesOf_eq_singleton ht, List.getLast?_concat]
      rfl
    · cases hnone
    · cases hargs
      refine ⟨hallow.2, env.newId w.saves, env.now w.saves, val, ?_⟩
      rw [hrows, List.getLast?_concat]
  | claimed i hopen hrows =>
    cases he
    refine ⟨?_, fun _ => ?_, fun args hargs => ?_⟩
    · rw [savesOf_append]
      exact h.saved.trans (congrArg List.getLast? (List.append_nil _).symm)
    · rw [status_of_memory hr]
      simp [statusGiven, reporting]
    · cases hallow.2.2.symm.trans hargs

variable [External] [Merge S] {call : Call S}

theorem reflects_of_reaches (hseq : call.dag = none) {p' : Prog (ops S) TakelnError Unit}
    (hr : Reaches (memory env) (call.prog threadId) w₁ tr p' w) : Reflects threadId w₁ (reportOf threadId tr) tr w := by
  change Reflects threadId w₁ ((reporting S threadId call.answers).after {} tr) tr w
  refine (call_reports hseq).invariant (I := Reflects threadId w₁)
    (fun _ _ _ _ _ _ hallow hr h => h.step hallow hr) hr ?_
  exact ⟨rfl, fun _ => rfl, fun _ h => by cases h⟩

end Latest

/-! ### Crashes -/

section Crashes

variable [External] [State S] {env : Env S} {threadId : String} {w₁ w : World} {tr : List (Event (ops S))}

/-- The latest checkpoint is marked `Running`, so that a resume under `FailFast` fails and executes nothing. -/
structure CrashDetected (env : Env S) (threadId : String) (w : World) : Prop where
  running : w.status threadId = some .running
  failsFast (g : Graph S) (cancellation : Bool) : g.crashRecoveryPolicy = .failFast →
    ∃ u, exec (memory env) (g.resume threadId cancellation) w = some u ∧ (∃ e, u.result = .error e) ∧
      executions u.trace = []

theorem crashDetected_iff : CrashDetected env threadId w ↔ w.status threadId = some .running := by
  refine ⟨fun h => h.running, fun hrunning => ⟨hrunning, fun g cancellation hpolicy => ?_⟩⟩
  obtain ⟨last, hlast, hstatus⟩ := Option.map_eq_some_iff.1 hrunning
  have hload : w.store.loadState threadId = (last.load (S := S) threadId).map some :=
    MemoryStore.loadState_of_last hlast
  have hexec := exec_loadState (S := S) env w threadId
  rw [hload] at hexec
  unfold Graph.resume Graph.resumeWith
  rw [bind_eq]
  cases hloaded : last.load (S := S) threadId with
  | error e =>
    rw [hloaded] at hexec
    exact ⟨_, exec_bind_error hexec _, ⟨e, rfl⟩, rfl⟩
  | ok loaded =>
    rw [hloaded] at hexec
    have hrun : loaded.info.status = .running := by
      rw [(MemoryCheckpoint.load_eq_ok_iff.1 hloaded).2.1]
      exact hstatus
    rw [exec_bind_ok hexec]
    dsimp only
    rw [if_pos hrun, hpolicy]
    exact ⟨_, rfl, ⟨_, rfl⟩, rfl⟩

variable [Merge S] {call : Call S}

/-- A crash inside a node is detected if and only if nothing has been saved since the thread was claimed: by this call,
which is a resume with an input, or by one that crashed before. -/
theorem crash_detected_iff (hseq : call.dag = none) {p : Prog (ops S) TakelnError Unit}
    (hr : Reaches (memory env) (call.prog threadId) w₁ tr p w) (hnode : AtNode p) :
    CrashDetected env threadId w ↔
      savesOf threadId tr = [] ∧ (call.answers = true ∨ w₁.status threadId = some .running) := by
  have hreflects := reflects_of_reaches hseq hr
  obtain ⟨ctx, state, timeout, token, k, rfl⟩ := hnode
  have hclaimed : (reportOf threadId tr).claimed = call.answers := ((call_reports hseq).reaches hr).1
  rw [crashDetected_iff]
  cases hsaves : (savesOf threadId tr).getLast? with
  | some args =>
    obtain ⟨hstatus, id, time, val, hlast⟩ := hreflects.latest args (hreflects.saved.trans hsaves)
    constructor
    · intro hrunning
      rw [World.status, hlast] at hrunning
      exact absurd (Option.some.inj hrunning) hstatus
    · rintro ⟨hnil, _⟩
      rw [hnil] at hsaves
      cases hsaves
  | none =>
    rw [hreflects.unsaved (hreflects.saved.trans hsaves), hclaimed]
    have hnil : savesOf threadId tr = [] := List.getLast?_eq_none_iff.1 hsaves
    cases call.answers <;> simp [hnil]

end Crashes

section Examples

attribute [local instance] shortRuns

/-- The node a program is about to call. -/
def nodeAt {E α : Type} : Prog (ops S) E α → Option String
  | .perform (.callNode ctx _ _ _) _ => some ctx.nodeName
  | _ => none

theorem atNode_of_nodeAt {E α : Type} {p : Prog (ops S) E α} {name : String} (h : nodeAt p = some name) : AtNode p := by
  unfold nodeAt at h
  split at h
  · exact ⟨_, _, _, _, _, rfl⟩
  · cases h

/-- A run of `A` and `B` that crashes inside `B`. -/
def insideB : List (Event (ops Nat)) × Prog (ops Nat) TakelnError Unit × World :=
  advance (memory counting) 10 ((Call.run payment false 0 "A").prog "t") World.empty

/-- After the checkpoint of `A`, the crash leaves no trace: a resume under `FailFast` executes `B` again. -/
theorem crash_detected_false :
    Reaches (memory counting) ((Call.run payment false 0 "A").prog "t") World.empty insideB.1 insideB.2.1 insideB.2.2 ∧
      AtNode insideB.2.1 ∧ (insideB.2.2.rows "t").length = 1 ∧ ¬ CrashDetected counting "t" insideB.2.2 ∧
      insideB.2.2.status "t" = some .complete ∧
      ∃ u, exec (memory counting) ({ payment with crashRecoveryPolicy := .failFast }.resume "t" false)
        insideB.2.2 = some u ∧ u.result = .ok (some 2) ∧ executions u.trace = ["B"] := by
  have hcomplete : insideB.2.2.status "t" = some .complete := by decide +kernel
  refine ⟨reaches_advance _ _ _ _, atNode_of_nodeAt (show nodeAt insideB.2.1 = some "B" by decide +kernel),
    by decide +kernel, fun h => ?_, hcomplete, ?_⟩
  · cases hcomplete.symm.trans h.running
  · exact ⟨_, (Option.some_get (show Option.isSome _ = true by decide +kernel)).symm, by decide +kernel,
      by decide +kernel⟩

/-- The answer to a yield crashes inside the node that asked. -/
def insideA : List (Event (ops Nat)) × Prog (ops Nat) TakelnError Unit × World :=
  advance (memory alwaysAsking) 5 ((Call.resumeWithInput circular false "approve" .null {}).prog "t") firstVisit.2

theorem crash_detected_insideA : CrashDetected alwaysAsking "t" insideA.2.2 := by
  have hsaves : savesOf "t" insideA.1 = [] := List.eq_nil_of_length_eq_zero (by decide +kernel)
  have hnode : AtNode insideA.2.1 := atNode_of_nodeAt (show nodeAt insideA.2.1 = some "A" by decide +kernel)
  exact (crash_detected_iff (show (Call.resumeWithInput circular false "approve" .null {}).dag = none from rfl)
    (reaches_advance _ _ _ _) hnode).2 ⟨hsaves, Or.inl rfl⟩

end Examples

/-! ### Returns -/

section Returns

variable [External] [State S] [Merge S] {env : Env S} {threadId : String} {w₁ : World} {call : Call S}

/-- The latest checkpoint tells how a call that returned has stopped: at `__END__`, at a yield, or else at a gate. -/
structure StatusTells (q : Report S) (last : MemoryCheckpoint) : Prop where
  ended : q.finished = true → last.status = .complete ∧ last.nextNode = "__END__"
  yielded (name : String) (request : YieldRequest) : q.called = some (name, .error (.yield request)) →
    last.status = .yielded ∧ last.yieldRequest = some request
  gated (name : String) (out : NodeOutput S) : q.finished = false → q.called = some (name, .ok out) →
    last.status = .interrupted

/-- The latest checkpoint after a call that returned tells how it has stopped if and only if that was not after a node
with a gate. -/
theorem status_tells_iff (hseq : call.dag = none) {u : Run (ops S) TakelnError Unit World}
    (hu : exec (memory env) (call.prog threadId) w₁ = some u) (hok : u.result = .ok ())
    (hsaved : savesOf threadId u.trace ≠ []) : ∃ last, (u.world.rows threadId).getLast? = some last ∧
      (StatusTells (reportOf threadId u.trace) last ↔ ∀ name out,
        (reportOf threadId u.trace).called = some (name, .ok out) → name ∉ call.graph.interruptAfter) := by
  have hreflects := reflects_of_reaches hseq (reaches_of_exec hu)
  obtain ⟨args, hargs⟩ := Option.isSome_iff_exists.1 (List.getLast?_isSome.2 hsaved)
  obtain ⟨_, id, time, val, hlast⟩ := hreflects.latest args (hreflects.saved.trans hargs)
  have htells : (reportOf threadId u.trace).Tells call.graph args :=
    (call_reports hseq).of_exec hu hok args (hreflects.saved.trans hargs)
  refine ⟨_, hlast, fun h name out hcalled hname => ?_, fun h => ⟨htells.finished, htells.yielded, ?_⟩⟩
  · obtain ⟨hunfinished, hcomplete⟩ := htells.after name out hcalled hname
    cases hcomplete.symm.trans (h.gated name out hunfinished hcalled)
  · exact fun name out hunfinished hcalled => htells.gated name out hunfinished hcalled (h name out hcalled)

end Returns

section Examples

attribute [local instance] shortRuns

/-- The run of `A` and `B` that stops at a gate after `A`. -/
def gatedAfter : Run (ops Nat) TakelnError Unit World :=
  (exec (memory counting) ((Call.run { payment with interruptAfter := ["A"] } false 0 "A").prog "t") World.empty).get
    (by decide +kernel)

theorem exec_gatedAfter :
    exec (memory counting) ((Call.run { payment with interruptAfter := ["A"] } false 0 "A").prog "t") World.empty =
      some gatedAfter := (Option.some_get _).symm

/-- Where a checkpoint says that the thread stands. -/
def standing (cp : MemoryCheckpoint) : String × String × CheckpointStatus × Option String :=
  (cp.checkpointId, cp.nextNode, cp.status, cp.resolvedInterrupt)

/-- The stop at the gate leaves the checkpoints that the run without a gate has left when it crashes inside `B`. -/
theorem status_tells_false :
    exec (memory counting) ((Call.run { payment with interruptAfter := ["A"] } false 0 "A").prog "t") World.empty =
        some gatedAfter ∧
      gatedAfter.result = .ok () ∧ gatedAfter.world.status "t" = some .complete ∧
      (gatedAfter.world.rows "t").map standing = (insideB.2.2.rows "t").map standing ∧
      ∀ last, (gatedAfter.world.rows "t").getLast? = some last →
        ¬ StatusTells (reportOf "t" gatedAfter.trace) last := by
  have hstatus : gatedAfter.world.status "t" = some .complete := by decide +kernel
  have hfinished : (reportOf "t" gatedAfter.trace).finished = false := by decide +kernel
  have hcalled : (reportOf "t" gatedAfter.trace).called.any (·.2.isOk) = true := by decide +kernel
  refine ⟨exec_gatedAfter, by decide +kernel, hstatus, by decide +kernel, fun last hlast h => ?_⟩
  obtain ⟨⟨name, result⟩, hname, hok⟩ := (Option.any_eq_true ..).1 hcalled
  cases result with
  | error e => cases hok
  | ok out =>
    rw [World.status, hlast] at hstatus
    cases (Option.some.inj hstatus).symm.trans (h.gated name out hfinished hname)

/-- The run of `A` and `B` to the end of the graph. -/
def finishedRun : Run (ops Nat) TakelnError Unit World :=
  (exec (memory counting) ((Call.run payment false 0 "A").prog "t") World.empty).get (by decide +kernel)

theorem exec_finishedRun :
    exec (memory counting) ((Call.run payment false 0 "A").prog "t") World.empty = some finishedRun :=
  (Option.some_get _).symm

theorem status_tells_finishedRun : ∃ last, (finishedRun.world.rows "t").getLast? = some last ∧
    StatusTells (reportOf "t" finishedRun.trace) last := by
  have hsaved : savesOf "t" finishedRun.trace ≠ [] :=
    List.ne_nil_of_length_pos (show 0 < (savesOf "t" finishedRun.trace).length by decide +kernel)
  obtain ⟨last, hlast, hiff⟩ := status_tells_iff (show (Call.run payment false 0 "A").dag = none from rfl)
    exec_finishedRun (by decide +kernel) hsaved
  exact ⟨last, hlast, hiff.2 fun _ _ _ => List.not_mem_nil⟩

end Examples

end Takeln
