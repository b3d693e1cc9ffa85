import Takeln.Effect.Interleave
import Takeln.Sequential.Rounds
import Takeln.Waves.Follows

/-!
# Calls on a thread

The calls that may be in flight on one thread at the same time, and what they do with its head: each of them reads the
head once, before its first write, and from then on writes only with the head it knows: the one it read, or the id of
its last accepted write (`headKnowing_follows`).  A write answered with a conflict leaves the known head as it was, and
no node is executed after it.
-/

namespace Takeln

open Effect Effect.Prog

variable [Money] {S : Type}

/-- A call on a thread: the graph it runs and its arguments. -/
inductive Call (S : Type)
  | run (graph : Graph S) (cancellation : Bool) (state : S) (startNode : String)
  | resume (graph : Graph S) (cancellation : Bool)
  | resumeWith (graph : Graph S) (cancellation : Bool) (rebind : S → S)
  | resumeWithInput (graph : Graph S) (cancellation : Bool) (interruptId : String) (input : Value)
    (context : ResumeContext)
  | runDag (graph : Graph S) (cancellation : Bool) (dag : DAG) (state : S) (depth : Nat)
  | resumeDag (graph : Graph S) (cancellation : Bool) (dag : DAG) (depth : Nat)

/-- The graph of a call. -/
def Call.graph : Call S → Graph S
  | .run g _ _ _ => g
  | .resume g _ => g
  | .resumeWith g _ _ => g
  | .resumeWithInput g _ _ _ _ => g
  | .runDag g _ _ _ _ => g
  | .resumeDag g _ _ _ => g

/-- The DAG of a call. -/
def Call.dag : Call S → Option DAG
  | .runDag _ _ dag _ _ => some dag
  | .resumeDag _ _ dag _ => some dag
  | _ => none

/-- The call on a thread, without its result. -/
def Call.prog [External] [State S] [Merge S] (threadId : String) : Call S → Prog (ops S) TakelnError Unit
  | .run g c state startNode => (g.run threadId c state startNode).bind fun _ => .ret ()
  | .resume g c => (g.resume threadId c).bind fun _ => .ret ()
  | .resumeWith g c rebind => (g.resumeWith threadId c rebind).bind fun _ => .ret ()
  | .resumeWithInput g c i input context => (g.resumeWithInput threadId c i input context).bind fun _ => .ret ()
  | .runDag g c dag state depth => ((g.runDag threadId c dag state depth).mapError Prod.fst).bind fun _ => .ret ()
  | .resumeDag g c dag depth => ((g.resumeDag threadId c dag depth).mapError Prod.fst).bind fun _ => .ret ()

/-- A call follows a protocol in which loading and claiming change nothing, and which both engines on its graph and the
rollback of a failed run follow. -/
theorem follows_call {Q : Type} {π : Protocol (ops S) Q} {q : Q} [External] [State S] [Merge S] {threadId : String}
    {call : Call S} {Φ : Q → Except TakelnError Unit → Prop} (hidle : ∀ x, Φ q x)
    (hload : π.allow q (.loadState threadId) ∧
      ∀ r : Except TakelnError (Option (Loaded S)), π.next q (.loadState threadId) r = q)
    (hclaim : ∀ i, π.allow q (.claimInterrupt threadId i) ∧
      ∀ r : Except TakelnError ClaimResult, π.next q (.claimInterrupt threadId i) r = q)
    (hrun : ∀ (cancellation : Bool) (resolvedInterrupt : Option String) (state : S) (node : String)
      (input : Option Value),
      Follows π (call.graph.runInner threadId cancellation resolvedInterrupt state node input) q fun q' x =>
        match x with
        | .ok _ => Φ q' (.ok ()) ∧ SilentNodes π q' call.graph.resourceLimits.maxExecutionRecords
        | .error (e, lastHead) => Φ q' (.error e) ∧ ∀ state nextNode request,
          Follows π (Graph.revertToYielded threadId state nextNode request lastHead) q' fun q'' y =>
            match y with
            | .ok _ => Φ q'' (.error e)
            | .error _ => ∀ msg, Φ q'' (.error (.executionError msg)))
    (hdag : call.dag ≠ none → ∀ (cancellation : Bool) (dag : DAG) (state : S) (depth : Nat),
      Follows π (call.graph.runDag threadId cancellation dag state depth) q fun q' x =>
        Φ q' ((x.mapError Prod.fst).map fun _ => ())) :
    Follows π (call.prog threadId) q Φ := by
  have drop {A : Type} {p : Prog (ops S) TakelnError A} (hp : Follows π p q fun q' x => Φ q' (x.map fun _ => ())) :
      Follows π (p.bind fun _ => .ret ()) q Φ := by
    rw [follows_bind]
    refine hp.mono fun q x hx => ?_
    cases x <;> exact hx
  have ran (c : Bool) (r : Option String) (state : S) (node : String) (input : Option Value) :
      Follows π (call.graph.runInner threadId c r state node input) q fun q' x =>
        Φ q' ((x.mapError Prod.fst).map fun _ => ()) := by
    refine (hrun c r state node input).mono fun q' x hx => ?_
    rcases x with ⟨e, lastHead⟩ | final <;> exact hx.1
  have resumeWith (c : Bool) (rebind : S → S) :
      Follows π (call.graph.resumeWith threadId c rebind) q fun q' x => Φ q' (x.map fun _ => ()) := by
    refine follows_resumeWith hload.1 (fun r x => ?_) fun loaded node _ => ?_
    · rw [hload.2]
      exact hidle _
    · rw [hload.2]
      refine (ran c _ _ _ _).mono fun q' x hx => ?_
      rcases x with ⟨e, lastHead⟩ | final <;> exact hx
  cases call with
  | run g c state startNode =>
    refine drop ?_
    unfold Graph.run
    rw [follows_mapError]
    exact ran c _ _ _ _
  | resume g c => exact drop (resumeWith c id)
  | resumeWith g c rebind => exact drop (resumeWith c rebind)
  | resumeWithInput g c i input context =>
    refine drop (follows_resumeWithInput (hclaim i).1 (fun e x => ?_) (fun claim => ?_) (fun claim r x => ?_)
      fun loaded request => follows_runClaimed ?_)
    · rw [(hclaim i).2]
      exact hidle _
    · rw [(hclaim i).2]
      exact hload.1
    · rw [(hclaim i).2, hload.2]
      exact hidle _
    · rw [(hclaim i).2, hload.2]
      refine (hrun c _ _ _ _).mono fun q' x hx => ?_
      rcases x with ⟨e, lastHead⟩ | final
      -- the run has failed, and what was claimed is saved again as it was
      · refine (hx.2 _ _ _).mono fun q'' y hy => ?_
        cases y with
        | ok _ => exact ⟨hy, fun _ h => (by cases h)⟩
        | error _ => exact fun msg => ⟨hy msg, fun _ h => (by cases h)⟩
      · exact ⟨hx.1, fun _ _ => hx.2⟩
  | runDag g c dag state depth =>
    refine drop ?_
    rw [follows_mapError]
    exact hdag (Option.some_ne_none dag) c dag state depth
  | resumeDag g c dag depth =>
    refine drop ?_
    rw [follows_mapError]
    refine follows_resumeDag hload.1 (fun r x => ?_) fun loaded dag => ?_
    · rw [hload.2]
      exact hidle _
    · rw [hload.2]
      refine (hdag (Option.some_ne_none _) c dag loaded.state depth).mono fun q' x hx => ?_
      cases x <;> exact hx

/-! ### What a call knows of the head -/

/-- What a call knows of the head of its thread. -/
inductive HeadPhase
  | unread
  /-- the head it read, or that its last accepted write made -/
  | live (head : Option String)
  /-- a write with this head was answered with a conflict -/
  | stale (head : Option String)

/-- The phase after a save with a known head was answered. -/
def HeadPhase.saved (head : Option String) : Except TakelnError CheckpointSave → HeadPhase
  | .ok (.created id) => live (some id)
  | .ok (.advanced id) => live (some id)
  | .ok (.idempotentReplay id) => live (some id)
  | .ok (.conflict _) => stale head
  | .error _ => live head

/-- A call reads the head, and then writes with the head it knows; it executes nodes only while that is live. -/
def headKnowing (S : Type) : Protocol (ops S) HeadPhase where
  allow
    | _, .nextSeq => True
    | _, .send _ => True
    | _, .record _ _ => True
    | .unread, .currentHead _ => True
    | .unread, .loadState _ => True
    | .unread, .claimInterrupt _ _ => True
    | .live _, .callNode _ _ _ _ => True
    | .live _, .joinWave _ => True
    | .live head, .saveStateBound args => args.proof.expectedHead = head
    | .stale head, .saveStateBound args => args.proof.expectedHead = head
    | _, _ => False
  next
    | .unread, .currentHead _, .ok head => .live head
    | .live head, .saveStateBound _, r => HeadPhase.saved head r
    | q, _, _ => q

theorem headKnowing_silent (q : HeadPhase) (max : Nat) : Silent (headKnowing S) q max := by
  constructor <;> cases q <;> first | exact ⟨trivial, fun _ => rfl⟩ | exact fun _ => ⟨trivial, rfl⟩

section Call

variable [External] [State S] {g : Graph S} {threadId : String} {cancellation : Bool}
  {resolvedInterrupt : Option String}

/-- What a failed run tells its caller of the head is what the call knows of it. -/
def Knows (q : HeadPhase) (lastHead : Option (Option String)) : Prop :=
  lastHead = none ∧ q = .unread ∨ ∃ head, lastHead = some head ∧ (q = .live head ∨ q = .stale head)

omit [External] [State S] in
private theorem live_callSilent (head : Option String) (s : S) : CallSilent (headKnowing S) (.live head) s :=
  fun _ _ _ => ⟨trivial, fun _ => rfl⟩

omit [External] [State S] in
private theorem save_live {head : Option String} {args : SaveArgs S} (hargs : args.proof = checkpointProof head)
    {Φ : HeadPhase → Except TakelnError String → Prop}
    (herr : ∀ e, Φ (.live head) (.error e) ∧ Φ (.stale head) (.error e))
    (hok : ∀ id, Φ (.live (some id)) (.ok id)) : SaveFollows (headKnowing S) (.live head) args Φ := by
  refine ⟨congrArg CheckpointProof.expectedHead hargs, fun r => ?_⟩
  rcases r with e | save
  · exact (herr e).1
  · cases save with
    | conflict actual => exact (herr _).2
    | _ => exact hok _

theorem runInner_knows (state : S) (startNode : String) (input : Option Value) :
    Follows (headKnowing S) (g.runInner threadId cancellation resolvedInterrupt state startNode input) .unread
      fun q x => match x with
        | .ok _ => True
        | .error (_, lastHead) => Knows q lastHead := by
  refine follows_runInner (I := fun q v => q = .live v.expectedHead ∧ v.lastHead = some v.expectedHead) trivial
    (fun e => Or.inl ⟨rfl, rfl⟩) (fun head => ⟨rfl, rfl⟩) ?_ ?_
  · rintro q v ⟨rfl, hlast⟩
    have hknows : Knows (.live v.expectedHead) v.lastHead := Or.inr ⟨_, hlast, Or.inl rfl⟩
    refine follows_loopBody (headKnowing_silent _ _) (live_callSilent _ _) trivial (fun e => hknows) ?_
    intro args flow hsave
    refine save_live (hsave "").proof_eq (fun e => ⟨hknows, Or.inr ⟨_, hlast, Or.inr rfl⟩⟩) fun id => ?_
    have hflow := hsave id
    dsimp only
    cases hf : flow id with
    | stop v' => trivial
    | next v' =>
      rw [hf] at hflow
      obtain ⟨out, _, rfl⟩ := hflow.of_next
      exact ⟨rfl, rfl⟩
  · rintro q v e ⟨rfl, hlast⟩
    exact Or.inr ⟨_, hlast, Or.inl rfl⟩

omit [External] in
theorem runDag_knows [Merge S] (dag : DAG) (state : S) (depth : Nat) :
    Follows (headKnowing S) (g.runDag threadId cancellation dag state depth) .unread fun _ _ => True := by
  refine follows_runDag (I := fun q v => q = .live v.expectedHead) (fun _ => trivial) trivial (fun _ => trivial)
    (fun head => rfl) ?_ fun _ _ _ _ => trivial
  rintro q v rfl
  refine follows_waveBody (headKnowing_silent _ _) (fun tasks _ => ⟨trivial, fun _ => rfl⟩)
    ((headKnowing_silent _ 0).emit _ trivial) (fun _ => trivial) ?_
  intro args flow dag hsave
  refine save_live (hsave "").proof_eq (fun e => ⟨trivial, trivial⟩) fun id => ?_
  have hflow := hsave id
  dsimp only
  cases hf : flow id with
  | stop v' => exact (headKnowing_silent _ 0).emit _ trivial
  | yielded v' => trivial
  | next v' =>
    rw [hf] at hflow
    obtain ⟨j, _, rfl⟩ := hflow.of_next
    rfl

omit [External] [State S] in
theorem revertToYielded_knows {state : S} {nextNode : String} {request : YieldRequest} {q : HeadPhase}
    {lastHead : Option (Option String)} (hknows : Knows q lastHead) :
    Follows (headKnowing S) (Graph.revertToYielded threadId state nextNode request lastHead) q fun _ _ => True := by
  refine follows_revertToYielded (fun head hhead => ?_) fun hnone => ?_
  · rcases hknows with ⟨hnone, _⟩ | ⟨head', hhead', rfl | rfl⟩
    · cases hnone.symm.trans hhead
    · cases hhead.symm.trans hhead'
      exact save_live rfl (fun _ => ⟨trivial, trivial⟩) fun _ => trivial
    · cases hhead.symm.trans hhead'
      exact ⟨rfl, fun _ => trivial⟩
  · rcases hknows with ⟨_, rfl⟩ | ⟨head', hhead', _⟩
    · exact ⟨trivial, fun _ => trivial, fun head => save_live rfl (fun _ => ⟨trivial, trivial⟩) fun _ => trivial⟩
    · cases hnone.symm.trans hhead'

/-- Every call keeps to the head it knows. -/
theorem headKnowing_follows [Merge S] (call : Call S) :
    Follows (headKnowing S) (call.prog threadId) .unread fun _ _ => True := by
  refine follows_call (fun _ => trivial) ⟨trivial, fun _ => rfl⟩ (fun _ => ⟨trivial, fun _ => rfl⟩)
    (fun c r state node input => ?_) fun _ c dag state depth => runDag_knows dag state depth
  refine (runInner_knows state node input).mono fun q x hx => ?_
  rcases x with ⟨e, lastHead⟩ | final
  · refine ⟨trivial, fun _ _ _ => (revertToYielded_knows hx).mono fun _ y _ => ?_⟩
    cases y with
    | ok _ => trivial
    | error _ => exact fun _ => trivial
  · exact ⟨trivial, (headKnowing_silent _ _).nodes⟩

end Call

end Takeln
