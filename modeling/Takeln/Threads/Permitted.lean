import Takeln.Concurrent.Calls

/-!
# The operations of a call

What holds of every operation that a call of the graph performs, whatever was answered before: it is enough that it
holds of the calls of nodes in contexts of the thread, of the waves of the thread, of the recordings with the limit of
the graph, and of everything else.
-/

namespace Takeln

open Effect Effect.Prog

variable {S : Type}

/-- The operations that satisfy `P`, in any order. -/
def permitting (P : Op S → Prop) : Protocol (ops S) Unit where
  allow _ o := P o
  next _ _ _ := ()

section

variable [External]

/-- A predicate that the operations of a call on a thread satisfy. -/
structure Permitted (P : Op S → Prop) (g : Graph S) (threadId : String) : Prop where
  node (name : String) (attempt : Nat) (lastCheckpointId : Option String) (budget : Option Eur) (cancellation : Bool)
    (input : Option Value) (state : S) (timeout : Option Duration) (token : Bool) :
    P (.callNode (.new threadId name attempt lastCheckpointId budget cancellation input) state timeout token)
  wave (tasks : List (WaveTask S)) (htasks : ∀ t ∈ tasks, t.threadId = threadId) : P (.joinWave tasks)
  record (r : ExecutionRecord) : P (.record g.resourceLimits.maxExecutionRecords r)
  head : P (.currentHead threadId)
  save (args : SaveArgs S) : P (.saveStateBound args)
  load : P (.loadState threadId)
  claim (i : String) : P (.claimInterrupt threadId i)
  seq : P .nextSeq
  send (event : GraphEvent) : P (.send event)

namespace Permitted

variable {P : Op S → Prop} {g : Graph S} {threadId : String} {cancellation : Bool} {resolvedInterrupt : Option String}

theorem silent (h : Permitted P g threadId) : Silent (permitting P) () g.resourceLimits.maxExecutionRecords :=
  ⟨⟨h.seq, fun _ => rfl⟩, fun _ => ⟨h.send _, rfl⟩, fun _ => ⟨h.record _, rfl⟩⟩

theorem saves (h : Permitted P g threadId) {args : SaveArgs S} {Φ : Unit → Except TakelnError String → Prop}
    (hΦ : ∀ x, Φ () x) : SaveFollows (permitting P) () args Φ := ⟨h.save args, fun _ => hΦ _⟩

variable [State S]

theorem runInner (h : Permitted P g threadId) (state : S) (node : String) (input : Option Value) :
    Follows (permitting P) (g.runInner threadId cancellation resolvedInterrupt state node input) ()
      fun _ _ => True := by
  refine follows_runInner (I := fun _ _ => True) h.head (fun _ => trivial) (fun _ => trivial) ?_ fun _ _ _ _ => trivial
  rintro ⟨⟩ v -
  refine follows_loopBody_cases (Ψ := fun _ _ => True) h.silent.nodes (fun _ => h.silent.emit _ trivial)
    (fun _ => trivial) (fun _ => h.saves fun x => by cases x <;> trivial) (fun _ => ?_) ?_ ?_
  · refine follows_callNode (J := fun _ => True) (Ψ := fun _ _ => True) ?_ (fun _ _ _ => trivial) trivial
    rintro ⟨⟩ - attempt input timeout token
    exact ⟨h.node _ _ _ _ _ _ _ _ _, fun _ => ⟨fun _ _ => trivial, trivial⟩⟩
  · rintro ⟨⟩ attempt out -
    refine follows_onSuccess h.silent.nodes (fun _ _ _ => trivial) fun _ _ => ⟨fun _ => trivial, h.saves fun x => ?_⟩
    cases x with
    | error e => trivial
    | ok id =>
      dsimp only
      split <;> trivial
  · rintro ⟨⟩ attempt err -
    exact follows_onError h.silent.nodes (fun _ => trivial) fun _ _ => h.saves fun x => by cases x <;> trivial

omit [State S] in
theorem revertToYielded (h : Permitted P g threadId) (state : S) (node : String) (request : YieldRequest)
    (lastHead : Option (Option String)) :
    Follows (permitting P) (Graph.revertToYielded threadId state node request lastHead) () fun _ _ => True :=
  follows_revertToYielded (fun _ _ => h.saves fun _ => trivial)
    fun _ => ⟨h.head, fun _ => trivial, fun _ => h.saves fun _ => trivial⟩

theorem runDag [Merge S] (h : Permitted P g threadId) (dag : DAG) (state : S) (depth : Nat) :
    Follows (permitting P) (g.runDag threadId cancellation dag state depth) () fun _ _ => True := by
  refine follows_runDag (I := fun _ _ => True) (fun _ => trivial) h.head (fun _ => trivial) (fun _ => trivial) ?_
    fun _ _ _ _ => trivial
  rintro ⟨⟩ v -
  refine follows_waveBody h.silent (fun tasks htasks => ⟨h.wave tasks fun t ht => (htasks t ht).2, fun _ => rfl⟩)
    (h.silent.emit _ trivial) (fun _ => trivial) fun args flow dag _ => h.saves fun x => ?_
  cases x with
  | error e => trivial
  | ok id =>
    dsimp only
    cases flow id with
    | stop v' => exact h.silent.emit _ trivial
    | _ => trivial

/-- Every operation of a call satisfies a predicate that is satisfied as above. -/
theorem call [Merge S] {c : Call S} (h : Permitted P c.graph threadId) :
    Follows (permitting P) (c.prog threadId) () fun _ _ => True := by
  refine follows_call (fun _ => trivial) ⟨h.load, fun _ => rfl⟩ (fun _ => ⟨h.claim _, fun _ => rfl⟩)
    (fun _ _ state node input => (h.runInner state node input).mono fun _ x _ => ?_)
    fun _ _ dag state depth => h.runDag dag state depth
  rcases x with ⟨e, lastHead⟩ | final
  · refine ⟨trivial, fun _ _ _ => (h.revertToYielded _ _ _ _).mono fun _ y _ => ?_⟩
    cases y with
    | ok _ => trivial
    | error _ => exact fun _ => trivial
  · exact ⟨trivial, h.silent.nodes⟩

end Permitted

end

end Takeln
