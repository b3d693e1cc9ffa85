import Mathlib.Data.List.TakeWhile
import Takeln.Threads.Executions
import Takeln.Threads.Saves

/-!
# Gates

`interrupt_before` stops the loop of `run_inner` at a node, except on the first step of a call: that is meant for the
resume which goes on from the gate, but every other first step passes as well.  What a call does to a gate is the
protocol `gating`.  The gate of a node is respected in every session whose calls start with that node only where the
latest checkpoint of the thread, one that is not `Complete`, leads to it, and in which what a node returns there is
saved and not rolled back; a call that starts with it from a `Complete` checkpoint never respects it
(`gates_respected`).
-/

namespace Takeln

open Effect Effect.Prog

variable {S : Type}

/-! ### Since -/

/-- Something that satisfies `p` stands in the list, and nothing after it satisfies `q`. -/
def Since {A : Type} (p q : A → Prop) (l : List A) : Prop := ∃ l₁ a l₂, l = l₁ ++ a :: l₂ ∧ p a ∧ ∀ b ∈ l₂, ¬ q b

section Since

variable {A : Type} {p p' q : A → Prop} {l l' : List A} {a : A}

theorem Since.append (h : Since p q l) (hl' : ∀ b ∈ l', ¬ q b) : Since p q (l ++ l') := by
  obtain ⟨l₁, a, l₂, rfl, ha, hl₂⟩ := h
  refine ⟨l₁, a, l₂ ++ l', by simp, ha, fun b hb => ?_⟩
  rcases List.mem_append.1 hb with hb | hb
  · exact hl₂ b hb
  · exact hl' b hb

theorem Since.prepend (h : Since p q l') (l : List A) : Since p q (l ++ l') := by
  obtain ⟨l₁, a, l₂, rfl, ha, hl₂⟩ := h
  exact ⟨l ++ l₁, a, l₂, by simp, ha, hl₂⟩

theorem since_concat (ha : p a) : Since p q (l ++ [a]) := ⟨l, a, [], rfl, ha, fun _ hb => (by cases hb)⟩

theorem Since.mono (h : Since p q l) (hp : ∀ b ∈ l, p b → p' b) : Since p' q l := by
  obtain ⟨l₁, a, l₂, rfl, ha, hl₂⟩ := h
  exact ⟨l₁, a, l₂, rfl, hp a (by simp) ha, hl₂⟩

/-- Of two kinds of things that are not the same, only one comes last. -/
theorem Since.not_swap (h : Since p q l) (hpq : ∀ b, p b → ¬ q b) : ¬ Since q p l := by
  rintro ⟨k₁, b, k₂, hk, hb, hk₂⟩
  obtain ⟨l₁, a, l₂, rfl, ha, hl₂⟩ := h
  rcases List.append_eq_append_iff.1 hk with ⟨m, rfl, hm⟩ | ⟨m, rfl, hm⟩
  · cases m with
    | nil =>
      cases hm
      exact hpq _ ha hb
    | cons c m =>
      cases hm
      exact hl₂ b (by simp) hb
  · cases m with
    | nil =>
      cases hm
      exact hpq _ ha hb
    | cons c m =>
      cases hm
      exact hk₂ a (by simp) ha

end Since

/-! ### What is seen of a gate -/

/-- A node has returned a state. -/
def succeeds : Event (ops S) → Bool
  | ⟨.callNode ctx _ _ _, r⟩ => (CallAnswer.result ctx.nodeName r).isOk
  | _ => false

/-- The checkpoint of the gate before `name` is saved. -/
def SavesGate (threadId name : String) (e : Event (ops S)) : Prop :=
  ∃ args, written e = some args ∧ args.threadId = threadId ∧ args.status = .interrupted ∧ args.nextNode = name

/-- Since the last node that returned a state, the checkpoint of the gate before `name` was saved. -/
def GateSaved (threadId name : String) (tr : List (Event (ops S))) : Prop :=
  Since (SavesGate threadId name) (fun e => succeeds e = true) tr

theorem written_of_calledNode {e : Event (ops S)} {name : String} (h : calledNode e = some name) :
    written e = none := by
  obtain ⟨o, r⟩ := e
  cases o with
  | callNode => rfl
  | _ => cases h

theorem succeeds_of_written {e : Event (ops S)} {args : SaveArgs S} (h : written e = some args) :
    succeeds e = false := by
  obtain ⟨o, r⟩ := e
  cases o with
  | saveStateBound => rfl
  | _ => cases h

/-- The thread stands before `name`: its latest checkpoint leads there and is not that of a completed node. -/
def StandsBefore (name : String) (rows : List MemoryCheckpoint) : Prop :=
  ∃ cp, rows.getLast? = some cp ∧ cp.status ≠ .complete ∧ cp.nextNode = name

/-- The latest checkpoint of the thread is that of a completed node. -/
def Completed (rows : List MemoryCheckpoint) : Prop := ∃ cp, rows.getLast? = some cp ∧ cp.status = .complete

/-- What a claim leaves as it is: the node a checkpoint leads to, and whether it is that of a completed node. -/
def place (status : CheckpointStatus) (nextNode : String) : Bool × String := (decide (status = .complete), nextNode)

def MemoryCheckpoint.place (cp : MemoryCheckpoint) : Bool × String := Takeln.place cp.status cp.nextNode

def SaveArgs.place (args : SaveArgs S) : Bool × String := Takeln.place args.status args.nextNode

/-- The place of the latest checkpoint. -/
def lastPlace (rows : List MemoryCheckpoint) : Option (Bool × String) := (rows.map MemoryCheckpoint.place).getLast?

theorem standsBefore_iff {name : String} {rows : List MemoryCheckpoint} :
    StandsBefore name rows ↔ lastPlace rows = some (false, name) := by
  unfold StandsBefore lastPlace
  rw [List.getLast?_map, Option.map_eq_some_iff]
  refine exists_congr fun cp => and_congr_right fun _ => ?_
  simp [MemoryCheckpoint.place, place]

theorem completed_iff {rows : List MemoryCheckpoint} : Completed rows ↔ ∃ node, lastPlace rows = some (true, node) := by
  unfold Completed lastPlace
  simp only [List.getLast?_map, Option.map_eq_some_iff, MemoryCheckpoint.place, place, Prod.mk.injEq,
    decide_eq_true_eq]
  constructor
  · rintro ⟨cp, hcp, hstatus⟩
    exact ⟨cp.nextNode, cp, hcp, hstatus, rfl⟩
  · rintro ⟨node, cp, hcp, hstatus, _⟩
    exact ⟨cp, hcp, hstatus⟩

theorem lastPlace_concat (rows : List MemoryCheckpoint) (cp : MemoryCheckpoint) :
    lastPlace (rows ++ [cp]) = some cp.place := by simp [lastPlace]

theorem lastPlace_claimLast {rows : List MemoryCheckpoint} {i : String} (h : Open rows i) :
    lastPlace (claimLast rows i) = lastPlace rows := by
  obtain ⟨last, hlast, hstatus, _⟩ := h.2
  have hlast' : rows.getLast? = some last := hlast
  simp [lastPlace, claimLast, hlast', MemoryCheckpoint.place, place, MemoryCheckpoint.claimedFor, hstatus]

/-! ### What a call does to a gate -/

/-- How far a call is. -/
structure Stage where
  /-- it has claimed an interrupt -/
  claimed : Bool := false
  /-- the node that the claimed checkpoint leads to -/
  resumed : Option String := none
  /-- it has executed the node with the gate -/
  entered : Bool := false
  /-- a node has returned a state that is not saved yet -/
  returned : Bool := false
  /-- it has saved something -/
  saved : Bool := false
  /-- it has saved a checkpoint at which it stops -/
  stopped : Bool := false

/-- The stage after a save was accepted. -/
def Stage.save (q : Stage) (status : CheckpointStatus) : Stage :=
  { q with saved := true, returned := false, stopped := decide (status ≠ .complete) }

/-- A checkpoint of a completed node has its state, and `Yielded` leads to the gate only where the call has executed its
node or has claimed a checkpoint that leads to it. -/
def Stage.Saves (q : Stage) (name : String) (args : SaveArgs S) : Prop :=
  args.status = .complete ∧ q.returned = true ∨ args.status = .interrupted ∨
    args.status = .yielded ∧ (args.nextNode = name → q.entered = true ∨ q.resumed = some name)

/-- A call claims and loads before it saves, executes `name` only before that, and stops at a checkpoint that is not
that of a completed node. -/
def gating (S : Type) (threadId name : String) : Protocol (ops S) Stage where
  allow
    | q, .loadState t => t = threadId ∧ q.saved = false
    | q, .claimInterrupt t _ => t = threadId ∧ q.saved = false
    | q, .callNode ctx _ _ _ => q.returned = false ∧ q.stopped = false ∧ (q.saved = true → ctx.nodeName ≠ name)
    | q, .saveStateBound args => args.threadId = threadId ∧ q.stopped = false ∧ q.Saves name args
    | _, .joinWave _ => False
    | _, _ => True
  next
    | q, .claimInterrupt _ _, .ok .claimed => { q with claimed := true }
    | q, .loadState _, .ok (some loaded) => { q with resumed := if q.claimed then some loaded.info.nextNode else none }
    | q, .callNode ctx _ _ _, r =>
      { q with entered := q.entered || ctx.nodeName == name, returned := (CallAnswer.result ctx.nodeName r).isOk }
    | q, .saveStateBound args, r =>
      if (written (S := S) ⟨.saveStateBound args, r⟩).isSome then q.save args.status else q
    | q, _, _ => q

section Call

variable {threadId name : String}

theorem gating_silent (q : Stage) (max : Nat) : Silent (gating S threadId name) q max :=
  ⟨⟨trivial, fun _ => rfl⟩, fun _ => ⟨trivial, rfl⟩, fun _ => ⟨trivial, rfl⟩⟩

theorem gating_save {q : Stage} {args : SaveArgs S} {Φ : Stage → Except TakelnError String → Prop}
    (ht : args.threadId = threadId) (hstopped : q.stopped = false) (hsaves : q.Saves name args)
    (herr : ∀ e, Φ q (.error e)) (hok : ∀ id, Φ (q.save args.status) (.ok id)) :
    SaveFollows (gating S threadId name) q args Φ := by
  refine ⟨⟨ht, hstopped, hsaves⟩, fun r => ?_⟩
  rcases r with e | save
  · exact herr e
  · cases save with
    | conflict actual => exact herr _
    | _ => exact hok _

variable [External] [State S] {g : Graph S} {cancellation : Bool} {resolvedInterrupt : Option String}

/-- The stage of a call between the rounds of its loop. -/
def Stage.Between (resumed : Option String) (q : Stage) : Prop :=
  q.returned = false ∧ q.stopped = false ∧ q.resumed = resumed

/-- The stage after the node of the loop state `v` has answered with `x`. -/
structure Stage.Answered (name : String) (resumed : Option String) (v : Loop S) (q : Stage)
    (x : Except GraphError (NodeOutput S)) : Prop where
  stopped : q.stopped = false
  resumed : q.resumed = resumed
  entered : v.currentNodeName = name → q.entered = true
  returned : q.returned = x.isOk

omit [State S] in
theorem callNode_gating {v : Loop S} {q : Stage} {resumed : Option String}
    {Φ : Stage → Except RunError (Nat × Except GraphError (NodeOutput S)) → Prop} (hq : q.Between resumed)
    (hsaved : q.saved = true → v.currentNodeName ≠ name)
    (h : ∀ q' x, q'.Answered name resumed v x.2 → Φ q' (.ok x)) :
    Follows (gating S threadId name) (g.callNode threadId cancellation v) q Φ := by
  refine follows_callNode (J := fun q' => q'.Between resumed ∧ (q'.saved = true → v.currentNodeName ≠ name))
    (Ψ := fun q' x => q'.Answered name resumed v x) ?_ h ⟨hq, hsaved⟩
  rintro q' ⟨⟨hreturned, hstopped, hresumed⟩, hsaved'⟩ attempt input timeout token
  refine ⟨⟨hreturned, hstopped, hsaved'⟩, fun r => ⟨fun msg hmsg => ⟨⟨?_, hstopped, hresumed⟩, hsaved'⟩, ?_⟩⟩
  · change (CallAnswer.result v.currentNodeName r).isOk = false
    rw [hmsg]
    rfl
  · refine ⟨hstopped, hresumed, fun hname => ?_, rfl⟩
    change (q'.entered || v.currentNodeName == name) = true
    rw [hname, beq_self_eq_true, Bool.or_true]

/-- What a failed or ended run leaves. -/
def Stage.Left (resumed : Option String) {A B : Type} (q : Stage) (x : Except A B) : Prop :=
  x.isOk = false → q.stopped = false ∧ q.resumed = resumed

theorem runInner_gating (hgate : name ∈ g.interruptBefore) (resumed : Option String) (state : S) (node : String)
    (input : Option Value) {q₀ : Stage} (hq₀ : q₀.Between resumed) (hunsaved : q₀.saved = false) :
    Follows (gating S threadId name) (g.runInner threadId cancellation resolvedInterrupt state node input) q₀
      (Stage.Left resumed) := by
  refine follows_runInner (I := fun q v => q.Between resumed ∧ (q.saved = true → v.isFirstStep = false)) trivial
    (fun _ _ => ⟨hq₀.2.1, hq₀.2.2⟩) (fun _ => ⟨hq₀, fun h => absurd h (by simp [gating, hunsaved])⟩) ?_
    fun q v e h _ => ⟨h.1.2.1, h.1.2.2⟩
  rintro q v ⟨hq, hfirst⟩
  obtain ⟨hreturned, hstopped, hresumed⟩ := hq
  refine follows_loopBody_cases (Ψ := fun q' y => q'.Answered name resumed v y.2)
    (gating_silent _ _).nodes (fun _ => (gating_silent _ 0).emit _ fun h => Bool.noConfusion h)
    (fun _ _ => ⟨hstopped, hresumed⟩)
    (fun _ => gating_save rfl hstopped (Or.inr (Or.inl rfl)) (fun _ _ => ⟨hstopped, hresumed⟩)
      fun _ h => Bool.noConfusion h) (fun hruns => ?_) ?_ ?_
  · exact callNode_gating ⟨hreturned, hstopped, hresumed⟩
      (fun hsaved hname => hruns.2.1 ⟨hfirst hsaved, hname ▸ hgate⟩) fun _ _ h => h
  · intro q' attempt out ha
    refine follows_onSuccess (gating_silent _ _).nodes (fun _ _ _ _ => ⟨ha.stopped, ha.resumed⟩) fun _ _ =>
      ⟨fun _ _ => ⟨ha.stopped, ha.resumed⟩, gating_save rfl ha.stopped (Or.inl ⟨rfl, ha.returned⟩)
        (fun _ _ => ⟨ha.stopped, ha.resumed⟩) fun id => ?_⟩
    dsimp only
    by_cases hafter : v.currentNodeName ∈ g.interruptAfter
    · rw [if_pos hafter]
      exact fun h => Bool.noConfusion h
    · rw [if_neg hafter]
      exact ⟨⟨rfl, rfl, ha.resumed⟩, fun _ => rfl⟩
  · intro q' attempt err ha
    refine follows_onError (gating_silent _ _).nodes (fun _ _ => ⟨ha.stopped, ha.resumed⟩) fun request _ => ?_
    exact gating_save rfl ha.stopped (Or.inr (Or.inr ⟨rfl, fun hname => Or.inl (ha.entered hname)⟩))
      (fun _ _ => ⟨ha.stopped, ha.resumed⟩) fun _ h => Bool.noConfusion h

/-- A call of the sequential engine on a graph with the gate keeps to `gating`. -/
theorem call_gating [Merge S] {call : Call S} (hseq : call.dag = none) (hgate : name ∈ call.graph.interruptBefore) :
    Follows (gating S threadId name) (call.prog threadId) {} fun _ _ => True := by
  have drop {A : Type} {p : Prog (ops S) TakelnError A}
      (hp : Follows (gating S threadId name) p {} fun _ _ => True) :
      Follows (gating S threadId name) (p.bind fun _ => .ret ()) {} fun _ _ => True := by
    rw [follows_bind]
    refine hp.mono fun q x _ => ?_
    cases x <;> trivial
  have resumeWith (g : Graph S) (hgate : name ∈ g.interruptBefore) (c : Bool) (rebind : S → S) :
      Follows (gating S threadId name) (g.resumeWith threadId c rebind) {} fun _ _ => True :=
    follows_resumeWith ⟨rfl, rfl⟩ (fun _ _ => trivial) fun loaded node _ =>
      (runInner_gating hgate none _ _ _ ⟨rfl, rfl, rfl⟩ rfl).mono fun _ _ _ => trivial
  cases call with
  | run g c state startNode =>
    refine drop ?_
    unfold Graph.run
    rw [follows_mapError]
    exact (runInner_gating hgate none state startNode none ⟨rfl, rfl, rfl⟩ rfl).mono fun _ _ _ => trivial
  | resume g c => exact drop (resumeWith g hgate c id)
  | resumeWith g c rebind => exact drop (resumeWith g hgate c rebind)
  | resumeWithInput g c i input context =>
    refine drop (follows_resumeWithInput ⟨rfl, rfl⟩ (fun _ _ => trivial)
      (fun claim => ?_) (fun _ _ _ => trivial) fun loaded request => follows_runClaimed ?_)
    · cases claim <;> exact ⟨rfl, rfl⟩
    refine (runInner_gating hgate (some loaded.info.nextNode) _ _ _ ⟨rfl, rfl, rfl⟩ rfl).mono
      fun q x hx => ?_
    rcases x with ⟨e, lastHead⟩ | final
    · obtain ⟨hstopped, hresumed⟩ := hx rfl
      have hrevert (head : Option String) (Φ : Stage → Except TakelnError String → Prop) (hΦ : ∀ q x, Φ q x) :
          SaveFollows (gating S threadId name) q
            (Graph.revertSave threadId loaded.state loaded.info.nextNode request head) Φ :=
        gating_save rfl hstopped (Or.inr (Or.inr ⟨rfl, fun hname => Or.inr (hresumed.trans (congrArg some hname))⟩))
          (fun _ => hΦ _ _) fun _ => hΦ _ _
      refine follows_revertToYielded (fun head _ => hrevert head _ fun _ y => ?_) fun _ =>
        ⟨trivial, fun _ msg => ⟨trivial, fun _ h => (by cases h)⟩, fun head => hrevert head _ fun _ y => ?_⟩
      · cases y with
        | ok _ => exact ⟨trivial, fun _ h => (by cases h)⟩
        | error _ => exact fun _ => ⟨trivial, fun _ h => (by cases h)⟩
      · cases y with
        | ok _ => exact ⟨trivial, fun _ h => (by cases h)⟩
        | error _ => exact fun _ => ⟨trivial, fun _ h => (by cases h)⟩
    · exact ⟨trivial, fun _ _ => (gating_silent _ _).nodes⟩
  | runDag g c dag state depth => cases hseq
  | resumeDag g c dag depth => cases hseq

end Call

/-! ### What a call leaves -/

section Memory

variable [State S] {env : Env S} {threadId name : String}

/-- What the stage of a call says of its operations and of the thread, which had the checkpoints `rows₀` before it. -/
structure Stage.Fits (threadId name : String) (rows₀ : List MemoryCheckpoint) (q : Stage)
    (tr : List (Event (ops S))) (rows : List MemoryCheckpoint) : Prop where
  entered : q.entered = true → ∃ done e rest, tr = done ++ e :: rest ∧ writes done = [] ∧ calledNode e = some name
  claimed : q.claimed = true → ∃ node, lastPlace rows₀ = some (false, node)
  resumed : ∀ node, q.resumed = some node → lastPlace rows₀ = some (false, node)
  returned : q.returned = true → Since (fun e => succeeds e = true) (SavesGate threadId name) tr
  unreturned : q.returned = false → q.saved = false → ∀ e ∈ tr, succeeds e = false
  unsaved : q.saved = false → writes tr = [] ∧ q.stopped = false ∧ lastPlace rows = lastPlace rows₀
  running : q.saved = true → q.stopped = false →
    Since (fun e => succeeds e = true) (SavesGate threadId name) tr ∧ ∃ node, lastPlace rows = some (true, node)
  stopped : q.stopped = true → ∃ node, lastPlace rows = some (false, node) ∧ (node = name →
    Since (SavesGate threadId name) (fun e => succeeds e = true) tr ∨ (q.entered = true ∨ q.resumed = some name) ∧
      Since (fun e => ∃ args, written e = some args ∧ args.threadId = threadId ∧ args.status = .yielded ∧
        args.nextNode = name) (fun e => succeeds e = true) tr)

omit [State S] in
theorem Stage.fits_start (rows : List MemoryCheckpoint) :
    Stage.Fits threadId name rows {} ([] : List (Event (ops S))) rows where
  entered h := Bool.noConfusion h
  claimed h := Bool.noConfusion h
  resumed _ h := (by cases h)
  returned h := Bool.noConfusion h
  unreturned _ _ _ h := (by cases h)
  unsaved _ := ⟨rfl, rfl, rfl⟩
  running h := Bool.noConfusion h
  stopped h := Bool.noConfusion h

variable {rows₀ rows rows' : List MemoryCheckpoint} {q : Stage} {tr : List (Event (ops S))}

omit [State S] in
/-- An operation that saves nothing and returns no state. -/
theorem Stage.Fits.idle (h : q.Fits threadId name rows₀ tr rows) {e : Event (ops S)} (hw : written e = none)
    (hs : succeeds e = false) (hrows : lastPlace rows' = lastPlace rows) :
    q.Fits threadId name rows₀ (tr ++ [e]) rows' := by
  have hsave : ∀ b ∈ [e], ¬ SavesGate threadId name b := by
    intro b hb hsaves
    obtain ⟨args, hargs, _⟩ := hsaves
    rw [List.mem_singleton.1 hb, hw] at hargs
    cases hargs
  have hsucc : ∀ b ∈ [e], ¬ succeeds b = true := by
    intro b hb
    rw [List.mem_singleton.1 hb, hs]
    exact Bool.false_ne_true
  refine ⟨fun hq => ?_, h.claimed, h.resumed, fun hq => (h.returned hq).append hsave, fun hr hq b hb => ?_,
    fun hq => ?_, fun hq hq' => ?_, fun hq => ?_⟩
  · obtain ⟨done, e', rest, rfl, hdone, he'⟩ := h.entered hq
    exact ⟨done, e', rest ++ [e], by simp, hdone, he'⟩
  · rcases List.mem_append.1 hb with hb | hb
    · exact h.unreturned hr hq b hb
    · exact Bool.eq_false_iff.2 (hsucc b hb)
  · obtain ⟨hwrites, hstopped, hlast⟩ := h.unsaved hq
    refine ⟨?_, hstopped, hrows.trans hlast⟩
    rw [writes_append, hwrites]
    simp [writes, hw]
  · obtain ⟨hsince, node, hlast⟩ := h.running hq hq'
    exact ⟨hsince.append hsave, node, hrows.trans hlast⟩
  · obtain ⟨node, hlast, hnode⟩ := h.stopped hq
    refine ⟨node, hrows.trans hlast, fun hname => ?_⟩
    rcases hnode hname with hsince | ⟨horigin, hsince⟩
    · exact Or.inl (hsince.append hsucc)
    · exact Or.inr ⟨horigin, hsince.append hsucc⟩

omit [State S] in
/-- A node is called. -/
theorem Stage.Fits.callNode (h : q.Fits threadId name rows₀ tr rows) {ctx : NodeContext} {state : S}
    {timeout : Option Duration} {token : Bool} (r : CallAnswer S timeout token)
    (hallow : (gating S threadId name).allow q (.callNode ctx state timeout token))
    (hrows : lastPlace rows' = lastPlace rows) :
    ((gating S threadId name).next q (.callNode ctx state timeout token) r).Fits threadId name rows₀
      (tr ++ [⟨.callNode ctx state timeout token, r⟩]) rows' := by
  obtain ⟨hreturned, hstopped, hname⟩ := hallow
  have hgate : ∀ b ∈ [(⟨.callNode ctx state timeout token, r⟩ : Event (ops S))], ¬ SavesGate threadId name b := by
    rintro b hb ⟨args, hargs, _⟩
    rw [List.mem_singleton.1 hb] at hargs
    cases hargs
  refine ⟨fun hq => ?_, h.claimed, h.resumed, fun hq => since_concat hq, fun hr hq b hb => ?_, fun hq => ?_,
    fun hq hq' => ?_, fun hq => ?_⟩
  · rcases Bool.or_eq_true _ _ ▸ hq with hq | hq
    · obtain ⟨done, e, rest, rfl, hdone, he⟩ := h.entered hq
      exact ⟨done, e, _, List.append_assoc _ _ _, hdone, he⟩
    · have hctx : ctx.nodeName = name := eq_of_beq hq
      have hunsaved : q.saved = false := by
        cases hsaved : q.saved with
        | false => rfl
        | true => exact absurd hctx (hname hsaved)
      exact ⟨tr, _, [], rfl, (h.unsaved hunsaved).1, congrArg some hctx⟩
  · rcases List.mem_append.1 hb with hb | hb
    · exact h.unreturned hreturned hq b hb
    · rw [List.mem_singleton.1 hb]
      exact hr
  · obtain ⟨hwrites, _, hlast⟩ := h.unsaved hq
    refine ⟨?_, hstopped, hrows.trans hlast⟩
    rw [writes_append, hwrites]
    rfl
  · obtain ⟨hsince, node, hlast⟩ := h.running hq hstopped
    exact ⟨hsince.append hgate, node, hrows.trans hlast⟩
  · exact absurd (hstopped.symm.trans hq) Bool.false_ne_true

omit [State S] in
/-- A save is accepted. -/
theorem Stage.Fits.save (h : q.Fits threadId name rows₀ tr rows) {args : SaveArgs S}
    (hallow : (gating S threadId name).allow q (.saveStateBound args)) {e : Event (ops S)} (hw : written e = some args)
    (hrows : lastPlace rows' = some args.place) :
    (q.save args.status).Fits threadId name rows₀ (tr ++ [e]) rows' := by
  obtain ⟨ht, hstopped, hsaves⟩ := hallow
  have hentered (hq : q.entered = true) :
      ∃ done e' rest, tr ++ [e] = done ++ e' :: rest ∧ writes done = [] ∧ calledNode e' = some name := by
    obtain ⟨done, e', rest, rfl, hdone, he'⟩ := h.entered hq
    exact ⟨done, e', rest ++ [e], by simp, hdone, he'⟩
  by_cases hcomplete : args.status = .complete
  · have hreturned : q.returned = true := by simpa [Stage.Saves, hcomplete] using hsaves
    have hgate : ∀ b ∈ [e], ¬ SavesGate threadId name b := by
      rintro b hb ⟨args', hargs', _, hstatus, _⟩
      rw [List.mem_singleton.1 hb, hw] at hargs'
      cases hargs'
      rw [hcomplete] at hstatus
      cases hstatus
    refine ⟨hentered, h.claimed, h.resumed, fun hq => Bool.noConfusion hq, fun _ hq => Bool.noConfusion hq,
      fun hq => Bool.noConfusion hq, fun _ _ => ⟨(h.returned hreturned).append hgate, args.nextNode, ?_⟩,
      fun hq => absurd hcomplete (of_decide_eq_true hq)⟩
    rw [hrows, SaveArgs.place, place, decide_eq_true hcomplete]
  · have hlast : lastPlace rows' = some (false, args.nextNode) := by
      rw [hrows, SaveArgs.place, place, decide_eq_false hcomplete]
    refine ⟨hentered, h.claimed, h.resumed, fun hq => Bool.noConfusion hq, fun _ hq => Bool.noConfusion hq,
      fun hq => Bool.noConfusion hq, fun _ hq => absurd (not_not.1 (of_decide_eq_false hq)) hcomplete,
      fun _ => ⟨args.nextNode, hlast, fun hname => ?_⟩⟩
    rcases hsaves with ⟨hstatus, _⟩ | hstatus | ⟨hstatus, horigin⟩
    · exact absurd hstatus hcomplete
    · exact Or.inl (since_concat ⟨args, hw, ht, hstatus, hname⟩)
    · exact Or.inr ⟨horigin hname, since_concat ⟨args, hw, ht, hstatus, hname⟩⟩

omit [State S] in
theorem lastPlace_of_open {i : String} (h : Open rows i) : ∃ node, lastPlace rows = some (false, node) := by
  obtain ⟨last, hlast, hstatus, _⟩ := h.2
  exact ⟨last.nextNode, standsBefore_iff.1 ⟨last, hlast, by simp [hstatus], rfl⟩⟩

omit [State S] in
/-- The claimed checkpoint is loaded. -/
theorem Stage.Fits.load (h : q.Fits threadId name rows₀ tr rows) (hunsaved : q.saved = false) {e : Event (ops S)}
    (hw : written e = none) (hs : succeeds e = false) {last : MemoryCheckpoint} (hlast : rows.getLast? = some last) :
    Stage.Fits threadId name rows₀ { q with resumed := if q.claimed then some last.nextNode else none } (tr ++ [e])
      rows := by
  have hidle : q.Fits threadId name rows₀ (tr ++ [e]) rows := h.idle hw hs rfl
  refine { hidle with resumed := fun node hnode => ?_, stopped := fun hq => ?_ }
  · by_cases hclaimed : q.claimed = true
    · obtain ⟨node', hnode'⟩ := h.claimed hclaimed
      have hrows := (h.unsaved hunsaved).2.2.trans hnode'
      have hnext : last.nextNode = node := Option.some.inj ((if_pos hclaimed).symm.trans hnode)
      rw [lastPlace, List.getLast?_map, hlast] at hrows
      have hnode'' : last.nextNode = node' := congrArg Prod.snd (Option.some.inj hrows)
      rw [hnode', ← hnext, hnode'']
    · rw [if_neg hclaimed] at hnode
      cases hnode
  · exact absurd ((h.unsaved hunsaved).2.1.symm.trans hq) Bool.false_ne_true

/-- What an operation of a call adds. -/
theorem Stage.fits_memory {w w' : World} {o : Op S} {r : o.Answer}
    (hallow : (gating S threadId name).allow q o) (hr : memory env w o = some (r, w'))
    (h : q.Fits threadId name rows₀ tr (w.rows threadId)) :
    ((gating S threadId name).next q o r).Fits threadId name rows₀ (tr ++ [⟨o, r⟩]) (w'.rows threadId) := by
  have hstep := threadStep_of_memory hr threadId
  cases o with
  | saveStateBound args =>
    change (if (written (S := S) ⟨.saveStateBound args, r⟩).isSome then q.save args.status else q).Fits _ _ _ _ _
    cases hw : written (S := S) ⟨.saveStateBound args, r⟩ with
    | none =>
      cases hstep with
      | idle hrows => exact h.idle hw rfl (by rw [hrows])
      | saved => cases hw
    | some args' =>
      cases hstep with
      | idle hrows hsaves =>
        have hargs : args' = args := by
          rcases r with e | save
          · cases hw
          · cases save <;> cases hw <;> rfl
        subst hargs
        exact absurd hallow.1 (hsaves _ hw)
      | saved _ val ht hval hrows =>
        cases hw
        exact h.save hallow rfl (by rw [hrows, lastPlace_concat]; rfl)
  | claimInterrupt t i =>
    obtain ⟨rfl, hunsaved⟩ := hallow
    rcases r with e | claim
    · cases hstep with
      | idle hrows => exact h.idle rfl rfl (by rw [hrows])
    · cases hstep with
      | idle hrows _ hclaims =>
        cases claim with
        | claimed => exact absurd rfl (hclaims i)
        | _ => exact h.idle rfl rfl (by rw [hrows])
      | claimed _ hopen hrows =>
        have hidle := h.idle (e := ⟨.claimInterrupt t i, .ok .claimed⟩) rfl rfl
          (hrows ▸ lastPlace_claimLast hopen)
        obtain ⟨node, hnode⟩ := lastPlace_of_open hopen
        exact { hidle with claimed := fun _ => ⟨node, (h.unsaved hunsaved).2.2.symm.trans hnode⟩ }
  | loadState t =>
    obtain ⟨rfl, hunsaved⟩ := hallow
    cases hstep with
    | idle hrows =>
      rcases r with e | _ | loaded
      · exact h.idle rfl rfl (by rw [hrows])
      · exact h.idle rfl rfl (by rw [hrows])
      · obtain ⟨hload, rfl⟩ := Prod.mk.inj (Option.some.inj hr)
        obtain ⟨last, hlast, hlast'⟩ := MemoryStore.loadState_eq_ok hload
        change Stage.Fits t name rows₀ { q with resumed := if q.claimed then some loaded.info.nextNode else none } _ _
        rw [(MemoryCheckpoint.load_eq_ok_iff.1 hlast').2.1]
        exact h.load hunsaved rfl rfl hlast
  | callNode ctx state timeout token =>
    cases hstep with
    | idle hrows => exact h.callNode r hallow (by rw [hrows])
  | joinWave tasks => exact hallow.elim
  | _ =>
    cases hstep with
    | idle hrows => exact h.idle rfl rfl (by rw [hrows])

theorem Stage.fits_of_reaches [External] [Merge S] {call : Call S} (hseq : call.dag = none)
    (hgate : name ∈ call.graph.interruptBefore) {w w' : World} {p : Prog (ops S) TakelnError Unit}
    (hr : Reaches (memory env) (call.prog threadId) w tr p w') :
    ((gating S threadId name).after {} tr).Fits threadId name (w.rows threadId) tr (w'.rows threadId) :=
  (call_gating hseq hgate).invariant
    (I := fun q tr w' => q.Fits threadId name (w.rows threadId) tr (w'.rows threadId))
    (fun _ _ _ _ _ _ hallow hr h => Stage.fits_memory hallow hr h) hr (Stage.fits_start _)

end Memory

/-! ### Calls that keep a gate -/

/-- What a call does before its first save. -/
def beforeSave (tr : List (Event (ops S))) : List (Event (ops S)) := tr.takeWhile fun e => (written e).isNone

/-- What a call does from the first node on that returns a state. -/
def fromSuccess (tr : List (Event (ops S))) : List (Event (ops S)) := tr.dropWhile fun e => !succeeds e

/-- A call that finds the checkpoints `rows` begins with `name` only where the thread stands before it, and where the
thread stands there, it saves what the first node returns, and does not roll back to `name` after that. -/
structure KeepsGate (threadId name : String) (rows : List MemoryCheckpoint) (tr : List (Event (ops S))) : Prop where
  begins : name ∈ executions (beforeSave tr) → StandsBefore name rows
  saved : StandsBefore name rows → (∃ e ∈ beforeSave tr, succeeds e = true) →
    ∃ args ∈ savesOf threadId tr, args.status = .complete
  kept : StandsBefore name rows → ∀ args ∈ savesOf threadId (fromSuccess tr), args.status = .yielded →
    args.nextNode ≠ name

section Call

variable {threadId name : String} {rows₀ rows : List MemoryCheckpoint} {q : Stage} {tr past : List (Event (ops S))}

theorem beforeSave_eq_append {done rest : List (Event (ops S))} (h : writes done = []) :
    beforeSave (done ++ rest) = done ++ beforeSave rest := by
  refine List.takeWhile_append_of_pos fun e he => ?_
  cases hw : written e with
  | none => rfl
  | some args =>
    have hmem : args ∈ writes done := List.mem_filterMap.2 ⟨e, he, hw⟩
    rw [h] at hmem
    cases hmem

theorem mem_executions_beforeSave {done rest : List (Event (ops S))} {e : Event (ops S)} (h : writes done = [])
    (he : calledNode e = some name) : name ∈ executions (beforeSave (done ++ e :: rest)) := by
  rw [beforeSave_eq_append h, beforeSave, List.takeWhile_cons, written_of_calledNode he, executions_append]
  refine List.mem_append_right _ (List.mem_filterMap.2 ⟨e, List.mem_cons_self, he⟩)

theorem mem_savesOf_fromSuccess {l₁ l₂ : List (Event (ops S))} {e : Event (ops S)} {args : SaveArgs S}
    (hw : written e = some args) (ht : args.threadId = threadId) (hl₁ : ∃ b ∈ l₁, succeeds b = true) :
    args ∈ savesOf threadId (fromSuccess (l₁ ++ e :: l₂)) := by
  obtain ⟨b, hb, hsucc⟩ := hl₁
  have hne : l₁.dropWhile (fun e => !succeeds e) ≠ [] := by
    intro hnil
    have hb' := List.dropWhile_eq_nil_iff.1 hnil b hb
    rw [hsucc] at hb'
    cases hb'
  rw [fromSuccess, List.dropWhile_append, if_neg (by simpa using hne)]
  refine List.mem_filter.2 ⟨List.mem_filterMap.2 ⟨e, ?_, hw⟩, decide_eq_true ht⟩
  exact List.mem_append_right _ List.mem_cons_self

/-- A thread that stands before a gate after a call either was saved there by it, or stood there before and no node has
returned a state. -/
theorem Stage.Fits.gateSaved (h : q.Fits threadId name rows₀ tr rows) (hkeeps : KeepsGate threadId name rows₀ tr)
    (hpast : StandsBefore name rows₀ → GateSaved threadId name past) (hrows : StandsBefore name rows) :
    GateSaved threadId name (past ++ tr) := by
  rw [standsBefore_iff] at hrows
  cases hstopped : q.stopped with
  | true =>
    obtain ⟨node, hlast, hnode⟩ := h.stopped hstopped
    have hname : node = name := by
      rw [hrows] at hlast
      exact (congrArg Prod.snd (Option.some.inj hlast)).symm
    rcases hnode hname with hgate | ⟨horigin, l₁, e, l₂, rfl, ⟨args, hw, ht, hstatus, hnext⟩, hl₂⟩
    · exact hgate.prepend past
    have hstands : StandsBefore name rows₀ := by
      rcases horigin with hentered | hresumed
      · obtain ⟨done, e', rest, htr, hdone, he'⟩ := h.entered hentered
        exact hkeeps.begins (htr ▸ mem_executions_beforeSave hdone he')
      · exact standsBefore_iff.2 (h.resumed name hresumed)
    refine (hpast hstands).append fun b hb hsucc => ?_
    rcases List.mem_append.1 hb with hb | hb
    · exact hkeeps.kept hstands args (mem_savesOf_fromSuccess hw ht ⟨b, hb, hsucc⟩) hstatus hnext
    rcases List.mem_cons.1 hb with rfl | hb
    · rw [succeeds_of_written hw] at hsucc
      cases hsucc
    · exact hl₂ b hb hsucc
  | false =>
    cases hsaved : q.saved with
    | true =>
      obtain ⟨_, node, hlast⟩ := h.running hsaved hstopped
      rw [hrows] at hlast
      cases hlast
    | false =>
      obtain ⟨hwrites, _, hlast⟩ := h.unsaved hsaved
      have hstands : StandsBefore name rows₀ := standsBefore_iff.2 (hlast.symm.trans hrows)
      refine (hpast hstands).append fun b hb hsucc => ?_
      have hbefore : beforeSave (tr ++ []) = tr ++ [] := beforeSave_eq_append hwrites
      rw [List.append_nil] at hbefore
      obtain ⟨args, hargs, _⟩ := hkeeps.saved hstands ⟨b, hbefore.symm ▸ hb, hsucc⟩
      rw [savesOf, hwrites] at hargs
      cases hargs

/-- A thread whose latest checkpoint is that of a completed node has saved no gate since a node returned a state. -/
theorem Stage.Fits.completed (h : q.Fits threadId name rows₀ tr rows)
    (hpast : Completed rows₀ → Since (fun e => succeeds e = true) (SavesGate threadId name) past)
    (hrows : Completed rows) : Since (fun e => succeeds e = true) (SavesGate threadId name) (past ++ tr) := by
  obtain ⟨node, hnode⟩ := completed_iff.1 hrows
  cases hstopped : q.stopped with
  | true =>
    obtain ⟨_, hlast, _⟩ := h.stopped hstopped
    rw [hnode] at hlast
    cases hlast
  | false =>
    cases hsaved : q.saved with
    | true => exact (h.running hsaved hstopped).1.prepend past
    | false =>
      obtain ⟨hwrites, _, hlast⟩ := h.unsaved hsaved
      refine (hpast (completed_iff.2 ⟨node, hlast.symm.trans hnode⟩)).append fun b hb hgate => ?_
      obtain ⟨args, hargs, _⟩ := hgate
      have hmem : args ∈ writes tr := List.mem_filterMap.2 ⟨b, hb, hargs⟩
      rw [hwrites] at hmem
      cases hmem

end Call

/-! ### Gates in a session -/

section Session

variable [External] [State S] [Merge S] {env : Env S} {threadId name : String} {w₀ w : World}
  {calls : List (Call S × List (Event (ops S)))}

/-- Every call is one of the sequential engine on a graph with the gate. -/
def Gated (name : String) (calls : List (Call S × List (Event (ops S)))) : Prop :=
  ∀ c ∈ calls, c.1.dag = none ∧ name ∈ c.1.graph.interruptBefore

/-- Every call keeps the gate of `name` on the thread as it finds it. -/
def KeepsGates (env : Env S) (threadId name : String) (w₀ : World) (calls : List (Call S × List (Event (ops S)))) :
    Prop :=
  ∀ earlier call tr later w₁, calls = earlier ++ (call, tr) :: later →
    Session (memory env) (Call.prog threadId) w₀ earlier w₁ → KeepsGate threadId name (w₁.rows threadId) tr

theorem KeepsGates.of_append {calls' : List (Call S × List (Event (ops S)))}
    (h : KeepsGates env threadId name w₀ (calls ++ calls')) : KeepsGates env threadId name w₀ calls := by
  rintro earlier call tr later w₁ rfl hS
  exact h earlier call tr (later ++ calls') w₁ (by simp) hS

omit [External] [State S] [Merge S] in
theorem Gated.of_append {calls' : List (Call S × List (Event (ops S)))} (h : Gated name (calls ++ calls')) :
    Gated name calls := fun c hc => h c (List.mem_append_left _ hc)

theorem keepsGates_nil : KeepsGates env threadId name w₀ [] := by
  intro earlier call tr later w₁ hcalls
  simp at hcalls

theorem KeepsGates.concat {call : Call S} {tr : List (Event (ops S))} (h : KeepsGates env threadId name w₀ calls)
    (hS : Session (memory env) (Call.prog threadId) w₀ calls w) (hcall : KeepsGate threadId name (w.rows threadId) tr) :
    KeepsGates env threadId name w₀ (calls ++ [(call, tr)]) := by
  intro earlier call' tr' later w₁ hcalls hearlier
  rcases List.eq_nil_or_concat later with rfl | ⟨later', last, rfl⟩
  · obtain ⟨rfl, hlast⟩ := List.append_inj' hcalls rfl
    cases hlast
    exact hearlier.unique hS ▸ hcall
  · rw [List.concat_eq_append, ← List.cons_append, ← List.append_assoc] at hcalls
    exact h _ _ _ _ w₁ (List.append_inj' hcalls rfl).1 hearlier

/-- In a session whose calls keep a gate, a thread that stands before it was saved there since the last node that
returned a state. -/
theorem gateSaved_of_session (hS : Session (memory env) (Call.prog threadId) w₀ calls w)
    (hempty : w₀.rows threadId = []) (hgated : Gated name calls) (hkeeps : KeepsGates env threadId name w₀ calls)
    (hstands : StandsBefore name (w.rows threadId)) : GateSaved threadId name (performed calls) := by
  induction hS with
  | start =>
    obtain ⟨cp, hcp, _⟩ := hstands
    rw [hempty] at hcp
    cases hcp
  | @call calls w w' hprev c tr p hr ih =>
    obtain ⟨hseq, hgate⟩ := hgated (c, tr) (by simp)
    rw [performed_append, performed_cons, performed_nil, List.append_nil]
    exact (Stage.fits_of_reaches hseq hgate hr).gateSaved (hkeeps calls c tr [] w rfl hprev)
      (ih hgated.of_append hkeeps.of_append) hstands

/-- After a checkpoint of a completed node no gate was saved since a node returned a state. -/
theorem since_succeeds_of_session (hS : Session (memory env) (Call.prog threadId) w₀ calls w)
    (hempty : w₀.rows threadId = []) (hgated : Gated name calls) (hcompleted : Completed (w.rows threadId)) :
    Since (fun e => succeeds e = true) (SavesGate threadId name) (performed calls) := by
  induction hS with
  | start =>
    obtain ⟨cp, hcp, _⟩ := hcompleted
    rw [hempty] at hcp
    cases hcp
  | @call calls w w' hprev c tr p hr ih =>
    obtain ⟨hseq, hgate⟩ := hgated (c, tr) (by simp)
    rw [performed_append, performed_cons, performed_nil, List.append_nil]
    exact (Stage.fits_of_reaches hseq hgate hr).completed (ih hgated.of_append) hcompleted

/-- An execution of a node with a gate is the first thing its call does to the thread. -/
theorem Execution.unsaved_of_gated {e : Execution S} (hS : Session (memory env) (Call.prog threadId) w₀ calls w)
    (he : e.In calls) (hname : e.ctx.nodeName = name) (hgated : Gated name calls) :
    writes e.done = [] ∧ (∀ b ∈ e.done, succeeds b = false) ∧
      ∃ ev rest later, calls = e.earlier ++ (e.call, e.done ++ ev :: rest) :: later ∧ calledNode ev = some name := by
  obtain ⟨ev, rest, later, rfl, hhands⟩ := he
  obtain ⟨hseq, hgate⟩ := hgated (e.call, e.done ++ ev :: rest) (by simp)
  have hev : calledNode ev = some name ∧
      (gating S threadId name).allow ((gating S threadId name).after {} e.done) ev.op := by
    have hallow := hS.allow (call_gating hseq hgate)
    obtain ⟨earlier, call, done, dagNode, ctx⟩ := e
    cases hhands with
    | called => exact ⟨congrArg some hname, hallow⟩
    | launched => exact hallow.elim
  obtain ⟨w₁, p, w₂, _, hr⟩ := hS.split
  obtain ⟨p', w₃, hdone, _⟩ := hr.split
  have hfits := Stage.fits_of_reaches hseq hgate hdone
  obtain ⟨hcalled, hallow⟩ := hev
  obtain ⟨o, r⟩ := ev
  cases o with
  | callNode ctx state timeout token =>
    obtain ⟨hreturned, _, hsaved⟩ := hallow
    have hunsaved : ((gating S threadId name).after {} e.done).saved = false :=
      Bool.eq_false_iff.2 fun h => hsaved h (Option.some.inj hcalled)
    exact ⟨(hfits.unsaved hunsaved).1, hfits.unreturned hreturned hunsaved, _, rest, later, rfl, hcalled⟩
  | _ => cases hcalled

/-- On a thread that was empty at first, run by calls on graphs with a gate before `name`: if all of them keep the gate,
every execution of `name` comes after the checkpoint of the gate, with no node in between that returned a state; and an
execution in a call that finds the checkpoint of a completed node never does. -/
theorem gates_respected (hS : Session (memory env) (Call.prog threadId) w₀ calls w) (hempty : w₀.rows threadId = [])
    (hgated : Gated name calls) :
    (KeepsGates env threadId name w₀ calls →
      ∀ e : Execution S, e.In calls → e.ctx.nodeName = name → GateSaved threadId name e.before) ∧
    ∀ e : Execution S, e.In calls → e.ctx.nodeName = name → ∀ w₁,
      Session (memory env) (Call.prog threadId) w₀ e.earlier w₁ → Completed (w₁.rows threadId) →
      ¬ GateSaved threadId name e.before := by
  constructor
  · intro hkeeps e he hname
    obtain ⟨hwrites, hidle, ev, rest, later, rfl, hcalled⟩ := e.unsaved_of_gated hS he hname hgated
    obtain ⟨w₁, _, _, hearlier, _⟩ := hS.split
    have hstands : StandsBefore name (w₁.rows threadId) :=
      (hkeeps _ _ _ _ w₁ rfl hearlier).begins (mem_executions_beforeSave hwrites hcalled)
    refine (gateSaved_of_session hearlier hempty hgated.of_append hkeeps.of_append hstands).append fun b hb => ?_
    rw [hidle b hb]
    exact Bool.false_ne_true
  · intro e he hname w₁ hearlier hcompleted
    obtain ⟨hwrites, _, ev, rest, later, rfl, _⟩ := e.unsaved_of_gated hS he hname hgated
    have hsince := since_succeeds_of_session hearlier hempty hgated.of_append hcompleted
    refine (hsince.append fun b hb hgate => ?_).not_swap fun b hb hgate => ?_
    · obtain ⟨args, hargs, _⟩ := hgate
      have hmem : args ∈ writes e.done := List.mem_filterMap.2 ⟨b, hb, hargs⟩
      rw [hwrites] at hmem
      cases hmem
    · obtain ⟨args, hargs, _⟩ := hgate
      rw [succeeds_of_written hargs] at hb
      cases hb

end Session

/-! ### A resume that passes a gate -/

section Examples

attribute [local instance] shortRuns

/-- Two nodes in a row, the second one with a gate. -/
def guarded : Graph Nat where
  nodes := ["A", "B"]
  edges name := if name = "A" then some (.unconditional "B") else none
  interruptBefore := ["B"]

def completing : Env Nat where
  newId n := s!"c{n}"
  now n := n
  answer _ _ state _ _ := .returned (.ok { state := state + 1 })
  outcome _ task := .ok (.ok { state := task.state })
  order _ := inOrder

/-- A run crashes right after the checkpoint of `A`. -/
def cut : List (Call Nat × List (Event (ops Nat))) × World :=
  replay (memory completing) (Call.prog "t") [(.run guarded false 0 "A", 8)] [] World.empty

/-- It is resumed. -/
def passing : List (Call Nat × List (Event (ops Nat))) × World :=
  replay (memory completing) (Call.prog "t") [(.resume guarded false, 20)] cut.1 cut.2

theorem cut_session : Session (memory completing) (Call.prog "t") World.empty cut.1 cut.2 := Session.start.replay _

theorem passing_session : Session (memory completing) (Call.prog "t") World.empty passing.1 passing.2 :=
  cut_session.replay _

/-- The execution of `B`. -/
def unguarded : Execution Nat := (executionAt passing.1 1 4).get (by decide +kernel)

theorem unguarded_in : unguarded.In passing.1 := in_of_executionAt (Option.some_get _).symm

theorem gates_respected_false :
    Session (memory completing) (Call.prog "t") World.empty passing.1 passing.2 ∧ World.empty.rows "t" = [] ∧
      Gated "B" passing.1 ∧ unguarded.In passing.1 ∧ unguarded.ctx.nodeName = "B" ∧
      ¬ GateSaved "t" "B" unguarded.before := by
  refine ⟨passing_session, rfl, by unfold Gated; decide +kernel, unguarded_in, by decide +kernel, ?_⟩
  have hnone : ∀ args ∈ savesOf "t" unguarded.before, args.status ≠ .interrupted := by decide +kernel
  rintro ⟨l₁, e, l₂, hbefore, ⟨args, hargs, ht, hstatus, _⟩, _⟩
  refine hnone args (List.mem_filter.2 ⟨List.mem_filterMap.2 ⟨e, ?_, hargs⟩, decide_eq_true ht⟩) hstatus
  rw [hbefore]
  exact List.mem_append_right _ List.mem_cons_self

/-- A run that stops at the gate. -/
def atGate : List (Call Nat × List (Event (ops Nat))) × World :=
  replay (memory completing) (Call.prog "t") [(.run guarded false 0 "A", 20)] [] World.empty

/-- It is resumed. -/
def admitted : List (Call Nat × List (Event (ops Nat))) × World :=
  replay (memory completing) (Call.prog "t") [(.resume guarded false, 20)] atGate.1 atGate.2

theorem atGate_session : Session (memory completing) (Call.prog "t") World.empty atGate.1 atGate.2 :=
  Session.start.replay _

theorem admitted_session : Session (memory completing) (Call.prog "t") World.empty admitted.1 admitted.2 :=
  atGate_session.replay _

theorem atGate_stands : StandsBefore "B" (atGate.2.rows "t") := standsBefore_iff.2 (by decide +kernel)

theorem admitted_keeps : KeepsGates completing "t" "B" World.empty admitted.1 := by
  refine KeepsGates.concat (KeepsGates.concat keepsGates_nil .start ⟨?_, ?_, ?_⟩) atGate_session ⟨?_, ?_, ?_⟩
  · exact fun h => absurd h (by decide +kernel)
  · exact fun _ _ => by decide +kernel
  · exact fun _ => by decide +kernel
  · exact fun _ => atGate_stands
  · exact fun _ _ => by decide +kernel
  · exact fun _ => by decide +kernel

/-- The execution of `B` there. -/
def entry : Execution Nat := (executionAt admitted.1 1 4).get (by decide +kernel)

theorem entry_in : entry.In admitted.1 := in_of_executionAt (Option.some_get _).symm

theorem unguarded_earlier : unguarded.earlier = cut.1 := by
  have hlen : cut.1.length = 1 := by decide +kernel
  have hunguarded : executionAt passing.1 1 4 = some unguarded := (Option.some_get _).symm
  rw [earlier_of_executionAt hunguarded, ← hlen]
  exact List.take_left

theorem cut_completed : Completed (cut.2.rows "t") := completed_iff.2 ⟨"B", by decide +kernel⟩

theorem gates_respected_entry :
    GateSaved "t" "B" entry.before ∧ ¬ GateSaved "t" "B" unguarded.before :=
  ⟨(gates_respected admitted_session rfl (by unfold Gated; decide +kernel)).1 admitted_keeps entry entry_in
      (by decide +kernel),
    (gates_respected passing_session rfl (by unfold Gated; decide +kernel)).2 unguarded unguarded_in (by decide +kernel)
      cut.2 (unguarded_earlier ▸ cut_session) cut_completed⟩

end Examples

end Takeln
