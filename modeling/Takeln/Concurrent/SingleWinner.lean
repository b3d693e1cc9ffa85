import Takeln.Effect.Interleave
import Takeln.Sequential.Follows
import Takeln.Sequential.Settled

/-!
# A single winner

Any number of `resume_with_input` calls on one thread of an in-memory checkpointer, interleaved in any way.  A call
claims before it does anything else, and a claim succeeds only on a yielded checkpoint; the call that has claimed is
the only one that executes nodes and writes until it has yielded, rolled back or failed (`SingleWinner`).  The
protocol `resuming` says what a call does in which phase, and the invariant `Held` ties the phases of the calls to the
checkpoints of the thread.
-/

namespace Takeln

open Effect Effect.Prog

variable {S : Type}

/-! ### The phases of a call -/

/-- How far a `resume_with_input` call has come. -/
inductive Phase (S : Type)
  | fresh
  /-- the claim was not granted -/
  | denied
  | claimed
  /-- the claimed checkpoint has been loaded, and nothing written since -/
  | loaded (state : S)
  | running
  /-- the call has yielded or rolled back, or could not load -/
  | closed

/-- The call has claimed the thread and not given it back. -/
def Phase.Holds : Phase S → Prop
  | claimed => True
  | loaded _ => True
  | running => True
  | _ => False

/-- The phase after an answered save. -/
def Phase.saved (q : Phase S) (args : SaveArgs S) (r : Except TakelnError CheckpointSave) : Phase S :=
  match r.bind checkpointId with
  | .ok _ => if args.status = .yielded then closed else running
  | .error _ => q

/-- What `resume_with_input` does on a thread: it claims, loads, and only if it has claimed calls nodes and writes. -/
def resuming (S : Type) (threadId : String) : Protocol (ops S) (Phase S) where
  allow
    | _, .nextSeq => True
    | _, .send _ => True
    | _, .record _ _ => True
    | .fresh, .claimInterrupt t _ => t = threadId
    | .denied, .loadState t => t = threadId
    | .claimed, .loadState t => t = threadId
    | .loaded _, .currentHead _ => True
    | .running, .currentHead _ => True
    | .loaded s, .callNode _ state _ _ => state = s
    | .running, .callNode _ _ _ _ => True
    | .loaded _, .saveStateBound args => args.threadId = threadId
    | .running, .saveStateBound args => args.threadId = threadId
    | _, _ => False
  next
    | .fresh, .claimInterrupt _ _, .ok .claimed => .claimed
    | .fresh, .claimInterrupt _ _, _ => .denied
    | .claimed, .loadState _, .ok (some loaded) => .loaded loaded.state
    | .claimed, .loadState _, _ => .closed
    | .loaded s, .saveStateBound args, r => (Phase.loaded s).saved args r
    | .running, .saveStateBound args, r => Phase.running.saved args r
    | q, _, _ => q

theorem resuming_silent (t : String) (q : Phase S) (max : Nat) : Silent (resuming S t) q max := by
  constructor <;> cases q <;> first | exact ⟨trivial, fun _ => rfl⟩ | exact fun _ => ⟨trivial, rfl⟩

/-! ### A call keeps to the phases -/

/-- The loop has not written yet, and has the loaded state, or it is running. -/
private def InLoop (s : S) (q : Phase S) : Prop := q = .loaded s ∨ q = .running

private theorem InLoop.currentHead {s : S} {q : Phase S} (h : InLoop s q) (t t' : String) :
    (resuming S t).allow q (.currentHead t') ∧
      ∀ r : Except TakelnError (Option String), (resuming S t).next q (.currentHead t') r = q := by
  rcases h with rfl | rfl <;> exact ⟨trivial, fun _ => rfl⟩

private theorem InLoop.callSilent {s : S} {q : Phase S} (h : InLoop s q) (t : String) :
    CallSilent (resuming S t) q s := by
  rcases h with rfl | rfl
  · exact fun _ _ _ => ⟨rfl, fun _ => rfl⟩
  · exact fun _ _ _ => ⟨trivial, fun _ => rfl⟩

private theorem InLoop.save {s : S} {q : Phase S} (h : InLoop s q) (t : String) {args : SaveArgs S}
    (ht : args.threadId = t) {Φ : Phase S → Except TakelnError String → Prop}
    (hΦ : ∀ r, Φ (q.saved args r) (r.bind checkpointId)) : SaveFollows (resuming S t) q args Φ := by
  rcases h with rfl | rfl
  · exact ⟨ht, hΦ⟩
  · exact ⟨ht, hΦ⟩

section Call

variable [External] [State S] {g : Graph S} {threadId : String} {cancellation : Bool}

omit [External] [State S] in
/-- A failed run leaves the thread to the rollback. -/
private theorem rollback_follows {s : S} {q : Phase S} (hq : InLoop s q) (state : S) (nextNode : String)
    (request : YieldRequest) (lastHead : Option (Option String)) :
    Follows (resuming S threadId) (Graph.revertToYielded threadId state nextNode request lastHead) q
      fun _ _ => True := by
  refine follows_revertToYielded (fun head _ => hq.save threadId rfl fun _ => trivial) fun _ => ?_
  refine ⟨(hq.currentHead threadId threadId).1, fun _ => trivial, fun head => ?_⟩
  rw [(hq.currentHead threadId threadId).2]
  exact hq.save threadId rfl fun _ => trivial

private theorem runInner_inLoop {resolvedInterrupt : Option String} (state : S) (node : String) (input : Option Value) :
    Follows (resuming S threadId) (g.runInner threadId cancellation resolvedInterrupt state node input) (.loaded state)
      fun q x => ∀ e, x = .error e → ∃ s, InLoop s q := by
  have hloaded : InLoop state (.loaded state) := Or.inl rfl
  refine follows_runInner (I := fun q v => InLoop v.state q) (hloaded.currentHead threadId threadId).1
    (fun _ _ _ => ⟨state, hloaded⟩) (fun head => hloaded) ?_ fun q v _ hI _ _ => ⟨v.state, hI⟩
  intro q v hI
  refine follows_loopBody (resuming_silent threadId q _) (hI.callSilent threadId) (fun _ h => (by cases h))
    (fun _ _ _ => ⟨v.state, hI⟩) fun args flow hsave => ?_
  refine hI.save threadId (hsave "").threadId_eq fun r => ?_
  unfold Phase.saved
  cases r.bind checkpointId with
  | error e => exact fun _ _ => ⟨v.state, hI⟩
  | ok id =>
    have hflow := hsave id
    dsimp only
    cases hf : flow id with
    | stop v' => exact fun _ h => by cases h
    | next v' =>
      rw [hf] at hflow
      obtain ⟨out, hstatus, _⟩ := hflow.of_next
      rw [hstatus]
      exact Or.inr rfl

theorem resuming_follows (interruptId : String) (input : Value) (context : ResumeContext) :
    Follows (resuming S threadId) (g.resumeWithInput threadId cancellation interruptId input context) .fresh
      fun _ _ => True := by
  refine follows_resumeWithInput rfl (fun _ _ => trivial) (fun claim => by cases claim <;> rfl)
    (fun _ _ _ => trivial) fun loaded request => follows_runClaimed ?_
  change Follows (resuming S threadId) _ (.loaded loaded.state) _
  refine (runInner_inLoop loaded.state _ _).mono fun q x hx => ?_
  rcases x with ⟨e, lastHead⟩ | final
  · obtain ⟨s, hq⟩ := hx _ rfl
    refine (rollback_follows hq loaded.state _ request lastHead).mono fun q' y _ => ?_
    cases y with
    | ok _ => exact ⟨trivial, fun _ _ => (resuming_silent threadId _ _).nodes⟩
    | error _ => exact fun _ => ⟨trivial, fun _ _ => (resuming_silent threadId _ _).nodes⟩
  · exact ⟨trivial, fun _ _ => (resuming_silent threadId _ _).nodes⟩

end Call

/-! ### What a turn does -/

/-- The operation is a successful claim. -/
def Claims : Event (ops S) → Prop
  | ⟨.claimInterrupt _ _, .ok .claimed⟩ => True
  | _ => False

/-- The operation is a successful claim, an accepted save or the call of a node. -/
def Acts (e : Event (ops S)) : Prop := Claims e ∨ (written e).isSome ∨ (calledNode e).isSome

section Turns

variable {t : String} {w w' : World} {q q' : Phase S} {e : Event (ops S)}

/-- The operation leaves the thread alone: it claims nothing and writes nothing. -/
structure Idle (t : String) (w : World) (e : Event (ops S)) (w' : World) : Prop where
  rows : w'.rows t = w.rows t
  claims : ¬ Claims e
  written : written e = none

variable [State S]

/-- What one operation of a `resume_with_input` call does to its thread and its phase. -/
inductive Turn (t : String) (w : World) (e : Event (ops S)) (w' : World) : Phase S → Phase S → Prop
  | idle (q : Phase S) (hidle : Idle t w e w') (hcall : calledNode e = none) : Turn t w e w' q q
  | call (q : Phase S) (hidle : Idle t w e w') (hholds : q.Holds)
      (hstate : ∀ ctx s d b, e.op = .callNode ctx s d b → q = .loaded s ∨ q = .running) : Turn t w e w' q q
  | denied (hidle : Idle t w e w') (hcall : calledNode e = none) : Turn t w e w' .fresh .denied
  | claimed (i : String) (hopen : Open (w.rows t) i) (hrows : w'.rows t = claimLast (w.rows t) i)
      (hclaims : Claims e) (hwritten : written e = none) : Turn t w e w' .fresh .claimed
  | loaded (last : MemoryCheckpoint) (s : S) (hlast : (w.rows t).getLast? = some last)
      (hstate : State.fromValue last.state = .ok s) (hidle : Idle t w e w') (hcall : calledNode e = none) :
      Turn t w e w' .claimed (.loaded s)
  | unreadable (hidle : Idle t w e w') (hcall : calledNode e = none) : Turn t w e w' .claimed .closed
  | saved (q : Phase S) (hholds : q.Holds) (cp : MemoryCheckpoint) (hrows : w'.rows t = w.rows t ++ [cp])
      (hclaims : ¬ Claims e) (hwritten : (written e).isSome) :
      Turn t w e w' q (if cp.status = .yielded then .closed else .running)

theorem turn_of_save {env : Env S} {args : SaveArgs S} {r : Except TakelnError CheckpointSave}
    (ht : args.threadId = t) (hq : q.Holds) (h : memory env w (.saveStateBound args) = some (r, w')) :
    Turn t w ⟨.saveStateBound args, r⟩ w' q (q.saved args r) := by
  subst ht
  simp only [memory, MemoryStore.saveState] at h
  cases hval : State.toValue args.state with
  | error e =>
    rw [hval] at h
    cases h
    exact .idle q ⟨rfl, id, rfl⟩ rfl
  | ok val =>
    rw [hval] at h
    cases h
    have hrows := World.rows_saved w env args val
    exact .saved q hq _ hrows id rfl

theorem turn_of_claim {env : Env S} {i : String} {r : Except TakelnError ClaimResult}
    (h : memory env w (.claimInterrupt t i : Op S) = some (r, w')) :
    Turn t w (⟨.claimInterrupt t i, r⟩ : Event (ops S)) w' .fresh
      ((resuming S t).next .fresh (.claimInterrupt t i) r) := by
  have hpair : ((w.store.claimInterrupt t i).1, ({ w with store := (w.store.claimInterrupt t i).2
    } : World)) = (r, w') :=
    Option.some.inj h
  obtain ⟨hr, rfl⟩ := Prod.mk.inj hpair
  have hstore := MemoryStore.claimInterrupt_store w.store t i
  rw [hr] at hstore
  by_cases hclaimed : r = .ok .claimed
  · subst hclaimed
    rw [if_pos rfl] at hstore
    refine .claimed i (MemoryStore.claimInterrupt_claimed_iff.1 hr) ?_ trivial rfl
    unfold World.rows
    rw [hstore, MemoryStore.rows_update_self]
  · rw [if_neg hclaimed] at hstore
    have hrows : World.rows { w with store := (w.store.claimInterrupt t i).2 } t = w.rows t := World.rows_congr hstore t
    rcases r with e | claim
    · exact .denied ⟨hrows, id, rfl⟩ rfl
    · cases claim with
      | claimed => exact absurd rfl hclaimed
      | inProgress => exact .denied ⟨hrows, id, rfl⟩ rfl
      | alreadyCompleted => exact .denied ⟨hrows, id, rfl⟩ rfl

theorem turn_of_step {env : Env S} {o : Op S} {r : o.Answer} (hallow : (resuming S t).allow q o)
    (h : memory env w o = some (r, w')) : Turn t w ⟨o, r⟩ w' q ((resuming S t).next q o r) := by
  cases o with
  | saveStateBound args =>
    cases q with
    | loaded s => exact turn_of_save hallow trivial h
    | running => exact turn_of_save hallow trivial h
    | _ => cases hallow
  | claimInterrupt t' i =>
    cases q with
    | fresh =>
      cases hallow
      exact turn_of_claim h
    | _ => cases hallow
  | loadState t' =>
    obtain ⟨hr, rfl⟩ := Prod.mk.inj (Option.some.inj h)
    cases q with
    | denied => exact .idle _ ⟨rfl, id, rfl⟩ rfl
    | claimed =>
      cases hallow
      rcases r with e | _ | loaded
      · exact .unreadable ⟨rfl, id, rfl⟩ rfl
      · exact .unreadable ⟨rfl, id, rfl⟩ rfl
      · obtain ⟨last, hlast, hload⟩ := MemoryStore.loadState_eq_ok hr
        exact .loaded last loaded.state hlast (MemoryCheckpoint.load_eq_ok_iff.1 hload).1 ⟨rfl, id, rfl⟩ rfl
    | _ => cases hallow
  | callNode ctx s d b =>
    cases h
    cases q with
    | loaded s' =>
      cases hallow
      exact .call _ ⟨rfl, id, rfl⟩ trivial (by rintro _ _ _ _ ⟨⟩; exact Or.inl rfl)
    | running => exact .call _ ⟨rfl, id, rfl⟩ trivial fun _ _ _ _ _ => Or.inr rfl
    | _ => cases hallow
  | record max rec =>
    obtain ⟨records, _, hw⟩ := Option.map_eq_some_iff.1 h
    cases hw
    cases q <;> exact .idle _ ⟨rfl, id, rfl⟩ rfl
  | _ =>
    cases h
    cases q <;> exact .idle _ ⟨rfl, id, rfl⟩ rfl

end Turns

/-! ### The invariant -/

section Invariant

variable {ι : Type} {t : String} {w w' : World} {tr : List (Entry (ops S) ι World)}

/-- The checkpoint claimed by `c` is the latest one and longer than that nothing has happened to the thread, or the
call has loaded its state, or will do nothing more. -/
def Resumes [State S] (t : String) (c : Entry (ops S) ι World) (w : World) : Phase S → Prop
  | .claimed => ∃ i, w.rows t = claimLast (c.world.rows t) i
  | .loaded s => ∃ last ∈ (c.world.rows t).getLast?, State.fromValue last.state = .ok s
  | .closed => True
  | _ => False

/-- What holds of the history of interleaved resumes. -/
structure SingleWinner [State S] (t : String) (tr : List (Entry (ops S) ι World)) : Prop where
  /-- Between a successful claim `c` and a write or node call `e` of the same call, no other call claims, writes or
  calls a node. -/
  exclusive (c x e : Entry (ops S) ι World) : [c, x, e].Sublist tr → Claims c.event → e.who = c.who → Acts e.event →
    Acts x.event → x.who = c.who
  /-- Of two successful claims the second one claims a later checkpoint. -/
  once (c c' : Entry (ops S) ι World) : [c, c'].Sublist tr → Claims c.event → Claims c'.event →
    (c.world.rows t).length < (c'.world.rows t).length
  /-- Up to its first write, a call that has claimed calls nodes with the state of the checkpoint it claimed. -/
  resumes (l₁ l₂ l₃ : List (Entry (ops S) ι World)) (c e : Entry (ops S) ι World) : tr = (l₁ ++ c :: l₂) ++ e :: l₃ →
    Claims c.event → e.who = c.who → (∀ x ∈ l₂, x.who = c.who → written x.event = none) →
    ∀ ctx s d b, e.op = .callNode ctx s d b → ∃ last ∈ (c.world.rows t).getLast?, State.fromValue last.state = .ok s

/-- History, checkpoints and phases. -/
structure Held [State S] (t : String) (tr : List (Entry (ops S) ι World)) (w : World) (q : ι → Phase S) : Prop
    extends SingleWinner t tr where
  fresh (i : ι) : q i = .fresh → ∀ c ∈ tr, c.who = i → ¬ Claims c.event
  unique (i j : ι) : (q i).Holds → (q j).Holds → i = j
  held (i : ι) : (q i).Holds → ∀ last ∈ (w.rows t).getLast?, last.status ≠ .yielded
  alone (c x : Entry (ops S) ι World) : [c, x].Sublist tr → Claims c.event → (q c.who).Holds → Acts x.event →
    x.who = c.who
  passed (c : Entry (ops S) ι World) : c ∈ tr → Claims c.event → (c.world.rows t).length < (w.rows t).length ∨
    (c.world.rows t).length = (w.rows t).length ∧ ∃ last ∈ (w.rows t).getLast?, last.status = .running
  loads (l₁ l₂ : List (Entry (ops S) ι World)) (c : Entry (ops S) ι World) : tr = l₁ ++ c :: l₂ → Claims c.event →
    (∀ x ∈ l₂, x.who = c.who → written x.event = none) → Resumes t c w (q c.who)

variable [State S] {q : ι → Phase S} {i j : ι} {q' : Phase S} {o : Op S} {r : o.Answer}

theorem Held.not_open (hI : Held t tr w q) (hj : (q j).Holds) (n : String) : ¬ Open (w.rows t) n := by
  rintro ⟨_, last, hlast, hstatus, _⟩
  exact hI.held j hj last hlast hstatus

/-- A call acts only if it holds the thread, or has just claimed it. -/
theorem Turn.holds_of_acts {e : Event (ops S)} {p : Phase S} (h : Turn t w e w' p q') (hacts : Acts e) :
    p.Holds ∨ p = .fresh ∧ Claims e ∧ ∃ n, Open (w.rows t) n := by
  have idle (hidle : Idle t w e w') (hcall : calledNode e = none) : False := by
    rcases hacts with h | h | h
    · exact hidle.claims h
    · rw [hidle.written] at h
      cases h
    · rw [hcall] at h
      cases h
  cases h with
  | idle _ hidle hcall => exact (idle hidle hcall).elim
  | call _ _ hholds => exact Or.inl hholds
  | denied hidle hcall => exact (idle hidle hcall).elim
  | claimed n hopen _ hclaims => exact Or.inr ⟨rfl, hclaims, n, hopen⟩
  | loaded _ _ _ _ hidle hcall => exact (idle hidle hcall).elim
  | unreadable hidle hcall => exact (idle hidle hcall).elim
  | saved _ hholds => exact Or.inl hholds

/-- Who holds the thread after a turn held it before, or has just claimed it. -/
theorem Turn.holds_of_holds {e : Event (ops S)} {p : Phase S} (h : Turn t w e w' p q') (hq : q'.Holds) :
    p.Holds ∨ p = .fresh ∧ Claims e ∧ ∃ n, Open (w.rows t) n := by
  cases h with
  | idle => exact Or.inl hq
  | call => exact Or.inl hq
  | denied => cases hq
  | claimed n hopen _ hclaims => exact Or.inr ⟨rfl, hclaims, n, hopen⟩
  | loaded => exact Or.inl trivial
  | unreadable => cases hq
  | saved _ hholds => exact Or.inl hholds

theorem Turn.open_of_claims {e : Event (ops S)} {p : Phase S} (h : Turn t w e w' p q') (hclaims : Claims e) :
    ∃ n, Open (w.rows t) n := by
  cases h with
  | claimed n hopen => exact ⟨n, hopen⟩
  | idle _ hidle => exact absurd hclaims hidle.claims
  | call _ hidle => exact absurd hclaims hidle.claims
  | denied hidle => exact absurd hclaims hidle.claims
  | loaded _ _ _ _ hidle => exact absurd hclaims hidle.claims
  | unreadable hidle => exact absurd hclaims hidle.claims
  | saved _ _ _ _ h => exact absurd hclaims h

theorem Turn.state_of_call {e : Event (ops S)} {p : Phase S} (h : Turn t w e w' p q') {ctx : NodeContext} {s : S}
    {d : Option Duration} {b : Bool} (hop : e.op = .callNode ctx s d b) : p = .loaded s ∨ p = .running := by
  have hcalled : calledNode e = some ctx.nodeName := by simp [calledNode, hop]
  obtain ⟨o, r⟩ := e
  subst hop
  cases h with
  | call _ _ _ hstate => exact hstate ctx s d b rfl
  | idle _ _ hcall => cases hcalled.symm.trans hcall
  | denied _ hcall => cases hcalled.symm.trans hcall
  | loaded _ _ _ _ _ hcall => cases hcalled.symm.trans hcall
  | unreadable _ hcall => cases hcalled.symm.trans hcall
  | claimed _ _ _ hclaims => cases hclaims
  | saved _ _ _ _ _ hwritten => cases hwritten

theorem Turn.of_fresh {e : Event (ops S)} {p : Phase S} (h : Turn t w e w' p q') (hq : q' = .fresh) :
    p = .fresh ∧ ¬ Claims e := by
  cases h with
  | idle _ hidle => exact ⟨hq, hidle.claims⟩
  | call _ hidle => exact ⟨hq, hidle.claims⟩
  | denied => cases hq
  | claimed => cases hq
  | loaded => cases hq
  | unreadable => cases hq
  | saved => split at hq <;> cases hq

/-- While a call holds the thread, no other one acts. -/
theorem Held.eq_of_acts (hI : Held t tr w q) (h : Turn t w (⟨o, r⟩ : Event (ops S)) w' (q i) q') (hj : (q j).Holds)
    (hacts : Acts (⟨o, r⟩ : Event (ops S))) : i = j := by
  rcases h.holds_of_acts hacts with hi | ⟨_, _, n, hopen⟩
  · exact hI.unique i j hi hj
  · exact absurd hopen (hI.not_open hj n)

/-- While a call holds the thread, no other one changes it. -/
theorem Held.rows_eq (hI : Held t tr w q) (h : Turn t w (⟨o, r⟩ : Event (ops S)) w' (q i) q') (hj : (q j).Holds)
    (hij : i ≠ j) : w'.rows t = w.rows t := by
  generalize hp : q i = p at h
  cases h with
  | idle _ hidle => exact hidle.rows
  | call _ hidle => exact hidle.rows
  | denied hidle => exact hidle.rows
  | claimed n hopen => exact absurd hopen (hI.not_open hj n)
  | loaded _ _ _ _ hidle => exact hidle.rows
  | unreadable hidle => exact hidle.rows
  | saved _ hholds => exact absurd (hI.unique i j (hp ▸ hholds) hj) hij

section Step

variable (hI : Held t tr w q) (h : Turn t w (⟨o, r⟩ : Event (ops S)) w' (q i) q')
include hI h

/-- The checkpoints claimed before are not the latest one any more, or that one is running. -/
private theorem passed_step {c : Entry (ops S) ι World} (hmem : c ∈ tr ++ [⟨i, w, o, r⟩]) (hc : Claims c.event) :
    (c.world.rows t).length < (w'.rows t).length ∨
      (c.world.rows t).length = (w'.rows t).length ∧ ∃ last ∈ (w'.rows t).getLast?, last.status = .running := by
  generalize q i = p at h
  have same (hrows : w'.rows t = w.rows t) (hclaims : ¬ Claims (⟨o, r⟩ : Event (ops S))) :
      (c.world.rows t).length < (w'.rows t).length ∨
        (c.world.rows t).length = (w'.rows t).length ∧ ∃ last ∈ (w'.rows t).getLast?, last.status = .running := by
    rw [hrows]
    rcases List.mem_append.1 hmem with hmem | hmem
    · exact hI.passed c hmem hc
    · rw [List.mem_singleton.1 hmem] at hc
      exact absurd hc hclaims
  cases h with
  | idle _ hidle => exact same hidle.rows hidle.claims
  | call _ hidle => exact same hidle.rows hidle.claims
  | denied hidle => exact same hidle.rows hidle.claims
  | loaded _ _ _ _ hidle => exact same hidle.rows hidle.claims
  | unreadable hidle => exact same hidle.rows hidle.claims
  | claimed n hopen hrows =>
    obtain ⟨_, last, hlast, hyield, _⟩ := hopen
    have hlen : (w'.rows t).length = (w.rows t).length := by
      have hpos : 0 < (w.rows t).length := List.length_pos_iff.2 (List.ne_nil_of_mem (List.mem_of_getLast? hlast))
      rw [hrows]
      simp only [claimLast, Option.mem_def.1 hlast, List.length_append, List.length_dropLast, Option.map_some,
        Option.toList_some, List.length_singleton]
      omega
    have hrun : ∃ last ∈ (w'.rows t).getLast?, last.status = .running := by
      refine ⟨last.claimedFor n, ?_, rfl⟩
      rw [hrows]
      simp [claimLast, Option.mem_def.1 hlast]
    rw [hlen]
    rcases List.mem_append.1 hmem with hmem | hmem
    · rcases hI.passed c hmem hc with hlt | ⟨_, last', hlast', hrun'⟩
      · exact Or.inl hlt
      -- the earlier claim has left its checkpoint `Running`
      · cases Option.mem_unique hlast hlast'
        rw [hrun'] at hyield
        cases hyield
    · rw [List.mem_singleton.1 hmem]
      exact Or.inr ⟨rfl, hrun⟩
  | saved _ _ cp hrows hclaims =>
    rw [hrows, List.length_append, List.length_singleton]
    rcases List.mem_append.1 hmem with hmem | hmem
    · rcases hI.passed c hmem hc with hlt | ⟨heq, _⟩ <;> omega
    · rw [List.mem_singleton.1 hmem] at hc
      exact absurd hc hclaims

/-- Whoever holds the thread finds its latest checkpoint not yielded. -/
private theorem held_step [DecidableEq ι] {j : ι} (hj : (Function.update q i q' j).Holds) :
    ∀ last ∈ (w'.rows t).getLast?, last.status ≠ .yielded := by
  by_cases hij : j = i
  · subst hij
    rw [Function.update_self] at hj
    have hheld := hI.held j
    generalize q j = p at h hheld
    cases h with
    | idle _ hidle => rw [hidle.rows]; exact hheld hj
    | call _ hidle => rw [hidle.rows]; exact hheld hj
    | denied => cases hj
    | loaded _ _ _ _ hidle => rw [hidle.rows]; exact hheld trivial
    | unreadable => cases hj
    | claimed n hopen hrows =>
      obtain ⟨_, last, hlast, _⟩ := hopen
      rw [hrows]
      simp [claimLast, Option.mem_def.1 hlast, MemoryCheckpoint.claimedFor]
    | saved _ _ cp hrows =>
      rw [hrows, List.getLast?_concat]
      intro last hlast
      cases hlast
      intro hyield
      rw [if_pos hyield] at hj
      cases hj
  · rw [Function.update_of_ne hij] at hj
    rw [hI.rows_eq h hj (Ne.symm hij)]
    exact hI.held j hj

/-- A call that has claimed and not written resumes the checkpoint it claimed. -/
private theorem loads_step [DecidableEq ι] {l₁ l₂ : List (Entry (ops S) ι World)} {c : Entry (ops S) ι World}
    (htr : tr ++ [⟨i, w, o, r⟩] = l₁ ++ c :: l₂) (hc : Claims c.event)
    (hquiet : ∀ x ∈ l₂, x.who = c.who → written x.event = none) :
    Resumes t c w' (Function.update q i q' c.who) := by
  rcases eq_append_cons_of_concat htr with ⟨rfl, rfl, rfl⟩ | ⟨l, rfl, htr'⟩
  · -- it has just claimed
    rw [Function.update_self]
    generalize q i = p at h
    cases h with
    | claimed n _ hrows => exact ⟨n, hrows⟩
    | idle _ hidle => exact absurd hc hidle.claims
    | call _ hidle => exact absurd hc hidle.claims
    | denied hidle => exact absurd hc hidle.claims
    | loaded _ _ _ _ hidle => exact absurd hc hidle.claims
    | unreadable hidle => exact absurd hc hidle.claims
    | saved _ _ _ _ hclaims => exact absurd hc hclaims
  · have hres := hI.loads l₁ l c htr' hc fun x hx => hquiet x (List.mem_append_left _ hx)
    by_cases hwho : c.who = i
    -- the call itself goes on, and writes nothing
    · have hwritten : written (⟨o, r⟩ : Event (ops S)) = none :=
        hquiet ⟨i, w, o, r⟩ (List.mem_append_right _ (List.mem_singleton.2 rfl)) hwho.symm
      subst hwho
      rw [Function.update_self]
      generalize q c.who = p at h hres
      have same (hrows : w'.rows t = w.rows t) : Resumes t c w' p := by
        cases p with
        | claimed => exact hres.imp fun n hn => hrows.trans hn
        | _ => exact hres
      cases h with
      | idle _ hidle => exact same hidle.rows
      | call _ hidle => exact same hidle.rows
      | denied => cases hres
      | claimed => cases hres
      | unreadable => trivial
      | saved _ _ _ _ _ hsaved =>
        rw [hwritten] at hsaved
        cases hsaved
      | loaded last s hlast hstate =>
        obtain ⟨n, hn⟩ := hres
        cases hcl : (c.world.rows t).getLast? with
        | none =>
          rw [hn, claimLast, hcl, List.getLast?_eq_none_iff.1 hcl] at hlast
          cases hlast
        | some cp =>
          rw [hn, claimLast, hcl] at hlast
          simp only [Option.map_some, Option.toList_some, List.getLast?_concat, Option.some.injEq] at hlast
          subst hlast
          exact ⟨cp, hcl, hstate⟩
    -- another call takes the step, while this one holds the thread
    · rw [Function.update_of_ne hwho]
      cases hp : q c.who with
      | claimed =>
        rw [hp] at hres
        have hrows := hI.rows_eq h (by rw [hp]; trivial) (Ne.symm hwho)
        exact hres.imp fun n hn => hrows.trans hn
      | _ =>
        rw [hp] at hres
        exact hres

/-- Every turn keeps the invariant. -/
theorem Held.step [DecidableEq ι] : Held t (tr ++ [⟨i, w, o, r⟩]) w' (Function.update q i q') := by
  -- who holds the thread now held it before, or has just claimed it while nobody held it
  have holds {j : ι} (hj : (Function.update q i q' j).Holds) :
      (q j).Holds ∨ j = i ∧ q i = .fresh ∧ Claims (⟨o, r⟩ : Event (ops S)) ∧ ∃ n, Open (w.rows t) n := by
    by_cases hij : j = i
    · subst hij
      rw [Function.update_self] at hj
      rcases h.holds_of_holds hj with hp | hclaim
      · exact Or.inl hp
      · exact Or.inr ⟨rfl, hclaim⟩
    · rw [Function.update_of_ne hij] at hj
      exact Or.inl hj
  -- a call that has claimed is not fresh
  have claimed {c : Entry (ops S) ι World} (hc : c ∈ tr) (hclaims : Claims c.event) : q c.who ≠ .fresh :=
    fun hfresh => hI.fresh c.who hfresh c hc rfl hclaims
  have mem {c : Entry (ops S) ι World} {l : List (Entry (ops S) ι World)} (hs : (c :: l).Sublist tr) : c ∈ tr :=
    hs.subset (List.mem_cons_self ..)
  constructor
  case toSingleWinner =>
    constructor
    case exclusive =>
      intro c x e hs hc he hacts hx
      rcases (sublist_concat_iff (l := [c, x])).1 hs with hs' | ⟨hs', rfl⟩
      · exact hI.exclusive c x e hs' hc he hacts hx
      · rcases h.holds_of_acts hacts with hhold | ⟨hfresh, _⟩
        · exact hI.alone c x hs' hc (he ▸ hhold) hx
        · exact absurd (he ▸ hfresh) (claimed (mem hs') hc)
    case once =>
      intro c c' hs hc hc'
      rcases (sublist_concat_iff (l := [c])).1 hs with hs' | ⟨hs', rfl⟩
      · exact hI.once c c' hs' hc hc'
      · obtain ⟨n, _, last', hlast', hyield, _⟩ := h.open_of_claims hc'
        rcases hI.passed c (mem hs') hc with hlt | ⟨_, last, hlast, hrun⟩
        · exact hlt
        · cases Option.mem_unique hlast hlast'
          rw [hrun] at hyield
          cases hyield
    case resumes =>
      intro l₁ l₂ l₃ c e htr hc he hquiet ctx s d b hop
      rcases eq_append_cons_of_concat htr with ⟨htr', rfl, rfl⟩ | ⟨l, rfl, htr'⟩
      · have hres := hI.loads l₁ l₂ c htr'.symm hc hquiet
        rcases h.state_of_call hop with hp | hp
        · rw [← he, hp] at hres
          exact hres
        · rw [← he, hp] at hres
          cases hres
      · exact hI.resumes l₁ l₂ l c e htr' hc he hquiet ctx s d b hop
  case fresh =>
    intro j hj c hc hwho hclaims
    have hfresh : q j = .fresh ∧ (j = i → ¬ Claims (⟨o, r⟩ : Event (ops S))) := by
      by_cases hij : j = i
      · subst hij
        rw [Function.update_self] at hj
        exact ⟨(h.of_fresh hj).1, fun _ => (h.of_fresh hj).2⟩
      · rw [Function.update_of_ne hij] at hj
        exact ⟨hj, fun h => absurd h hij⟩
    rcases List.mem_append.1 hc with hc | hc
    · exact hI.fresh j hfresh.1 c hc hwho hclaims
    · cases List.mem_singleton.1 hc
      exact hfresh.2 hwho.symm hclaims
  case unique =>
    intro j k hj hk
    rcases holds hj with hj' | ⟨rfl, _, _, n, hopen⟩
    · rcases holds hk with hk' | ⟨rfl, _, _, n, hopen⟩
      · exact hI.unique j k hj' hk'
      · exact absurd hopen (hI.not_open hj' n)
    · rcases holds hk with hk' | ⟨rfl, _⟩
      · exact absurd hopen (hI.not_open hk' n)
      · rfl
  case held => exact fun j hj => held_step hI h hj
  case alone =>
    intro c x hs hc hhold hx
    rcases (sublist_concat_iff (l := [c])).1 hs with hs' | ⟨hs', rfl⟩
    · rcases holds hhold with hhold' | ⟨hwho, hfresh, _⟩
      · exact hI.alone c x hs' hc hhold' hx
      · exact absurd (hwho ▸ hfresh) (claimed (mem hs') hc)
    · rcases holds hhold with hhold' | ⟨hwho, _⟩
      · exact hI.eq_of_acts h hhold' hx
      · exact hwho.symm
  case passed => exact fun c hc hclaims => passed_step hI h hc hclaims
  case loads => exact fun l₁ l₂ c htr hc hquiet => loads_step hI h htr hc hquiet

end Step

end Invariant

/-! ### All interleavings -/

section Main

variable [External] [State S] {ι : Type} [DecidableEq ι] {env : Env S} {t : String}

/-- A resume of a thread: the graph it runs and its arguments. -/
structure ResumeCall (S : Type) where
  graph : Graph S
  cancellation : Bool
  interruptId : String
  input : Value
  context : ResumeContext

/-- The call on a thread. -/
def ResumeCall.prog (threadId : String) (c : ResumeCall S) : Prog (ops S) TakelnError (Option S) :=
  c.graph.resumeWithInput threadId c.cancellation c.interruptId c.input c.context

/-- The program is about to call a node, or waits for it. -/
def AtNode {E α : Type} (p : Prog (ops S) E α) : Prop := ∃ ctx s d b k, p = .perform (.callNode ctx s d b) k

omit [External] [State S] in
theorem holds_of_atNode {E α : Type} {p : Prog (ops S) E α} {q : Phase S} {Φ : Phase S → Except E α → Prop}
    (hp : Follows (resuming S t) p q Φ) (h : AtNode p) : q.Holds := by
  obtain ⟨ctx, s, d, b, k, rfl⟩ := h
  have hallow := hp.1
  cases q with
  | loaded s' => trivial
  | running => trivial
  | _ => cases hallow

/-- Whatever the order of their steps, of all the resumes of a thread one wins at a time. -/
theorem resumes_singleWinner (calls : ι → ResumeCall S) {w₀ w : World} {tr : List (Entry (ops S) ι World)}
    {P : ι → Prog (ops S) TakelnError (Option S)}
    (hI : Interleaving (memory env).semantics (fun i => (calls i).prog t) w₀ tr P w) :
    SingleWinner t tr ∧ ∀ i j, AtNode (P i) → AtNode (P j) → i = j := by
  have hstart : Held t ([] : List (Entry (ops S) ι World)) w₀ fun _ => Phase.fresh (S := S) := by
    constructor
    case toSingleWinner =>
      constructor
      · intro c x e hs
        cases hs
      · intro c c' hs
        cases hs
      · intro l₁ l₂ l₃ c e htr
        simp at htr
    case fresh => intro i _ c hc; cases hc
    case unique => intro i j hi; cases hi
    case held => intro i hi; cases hi
    case alone => intro c x hs; cases hs
    case passed => intro c hc; cases hc
    case loads => intro l₁ l₂ c htr; simp at htr
  obtain ⟨q, hheld, hfollows⟩ := hI.invariant (π := resuming S t) (fun i => resuming_follows _ _ _) hstart
    fun tr w q i o r w' hinv hallow hstep => hinv.step (turn_of_step hallow hstep)
  refine ⟨hheld.toSingleWinner, fun i j hi hj => hheld.unique i j ?_ ?_⟩
  · exact holds_of_atNode (hfollows i) hi
  · exact holds_of_atNode (hfollows j) hj

end Main

section Examples

attribute [local instance] shortRuns

/-- Two callers answer the same question at the same time. -/
theorem resumes_singleWinner_race :
    ∃ tr P w, schedule (memory (curious .reEntry)) [true, false, true, false, true, true, true] []
        (fun _ : Bool => (ResumeCall.mk single false "q" .null {}).prog "t") (questioned .reEntry) = some (tr, P, w) ∧
      SingleWinner (S := Nat) "t" tr ∧ ∀ i j, AtNode (P i) → AtNode (P j) → i = j := by
  refine ⟨_, _, _, (Option.some_get (show Option.isSome _ = true by decide +kernel)).symm, ?_⟩
  exact resumes_singleWinner (fun _ => ResumeCall.mk single false "q" .null {})
    (Interleaving.start.schedule (Option.some_get _).symm)

end Examples

end Takeln
