import Takeln.Concurrent.Calls
import Takeln.Sequential.Settled

/-!
# One chain of writes

Any number of calls on one thread of a store that accepts a write exactly if it names the current head, interleaved in
any way.  The accepted writes form one chain, the writes of each call stand next to each other in it, and a call whose
write was answered with a conflict executes nothing and writes nothing any more (`calls_oneChain`).
-/

namespace Takeln

open Effect Effect.Prog

variable {S : Type}

/-! ### Compare and swap -/

/-- The head of a thread, and every id that was its head so far. -/
structure Heads where
  head : Option String
  used : List String
  head_used : ∀ id ∈ head, id ∈ used

/-- The head after an accepted write. -/
def Heads.advance (w : Heads) (id : String) : Heads where
  head := some id
  used := id :: w.used
  head_used := by simp

/-- The store accepts a write exactly if it names the current head, and then makes a fresh id the head; an operation may
also fail without any effect.  Everything else may be answered in any way. -/
def compareAndSwap (S : Type) : Semantics (ops S) Heads
  | w, .currentHead _, r, w' => w' = w ∧ (r = .ok w.head ∨ ∃ e, r = .error e)
  | w, .saveStateBound args, r, w' =>
    args.proof.expectedHead = w.head ∧ (∃ id, id ∉ w.used ∧ (r = .ok (.created id) ∨ r = .ok (.advanced id)) ∧
        w' = w.advance id) ∨
      args.proof.expectedHead ≠ w.head ∧ r = .ok (.conflict w.head) ∧ w' = w ∨
      (∃ e, r = .error e) ∧ w' = w
  | w, _, _, w' => w' = w

/-! ### Observations -/

/-- The head an accepted write replaced and the one it made. -/
def accepted : Event (ops S) → Option (Option String × String)
  | ⟨.saveStateBound args, .ok save⟩ =>
    match checkpointId save with
    | .ok id => some (args.proof.expectedHead, id)
    | .error _ => none
  | _ => none

/-- The operation is a write answered with a conflict. -/
def Conflicts : Event (ops S) → Prop
  | ⟨.saveStateBound _, .ok (.conflict _)⟩ => True
  | _ => False

/-- The operation executes nodes. -/
def Executes (e : Event (ops S)) : Prop :=
  match e.op with
  | .callNode _ _ _ _ => True
  | .joinWave _ => True
  | _ => False

/-- Each write replaces the head that the one before it made. -/
inductive Linked : Option String → List (Option String × String) → Option String → Prop
  | nil (head : Option String) : Linked head [] head
  | cons {head head' : Option String} {id : String} {writes : List (Option String × String)}
      (hrest : Linked (some id) writes head') : Linked head ((head, id) :: writes) head'

theorem Linked.concat {head head' : Option String} {writes : List (Option String × String)}
    (h : Linked head writes head') (id : String) : Linked head (writes ++ [(head', id)]) (some id) := by
  induction h with
  | nil head => exact .cons (.nil _)
  | cons _ ih => exact .cons ih

section

variable {ι : Type} {w₀ w w' : Heads} {tr : List (Entry (ops S) ι Heads)} {q : ι → HeadPhase}

/-- The accepted writes, in order. -/
def acceptedWrites (tr : List (Entry (ops S) ι Heads)) : List (Option String × String) :=
  tr.filterMap fun e => accepted e.event

/-- What holds of the history of interleaved calls. -/
structure OneChain (w₀ : Heads) (tr : List (Entry (ops S) ι Heads)) (w : Heads) : Prop where
  /-- The accepted writes form one chain, and the ids they make are distinct and new. -/
  linked : Linked w₀.head (acceptedWrites tr) w.head
  fresh : ((acceptedWrites tr).map Prod.snd).Nodup ∧ ∀ id ∈ (acceptedWrites tr).map Prod.snd, id ∉ w₀.used
  /-- Between two accepted writes of a call only the call itself writes. -/
  contiguous (a x b : Entry (ops S) ι Heads) : [a, x, b].Sublist tr → (accepted a.event).isSome →
    (accepted x.event).isSome → (accepted b.event).isSome → b.who = a.who → x.who = a.who
  /-- After a conflict a call executes nothing, and none of its writes is accepted. -/
  conflicted (c e : Entry (ops S) ι Heads) : [c, e].Sublist tr → Conflicts c.event → e.who = c.who →
    ¬ Executes e.event ∧ accepted e.event = none

/-- History, head and what the calls know of it. -/
structure Chained (w₀ : Heads) (tr : List (Entry (ops S) ι Heads)) (w : Heads) (q : ι → HeadPhase) : Prop
    extends OneChain w₀ tr w where
  used (id : String) : id ∈ w.used ↔ id ∈ w₀.used ∨ id ∈ (acceptedWrites tr).map Prod.snd
  known (i : ι) (head : Option String) : q i = .live head ∨ q i = .stale head → ∀ id ∈ head, id ∈ w.used
  stale (i : ι) (head : Option String) : q i = .stale head → w.head ≠ head
  unread (i : ι) : q i = .unread → ∀ e ∈ tr, e.who = i → accepted e.event = none ∧ ¬ Conflicts e.event
  last (i : ι) : q i = .live w.head → ∀ a x, [a, x].Sublist tr → a.who = i → (accepted a.event).isSome →
    (accepted x.event).isSome → x.who = i
  marked (c : Entry (ops S) ι Heads) : c ∈ tr → Conflicts c.event → ∃ head, q c.who = .stale head

/-! ### What a turn does -/

/-- What one operation of a call does to the head and to what the call knows of it. -/
inductive HeadTurn (w : Heads) (e : Event (ops S)) (w' : Heads) : HeadPhase → HeadPhase → Prop
  | idle (q : HeadPhase) (hw : w' = w) (hexec : Executes e → ∃ head, q = .live head) (haccepted : accepted e = none)
      (hconflict : ¬ Conflicts e) : HeadTurn w e w' q q
  | read (hw : w' = w) (hexec : ¬ Executes e) (haccepted : accepted e = none) (hconflict : ¬ Conflicts e) :
      HeadTurn w e w' .unread (.live w.head)
  | accepted (q : HeadPhase) (id : String) (hq : q = .live w.head ∨ q = .stale w.head) (hid : id ∉ w.used)
      (hw : w' = w.advance id) (haccepted : accepted e = some (w.head, id))
      (hconflict : ¬ Conflicts e) (q' : HeadPhase) (hq' : q = .live w.head → q' = .live (some id)) :
      HeadTurn w e w' q q'
  | conflict (q : HeadPhase) (head : Option String) (hq : q = .live head ∨ q = .stale head) (hhead : w.head ≠ head)
      (hw : w' = w) (hexec : ¬ Executes e) (haccepted : accepted e = none) : HeadTurn w e w' q (.stale head)

theorem headTurn_of_save {args : SaveArgs S} {r : Except TakelnError CheckpointSave} {head : Option String}
    {p p' : HeadPhase} (hp : p = .live head ∧ p' = HeadPhase.saved head r ∨ p = .stale head ∧ p' = .stale head)
    (hargs : args.proof.expectedHead = head) (h : compareAndSwap S w (.saveStateBound args) r w') :
    HeadTurn w ⟨.saveStateBound args, r⟩ w' p p' := by
  have hq : p = .live head ∨ p = .stale head := hp.imp And.left And.left
  rcases h with ⟨hhead, id, hid, hr, rfl⟩ | ⟨hhead, rfl, rfl⟩ | ⟨⟨e, rfl⟩, rfl⟩
  · obtain rfl : w.head = head := hhead.symm.trans hargs
    have hacc : accepted (⟨.saveStateBound args, r⟩ : Event (ops S)) = some (w.head, id) := by
      rcases hr with rfl | rfl <;> simp [accepted, checkpointId, hhead]
    have hconf : ¬ Conflicts (⟨.saveStateBound args, r⟩ : Event (ops S)) := by
      rcases hr with rfl | rfl <;> exact not_false
    refine .accepted p id hq hid rfl hacc hconf p' fun hlive => ?_
    rcases hp with ⟨_, rfl⟩ | ⟨hstale, _⟩
    · rcases hr with rfl | rfl <;> rfl
    · cases hlive.symm.trans hstale
  · obtain rfl : p' = .stale head := by
      rcases hp with ⟨_, rfl⟩ | ⟨_, rfl⟩ <;> rfl
    exact .conflict p head hq (fun h => hhead (hargs.trans h.symm)) rfl not_false rfl
  · obtain rfl : p' = p := by
      rcases hp with ⟨rfl, rfl⟩ | ⟨rfl, rfl⟩ <;> rfl
    exact .idle _ rfl (fun h => h.elim) rfl not_false

theorem headTurn_of_step {p : HeadPhase} {o : Op S} {r : o.Answer} (hallow : (headKnowing S).allow p o)
    (h : compareAndSwap S w o r w') : HeadTurn w ⟨o, r⟩ w' p ((headKnowing S).next p o r) := by
  cases o with
  | saveStateBound args =>
    cases p with
    | unread => cases hallow
    | live head => exact headTurn_of_save (Or.inl ⟨rfl, rfl⟩) hallow h
    | stale head => exact headTurn_of_save (Or.inr ⟨rfl, rfl⟩) hallow h
  | currentHead t =>
    cases p with
    | unread =>
      obtain ⟨rfl, rfl | ⟨e, rfl⟩⟩ := h
      · exact .read rfl not_false rfl not_false
      · exact .idle _ rfl (fun h => h.elim) rfl not_false
    | _ => cases hallow
  | callNode ctx s d b =>
    cases p with
    | live head => exact .idle _ h (fun _ => ⟨head, rfl⟩) rfl not_false
    | _ => cases hallow
  | joinWave tasks =>
    cases p with
    | live head => exact .idle _ h (fun _ => ⟨head, rfl⟩) rfl not_false
    | _ => cases hallow
  | _ => cases p <;> exact .idle _ h (fun h => h.elim) rfl not_false

/-! ### The invariant -/

/-- A turn that writes nothing: what is known of the head afterwards was known before, or is what it is. -/
structure Passive (w : Heads) (e : Event (ops S)) (w' : Heads) (p p' : HeadPhase) : Prop where
  world : w' = w
  accepted : Takeln.accepted e = none
  executes : Executes e → ∃ head, p = .live head
  conflicts : Conflicts e → ∃ head, p' = .stale head
  of_live (head : Option String) : p' = .live head → p = .live head ∨ p = .unread ∧ head = w.head
  of_stale (head : Option String) : p' = .stale head → p = .stale head ∨ p = .live head ∧ w.head ≠ head
  of_unread : p' = .unread → p = .unread
  stale (head : Option String) : p = .stale head → ∃ head', p' = .stale head'

theorem HeadTurn.passive {e : Event (ops S)} {p p' : HeadPhase} (h : HeadTurn w e w' p p')
    (hnone : Takeln.accepted e = none) : Passive w e w' p p' := by
  cases h with
  | idle _ hw hexec haccepted hconflict =>
    exact ⟨hw, haccepted, hexec, fun h => absurd h hconflict, fun _ h => Or.inl h, fun _ h => Or.inl h, id,
      fun head h => ⟨head, h⟩⟩
  | read hw hexec haccepted hconflict =>
    refine ⟨hw, haccepted, fun h => absurd h hexec, fun h => absurd h hconflict, fun head h => ?_, nofun, nofun, nofun⟩
    exact Or.inr ⟨rfl, (HeadPhase.live.inj h).symm⟩
  | accepted _ _ _ _ _ haccepted => cases haccepted.symm.trans hnone
  | conflict _ head hq hhead hw hexec haccepted =>
    refine ⟨hw, haccepted, fun h => absurd h hexec, fun _ => ⟨head, rfl⟩, nofun, fun head' h => ?_, nofun,
      fun _ _ => ⟨head, rfl⟩⟩
    obtain rfl := HeadPhase.stale.inj h
    exact hq.symm.imp id fun hlive => ⟨hlive, hhead⟩

theorem acceptedWrites_concat (tr : List (Entry (ops S) ι Heads)) (e : Entry (ops S) ι Heads) :
    acceptedWrites (tr ++ [e]) = acceptedWrites tr ++ (accepted e.event).toList := by
  unfold acceptedWrites
  rw [List.filterMap_append]
  cases he : accepted e.event <;> simp [he]

section Step

variable [DecidableEq ι] {i : ι} {o : Op S} {r : o.Answer} {p' : HeadPhase}

private theorem chained_passive (hI : Chained w₀ tr w q) (h : Passive w (⟨o, r⟩ : Event (ops S)) w' (q i) p') :
    Chained w₀ (tr ++ [⟨i, w, o, r⟩]) w' (Function.update q i p') := by
  obtain rfl := h.world
  have hwrites : acceptedWrites (tr ++ [⟨i, w', o, r⟩]) = acceptedWrites tr := by
    rw [acceptedWrites_concat]
    change _ ++ (accepted (⟨o, r⟩ : Event (ops S))).toList = _
    rw [h.accepted]
    exact List.append_nil _
  have hnone : ¬ (accepted (⟨o, r⟩ : Event (ops S))).isSome := by simp [h.accepted]
  have mem {c : Entry (ops S) ι Heads} {l : List (Entry (ops S) ι Heads)} (hs : (c :: l).Sublist tr) : c ∈ tr :=
    hs.subset (List.mem_cons_self ..)
  constructor
  case toOneChain =>
    constructor
    case linked => rw [hwrites]; exact hI.linked
    case fresh => rw [hwrites]; exact hI.fresh
    case contiguous =>
      intro a x b hs ha hx hb hwho
      -- the step is no accepted write, so it is not at the end of a gap
      rcases (sublist_concat_iff (l := [a, x])).1 hs with hs' | ⟨_, rfl⟩
      · exact hI.contiguous a x b hs' ha hx hb hwho
      · exact absurd hb hnone
    case conflicted =>
      intro c e hs hc hwho
      rcases (sublist_concat_iff (l := [c])).1 hs with hs' | ⟨hs', rfl⟩
      · exact hI.conflicted c e hs' hc hwho
      -- who executes a node knows a live head, and who has met a conflict a stale one
      · refine ⟨fun hexec => ?_, h.accepted⟩
        obtain ⟨head, hstale⟩ := hI.marked c (mem hs') hc
        obtain ⟨head', hlive⟩ := h.executes hexec
        rw [← hwho] at hstale
        cases hstale.symm.trans hlive
  case used => rw [hwrites]; exact hI.used
  case known =>
    intro j head hj
    by_cases hij : j = i
    · subst hij
      rw [Function.update_self] at hj
      rcases hj with hj | hj
      · rcases h.of_live head hj with hp | ⟨_, rfl⟩
        · exact hI.known j head (Or.inl hp)
        · exact w'.head_used
      · exact hI.known j head ((h.of_stale head hj).symm.imp And.left id)
    · rw [Function.update_of_ne hij] at hj
      exact hI.known j head hj
  case stale =>
    intro j head hj
    by_cases hij : j = i
    · subst hij
      rw [Function.update_self] at hj
      rcases h.of_stale head hj with hp | ⟨_, hhead⟩
      · exact hI.stale j head hp
      · exact hhead
    · rw [Function.update_of_ne hij] at hj
      exact hI.stale j head hj
  case unread =>
    intro j hj e he hwho
    rcases List.mem_append.1 he with he | he
    · have hp : q j = .unread := by
        by_cases hij : j = i
        · subst hij
          rw [Function.update_self] at hj
          exact h.of_unread hj
        · rwa [Function.update_of_ne hij] at hj
      exact hI.unread j hp e he hwho
    · cases List.mem_singleton.1 he
      refine ⟨h.accepted, fun hconf => ?_⟩
      obtain ⟨head, hstale⟩ := h.conflicts hconf
      rw [← hwho, Function.update_self, hstale] at hj
      cases hj
  case last =>
    intro j hj a x hs hwho ha hx
    rcases (sublist_concat_iff (l := [a])).1 hs with hs' | ⟨_, rfl⟩
    · by_cases hij : j = i
      · subst hij
        rw [Function.update_self] at hj
        rcases h.of_live _ hj with hp | ⟨hp, _⟩
        · exact hI.last j hp a x hs' hwho ha hx
        -- it has just read the head, so it has written nothing yet
        · rw [(hI.unread j hp a (mem hs') hwho).1] at ha
          cases ha
      · rw [Function.update_of_ne hij] at hj
        exact hI.last j hj a x hs' hwho ha hx
    · exact absurd hx hnone
  case marked =>
    intro c hc hconf
    rcases List.mem_append.1 hc with hc | hc
    · obtain ⟨head, hstale⟩ := hI.marked c hc hconf
      by_cases hij : c.who = i
      · subst hij
        rw [Function.update_self]
        exact h.stale head hstale
      · rw [Function.update_of_ne hij]
        exact ⟨head, hstale⟩
    · cases List.mem_singleton.1 hc
      rw [Function.update_self]
      exact h.conflicts hconf

private theorem chained_accepted (hI : Chained w₀ tr w q) {id : String} (hp : q i = .live w.head) (hid : id ∉ w.used)
    (haccepted : accepted (⟨o, r⟩ : Event (ops S)) = some (w.head, id))
    (hconflict : ¬ Conflicts (⟨o, r⟩ : Event (ops S))) :
    Chained w₀ (tr ++ [⟨i, w, o, r⟩]) (w.advance id) (Function.update q i (.live (some id))) := by
  have hwrites : acceptedWrites (tr ++ [⟨i, w, o, r⟩]) = acceptedWrites tr ++ [(w.head, id)] := by
    rw [acceptedWrites_concat]
    change _ ++ (accepted (⟨o, r⟩ : Event (ops S))).toList = _
    rw [haccepted]
    rfl
  have hnew : id ∉ w₀.used ∧ id ∉ (acceptedWrites tr).map Prod.snd := by
    rw [hI.used, not_or] at hid
    exact hid
  have mem {c : Entry (ops S) ι Heads} {l : List (Entry (ops S) ι Heads)} (hs : (c :: l).Sublist tr) : c ∈ tr :=
    hs.subset (List.mem_cons_self ..)
  -- the writer has not met a conflict
  have unmarked {c : Entry (ops S) ι Heads} (hc : c ∈ tr) (hconf : Conflicts c.event) : c.who ≠ i := by
    rintro rfl
    obtain ⟨head, hstale⟩ := hI.marked c hc hconf
    cases hp.symm.trans hstale
  -- no other call knows the new id
  have unknown {j : ι} (hj : q j = .live (some id) ∨ q j = .stale (some id)) : False :=
    hid (hI.known j (some id) hj id rfl)
  constructor
  case toOneChain =>
    constructor
    case linked => rw [hwrites]; exact hI.linked.concat id
    case fresh =>
      rw [hwrites, List.map_append]
      refine ⟨?_, fun id' hid' => ?_⟩
      · rw [List.nodup_append]
        refine ⟨hI.fresh.1, List.nodup_singleton _, ?_⟩
        rintro a ha b hb rfl
        rw [List.map_singleton, List.mem_singleton] at hb
        subst hb
        exact hnew.2 ha
      · rcases List.mem_append.1 hid' with h | h
        · exact hI.fresh.2 id' h
        · rw [List.map_singleton, List.mem_singleton] at h
          subst h
          exact hnew.1
    case contiguous =>
      intro a x b hs ha hx hb hwho
      rcases (sublist_concat_iff (l := [a, x])).1 hs with hs' | ⟨hs', rfl⟩
      · exact hI.contiguous a x b hs' ha hx hb hwho
      · exact (hI.last i hp a x hs' hwho.symm ha hx).trans hwho
    case conflicted =>
      intro c e hs hc hwho
      rcases (sublist_concat_iff (l := [c])).1 hs with hs' | ⟨hs', rfl⟩
      · exact hI.conflicted c e hs' hc hwho
      · exact absurd hwho.symm (unmarked (mem hs') hc)
  case used =>
    intro id'
    rw [hwrites, List.map_append]
    simp only [Heads.advance, List.mem_cons, hI.used, List.map_singleton, List.mem_append]
    tauto
  case known =>
    intro j head hj id' hid'
    by_cases hij : j = i
    · subst hij
      rw [Function.update_self] at hj
      rcases hj with hj | hj <;> cases hj
      cases hid'
      exact List.mem_cons_self ..
    · rw [Function.update_of_ne hij] at hj
      exact List.mem_cons_of_mem _ (hI.known j head hj id' hid')
  case stale =>
    intro j head hj
    by_cases hij : j = i
    · subst hij
      rw [Function.update_self] at hj
      cases hj
    · rw [Function.update_of_ne hij] at hj
      rintro rfl
      exact unknown (Or.inr hj)
  case unread =>
    intro j hj e he hwho
    by_cases hij : j = i
    · subst hij
      rw [Function.update_self] at hj
      cases hj
    · rw [Function.update_of_ne hij] at hj
      rcases List.mem_append.1 he with he | he
      · exact hI.unread j hj e he hwho
      · cases List.mem_singleton.1 he
        exact absurd hwho.symm hij
  case last =>
    intro j hj a x hs hwho ha hx
    by_cases hij : j = i
    · subst hij
      rcases (sublist_concat_iff (l := [a])).1 hs with hs' | ⟨_, rfl⟩
      · exact hI.last j hp a x hs' hwho ha hx
      · rfl
    · rw [Function.update_of_ne hij] at hj
      exact (unknown (Or.inl hj)).elim
  case marked =>
    intro c hc hconf
    rcases List.mem_append.1 hc with hc | hc
    · rw [Function.update_of_ne (unmarked hc hconf)]
      exact hI.marked c hc hconf
    · cases List.mem_singleton.1 hc
      exact absurd hconf hconflict

/-- Every turn keeps the invariant. -/
theorem Chained.step (hI : Chained w₀ tr w q) (h : HeadTurn w (⟨o, r⟩ : Event (ops S)) w' (q i) p') :
    Chained w₀ (tr ++ [⟨i, w, o, r⟩]) w' (Function.update q i p') := by
  cases hacc : accepted (⟨o, r⟩ : Event (ops S)) with
  | none => exact chained_passive hI (h.passive hacc)
  | some a =>
    generalize hp : q i = p at h
    cases h with
    | accepted _ id hq hid hw haccepted hconflict _ hq' =>
      subst hw
      have hlive : q i = .live w.head := by
        rcases hq with h | h
        · exact hp.trans h
        · exact absurd rfl (hI.stale i w.head (hp.trans h))
      rw [hq' (hp.symm.trans hlive)]
      exact chained_accepted hI hlive hid haccepted hconflict
    | idle _ _ _ hnone => cases hacc.symm.trans hnone
    | read _ _ hnone => cases hacc.symm.trans hnone
    | conflict _ _ _ _ _ _ hnone => cases hacc.symm.trans hnone

end Step

end

/-! ### All interleavings -/

/-- Whatever the order of their steps, the calls of a thread write one chain. -/
theorem calls_oneChain [External] [State S] [Merge S] {ι : Type} [DecidableEq ι] {t : String} (calls : ι → Call S)
    {w₀ w : Heads} {tr : List (Entry (ops S) ι Heads)} {P : ι → Prog (ops S) TakelnError Unit}
    (hI : Interleaving (compareAndSwap S) (fun i => (calls i).prog t) w₀ tr P w) : OneChain w₀ tr w := by
  have hstart : Chained w₀ ([] : List (Entry (ops S) ι Heads)) w₀ fun _ => .unread := by
    constructor
    case toOneChain =>
      constructor
      case linked => exact .nil _
      case fresh => exact ⟨List.nodup_nil, fun id hid => absurd hid List.not_mem_nil⟩
      case contiguous => intro a x b hs; cases hs
      case conflicted => intro c e hs; cases hs
    case used => intro id; simp [acceptedWrites]
    case known => rintro i head (h | h) <;> cases h
    case stale => intro i head h; cases h
    case unread => intro i _ e he; cases he
    case last => intro i h; cases h
    case marked => intro c hc; cases hc
  obtain ⟨q, hchained, _⟩ := hI.invariant (π := headKnowing S) (fun i => headKnowing_follows (calls i)) hstart
    fun tr w q i o r w' hinv hallow hstep => hinv.step (headTurn_of_step hallow hstep)
  exact hchained.toOneChain

/-! ### Two runs at the same time -/

section Examples

attribute [local instance] shortRuns

/-- A store that makes `c0`, `c1` and so on the head, on which every node counts up. -/
def headStore : Handler (ops Nat) Heads
  | w, .currentHead _ => some (.ok w.head, w)
  | w, .saveStateBound args =>
    let id := s!"c{w.used.length}"
    if args.proof.expectedHead ≠ w.head then some (.ok (.conflict w.head), w)
    else if id ∈ w.used then some (.error (.checkpointError id), w)
    else some (.ok (.advanced id), w.advance id)
  | w, .loadState _ => some (.ok none, w)
  | w, .claimInterrupt t _ => some (.error (.nothingToResume t), w)
  | w, .callNode _ state _ _ => some (.returned (.ok { state := state + 1 }), w)
  | w, .joinWave _ => some ([], w)
  | w, .nextSeq => some ((0 : Nat), w)
  | w, .send _ => some ((), w)
  | w, .record _ _ => some ((), w)

theorem compareAndSwap_of_headStore (w : Heads) (o : Op Nat) (r : o.Answer) (w' : Heads)
    (h : headStore w o = some (r, w')) : compareAndSwap Nat w o r w' := by
  cases o with
  | saveStateBound args =>
    simp only [headStore] at h
    split at h
    · rename_i hhead
      cases h
      exact Or.inr (Or.inl ⟨hhead, rfl, rfl⟩)
    · rename_i hhead
      split at h
      · cases h
        exact Or.inr (Or.inr ⟨⟨_, rfl⟩, rfl⟩)
      · rename_i hid
        cases h
        exact Or.inl ⟨not_not.1 hhead, _, hid, Or.inr rfl, rfl⟩
  | currentHead t =>
    cases h
    exact ⟨rfl, Or.inl rfl⟩
  | _ =>
    cases h
    rfl

theorem calls_oneChain_race :
    ∃ tr P w, schedule headStore [true, false, true, true, true, true, true, true, true, false, false, false, false,
      false, false, false] []
        (fun _ : Bool => (Call.run single false 0 "A").prog "t") ⟨none, [], nofun⟩ = some (tr, P, w) ∧
      OneChain ⟨none, [], nofun⟩ tr w := by
  refine ⟨_, _, _, (Option.some_get (show Option.isSome _ = true by decide +kernel)).symm, ?_⟩
  exact calls_oneChain (fun _ => Call.run single false 0 "A")
    ((Interleaving.start.schedule (Option.some_get _).symm).mono compareAndSwap_of_headStore)

end Examples

end Takeln
