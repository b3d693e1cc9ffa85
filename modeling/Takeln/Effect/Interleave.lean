import Mathlib.Logic.Function.Basic
import Takeln.Effect.Protocol

/-!
# Interleavings

Any number of programs share one world and take turns, one operation at a time, in any order; a program may be left
waiting for ever.  `Interleaving` lists the operations performed so far with the world each of them found.  If every
program keeps to a protocol, a relation between the history, the world and the protocol states that holds at the
start and survives every allowed step holds throughout (`Interleaving.invariant`).  `schedule` runs a given order
of turns.
-/

namespace Effect

open Prog

/-- One operation of an interleaving: who performed it, in which world, and the answer. -/
structure Entry (F : Signature) (ι W : Type) where
  who : ι
  world : W
  op : F.Op
  ans : F.Ans op

def Entry.event {F : Signature} {ι W : Type} (e : Entry F ι W) : Event F := ⟨e.op, e.ans⟩

/-- The answers a world may give to an operation, with the world after it. -/
abbrev Semantics (F : Signature) (W : Type) := W → (o : F.Op) → F.Ans o → W → Prop

/-- The semantics of a handler. -/
def Handler.semantics {F : Signature} {W : Type} (h : Handler F W) : Semantics F W :=
  fun w o r w' => h w o = some (r, w')

variable {F : Signature} {E α W Q ι : Type} [DecidableEq ι]

/-! ### The order of entries -/

/-- Entries that occur in this order in a longer history occurred so before, or the last of them is the new one. -/
theorem sublist_concat_iff {A : Type} {l tr : List A} {a e : A} :
    List.Sublist (l ++ [a]) (tr ++ [e]) ↔ List.Sublist (l ++ [a]) tr ∨ List.Sublist l tr ∧ a = e := by
  rw [← List.reverse_sublist, ← @List.reverse_sublist _ (l ++ [a]), ← @List.reverse_sublist _ l]
  simp only [List.reverse_append, List.reverse_singleton, List.singleton_append, List.sublist_cons_iff]
  constructor
  · rintro (h | ⟨r, hr, h⟩)
    · exact Or.inl h
    · obtain ⟨rfl, rfl⟩ := List.cons.inj hr
      exact Or.inr ⟨h, rfl⟩
  · rintro (h | ⟨h, rfl⟩)
    · exact Or.inl h
    · exact Or.inr ⟨_, rfl, h⟩

theorem eq_append_cons_of_concat {A : Type} {tr l₁ l₂ : List A} {a e : A} (h : tr ++ [e] = l₁ ++ a :: l₂) :
    (l₁ = tr ∧ a = e ∧ l₂ = []) ∨ ∃ l, l₂ = l ++ [e] ∧ tr = l₁ ++ a :: l := by
  rcases List.eq_nil_or_concat l₂ with rfl | ⟨l, b, rfl⟩
  · obtain ⟨rfl, ha⟩ := List.append_inj' h rfl
    exact Or.inl ⟨rfl, (List.cons.inj ha).1.symm, rfl⟩
  · rw [List.concat_eq_append] at h ⊢
    rw [← List.cons_append, ← List.append_assoc] at h
    obtain ⟨rfl, ha⟩ := List.append_inj' h rfl
    exact Or.inr ⟨l, by rw [(List.cons.inj ha).1], rfl⟩

/-- The middle one of three entries, with the first before and the last after it. -/
theorem exists_split_of_sublist {A : Type} {l : List A} {a b c : A} (h : [a, b, c].Sublist l) :
    ∃ l₁ l₂, l = l₁ ++ b :: l₂ ∧ a ∈ l₁ ∧ c ∈ l₂ := by
  obtain ⟨l₁, l₂, rfl, ha, hbc⟩ := List.cons_sublist_iff.1 h
  obtain ⟨l₃, l₄, rfl, hb, hc⟩ := List.cons_sublist_iff.1 hbc
  obtain ⟨l₅, l₆, rfl⟩ := List.append_of_mem hb
  refine ⟨l₁ ++ l₅, l₆ ++ l₄, by simp, List.mem_append_left _ ha, List.mem_append_right _ ?_⟩
  exact List.singleton_sublist.1 hc

/-- What a participant has performed. -/
def own (i : ι) (tr : List (Entry F ι W)) : List (Event F) := (tr.filter fun e => decide (e.who = i)).map Entry.event

@[simp] theorem own_append (i : ι) (tr tr' : List (Entry F ι W)) : own i (tr ++ tr') = own i tr ++ own i tr' := by
  simp [own]

theorem own_concat (i : ι) (tr : List (Entry F ι W)) (e : Entry F ι W) :
    own i (tr ++ [e]) = own i tr ++ if e.who = i then [e.event] else [] := by
  by_cases he : e.who = i <;> simp [own, he]

/-- Where a participant performed the first of its operations. -/
theorem exists_of_own_eq_cons {i : ι} {tr : List (Entry F ι W)} {ev : Event F} {evs : List (Event F)}
    (h : own i tr = ev :: evs) :
    ∃ l e l', tr = l ++ e :: l' ∧ e.who = i ∧ e.event = ev ∧ own i l' = evs := by
  induction tr with
  | nil => cases h
  | cons a tr ih =>
    by_cases ha : a.who = i
    · simp only [own, List.filter_cons, ha, decide_true, if_true, List.map_cons] at h
      obtain ⟨hev, hevs⟩ := List.cons.inj h
      exact ⟨[], a, tr, rfl, ha, hev, hevs⟩
    · simp only [own, List.filter_cons, ha, decide_false] at h
      obtain ⟨l, e, l', rfl, he⟩ := ih h
      exact ⟨a :: l, e, l', rfl, he⟩

/-- The entries follow each other, from `w` to `w'`. -/
inductive Trail (sem : Semantics F W) : W → List (Entry F ι W) → W → Prop
  | nil (w : W) : Trail sem w [] w
  | cons {w w' w'' : W} {i : ι} {o : F.Op} {r : F.Ans o} {tr : List (Entry F ι W)} (hsem : sem w o r w')
      (hrest : Trail sem w' tr w'') : Trail sem w (⟨i, w, o, r⟩ :: tr) w''

omit [DecidableEq ι] in
theorem Trail.append {sem : Semantics F W} {w w' w'' : W} {tr tr' : List (Entry F ι W)} (h : Trail sem w tr w')
    (h' : Trail sem w' tr' w'') : Trail sem w (tr ++ tr') w'' := by
  induction h with
  | nil w => exact h'
  | cons hsem _ ih => exact .cons hsem (ih h')

omit [DecidableEq ι] in
/-- Each entry was performed in the world it says. -/
theorem Trail.split {sem : Semantics F W} {w w'' : W} {l₁ l₂ : List (Entry F ι W)} {e : Entry F ι W}
    (h : Trail sem w (l₁ ++ e :: l₂) w'') :
    Trail sem w l₁ e.world ∧ ∃ w', sem e.world e.op e.ans w' ∧ Trail sem w' l₂ w'' := by
  induction l₁ generalizing w with
  | nil =>
    cases h with
    | cons hsem hrest => exact ⟨.nil _, _, hsem, hrest⟩
  | cons a l₁ ih =>
    cases h with
    | cons hsem hrest =>
      obtain ⟨h₁, h₂⟩ := ih hrest
      exact ⟨.cons hsem h₁, h₂⟩

/-- The programs `P₀`, started in the world `w₀`, can perform the entries and are then at `P`, in the world `w`. -/
inductive Interleaving (sem : Semantics F W) (P₀ : ι → Prog F E α) (w₀ : W) :
    List (Entry F ι W) → (ι → Prog F E α) → W → Prop
  | start : Interleaving sem P₀ w₀ [] P₀ w₀
  | step {tr : List (Entry F ι W)} {P : ι → Prog F E α} {w w' : W} {i : ι} {o : F.Op} {k : F.Ans o → Prog F E α}
      {r : F.Ans o} (hprev : Interleaving sem P₀ w₀ tr P w) (hop : P i = perform o k) (hsem : sem w o r w') :
      Interleaving sem P₀ w₀ (tr ++ [⟨i, w, o, r⟩]) (Function.update P i (k r)) w'

namespace Interleaving

variable {sem : Semantics F W} {P₀ P : ι → Prog F E α} {w₀ w : W} {tr : List (Entry F ι W)} {π : Protocol F Q}

/-- A world that gives more answers has more interleavings. -/
theorem mono {sem' : Semantics F W} (hsem : ∀ w o r w', sem w o r w' → sem' w o r w')
    (hI : Interleaving sem P₀ w₀ tr P w) : Interleaving sem' P₀ w₀ tr P w := by
  induction hI with
  | start => exact .start
  | step _ hop hstep ih => exact ih.step hop (hsem _ _ _ _ hstep)

/-- What holds of history, world and protocol states at the start and survives every allowed step always holds. -/
theorem invariant {q₀ : ι → Q} {Φ : ι → Q → Except E α → Prop} {Inv : List (Entry F ι W) → W → (ι → Q) → Prop}
    (hfollow : ∀ i, Follows π (P₀ i) (q₀ i) (Φ i)) (hinit : Inv [] w₀ q₀)
    (hstep : ∀ tr w q i o r w', Inv tr w q → π.allow (q i) o → sem w o r w' →
      Inv (tr ++ [⟨i, w, o, r⟩]) w' (Function.update q i (π.next (q i) o r)))
    (hI : Interleaving sem P₀ w₀ tr P w) :
    ∃ q, Inv tr w q ∧ ∀ i, Follows π (P i) (q i) (Φ i) := by
  induction hI with
  | start => exact ⟨q₀, hinit, hfollow⟩
  | @step tr P w w' i o k r _ hop hsem ih =>
    obtain ⟨q, hinv, hfol⟩ := ih
    have hi := hfol i
    rw [hop, follows_perform] at hi
    refine ⟨Function.update q i (π.next (q i) o r), hstep _ _ _ _ _ _ _ hinv hi.1 hsem, fun j => ?_⟩
    by_cases hj : j = i
    · subst hj
      simpa using hi.2 r
    · simpa [hj] using hfol j

/-- A participant that keeps to a protocol has performed only what was allowed then, whatever the others are. -/
theorem allow_own {i : ι} {q₀ : Q} {Φ : Q → Except E α → Prop} (hfollow : Follows π (P₀ i) q₀ Φ)
    (hI : Interleaving sem P₀ w₀ tr P w) :
    Follows π (P i) (π.after q₀ (own i tr)) Φ ∧
      ∀ l₁ e l₂, tr = l₁ ++ e :: l₂ → e.who = i → π.allow (π.after q₀ (own i l₁)) e.op := by
  induction hI with
  | start => exact ⟨hfollow, by simp⟩
  | @step tr P w w' j o k r _ hop hsem ih =>
    obtain ⟨hfol, hallow⟩ := ih
    rw [own_concat]
    by_cases hij : j = i
    · subst hij
      rw [hop, follows_perform] at hfol
      rw [if_pos rfl, Function.update_self, Protocol.after_concat]
      refine ⟨hfol.2 r, fun l₁ e l₂ htr hwho => ?_⟩
      rcases eq_append_cons_of_concat htr with ⟨rfl, rfl, rfl⟩ | ⟨l, rfl, htr'⟩
      · exact hfol.1
      · exact hallow l₁ e l htr' hwho
    · rw [if_neg hij, Function.update_of_ne (Ne.symm hij), List.append_nil]
      refine ⟨hfol, fun l₁ e l₂ htr hwho => ?_⟩
      rcases eq_append_cons_of_concat htr with ⟨rfl, rfl, rfl⟩ | ⟨l, rfl, htr'⟩
      · exact absurd hwho hij
      · exact hallow l₁ e l htr' hwho

/-- What a participant that keeps to a protocol performs is allowed after what it has performed before. -/
theorem allow_at {e : Entry F ι W} {l₁ l₂ : List (Entry F ι W)} {q₀ : Q} {Φ : Q → Except E α → Prop}
    (hI : Interleaving sem P₀ w₀ tr P w) (htr : tr = l₁ ++ e :: l₂) (hfollow : Follows π (P₀ e.who) q₀ Φ) :
    π.allow (π.after q₀ (own e.who l₁)) e.op := (hI.allow_own hfollow).2 l₁ e l₂ htr rfl

/-- The entries follow each other. -/
theorem trail (hI : Interleaving sem P₀ w₀ tr P w) : Trail sem w₀ tr w := by
  induction hI with
  | start => exact .nil _
  | step _ _ hsem ih => exact ih.append (.cons hsem (.nil _))

end Interleaving

/-! ### Running a given order of turns -/

/-- The programs take turns in the given order; a turn of a program that has ended is skipped. -/
def schedule (h : Handler F W) : List ι → List (Entry F ι W) → (ι → Prog F E α) → W →
    Option (List (Entry F ι W) × (ι → Prog F E α) × W)
  | [], tr, P, w => some (tr, P, w)
  | i :: is, tr, P, w =>
    match P i with
    | perform o k =>
      match h w o with
      | none => none
      | some (r, w') => schedule h is (tr ++ [⟨i, w, o, r⟩]) (Function.update P i (k r)) w'
    | _ => schedule h is tr P w

theorem Interleaving.schedule {h : Handler F W} {P₀ P P' : ι → Prog F E α} {w₀ w w' : W}
    {tr tr' : List (Entry F ι W)} {is : List ι} (hI : Interleaving h.semantics P₀ w₀ tr P w)
    (hs : Effect.schedule h is tr P w = some (tr', P', w')) : Interleaving h.semantics P₀ w₀ tr' P' w' := by
  induction is generalizing tr P w with
  | nil =>
    cases hs
    exact hI
  | cons i is ih =>
    rw [Effect.schedule] at hs
    split at hs
    · rename_i o k hop
      split at hs
      · cases hs
      · rename_i r w'' hr
        exact ih (hI.step hop hr) hs
    · exact ih hI hs

theorem schedule_append (h : Handler F W) (is js : List ι) (tr : List (Entry F ι W)) (P : ι → Prog F E α) (w : W) :
    schedule h (is ++ js) tr P w =
      (schedule h is tr P w).bind fun x => schedule h js x.1 x.2.1 x.2.2 := by
  induction is generalizing tr P w with
  | nil => rfl
  | cons i is ih =>
    rw [List.cons_append, schedule, schedule]
    split
    · split
      · rfl
      · exact ih _ _ _
    · exact ih _ _ _

/-- An interleaving is what its order of turns leads to. -/
theorem Interleaving.schedule_turns {h : Handler F W} {P₀ P : ι → Prog F E α} {w₀ w : W} {tr : List (Entry F ι W)}
    (hI : Interleaving h.semantics P₀ w₀ tr P w) :
    Effect.schedule h (tr.map Entry.who) [] P₀ w₀ = some (tr, P, w) := by
  induction hI with
  | start => rfl
  | step _ hop hsem ih =>
    rw [List.map_append, schedule_append, ih, Option.bind_some]
    simp only [List.map_cons, List.map_nil, Effect.schedule, hop]
    have hr := hsem
    unfold Handler.semantics at hr
    simp only [hr]

end Effect
