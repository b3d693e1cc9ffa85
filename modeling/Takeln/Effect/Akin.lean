import Mathlib.Data.List.Forall2
import Takeln.Effect.Progress

/-!
# Programs that are told similar things

Two programs are akin if they perform the same operations and, as long as they are given related answers, go on alike
up to related ends (`Prog.Akin`).  The rules follow the programs, as those of `Follows` do.  If a second world answers
as the first one does, up to the relation of the answers, then the second program can do there what the first one does
in its world, in every interleaving with others (`Interleaving.akin`), and both come to related ends.
-/

namespace Effect

/-- Which answers to an operation are related. -/
abbrev AnswerRel (F : Signature) := (o : F.Op) → F.Ans o → F.Ans o → Prop

/-- The same operation, with related answers. -/
inductive SameEvent {F : Signature} (R : AnswerRel F) : Event F → Event F → Prop
  | mk {o : F.Op} {r r' : F.Ans o} (h : R o r r') : SameEvent R ⟨o, r⟩ ⟨o, r'⟩

/-- The same value, or related errors. -/
inductive SameEnd {E E' α : Type} (kind : E → E' → Prop) : Except E α → Except E' α → Prop
  | ok (a : α) : SameEnd kind (.ok a) (.ok a)
  | error {e : E} {e' : E'} (h : kind e e') : SameEnd kind (.error e) (.error e')

theorem SameEnd.map {E E' α β : Type} {kind : E → E' → Prop} {x : Except E α} {x' : Except E' α}
    (h : SameEnd kind x x') (f : α → β) : SameEnd kind (x.map f) (x'.map f) := by
  cases h with
  | ok a => exact .ok (f a)
  | error he => exact .error he

namespace Prog

variable {F : Signature} {E E' E₁ E₁' α α' β β' W W' : Type} {R : AnswerRel F}

theorem eq_ofExcept_of_outcome {p : Prog F E α} {x : Except E α} (h : p.outcome = some x) : p = ofExcept x := by
  cases p with
  | ret a =>
    cases h
    rfl
  | fail e =>
    cases h
    rfl
  | perform o k => cases h

theorem outcome_ofExcept (x : Except E α) : (ofExcept x : Prog F E α).outcome = some x := by
  cases x <;> rfl

/-- The programs perform the same operations, and after related answers they go on alike or come to ends in `Φ`. -/
inductive Akin (R : AnswerRel F) (Φ : Except E α → Except E' α' → Prop) : Prog F E α → Prog F E' α' → Prop
  | ended {p : Prog F E α} {p' : Prog F E' α'} {x : Except E α} {x' : Except E' α'} (hp : p.outcome = some x)
      (hp' : p'.outcome = some x') (h : Φ x x') : Akin R Φ p p'
  | perform {o : F.Op} {k : F.Ans o → Prog F E α} {k' : F.Ans o → Prog F E' α'}
      (h : ∀ r r', R o r r' → Akin R Φ (k r) (k' r')) : Akin R Φ (.perform o k) (.perform o k')

namespace Akin

variable {Φ : Except E α → Except E' α' → Prop} {Ψ : Except E₁ β → Except E₁' β' → Prop} {p : Prog F E α}
  {p' : Prog F E' α'} {kind : E → E' → Prop} {kind' : E₁ → E₁' → Prop}

theorem ofExcept {x : Except E α} {x' : Except E' α'} (h : Φ x x') : Akin R Φ (ofExcept x) (ofExcept x') :=
  .ended (outcome_ofExcept x) (outcome_ofExcept x') h

theorem ret (a : α) : Akin R (SameEnd kind) (.ret a) (.ret a) := .ended rfl rfl (.ok a)

theorem fail {e : E} {e' : E'} (h : kind e e') : Akin R (SameEnd (α := α) kind) (.fail e) (.fail e') :=
  .ended rfl rfl (.error h)

/-- Programs in sequence. -/
theorem bind {f : α → Prog F E β} {f' : α' → Prog F E' β'} {Ψ : Except E β → Except E' β' → Prop}
    (hp : Akin R Φ p p')
    (hf : ∀ x x', Φ x x' → Akin R Ψ ((Prog.ofExcept x).bind f) ((Prog.ofExcept x').bind f')) :
    Akin R Ψ (p.bind f) (p'.bind f') := by
  induction hp with
  | ended hp hp' h =>
    rw [eq_ofExcept_of_outcome hp, eq_ofExcept_of_outcome hp']
    exact hf _ _ h
  | perform _ ih => exact .perform ih

/-- Programs in sequence, where the first ones return the same values. -/
theorem andThen {p : Prog F E α} {p' : Prog F E' α} {f : α → Prog F E β} {f' : α → Prog F E' β}
    (hp : Akin R (SameEnd kind) p p') (hf : ∀ a, Akin R (SameEnd kind) (f a) (f' a)) :
    Akin R (SameEnd kind) (p.bind f) (p'.bind f') := by
  refine hp.bind fun x x' hx => ?_
  cases hx with
  | ok a => exact hf a
  | error he => exact fail he

theorem mapError {p : Prog F E α} {p' : Prog F E' α} {g : E → E₁} {g' : E' → E₁'}
    (hp : Akin R (SameEnd kind) p p') (hg : ∀ e e', kind e e' → kind' (g e) (g' e')) :
    Akin R (SameEnd kind') (p.mapError g) (p'.mapError g') := by
  induction hp with
  | ended hp hp' h =>
    rw [eq_ofExcept_of_outcome hp, eq_ofExcept_of_outcome hp']
    cases h with
    | ok a => exact ret a
    | error he => exact fail (hg _ _ he)
  | perform _ ih => exact .perform ih

/-- Going on from the ends of programs, failures included. -/
theorem attempt {f : Except E α → Prog F E₁ β} {f' : Except E' α' → Prog F E₁' β'} (hp : Akin R Φ p p')
    (hf : ∀ x x', Φ x x' → Akin R Ψ (f x) (f' x')) : Akin R Ψ (p.attempt.bind f) (p'.attempt.bind f') := by
  induction hp with
  | @ended p p' x x' hp hp' h =>
    rw [eq_ofExcept_of_outcome hp, eq_ofExcept_of_outcome hp']
    have hattempt {E E₁ α β : Type} (x : Except E α) (f : Except E α → Prog F E₁ β) :
        (Prog.ofExcept (F := F) x).attempt.bind f = f x := by
      cases x <;> rfl
    rw [hattempt, hattempt]
    exact hf _ _ h
  | perform _ ih => exact .perform ih

theorem outcome (hp : Akin R Φ p p') {x : Except E α} (hx : p.outcome = some x) :
    ∃ x', p'.outcome = some x' ∧ Φ x x' := by
  cases hp with
  | ended hp hp' h =>
    cases hp.symm.trans hx
    exact ⟨_, hp', h⟩
  | perform => cases hx

theorem eq_perform {o : F.Op} {k : F.Ans o → Prog F E α} (hp : Akin R Φ (.perform o k) p') :
    ∃ k', p' = .perform o k' ∧ ∀ r r', R o r r' → Akin R Φ (k r) (k' r') := by
  cases hp with
  | ended hp => cases hp
  | perform h => exact ⟨_, rfl, h⟩

end Akin

end Prog

open Prog

/-- In a second world that answers alike, akin programs can take the same turns. -/
theorem Interleaving.akin {F : Signature} {E E' α α' W W' ι : Type} [DecidableEq ι] {R : AnswerRel F}
    {Φ : Except E α → Except E' α' → Prop} {h : Handler F W} {h' : Handler F W'} {I : W → W' → Prop}
    {C : W → F.Op → Prop} {P₀ P : ι → Prog F E α} {P₀' : ι → Prog F E' α'} {w₀ w : W} {w₀' : W'}
    {tr : List (Entry F ι W)}
    (hsim : ∀ w w' o r w₁, I w w' → C w o → h w o = some (r, w₁) →
      ∃ r' w₁', h' w' o = some (r', w₁') ∧ R o r r' ∧ I w₁ w₁')
    (hprog : ∀ i, Akin R Φ (P₀ i) (P₀' i)) (hw₀ : I w₀ w₀') (hI : Interleaving h.semantics P₀ w₀ tr P w)
    (hC : ∀ e ∈ tr, C e.world e.op) :
    ∃ tr' P' w', Interleaving h'.semantics P₀' w₀' tr' P' w' ∧
      List.Forall₂ (fun e e' => e.who = e'.who ∧ SameEvent R e.event e'.event) tr tr' ∧
      (∀ i, Akin R Φ (P i) (P' i)) ∧ I w w' := by
  induction hI with
  | start => exact ⟨[], P₀', w₀', .start, .nil, hprog, hw₀⟩
  | @step tr P w w₁ i o k r hprev hop hsem ih =>
    obtain ⟨tr', P', w', hI', htr, hP, hw⟩ := ih fun e he => hC e (List.mem_append_left _ he)
    have hi := hP i
    rw [hop] at hi
    obtain ⟨k', hop', hk⟩ := hi.eq_perform
    obtain ⟨r', w₁', hsem', hrel, hw₁⟩ := hsim _ _ _ _ _ hw (hC ⟨i, w, o, r⟩ (by simp)) hsem
    have hevent : SameEvent R (Entry.event ⟨i, w, o, r⟩) (Entry.event ⟨i, w', o, r'⟩) := .mk hrel
    refine ⟨tr' ++ [⟨i, w', o, r'⟩], Function.update P' i (k' r'), w₁', hI'.step hop' hsem',
      List.rel_append htr (.cons ⟨rfl, hevent⟩ .nil), fun j => ?_, hw₁⟩
    by_cases hj : j = i
    · subst hj
      rw [Function.update_self, Function.update_self]
      exact hk r r' hrel
    · rw [Function.update_of_ne hj, Function.update_of_ne hj]
      exact hP j

/-- If a world answers as another one may, then programs can do there the same. -/
theorem Interleaving.simulated {F : Signature} {E α W W' ι : Type} [DecidableEq ι] {sem : Semantics F W}
    {sem' : Semantics F W'} {I : W → W' → Prop} {C : F.Op → Prop} {P₀ P : ι → Prog F E α} {w₀ : W} {w₀' w' : W'}
    {tr' : List (Entry F ι W')}
    (hsim : ∀ w w' o r w₁', I w w' → C o → sem' w' o r w₁' → ∃ w₁, sem w o r w₁ ∧ I w₁ w₁') (hw₀ : I w₀ w₀')
    (hI : Interleaving sem' P₀ w₀' tr' P w') (hC : ∀ e ∈ tr', C e.op) :
    ∃ tr w, Interleaving sem P₀ w₀ tr P w ∧
      List.Forall₂ (fun e e' => e.who = e'.who ∧ e.event = e'.event) tr tr' ∧ I w w' := by
  induction hI with
  | start => exact ⟨[], w₀, .start, .nil, hw₀⟩
  | @step tr' P w' w₁' i o k r hprev hop hsem ih =>
    obtain ⟨tr, w, hI', htr, hw⟩ := ih fun e he => hC e (List.mem_append_left _ he)
    obtain ⟨w₁, hsem', hw₁⟩ := hsim _ _ _ _ _ hw (hC ⟨i, w', o, r⟩ (by simp)) hsem
    exact ⟨tr ++ [⟨i, w, o, r⟩], w₁, hI'.step hop hsem', List.rel_append htr (.cons ⟨rfl, rfl⟩ .nil), hw₁⟩

end Effect
