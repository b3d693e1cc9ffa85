import Mathlib.Data.List.Forall2
import Takeln.Effect.Interleave

/-!
# Programs side by side

A `Pairing` says which operations of two programs count as the same, and which of their answers.  Two programs match
if they perform paired operations as long as they are answered alike, and end alike.  Some programs of an interleaving
that match others can be replaced by them, and the rest of the interleaving left out, if it does not disturb them
(`Interleaving.project`).
-/

namespace Effect

/-- Operations that count as the same, and answers that do. -/
structure Pairing (F : Signature) where
  ops : F.Op → F.Op → Prop
  answers : (o : F.Op) → F.Ans o → (o' : F.Op) → F.Ans o' → Prop

namespace Prog

variable {F : Signature} {E E' E₁ E₁' α α' β β' : Type} {ρ : Pairing F}

/-- The programs perform paired operations, and end in related results. -/
inductive Matched (ρ : Pairing F) (Φ : Except E α → Except E' α' → Prop) : Prog F E α → Prog F E' α' → Prop
  | ret {a : α} {a' : α'} (h : Φ (.ok a) (.ok a')) : Matched ρ Φ (.ret a) (.ret a')
  | fail {e : E} {e' : E'} (h : Φ (.error e) (.error e')) : Matched ρ Φ (.fail e) (.fail e')
  | perform {o o' : F.Op} {k : F.Ans o → Prog F E α} {k' : F.Ans o' → Prog F E' α'} (ho : ρ.ops o o')
      (hk : ∀ r r', ρ.answers o r o' r' → Matched ρ Φ (k r) (k' r')) : Matched ρ Φ (.perform o k) (.perform o' k')

namespace Matched

theorem mono {p : Prog F E α} {p' : Prog F E' α'} {Φ Ψ : Except E α → Except E' α' → Prop} (hp : Matched ρ Φ p p')
    (himp : ∀ x x', Φ x x' → Ψ x x') : Matched ρ Ψ p p' := by
  induction hp with
  | ret h => exact .ret (himp _ _ h)
  | fail h => exact .fail (himp _ _ h)
  | perform ho _ ih => exact .perform ho ih

/-- Programs in sequence. -/
theorem bind {p : Prog F E α} {p' : Prog F E' α'} {f : α → Prog F E β} {f' : α' → Prog F E' β'}
    {Φ : Except E α → Except E' α' → Prop} {Ψ : Except E β → Except E' β' → Prop} (hp : Matched ρ Φ p p')
    (hok : ∀ a a', Φ (.ok a) (.ok a') → Matched ρ Ψ (f a) (f' a'))
    (herr : ∀ e e', Φ (.error e) (.error e') → Ψ (.error e) (.error e')) : Matched ρ Ψ (p.bind f) (p'.bind f') := by
  induction hp with
  | ret h => exact hok _ _ h
  | fail h => exact .fail (herr _ _ h)
  | perform ho _ ih => exact .perform ho ih

/-- Programs that go on whatever the result of the first part is. -/
theorem attempt_bind {p : Prog F E α} {p' : Prog F E' α'} {f : Except E α → Prog F E₁ β}
    {f' : Except E' α' → Prog F E₁' β'} {Φ : Except E α → Except E' α' → Prop} {Ψ : Except E₁ β → Except E₁' β' → Prop}
    (hp : Matched ρ Φ p p') (hf : ∀ x x', Φ x x' → Matched ρ Ψ (f x) (f' x')) :
    Matched ρ Ψ (p.attempt.bind f) (p'.attempt.bind f') := by
  induction hp with
  | ret h => exact hf _ _ h
  | fail h => exact hf _ _ h
  | perform ho _ ih => exact .perform ho ih

theorem mapError {p : Prog F E α} {p' : Prog F E' α'} {g : E → E₁} {g' : E' → E₁'}
    {Φ : Except E₁ α → Except E₁' α' → Prop}
    (hp : Matched ρ (fun x x' => Φ (x.mapError g) (x'.mapError g')) p p') :
    Matched ρ Φ (p.mapError g) (p'.mapError g') := by
  induction hp with
  | ret h => exact .ret h
  | fail h => exact .fail h
  | perform ho _ ih => exact .perform ho ih

/-- Matching programs that end with the same results end together. -/
theorem ended_iff {p p' : Prog F E α} (hp : Matched ρ Eq p p') (x : Except E α) :
    p = .ofExcept x ↔ p' = .ofExcept x := by
  cases hp with
  | ret h => rw [Except.ok.inj h]
  | fail h => rw [Except.error.inj h]
  | perform => cases x <;> exact ⟨fun h => (by cases h), fun h => (by cases h)⟩

end Matched

end Prog

open Prog

variable {F : Signature} {E E' α α' W W' Q ι : Type} {ρ : Pairing F}

/-- Entries of the same participant with paired operations and answers. -/
structure Pairing.Entries (ρ : Pairing F) (e : Entry F ι W) (e' : Entry F ι W') : Prop where
  who : e.who = e'.who
  ops : ρ.ops e.op e'.op
  answers : ρ.answers e.op e.ans e'.op e'.ans

variable [DecidableEq ι] {sem : Semantics F W} {h' : Handler F W'} {π : Protocol F Q} {P₀ P : ι → Prog F E α}
  {P₀' : ι → Prog F E' α'} {Φ : Except E α → Except E' α' → Prop} {Ψ : ι → Q → Except E α → Prop} {q₀ : ι → Q}
  {w₀ w : W} {w₀' : W'} {tr : List (Entry F ι W)}

/-- Some programs of an interleaving, replaced by matching ones, on their own: the other programs keep to a protocol
whose operations leave the relation between the two worlds alone. -/
theorem Interleaving.project (mine : ι → Prop) [DecidablePred mine] (R : W → W' → Prop)
    (hmine : ∀ i, mine i → Matched ρ Φ (P₀ i) (P₀' i))
    (hothers : ∀ i, ¬ mine i → Follows π (P₀ i) (q₀ i) (Ψ i))
    (hframe : ∀ q o w r w₁ w', π.allow q o → sem w o r w₁ → R w w' → R w₁ w')
    (hanswered : ∀ o o' w r w₁ w', ρ.ops o o' → sem w o r w₁ → R w w' →
      ∃ r' w₁', h' w' o' = some (r', w₁') ∧ ρ.answers o r o' r' ∧ R w₁ w₁')
    (hstart : R w₀ w₀') (hI : Interleaving sem P₀ w₀ tr P w) :
    ∃ tr' P' w', Interleaving h'.semantics P₀' w₀' tr' P' w' ∧
      List.Forall₂ ρ.Entries (tr.filter fun e => decide (mine e.who)) tr' ∧ R w w' ∧
      ∀ i, mine i → Matched ρ Φ (P i) (P' i) := by
  suffices h : ∃ tr' P' w', ∃ q : ι → Q, Interleaving h'.semantics P₀' w₀' tr' P' w' ∧
      List.Forall₂ ρ.Entries (tr.filter fun e => decide (mine e.who)) tr' ∧ R w w' ∧
      (∀ i, mine i → Matched ρ Φ (P i) (P' i)) ∧ ∀ i, ¬ mine i → Follows π (P i) (q i) (Ψ i) by
    obtain ⟨tr', P', w', q, hI', htr, hR, hmatched, -⟩ := h
    exact ⟨tr', P', w', hI', htr, hR, hmatched⟩
  induction hI with
  | start => exact ⟨[], P₀', w₀', q₀, .start, .nil, hstart, hmine, hothers⟩
  | @step tr P w w₁ i o k r _ hop hsem ih =>
    obtain ⟨tr', P', w', q, hI', htr, hR, hmatched, hfollows⟩ := ih
    by_cases hi : mine i
    -- a step of a program that is matched: its partner makes the paired step
    · have hpair := hmatched i hi
      rw [hop] at hpair
      generalize hop' : P' i = p' at hpair
      cases hpair with
      | @perform _ o' _ k' ho hk =>
        obtain ⟨r', w₁', hr', hans, hR'⟩ := hanswered o o' w r w₁ w' ho hsem hR
        refine ⟨_, _, _, q, hI'.step hop' hr', ?_, hR', fun j hj => ?_, fun j hj => ?_⟩
        · rw [List.filter_append, List.filter_cons_of_pos (by simpa using hi), List.filter_nil]
          exact List.rel_append htr (.cons ⟨rfl, ho, hans⟩ .nil)
        · by_cases hji : j = i
          · subst hji
            simpa using hk r r' hans
          · simpa [hji] using hmatched j hj
        · have hji : j ≠ i := fun h => hj (h ▸ hi)
          simpa [hji] using hfollows j hj
    · have hfol := hfollows i hi
      -- a step of another program disturbs nothing
      rw [hop, follows_perform] at hfol
      refine ⟨tr', P', w', Function.update q i (π.next (q i) o r), hI', ?_, hframe _ _ _ _ _ _ hfol.1 hsem hR,
        fun j hj => ?_, fun j hj => ?_⟩
      · rw [List.filter_append, List.filter_cons_of_neg (by simpa using hi), List.filter_nil, List.append_nil]
        exact htr
      · have hji : j ≠ i := fun h => hi (h ▸ hj)
        simpa [hji] using hmatched j hj
      · by_cases hji : j = i
        · subst hji
          simpa using hfol.2 r
        · simpa [hji] using hfollows j hj

end Effect
