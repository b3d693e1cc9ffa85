import Mathlib.Init

/-!
# Loops

The loop `while cond { body }` on a state, without a bound on its rounds: `Ends cond body a b` says that it ends in `b`
when it starts in `a`.
-/

namespace Effect

variable {α : Type} {cond : α → Prop} {body : α → α} {a b : α}

inductive Ends (cond : α → Prop) (body : α → α) : α → α → Prop
  | stop {a : α} (h : ¬ cond a) : Ends cond body a a
  | round {a b : α} (h : cond a) (hrest : Ends cond body (body a) b) : Ends cond body a b

theorem ends_of_not (h : ¬ cond a) : Ends cond body a b ↔ b = a := by
  constructor
  · intro hends
    cases hends with
    | stop _ => rfl
    | round ha _ => exact absurd ha h
  · rintro rfl
    exact .stop h

theorem ends_of_cond (h : cond a) : Ends cond body a b ↔ Ends cond body (body a) b := by
  constructor
  · intro hends
    cases hends with
    | stop ha => exact absurd h ha
    | round _ hrest => exact hrest
  · exact .round h

/-- What holds at the start and is kept by every round holds at the end, where the condition fails. -/
theorem Ends.invariant {I : α → Prop} (hround : ∀ a, cond a → I a → I (body a)) (h : Ends cond body a b) (ha : I a) :
    I b ∧ ¬ cond b := by
  induction h with
  | stop hstop => exact ⟨ha, hstop⟩
  | round hcond _ ih => exact ih (hround _ hcond ha)

/-- A loop whose every round takes something away from a measure ends. -/
theorem exists_ends (μ : α → Nat) (hround : ∀ a, cond a → μ (body a) < μ a) (a : α) : ∃ b, Ends cond body a b := by
  by_cases hcond : cond a
  · have hless : μ (body a) < μ a := hround a hcond
    obtain ⟨b, hb⟩ := exists_ends μ hround (body a)
    exact ⟨b, .round hcond hb⟩
  · exact ⟨a, .stop hcond⟩
termination_by μ a

/-- A loop whose condition never fails does not end. -/
theorem not_ends (hcond : ∀ a, cond a) : ¬ Ends cond body a b := by
  intro h
  obtain ⟨-, hstop⟩ := h.invariant (I := fun _ => True) (fun _ _ _ => trivial) trivial
  exact hstop (hcond b)

end Effect
