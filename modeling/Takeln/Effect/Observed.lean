import Takeln.Effect.Prog

/-!
# Comparing programs

Two programs do the same if they perform the same operations with the same answers (`Alike`).  Less is asked if only
some of what they do is observed: `Shows` are the observations of a program up to any of its points.
-/

namespace Effect

open Prog

variable {F : Signature} {E E' α β W X : Type} {h : Handler F W} {w w' : W} {tr : List (Event F)}

/-! ### Programs that do the same -/

theorem after_injective (tr : List (Event F)) : Function.Injective (Run.after tr : Run F E α W → Run F E α W) := by
  rintro ⟨x, w, t⟩ ⟨x', w', t'⟩ hsame
  obtain ⟨hresult, hworld, htrace⟩ := Run.mk.inj hsame
  have ht : t = t' := List.append_cancel_left htrace
  dsimp only at hresult hworld
  rw [hresult, hworld, ht]

/-- From `w` on, `p` and `q` perform the same operations, with the same answers, and end alike. -/
structure Alike (h : Handler F W) (p q : Prog F E α) (w : W) : Prop where
  performs (tr : List (Event F)) (w' : W) : (∃ p', Reaches h p w tr p' w') ↔ ∃ q', Reaches h q w tr q' w'
  ends : exec h p w = exec h q w

theorem Alike.refl (p : Prog F E α) (w : W) : Alike h p p w := ⟨fun _ _ => Iff.rfl, rfl⟩

theorem Alike.symm {p q : Prog F E α} (ha : Alike h p q w) : Alike h q p w :=
  ⟨fun tr w' => (ha.performs tr w').symm, ha.ends.symm⟩

/-- Programs that begin in the same way do the same if they go on in the same way. -/
theorem Alike.of_reaches {p p' q q' : Prog F E α} (hp : Reaches h p w tr p' w') (hq : Reaches h q w tr q' w')
    (ha : Alike h p' q' w') : Alike h p q w := by
  have hgoes {p p' q q' : Prog F E α} (hp : Reaches h p w tr p' w') (hq : Reaches h q w tr q' w')
    (ha : Alike h p' q' w')
      {t : List (Event F)} {w'' : W} (hr : ∃ r, Reaches h p w t r w'') : ∃ r, Reaches h q w t r w'' := by
    obtain ⟨r, hr⟩ := hr
    rcases hr.total hp with ⟨t', rfl, hlater⟩ | ⟨t', rfl, -⟩
    · obtain ⟨r', hr'⟩ := (ha.performs t' w'').1 ⟨r, hlater⟩
      exact ⟨r', hq.trans hr'⟩
    · obtain ⟨q₁, w₁, hfirst, -⟩ := hq.split
      have hsame : w'' = w₁ := hr.steps.unique hfirst.steps
      exact ⟨q₁, hsame ▸ hfirst⟩
  refine ⟨fun t w'' => ⟨hgoes hp hq ha, hgoes hq hp ha.symm⟩, ?_⟩
  rw [hp.exec_eq, hq.exec_eq, ha.ends]

/-! ### Observations -/

/-- At some point of a run of `p` from `w` the observations are `l`. -/
def Shows (h : Handler F W) (obs : Event F → List X) (p : Prog F E α) (w : W) (l : List X) : Prop :=
  ∃ tr p' w', Reaches h p w tr p' w' ∧ tr.flatMap obs = l

/-- Nothing is observed in `p`, wherever it starts. -/
def Hidden (h : Handler F W) (obs : Event F → List X) (p : Prog F E α) : Prop :=
  ∀ w tr p' w', Reaches h p w tr p' w' → tr.flatMap obs = []

variable {obs : Event F → List X} {l : List X}

theorem shows_nil (p : Prog F E α) (w : W) : Shows h obs p w [] := ⟨[], p, w, .here p w, rfl⟩

/-- What has been done without being observed does not matter. -/
theorem shows_of_reaches {p p' : Prog F E α} (hr : Reaches h p w tr p' w') (htr : tr.flatMap obs = []) :
    Shows h obs p w l ↔ Shows h obs p' w' l := by
  constructor
  · rintro ⟨t, q, w₁, hq, rfl⟩
    rcases hq.total hr with ⟨t', rfl, hlater⟩ | ⟨t', rfl, -⟩
    · refine ⟨t', q, w₁, hlater, ?_⟩
      simp [htr]
    · have hsilent : t.flatMap obs = [] := by
        rw [List.flatMap_append] at htr
        exact (List.append_eq_nil_iff.1 htr).1
      rw [hsilent]
      exact shows_nil p' w'
  · rintro ⟨t, q, w₁, hq, rfl⟩
    refine ⟨tr ++ t, q, w₁, hr.trans hq, ?_⟩
    simp [htr]

theorem shows_bind {p : Prog F E α} {f : α → Prog F E β} (hf : ∀ a, Hidden h obs (f a)) :
    Shows h obs (p.bind f) w l ↔ Shows h obs p w l := by
  constructor
  · rintro ⟨t, q, w₁, hq, rfl⟩
    rcases hq.bind_cases with ⟨p', hp⟩ | ⟨a, w₂, t₁, t₂, hp, hlater, rfl⟩
    · exact ⟨t, p', w₁, hp, rfl⟩
    · have hsilent := hf a _ _ _ _ hlater
      refine ⟨t₁, _, w₂, reaches_of_exec hp, ?_⟩
      simp [hsilent]
  · rintro ⟨t, q, w₁, hq, rfl⟩
    exact ⟨t, _, w₁, hq.bind f, rfl⟩

theorem shows_mapError {p : Prog F E α} {g : E → E'} : Shows h obs (p.mapError g) w l ↔ Shows h obs p w l := by
  constructor
  · rintro ⟨t, q, w₁, hq, rfl⟩
    obtain ⟨p', hp⟩ := hq.mapError_cases
    exact ⟨t, p', w₁, hp, rfl⟩
  · rintro ⟨t, q, w₁, hq, rfl⟩
    exact ⟨t, _, w₁, hq.mapError g, rfl⟩

theorem shows_attempt {p : Prog F E α} :
    Shows h obs (p.attempt : Prog F E' (Except E α)) w l ↔ Shows h obs p w l := by
  constructor
  · rintro ⟨t, q, w₁, hq, rfl⟩
    obtain ⟨p', hp⟩ := hq.attempt_cases
    exact ⟨t, p', w₁, hp, rfl⟩
  · rintro ⟨t, q, w₁, hq, rfl⟩
    exact ⟨t, _, w₁, hq.attempt, rfl⟩

/-! ### Nothing to observe -/

theorem hidden_ret (a : α) : Hidden h obs (ret a : Prog F E α) := by
  rintro w tr p' w' ⟨⟩
  rfl

theorem hidden_fail (e : E) : Hidden h obs (fail e : Prog F E α) := by
  rintro w tr p' w' ⟨⟩
  rfl

theorem hidden_perform {o : F.Op} {k : F.Ans o → Prog F E α} (ho : ∀ r, obs ⟨o, r⟩ = [])
    (hk : ∀ r, Hidden h obs (k r)) : Hidden h obs (perform o k) := by
  intro w tr p' w' hr
  cases hr with
  | here => rfl
  | step hr hrest => simp [ho, hk _ _ _ _ _ hrest]

theorem hidden_ofExcept (x : Except E α) : Hidden h obs (ofExcept x : Prog F E α) := by
  cases x with
  | error e => exact hidden_fail e
  | ok a => exact hidden_ret a

theorem hidden_bind {p : Prog F E α} {f : α → Prog F E β} (hp : Hidden h obs p) (hf : ∀ a, Hidden h obs (f a)) :
    Hidden h obs (p.bind f) := by
  intro w tr p' w' hr
  rcases hr.bind_cases with ⟨q, hq⟩ | ⟨a, w₁, t₁, t₂, hq, hlater, rfl⟩
  · exact hp _ _ _ _ hq
  · have hfirst := hp _ _ _ _ (reaches_of_exec hq)
    have hrest := hf a _ _ _ _ hlater
    simp [hfirst, hrest]

theorem hidden_attempt {p : Prog F E α} (hp : Hidden h obs p) :
    Hidden h obs (p.attempt : Prog F E' (Except E α)) := by
  intro w tr p' w' hr
  obtain ⟨q, hq⟩ := hr.attempt_cases
  exact hp _ _ _ _ hq

end Effect
