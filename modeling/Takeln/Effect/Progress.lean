import Mathlib.Algebra.BigOperators.Group.Finset.Basic
import Mathlib.Data.Fintype.BigOperators
import Takeln.Effect.Interleave

/-!
# Progress

What a participant holds, and what it may still do, is read off the operations it has performed
(`Interleaving.own_invariant`).  A quantity that every step only moves between a participant and the world is conserved
(`Interleaving.conserved`); so programs that perform a bounded number of operations (`countdown`) have bounded
interleavings (`Interleaving.length_le`).  A participant that nobody keeps waiting can be run alone
(`Interleaving.run_alone`).
-/

namespace Effect

open Prog

/-! ### Programs that have ended -/

section

variable {F : Signature} {E α W : Type}

/-- What a program that has ended came to. -/
def Prog.outcome : Prog F E α → Option (Except E α)
  | ret a => some (.ok a)
  | fail e => some (.error e)
  | perform _ _ => none

theorem Prog.outcome_eq_none {p : Prog F E α} (h : p.outcome = none) : ∃ o k, p = perform o k := by
  cases p with
  | ret a => cases h
  | fail e => cases h
  | perform o k => exact ⟨o, k, rfl⟩

theorem Prog.Follows.of_outcome {Q : Type} {π : Protocol F Q} {q : Q} {p : Prog F E α} {Φ : Q → Except E α → Prop}
    {x : Except E α} (hp : Follows π p q Φ) (hx : p.outcome = some x) : Φ q x := by
  cases p with
  | ret a =>
    cases hx
    exact hp
  | fail e =>
    cases hx
    exact hp
  | perform o k => cases hx

/-- A run is where the program has ended. -/
theorem Prog.reaches_outcome {h : Handler F W} {p : Prog F E α} {w : W} {u : Run F E α W} (hu : exec h p w = some u) :
    ∃ p', p'.outcome = some u.result ∧ Reaches h p w u.trace p' u.world := by
  refine ⟨_, ?_, reaches_of_exec hu⟩
  cases u.result <;> rfl

/-- What comes after a program may be replaced by what is the same after each of its results. -/
theorem Prog.Follows.bind_congr {β Q : Type} {π : Protocol F Q} {q : Q} {p : Prog F E α} {f f' : α → Prog F E β}
    {Φ : Q → Except E α → Prop} (hp : Follows π p q Φ) (h : ∀ q a, Φ q (.ok a) → f a = f' a) :
    p.bind f = p.bind f' := by
  induction p generalizing q with
  | ret a => exact h _ _ hp
  | fail e => rfl
  | perform o k ih =>
    rw [perform_bind, perform_bind]
    exact congrArg (perform o) (funext fun r => ih r (hp.2 r))

/-- A program that performs at most as many operations as are left. -/
def countdown (F : Signature) : Protocol F Nat where
  allow n _ := 0 < n
  next n _ _ := n - 1

end

namespace Interleaving

variable {F : Signature} {E α W Q ι : Type} [DecidableEq ι] {sem : Semantics F W} {P₀ P : ι → Prog F E α} {w₀ w : W}
  {tr : List (Entry F ι W)} {π : Protocol F Q}

/-- What was performed first was performed by an interleaving. -/
theorem of_append {tr' : List (Entry F ι W)} (hI : Interleaving sem P₀ w₀ (tr ++ tr') P w) :
    ∃ P' w', Interleaving sem P₀ w₀ tr P' w' := by
  generalize htr : tr ++ tr' = l at hI
  induction hI generalizing tr' with
  | start =>
    obtain ⟨rfl, rfl⟩ := List.append_eq_nil_iff.1 htr
    exact ⟨_, _, .start⟩
  | @step l P w w' j o k r hprev hop hsem ih =>
    rcases List.eq_nil_or_concat tr' with rfl | ⟨tr'', e, rfl⟩
    · rw [List.append_nil] at htr
      subst htr
      exact ⟨_, _, hprev.step hop hsem⟩
    · rw [List.concat_eq_append, ← List.append_assoc] at htr
      exact ih (List.append_inj' htr rfl).1

/-- What every allowed operation keeps, of the protocol state of a participant and of what it has performed. -/
theorem own_invariant {i : ι} {q₀ : Q} {Φ : Q → Except E α → Prop} {I : Q → List (Event F) → Prop}
    (hfollow : Follows π (P₀ i) q₀ Φ) (hinit : I q₀ [])
    (hstep : ∀ q evs o r, π.allow q o → I q evs → I (π.next q o r) (evs ++ [⟨o, r⟩]))
    (hI : Interleaving sem P₀ w₀ tr P w) : I (π.after q₀ (own i tr)) (own i tr) := by
  induction hI with
  | start => exact hinit
  | @step tr P w w' j o k r hprev hop hsem ih =>
    rw [own_concat]
    by_cases hj : j = i
    · subst hj
      have hfol := (hprev.allow_own hfollow).1
      rw [hop, follows_perform] at hfol
      rw [if_pos rfl, Protocol.after_concat]
      exact hstep _ _ _ _ hfol.1 ih
    · rw [if_neg hj, List.append_nil]
      exact ih

section Fintype

variable [Fintype ι]

/-- What each step moves between a participant and the rest is conserved. -/
theorem conserved {q₀ : ι → Q} {Φ : ι → Q → Except E α → Prop} (held : Q → Nat) (rest : List (Entry F ι W) → W → Nat)
    (hfollow : ∀ i, Follows π (P₀ i) (q₀ i) (Φ i))
    (hstep : ∀ tr w q i o r w', π.allow q o → sem w o r w' →
      rest (tr ++ [⟨i, w, o, r⟩]) w' + held (π.next q o r) = rest tr w + held q)
    (hI : Interleaving sem P₀ w₀ tr P w) :
    rest tr w + ∑ i, held (π.after (q₀ i) (own i tr)) = rest [] w₀ + ∑ i, held (q₀ i) := by
  induction hI with
  | start => rfl
  | @step tr P w w' j o k r hprev hop hsem ih =>
    have hfol := (hprev.allow_own (hfollow j)).1
    rw [hop, follows_perform] at hfol
    have hmoved := hstep tr w _ j o r w' hfol.1 hsem
    have hothers : ∑ i ∈ Finset.univ.erase j, held (π.after (q₀ i) (own i (tr ++ [⟨j, w, o, r⟩]))) =
        ∑ i ∈ Finset.univ.erase j, held (π.after (q₀ i) (own i tr)) := by
      refine Finset.sum_congr rfl fun i hi => ?_
      rw [own_concat, if_neg (Ne.symm (Finset.ne_of_mem_erase hi)), List.append_nil]
    have hself : π.after (q₀ j) (own j (tr ++ [⟨j, w, o, r⟩])) = π.next (π.after (q₀ j) (own j tr)) o r := by
      rw [own_concat, if_pos rfl, Protocol.after_concat]
      rfl
    rw [← Finset.add_sum_erase _ _ (Finset.mem_univ j)] at ih ⊢
    rw [hothers, hself]
    omega

/-- Programs that perform at most `n i` operations each perform at most the sum of them together. -/
theorem length_le {n : ι → Nat} (hbound : ∀ i, Follows (countdown F) (P₀ i) (n i) fun _ _ => True)
    (hI : Interleaving sem P₀ w₀ tr P w) : tr.length ≤ ∑ i, n i := by
  have hsum := hI.conserved (fun n => n) (fun tr _ => tr.length) hbound fun tr w n i o r w' hallow _ => by
    have hpos : 0 < n := hallow
    simp only [List.length_append, List.length_singleton, countdown]
    omega
  simp only [List.length_nil] at hsum
  omega

end Fintype

/-- If somebody can always go on until all have ended, and nobody can go on for ever, all of them can end. -/
theorem exists_complete {n : Nat}
    (hbound : ∀ tr P w, Interleaving sem P₀ w₀ tr P w → tr.length ≤ n)
    (hstep : ∀ tr P w, Interleaving sem P₀ w₀ tr P w → (∃ i, (P i).outcome = none) →
      ∃ i o k r w', P i = perform o k ∧ sem w o r w')
    (hI : Interleaving sem P₀ w₀ tr P w) :
    ∃ tr' P' w', Interleaving sem P₀ w₀ (tr ++ tr') P' w' ∧ (∀ i, (P' i).outcome ≠ none) ∧
      ∀ i x, (P i).outcome = some x → (P' i).outcome = some x := by
  induction hleft : n - tr.length generalizing tr P w with
  | zero =>
    refine ⟨[], P, w, by rwa [List.append_nil], fun i hi => ?_, fun _ _ h => h⟩
    obtain ⟨j, o, k, r, w', hop, hsem⟩ := hstep _ _ _ hI ⟨i, hi⟩
    have := hbound _ _ _ (hI.step hop hsem)
    rw [List.length_append, List.length_singleton] at this
    omega
  | succ left ih =>
    by_cases hall : ∃ i, (P i).outcome = none
    · obtain ⟨j, o, k, r, w', hop, hsem⟩ := hstep _ _ _ hI hall
      have hnext := hI.step hop hsem
      obtain ⟨tr', P', w'', hI', hends, hkeeps⟩ := ih hnext (by
        rw [List.length_append, List.length_singleton]
        omega)
      refine ⟨⟨j, w, o, r⟩ :: tr', P', w'', by rwa [List.append_cons], hends, fun i x hx => hkeeps i x ?_⟩
      rw [Function.update_of_ne]
      · exact hx
      · rintro rfl
        rw [hop] at hx
        cases hx
    · exact ⟨[], P, w, by rwa [List.append_nil], fun i hi => hall ⟨i, hi⟩, fun _ _ h => h⟩

/-- A participant whose operations the world answers at once can be run on while the others wait. -/
theorem run_alone {h : Handler F W} (hsem : ∀ w o r w', h w o = some (r, w') → sem w o r w') {i : ι}
    {p' : Prog F E α} {evs : List (Event F)} {w' : W} (hI : Interleaving sem P₀ w₀ tr P w)
    (hr : Reaches h (P i) w evs p' w') :
    ∃ tr', tr'.map Entry.event = evs ∧ (∀ e ∈ tr', e.who = i) ∧
      Interleaving sem P₀ w₀ (tr ++ tr') (Function.update P i p') w' := by
  generalize hp : P i = p at hr
  induction hr generalizing tr P with
  | here p w =>
    subst hp
    refine ⟨[], rfl, by simp, ?_⟩
    rw [Function.update_eq_self, List.append_nil]
    exact hI
  | @step o r k w w₁ w₂ evs p' hans _ ih =>
    obtain ⟨tr', hevs, hwho, hI'⟩ := ih (hI.step hp (hsem _ _ _ _ hans)) (Function.update_self ..)
    refine ⟨⟨i, w, o, r⟩ :: tr', by rw [List.map_cons, hevs]; rfl, ?_, ?_⟩
    · intro e he
      rcases List.mem_cons.1 he with rfl | he
      · rfl
      · exact hwho e he
    · rw [Function.update_idem] at hI'
      rw [List.append_cons]
      exact hI'

end Interleaving

end Effect
