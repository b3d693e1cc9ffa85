import Mathlib.Data.Fintype.Order
import Takeln.Effect.Prog

/-!
# Restarts

Calls that follow each other: each is run to its end, and either is the last one or is followed by another.  A call
leads to an outcome if it is the last one and has this outcome, or if what follows it leads there (`Leads`); what
follows may be further calls, chosen freely from a family (`Restarts`).  The rules take a call apart as `exec` does, and
`exists_restarts_iff` reduces the calls of a family to finitely many programs.
-/

namespace Effect

namespace Prog

/-- What the run of a call says: it was the last one, with an outcome, or another one follows. -/
structure Verdict (F : Signature) (E α W X : Type) where
  last : Run F E α W → X → Prop
  followed : Run F E α W → Prop

variable {F : Signature} {E E' α α' W X I ι κ : Type} {h : Handler F W} {seen : List (Event F) → List I}
  {J : Verdict F E α W X} {J' : Verdict F E' α' W X} {p : Prog F E α} {p' : Prog F E' α'}
  {next next' : W → List I → X → Prop} {w w' : W} {is : List I} {x : X}

/-- Operations before a run do not change what is said of it. -/
def Verdict.Ignores (J : Verdict F E α W X) (tr : List (Event F)) : Prop :=
  ∀ u, (∀ x, J.last (u.after tr) x ↔ J.last u x) ∧ (J.followed (u.after tr) ↔ J.followed u)

/-- The call `p`, together with the calls that follow it, comes to the outcome `x`, and `is` is seen on the way. -/
inductive Leads (h : Handler F W) (seen : List (Event F) → List I) (J : Verdict F E α W X)
    (next : W → List I → X → Prop) (p : Prog F E α) (w : W) : List I → X → Prop
  | last {u : Run F E α W} {x : X} (hu : exec h p w = some u) (hlast : J.last u x) :
      Leads h seen J next p w (seen u.trace) x
  | followed {u : Run F E α W} {is : List I} {x : X} (hu : exec h p w = some u) (hfollowed : J.followed u)
      (hnext : next u.world is x) : Leads h seen J next p w (seen u.trace ++ is) x

theorem leads_iff {u : Run F E α W} (hu : exec h p w = some u) : Leads h seen J next p w is x ↔
    (J.last u x ∧ seen u.trace = is) ∨ J.followed u ∧ ∃ rest, seen u.trace ++ rest = is ∧ next u.world rest x := by
  constructor
  · intro hleads
    cases hleads with
    | last hu' hlast =>
      cases hu.symm.trans hu'
      exact Or.inl ⟨hlast, rfl⟩
    | followed hu' hfollowed hnext =>
      cases hu.symm.trans hu'
      exact Or.inr ⟨hfollowed, _, rfl, hnext⟩
  · rintro (⟨hlast, rfl⟩ | ⟨hfollowed, rest, rfl, hnext⟩)
    · exact .last hu hlast
    · exact .followed hu hfollowed hnext

theorem not_leads_of_none (hu : exec h p w = none) : ¬ Leads h seen J next p w is x := by
  intro hleads
  cases hleads with
  | last hu' => cases hu.symm.trans hu'
  | followed hu' => cases hu.symm.trans hu'

theorem Leads.mono (hnext : ∀ w is x, next w is x → next' w is x) (hleads : Leads h seen J next p w is x) :
    Leads h seen J next' p w is x := by
  cases hleads with
  | last hu hlast => exact .last hu hlast
  | followed hu hfollowed hrest => exact .followed hu hfollowed (hnext _ _ _ hrest)

/-- A program that performs the same, with results that are a function of those of the other. -/
theorem leads_congr (f : Except E α → Except E' α')
    (hexec : exec h p' w = (exec h p w).map fun u => ⟨f u.result, u.world, u.trace⟩)
    (hlast : ∀ u x, J'.last ⟨f u.result, u.world, u.trace⟩ x ↔ J.last u x)
    (hfollowed : ∀ u, J'.followed ⟨f u.result, u.world, u.trace⟩ ↔ J.followed u) :
    Leads h seen J' next p' w is x ↔ Leads h seen J next p w is x := by
  cases hu : exec h p w with
  | none =>
    rw [hu] at hexec
    exact iff_of_false (not_leads_of_none hexec) (not_leads_of_none hu)
  | some u =>
    rw [hu] at hexec
    rw [leads_iff hu, leads_iff hexec, hlast, hfollowed]

/-- What is performed before does not matter, but for what is seen of it. -/
theorem leads_after {p p' : Prog F E α} {tr : List (Event F)} (hseen : ∀ t t', seen (t ++ t') = seen t ++ seen t')
    (hexec : exec h p w = (exec h p' w').map (Run.after tr)) (htr : J.Ignores tr) :
    Leads h seen J next p w (seen tr ++ is) x ↔ Leads h seen J next p' w' is x := by
  cases hu : exec h p' w' with
  | none =>
    rw [hu] at hexec
    exact iff_of_false (not_leads_of_none hexec) (not_leads_of_none hu)
  | some u =>
    rw [hu] at hexec
    obtain ⟨hlast, hfollowed⟩ := htr u
    have htrace : seen (u.after tr).trace = seen tr ++ seen u.trace := hseen tr u.trace
    rw [leads_iff hu, leads_iff hexec, hlast, hfollowed, htrace]
    simp only [List.append_assoc, List.append_cancel_left_eq]
    rfl

theorem leads_perform {o : F.Op} {r : F.Ans o} {k : F.Ans o → Prog F E α}
    (hseen : ∀ t t', seen (t ++ t') = seen t ++ seen t') (hr : h w o = some (r, w')) (hnone : seen [⟨o, r⟩] = [])
    (htr : J.Ignores [⟨o, r⟩]) :
    Leads h seen J next (perform o k) w is x ↔ Leads h seen J next (k r) w' is x := by
  have hleads : Leads h seen J next (perform o k) w (seen [⟨o, r⟩] ++ is) x ↔ Leads h seen J next (k r) w' is x :=
    leads_after hseen (exec_perform hr k) htr
  rwa [hnone, List.nil_append] at hleads

/-- A call that is followed by others. -/
theorem leads_iff_of_followed {u : Run F E α W} (hu : exec h p w = some u) (hlast : ∀ x, ¬ J.last u x)
    (hfollowed : J.followed u) : Leads h seen J next p w (seen u.trace ++ is) x ↔ next u.world is x := by
  rw [leads_iff hu]
  constructor
  · rintro (⟨h', _⟩ | ⟨_, rest, hrest, hnext⟩)
    · exact absurd h' (hlast x)
    · rwa [← List.append_cancel_left hrest]
  · exact fun hnext => Or.inr ⟨hfollowed, is, rfl, hnext⟩

/-! ### Families of calls -/

/-- At most `n` calls of the family, whichever they are, come to the outcome `x`. -/
def Restarts (h : Handler F W) (seen : List (Event F) → List I) (J : Verdict F E α W X) (calls : ι → Prog F E α) :
    Nat → W → List I → X → Prop
  | 0, _, _, _ => False
  | n + 1, w, is, x => ∀ i, Leads h seen J (Restarts h seen J calls n) (calls i) w is x

variable {calls : ι → Prog F E α}

theorem Restarts.mono {n m : Nat} (hle : n ≤ m) (hn : Restarts h seen J calls n w is x) :
    Restarts h seen J calls m w is x := by
  induction n generalizing m w is x with
  | zero => exact hn.elim
  | succ n ih =>
    obtain ⟨m, rfl⟩ := Nat.exists_eq_succ_of_ne_zero (by omega : m ≠ 0)
    exact fun i => (hn i).mono fun _ _ _ => ih (by omega)

/-- If every call of the family is one of finitely many programs, and each of these leads to the outcome if and only if
`P` holds, so do the calls. -/
theorem exists_restarts_iff [Nonempty ι] [Finite κ] {P : Prop} {progs : κ → Prog F E' α'}
    (hcalls : ∀ i, ∃ k, ∀ next is x, Leads h seen J next (calls i) w is x ↔ Leads h seen J' next (progs k) w is x)
    (hP : ∀ k, (∃ n, Leads h seen J' (Restarts h seen J calls n) (progs k) w is x) ↔ P) :
    (∃ n, Restarts h seen J calls n w is x) ↔ P := by
  constructor
  · rintro ⟨n, hn⟩
    cases n with
    | zero => exact hn.elim
    | succ n =>
      obtain ⟨i⟩ := ‹Nonempty ι›
      obtain ⟨k, hk⟩ := hcalls i
      exact (hP k).1 ⟨n, (hk _ _ _).1 (hn i)⟩
  · intro hp
    choose n hn using fun k => (hP k).2 hp
    obtain ⟨m, hm⟩ := Finite.exists_le n
    refine ⟨m + 1, fun i => ?_⟩
    obtain ⟨k, hk⟩ := hcalls i
    exact (hk _ _ _).2 ((hn k).mono fun _ _ _ => Restarts.mono (hm k))

/-- Calls keep a relation of the world to what they may see and come to. -/
theorem Restarts.sound {P : W → List I → X → Prop} (hcalls : ∀ w next is x, (∀ w is x, next w is x → P w is x) →
      (∀ i, Leads h seen J next (calls i) w is x) → P w is x) {n : Nat} (hn : Restarts h seen J calls n w is x) :
    P w is x := by
  induction n generalizing w is x with
  | zero => exact hn.elim
  | succ n ih => exact hcalls _ _ _ _ (fun _ _ _ => ih) hn

end Prog

end Effect
