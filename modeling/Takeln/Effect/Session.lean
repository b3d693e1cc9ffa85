import Takeln.Effect.Protocol

/-!
# Sessions

Calls made one after another: each starts in the world that the one before it has left, and has ended or was stopped
after any of its operations.  What every call does, wherever it is stopped, holds all through a session
(`Session.invariant`); a protocol that every call follows says what was allowed at each operation (`Session.allow`).
Calls that all end are a sequence of runs (`Ended`).
-/

namespace Effect

open Prog

variable {F : Signature} {E α C Q W : Type} {h : Handler F W} {prog : C → Prog F E α} {π : Protocol F Q}
  {w₀ w w' : W}

/-- The calls so far, each with the operations it performed. -/
inductive Session (h : Handler F W) (prog : C → Prog F E α) (w₀ : W) : List (C × List (Event F)) → W → Prop
  | start : Session h prog w₀ [] w₀
  | call {calls : List (C × List (Event F))} {w w' : W} (hprev : Session h prog w₀ calls w) (c : C)
      {tr : List (Event F)} {p : Prog F E α} (hr : Reaches h (prog c) w tr p w') :
      Session h prog w₀ (calls ++ [(c, tr)]) w'

/-- All the operations of some calls. -/
def performed (calls : List (C × List (Event F))) : List (Event F) := calls.flatMap Prod.snd

@[simp] theorem performed_nil : performed ([] : List (C × List (Event F))) = [] := rfl

@[simp] theorem performed_append (calls calls' : List (C × List (Event F))) :
    performed (calls ++ calls') = performed calls ++ performed calls' := List.flatMap_append

@[simp] theorem performed_cons (c : C) (tr : List (Event F)) (calls : List (C × List (Event F))) :
    performed ((c, tr) :: calls) = tr ++ performed calls := rfl

namespace Session

/-- A session is the calls before one of them, that call, and the rest. -/
theorem split {l l' : List (C × List (Event F))} {c : C} {tr : List (Event F)}
    (hS : Session h prog w₀ (l ++ (c, tr) :: l') w) :
    ∃ w₁ p w₂, Session h prog w₀ l w₁ ∧ Reaches h (prog c) w₁ tr p w₂ := by
  generalize hcalls : l ++ (c, tr) :: l' = calls at hS
  induction hS generalizing l' with
  | start => simp at hcalls
  | @call calls w w' hprev c' tr' p hr ih =>
    rcases List.eq_nil_or_concat l' with rfl | ⟨l'', last, rfl⟩
    · obtain ⟨rfl, hlast⟩ := List.append_inj' hcalls rfl
      cases hlast
      exact ⟨_, _, _, hprev, hr⟩
    · rw [List.concat_eq_append, ← List.cons_append, ← List.append_assoc] at hcalls
      exact ih (List.append_inj' hcalls rfl).1

/-- What every call preserves, stopped or not, holds after each of them. -/
theorem invariant {I : List (C × List (Event F)) → W → Prop} (hstart : I [] w₀)
    (hcall : ∀ calls w c tr p w', I calls w → Reaches h (prog c) w tr p w' → I (calls ++ [(c, tr)]) w')
    {calls : List (C × List (Event F))} (hS : Session h prog w₀ calls w) : I calls w := by
  induction hS with
  | start => exact hstart
  | call _ c hr ih => exact hcall _ _ _ _ _ _ ih hr

theorem steps {calls : List (C × List (Event F))} (hS : Session h prog w₀ calls w) :
    Steps h w₀ (performed calls) w := by
  refine hS.invariant (I := fun calls w => Steps h w₀ (performed calls) w) (.nil w₀) fun calls w c tr p w' ih hr => ?_
  rw [performed_append, performed_cons, performed_nil, List.append_nil]
  exact ih.append hr.steps

/-- The calls and their operations determine the world they lead to. -/
theorem unique {calls : List (C × List (Event F))} (hS : Session h prog w₀ calls w) (hS' : Session h prog w₀ calls w') :
    w = w' := hS.steps.unique hS'.steps

/-- Each operation of a call was allowed when it was performed. -/
theorem allow {l l' : List (C × List (Event F))} {c : C} {tr tr' : List (Event F)} {e : Event F} {q₀ : Q}
    {Φ : Q → Except E α → Prop} (hS : Session h prog w₀ (l ++ (c, tr ++ e :: tr') :: l') w)
    (hfollow : Follows π (prog c) q₀ Φ) : π.allow (π.after q₀ tr) e.op := by
  obtain ⟨w₁, p, w₂, _, hr⟩ := hS.split
  exact hfollow.allow_of_reaches hr

end Session

/-! ### Calls that end -/

/-- Calls that have all ended, each with the world it started in and its run. -/
inductive Ended (h : Handler F W) (prog : C → Prog F E α) (w₀ : W) : List (C × W × Run F E α W) → W → Prop
  | start : Ended h prog w₀ [] w₀
  | call {calls : List (C × W × Run F E α W)} {w : W} (hprev : Ended h prog w₀ calls w) (c : C) {u : Run F E α W}
      (hu : exec h (prog c) w = some u) : Ended h prog w₀ (calls ++ [(c, w, u)]) u.world

theorem Ended.exec_of_mem {calls : List (C × W × Run F E α W)} (hcalls : Ended h prog w₀ calls w) {c : C}
    {u : Run F E α W} (hc : (c, w', u) ∈ calls) : exec h (prog c) w' = some u := by
  induction hcalls with
  | start => cases hc
  | @call calls w₁ hprev c₁ u₁ hu ih =>
    rcases List.mem_append.1 hc with hmem | hmem
    · exact ih hmem
    · cases List.mem_singleton.1 hmem
      exact hu

/-! ### Replaying calls -/

/-- Perform at most `n` operations. -/
def Prog.advance (h : Handler F W) : Nat → Prog F E α → W → List (Event F) × Prog F E α × W
  | n + 1, perform o k, w =>
    match h w o with
    | none => ([], perform o k, w)
    | some (r, w') => ((advance h n (k r) w').1.cons ⟨o, r⟩, (advance h n (k r) w').2)
  | _, p, w => ([], p, w)

theorem Prog.reaches_advance (h : Handler F W) (n : Nat) (p : Prog F E α) (w : W) :
    Reaches h p w (advance h n p w).1 (advance h n p w).2.1 (advance h n p w).2.2 := by
  induction n generalizing p w with
  | zero => cases p <;> exact .here _ _
  | succ n ih =>
    cases p with
    | ret a => exact .here _ _
    | fail e => exact .here _ _
    | perform o k =>
      unfold advance
      split
      · exact .here _ _
      · rename_i r w' hr
        exact .step hr (ih (k r) w')

/-- Make the calls in a row, each up to a number of operations. -/
def replay (h : Handler F W) (prog : C → Prog F E α) :
    List (C × Nat) → List (C × List (Event F)) → W → List (C × List (Event F)) × W
  | [], calls, w => (calls, w)
  | (c, n) :: cs, calls, w =>
    replay h prog cs (calls ++ [(c, (advance h n (prog c) w).1)]) (advance h n (prog c) w).2.2

theorem Session.replay {calls : List (C × List (Event F))} (hS : Session h prog w₀ calls w) (cs : List (C × Nat)) :
    Session h prog w₀ (Effect.replay h prog cs calls w).1 (Effect.replay h prog cs calls w).2 := by
  induction cs generalizing calls w with
  | nil => exact hS
  | cons c cs ih => exact ih (hS.call c.1 (reaches_advance h c.2 _ _))

end Effect
