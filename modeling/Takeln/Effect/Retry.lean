import Mathlib.Data.ENat.Lattice
import Takeln.Effect.Prog

/-!
# Retry loops

A loop that performs an operation again as long as its outcome may be repeated and an attempt is left (`retry`).  It
makes as many attempts as the sequence of outcomes and the limit say (`exec_retry`), and it is the loop that counts its
attempts upwards in a machine integer and compares the counter after each increment (`retryCounted`), as long as the
integer can count up to the limit: the counter then never overflows (`retryCounted_eq`).
-/

namespace Effect

/-! ### Sequences of outcomes -/

section Outcomes

variable {R : Type}

/-- The position, from 1, of the first outcome that is not repeated; infinite if there is none. -/
noncomputable def firstKept (again : R → Prop) (ω : Nat → R) : ℕ∞ :=
  ⨅ (i : Nat) (_ : ¬ again (ω i)), ((i + 1 : Nat) : ℕ∞)

variable {again : R → Prop} {ω : Nat → R} {n : Nat}

theorem le_firstKept (h : ∀ i, i + 1 < n → again (ω i)) : (n : ℕ∞) ≤ firstKept again ω := by
  refine le_iInf₂ fun i hi => ?_
  rw [ENat.natCast_le_natCast]
  by_contra hlt
  exact hi (h i (by omega))

theorem firstKept_le {i : Nat} (h : ¬ again (ω i)) : firstKept again ω ≤ ((i + 1 : Nat) : ℕ∞) :=
  iInf₂_le i h

/-- Attempts up to the first outcome that is kept, or up to the limit. -/
theorem eq_min_firstKept {limit : Nat} (hpos : 0 < n) (hn : n ≤ limit) (hagain : ∀ i, i + 1 < n → again (ω i))
    (hkept : n < limit → ¬ again (ω (n - 1))) : (n : ℕ∞) = min (firstKept again ω) limit := by
  rcases Nat.lt_or_ge n limit with hlt | hge
  · have hfirst : firstKept again ω = (n : ℕ∞) := by
      refine le_antisymm ?_ (le_firstKept hagain)
      have hle := firstKept_le (hkept hlt)
      rwa [Nat.sub_add_cancel hpos] at hle
    rw [hfirst, min_eq_left (ENat.natCast_le_natCast.2 hn)]
  · have hsame : n = limit := Nat.le_antisymm hn hge
    subst hsame
    rw [min_eq_right (le_firstKept hagain)]

end Outcomes

/-! ### Loops -/

namespace Prog

variable {F : Signature} {E R W : Type} (op : Nat → F.Op) (out : (i : Nat) → F.Ans (op i) → Except E R)
  (again : R → Prop) [DecidablePred again]

/-- Perform the operations in order until an outcome is kept, with `left` attempts after the first one.  The result
comes with the number of attempts that were to be repeated. -/
def retry : Nat → Nat → Prog F E (Nat × R)
  | left, attempt => perform (op attempt) fun ans =>
    match out attempt ans with
    | .error e => fail e
    | .ok r =>
      if again r then
        match left with
        | 0 => ret (attempt + 1, r)
        | left + 1 => retry left (attempt + 1)
      else ret (attempt, r)

/-- The same with a counter that can be incremented `room` times: after an outcome that may be repeated it is
incremented, which panics if there is no room, and then compared with `max`. -/
def retryCounted (max : Nat) : Nat → Nat → Prog F E (Option (Nat × R))
  | room, attempt => perform (op attempt) fun ans =>
    match out attempt ans with
    | .error e => fail e
    | .ok r =>
      if again r then
        match room with
        | 0 => ret none
        | room + 1 => if max ≤ attempt + 1 then ret (some (attempt + 1, r)) else retryCounted max room (attempt + 1)
      else ret (some (attempt, r))

variable {op out again}

/-- A counter with room for the limit never overflows. -/
theorem retryCounted_eq {max room attempt : Nat} (hroom : 0 < room) (hmax : max ≤ attempt + room) :
    retryCounted op out again max room attempt =
      (retry op out again (max - (attempt + 1)) attempt).bind fun x => ret (some x) := by
  induction room generalizing attempt with
  | zero => omega
  | succ room ih =>
    unfold retryCounted retry
    rw [perform_bind]
    congr 1
    funext ans
    cases out attempt ans with
    | error e => rfl
    | ok r =>
      dsimp only
      by_cases hagain : again r
      · rw [if_pos hagain, if_pos hagain]
        by_cases hlast : max ≤ attempt + 1
        · rw [if_pos hlast, show max - (attempt + 1) = 0 by omega]
          rfl
        · rw [if_neg hlast, ih (by omega) (by omega),
            show max - (attempt + 1) = max - (attempt + 1 + 1) + 1 by omega]
      · rw [if_neg hagain, if_neg hagain]
        rfl

omit [DecidablePred again] in
/-- A program ends if all of its operations are answered. -/
theorem exec_isSome {α : Type} {h : Handler F W} (hans : ∀ w o, (h w o).isSome = true) (p : Prog F E α) (w : W) :
    ∃ u, exec h p w = some u := by
  induction p generalizing w with
  | ret a => exact ⟨_, rfl⟩
  | fail e => exact ⟨_, rfl⟩
  | perform o k ih =>
    obtain ⟨⟨r, w'⟩, hr⟩ := Option.isSome_iff_exists.1 (hans w o)
    obtain ⟨u, hu⟩ := ih r w'
    exact ⟨_, exec_perform_eq_some.2 ⟨r, w', u, hr, hu, rfl⟩⟩

/-- The attempts of a loop, if the outcomes shown are those of `ω`. -/
theorem exec_retry {h : Handler F W} {w : W} {left attempt : Nat} {u : Run F E (Nat × R) W} {ω : Nat → R}
    (hu : exec h (retry op out again left attempt) w = some u)
    (hω : ∀ i m, m = attempt + i → ∀ ans, u.trace[i]? = some ⟨op m, ans⟩ → out m ans = .ok (ω m)) :
    ∃ n k, 0 < n ∧ n ≤ left + 1 ∧ u.trace.map Event.op = (List.range' attempt n).map op ∧
      u.result = .ok (k, ω (attempt + (n - 1))) ∧ (∀ i, i + 1 < n → again (ω (attempt + i))) ∧
      (n < left + 1 → ¬ again (ω (attempt + (n - 1)))) := by
  induction left generalizing attempt w u with
  | zero =>
    unfold retry at hu
    obtain ⟨ans, w₁, u₁, -, hu₁, rfl⟩ := exec_perform_eq_some.1 hu
    have hout : out attempt ans = .ok (ω attempt) := hω 0 attempt rfl ans rfl
    rw [hout] at hu₁
    dsimp only at hu₁
    split at hu₁ <;> cases hu₁
    · exact ⟨1, attempt + 1, by omega, by omega, rfl, rfl, by omega, by omega⟩
    · exact ⟨1, attempt, by omega, by omega, rfl, rfl, by omega, by omega⟩
  | succ left ih =>
    unfold retry at hu
    obtain ⟨ans, w₁, u₁, -, hu₁, rfl⟩ := exec_perform_eq_some.1 hu
    have hout : out attempt ans = .ok (ω attempt) := hω 0 attempt rfl ans rfl
    rw [hout] at hu₁
    dsimp only at hu₁
    split at hu₁
    · rename_i hagain
      obtain ⟨n, k, hpos, hn, hops, hres, hrepeat, hlast⟩ :=
        ih hu₁ fun i m hm ans' hi => hω (i + 1) m (by omega) ans' hi
      have hsum : attempt + 1 + (n - 1) = attempt + (n + 1 - 1) := by omega
      rw [hsum] at hres hlast
      refine ⟨n + 1, k, by omega, by omega, ?_, hres, fun i hi => ?_, fun hlt => hlast (by omega)⟩
      · rw [List.range'_succ]
        exact congrArg (List.cons (op attempt)) hops
      · cases i with
        | zero => exact hagain
        | succ i =>
          have hi' := hrepeat i (by omega)
          rwa [show attempt + 1 + i = attempt + (i + 1) by omega] at hi'
    · rename_i hkept
      cases hu₁
      exact ⟨1, attempt, by omega, by omega, rfl, rfl, by omega, fun _ => hkept⟩

end Prog

end Effect
