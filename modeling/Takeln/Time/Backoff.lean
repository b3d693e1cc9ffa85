import Mathlib.Algebra.Order.Ring.Nat
import Takeln.Model.Graph

/-!
# Backoff

The delay between two attempts of a node, `RetryPolicy::delay_for` (`graph.rs`).  It is the base delay doubled with each
attempt and cut off at the maximal delay, with up to a quarter of jitter, but the doubling stops after ten attempts: a
small base never reaches the maximal delay (`backoff_iff`).
-/

namespace Takeln

/-! ### Words -/

namespace U64

/-- `u64::MAX` -/
def max : Nat := 18446744073709551615

/-- `u64::saturating_mul` -/
def saturatingMul (a b : Nat) : Nat := min (a * b) max

/-- `u64::saturating_add` -/
def saturatingAdd (a b : Nat) : Nat := min (a + b) max

/-- `a << shift`, which overflows from a shift by 64 on. -/
def shl (a shift : Nat) : Option Nat := if shift < 64 then some (a * 2 ^ shift % (max + 1)) else none

/-- `a % b`, which panics if `b` is 0. -/
def rem (a b : Nat) : Option Nat := if b = 0 then none else some (a % b)

end U64

/-- `Duration::from_millis` -/
def Duration.ofMillis (ms : Nat) : Duration := ⟨ms * 1000000⟩

/-! ### The delay -/

namespace RetryPolicy

variable (policy : RetryPolicy)

/-- The delay after the attempt, from 0, where the random number is `draw`; `none` if its computation panics. -/
def delayFor (attempt draw : Nat) : Option Duration := do
  let base := U64.saturatingMul policy.baseDelayMs (← U64.shl 1 (min attempt 10))
  let capped := min base policy.maxDelayMs
  let ms ←
    if policy.jitter then do
      let jitterRange := capped / 4
      let jitter ← if 0 < jitterRange then U64.rem draw jitterRange else some 0
      some (U64.saturatingAdd (capped - jitterRange / 2) jitter)
    else some capped
  return .ofMillis ms

/-- The retry loops wait after the attempt: another one is left. -/
def WaitsAfter (attempt : Nat) : Prop := attempt + 1 < policy.maxAttempts

/-- The delay after the attempt in exact arithmetic. -/
def exactMs (attempt : Nat) : Nat := min (policy.baseDelayMs * 2 ^ attempt) policy.maxDelayMs

/-- Every delay is computed, and is within a quarter of the exact one, or equal to it without jitter. -/
def BacksOff : Prop :=
  ∀ attempt, policy.WaitsAfter attempt → ∀ draw ≤ U64.max, ∃ ms, policy.delayFor attempt draw = some (.ofMillis ms) ∧
    3 * policy.exactMs attempt ≤ 4 * ms ∧ 4 * ms ≤ 5 * policy.exactMs attempt ∧
    (policy.jitter = false → ms = policy.exactMs attempt)

/-- The delay before the jitter. -/
def cappedMs (attempt : Nat) : Nat := min (policy.baseDelayMs * 2 ^ min attempt 10) policy.maxDelayMs

/-- The delay with the jitter of a draw. -/
def jittered (capped draw : Nat) : Nat :=
  min (capped - capped / 4 / 2 + if 0 < capped / 4 then draw % (capped / 4) else 0) U64.max

variable {policy} {attempt draw : Nat}

private theorem shl_one (attempt : Nat) : U64.shl 1 (min attempt 10) = some (2 ^ min attempt 10) := by
  have hle : 2 ^ min attempt 10 ≤ 2 ^ 10 := Nat.pow_le_pow_right (by omega) (Nat.min_le_right _ _)
  unfold U64.shl U64.max
  rw [if_pos (by omega), Nat.one_mul, Nat.mod_eq_of_lt (by omega)]

private theorem ofMillis_injective {ms ms' : Nat} (h : Duration.ofMillis ms = Duration.ofMillis ms') : ms = ms' := by
  have hnanos : ms * 1000000 = ms' * 1000000 := congrArg Duration.nanos h
  omega

/-- Nothing overflows, and saturation does not show below the maximal delay. -/
theorem delayFor_eq (hmax : policy.maxDelayMs ≤ U64.max) (attempt draw : Nat) : policy.delayFor attempt draw =
    some (.ofMillis (if policy.jitter then jittered (policy.cappedMs attempt) draw else policy.cappedMs attempt)) := by
  have hcapped : min (U64.saturatingMul policy.baseDelayMs (2 ^ min attempt 10)) policy.maxDelayMs =
      policy.cappedMs attempt := by
    unfold U64.saturatingMul cappedMs
    generalize policy.baseDelayMs * 2 ^ min attempt 10 = product
    omega
  unfold delayFor
  rw [shl_one]
  simp only [Option.bind_eq_bind, Option.bind_some, hcapped]
  cases policy.jitter with
  | false => rfl
  | true =>
    unfold jittered U64.saturatingAdd
    by_cases hrange : 0 < policy.cappedMs attempt / 4
    · have hrem : U64.rem draw (policy.cappedMs attempt / 4) = some (draw % (policy.cappedMs attempt / 4)) :=
        if_neg (Nat.ne_of_gt hrange)
      simp only [if_pos hrange, hrem, if_true, Option.bind_some]
      rfl
    · simp only [if_neg hrange, if_true]
      rfl

/-- The jitter stays within a quarter. -/
theorem jittered_bounds {capped : Nat} (hmax : capped ≤ U64.max) (draw : Nat) :
    3 * capped ≤ 4 * jittered capped draw ∧ 4 * jittered capped draw ≤ 5 * capped := by
  unfold jittered
  split
  · rename_i hrange
    have hdraw := Nat.mod_lt draw hrange
    generalize draw % (capped / 4) = jitter at hdraw ⊢
    omega
  · omega

/-- The smallest delay that a draw gives. -/
theorem jittered_zero {capped : Nat} (hmax : capped ≤ U64.max) : jittered capped 0 = capped - capped / 4 / 2 := by
  unfold jittered
  rw [Nat.zero_mod, ite_self]
  omega

theorem jittered_zero_le (capped draw : Nat) : jittered capped 0 ≤ jittered capped draw := by
  unfold jittered
  rw [Nat.zero_mod, ite_self]
  omega

/-- Where the doubling has not stopped, or does not matter, the delay before the jitter is exact. -/
theorem cappedMs_eq (h : attempt ≤ 10 ∨ policy.baseDelayMs = 0 ∨ policy.maxDelayMs ≤ 1024 * policy.baseDelayMs) :
    policy.cappedMs attempt = policy.exactMs attempt := by
  unfold cappedMs exactMs
  by_cases hattempt : attempt ≤ 10
  · rw [Nat.min_eq_left hattempt]
  · rcases h.resolve_left hattempt with hbase | hcap
    · rw [hbase, Nat.zero_mul, Nat.zero_mul]
    · have hpow : 2 ^ 10 ≤ 2 ^ attempt := Nat.pow_le_pow_right (by omega) (by omega)
      have hle := Nat.mul_le_mul_left policy.baseDelayMs hpow
      rw [Nat.min_eq_right (by omega : 10 ≤ attempt)]
      omega

/-- After ten attempts the delay stops to grow. -/
theorem cappedMs_of_lt (hattempt : 10 < attempt) (hcap : 1024 * policy.baseDelayMs < policy.maxDelayMs) :
    policy.cappedMs attempt = 1024 * policy.baseDelayMs := by
  unfold cappedMs
  rw [Nat.min_eq_right (by omega : 10 ≤ attempt)]
  omega

/-- The exact delay grows on. -/
theorem exactMs_of_lt (policy : RetryPolicy) (hattempt : 10 < attempt) :
    min (2048 * policy.baseDelayMs) policy.maxDelayMs ≤ policy.exactMs attempt ∧
      policy.exactMs attempt ≤ policy.maxDelayMs := by
  unfold exactMs
  have hpow : 2 ^ 11 ≤ 2 ^ attempt := Nat.pow_le_pow_right (by omega) (by omega)
  have hle := Nat.mul_le_mul_left policy.baseDelayMs hpow
  omega

/-- The delays are right if and only if the doubling has not stopped while attempts are left, or stops above the maximal
delay, or so close below it that the jitter covers the rest. -/
theorem backoff_iff (hmax : policy.maxDelayMs ≤ U64.max) : policy.BacksOff ↔
    policy.maxAttempts ≤ 12 ∨ policy.baseDelayMs = 0 ∨ policy.maxDelayMs ≤ 1024 * policy.baseDelayMs ∨
      (policy.jitter = true ∧ 3 * policy.maxDelayMs ≤ 3584 * policy.baseDelayMs) := by
  constructor
  · intro h
    by_contra hnot
    simp only [not_or, not_and] at hnot
    obtain ⟨hattempts, hbase, hcap, hjitter⟩ := hnot
    -- the doubling has stopped before the last wait, and this draw adds no jitter
    obtain ⟨ms, hms, hlow, -, hexact⟩ := h 11 (show 12 < policy.maxAttempts by omega) 0 (Nat.zero_le _)
    have hcapped := cappedMs_of_lt (by omega : 10 < 11) (not_le.1 hcap)
    obtain ⟨hgrown, -⟩ := exactMs_of_lt policy (by omega : 10 < 11)
    rw [delayFor_eq hmax, hcapped] at hms
    have hsame := ofMillis_injective (Option.some.inj hms)
    cases hj : policy.jitter with
    | false =>
      have hms' := hexact hj
      rw [hj, if_neg Bool.false_ne_true] at hsame
      omega
    | true =>
      have hnear := hjitter hj
      rw [hj, if_pos rfl, jittered_zero (by omega)] at hsame
      omega
  · intro h attempt hwaits draw _
    refine ⟨_, delayFor_eq hmax attempt draw, ?_⟩
    have hcapped : policy.cappedMs attempt ≤ U64.max := (Nat.min_le_right _ _).trans hmax
    obtain ⟨hlow, hhigh⟩ := jittered_bounds hcapped draw
    -- the doubling has not stopped yet, or it makes no difference
    by_cases hexact : attempt ≤ 10 ∨ policy.baseDelayMs = 0 ∨ policy.maxDelayMs ≤ 1024 * policy.baseDelayMs
    · rw [cappedMs_eq hexact] at hlow hhigh ⊢
      split
      · rename_i hjitter
        exact ⟨hlow, hhigh, fun h => absurd (hjitter.symm.trans h) (by decide)⟩
      · exact ⟨by omega, by omega, fun _ => rfl⟩
    · simp only [not_or] at hexact
      obtain ⟨hattempt, hbase, hcap⟩ := hexact
      have hattempts : ¬ policy.maxAttempts ≤ 12 := by
        have hleft : attempt + 1 < policy.maxAttempts := hwaits
        omega
      obtain ⟨hjitter, hnear⟩ := ((h.resolve_left hattempts).resolve_left hbase).resolve_left hcap
      obtain ⟨hgrown, hbelow⟩ := exactMs_of_lt policy (not_le.1 hattempt)
      have hleast := jittered_zero_le (policy.cappedMs attempt) draw
      rw [jittered_zero hcapped] at hleast
      rw [cappedMs_of_lt (not_le.1 hattempt) (not_le.1 hcap)] at hhigh hleast ⊢
      rw [hjitter, if_pos rfl]
      exact ⟨by omega, by omega, fun h => (by cases h)⟩

section Examples

/-- A small base, and enough attempts to reach the maximal delay. -/
def patient : RetryPolicy where
  maxAttempts := 14
  baseDelayMs := 1
  maxDelayMs := 30000
  jitter := false

theorem backoff_false : ¬ patient.BacksOff := by
  intro h
  obtain ⟨ms, hms, -, -, hexact⟩ := h 11 (show 12 < patient.maxAttempts by decide) 0 (Nat.zero_le _)
  have hdelay : patient.delayFor 11 0 = some (.ofMillis 1024) := by decide
  have hsame := ofMillis_injective (Option.some.inj (hdelay.symm.trans hms))
  have hms' : ms = 2048 := (hexact rfl).trans (by decide +kernel)
  omega

theorem backoff_patient : patient.BacksOff ↔
    patient.maxAttempts ≤ 12 ∨ patient.baseDelayMs = 0 ∨ patient.maxDelayMs ≤ 1024 * patient.baseDelayMs ∨
      (patient.jitter = true ∧ 3 * patient.maxDelayMs ≤ 3584 * patient.baseDelayMs) :=
  backoff_iff (show 30000 ≤ 18446744073709551615 by omega)

end Examples

end RetryPolicy

end Takeln
