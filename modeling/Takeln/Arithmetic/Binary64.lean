import Mathlib

/-!
# Zeros of binary floating point numbers

Adding a zero changes no number with 64 bits, but for the sign of a zero: `0 + -0` is `0`.  The sum of two numbers is a
negative zero only if both are (`add_ne_neg_zero`): the exact sum of two finite numbers that is not zero is not rounded
to zero (`exists_round`).  So a sum that begins with `0` is never a negative zero, and its terms may be added to a zero
first (`add_zero_add`).
-/

namespace Binary64

open Float.Model Float.Model.UnpackedFloat

/-! ### Rounding -/

theorem mantissa_shiftRight (em : ExtendedMantissa) (k : Nat) : (em >>> k).mantissa = em.mantissa / 2 ^ k := by
  change (k.repeat ExtendedMantissa.shiftRightOne em).mantissa = _
  induction k with
  | zero => simp [Nat.repeat]
  | succ k ih => rw [Nat.repeat, ExtendedMantissa.shiftRightOne, ih, Nat.div_div_eq_div_mul, Nat.pow_succ]

theorem mantissa_ofMantissaAndAccuracy (m : Nat) (a : Accuracy) :
    (ExtendedMantissa.ofMantissaAndAccuracy m a).mantissa = m := by
  fun_cases ExtendedMantissa.ofMantissaAndAccuracy <;> rfl

theorem le_roundToNearestEven (m : Nat) (a : Accuracy) : m ≤ a.roundToNearestEven m := by
  fun_cases Accuracy.roundToNearestEven <;> omega

theorem le_roundedMantissa (em : ExtendedMantissa) : em.mantissa ≤ em.roundedMantissa :=
  le_roundToNearestEven em.mantissa em.accuracy

/-- The mantissa and the exponent of a number that is not zero. -/
structure Canonical (m : Nat) (e : Int) : Prop where
  pos : 0 < m
  log2_le : m.log2 ≤ 52
  le_exponent : -1074 ≤ e

theorem canonical_shiftToTargetExponent {m : Nat} {e : Int} (hm : 0 < m) (he : -1074 ≤ e) (a : Accuracy) :
    Canonical (shiftToTargetExponent .binary64 m e a).1.mantissa (shiftToTargetExponent .binary64 m e a).2 := by
  have hshift : (Format.binary64.targetExponent (totalExponent m e) - e).toNat = m.log2 - 52 := by
    unfold Format.targetExponent totalExponent Format.minExponent Format.mantissaBits
    simp only
    omega
  unfold shiftToTargetExponent shiftToExponent
  dsimp only
  rw [hshift, mantissa_shiftRight, mantissa_ofMantissaAndAccuracy]
  have hle : 2 ^ (m.log2 - 52) ≤ m :=
    Nat.le_trans (Nat.pow_le_pow_right (by decide) (Nat.sub_le m.log2 52)) (Nat.log2_self_le (by omega))
  have hpos : 0 < m / 2 ^ (m.log2 - 52) := Nat.div_pos hle (Nat.two_pow_pos _)
  have hlt : m / 2 ^ (m.log2 - 52) < 2 ^ 53 := by
    rw [Nat.div_lt_iff_lt_mul (Nat.two_pow_pos _), ← Nat.pow_add]
    exact Nat.lt_of_lt_of_le Nat.lt_log2_self (Nat.pow_le_pow_right (by decide) (by omega))
  have hlog := (Nat.log2_lt (Nat.ne_of_gt hpos)).2 hlt
  exact ⟨hpos, by omega, by omega⟩

/-- A number that is not zero is not rounded to zero. -/
theorem exists_round (s : Sign) {m : Nat} {e : Int} (hm : 0 < m) (he : -1074 ≤ e) :
    ∃ m' e' hm', UnpackedFloat.round .binary64 s m e = .finite s m' e' hm' ∧ Canonical m' e' := by
  unfold UnpackedFloat.round decreaseExponent roundWithAccuracy
  dsimp only
  have hpos : 0 < m <<< (e - Format.binary64.targetExponent (totalExponent m e)).toNat := by
    rw [Nat.shiftLeft_eq]
    exact Nat.mul_pos hm (Nat.two_pow_pos _)
  have hexp : -1074 ≤ e - (e - Format.binary64.targetExponent (totalExponent m e)).toNat := by
    unfold Format.targetExponent totalExponent Format.minExponent Format.mantissaBits
    simp only
    omega
  -- the mantissa is shifted, rounded up at most, and shifted again
  have hfirst := canonical_shiftToTargetExponent hpos hexp .exact
  have hrounded := Nat.lt_of_lt_of_le hfirst.pos (le_roundedMantissa _)
  have hcanonical := canonical_shiftToTargetExponent hrounded hfirst.le_exponent .exact
  exact ⟨_, _, hcanonical.pos, dif_neg (Nat.ne_of_gt hcanonical.pos), hcanonical⟩

/-! ### Sums -/

/-- A number with the bits of a negative zero. -/
theorem eq_negative_zero {u : UnpackedFloat} (h : UnpackedFloat.pack .binary64 u = packedZero .binary64 .negative)
    (hcanonical : ∀ s m e hm, u = .finite s m e hm → Canonical m e) : u = .zero .negative := by
  have hexp := congrArg unpackExponent h
  have hmant := congrArg unpackMantissa h
  unfold packedZero at hexp hmant
  rw [unpackExponent_packComponents] at hexp
  rw [unpackMantissa_packComponents] at hmant
  cases u with
  | notANumber =>
    unfold UnpackedFloat.pack packedNaN at hexp
    rw [unpackExponent_packComponents] at hexp
    exact absurd hexp (by decide)
  | infinity s =>
    unfold UnpackedFloat.pack packedInfinity at hexp
    rw [unpackExponent_packComponents] at hexp
    exact absurd hexp (by decide)
  | zero s =>
    cases s with
    | negative => rfl
    | positive => exact absurd h (by decide)
  | finite s m e hm =>
    obtain ⟨hpos, hlog, hle⟩ := hcanonical s m e hm rfl
    unfold UnpackedFloat.pack at hexp hmant
    dsimp only at hexp hmant
    split at hexp
    · unfold packedInfinity at hexp
      rw [unpackExponent_packComponents] at hexp
      exact absurd hexp (by decide)
    rename_i hlarge
    rw [if_neg hlarge] at hmant
    split at hexp
    -- a normal number has an exponent
    · rw [unpackExponent_packComponents] at hexp
      have hbiased := congrArg BitVec.toNat hexp
      change _ % 2048 = 0 at hbiased
      change ¬ 2048 ≤ _ at hlarge
      have hbias : Format.binary64.exponentBias = 1023 := rfl
      rw [hbias] at hbiased hlarge
      omega
    -- a subnormal one has a mantissa
    · rename_i hsmall
      rw [if_neg hsmall, unpackMantissa_packComponents] at hmant
      have hzero := congrArg BitVec.toNat hmant
      change m % 2 ^ 52 = 0 at hzero
      change ¬ _ + 1 = 53 at hsmall
      have hlt : m < 2 ^ 52 := (Nat.log2_lt (Nat.ne_of_gt hpos)).1 (by omega)
      rw [Nat.mod_eq_of_lt hlt] at hzero
      omega

/-- What the bits of a number are unpacked to. -/
theorem canonical_unpack {b : BitVec Format.binary64.numBits} {s : Sign} {m : Nat} {e : Int} {hm : 0 < m}
    (h : UnpackedFloat.unpack .binary64 b = .finite s m e hm) : Canonical m e := by
  have hbias : Format.binary64.exponentBias = 1023 := rfl
  unfold UnpackedFloat.unpack at h
  dsimp only at h
  rw [hbias] at h
  split at h
  · split at h <;> cases h
  split at h
  · rename_i hexp
    split at h
    · cases h
    · cases h
      refine ⟨hm, Nat.le_of_lt ((Nat.log2_lt (Nat.ne_of_gt hm)).2 (unpackMantissa b).isLt), ?_⟩
      omega
  · rename_i hexp
    cases h
    have hne : (unpackExponent b).toNat ≠ 0 := fun h => hexp (BitVec.eq_of_toNat_eq h)
    refine ⟨hm, Nat.le_of_lt_succ ((Nat.log2_lt (Nat.ne_of_gt hm)).2 ?_), by omega⟩
    exact (1#1 ++ unpackMantissa b).isLt

theorem pack_unpack (x : Float.Model) : Float.Model.pack x.unpack = x := by
  obtain ⟨bits, valid⟩ := x
  unfold Float.Model.pack Float.Model.unpack
  congr 1
  exact congrArg UInt64.ofBitVec (pack_unpack_of_valid valid)

theorem eq_neg_zero_iff {x : Float} : x = -0 ↔ x.toModel.unpack = .zero .negative := by
  rw [← Float.toBits_inj, ← UInt64.toBitVec_inj]
  exact (unpack_eq_zero_iff_of_valid x.toModel.valid).symm

theorem zero_ne_neg_zero : (0 : Float) ≠ -0 := by
  intro h
  cases eq_neg_zero_iff.1 h

/-- Adding zero changes only negative zeros. -/
theorem zero_add {x : Float} (hx : x ≠ -0) : 0 + x = x := by
  have hpack : Float.ofModel (.pack x.toModel.unpack) = x := by rw [pack_unpack]
  have hne := mt eq_neg_zero_iff.2 hx
  change Float.ofModel (.pack (UnpackedFloat.add .binary64 (.zero .positive) x.toModel.unpack)) = x
  generalize x.toModel.unpack = u at hpack hne
  cases u with
  | zero s =>
    cases s with
    | positive => exact hpack
    | negative => exact absurd rfl hne
  | _ => exact hpack

/-- A sum of two finite numbers that are not zero is zero, and then a positive one, or is not rounded to zero. -/
theorem normalize_cases {m : Int} {e : Int} (he : -1074 ≤ e) :
    UnpackedFloat.normalize .binary64 m e .positive = .zero .positive ∨
      ∃ s m' e' hm', UnpackedFloat.normalize .binary64 m e .positive = .finite s m' e' hm' ∧ Canonical m' e' := by
  unfold UnpackedFloat.normalize
  rcases Int.lt_trichotomy m 0 with hlt | rfl | hgt
  · have hcompare : compare m 0 = .lt := if_pos hlt
    rw [hcompare]
    exact Or.inr ⟨_, exists_round .negative (by omega) he⟩
  · exact Or.inl rfl
  · have hcompare : compare m 0 = .gt := (if_neg (by omega)).trans (if_neg (by omega))
    rw [hcompare]
    exact Or.inr ⟨_, exists_round .positive (by omega) he⟩

section Add

variable {u v : UnpackedFloat} (hu : ∀ {s m e hm}, u = .finite s m e hm → Canonical m e)
  (hv : ∀ {s m e hm}, v = .finite s m e hm → Canonical m e)
include hu hv

/-- A sum is not a number, infinite, a positive zero, rounded properly, or the sum of two negative zeros. -/
theorem add_cases : UnpackedFloat.add .binary64 u v = .notANumber ∨
    (∃ s, UnpackedFloat.add .binary64 u v = .infinity s) ∨ UnpackedFloat.add .binary64 u v = .zero .positive ∨
    (∃ s m e hm, UnpackedFloat.add .binary64 u v = .finite s m e hm ∧ Canonical m e) ∨ u = .zero .negative := by
  cases u with
  | notANumber => exact Or.inl rfl
  | infinity s =>
    cases v with
    | infinity s' =>
      by_cases h : (s == s') = true
      · exact Or.inr (Or.inl ⟨s, if_pos h⟩)
      · exact Or.inl (if_neg h)
    | notANumber => exact Or.inl rfl
    | _ => exact Or.inr (Or.inl ⟨s, rfl⟩)
  | zero s =>
    cases s with
    | negative => simp
    | positive =>
      cases v with
      | zero s' => cases s' <;> simp [UnpackedFloat.add]
      | finite s m e hm => exact Or.inr (Or.inr (Or.inr (Or.inl ⟨s, m, e, hm, rfl, hv rfl⟩)))
      | _ => simp [UnpackedFloat.add]
  | finite s m e hm =>
    cases v with
    | notANumber => exact Or.inl rfl
    | infinity s' => exact Or.inr (Or.inl ⟨s', rfl⟩)
    | zero s' => exact Or.inr (Or.inr (Or.inr (Or.inl ⟨s, m, e, hm, rfl, hu rfl⟩)))
    | finite s' m' e' hm' =>
      have he : -1074 ≤ min e e' := Int.le_min.2 ⟨(hu rfl).le_exponent, (hv rfl).le_exponent⟩
      rcases normalize_cases he with h | h
      · exact Or.inr (Or.inr (Or.inl h))
      · exact Or.inr (Or.inr (Or.inr (Or.inl h)))

end Add

/-- A sum is a negative zero only if both its terms are. -/
theorem add_ne_neg_zero {x : Float} (hx : x ≠ -0) (y : Float) : x + y ≠ -0 := by
  intro hadd
  have hbits : UnpackedFloat.pack .binary64 (UnpackedFloat.add .binary64 x.toModel.unpack y.toModel.unpack) =
      packedZero .binary64 .negative :=
    congrArg (fun x : Float => x.toBits.toBitVec) hadd
  have hcases : UnpackedFloat.add .binary64 x.toModel.unpack y.toModel.unpack = .notANumber ∨ _ :=
    add_cases canonical_unpack canonical_unpack
  rcases hcases with h | ⟨s, h⟩ | h | ⟨s, m, e, hm, h, hcanonical⟩ | h
  · rw [h] at hbits
    cases eq_negative_zero hbits fun _ _ _ _ h => by cases h
  · rw [h] at hbits
    cases eq_negative_zero hbits fun _ _ _ _ h => by cases h
  · rw [h] at hbits
    cases eq_negative_zero hbits fun _ _ _ _ h => by cases h
  · rw [h] at hbits
    have heq := eq_negative_zero hbits fun s' m' e' hm' h => by
      cases h
      exact hcanonical
    cases heq
  · exact hx (eq_neg_zero_iff.2 h)

/-- A term may be added to a zero first. -/
theorem add_zero_add {x : Float} (hx : x ≠ -0) (y : Float) : x + (0 + y) = x + y := by
  by_cases hy : y = -0
  · subst hy
    have hne := mt eq_neg_zero_iff.2 hx
    change Float.ofModel (.pack (UnpackedFloat.add .binary64 x.toModel.unpack (.zero .positive))) =
      Float.ofModel (.pack (UnpackedFloat.add .binary64 x.toModel.unpack (.zero .negative)))
    generalize x.toModel.unpack = u at hne
    cases u with
    | zero s =>
      cases s with
      | positive => rfl
      | negative => exact absurd rfl hne
    | _ => rfl
  · rw [zero_add hy]

end Binary64
