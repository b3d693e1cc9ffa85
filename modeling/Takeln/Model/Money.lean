import Mathlib.Algebra.Ring.Rat

/-!
# Amounts of money

Costs and budgets are `f64` in the source.  What the engines do with them is the class `Money`: they add, subtract,
compare and print them.  `f64` is the arithmetic of the source, and an instance; a claim about exact costs is one about
`exact`.
-/

namespace Takeln

/-- The numbers that costs and budgets are. -/
class Money where
  Eur : Type
  [decEq : DecidableEq Eur]
  [zero : Zero Eur]
  [add : Add Eur]
  [sub : Sub Eur]
  [lt : LT Eur]
  [decLt : DecidableLT Eur]
  /-- `{:.4}` -/
  text : Eur → String

export Money (Eur)

attribute [reducible] Money.Eur Money.decEq Money.zero Money.add Money.sub Money.lt Money.decLt

attribute [instance] Money.decEq Money.zero Money.add Money.sub Money.lt Money.decLt

/-- `{:.4}` of `num / den`: four decimals, ties to even. -/
def fixed4 (num den : Nat) : String :=
  let scaled := num * 10000
  let n := scaled / den
  let up := den < 2 * (scaled % den) ∨ (2 * (scaled % den) = den ∧ n % 2 = 1)
  let n := if up then n + 1 else n
  let frac := toString (n % 10000)
  let zeros := String.ofList (List.replicate (4 - frac.length) '0')
  s!"{n / 10000}.{zeros}{frac}"

/-- `-` before a negative number. -/
def signText : Float.Model.UnpackedFloat.Sign → String
  | .positive => ""
  | .negative => "-"

/-- `{:.4}` of an `f64`. -/
def f64Text (x : Float) : String :=
  match x.toModel.unpack with
  | .notANumber => "NaN"
  | .infinity sign => signText sign ++ "inf"
  | .zero sign => signText sign ++ fixed4 0 1
  | .finite sign mantissa exponent _ =>
    signText sign ++ fixed4 (mantissa * 2 ^ exponent.toNat) (2 ^ (-exponent).toNat)

/-- Binary floating point numbers with 64 bits. -/
@[reducible] instance f64 : Money where
  Eur := Float
  zero := ⟨0⟩
  text := f64Text

/-- Exact rational numbers. -/
@[reducible] def exact : Money where
  Eur := ℚ
  text q := (if q < 0 then "-" else "") ++ fixed4 q.num.natAbs q.den

example : (0.3 : Float) < 0.03 + 0.24 + 0.03 := by decide +kernel

end Takeln
