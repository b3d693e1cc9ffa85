import Takeln.Time.Rfc3339

/-!
# Reading RFC 3339 texts

`parse` reads a text that `rfc3339` prints, and gives the time it prints (`parse_rfc3339`).
-/

namespace Rfc3339

/-! ### The parser -/

/-- Read `w` digits after the number `n`. -/
def readDigits : Nat → Nat → List Char → Option (Nat × List Char)
  | 0, n, cs => some (n, cs)
  | _ + 1, _, [] => none
  | w + 1, n, c :: cs => if '0' ≤ c ∧ c ≤ '9' then readDigits w (10 * n + (c.toNat - 48)) cs else none

def expect (c : Char) : List Char → Option (List Char)
  | [] => none
  | d :: cs => if d = c then some cs else none

/-- Read `w` digits and the character after them. -/
def readField (w : Nat) (c : Char) (cs : List Char) : Option (Nat × List Char) := do
  let p ← readDigits w 0 cs
  let rest ← expect c p.2
  return (p.1, rest)

/-- Read up to `k` groups of three digits; those left out are zeros. -/
def readGroups : Nat → List Char → Nat × List Char
  | 0, cs => (0, cs)
  | k + 1, cs =>
    match readDigits 3 0 cs with
    | none => (0, cs)
    | some p => (p.1 * 1000 ^ k + (readGroups k p.2).1, (readGroups k p.2).2)

def readFraction : List Char → Nat × List Char
  | '.' :: cs => readGroups 3 cs
  | cs => (0, cs)

/-- The day of a date. -/
def dayOf (y m d : Nat) : Nat := yearStart y + ((monthLengths (isLeap y)).take (m - 1)).sum + (d - 1)

/-- Read a number of nanoseconds since the start of the year 0. -/
def readText (cs : List Char) : Option Nat := do
  let y ← readField 4 '-' cs
  let m ← readField 2 '-' y.2
  let d ← readField 2 'T' m.2
  let h ← readField 2 ':' d.2
  let mi ← readField 2 ':' h.2
  let s ← readDigits 2 0 mi.2
  let nanos := readFraction s.2
  if nanos.2 = ['+', '0', '0', ':', '0', '0'] then
    return (dayOf y.1 m.1 d.1 * 86400 + (h.1 * 3600 + mi.1 * 60 + s.1)) * 1000000000 + nanos.1
  else none

def parse (s : String) : Option Int := (readText s.toList).map fun n : Nat => (n : Int) + firstTime

/-! ### Reading what was printed -/

theorem readDigits_succ (w n : Nat) (cs : List Char) :
    readDigits (w + 1) n cs = (readDigits w n cs).bind fun p => readDigits 1 p.1 p.2 := by
  induction w generalizing n cs with
  | zero => rfl
  | succ w ih =>
    cases cs with
    | nil => rfl
    | cons c cs =>
      rw [readDigits, readDigits]
      split
      · exact ih _ _
      · rfl

theorem readDigits_pad {w n : Nat} (hn : n < 10 ^ w) (s : List Char) : readDigits w 0 (pad w n ++ s) = some (n, s) := by
  induction w generalizing n s with
  | zero =>
    have : n = 0 := by simpa using hn
    subst this
    rfl
  | succ w ih =>
    have hdigit : ∀ d < 10, ('0' ≤ Nat.digitChar d ∧ Nat.digitChar d ≤ '9') ∧ (Nat.digitChar d).toNat - 48 = d := by
      decide
    obtain ⟨hrange, hvalue⟩ := hdigit (n % 10) (Nat.mod_lt _ (by omega))
    rw [Nat.pow_succ] at hn
    rw [pad, List.append_assoc, readDigits_succ, ih (by omega), Option.bind_some, List.singleton_append, readDigits,
      if_pos hrange, hvalue, readDigits]
    congr 2
    omega

theorem readField_pad {w n : Nat} (hn : n < 10 ^ w) (c : Char) (s : List Char) :
    readField w c (pad w n ++ c :: s) = some (n, s) := by
  simp [readField, readDigits_pad hn, expect]

/-- Reading stops where the groups do. -/
theorem readGroups_groups {k r : Nat} {s : List Char} (hr : r < 1000 ^ k) :
    readGroups k (groups k r ++ '+' :: s) = (r, '+' :: s) := by
  induction k generalizing r with
  | zero =>
    have : r = 0 := by simpa using hr
    subst this
    rfl
  | succ k ih =>
    have hpos : 0 < 1000 ^ k := Nat.pow_pos (by omega)
    rw [groups]
    by_cases hzero : r = 0
    · subst hzero
      rw [if_pos rfl]
      rfl
    · have hfirst : r / 1000 ^ k < 10 ^ 3 := by
        rw [Nat.div_lt_iff_lt_mul hpos]
        rw [Nat.pow_succ] at hr
        omega
      have hsum := Nat.div_add_mod r (1000 ^ k)
      rw [if_neg hzero, List.append_assoc, readGroups, readDigits_pad hfirst]
      dsimp only
      rw [ih (Nat.mod_lt _ hpos), Nat.mul_comm, hsum]

theorem readFraction_fraction {n : Nat} (hn : n < 1000000000) (s : List Char) :
    readFraction (fraction n ++ '+' :: s) = (n, '+' :: s) := by
  unfold fraction
  by_cases hzero : n = 0
  · subst hzero
    rfl
  · rw [if_neg hzero]
    exact readGroups_groups (by omega)

theorem sum_take_monthDay {lens : List Nat} {m o : Nat} (h : o < lens.sum) :
    (lens.take ((monthDay lens m o).1 - m)).sum + ((monthDay lens m o).2 - 1) = o := by
  induction lens generalizing m o with
  | nil => simp at h
  | cons len rest ih =>
    rw [List.sum_cons] at h
    simp only [monthDay]
    by_cases ho : o < len
    · rw [if_pos ho]
      simp
    · rw [if_neg ho]
      have hle := monthDay_le rest (m + 1) (o - len)
      have hrest := ih (m := m + 1) (by omega : o - len < rest.sum)
      have hsucc : (monthDay rest (m + 1) (o - len)).1 - m = (monthDay rest (m + 1) (o - len)).1 - (m + 1) + 1 := by
        omega
      rw [hsucc, List.take_succ_cons, List.sum_cons]
      omega

theorem dayOf_date (day : Nat) : dayOf (yearOf day) (monthDayOf day).1 (monthDayOf day).2 = day := by
  have hspec := yearOf_spec day
  rw [yearStart_succ] at hspec
  have hmonth := sum_take_monthDay (m := 1)
    (by omega : day - yearStart (yearOf day) < (monthLengths (isLeap (yearOf day))).sum)
  unfold dayOf monthDayOf
  omega

theorem readText_text {n : Nat} (hn : n < 315569520000 * 1000000000) : readText (text n) = some n := by
  have hday : n / 1000000000 / 86400 < 3652425 := by omega
  obtain ⟨hmonth, hdate⟩ := monthDayOf_bounds (n / 1000000000 / 86400)
  unfold text date timeOfDay
  simp only [List.append_assoc, List.cons_append]
  unfold readText
  rw [readField_pad (yearOf_lt hday)]
  simp only [bind, Option.bind_some]
  rw [readField_pad (by omega)]
  simp only [Option.bind_some]
  rw [readField_pad (by omega)]
  simp only [Option.bind_some]
  rw [readField_pad (by omega)]
  simp only [Option.bind_some]
  rw [readField_pad (by omega)]
  simp only [Option.bind_some]
  rw [readDigits_pad (by omega)]
  simp only [Option.bind_some]
  rw [readFraction_fraction (Nat.mod_lt _ (by omega)), if_pos rfl, dayOf_date]
  exact congrArg some (by omega)

/-- A text gives back the time it prints. -/
theorem parse_rfc3339 {t : Int} (ht : InYears t) : parse (rfc3339 t) = some t := by
  unfold InYears firstTime endTime at ht
  unfold parse rfc3339
  rw [String.toList_ofList, readText_text (by unfold firstTime; omega), Option.map_some]
  unfold firstTime
  exact congrArg some (by omega)

end Rfc3339
