import Mathlib.Algebra.Ring.Nat
import Mathlib.Data.String.Basic

/-!
# RFC 3339 texts of UTC times

Times are nanoseconds since the Unix epoch.  `rfc3339` prints those of the years 0 to 9999 in the proleptic Gregorian
calendar: seconds in a text of fixed width, then a fraction of 3, 6 or 9 digits unless it is zero, then `+00:00`.
Although the width varies, texts are ordered as the times they print (`rfc3339_lt_iff`): `+` precedes `.`, which
precedes the digits.
-/

namespace Rfc3339

/-! ### The calendar -/

/-- Leap days in the first `y` years; the year 0 is a leap year. -/
def leapDays (y : Nat) : Nat := (y + 3) / 4 - (y + 99) / 100 + (y + 399) / 400

/-- The first day of a year, counted from the first day of the year 0. -/
def yearStart (y : Nat) : Nat := 365 * y + leapDays y

/-- The year of a day in a cycle of 400 years. -/
def yearOfCycle (d : Nat) : Nat :=
  let y := d / 365
  if d % 365 < leapDays y then y - 1 else y

def yearOf (day : Nat) : Nat := 400 * (day / 146097) + yearOfCycle (day % 146097)

def isLeap (y : Nat) : Bool := y % 4 = 0 ∧ (y % 100 ≠ 0 ∨ y % 400 = 0)

def monthLengths (leap : Bool) : List Nat :=
  [31, if leap then 29 else 28, 31, 30, 31, 30, 31, 31, 30, 31, 30, 31]

/-- The month and the day of the month of the `o`-th day from the start of the month `m`. -/
def monthDay : List Nat → Nat → Nat → Nat × Nat
  | [], m, o => (m, o + 1)
  | len :: rest, m, o => if o < len then (m, o + 1) else monthDay rest (m + 1) (o - len)

/-- The month and the day of the month of a day. -/
def monthDayOf (day : Nat) : Nat × Nat :=
  monthDay (monthLengths (isLeap (yearOf day))) 1 (day - yearStart (yearOf day))

/-! ### Printing -/

/-- `n` with `w` digits. -/
def pad : Nat → Nat → List Char
  | 0, _ => []
  | w + 1, n => pad w (n / 10) ++ [Nat.digitChar (n % 10)]

/-- `YYYY-MM-DD` -/
def date (day : Nat) : List Char :=
  pad 4 (yearOf day) ++ '-' :: (pad 2 (monthDayOf day).1 ++ '-' :: pad 2 (monthDayOf day).2)

/-- `HH:MM:SS` -/
def timeOfDay (s : Nat) : List Char :=
  pad 2 (s / 3600) ++ ':' :: (pad 2 (s / 60 % 60) ++ ':' :: pad 2 (s % 60))

/-- The digits of a fraction of `k` groups of three, as many groups as are needed. -/
def groups : Nat → Nat → List Char
  | 0, _ => []
  | k + 1, r => if r = 0 then [] else pad 3 (r / 1000 ^ k) ++ groups k (r % 1000 ^ k)

/-- The fraction of a second, of 3, 6 or 9 digits; none if it is zero. -/
def fraction (nanos : Nat) : List Char := if nanos = 0 then [] else '.' :: groups 3 nanos

/-- The first nanosecond of the year 0. -/
def firstTime : Int := -62167219200 * 1000000000

/-- The first nanosecond after the year 9999. -/
def endTime : Int := 253402300800 * 1000000000

def InYears (t : Int) : Prop := firstTime ≤ t ∧ t < endTime

instance (t : Int) : Decidable (InYears t) := inferInstanceAs (Decidable (_ ∧ _))

/-- The text of a number of nanoseconds since the start of the year 0. -/
def text (n : Nat) : List Char :=
  let s := n / 1000000000
  date (s / 86400) ++ 'T' :: (timeOfDay (s % 86400) ++ (fraction (n % 1000000000) ++ ['+', '0', '0', ':', '0', '0']))

def rfc3339 (t : Int) : String := String.ofList (text (t - firstTime).toNat)

example : rfc3339 951782400123456000 = "2000-02-29T00:00:00.123456+00:00" := by decide +kernel

/-! ### Fixed-width numbers -/

private theorem digitChar_lt {a b : Nat} (h : a < b) (hb : b < 10) : Nat.digitChar a < Nat.digitChar b := by
  have hcases : ∀ b < 10, ∀ a < b, Nat.digitChar a < Nat.digitChar b := by decide
  exact hcases b hb a h

/-- Numbers of the same width are ordered as their texts, whatever follows them. -/
theorem pad_append_lt {w m n : Nat} {s t : List Char} (h : m < n) (hn : n < 10 ^ w) :
    pad w m ++ s < pad w n ++ t := by
  induction w generalizing m n s t with
  | zero => simp at hn; omega
  | succ w ih =>
    rw [Nat.pow_succ] at hn
    simp only [pad, List.append_assoc]
    by_cases hdiv : m / 10 < n / 10
    · exact ih hdiv (by omega)
    · have heq : m / 10 = n / 10 := by omega
      rw [heq]
      apply List.append_left_lt
      rw [List.singleton_append, List.singleton_append, List.cons_lt_cons_iff]
      exact Or.inl (digitChar_lt (by omega) (by omega))

/-- A number is preceded by every text that starts with a character before the digits. -/
theorem lt_pad_append {w n : Nat} {c : Char} {s t : List Char} (hc : c < '0') (hn : n < 10 ^ (w + 1)) :
    c :: s < pad (w + 1) n ++ t := by
  induction w generalizing n t with
  | zero =>
    have hdigit : '0' ≤ Nat.digitChar (n % 10) := by
      have hcases : ∀ d < 10, '0' ≤ Nat.digitChar d := by decide
      exact hcases _ (Nat.mod_lt _ (by omega))
    simp only [pad, List.nil_append, List.singleton_append, List.cons_lt_cons_iff]
    exact Or.inl (lt_of_lt_of_le hc hdigit)
  | succ w ih =>
    rw [pad, List.append_assoc]
    rw [Nat.pow_succ] at hn
    exact ih (by omega)

/-! ### The order of dates -/

theorem leapDays_succ (y : Nat) : leapDays (y + 1) = leapDays y + if isLeap y then 1 else 0 := by
  have h4 : (y + 1 + 3) / 4 = (y + 3) / 4 + if y % 4 = 0 then 1 else 0 := by
    split <;> omega
  have h100 : (y + 1 + 99) / 100 = (y + 99) / 100 + if y % 100 = 0 then 1 else 0 := by
    split <;> omega
  have h400 : (y + 1 + 399) / 400 = (y + 399) / 400 + if y % 400 = 0 then 1 else 0 := by
    split <;> omega
  have hle : (y + 99) / 100 ≤ (y + 3) / 4 := by omega
  unfold isLeap leapDays
  rw [h4, h100, h400]
  simp only [decide_eq_true_eq]
  generalize (y + 3) / 4 = a, (y + 99) / 100 = b, (y + 399) / 400 = c at hle
  by_cases m4 : y % 4 = 0
  · by_cases m100 : y % 100 = 0
    · by_cases m400 : y % 400 = 0
      · simp [m4, m100, m400]
        omega
      · simp [m4, m100, m400]
    · have m400 : y % 400 ≠ 0 := by omega
      simp [m4, m100, m400]
      omega
  · have m100 : y % 100 ≠ 0 := by omega
    have m400 : y % 400 ≠ 0 := by omega
    simp [m4, m100, m400]

theorem leapDays_le {y z : Nat} (h : y ≤ z) : leapDays y ≤ leapDays z := by
  induction h with
  | refl => exact Nat.le_refl _
  | step _ ih =>
    rw [leapDays_succ]
    omega

theorem yearStart_lt {y z : Nat} (h : y < z) : yearStart y < yearStart z := by
  have := leapDays_le (Nat.le_of_lt h)
  unfold yearStart
  omega

theorem yearOfCycle_spec {d : Nat} (hd : d < 146097) :
    yearStart (yearOfCycle d) ≤ d ∧ d < yearStart (yearOfCycle d + 1) ∧ yearOfCycle d < 400 := by
  have hcycle : leapDays 400 = 97 := rfl
  have hmax := leapDays_le (by omega : d / 365 ≤ 400)
  unfold yearOfCycle yearStart
  dsimp only
  split
  · rename_i hlt
    have hpos : d / 365 ≠ 0 := by
      intro h
      rw [h] at hlt
      exact absurd hlt (Nat.not_lt_zero _)
    obtain ⟨y, hy⟩ : ∃ y, d / 365 = y + 1 := ⟨d / 365 - 1, by omega⟩
    have hle := leapDays_le (by omega : y ≤ y + 1)
    rw [hy] at hlt hmax ⊢
    rw [Nat.add_sub_cancel]
    omega
  · rename_i hge
    have hle := leapDays_le (by omega : d / 365 ≤ d / 365 + 1)
    have hne : d / 365 ≠ 400 := by
      intro h
      rw [h, hcycle] at hge
      omega
    omega

theorem yearStart_add_cycles (c y : Nat) : yearStart (400 * c + y) = 146097 * c + yearStart y := by
  unfold yearStart leapDays
  omega

/-- A day lies in its year. -/
theorem yearOf_spec (day : Nat) : yearStart (yearOf day) ≤ day ∧ day < yearStart (yearOf day + 1) := by
  have hspec := yearOfCycle_spec (Nat.mod_lt day (by omega : 0 < 146097))
  unfold yearOf
  rw [Nat.add_assoc, yearStart_add_cycles, yearStart_add_cycles]
  omega

theorem yearOf_lt {day : Nat} (h : day < 3652425) : yearOf day < 10 ^ 4 := by
  have := (yearOfCycle_spec (Nat.mod_lt day (by omega : 0 < 146097))).2.2
  unfold yearOf
  omega

theorem yearOf_le {d e : Nat} (h : d ≤ e) : yearOf d ≤ yearOf e := by
  by_contra hlt
  have hd := yearOf_spec d
  have he := yearOf_spec e
  rcases Nat.lt_or_eq_of_le (by omega : yearOf e + 1 ≤ yearOf d) with h1 | h1
  · have := yearStart_lt h1
    omega
  · rw [h1] at he
    omega

theorem yearStart_succ (y : Nat) : yearStart (y + 1) = yearStart y + (monthLengths (isLeap y)).sum := by
  have hsum : (monthLengths (isLeap y)).sum = 365 + if isLeap y then 1 else 0 := by
    cases isLeap y <;> rfl
  unfold yearStart
  rw [hsum, leapDays_succ]
  omega

theorem monthDay_le (lens : List Nat) (m o : Nat) : m ≤ (monthDay lens m o).1 := by
  induction lens generalizing m o with
  | nil => exact Nat.le_refl m
  | cons len rest ih =>
    unfold monthDay
    split
    · exact Nat.le_refl m
    · have := ih (m + 1) (o - len)
      omega

/-- Of two days of a year the later one is in a later month, or later in the same month. -/
theorem monthDay_lt (lens : List Nat) {m o p : Nat} (h : o < p) :
    (monthDay lens m o).1 < (monthDay lens m p).1 ∨
      (monthDay lens m o).1 = (monthDay lens m p).1 ∧ (monthDay lens m o).2 < (monthDay lens m p).2 := by
  induction lens generalizing m o p with
  | nil => exact Or.inr ⟨rfl, by simp only [monthDay]; omega⟩
  | cons len rest ih =>
    simp only [monthDay]
    by_cases ho : o < len
    · rw [if_pos ho]
      by_cases hp : p < len
      · rw [if_pos hp]
        exact Or.inr ⟨rfl, by dsimp only; omega⟩
      · rw [if_neg hp]
        have := monthDay_le rest (m + 1) (p - len)
        exact Or.inl (by dsimp only; omega)
    · rw [if_neg ho, if_neg (by omega)]
      exact ih (by omega)

theorem monthDay_bounds {lens : List Nat} {m o : Nat} (hlens : ∀ len ∈ lens, len ≤ 31) (h : o < lens.sum) :
    (monthDay lens m o).1 < m + lens.length ∧ (monthDay lens m o).2 ≤ 31 := by
  induction lens generalizing m o with
  | nil => simp at h
  | cons len rest ih =>
    rw [List.sum_cons] at h
    have hlen := hlens len List.mem_cons_self
    simp only [monthDay, List.length_cons]
    by_cases ho : o < len
    · rw [if_pos ho]
      exact ⟨by dsimp only; omega, by dsimp only; omega⟩
    · rw [if_neg ho]
      have hrest : ∀ l ∈ rest, l ≤ 31 := fun l hl => hlens l (List.mem_cons_of_mem _ hl)
      have := ih (m := m + 1) hrest (by omega : o - len < rest.sum)
      omega

theorem monthDayOf_bounds (day : Nat) : (monthDayOf day).1 ≤ 12 ∧ (monthDayOf day).2 ≤ 31 := by
  have hspec := yearOf_spec day
  rw [yearStart_succ] at hspec
  have hlens : ∀ leap : Bool, (∀ len ∈ monthLengths leap, len ≤ 31) ∧ (monthLengths leap).length = 12 := by decide
  have := monthDay_bounds (m := 1) (hlens (isLeap (yearOf day))).1
    (by omega : day - yearStart (yearOf day) < (monthLengths (isLeap (yearOf day))).sum)
  rw [(hlens _).2] at this
  unfold monthDayOf
  omega

/-- The days of ten thousand years are ordered as their dates, whatever follows them. -/
theorem date_append_lt {d e : Nat} {s t : List Char} (h : d < e) (he : e < 3652425) : date d ++ s < date e ++ t := by
  have hyear := yearOf_lt he
  have hbounds := monthDayOf_bounds e
  unfold date
  simp only [List.append_assoc, List.cons_append]
  rcases Nat.lt_or_eq_of_le (yearOf_le (Nat.le_of_lt h)) with hlt | heq
  · exact pad_append_lt hlt hyear
  · have hd := yearOf_spec d
    rw [heq] at hd
    have hmd := monthDay_lt (monthLengths (isLeap (yearOf e))) (m := 1)
      (by omega : d - yearStart (yearOf e) < e - yearStart (yearOf e))
    have hmonth : monthDayOf d = monthDay (monthLengths (isLeap (yearOf e))) 1 (d - yearStart (yearOf e)) := by
      unfold monthDayOf
      rw [heq]
    rw [heq, hmonth]
    change _ ∨ _ = (monthDayOf e).1 ∧ _ at hmd
    apply List.append_left_lt
    rw [List.cons_lt_cons_iff]
    refine Or.inr ⟨rfl, ?_⟩
    rcases hmd with hlt | ⟨heq', hlt⟩
    · exact pad_append_lt hlt (by omega)
    · rw [heq']
      apply List.append_left_lt
      rw [List.cons_lt_cons_iff]
      exact Or.inr ⟨rfl, pad_append_lt hlt (by omega)⟩

/-! ### The order of times -/

theorem timeOfDay_append_lt {r u : Nat} {s t : List Char} (h : r < u) (hu : u < 86400) :
    timeOfDay r ++ s < timeOfDay u ++ t := by
  unfold timeOfDay
  simp only [List.append_assoc, List.cons_append]
  by_cases hh : r / 3600 < u / 3600
  · exact pad_append_lt hh (by omega)
  · rw [(by omega : r / 3600 = u / 3600)]
    apply List.append_left_lt
    rw [List.cons_lt_cons_iff]
    refine Or.inr ⟨rfl, ?_⟩
    by_cases hm : r / 60 % 60 < u / 60 % 60
    · exact pad_append_lt hm (by omega)
    · rw [(by omega : r / 60 % 60 = u / 60 % 60)]
      apply List.append_left_lt
      rw [List.cons_lt_cons_iff]
      exact Or.inr ⟨rfl, pad_append_lt (by omega) (by omega)⟩

/-- Digits left out are zeros, and what follows a fraction precedes the digits. -/
theorem groups_append_lt {k r u : Nat} {c : Char} {s : List Char} (hc : c < '0') (h : r < u) (hu : u < 1000 ^ k) :
    groups k r ++ c :: s < groups k u ++ c :: s := by
  induction k generalizing r u with
  | zero => simp at hu; omega
  | succ k ih =>
    have hpos : 0 < 1000 ^ k := Nat.pow_pos (by omega)
    have hfirst : u / 1000 ^ k < 10 ^ 3 := by
      rw [Nat.div_lt_iff_lt_mul hpos]
      rw [Nat.pow_succ] at hu
      omega
    simp only [groups]
    rw [if_neg (by omega : ¬ u = 0), List.append_assoc]
    by_cases hr : r = 0
    · rw [if_pos hr]
      exact lt_pad_append hc hfirst
    · rw [if_neg hr, List.append_assoc]
      rcases Nat.lt_or_eq_of_le (Nat.div_le_div_right (c := 1000 ^ k) (Nat.le_of_lt h)) with hlt | heq
      · exact pad_append_lt hlt hfirst
      · rw [heq]
        apply List.append_left_lt
        have hr' := Nat.div_add_mod r (1000 ^ k)
        have hu' := Nat.div_add_mod u (1000 ^ k)
        rw [heq] at hr'
        exact ih (by omega) (Nat.mod_lt _ hpos)

theorem fraction_append_lt {m n : Nat} {s : List Char} (h : m < n) (hn : n < 1000000000) :
    fraction m ++ '+' :: s < fraction n ++ '+' :: s := by
  unfold fraction
  rw [if_neg (by omega : ¬ n = 0)]
  by_cases hm : m = 0
  · rw [if_pos hm, List.nil_append, List.cons_append, List.cons_lt_cons_iff]
    exact Or.inl (by decide)
  · rw [if_neg hm, List.cons_append, List.cons_append, List.cons_lt_cons_iff]
    exact Or.inr ⟨rfl, groups_append_lt (by decide) h (by omega)⟩

theorem text_lt {m n : Nat} (h : m < n) (hn : n < 315569520000 * 1000000000) : text m < text n := by
  unfold text
  dsimp only
  by_cases hday : m / 1000000000 / 86400 < n / 1000000000 / 86400
  · exact date_append_lt hday (by omega)
  · rw [(by omega : m / 1000000000 / 86400 = n / 1000000000 / 86400)]
    apply List.append_left_lt
    rw [List.cons_lt_cons_iff]
    refine Or.inr ⟨rfl, ?_⟩
    by_cases hsec : m / 1000000000 % 86400 < n / 1000000000 % 86400
    · exact timeOfDay_append_lt hsec (by omega)
    · rw [(by omega : m / 1000000000 % 86400 = n / 1000000000 % 86400)]
      apply List.append_left_lt
      exact fraction_append_lt (by omega) (by omega)

theorem rfc3339_lt {t u : Int} (ht : InYears t) (hu : InYears u) (h : t < u) : rfc3339 t < rfc3339 u := by
  unfold InYears firstTime endTime at ht hu
  rw [String.lt_iff_toList_lt, rfc3339, rfc3339, String.toList_ofList, String.toList_ofList]
  apply text_lt
  · unfold firstTime
    omega
  · unfold firstTime
    omega

/-- Texts are ordered as the times they print. -/
theorem rfc3339_lt_iff {t u : Int} (ht : InYears t) (hu : InYears u) : rfc3339 t < rfc3339 u ↔ t < u := by
  constructor
  · intro h
    rcases lt_trichotomy t u with hlt | rfl | hgt
    · exact hlt
    · exact absurd h (lt_irrefl _)
    · exact absurd (rfc3339_lt hu ht hgt) (lt_asymm h)
  · exact rfc3339_lt ht hu

/-- A text that starts with a sign precedes the texts of these years. -/
theorem lt_rfc3339_of_sign {s : String} {t : Int} (hs : s.toList.head? = some '-') (ht : InYears t) :
    s < rfc3339 t := by
  unfold InYears firstTime endTime at ht
  obtain ⟨rest, hrest⟩ := List.head?_eq_some_iff.1 hs
  rw [String.lt_iff_toList_lt, rfc3339, String.toList_ofList, hrest]
  unfold text date
  dsimp only
  rw [List.append_assoc]
  apply lt_pad_append (by decide)
  apply yearOf_lt
  unfold firstTime
  omega

end Rfc3339
