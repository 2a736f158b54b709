import Mathlib.Tactic.IntervalCases
import Mathlib.Order.Nat
/-!
# The proleptic Gregorian calendar

Day 1 is 1 January of year 1. `ymd2ord` numbers the days, `ord2ymd` reads a
number back as a date; the numbering is strictly increasing and the two are
inverse on valid dates.
-/
namespace AetherNode.Lib.Calendar

def isLeap (y : Nat) : Bool := y % 4 = 0 ∧ (y % 100 ≠ 0 ∨ y % 400 = 0)

/-- 1 in a leap year, else 0. -/
def leapDay (y : Nat) : Nat := if isLeap y then 1 else 0

/-- Days before 1 January of year `y`. -/
def daysBeforeYear (y : Nat) : Nat := (y - 1) * 365 + (y - 1) / 4 - (y - 1) / 100 + (y - 1) / 400

def daysInMonth (y m : Nat) : Nat :=
  match m with
  | 2 => 28 + leapDay y
  | 4 | 6 | 9 | 11 => 30
  | _ => 31

/-- Days of year `y` before the first of month `m`. -/
def daysBeforeMonth (y m : Nat) : Nat :=
  match m with
  | 1 => 0
  | 2 => 31
  | 3 => 59 + leapDay y
  | 4 => 90 + leapDay y
  | 5 => 120 + leapDay y
  | 6 => 151 + leapDay y
  | 7 => 181 + leapDay y
  | 8 => 212 + leapDay y
  | 9 => 243 + leapDay y
  | 10 => 273 + leapDay y
  | 11 => 304 + leapDay y
  | _ => 334 + leapDay y

def ymd2ord (y m d : Nat) : Nat := daysBeforeYear y + daysBeforeMonth y m + d

/-- A date that exists. -/
def ValidDate (y m d : Nat) : Prop := 1 ≤ y ∧ 1 ≤ m ∧ m ≤ 12 ∧ 1 ≤ d ∧ d ≤ daysInMonth y m

instance (y m d : Nat) : Decidable (ValidDate y m d) := by unfold ValidDate; infer_instance

theorem leapDay_le (y : Nat) : leapDay y ≤ 1 := by unfold leapDay; split <;> omega

theorem daysInMonth_le (y m : Nat) : daysInMonth y m ≤ 31 := by
  have := leapDay_le y
  unfold daysInMonth
  split <;> omega

theorem leapDay_eq (y : Nat) :
    (y % 4 = 0 ∧ (y % 100 ≠ 0 ∨ y % 400 = 0) ∧ leapDay y = 1) ∨
    ((y % 4 ≠ 0 ∨ y % 100 = 0 ∧ y % 400 ≠ 0) ∧ leapDay y = 0) := by
  unfold leapDay isLeap
  simp only [decide_eq_true_eq]
  split <;> omega

theorem daysBeforeYear_succ {y : Nat} (h : 1 ≤ y) :
    daysBeforeYear (y + 1) = daysBeforeYear y + 365 + leapDay y := by
  obtain ⟨p, rfl⟩ := Nat.exists_eq_succ_of_ne_zero (show y ≠ 0 by omega)
  have h4 : (p + 1) / 4 = p / 4 + if 4 ∣ p + 1 then 1 else 0 := Nat.succ_div
  have h100 : (p + 1) / 100 = p / 100 + if 100 ∣ p + 1 then 1 else 0 := Nat.succ_div
  have h400 : (p + 1) / 400 = p / 400 + if 400 ∣ p + 1 then 1 else 0 := Nat.succ_div
  have hle : p / 100 ≤ p / 4 := Nat.div_le_div_left (by omega) (by omega)
  simp only [daysBeforeYear, Nat.succ_eq_add_one, Nat.add_sub_cancel, h4, h100, h400]
  rcases leapDay_eq (p + 1) with ⟨h1, h2, h3⟩ | ⟨h1, h3⟩ <;> rw [h3] <;> split_ifs <;> omega

/-- Whole cycles of 400, 100, 4 and 1 years. -/
theorem daysBeforeYear_cycles {a b c d : Nat} (hb : b ≤ 3) (hc : c ≤ 24) (hd : d ≤ 3) :
    daysBeforeYear (400 * a + 100 * b + 4 * c + d + 1) = 146097 * a + 36524 * b + 1461 * c + 365 * d := by
  have h4 : (400 * a + 100 * b + 4 * c + d) / 4 = 100 * a + 25 * b + c := by omega
  have h100 : (400 * a + 100 * b + 4 * c + d) / 100 = 4 * a + b := by omega
  have h400 : (400 * a + 100 * b + 4 * c + d) / 400 = a := by omega
  simp only [daysBeforeYear, Nat.add_sub_cancel, h4, h100, h400]
  omega

theorem leapDay_cycles {a b c d : Nat} (hb : b ≤ 3) (hc : c ≤ 24) (hd : d ≤ 3) :
    leapDay (400 * a + 100 * b + 4 * c + d + 1) = 1 ↔ d = 3 ∧ (c ≠ 24 ∨ b = 3) := by
  rcases leapDay_eq (400 * a + 100 * b + 4 * c + d + 1) with ⟨h1, h2, h3⟩ | ⟨h1, h3⟩ <;> rw [h3] <;> omega

theorem daysBeforeYear_mono {y y' : Nat} (h : 1 ≤ y) (hy : y < y') :
    daysBeforeYear y + 365 + leapDay y ≤ daysBeforeYear y' := by
  induction y', hy using Nat.le_induction with
  | base => exact (daysBeforeYear_succ h).ge
  | succ z hz ih =>
    rw [daysBeforeYear_succ (show 1 ≤ z by omega)]
    omega

theorem daysBeforeMonth_succ (y : Nat) {m : Nat} (h1 : 1 ≤ m) (h2 : m < 12) :
    daysBeforeMonth y (m + 1) = daysBeforeMonth y m + daysInMonth y m := by
  interval_cases m <;> simp only [daysBeforeMonth, daysInMonth] <;> omega

theorem daysBeforeMonth_mono (y : Nat) {m m' : Nat} (h1 : 1 ≤ m) (h : m < m') (h2 : m' ≤ 12) :
    daysBeforeMonth y m + daysInMonth y m ≤ daysBeforeMonth y m' := by
  induction m', h using Nat.le_induction with
  | base => exact (daysBeforeMonth_succ y h1 (by omega)).ge
  | succ k hk ih =>
    have := ih (by omega)
    rw [daysBeforeMonth_succ y (show 1 ≤ k by omega) (by omega)]
    omega

/-- A date lies in its year. -/
theorem day_in_year {y m d : Nat} (h : ValidDate y m d) :
    daysBeforeMonth y m + d ≤ 365 + leapDay y := by
  obtain ⟨-, h1, h2, -, h3⟩ := h
  rcases Nat.lt_or_eq_of_le h2 with hm | rfl
  · have := daysBeforeMonth_mono y h1 hm (le_refl 12)
    simp only [daysBeforeMonth] at this ⊢
    omega
  · simp only [daysBeforeMonth, daysInMonth] at h3 ⊢
    omega

/-- Later dates have larger numbers: the year decides, then the month, then the day. -/
theorem ymd2ord_lt {y m d y' m' d' : Nat} (h : ValidDate y m d) (h' : ValidDate y' m' d')
    (hlt : y < y' ∨ y = y' ∧ (m < m' ∨ m = m' ∧ d < d')) : ymd2ord y m d < ymd2ord y' m' d' := by
  have hd := day_in_year h
  obtain ⟨hy, hm1, hm2, hd1, hd2⟩ := h
  obtain ⟨-, -, hm2', hd1', -⟩ := h'
  unfold ymd2ord
  rcases hlt with hlt | ⟨rfl, hlt | ⟨rfl, hlt⟩⟩
  · have := daysBeforeYear_mono hy hlt
    omega
  · have := daysBeforeMonth_mono y hm1 hlt hm2'
    omega
  · omega

/-- A day before 1 January of year `y'` lies in an earlier year. -/
theorem year_lt {y m d y' : Nat} (h : ValidDate y m d) (hy' : 1 ≤ y') (hn : ymd2ord y m d ≤ daysBeforeYear y') :
    y < y' := by
  by_contra hge
  obtain ⟨-, -, -, hd, -⟩ := h
  unfold ymd2ord at hn
  rcases Nat.lt_or_eq_of_le (Nat.not_lt.1 hge) with hlt | rfl
  · have := daysBeforeYear_mono hy' hlt
    omega
  · omega

/-! ## Back from a day number -/

/-- The last month of year `y`, up to `k`, that starts on or before day `n` of the year (counted from 0). -/
def monthOf (y n : Nat) : Nat → Nat
  | 0 => 1
  | k + 1 => if daysBeforeMonth y (k + 1) ≤ n then k + 1 else monthOf y n k

theorem monthOf_spec (y n : Nat) {k : Nat} (hk : 1 ≤ k) :
    1 ≤ monthOf y n k ∧ monthOf y n k ≤ k ∧ daysBeforeMonth y (monthOf y n k) ≤ n ∧
      (monthOf y n k < k → n < daysBeforeMonth y (monthOf y n k + 1)) := by
  induction k, hk using Nat.le_induction with
  | base => simp [monthOf, daysBeforeMonth]
  | succ k hk ih =>
    rw [monthOf]
    split
    · refine ⟨by omega, le_refl _, by assumption, fun h => absurd h (lt_irrefl _)⟩
    · obtain ⟨h1, h2, h3, h4⟩ := ih
      refine ⟨h1, by omega, h3, ?_⟩
      intro _
      rcases Nat.lt_or_eq_of_le h2 with h | h
      · exact h4 h
      · rw [h]; omega

/-- The date of day number `n`, by cycles of 400, 100, 4 and 1 years. -/
def ord2ymd (n : Nat) : Nat × Nat × Nat :=
  let a := (n - 1) / 146097
  let n₁ := (n - 1) % 146097
  let b := n₁ / 36524
  let n₂ := n₁ % 36524
  let c := n₂ / 1461
  let n₃ := n₂ % 1461
  let d := n₃ / 365
  let year := 400 * a + 100 * b + 4 * c + d + 1
  if b = 4 ∨ d = 4 then (year - 1, 12, 31)
  else
    let month := monthOf year (n₃ % 365) 12
    (year, month, n₃ % 365 - daysBeforeMonth year month + 1)

/-- The day number that ends a leap year is its 31 December. -/
theorem ymd2ord_leap_end {y n : Nat} (hy : 1 ≤ y) (hl : leapDay y = 1) (hn : n = daysBeforeYear y + 366) :
    ValidDate y 12 31 ∧ ymd2ord y 12 31 = n := by
  refine ⟨⟨hy, by omega, le_refl 12, by omega, by simp [daysInMonth]⟩, ?_⟩
  simp only [ymd2ord, daysBeforeMonth, hl]
  omega

/-- Day `r` of a year (counted from 0), read by month. -/
theorem ymd2ord_monthOf {y n r : Nat} (hy : 1 ≤ y) (hr : r ≤ 364) (hn : n = daysBeforeYear y + r + 1) :
    ValidDate y (monthOf y r 12) (r - daysBeforeMonth y (monthOf y r 12) + 1) ∧
      ymd2ord y (monthOf y r 12) (r - daysBeforeMonth y (monthOf y r 12) + 1) = n := by
  obtain ⟨h1, h2, h3, h4⟩ := monthOf_spec y r (show 1 ≤ 12 by omega)
  generalize monthOf y r 12 = m at h1 h2 h3 h4 ⊢
  refine ⟨⟨hy, h1, h2, by omega, ?_⟩, by unfold ymd2ord; omega⟩
  rcases Nat.lt_or_eq_of_le h2 with hm | rfl
  · have := h4 hm
    rw [daysBeforeMonth_succ y h1 hm] at this
    omega
  · simp only [daysBeforeMonth, daysInMonth] at h3 ⊢
    omega

theorem ord2ymd_spec {n : Nat} (hn : 1 ≤ n) :
    ValidDate (ord2ymd n).1 (ord2ymd n).2.1 (ord2ymd n).2.2 ∧
      ymd2ord (ord2ymd n).1 (ord2ymd n).2.1 (ord2ymd n).2.2 = n := by
  unfold ord2ymd
  extract_lets a n₁ b n₂ c n₃ d year month
  have e0 : n = 146097 * a + n₁ + 1 := by omega
  have e1 : n₁ = 36524 * b + n₂ := (Nat.div_add_mod n₁ 36524).symm
  have e2 : n₂ = 1461 * c + n₃ := (Nat.div_add_mod n₂ 1461).symm
  have e3 : n₃ = 365 * d + n₃ % 365 := (Nat.div_add_mod n₃ 365).symm
  have l1 : n₁ < 146097 := Nat.mod_lt _ (by omega)
  have l2 : n₂ < 36524 := Nat.mod_lt _ (by omega)
  have l3 : n₃ < 1461 := Nat.mod_lt _ (by omega)
  have l4 : n₃ % 365 < 365 := Nat.mod_lt _ (by omega)
  have hyear : year = 400 * a + 100 * b + 4 * c + d + 1 := rfl
  clear_value a n₁ b n₂ c n₃ d year
  split
  · rename_i h
    have hd : d = 4 → c = 24 → b = 3 := by omega
    -- The last day of a 4-year or of the 400-year cycle.
    rcases Nat.lt_or_ge b 4 with hb | hb
    · have hd4 : d = 4 := by omega
      have hy : year - 1 = 400 * a + 100 * b + 4 * c + 3 + 1 := by omega
      rw [hy]
      refine ymd2ord_leap_end (by omega) ((leapDay_cycles (by omega) (by omega) (le_refl 3)).2 ⟨rfl, by omega⟩) ?_
      rw [daysBeforeYear_cycles (by omega) (by omega) (le_refl 3)]
      omega
    · have hy : year - 1 = 400 * a + 100 * 3 + 4 * 24 + 3 + 1 := by omega
      rw [hy]
      refine ymd2ord_leap_end (by omega) ((leapDay_cycles (le_refl 3) (le_refl 24) (le_refl 3)).2 ⟨rfl, by omega⟩) ?_
      rw [daysBeforeYear_cycles (le_refl 3) (le_refl 24) (le_refl 3)]
      omega
  · rename_i h
    apply ymd2ord_monthOf (by omega) (by omega)
    rw [hyear, daysBeforeYear_cycles (by omega) (by omega) (by omega)]
    omega

/-! ## ISO weeks -/

/-- The Monday of week 1 of ISO year `y`, the week with the year's first Thursday. -/
def isoweek1monday (y : Nat) : Nat :=
  let firstday := ymd2ord y 1 1
  let firstweekday := (firstday + 6) % 7
  if 3 < firstweekday then firstday - firstweekday + 7 else firstday - firstweekday

/-- ISO year `y` has a week 53: it starts on a Thursday, or is a leap year starting on a Wednesday. -/
def hasWeek53 (y : Nat) : Bool := ymd2ord y 1 1 % 7 = 4 ∨ ymd2ord y 1 1 % 7 = 3 ∧ isLeap y

/-- The date of a weekday (1 is Monday) of a week of an ISO year. -/
def isoweekToGregorian (y week day : Nat) : Option (Nat × Nat × Nat) :=
  if 1 ≤ y ∧ y ≤ 9999 ∧ 1 ≤ week ∧ (week < 53 ∨ week = 53 ∧ hasWeek53 y) ∧ 1 ≤ day ∧ day < 8 then
    some (ord2ymd (isoweek1monday y + ((week - 1) * 7 + (day - 1))))
  else none

example : ord2ymd (ymd2ord 2024 2 29) = (2024, 2, 29) := by decide

end AetherNode.Lib.Calendar
