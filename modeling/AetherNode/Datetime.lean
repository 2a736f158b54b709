import AetherNode.Lib.Text
import AetherNode.Lib.Calendar
import Mathlib.Order.Lex
import Mathlib.Data.Nat.Cast.Order.Ring
/-!
# UTC datetimes

Python's `datetime` in UTC: calendar fields of a moment of the years 1 to
9999, to the microsecond. `toMicros` counts microseconds from the first
moment; comparisons and `timedelta` arithmetic are on that count, and a sum
outside the years is Python's OverflowError. The stored texts of the relay are
`isoformat()` texts, so the file ends with what it rests on: the order of
these texts is the order of the moments.
-/
open AetherNode.Lib AetherNode.Lib.Calendar

namespace AetherNode

structure Datetime where
  year : Nat
  month : Nat
  day : Nat
  hour : Nat
  minute : Nat
  second : Nat
  microsecond : Nat
  date_valid : ValidDate year month day
  year_le : year ≤ 9999
  hour_lt : hour < 24
  minute_lt : minute < 60
  second_lt : second < 60
  microsecond_lt : microsecond < 1000000

namespace Datetime

/-- Fields that the `datetime(...)` constructor takes. -/
def InRange (y m d h mi s us : Nat) : Prop :=
  ValidDate y m d ∧ y ≤ 9999 ∧ h < 24 ∧ mi < 60 ∧ s < 60 ∧ us < 1000000

instance (y m d h mi s us : Nat) : Decidable (InRange y m d h mi s us) := by unfold InRange; infer_instance

def ofFields (y m d h mi s us : Nat) (hv : InRange y m d h mi s us) : Datetime :=
  ⟨y, m, d, h, mi, s, us, hv.1, hv.2.1, hv.2.2.1, hv.2.2.2.1, hv.2.2.2.2.1, hv.2.2.2.2.2⟩

/-- Microseconds of one day. -/
def dayMicros : Nat := 86400 * 1000000

/-- The first moment after year 9999. -/
def maxMicros : Nat := daysBeforeYear 10000 * dayMicros

/-- `toordinal()`. -/
def toordinal (t : Datetime) : Nat := ymd2ord t.year t.month t.day

/-- Microseconds since midnight. -/
def timeMicros (t : Datetime) : Nat := ((t.hour * 60 + t.minute) * 60 + t.second) * 1000000 + t.microsecond

/-- Microseconds since 1 January of year 1. -/
def toMicros (t : Datetime) : Nat := (t.toordinal - 1) * dayMicros + t.timeMicros

theorem timeMicros_lt (t : Datetime) : t.timeMicros < dayMicros := by
  have := t.hour_lt; have := t.minute_lt; have := t.second_lt; have := t.microsecond_lt
  unfold timeMicros dayMicros
  omega

theorem toordinal_pos (t : Datetime) : 1 ≤ t.toordinal := by
  have := t.date_valid.2.2.2.1
  unfold toordinal ymd2ord
  omega

/-- Some field decides: the first of year, ..., microsecond in which the two differ. -/
def FieldsLt (a b : Datetime) : Prop :=
  a.year < b.year ∨ a.year = b.year ∧ (a.month < b.month ∨ a.month = b.month ∧ (a.day < b.day ∨ a.day = b.day ∧
    (a.hour < b.hour ∨ a.hour = b.hour ∧ (a.minute < b.minute ∨ a.minute = b.minute ∧
      (a.second < b.second ∨ a.second = b.second ∧ a.microsecond < b.microsecond)))))

theorem toMicros_lt_of_fields {a b : Datetime} (h : FieldsLt a b) : a.toMicros < b.toMicros := by
  have ha := timeMicros_lt a
  have hb := toordinal_pos a
  by_cases hd : a.year = b.year ∧ a.month = b.month ∧ a.day = b.day
  · -- On one day the times decide.
    obtain ⟨h1, h2, h3⟩ := hd
    have ho : a.toordinal = b.toordinal := by simp only [toordinal, h1, h2, h3]
    have ht : a.timeMicros < b.timeMicros := by
      have := a.minute_lt; have := a.second_lt; have := a.microsecond_lt
      unfold FieldsLt at h
      unfold timeMicros
      omega
    unfold toMicros
    rw [ho]
    omega
  · -- What is left of the earlier day is shorter than a day.
    have ho : a.toordinal < b.toordinal := by
      apply ymd2ord_lt a.date_valid b.date_valid
      unfold FieldsLt at h
      omega
    have : (a.toordinal - 1) * dayMicros + dayMicros ≤ (b.toordinal - 1) * dayMicros := by
      rw [← Nat.succ_mul]
      exact Nat.mul_le_mul_right _ (by omega)
    unfold toMicros
    omega

theorem fields_trichotomy (a b : Datetime) : FieldsLt a b ∨ a = b ∨ FieldsLt b a := by
  rcases a with ⟨⟩
  rcases b with ⟨⟩
  simp only [FieldsLt, Datetime.mk.injEq]
  omega

theorem toMicros_lt_iff {a b : Datetime} : a.toMicros < b.toMicros ↔ FieldsLt a b := by
  refine ⟨?_, toMicros_lt_of_fields⟩
  intro h
  rcases fields_trichotomy a b with h' | rfl | h'
  · exact h'
  · exact absurd h (lt_irrefl _)
  · exact absurd h (toMicros_lt_of_fields h').not_gt

theorem toMicros_injective : Function.Injective toMicros := by
  intro a b h
  rcases fields_trichotomy a b with h' | h' | h'
  · exact absurd h (toMicros_lt_of_fields h').ne
  · exact h'
  · exact absurd h (toMicros_lt_of_fields h').ne'

instance : LinearOrder Datetime := LinearOrder.lift' toMicros toMicros_injective

theorem lt_def {a b : Datetime} : a < b ↔ a.toMicros < b.toMicros := Iff.rfl

theorem le_def {a b : Datetime} : a ≤ b ↔ a.toMicros ≤ b.toMicros := Iff.rfl

theorem toMicros_lt_max (t : Datetime) : t.toMicros < maxMicros := by
  have h1 := day_in_year t.date_valid
  have h2 := daysBeforeYear_mono t.date_valid.1 (show t.year < 10000 by have := t.year_le; omega)
  have h3 := timeMicros_lt t
  have h4 : (t.toordinal - 1) * dayMicros + dayMicros ≤ maxMicros := by
    rw [← Nat.succ_mul]
    apply Nat.mul_le_mul_right _
    unfold toordinal ymd2ord
    omega
  unfold toMicros
  omega

/-- The moment `n` microseconds after the first one. -/
def ofMicros (n : Nat) : Option Datetime :=
  if h : n < maxMicros then
    have hs := ord2ymd_spec (Nat.le_add_left 1 (n / dayMicros))
    some {
      year := (ord2ymd (n / dayMicros + 1)).1
      month := (ord2ymd (n / dayMicros + 1)).2.1
      day := (ord2ymd (n / dayMicros + 1)).2.2
      hour := n % dayMicros / 3600000000
      minute := n % dayMicros / 60000000 % 60
      second := n % dayMicros / 1000000 % 60
      microsecond := n % 1000000
      date_valid := hs.1
      year_le := by
        refine Nat.le_of_lt_succ (year_lt hs.1 (by omega) ?_)
        rw [hs.2]
        exact Nat.div_lt_of_lt_mul (by rw [Nat.mul_comm]; exact h)
      hour_lt := by
        have : n % dayMicros < dayMicros := Nat.mod_lt _ (by decide)
        unfold dayMicros at *
        omega
      minute_lt := Nat.mod_lt _ (by omega)
      second_lt := Nat.mod_lt _ (by omega)
      microsecond_lt := Nat.mod_lt _ (by omega) }
  else none

theorem ofMicros_toMicros {n : Nat} {t : Datetime} (h : ofMicros n = some t) : t.toMicros = n := by
  unfold ofMicros at h
  split at h
  · have hs := (ord2ymd_spec (Nat.le_add_left 1 (n / dayMicros))).2
    simp only [Option.some.injEq] at h
    subst h
    simp only [toMicros, toordinal, timeMicros, hs, Nat.add_sub_cancel]
    have hm : n % dayMicros < 86400000000 := Nat.mod_lt _ (by decide)
    have hu : n % 1000000 = n % dayMicros % 1000000 := (Nat.mod_mod_of_dvd n ⟨86400, rfl⟩).symm
    have hn := Nat.div_add_mod' n dayMicros
    omega
  · cases h

/-- `t + timedelta(seconds=δ)`; `none` is the OverflowError. -/
def addSeconds (t : Datetime) (δ : Int) : Option Datetime :=
  let n : Int := t.toMicros + δ * 1000000
  if 0 ≤ n then ofMicros n.toNat else none

theorem addSeconds_toMicros {t u : Datetime} {δ : Int} (h : t.addSeconds δ = some u) :
    (u.toMicros : Int) = t.toMicros + δ * 1000000 := by
  unfold addSeconds at h
  dsimp only at h
  split at h
  · rw [ofMicros_toMicros h]; omega
  · cases h

/-- A sum is a date when its count is one of the years 1 to 9999. -/
theorem addSeconds_isSome {t : Datetime} {δ : Int} : (t.addSeconds δ).isSome = true ↔
    0 ≤ (t.toMicros : Int) + δ * 1000000 ∧ (t.toMicros : Int) + δ * 1000000 < maxMicros := by
  unfold addSeconds ofMicros
  dsimp only
  split
  · rename_i hpos
    split
    · rename_i hmax
      simp only [Option.isSome_some, true_iff]
      omega
    · rename_i hmax
      simp only [Option.isSome_none, Bool.false_eq_true, false_iff]
      omega
  · rename_i hneg
    simp only [Option.isSome_none, Bool.false_eq_true, false_iff]
    omega

/-- A sum is the moment at that count, if there is one. -/
theorem addSeconds_eq_some {t u : Datetime} {δ : Int} :
    t.addSeconds δ = some u ↔ (u.toMicros : Int) = t.toMicros + δ * 1000000 := by
  refine ⟨addSeconds_toMicros, ?_⟩
  intro h
  have hmax := u.toMicros_lt_max
  obtain ⟨v, hv⟩ := Option.isSome_iff_exists.1 (addSeconds_isSome.2 ⟨by omega, by omega⟩ : (t.addSeconds δ).isSome = true)
  have huv : v.toMicros = u.toMicros := by
    have := addSeconds_toMicros hv
    omega
  rw [hv, toMicros_injective huv]

/-- Going back in time fails only before the first moment. -/
theorem addSeconds_back {t : Datetime} {δ : Int} (h : δ ≤ 0) :
    (t.addSeconds δ).isSome = true ↔ 0 ≤ (t.toMicros : Int) + δ * 1000000 := by
  have hmax := t.toMicros_lt_max
  rw [addSeconds_isSome]
  omega

/-- The day of a moment is what its count of whole days says. -/
theorem toordinal_eq (t : Datetime) : t.toordinal = t.toMicros / dayMicros + 1 := by
  have hpos := t.toordinal_pos
  have htime := t.timeMicros_lt
  have hday : t.toMicros / dayMicros = t.toordinal - 1 := by
    rw [toMicros, Nat.mul_comm, Nat.mul_add_div (by decide), Nat.div_eq_of_lt htime, Nat.add_zero]
  omega

/-- Moments of one day have one date. -/
theorem date_eq_of_toordinal {a b : Datetime} (h : a.toordinal = b.toordinal) :
    a.year = b.year ∧ a.month = b.month ∧ a.day = b.day := by
  by_contra hne
  have hlt : (a.year < b.year ∨ a.year = b.year ∧ (a.month < b.month ∨ a.month = b.month ∧ a.day < b.day)) ∨
      (b.year < a.year ∨ b.year = a.year ∧ (b.month < a.month ∨ b.month = a.month ∧ b.day < a.day)) := by omega
  rcases hlt with hlt | hlt
  · exact absurd h (ymd2ord_lt a.date_valid b.date_valid hlt).ne
  · exact absurd h (ymd2ord_lt b.date_valid a.date_valid hlt).ne'

/-! ## Texts -/

theorem lit_dash : lit "-" = [45] := by decide

theorem lit_T : lit "T" = [84] := by decide

theorem lit_colon : lit ":" = [58] := by decide

theorem lit_point : lit "." = [46] := by decide

theorem lit_utc : lit "+00:00" = [43, 48, 48, 58, 48, 48] := by decide

/-- `YYYY-MM-DD`, also what `strftime("%Y-%m-%d")` prints for four-digit years. -/
def dateText (t : Datetime) : Str := pad 4 t.year ++ lit "-" ++ pad 2 t.month ++ lit "-" ++ pad 2 t.day

/-- `HH:MM:SS`. -/
def timeText (t : Datetime) : Str := pad 2 t.hour ++ lit ":" ++ pad 2 t.minute ++ lit ":" ++ pad 2 t.second

/-- The fractional part, left out when it is zero. -/
def fractionText (t : Datetime) : Str := if t.microsecond = 0 then [] else lit "." ++ pad 6 t.microsecond

/-- `isoformat()` of a UTC datetime. -/
def isoformat (t : Datetime) : Str := t.dateText ++ lit "T" ++ t.timeText ++ t.fractionText ++ lit "+00:00"

theorem fraction_lt_iff {a b : Datetime} :
    a.fractionText ++ lit "+00:00" < b.fractionText ++ lit "+00:00" ↔ a.microsecond < b.microsecond := by
  have ha := a.microsecond_lt
  have hb := b.microsecond_lt
  unfold fractionText
  rw [lit_utc, lit_point]
  split <;> split
  · simp [*]
  · simp only [List.nil_append, List.cons_append, List.cons_lt_cons_iff]
    omega
  · simp only [List.nil_append, List.cons_append, List.cons_lt_cons_iff]
    omega
  · rw [List.append_assoc, List.append_assoc, prefix_lt_iff, pad_append_lt (by omega) (by omega)]
    simp

/-- `isoformat()` texts compare as the fields do. -/
theorem isoformat_lt_iff_fields {a b : Datetime} : a.isoformat < b.isoformat ↔ FieldsLt a b := by
  have ha := a.date_valid
  have hb := b.date_valid
  have ha' := daysInMonth_le a.year a.month
  have hb' := daysInMonth_le b.year b.month
  unfold ValidDate at ha hb
  have := a.year_le; have := a.hour_lt; have := a.minute_lt; have := a.second_lt
  have := b.year_le; have := b.hour_lt; have := b.minute_lt; have := b.second_lt
  simp only [isoformat, dateText, timeText, List.append_assoc]
  rw [pad_append_lt (by omega) (by omega), prefix_lt_iff, pad_append_lt (by omega) (by omega), prefix_lt_iff,
    pad_append_lt (by omega) (by omega), prefix_lt_iff, pad_append_lt (by omega) (by omega), prefix_lt_iff,
    pad_append_lt (by omega) (by omega), prefix_lt_iff, pad_append_lt (by omega) (by omega), fraction_lt_iff]
  rfl

/-- Text order is time order. -/
theorem isoformat_lt_iff {a b : Datetime} : a.isoformat < b.isoformat ↔ a < b := by
  rw [isoformat_lt_iff_fields, lt_def, toMicros_lt_iff]

theorem isoformat_le_iff {a b : Datetime} : a.isoformat ≤ b.isoformat ↔ a ≤ b := by
  rw [← not_lt, isoformat_lt_iff, not_lt]

theorem encodable_isoformat (t : Datetime) : encodable t.isoformat = true := by
  have hf : encodable t.fractionText = true := by
    unfold fractionText
    split
    · rfl
    · rw [encodable_append, encodable_pad]
      rfl
  simp only [isoformat, dateText, timeText, encodable_append, encodable_pad, hf, Bool.true_and, Bool.and_true]
  rfl

theorem isoformat_injective : Function.Injective isoformat := fun _ _ h =>
  le_antisymm (isoformat_le_iff.1 h.le) (isoformat_le_iff.1 h.ge)

end Datetime

end AetherNode
