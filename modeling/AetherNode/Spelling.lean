import AetherNode.Fromisoformat
import AetherNode.Lib.Marks
/-!
# Where a spelling sorts

`fromisoformat` reads many texts as one moment, and texts are compared
character by character. `SortsAt` says which spellings sort among `isoformat()`
texts where their moment does. The proof takes the text apart from the left,
as it was read: year, month, day, separator, hours, and so on. At each step the
moments that agree with it so far are the ones that are left to compare.
-/
open AetherNode.Lib AetherNode.Lib.Calendar AetherNode.Fromisoformat

namespace AetherNode

namespace Datetime

/-! ## An `isoformat` text from each of its fields on -/

def fractionOn (t : Datetime) : Str := t.fractionText ++ lit "+00:00"

def secondOn (t : Datetime) : Str := pad 2 t.second ++ t.fractionOn

def minuteOn (t : Datetime) : Str := pad 2 t.minute ++ 58 :: t.secondOn

def hourOn (t : Datetime) : Str := pad 2 t.hour ++ 58 :: t.minuteOn

def dayOn (t : Datetime) : Str := pad 2 t.day ++ 84 :: t.hourOn

def monthOn (t : Datetime) : Str := pad 2 t.month ++ 45 :: t.dayOn

theorem isoformat_eq (t : Datetime) : t.isoformat = pad 4 t.year ++ 45 :: t.monthOn := by
  simp only [isoformat, dateText, timeText, monthOn, dayOn, hourOn, minuteOn, secondOn, fractionOn, lit_dash, lit_T,
    lit_colon, List.append_assoc, List.cons_append, List.nil_append]

theorem dateText_append (t : Datetime) (r : Str) :
    t.dateText ++ r = pad 4 t.year ++ 45 :: (pad 2 t.month ++ 45 :: (pad 2 t.day ++ r)) := by
  simp only [dateText, lit_dash, List.append_assoc, List.cons_append, List.nil_append]

/-- With a fraction. -/
def pointOn (t : Datetime) : Str := 46 :: (pad 6 t.microsecond ++ lit "+00:00")

theorem fractionOn_zero {t : Datetime} (h : t.microsecond = 0) : t.fractionOn = lit "+00:00" := by
  simp [fractionOn, fractionText, h]

theorem fractionOn_pos {t : Datetime} (h : t.microsecond ≠ 0) : t.fractionOn = t.pointOn := by
  simp [fractionOn, fractionText, h, pointOn, lit_point]

/-! ## Moments that agree with `e` up to a field -/

variable (e : Datetime)

def SharesYear (x : Datetime) : Prop := True ∧ x.year = e.year

def SharesMonth (x : Datetime) : Prop := SharesYear e x ∧ x.month = e.month

def SharesDay (x : Datetime) : Prop := SharesMonth e x ∧ x.day = e.day

def SharesHour (x : Datetime) : Prop := SharesDay e x ∧ x.hour = e.hour

def SharesMinute (x : Datetime) : Prop := SharesHour e x ∧ x.minute = e.minute

def SharesSecond (x : Datetime) : Prop := SharesMinute e x ∧ x.second = e.second

variable {e}

/-- The first field in which an earlier moment differs is smaller. -/
theorem fields_of_lt {x : Datetime} (h : x < e) :
    x.year < e.year ∨ x.year = e.year ∧ (x.month < e.month ∨ x.month = e.month ∧ (x.day < e.day ∨ x.day = e.day ∧
      (x.hour < e.hour ∨ x.hour = e.hour ∧ (x.minute < e.minute ∨ x.minute = e.minute ∧
        (x.second < e.second ∨ x.second = e.second ∧ x.microsecond < e.microsecond))))) :=
  toMicros_lt_iff.1 h

/-- `e` with another time of day. -/
def atTime (e : Datetime) (h mi s us : Nat) (hh : h < 24) (hmi : mi < 60) (hs : s < 60) (hus : us < 1000000) : Datetime :=
  { e with hour := h, minute := mi, second := s, microsecond := us,
           hour_lt := hh, minute_lt := hmi, second_lt := hs, microsecond_lt := hus }

theorem atTime_lt {h mi s us : Nat} {hh : h < 24} {hmi : mi < 60} {hs : s < 60} {hus : us < 1000000}
    (hlt : h < e.hour ∨ h = e.hour ∧ (mi < e.minute ∨ mi = e.minute ∧ (s < e.second ∨ s = e.second ∧ us < e.microsecond))) :
    e.atTime h mi s us hh hmi hs hus < e := by
  apply toMicros_lt_of_fields
  exact .inr ⟨rfl, .inr ⟨rfl, .inr ⟨rfl, hlt⟩⟩⟩

/-- New Year of a year. -/
def newYear {y : Nat} (h : 1 ≤ y) (hle : y ≤ 9999) : Datetime :=
  ⟨y, 1, 1, 0, 0, 0, 0, ⟨h, by decide, by decide, by decide, by simp [daysInMonth]⟩, hle, by decide, by decide, by decide,
    by decide⟩

/-- Nothing earlier shares the year of a New Year, and nothing else has this. -/
theorem none_sharesYear : (∀ x, x < e → ¬ SharesYear e x) ↔
    e.month = 1 ∧ e.day = 1 ∧ e.hour = 0 ∧ e.minute = 0 ∧ e.second = 0 ∧ e.microsecond = 0 := by
  have hm := e.date_valid.2.1
  have hd := e.date_valid.2.2.2.1
  constructor
  · intro h
    by_contra hne
    have hfields : (1 < e.month ∨ 1 = e.month ∧ (1 < e.day ∨ 1 = e.day ∧ (0 < e.hour ∨ 0 = e.hour ∧
        (0 < e.minute ∨ 0 = e.minute ∧ (0 < e.second ∨ 0 = e.second ∧ 0 < e.microsecond))))) := by omega
    exact h (newYear e.date_valid.1 e.year_le) (toMicros_lt_of_fields (.inr ⟨rfl, hfields⟩)) ⟨trivial, rfl⟩
  · rintro h x hx ⟨-, hy⟩
    have hxm := x.date_valid.2.1
    have hxd := x.date_valid.2.2.2.1
    have := fields_of_lt hx
    omega

theorem none_sharesDay : (∀ x, x < e → ¬ SharesDay e x) ↔
    e.hour = 0 ∧ e.minute = 0 ∧ e.second = 0 ∧ e.microsecond = 0 := by
  constructor
  · intro h
    by_contra hne
    exact h (e.atTime 0 0 0 0 (by omega) (by omega) (by omega) (by omega))
      (atTime_lt (by omega)) ⟨⟨⟨trivial, rfl⟩, rfl⟩, rfl⟩
  · rintro h x hx ⟨⟨⟨-, hy⟩, hm⟩, hd⟩
    have := fields_of_lt hx
    omega

theorem none_sharesHour : (∀ x, x < e → ¬ SharesHour e x) ↔ e.minute = 0 ∧ e.second = 0 ∧ e.microsecond = 0 := by
  constructor
  · intro h
    by_contra hne
    exact h (e.atTime e.hour 0 0 0 e.hour_lt (by omega) (by omega) (by omega))
      (atTime_lt (by omega)) ⟨⟨⟨⟨trivial, rfl⟩, rfl⟩, rfl⟩, rfl⟩
  · rintro h x hx ⟨⟨⟨⟨-, hy⟩, hm⟩, hd⟩, hh⟩
    have := fields_of_lt hx
    omega

theorem none_sharesMinute : (∀ x, x < e → ¬ SharesMinute e x) ↔ e.second = 0 ∧ e.microsecond = 0 := by
  constructor
  · intro h
    by_contra hne
    exact h (e.atTime e.hour e.minute 0 0 e.hour_lt e.minute_lt (by omega) (by omega))
      (atTime_lt (by omega)) ⟨⟨⟨⟨⟨trivial, rfl⟩, rfl⟩, rfl⟩, rfl⟩, rfl⟩
  · rintro h x hx ⟨⟨⟨⟨⟨-, hy⟩, hm⟩, hd⟩, hh⟩, hmi⟩
    have := fields_of_lt hx
    omega

theorem microsecond_lt_of_shares {x : Datetime} (hx : x < e) (hs : SharesSecond e x) : x.microsecond < e.microsecond := by
  obtain ⟨⟨⟨⟨⟨⟨-, hy⟩, hm⟩, hd⟩, hh⟩, hmi⟩, hse⟩ := hs
  have := fields_of_lt hx
  omega

/-- Below the first microsecond of a second nothing of it has a fraction. -/
theorem none_sharesSecond (h : e.microsecond ≠ 0) :
    (∀ x, x < e → ¬ (SharesSecond e x ∧ x.microsecond ≠ 0)) ↔ e.microsecond = 1 := by
  constructor
  · intro hnone
    by_contra hne
    exact hnone (e.atTime e.hour e.minute e.second 1 e.hour_lt e.minute_lt e.second_lt (by omega)) (atTime_lt (by omega))
      ⟨⟨⟨⟨⟨⟨⟨trivial, rfl⟩, rfl⟩, rfl⟩, rfl⟩, rfl⟩, rfl⟩, Nat.one_ne_zero⟩
  · rintro h1 x hx ⟨hs, hne⟩
    have := microsecond_lt_of_shares hx hs
    omega

end Datetime

/-! ## Spellings that sort at their moment -/

/-- `rest` follows the seconds. -/
def FractionSorts (e : Datetime) (rest : Str) : Prop :=
  if e.microsecond = 0 then rest ≤ lit "+00:00"
  else if at_ rest 0 = 44 then e.microsecond = 1
  else if at_ rest 0 = 46 then
    let digits := ((rest.drop 1).takeWhile isDigit).length
    if digits < 6 then at_ rest (1 + digits) ≠ 90 else rest.drop 7 ≤ lit "+00:00"
  else False

/-- `t` follows the separator. -/
def ClockSorts (e : Datetime) (t : Str) : Prop :=
  if at_ t 2 ≠ 58 then at_ t 2 < 58 ∧ e.minute = 0 ∧ e.second = 0 ∧ e.microsecond = 0
  else if isDigit (at_ t 3) = false then at_ t 3 ≠ 90
  else if at_ t 5 ≠ 58 then at_ t 5 < 58 ∧ e.second = 0 ∧ e.microsecond = 0
  else if isDigit (at_ t 6) = false then at_ t 6 ≠ 90
  else FractionSorts e (t.drop 8)

/-- `s`, which reads as `e`, sorts where the `isoformat()` text of `e` does. -/
def SortsAt (s : Str) (e : Datetime) : Prop :=
  if at_ s 4 = 45 ∧ at_ s 5 ≠ 87 then
    -- A dashed calendar date.
    if at_ s 10 = 84 then ClockSorts e (s.drop 11)
    else at_ s 10 < 84 ∧ e.hour = 0 ∧ e.minute = 0 ∧ e.second = 0 ∧ e.microsecond = 0
  else
    -- A date without dashes, or of a week: it may still sort at the New Year after its own year.
    s.take 4 = pad 4 (e.year - 1) ∧
      e.month = 1 ∧ e.day = 1 ∧ e.hour = 0 ∧ e.minute = 0 ∧ e.second = 0 ∧ e.microsecond = 0

instance (e : Datetime) (rest : Str) : Decidable (FractionSorts e rest) := by unfold FractionSorts; infer_instance

instance (e : Datetime) (t : Str) : Decidable (ClockSorts e t) := by unfold ClockSorts; infer_instance

instance (s : Str) (e : Datetime) : Decidable (SortsAt s e) := by unfold SortsAt; infer_instance

namespace Datetime
variable {e : Datetime}

theorem marks_year (r : Str) : Marks isoformat (fun _ => True) e (pad 4 e.year ++ r) ↔
    Marks (fun x => 45 :: x.monthOn) (SharesYear e) e r := by
  apply marks_pad isoformat_eq (fun x => by have := x.year_le; omega)
  intro x hx _
  have := fields_of_lt hx
  omega

theorem marks_month (r : Str) : Marks monthOn (SharesYear e) e (pad 2 e.month ++ r) ↔
    Marks (fun x => 45 :: x.dayOn) (SharesMonth e) e r := by
  apply marks_pad (fun _ => rfl) (fun x => by have := x.month_le; omega)
  rintro x hx ⟨-, hy⟩
  have := fields_of_lt hx
  omega

theorem marks_day (r : Str) : Marks dayOn (SharesMonth e) e (pad 2 e.day ++ r) ↔
    Marks (fun x => 84 :: x.hourOn) (SharesDay e) e r := by
  apply marks_pad (fun _ => rfl) (fun x => by have := x.day_lt; omega)
  rintro x hx ⟨⟨-, hy⟩, hm⟩
  have := fields_of_lt hx
  omega

theorem marks_hour (r : Str) : Marks hourOn (SharesDay e) e (pad 2 e.hour ++ r) ↔
    Marks (fun x => 58 :: x.minuteOn) (SharesHour e) e r := by
  apply marks_pad (fun _ => rfl) (fun x => by have := x.hour_lt; omega)
  rintro x hx ⟨⟨⟨-, hy⟩, hm⟩, hd⟩
  have := fields_of_lt hx
  omega

theorem marks_minute (r : Str) : Marks minuteOn (SharesHour e) e (pad 2 e.minute ++ r) ↔
    Marks (fun x => 58 :: x.secondOn) (SharesMinute e) e r := by
  apply marks_pad (fun _ => rfl) (fun x => by have := x.minute_lt; omega)
  rintro x hx ⟨⟨⟨⟨-, hy⟩, hm⟩, hd⟩, hh⟩
  have := fields_of_lt hx
  omega

theorem marks_second (r : Str) : Marks secondOn (SharesMinute e) e (pad 2 e.second ++ r) ↔
    Marks fractionOn (SharesSecond e) e r := by
  apply marks_pad (fun _ => rfl) (fun x => by have := x.second_lt; omega)
  rintro x hx ⟨⟨⟨⟨⟨-, hy⟩, hm⟩, hd⟩, hh⟩, hmi⟩
  have := fields_of_lt hx
  omega

/-! A block and the character that follows it in every text. -/

theorem marks_year_dash (r : Str) : Marks isoformat (fun _ => True) e (pad 4 e.year ++ 45 :: r) ↔
    Marks monthOn (SharesYear e) e r := by
  rw [marks_year]
  exact marks_cons fun _ => rfl

theorem marks_month_dash (r : Str) : Marks monthOn (SharesYear e) e (pad 2 e.month ++ 45 :: r) ↔
    Marks dayOn (SharesMonth e) e r := by
  rw [marks_month]
  exact marks_cons fun _ => rfl

theorem marks_hour_colon (r : Str) : Marks hourOn (SharesDay e) e (pad 2 e.hour ++ 58 :: r) ↔
    Marks minuteOn (SharesHour e) e r := by
  rw [marks_hour]
  exact marks_cons fun _ => rfl

theorem marks_minute_colon (r : Str) : Marks minuteOn (SharesHour e) e (pad 2 e.minute ++ 58 :: r) ↔
    Marks secondOn (SharesMinute e) e r := by
  rw [marks_minute]
  exact marks_cons fun _ => rfl

theorem marks_microsecond {S : Datetime → Prop} (hS : ∀ x, S x → SharesSecond e x) (r : Str) :
    Marks (fun x => pad 6 x.microsecond ++ lit "+00:00") S e (pad 6 e.microsecond ++ r) ↔ r ≤ lit "+00:00" := by
  calc Marks (fun x => pad 6 x.microsecond ++ lit "+00:00") S e (pad 6 e.microsecond ++ r)
      ↔ Marks (fun _ => lit "+00:00") (fun x => S x ∧ x.microsecond = e.microsecond) e r :=
        marks_pad (fun _ => rfl) (fun x => by have := x.microsecond_lt; omega)
          fun x hx hs => (microsecond_lt_of_shares hx (hS x hs)).le
    _ ↔ r ≤ lit "+00:00" := marks_none fun x hx hs => (microsecond_lt_of_shares hx (hS x hs.1)).ne hs.2

/-- A character that starts an offset is below every digit, unless it is `Z`. -/
theorem offset_le_digit {z d : Nat} {r r' : Str} (hz : startsOffset z = true) (hd : 48 ≤ d ∧ d ≤ 57) :
    z :: r ≤ d :: r' ↔ z ≠ 90 := by
  simp only [startsOffset, Bool.or_eq_true, decide_eq_true_eq] at hz
  rw [← not_lt, List.cons_lt_cons_iff]
  omega

theorem offset_le_pad {z w n : Nat} {r r' : Str} (hz : startsOffset z = true) :
    z :: r ≤ pad (w + 1) n ++ r' ↔ z ≠ 90 := by
  obtain ⟨d, rest, hpad, hd⟩ := pad_cons w n
  rw [hpad, List.cons_append]
  exact offset_le_digit hz hd

theorem isDigit_offset {z : Nat} (hz : startsOffset z = true) : isDigit z = false := by
  simp only [startsOffset, Bool.or_eq_true, decide_eq_true_eq] at hz
  simp only [isDigit, Bool.and_eq_false_iff, decide_eq_false_iff_not]
  omega

theorem takeWhile_pad (w n : Nat) (r : Str) :
    (pad w n ++ r).takeWhile isDigit = pad w n ++ r.takeWhile isDigit := by
  refine List.takeWhile_append_of_pos (List.all_eq_true.1 (all_pad (?_) w n))
  intro d hd
  simp only [isDigit, Bool.and_eq_true, decide_eq_true_eq]
  omega

/-- Fewer than six digits of a fraction: they are the first of its six. -/
theorem marks_short {S : Datetime → Prop} (hS : ∀ x, S x → SharesSecond e x) {k v z : Nat} {rest : Str} (hk : k < 6)
    (hus : e.microsecond = v * 10 ^ (6 - k)) (hz : startsOffset z = true) :
    Marks (fun x => pad 6 x.microsecond ++ lit "+00:00") S e (pad k v ++ z :: rest) ↔ z ≠ 90 := by
  have hsix : ∀ n, pad 6 n = pad k (n / 10 ^ (6 - k)) ++ pad (6 - k) n := fun n => by
    rw [← pad_add, Nat.add_sub_cancel' hk.le]
  have hpow : 10 ^ k * 10 ^ (6 - k) = 1000000 := by rw [← pow_add, Nat.add_sub_cancel' hk.le]; rfl
  have hpos : 0 < 10 ^ (6 - k) := Nat.pow_pos (by omega)
  have hdiv : e.microsecond / 10 ^ (6 - k) = v := by rw [hus, Nat.mul_div_cancel _ hpos]
  have hlt : ∀ x, x < e → S x → x.microsecond / 10 ^ (6 - k) < v := fun x hx hs => by
    rw [Nat.div_lt_iff_lt_mul hpos, ← hus]
    exact microsecond_lt_of_shares hx (hS x hs)
  have htext : ∀ x : Datetime, pad 6 x.microsecond ++ lit "+00:00" =
      pad k (x.microsecond / 10 ^ (6 - k)) ++ (pad (6 - k) x.microsecond ++ lit "+00:00") := fun x => by
    rw [hsix, List.append_assoc]
  have hfirst : ∀ x : Datetime, x.microsecond / 10 ^ (6 - k) < 10 ^ k := fun x => by
    rw [Nat.div_lt_iff_lt_mul hpos, hpow]
    exact x.microsecond_lt
  have hmono : ∀ x, x < e → S x → x.microsecond / 10 ^ (6 - k) ≤ e.microsecond / 10 ^ (6 - k) := fun x hx hs => by
    rw [hdiv]
    exact (hlt x hx hs).le
  have hpad := marks_pad (r := z :: rest) htext hfirst hmono
  rw [hdiv] at hpad
  rw [hpad, marks_none fun x hx hs => (hlt x hx hs.1).ne hs.2]
  obtain ⟨j, hj⟩ : ∃ j, 6 - k = j + 1 := ⟨5 - k, by omega⟩
  rw [hj]
  exact offset_le_pad hz

/-- Only texts with a fraction are left to compare with one. -/
theorem marks_point (h : e.microsecond ≠ 0) {c : Nat} (hc : 43 < c) (r : Str) :
    Marks fractionOn (SharesSecond e) e (c :: r) ↔
      Marks pointOn (fun x => SharesSecond e x ∧ x.microsecond ≠ 0) e (c :: r) := by
  constructor
  · intro hm
    refine ⟨fractionOn_pos h ▸ hm.le, ?_⟩
    rintro x hx ⟨hs, hne⟩
    exact fractionOn_pos hne ▸ hm.lt x hx hs
  · intro hm
    refine ⟨(fractionOn_pos h).symm ▸ hm.le, ?_⟩
    intro x hx hs
    by_cases hne : x.microsecond = 0
    · rw [fractionOn_zero hne, lit_utc]
      exact List.cons_lt_cons_iff.2 (.inl hc)
    · rw [fractionOn_pos hne]
      exact hm.lt x hx ⟨hs, hne⟩

theorem marks_fraction {rest : Str} (hf : FractionText e.microsecond rest) :
    Marks fractionOn (SharesSecond e) e rest ↔ FractionSorts e rest := by
  unfold FractionSorts
  by_cases h0 : e.microsecond = 0
  · rw [if_pos h0, marks_none, fractionOn_zero h0]
    intro x hx hs
    have := microsecond_lt_of_shares hx hs
    omega
  rw [if_neg h0]
  -- ',' is below '.', so nothing earlier in the second may have a fraction.
  have hcomma : ∀ r, Marks fractionOn (SharesSecond e) e (44 :: r) ↔ e.microsecond = 1 := fun r => by
    rw [marks_point h0 (by omega), ← none_sharesSecond h0]
    exact marks_cons_lt (fun _ => rfl) (by omega)
  have hpoint : ∀ r, Marks fractionOn (SharesSecond e) e (46 :: r) ↔
      Marks (fun x => pad 6 x.microsecond ++ lit "+00:00") (fun x => SharesSecond e x ∧ x.microsecond ≠ 0) e r := fun r => by
    rw [marks_point h0 (by omega)]
    exact marks_cons fun _ => rfl
  cases hf with
  | zero hus => exact absurd hus h0
  | @colon r =>
    -- ':' is above the '.' of a fraction.
    have hfalse : ¬ Marks fractionOn (SharesSecond e) e (58 :: r) := by
      rw [marks_point h0 (by omega)]
      exact not_marks_cons_gt (fun _ => rfl) (by omega)
    simp [hfalse, at_]
  | @short c k v z r hc hk hus hz =>
    rcases hc with rfl | rfl
    · rw [hpoint, marks_short (fun _ h => h.1) hk hus hz]
      have hdigits : (((46 :: (pad k v ++ z :: r)).drop 1).takeWhile isDigit).length = k := by
        rw [List.drop_one, List.tail_cons, takeWhile_pad, List.takeWhile_cons_of_neg (by simp [isDigit_offset hz]),
          List.append_nil, pad_length]
      have hz' : at_ (46 :: (pad k v ++ z :: r)) (1 + k) = z := by
        rw [at_, List.getD_eq_getElem?_getD, Nat.add_comm, List.getElem?_cons_succ,
          List.getElem?_append_right (by simp), pad_length, Nat.sub_self]
        rfl
      have h46 : at_ (46 :: (pad k v ++ z :: r)) 0 = 46 := rfl
      simp only [h46, hdigits, hz', hk, if_true, if_neg (show ¬ (46 : Nat) = 44 by omega)]
    · rw [hcomma]
      simp [at_]
  | @long c r hc =>
    rcases hc with rfl | rfl
    · rw [hpoint, marks_microsecond fun _ h => h.1]
      have hdigits : ¬ (((46 :: (pad 6 e.microsecond ++ r)).drop 1).takeWhile isDigit).length < 6 := by
        rw [List.drop_one, List.tail_cons, takeWhile_pad, List.length_append, pad_length]
        omega
      have h46 : at_ (46 :: (pad 6 e.microsecond ++ r)) 0 = 46 := rfl
      have hdrop : (46 :: (pad 6 e.microsecond ++ r)).drop 7 = r := rfl
      simp only [h46, if_neg hdigits, hdrop, if_true, if_neg (show ¬ (46 : Nat) = 44 by omega)]
    · rw [hcomma]
      simp [at_]

theorem isDigit_pad (w n : Nat) (r : Str) : isDigit (at_ (pad (w + 1) n ++ r) 0) = true := by
  obtain ⟨d, rest, hpad, hd⟩ := pad_cons w n
  rw [hpad]
  simp only [List.cons_append, at_, List.getD_cons_zero, isDigit, Bool.and_eq_true, decide_eq_true_eq]
  exact hd

theorem marks_clock {t : Str} (ht : ClockText e.hour e.minute e.second e.microsecond t) :
    Marks hourOn (SharesDay e) e t ↔ ClockSorts e t := by
  unfold ClockSorts
  cases ht with
  | @hours c r hc =>
    have h2 : at_ (pad 2 e.hour ++ c :: r) 2 = c := rfl
    rw [marks_hour, h2, if_pos hc]
    rw [marks_cons_ne (fun _ => rfl) hc, none_sharesHour]
  | @hoursColon z r hz hm hs hus =>
    have h2 : at_ (pad 2 e.hour ++ 58 :: z :: r) 2 = 58 := rfl
    have h3 : at_ (pad 2 e.hour ++ 58 :: z :: r) 3 = z := rfl
    rw [h2, h3, if_neg (by simp), if_pos (isDigit_offset hz)]
    calc Marks hourOn (SharesDay e) e (pad 2 e.hour ++ 58 :: z :: r)
        ↔ Marks minuteOn (SharesHour e) e (z :: r) := marks_hour_colon _
      _ ↔ z :: r ≤ e.minuteOn := marks_none (none_sharesHour.2 ⟨hm, hs, hus⟩)
      _ ↔ z ≠ 90 := offset_le_pad hz
  | @minutes c r hc =>
    have h2 : at_ (pad 2 e.hour ++ 58 :: (pad 2 e.minute ++ c :: r)) 2 = 58 := rfl
    have h3 : isDigit (at_ (pad 2 e.hour ++ 58 :: (pad 2 e.minute ++ c :: r)) 3) = true :=
      isDigit_pad 1 e.minute (c :: r)
    have h5 : at_ (pad 2 e.hour ++ 58 :: (pad 2 e.minute ++ c :: r)) 5 = c := rfl
    rw [h2, h3, h5, if_neg (by simp), if_neg (by simp), if_pos hc]
    calc Marks hourOn (SharesDay e) e (pad 2 e.hour ++ 58 :: (pad 2 e.minute ++ c :: r))
        ↔ Marks minuteOn (SharesHour e) e (pad 2 e.minute ++ c :: r) := marks_hour_colon _
      _ ↔ Marks (fun x => 58 :: x.secondOn) (SharesMinute e) e (c :: r) := marks_minute _
      _ ↔ c < 58 ∧ e.second = 0 ∧ e.microsecond = 0 := ?_
    rw [marks_cons_ne (fun _ => rfl) hc, none_sharesMinute]
  | @minutesColon z r hz hs hus =>
    have h2 : at_ (pad 2 e.hour ++ 58 :: (pad 2 e.minute ++ 58 :: z :: r)) 2 = 58 := rfl
    have h3 : isDigit (at_ (pad 2 e.hour ++ 58 :: (pad 2 e.minute ++ 58 :: z :: r)) 3) = true :=
      isDigit_pad 1 e.minute (58 :: z :: r)
    have h5 : at_ (pad 2 e.hour ++ 58 :: (pad 2 e.minute ++ 58 :: z :: r)) 5 = 58 := rfl
    have h6 : at_ (pad 2 e.hour ++ 58 :: (pad 2 e.minute ++ 58 :: z :: r)) 6 = z := rfl
    rw [h2, h3, h5, h6, if_neg (by simp), if_neg (by simp), if_neg (by simp), if_pos (isDigit_offset hz)]
    calc Marks hourOn (SharesDay e) e (pad 2 e.hour ++ 58 :: (pad 2 e.minute ++ 58 :: z :: r))
        ↔ Marks minuteOn (SharesHour e) e (pad 2 e.minute ++ 58 :: z :: r) := marks_hour_colon _
      _ ↔ Marks secondOn (SharesMinute e) e (z :: r) := marks_minute_colon _
      _ ↔ z :: r ≤ e.secondOn := marks_none (none_sharesMinute.2 ⟨hs, hus⟩)
      _ ↔ z ≠ 90 := offset_le_pad hz
  | @seconds r hf =>
    have h2 : at_ (pad 2 e.hour ++ 58 :: (pad 2 e.minute ++ 58 :: (pad 2 e.second ++ r))) 2 = 58 := rfl
    have h3 : isDigit (at_ (pad 2 e.hour ++ 58 :: (pad 2 e.minute ++ 58 :: (pad 2 e.second ++ r))) 3) = true :=
      isDigit_pad 1 e.minute (58 :: (pad 2 e.second ++ r))
    have h5 : at_ (pad 2 e.hour ++ 58 :: (pad 2 e.minute ++ 58 :: (pad 2 e.second ++ r))) 5 = 58 := rfl
    have h6 : isDigit (at_ (pad 2 e.hour ++ 58 :: (pad 2 e.minute ++ 58 :: (pad 2 e.second ++ r))) 6) = true :=
      isDigit_pad 1 e.second r
    have hdrop : (pad 2 e.hour ++ 58 :: (pad 2 e.minute ++ 58 :: (pad 2 e.second ++ r))).drop 8 = r := rfl
    rw [h2, h3, h5, h6, hdrop, if_neg (by simp), if_neg (by simp), if_neg (by simp), if_neg (by simp)]
    calc Marks hourOn (SharesDay e) e (pad 2 e.hour ++ 58 :: (pad 2 e.minute ++ 58 :: (pad 2 e.second ++ r)))
        ↔ Marks minuteOn (SharesHour e) e (pad 2 e.minute ++ 58 :: (pad 2 e.second ++ r)) := marks_hour_colon _
      _ ↔ Marks secondOn (SharesMinute e) e (pad 2 e.second ++ r) := marks_minute_colon _
      _ ↔ Marks fractionOn (SharesSecond e) e r := marks_second _
      _ ↔ FractionSorts e r := marks_fraction hf

/-- A dashed calendar date, a separator and a time. -/
theorem marks_dashed {c : Nat} {t : Str} (ht : ClockText e.hour e.minute e.second e.microsecond t) :
    Marks isoformat (fun _ => True) e (e.dateText ++ c :: t) ↔
      if c = 84 then ClockSorts e t
      else c < 84 ∧ e.hour = 0 ∧ e.minute = 0 ∧ e.second = 0 ∧ e.microsecond = 0 := by
  rw [dateText_append]
  calc Marks isoformat (fun _ => True) e (pad 4 e.year ++ 45 :: (pad 2 e.month ++ 45 :: (pad 2 e.day ++ c :: t)))
      ↔ Marks monthOn (SharesYear e) e (pad 2 e.month ++ 45 :: (pad 2 e.day ++ c :: t)) := marks_year_dash _
    _ ↔ Marks dayOn (SharesMonth e) e (pad 2 e.day ++ c :: t) := marks_month_dash _
    _ ↔ Marks (fun x => 84 :: x.hourOn) (SharesDay e) e (c :: t) := marks_day _
    _ ↔ _ := ?_
  split
  · rename_i hc
    subst hc
    rw [← marks_clock ht]
    exact marks_cons fun _ => rfl
  · rename_i hc
    rw [marks_cons_ne (fun _ => rfl) hc, none_sharesDay]

/-- After the year of the text comes a week or a digit, not a dash and a month: among the texts of a year it is
the last. -/
theorem monthOn_lt_undashed (x : Datetime) {c d : Nat} {r : Str} (hc : c = 45 ∧ d = 87 ∨ 45 < c) :
    45 :: x.monthOn < c :: d :: r := by
  obtain ⟨m, rest, hpad, hm⟩ := pad_cons 1 x.month
  rw [monthOn, hpad, List.cons_append, List.cons_lt_cons_iff, List.cons_lt_cons_iff]
  omega

theorem marks_undashed {year c d : Nat} {r : Str} (hyear : year < 10 ^ 4) (hc : c = 45 ∧ d = 87 ∨ 45 < c) :
    Marks isoformat (fun _ => True) e (pad 4 year ++ c :: d :: r) ↔
      year = e.year - 1 ∧
        e.month = 1 ∧ e.day = 1 ∧ e.hour = 0 ∧ e.minute = 0 ∧ e.second = 0 ∧ e.microsecond = 0 := by
  have hpos := e.date_valid.1
  have hcmp : ∀ x : Datetime, x.isoformat < pad 4 year ++ c :: d :: r ↔ x.year ≤ year := by
    intro x
    rw [isoformat_eq, pad_append_lt (by have := x.year_le; omega) hyear]
    constructor
    · rintro (h | ⟨h, -⟩) <;> omega
    · intro h
      rcases Nat.lt_or_eq_of_le h with hlt | heq
      · exact .inl hlt
      · exact .inr ⟨heq, x.monthOn_lt_undashed hc⟩
  rw [← none_sharesYear]
  constructor
  · intro hm
    have hlt : year < e.year := by
      rw [← not_le, ← hcmp]
      exact not_lt.2 hm.le
    have hyears : ∀ x, x < e → x.year ≤ year := fun x hx => (hcmp x).1 (hm.lt x hx trivial)
    refine ⟨?_, ?_⟩
    · by_contra hne
      -- A moment of the year before `e` would lie between.
      obtain ⟨x, hx⟩ : ∃ x : Datetime, x.year = e.year - 1 :=
        ⟨newYear (show 1 ≤ e.year - 1 by omega) (by have := e.year_le; omega), rfl⟩
      have hxe : x < e := toMicros_lt_of_fields (.inl (by omega))
      have := hyears x hxe
      omega
    · intro x hx hs
      have := hyears x hx
      have := hs.2
      omega
  · rintro ⟨rfl, hnone⟩
    constructor
    · rw [← not_lt, hcmp]
      omega
    · intro x hx _
      rw [hcmp]
      have := fields_of_lt hx
      have hy : x.year ≠ e.year := fun h => hnone x hx ⟨trivial, h⟩
      omega

end Datetime

/-- A spelling that sorts is one whose comparisons are those of its moment. -/
theorem marks_iff_sortsAt {s : Str} {e : Datetime} {off : Int} (h : fromisoformat s = some ⟨e, some off⟩) :
    Marks Datetime.isoformat (fun _ => True) e s ↔ SortsAt s e := by
  unfold SortsAt
  by_cases hd : at_ s 4 = 45 ∧ at_ s 5 ≠ 87
  · obtain ⟨c, t, rfl, ht⟩ := fromisoformat_dashed h hd.1 hd.2
    have h10 : at_ (e.dateText ++ c :: t) 10 = c := rfl
    have hdrop : (e.dateText ++ c :: t).drop 11 = t := rfl
    rw [if_pos hd, h10, hdrop, Datetime.marks_dashed ht]
  · obtain ⟨year, hyear, hs, h4⟩ := fromisoformat_year h
    have hc : at_ s 4 = 45 ∧ at_ s 5 = 87 ∨ 45 < at_ s 4 := by omega
    have hmarks := Datetime.marks_undashed (e := e) (r := s.drop 6) hyear hc
    have htake : s.take 4 = pad 4 year := by
      rw [hs, List.take_left' (by simp)]
    rw [if_neg hd, htake]
    rw [← hs] at hmarks
    rw [hmarks]
    have hinj : year = e.year - 1 ↔ pad 4 year = pad 4 (e.year - 1) :=
      ⟨fun h => by rw [h], pad_inj hyear (by have := e.year_le; omega)⟩
    rw [hinj]

/-- What `isoformat` prints sorts at its own moment. -/
theorem sortsAt_isoformat (t : Datetime) : SortsAt t.isoformat t := by
  rw [← marks_iff_sortsAt (fromisoformat_isoformat t)]
  exact ⟨le_rfl, fun x hx _ => Datetime.isoformat_lt_iff.2 hx⟩

end AetherNode
