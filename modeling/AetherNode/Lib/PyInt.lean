import AetherNode.Lib.Json
/-!
# Reading an integer

`int(s)` for a text of Latin-1 characters, in which the digits are the ASCII
ones: spaces around it, at most one sign, groups of digits with a single
underscore between two of them, and no more digits than CPython converts.
-/
namespace AetherNode.Lib.PyInt

/-- The spaces that `int` skips: those of C, and outside ASCII those of `str.isspace`. -/
def isIntSpace (c : Nat) : Bool := 9 ≤ c && c ≤ 13 || c = 32 || 128 ≤ c && isSpace c

/-- The text without the spaces around it. -/
def trim (s : Str) : Str := ((s.dropWhile isIntSpace).reverse.dropWhile isIntSpace).reverse

/-- Whether a minus sign comes first, and what follows the sign. -/
def splitSign : Str → Bool × Str
  | 45 :: d => (true, d)
  | 43 :: d => (false, d)
  | d => (false, d)

/-- `sys.get_int_max_str_digits()`. -/
def maxStrDigits : Nat := 4300

/-- The value of groups of digits; `none` where `int` raises `ValueError`. -/
def numeral (d : Str) : Option Nat :=
  let digits := d.filter (· ≠ 95)
  if [] ∈ splitOn 95 d ∨ maxStrDigits < digits.length then none else digitsVal? digits

/-- `int(s)`; `none` is a `ValueError`. -/
def pyInt (s : Str) : Option Int :=
  let (negative, d) := splitSign (trim s)
  (numeral d).map fun n : Nat => if negative then -(n : Int) else n

/-! ## The sign of the value -/

theorem digitsVal?_isSome_iff (s : Str) : (digitsVal? s).isSome ↔ ∀ c ∈ s, 48 ≤ c ∧ c ≤ 57 := by
  induction s using List.reverseRecOn with
  | nil => simp [digitsVal?]
  | append_singleton s c ih =>
    rw [digitsVal?_concat, Option.isSome_bind, List.forall_mem_append, ← ih]
    cases digitsVal? s with
    | none => simp
    | some n => simp [digitVal?]

/-- The value is positive when some digit is not zero. -/
theorem digitsVal?_pos {s : Str} {n : Nat} (h : digitsVal? s = some n) : 0 < n ↔ ∃ c ∈ s, c ≠ 48 := by
  induction s using List.reverseRecOn generalizing n with
  | nil =>
    simp only [digitsVal?, List.foldl_nil, Option.some.injEq] at h
    simp [← h]
  | append_singleton s c ih =>
    rw [digitsVal?_concat] at h
    obtain ⟨m, hm, hx⟩ := Option.bind_eq_some_iff.1 h
    obtain ⟨d, hd, rfl⟩ := Option.map_eq_some_iff.1 hx
    simp only [digitVal?] at hd
    split at hd <;> simp only [Option.some.injEq, reduceCtorEq] at hd
    rename_i hc
    have hpos : 0 < 10 * m + d ↔ 0 < m ∨ c ≠ 48 := by omega
    rw [hpos, ih hm]
    simp [or_and_right, exists_or]

/-- A minus sign, then digits that are not all zero. -/
structure Negative (s : Str) (d : Str) : Prop where
  sign : trim s = 45 :: d
  groups : [] ∉ splitOn 95 d
  digits : ∀ c ∈ d, c ≠ 95 → 48 ≤ c ∧ c ≤ 57
  convertible : (d.filter (· ≠ 95)).length ≤ maxStrDigits
  nonzero : ∃ c ∈ d, c ≠ 95 ∧ c ≠ 48

theorem numeral_eq_some {d : Str} {n : Nat} : numeral d = some n ↔
    [] ∉ splitOn 95 d ∧ (d.filter (· ≠ 95)).length ≤ maxStrDigits ∧ digitsVal? (d.filter (· ≠ 95)) = some n := by
  simp only [numeral]
  split
  · simp only [reduceCtorEq, false_iff, not_and]
    intro hgroups hlength
    rename_i h
    rcases h with h | h
    · exact absurd h hgroups
    · exact absurd hlength (by omega)
  · rename_i h
    rw [not_or, not_lt] at h
    simp only [h.1, h.2, not_false_eq_true, true_and]

theorem splitSign_true {s d : Str} (h : splitSign s = (true, d)) : s = 45 :: d := by
  unfold splitSign at h
  split at h <;> simp_all

/-- `int` gives a negative number for these texts and no others. -/
theorem pyInt_neg_iff (s : Str) : (∃ z, pyInt s = some z ∧ z < 0) ↔ ∃ d, Negative s d := by
  constructor
  · rintro ⟨z, hz, hneg⟩
    rcases hsplit : splitSign (trim s) with ⟨negative, d⟩
    simp only [pyInt, hsplit] at hz
    obtain ⟨n, hn, rfl⟩ := Option.map_eq_some_iff.1 hz
    obtain ⟨hgroups, hlength, hvalue⟩ := numeral_eq_some.1 hn
    cases negative with
    | false =>
      simp only [Bool.false_eq_true, if_false] at hneg
      omega
    | true =>
      simp only [if_true] at hneg
      refine ⟨d, splitSign_true hsplit, hgroups, ?_, hlength, ?_⟩
      · intro c hc hne
        exact (digitsVal?_isSome_iff _).1 (by rw [hvalue]; rfl) c (List.mem_filter.2 ⟨hc, by simpa using hne⟩)
      · obtain ⟨c, hc, hne⟩ := (digitsVal?_pos hvalue).1 (by omega)
        obtain ⟨hmem, h95⟩ := List.mem_filter.1 hc
        exact ⟨c, hmem, by simpa using h95, hne⟩
  · rintro ⟨d, h⟩
    have hsome : (digitsVal? (d.filter (· ≠ 95))).isSome := by
      rw [digitsVal?_isSome_iff]
      intro c hc
      obtain ⟨hmem, h95⟩ := List.mem_filter.1 hc
      exact h.digits c hmem (by simpa using h95)
    obtain ⟨n, hn⟩ := Option.isSome_iff_exists.1 hsome
    have hpos : 0 < n := by
      obtain ⟨c, hc, h95, h48⟩ := h.nonzero
      exact (digitsVal?_pos hn).2 ⟨c, List.mem_filter.2 ⟨hc, by simpa using h95⟩, h48⟩
    refine ⟨-n, ?_, by omega⟩
    simp only [pyInt, h.sign, splitSign, numeral_eq_some.2 ⟨h.groups, h.convertible, hn⟩, Option.map_some, if_true]

/-! ## A printed number reads back -/

open Json in
theorem digitsVal?_natText (n : Nat) : digitsVal? (natText n) = some n := by
  have hread : ∀ (l : List Char) (m : Nat), (∀ c ∈ l, c.isDigit = true) →
      (l.map Char.toNat).foldl (fun acc c => acc.bind fun n => (digitVal? c).map fun d => 10 * n + d) (some m) =
        some (Nat.ofDigitChars 10 l m) := by
    intro l
    induction l with
    | nil => simp
    | cons c l ih =>
      intro m h
      have hc : 48 ≤ c.toNat ∧ c.toNat ≤ 57 := Char.isDigit_iff_toNat.1 (h c (by simp))
      rw [List.map_cons, List.foldl_cons, Nat.ofDigitChars_cons, ← ih _ fun d hd => h d (by simp [hd])]
      simp [digitVal?, hc]
  rw [natText, digitsVal?, hread _ 0 fun c hc => Nat.isDigit_of_mem_toDigits (by omega) (by omega) hc,
    Nat.ofDigitChars_ten_toDigits]

theorem natText_digits (n : Nat) : ∀ c ∈ Json.natText n, 48 ≤ c ∧ c ≤ 57 :=
  (digitsVal?_isSome_iff _).1 (by rw [digitsVal?_natText]; rfl)

theorem trim_of_digits {s : Str} (h : ∀ c ∈ s, 48 ≤ c ∧ c ≤ 57) : trim s = s := by
  have hdrop : ∀ t : Str, (∀ c ∈ t, 48 ≤ c ∧ c ≤ 57) → t.dropWhile isIntSpace = t := by
    intro t ht
    cases t with
    | nil => rfl
    | cons c t =>
      have hc := ht c (by simp)
      have hspace : isIntSpace c = false := by simp [isIntSpace]; omega
      simp [hspace]
  rw [trim, hdrop s h, hdrop s.reverse (by simpa using h), List.reverse_reverse]

theorem splitOn_of_not_mem {c : Nat} {s : Str} (h : c ∉ s) : splitOn c s = [s] := by
  induction s with
  | nil => rfl
  | cons d s ih =>
    rw [List.mem_cons, not_or] at h
    rw [splitOn, if_neg (Ne.symm h.1), ih h.2]

/-- `int(str(n))`. -/
theorem pyInt_natText {n : Nat} (h : n < 10 ^ maxStrDigits) : pyInt (Json.natText n) = some (n : Int) := by
  have hdigits := natText_digits n
  have hne : Json.natText n ≠ [] := by simp [Json.natText]
  have h95 : 95 ∉ Json.natText n := by
    intro hmem
    have := hdigits 95 hmem
    omega
  have hfilter : (Json.natText n).filter (· ≠ 95) = Json.natText n := by
    rw [List.filter_eq_self]
    rintro c hc
    have := hdigits c hc
    simp only [ne_eq, decide_eq_true_eq]
    omega
  have hnumeral : numeral (Json.natText n) = some n := by
    rw [numeral_eq_some, splitOn_of_not_mem h95, hfilter]
    refine ⟨by simpa using hne.symm, ?_, digitsVal?_natText n⟩
    rw [Json.natText, List.length_map]
    exact (Nat.length_toDigits_le_iff (by omega) (by decide)).2 h
  have hsign : splitSign (Json.natText n) = (false, Json.natText n) := by
    unfold splitSign
    split
    · rename_i d hd
      have := hdigits 45 (by simp [hd])
      omega
    · rename_i d hd
      have := hdigits 43 (by simp [hd])
      omega
    · rfl
  simp only [pyInt, trim_of_digits hdigits, hsign, hnumeral, Option.map_some, Bool.false_eq_true, if_false]

end AetherNode.Lib.PyInt
