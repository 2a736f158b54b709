import AetherNode.Lib.JsonScan
import Mathlib.Tactic.IntervalCases
/-!
# The scanner and the grammar

The scanner reads the texts of the syntax trees, and no others. A production
has two lemmas: `..._text` says that the scanner takes the text of a tree and
stops behind it, `text_of_...` that what it has taken is the text of a tree.
-/
namespace AetherNode.Lib.JsonScan

open Json JsonText

/-! ## White space -/

/-- No character of the kind `p` comes next. -/
def Stops (p : Nat → Bool) (s : Str) : Prop := ∀ c ∈ s.head?, p c = false

theorem stops_nil (p : Nat → Bool) : Stops p [] := fun _ h => by cases h

theorem stops_cons {p : Nat → Bool} {c : Nat} {s : Str} : Stops p (c :: s) ↔ p c = false := by simp [Stops]

theorem dropWhile_of_stops {p : Nat → Bool} {s : Str} (h : Stops p s) : s.dropWhile p = s := by
  cases s with
  | nil => rfl
  | cons c s => simp [stops_cons.1 h]

theorem takeWhile_of_stops {p : Nat → Bool} {s : Str} (h : Stops p s) : s.takeWhile p = [] := by
  cases s with
  | nil => rfl
  | cons c s => simp [stops_cons.1 h]

theorem isWhitespace_iff {c : Nat} : isWhitespace c = true ↔ c = 32 ∨ c = 9 ∨ c = 10 ∨ c = 13 := by
  simp [isWhitespace, or_assoc]

theorem skip_append_gap (g : Gap) (s : Str) : skip (g.1 ++ s) = skip s :=
  List.dropWhile_append_of_pos fun c hc => isWhitespace_iff.2 (g.2 c hc)

theorem skip_gap (g : Gap) {s : Str} (h : Stops isWhitespace s) : skip (g.1 ++ s) = s := by
  rw [skip_append_gap]
  exact dropWhile_of_stops h

theorem gap_of_skip (s : Str) : ∃ g : Gap, s = g.1 ++ skip s :=
  ⟨⟨s.takeWhile isWhitespace, fun _ hc => isWhitespace_iff.1 (List.mem_takeWhile_imp hc)⟩,
    List.takeWhile_append_dropWhile.symm⟩

/-! ## Strings -/

/-- The characters of a Python string. -/
def CodePoints (s : Str) : Prop := ∀ c ∈ s, c < 0x110000

theorem CodePoints.behind {s t r : Str} (h : CodePoints s) (heq : s = t ++ r) : CodePoints r := by
  intro c hc
  apply h c
  rw [heq]
  exact List.mem_append_right _ hc

theorem CodePoints.skip {s : Str} (h : CodePoints s) : CodePoints (skip s) := by
  obtain ⟨g, hg⟩ := gap_of_skip s
  exact h.behind hg

theorem CodePoints.tail {c : Nat} {s : Str} (h : CodePoints (c :: s)) : CodePoints s :=
  fun x hx => h x (List.mem_cons_of_mem _ hx)

/-- What is behind a mark that white space may come before. -/
theorem CodePoints.mark {c : Nat} {s r : Str} (h : CodePoints s) (hskip : JsonScan.skip s = c :: r) : CodePoints r := by
  have hmark := h.skip
  rw [hskip] at hmark
  exact hmark.tail

def CharUnit.ofPiece : Piece → CharUnit
  | .plain c => .char c.1
  | .escape e => .char e.char
  | .unicode u => .unicode u.value

theorem joinUnits_pieces (s : List Piece) : joinUnits (s.map CharUnit.ofPiece) = stringValue s := by
  fun_induction stringValue s with
  | case1 u v s hpair ih => simp [CharUnit.ofPiece, joinUnits, hpair, ih]
  | case2 u v s hpair ih =>
    simp only [List.map_cons, CharUnit.ofPiece] at ih ⊢
    simp [joinUnits, hpair, ih]
  | case3 p s hno ih =>
    cases p with
    | plain c | escape e => simp [CharUnit.ofPiece, joinUnits, Piece.char, ih]
    | unicode u =>
      cases s with
      | nil => rfl
      | cons q s =>
        cases q with
        | unicode v => exact absurd rfl (hno u v s rfl)
        | plain c | escape e => simp_all [CharUnit.ofPiece, joinUnits, Piece.char]
  | case4 => rfl

theorem hexValue_char (d : HexDigit) : hexValue d.char = some d.value.1 := by
  obtain ⟨v, upper⟩ := d
  revert v upper
  decide

theorem char_of_hexValue {c n : Nat} (h : hexValue c = some n) : ∃ d : HexDigit, d.char = c ∧ d.value.1 = n := by
  unfold hexValue at h
  split_ifs at h with hdigit hupper hlower <;> cases h
  · simp only [isDigit, Bool.and_eq_true, decide_eq_true_eq] at hdigit
    refine ⟨⟨⟨c - 48, by omega⟩, false⟩, ?_, rfl⟩
    simp only [HexDigit.char]
    rw [if_pos (by omega)]
    omega
  · refine ⟨⟨⟨c - 55, by omega⟩, true⟩, ?_, rfl⟩
    simp only [HexDigit.char, if_true]
    rw [if_neg (by omega)]
    omega
  · refine ⟨⟨⟨c - 87, by omega⟩, false⟩, ?_, rfl⟩
    simp only [HexDigit.char, Bool.false_eq_true, if_false]
    rw [if_neg (by omega)]
    omega

theorem hexUnit_char (u : HexUnit) : hexUnit u.d3.char u.d2.char u.d1.char u.d0.char = some u.value := by
  simp [hexUnit, hexValue_char, HexUnit.value]

theorem char_of_hexUnit {a b c d n : Nat} (h : hexUnit a b c d = some n) :
    ∃ u : HexUnit, u.d3.char = a ∧ u.d2.char = b ∧ u.d1.char = c ∧ u.d0.char = d ∧ u.value = n := by
  unfold hexUnit at h
  split at h
  · rename_i va vb vc vd ha hb hc hd
    obtain ⟨d3, rfl, rfl⟩ := char_of_hexValue ha
    obtain ⟨d2, rfl, rfl⟩ := char_of_hexValue hb
    obtain ⟨d1, rfl, rfl⟩ := char_of_hexValue hc
    obtain ⟨d0, rfl, rfl⟩ := char_of_hexValue hd
    exact ⟨⟨d3, d2, d1, d0⟩, rfl, rfl, rfl, rfl, Option.some.inj h⟩
  · cases h

theorem unescape_letter (e : Escape) : unescape e.letter = some e.char := by
  cases e <;> rfl

theorem letter_ne_u (e : Escape) : e.letter ≠ 117 := by
  cases e <;> decide

theorem letter_of_unescape {c n : Nat} (h : unescape c = some n) : ∃ e : Escape, e.letter = c ∧ e.char = n := by
  unfold unescape at h
  split_ifs at h with hself hb hf hn hr ht <;> cases h
  · rcases hself with rfl | rfl | rfl
    · exact ⟨.quote, rfl, rfl⟩
    · exact ⟨.backslash, rfl, rfl⟩
    · exact ⟨.slash, rfl, rfl⟩
  · exact ⟨.backspace, hb.symm, rfl⟩
  · exact ⟨.formFeed, hf.symm, rfl⟩
  · exact ⟨.newline, hn.symm, rfl⟩
  · exact ⟨.carriageReturn, hr.symm, rfl⟩
  · exact ⟨.tab, ht.symm, rfl⟩

section
variable (begin : Str)

theorem scanUnits_plain (c : PlainChar) (s : Str) :
    scanUnits begin (c.1 :: s) = (scanUnits begin s).map fun r => (.char c.1 :: r.1, r.2) := by
  obtain ⟨c, hlow, hquote, hbackslash, -⟩ := c
  rw [scanUnits, if_neg (Nat.not_lt.2 hlow)]
  · exact hquote
  · exact fun hc => absurd hc hbackslash
  · exact fun _ _ hc => absurd hc hbackslash

theorem scanUnits_escape (e : Escape) (s : Str) :
    scanUnits begin (92 :: e.letter :: s) = (scanUnits begin s).map fun r => (.char e.char :: r.1, r.2) := by
  rw [scanUnits.eq_def]
  simp only [letter_ne_u, if_false, unescape_letter]

/-- The digits of an escape are read where something follows them. -/
theorem scanUnits_unicode (u : HexUnit) (next : Nat) (s : Str) :
    scanUnits begin (u.text ++ next :: s) = (scanUnits begin (next :: s)).map fun r => (.unicode u.value :: r.1, r.2) := by
  simp only [HexUnit.text, List.cons_append, List.nil_append]
  rw [scanUnits]
  simp only [if_true, hexUnit_char]

theorem scanUnits_text (s : List Piece) (rest : Str) :
    scanUnits begin (s.flatMap Piece.text ++ 34 :: rest) = .ok (s.map CharUnit.ofPiece, rest) := by
  induction s with
  | nil => rfl
  | cons p s ih =>
    rw [List.flatMap_cons, List.append_assoc]
    cases p with
    | plain c =>
      apply (scanUnits_plain begin c (s.flatMap Piece.text ++ 34 :: rest)).trans
      rw [ih]
      rfl
    | escape e =>
      apply (scanUnits_escape begin e (s.flatMap Piece.text ++ 34 :: rest)).trans
      rw [ih]
      rfl
    | unicode u =>
      obtain ⟨next, t, htail⟩ : ∃ next t, s.flatMap Piece.text ++ 34 :: rest = next :: t := by
        cases s.flatMap Piece.text <;> exact ⟨_, _, rfl⟩
      rw [htail] at ih ⊢
      apply (scanUnits_unicode begin u next t).trans
      rw [ih]
      rfl

/-- What a string has taken, up to its quote. -/
theorem text_of_scanUnits {s r : Str} {l : List CharUnit} (hs : CodePoints s)
    (h : scanUnits begin s = .ok (l, r)) :
    ∃ pieces : List Piece, s = pieces.flatMap Piece.text ++ 34 :: r ∧ pieces.map CharUnit.ofPiece = l := by
  fun_induction scanUnits begin s generalizing l with
  | case1 | case3 | case4 | case6 | case7 | case9 => cases h
  | case2 =>
    cases h
    exact ⟨[], rfl, rfl⟩
  | case5 d3 d2 d1 d0 next s u hhex ih =>
    obtain ⟨l', r', hrest, heq⟩ := map_ok h
    cases heq
    obtain ⟨unit, rfl, rfl, rfl, rfl, rfl⟩ := char_of_hexUnit hhex
    obtain ⟨pieces, htext, hunits⟩ := ih (fun c hc => hs c (by simp_all)) hrest
    refine ⟨.unicode unit :: pieces, ?_, by rw [List.map_cons, hunits]; rfl⟩
    rw [htext]
    rfl
  | case8 c s hu d hd ih =>
    obtain ⟨l', r', hrest, heq⟩ := map_ok h
    cases heq
    obtain ⟨e, rfl, rfl⟩ := letter_of_unescape hd
    obtain ⟨pieces, htext, hunits⟩ := ih (fun c hc => hs c (by simp_all)) hrest
    refine ⟨.escape e :: pieces, ?_, by rw [List.map_cons, hunits]; rfl⟩
    rw [htext]
    rfl
  | case10 c s hquote hlast hbackslash hlow ih =>
    obtain ⟨l', r', hrest, heq⟩ := map_ok h
    cases heq
    have hplain : 32 ≤ c ∧ c ≠ 34 ∧ c ≠ 92 ∧ c < 0x110000 := by
      refine ⟨by omega, hquote, ?_, hs c List.mem_cons_self⟩
      rintro rfl
      cases s with
      | nil => exact hlast rfl rfl
      | cons d s => exact hbackslash d s rfl rfl
    obtain ⟨pieces, htext, hunits⟩ := ih (fun c hc => hs c (List.mem_cons_of_mem _ hc)) hrest
    refine ⟨.plain ⟨c, hplain⟩ :: pieces, ?_, by rw [List.map_cons, hunits]; rfl⟩
    rw [htext]
    rfl

end

theorem scanString_text (s : List Piece) (rest : Str) :
    scanString (s.flatMap Piece.text ++ 34 :: rest) = .ok (stringValue s, rest) := by
  rw [scanString, scanUnits_text, ← joinUnits_pieces]
  rfl

theorem text_of_scanString {s r v : Str} (hs : CodePoints s) (h : scanString s = .ok (v, r)) :
    ∃ pieces : List Piece, 34 :: s = stringText pieces ++ r ∧ stringValue pieces = v := by
  obtain ⟨l, r', hunits, heq⟩ := map_ok h
  cases heq
  obtain ⟨pieces, htext, rfl⟩ := text_of_scanUnits _ hs hunits
  refine ⟨pieces, ?_, (joinUnits_pieces pieces).symm⟩
  rw [htext, stringText]
  simp

/-! ## Printed numbers -/

theorem natText_digit {d : Nat} (h : d < 10) : natText d = [48 + d] := by
  interval_cases d <;> rfl

theorem natText_concat {n d : Nat} (hn : 0 < n) (hd : d < 10) : natText (10 * n + d) = natText n ++ [48 + d] := by
  rw [natText, ← Nat.toDigits_append_toDigits (by omega) hn hd, List.map_append, ← natText, ← natText, natText_digit hd]

/-- The text of a number begins with a digit, which is not a zero unless it is the number. -/
theorem natText_head (n : Nat) : ∃ c s, natText n = c :: s ∧ isDigit c = true ∧ (0 < n → c ≠ 48) := by
  induction n using Nat.strong_induction_on with
  | _ n ih =>
    by_cases hsmall : n < 10
    · refine ⟨48 + n, [], natText_digit hsmall, ?_, by omega⟩
      simp only [isDigit, Bool.and_eq_true, decide_eq_true_eq]
      omega
    · obtain ⟨c, s, htext, hdigit, hhead⟩ := ih (n / 10) (by omega)
      refine ⟨c, s ++ [48 + n % 10], ?_, hdigit, fun _ => hhead (by omega)⟩
      calc natText n = natText (10 * (n / 10) + n % 10) := by rw [Nat.div_add_mod]
        _ = natText (n / 10) ++ [48 + n % 10] := natText_concat (by omega) (Nat.mod_lt _ (by omega))
        _ = c :: (s ++ [48 + n % 10]) := by rw [htext, List.cons_append]

/-- Digits without a leading zero are the text of their number. -/
theorem natText_of_digits {s : Str} {n : Nat} (hval : digitsVal? s = some n) (hne : s ≠ []) (hhead : s.head? ≠ some 48) :
    natText n = s := by
  induction s using List.reverseRecOn generalizing n with
  | nil => exact absurd rfl hne
  | append_singleton s c ih =>
    rw [digitsVal?_concat] at hval
    obtain ⟨m, hm, hx⟩ := Option.bind_eq_some_iff.1 hval
    obtain ⟨d, hd, rfl⟩ := Option.map_eq_some_iff.1 hx
    unfold digitVal? at hd
    split_ifs at hd with hc
    cases hd
    have hback : 48 + (c - 48) = c := by omega
    cases s with
    | nil =>
      cases hm
      rw [Nat.mul_zero, Nat.zero_add, natText_digit (by omega), hback]
      rfl
    | cons b s =>
      have htext := ih hm (by simp) hhead
      have hpos : 0 < m := by
        rw [Nat.pos_iff_ne_zero]
        rintro rfl
        rw [← htext] at hhead
        exact hhead rfl
      rw [natText_concat hpos (by omega), htext, hback]

/-! ## Numbers -/

theorem isDigit_iff {c : Nat} : isDigit c = true ↔ 48 ≤ c ∧ c ≤ 57 := by simp [isDigit]

theorem digits?_text (d : Digits) {rest : Str} (h : Stops isDigit rest) : digits? (d.1 ++ rest) = some (d, rest) := by
  obtain ⟨d, hne, hdigits⟩ := d
  have htake : (d ++ rest).takeWhile isDigit = d := by
    rw [List.takeWhile_append_of_pos fun c hc => isDigit_iff.2 (hdigits c hc), takeWhile_of_stops h, List.append_nil]
  have hdrop : (d ++ rest).dropWhile isDigit = rest := by
    rw [List.dropWhile_append_of_pos fun c hc => isDigit_iff.2 (hdigits c hc), dropWhile_of_stops h]
  unfold digits?
  rw [dif_pos (by rw [htake]; exact hne)]
  exact congrArg some (Prod.ext (Subtype.ext htake) hdrop)

theorem text_of_digits? {s r : Str} {d : Digits} (h : digits? s = some (d, r)) : s = d.1 ++ r := by
  unfold digits? at h
  split at h
  · cases h
    exact List.takeWhile_append_dropWhile.symm
  · cases h

theorem integer?_text (n : Nat) {rest : Str} (h : Stops isDigit rest) : integer? (natText n ++ rest) = some (n, rest) := by
  by_cases hzero : n = 0
  · subst hzero
    rfl
  · obtain ⟨c, s, htext, -, hhead⟩ := natText_head n
    have hdigits : ∀ x ∈ natText n, 48 ≤ x ∧ x ≤ 57 := PyInt.natText_digits n
    have hread := digits?_text ⟨natText n, by rw [htext]; simp, hdigits⟩ h
    have hother : integer? (natText n ++ rest) =
        (digits? (natText n ++ rest)).map fun r => ((digitsVal? r.1.1).getD 0, r.2) := by
      rw [htext, List.cons_append, integer?]
      intro t ht
      exact hhead (Nat.pos_of_ne_zero hzero) (List.cons.inj ht).1
    rw [hother, hread]
    simp [PyInt.digitsVal?_natText]

theorem text_of_integer? {s r : Str} {n : Nat} (h : integer? s = some (n, r)) : s = natText n ++ r := by
  unfold integer? at h
  split at h
  · cases h
    rfl
  · rename_i hno
    obtain ⟨⟨d, r'⟩, hd, heq⟩ := Option.map_eq_some_iff.1 h
    cases heq
    have htext := text_of_digits? hd
    obtain ⟨m, hm⟩ := Option.isSome_iff_exists.1 ((PyInt.digitsVal?_isSome_iff d.1).2 d.2.2)
    have hhead : d.1.head? ≠ some 48 := by
      intro h48
      obtain ⟨t, ht⟩ := List.head?_eq_some_iff.1 h48
      exact hno (t ++ r') (by rw [htext, ht]; rfl)
    simp only [hm, Option.getD_some]
    rw [natText_of_digits hm d.2.1 hhead]
    exact htext

theorem fraction?_text (d : Digits) {rest : Str} (h : Stops isDigit rest) :
    fraction? (46 :: (d.1 ++ rest)) = some (d, rest) := digits?_text d h

theorem text_of_fraction? {s r : Str} {d : Digits} (h : fraction? s = some (d, r)) : s = 46 :: d.1 ++ r := by
  unfold fraction? at h
  split at h
  · rw [text_of_digits? h]
    rfl
  · cases h

/-- No fraction and no exponent comes next. -/
def isNumeral (c : Nat) : Bool := isDigit c || c = 46 || c = 101 || c = 69

theorem stops_numeral {rest : Str} (h : Stops isNumeral rest) :
    Stops isDigit rest ∧ fraction? rest = none ∧ exponent? rest = none := by
  cases rest with
  | nil => exact ⟨stops_nil _, rfl, rfl⟩
  | cons c s =>
    have hc := stops_cons.1 h
    simp only [isNumeral, Bool.or_eq_false_iff, decide_eq_false_iff_not] at hc
    obtain ⟨⟨⟨hdigit, hdot⟩, he⟩, hE⟩ := hc
    refine ⟨stops_cons.2 hdigit, ?_, ?_⟩
    · rw [fraction?]
      intro t ht
      exact hdot (List.cons.inj ht).1
    · rw [exponent?.eq_def]
      exact if_neg (by simp [he, hE])

/-- A mark of an exponent is no fraction. -/
theorem fraction?_exponent (e : Exponent) (rest : Str) : fraction? (e.text ++ rest) = none := by
  obtain ⟨upper, sign, d⟩ := e
  cases upper <;> rfl

/-- No sign comes before a digit. -/
theorem unsigned_digits {s : Str} (rest : Str) (hne : s ≠ []) (hdigits : ∀ c ∈ s, 48 ≤ c ∧ c ≤ 57) :
    exponentSign (s ++ rest) = (none, s ++ rest) ∧ minus (s ++ rest) = (false, s ++ rest) := by
  obtain ⟨c, s, rfl⟩ := List.exists_cons_of_ne_nil hne
  have hc := hdigits c List.mem_cons_self
  constructor
  · rw [List.cons_append, exponentSign]
    · intro t ht
      have := (List.cons.inj ht).1
      omega
    · intro t ht
      have := (List.cons.inj ht).1
      omega
  · rw [List.cons_append, minus]
    intro t ht
    have := (List.cons.inj ht).1
    omega

theorem exponent?_text (e : Exponent) {rest : Str} (h : Stops isDigit rest) :
    exponent? (e.text ++ rest) = some (e, rest) := by
  obtain ⟨upper, sign, d⟩ := e
  have hread := digits?_text d h
  cases sign with
  | some negative => cases upper <;> cases negative <;> simp [Exponent.text, exponent?, exponentSign, hread]
  | none =>
    have hsign := (unsigned_digits rest d.2.1 d.2.2).1
    cases upper <;> simp [Exponent.text, exponent?, hsign, hread]

theorem text_of_exponent? {s r : Str} {e : Exponent} (h : exponent? s = some (e, r)) : s = e.text ++ r := by
  unfold exponent? at h
  split at h
  · rename_i c s
    split at h
    · rename_i hmark
      obtain ⟨⟨d, r'⟩, hd, heq⟩ := Option.map_eq_some_iff.1 h
      cases heq
      have htext := text_of_digits? hd
      have hc : (if c = 69 then 69 else 101) = c := by
        rcases hmark with rfl | rfl <;> rfl
      simp only [Exponent.text, decide_eq_true_eq, hc]
      unfold exponentSign at htext ⊢
      split at htext <;> dsimp only at htext <;> rw [htext] <;> rfl
    · cases h
  · cases h

section
variable {repr : FloatLiteral → Str}

theorem minus_text (negative : Bool) (n : Nat) (rest : Str) :
    minus (signText negative ++ natText n ++ rest) = (negative, natText n ++ rest) := by
  cases negative with
  | true => rfl
  | false =>
    obtain ⟨c, s, htext, -⟩ := natText_head n
    exact (unsigned_digits _ (by rw [htext]; simp) (PyInt.natText_digits n)).2

theorem text_of_minus {s body : Str} {negative : Bool} (h : minus s = (negative, body)) : s = signText negative ++ body := by
  unfold minus at h
  split at h <;> cases h <;> rfl

theorem matchNumber_int (negative : Bool) (n : Nat) {rest : Str} (h : Stops isNumeral rest)
    (hlen : (natText n).length ≤ PyInt.maxStrDigits) :
    matchNumber repr (signText negative ++ natText n ++ rest) = .ok (.int (if negative then -(n : Int) else n), rest) := by
  obtain ⟨hdigit, hfraction, hexponent⟩ := stops_numeral h
  simp only [matchNumber, minus_text, integer?_text n hdigit, hfraction, hexponent, if_neg (Nat.not_lt.2 hlen)]

/-- Every spelling of a float that begins with a number. -/
theorem matchNumber_fraction (repr : FloatLiteral → Str) (negative : Bool) (n : Nat) (d : Digits) (e : Option Exponent) {rest : Str}
    (h : Stops isNumeral rest) :
    matchNumber repr ((FloatLiteral.fraction negative n d e).text ++ rest) =
      .ok (.float (repr (.fraction negative n d e)), rest) := by
  obtain ⟨hdigit, -, hexponent⟩ := stops_numeral h
  have hdot : ∀ t, integer? (natText n ++ 46 :: t) = some (n, 46 :: t) := fun t => integer?_text n (stops_cons.2 rfl)
  cases e with
  | none =>
    have htext : (FloatLiteral.fraction negative n d none).text ++ rest =
        signText negative ++ natText n ++ (46 :: d.1 ++ rest) := by simp [FloatLiteral.text]
    rw [htext]
    simp only [matchNumber, minus_text, List.cons_append, hdot, fraction?_text d hdigit, hexponent]
  | some e =>
    have htext : (FloatLiteral.fraction negative n d (some e)).text ++ rest =
        signText negative ++ natText n ++ (46 :: d.1 ++ (e.text ++ rest)) := by simp [FloatLiteral.text]
    have hmark : Stops isDigit (e.text ++ rest) := by
      obtain ⟨upper, sign, d⟩ := e
      cases upper <;> exact stops_cons.2 rfl
    rw [htext]
    simp only [matchNumber, minus_text, List.cons_append, hdot, fraction?_text d hmark, exponent?_text e hdigit]

theorem matchNumber_exponent (repr : FloatLiteral → Str) (negative : Bool) (n : Nat) (e : Exponent) {rest : Str}
    (h : Stops isNumeral rest) :
    matchNumber repr ((FloatLiteral.exponent negative n e).text ++ rest) =
      .ok (.float (repr (.exponent negative n e)), rest) := by
  obtain ⟨hdigit, -, -⟩ := stops_numeral h
  have hmark : Stops isDigit (e.text ++ rest) := by
    obtain ⟨upper, sign, d⟩ := e
    cases upper <;> exact stops_cons.2 rfl
  have htext : (FloatLiteral.exponent negative n e).text ++ rest = signText negative ++ natText n ++ (e.text ++ rest) := by
    simp [FloatLiteral.text]
  rw [htext]
  simp only [matchNumber, minus_text, integer?_text n hmark, fraction?_exponent, exponent?_text e hdigit]

/-- What a number has taken. -/
theorem text_of_matchNumber {s r : Str} {v : Json} (n : Nat) (h : matchNumber repr s = .ok (v, r)) :
    ∃ d : Doc, s = d.text ++ r ∧ d.readable n = true ∧ d.value repr = v := by
  unfold matchNumber at h
  cases hminus : minus s with
  | mk negative body =>
    rw [text_of_minus hminus]
    rw [hminus] at h
    dsimp only at h
    split at h
    · cases h
    rename_i m r₁ hinteger
    rw [text_of_integer? hinteger]
    split at h
    · rename_i d r₂ hfraction
      rw [text_of_fraction? hfraction]
      split at h
      · rename_i e r₃ hexponent
        cases h
        rw [text_of_exponent? hexponent]
        exact ⟨.float (.fraction negative m d (some e)), by simp [Doc.text, FloatLiteral.text], rfl, rfl⟩
      · cases h
        exact ⟨.float (.fraction negative m d none), by simp [Doc.text, FloatLiteral.text], rfl, rfl⟩
    split at h
    · rename_i e r₂ hexponent
      cases h
      rw [text_of_exponent? hexponent]
      exact ⟨.float (.exponent negative m e), by simp [Doc.text, FloatLiteral.text], rfl, rfl⟩
    split at h
    · cases h
    · rename_i hlen
      cases h
      refine ⟨.int negative m, by simp [Doc.text], ?_, rfl⟩
      simpa [Doc.readable] using hlen

/-! ## Constants -/

theorem constant?_number (negative : Bool) (n : Nat) (rest : Str) :
    constant? repr (signText negative ++ natText n ++ rest) = none := by
  obtain ⟨c, s, htext, hdigit, -⟩ := natText_head n
  obtain ⟨hlow, hhigh⟩ := isDigit_iff.1 hdigit
  rw [htext]
  cases negative <;> interval_cases c <;> rfl

theorem text_of_constant? {s r : Str} {v : Json} (n : Nat) (h : constant? repr s = some (v, r)) :
    ∃ d : Doc, s = d.text ++ r ∧ d.readable n = true ∧ d.value repr = v := by
  obtain ⟨x, hx, hmatch⟩ := List.exists_of_findSome?_eq_some h
  split at hmatch
  · rename_i hstarts
    cases hmatch
    have hsplit := List.prefix_iff_eq_append.1 (List.isPrefixOf_iff_prefix.1 hstarts)
    have hdoc : ∃ d : Doc, d.text = x.1 ∧ d.readable n = true ∧ d.value repr = x.2 := by
      simp only [constants, List.mem_cons, List.not_mem_nil, or_false] at hx
      rcases hx with rfl | rfl | rfl | rfl | rfl | rfl
      · exact ⟨.null, rfl, rfl, rfl⟩
      · exact ⟨.bool true, rfl, rfl, rfl⟩
      · exact ⟨.bool false, rfl, rfl, rfl⟩
      · exact ⟨.float .nan, rfl, rfl, rfl⟩
      · exact ⟨.float (.infinity false), rfl, rfl, rfl⟩
      · exact ⟨.float (.infinity true), rfl, rfl, rfl⟩
    obtain ⟨d, htext, hread, hvalue⟩ := hdoc
    refine ⟨d, ?_, hread, hvalue⟩
    rw [htext]
    exact hsplit.symm
  · cases hmatch

/-! ## Values -/

/-- The first character of a value, which no white space and no closing bracket is. -/
theorem doc_head (d : Doc) : ∃ c s, d.text = c :: s ∧ isWhitespace c = false ∧ c ≠ 93 ∧ c ≠ 125 := by
  have hnumber : ∀ (negative : Bool) (n : Nat) (rest : Str), ∃ c s, signText negative ++ natText n ++ rest = c :: s ∧
      isWhitespace c = false ∧ c ≠ 93 ∧ c ≠ 125 := by
    intro negative n rest
    obtain ⟨c, s, htext, hdigit, -⟩ := natText_head n
    have hc := isDigit_iff.1 hdigit
    cases negative with
    | true => exact ⟨45, _, rfl, rfl, by omega, by omega⟩
    | false =>
      refine ⟨c, s ++ rest, by rw [htext]; rfl, ?_, by omega, by omega⟩
      simp only [isWhitespace, Bool.or_eq_false_iff, decide_eq_false_iff_not]
      omega
  cases d with
  | null => exact ⟨110, _, rfl, rfl, by omega, by omega⟩
  | bool b =>
    cases b with
    | false => exact ⟨102, _, rfl, rfl, by omega, by omega⟩
    | true => exact ⟨116, _, rfl, rfl, by omega, by omega⟩
  | int negative n => simpa [Doc.text] using hnumber negative n []
  | float f =>
    cases f with
    | nan => exact ⟨78, _, rfl, rfl, by omega, by omega⟩
    | infinity negative =>
      cases negative with
      | false => exact ⟨73, _, rfl, rfl, by omega, by omega⟩
      | true => exact ⟨45, _, rfl, rfl, by omega, by omega⟩
    | fraction negative n digits e =>
      simp only [Doc.text, FloatLiteral.text, List.append_assoc]
      simpa only [List.append_assoc] using hnumber negative n _
    | exponent negative n e => exact hnumber negative n e.text
  | str s => exact ⟨34, _, rfl, rfl, by omega, by omega⟩
  | arr gap l => exact ⟨91, _, rfl, rfl, by omega, by omega⟩
  | obj gap l => exact ⟨123, _, rfl, rfl, by omega, by omega⟩

theorem stops_doc (d : Doc) (rest : Str) : Stops isWhitespace (d.text ++ rest) := by
  obtain ⟨c, s, htext, hspace, -⟩ := doc_head d
  rw [htext]
  exact stops_cons.2 hspace

/-- No number goes on behind a gap and a punctuation mark. -/
theorem stops_gap (g : Gap) {c : Nat} {rest : Str} (h : isNumeral c = false) : Stops isNumeral (g.1 ++ c :: rest) := by
  obtain ⟨g, hg⟩ := g
  cases g with
  | nil => exact stops_cons.2 h
  | cons w g =>
    apply stops_cons.2
    have := hg w List.mem_cons_self
    rcases this with rfl | rfl | rfl | rfl <;> rfl

/-- A text that is no string, object or array is a constant or a number. -/
theorem scanOnce_scalar (n : Nat) {s : Str} (h : Stops (fun c => c = 34 || c = 123 || c = 91) s) :
    scanOnce repr n s =
      match constant? repr s with
      | some r => .ok r
      | none => matchNumber repr s := by
  rw [scanOnce.eq_def]
  split
  · cases stops_cons.1 h
  · cases stops_cons.1 h
  · cases stops_cons.1 h
  · cases stops_cons.1 h
  · cases stops_cons.1 h
  · rfl

theorem scanOnce_constant (n : Nat) {x : Str × Json} (hx : x ∈ constants repr) (rest : Str) :
    scanOnce repr n (x.1 ++ rest) = .ok (x.2, rest) := by
  simp only [constants, List.mem_cons, List.not_mem_nil, or_false] at hx
  rcases hx with rfl | rfl | rfl | rfl | rfl | rfl <;>
    exact (scanOnce_scalar n (s := _ :: _) (stops_cons.2 rfl)).trans rfl

theorem scanOnce_number (n : Nat) (negative : Bool) (m : Nat) (rest : Str) :
    scanOnce repr n (signText negative ++ natText m ++ rest) = matchNumber repr (signText negative ++ natText m ++ rest) := by
  rw [scanOnce_scalar n, constant?_number]
  obtain ⟨c, s, htext, hdigit, -⟩ := natText_head m
  have hc := isDigit_iff.1 hdigit
  cases negative with
  | true => exact stops_cons.2 rfl
  | false =>
    rw [htext]
    apply stops_cons.2
    simp only [Bool.or_eq_false_iff, decide_eq_false_iff_not]
    omega

theorem join_cons {x : Str} {l : List Str} (h : l ≠ []) : join (lit ",") (x :: l) = x ++ 44 :: join (lit ",") l := by
  cases l with
  | nil => exact absurd rfl h
  | cons y l =>
    rw [join, List.append_assoc]
    rfl

theorem elems_texts_ne_nil {l : Elems} (h : l ≠ .nil) : l.texts ≠ [] := by
  cases l with
  | nil => exact absurd rfl h
  | cons => exact List.cons_ne_nil _ _

theorem members_texts_ne_nil {l : Members} (h : l ≠ .nil) : l.texts ≠ [] := by
  cases l with
  | nil => exact absurd rfl h
  | cons => exact List.cons_ne_nil _ _

/-- An array that is not empty goes to its elements. -/
theorem parseArray_eq {scan : Str → Scanned Json} {s : Str} (h : ∀ r, skip s ≠ 93 :: r) :
    parseArray scan s = elements scan (skip s).length (skip s) := by
  unfold parseArray
  split
  · rename_i r hskip
    exact absurd hskip (h r)
  · rfl

theorem parseObject_eq {scan : Str → Scanned Json} {s : Str} (h : ∀ r, skip s ≠ 125 :: r) :
    parseObject scan s = members scan (skip s).length (skip s) := by
  unfold parseObject
  split
  · rename_i r hskip
    exact absurd hskip (h r)
  · rfl

/-- The further elements of an array, with their commas. -/
def moreElems : Elems → Str
  | .nil => []
  | l => 44 :: join (lit ",") l.texts

def moreMembers : Members → Str
  | .nil => []
  | l => 44 :: join (lit ",") l.texts

/-- What is behind the gap of an array that is not empty. -/
theorem skip_elems (before : Gap) (d : Doc) (after : Gap) (l : Elems) (rest : Str) :
    skip (join (lit ",") (Elems.cons before d after l).texts ++ rest) = d.text ++ (after.1 ++ (moreElems l ++ rest)) := by
  rw [← skip_gap before (stops_doc d _)]
  cases l with
  | nil => simp [Elems.texts, join, moreElems]
  | cons before' d' after' l =>
    rw [Elems.texts, join_cons (elems_texts_ne_nil (by simp)), moreElems]
    · simp
    · simp

theorem skip_members (before : Gap) (key : List Piece) (beforeColon afterColon : Gap) (d : Doc) (after : Gap) (l : Members)
    (rest : Str) :
    skip (join (lit ",") (Members.cons before key beforeColon afterColon d after l).texts ++ rest) =
      34 :: (key.flatMap Piece.text ++ 34 :: (beforeColon.1 ++ 58 :: (afterColon.1 ++ (d.text ++ (after.1 ++
        (moreMembers l ++ rest)))))) := by
  have hcolon : lit ":" = [58] := rfl
  rw [← skip_gap before (stops_cons.2 rfl)]
  cases l with
  | nil => simp [Members.texts, join, stringText, hcolon, moreMembers]
  | cons before' key' beforeColon' afterColon' d' after' l =>
    rw [Members.texts, join_cons (members_texts_ne_nil (by simp)), moreMembers]
    · simp [stringText, hcolon]
    · simp

theorem elems_open {l : Elems} (h : l ≠ .nil) (rest r : Str) : skip (join (lit ",") l.texts ++ rest) ≠ 93 :: r := by
  cases l with
  | nil => exact absurd rfl h
  | cons before d after l =>
    obtain ⟨c, s, htext, -, hbracket, -⟩ := doc_head d
    rw [skip_elems, htext]
    exact fun heq => hbracket (List.cons.inj heq).1

theorem members_open {l : Members} (h : l ≠ .nil) (rest r : Str) : skip (join (lit ",") l.texts ++ rest) ≠ 125 :: r := by
  cases l with
  | nil => exact absurd rfl h
  | cons before key beforeColon afterColon d after l =>
    rw [skip_members]
    intro heq
    cases (List.cons.inj heq).1

theorem arr_text (gap : Gap) (l : Elems) (rest : Str) :
    (Doc.arr gap l).text ++ rest = 91 :: (gap.1 ++ (join (lit ",") l.texts ++ 93 :: rest)) := by
  have hopen : lit "[" = [91] := rfl
  have hclose : lit "]" = [93] := rfl
  simp [Doc.text, hopen, hclose]

theorem obj_text (gap : Gap) (l : Members) (rest : Str) :
    (Doc.obj gap l).text ++ rest = 123 :: (gap.1 ++ (join (lit ",") l.texts ++ 125 :: rest)) := by
  have hopen : lit "\x7b" = [123] := rfl
  have hclose : lit "\x7d" = [125] := rfl
  simp [Doc.text, hopen, hclose]

mutual

/-- The text of a readable tree is read to its end, if no number could go on there. -/
theorem scanOnce_text : ∀ (d : Doc) (n : Nat) (rest : Str), d.readable n = true → Stops isNumeral rest →
    scanOnce repr n (d.text ++ rest) = .ok (d.value repr, rest)
  | .null, n, rest, _, _ => scanOnce_constant n (x := (lit "null", .null)) (by simp [constants]) rest
  | .bool true, n, rest, _, _ => scanOnce_constant n (x := (lit "true", .bool true)) (by simp [constants]) rest
  | .bool false, n, rest, _, _ => scanOnce_constant n (x := (lit "false", .bool false)) (by simp [constants]) rest
  | .int negative m, n, rest, hread, hrest => by
    rw [Doc.text, scanOnce_number, matchNumber_int negative m hrest (by simpa [Doc.readable] using hread)]
    rfl
  | .float .nan, n, rest, _, _ => scanOnce_constant n (x := (lit "NaN", .float (repr .nan))) (by simp [constants]) rest
  | .float (.infinity true), n, rest, _, _ =>
    scanOnce_constant n (x := (lit "-Infinity", .float (repr (.infinity true)))) (by simp [constants]) rest
  | .float (.infinity false), n, rest, _, _ =>
    scanOnce_constant n (x := (lit "Infinity", .float (repr (.infinity false)))) (by simp [constants]) rest
  | .float (.fraction negative m digits e), n, rest, _, hrest => by
    have hmatch := matchNumber_fraction repr negative m digits e hrest
    simp only [FloatLiteral.text, List.append_assoc] at hmatch
    simp only [Doc.text, FloatLiteral.text, List.append_assoc]
    rw [← List.append_assoc (signText negative)] at hmatch ⊢
    rw [scanOnce_number, hmatch]
    rfl
  | .float (.exponent negative m e), n, rest, _, hrest => by
    have hmatch := matchNumber_exponent repr negative m e hrest
    simp only [FloatLiteral.text, List.append_assoc] at hmatch
    simp only [Doc.text, FloatLiteral.text, List.append_assoc]
    rw [← List.append_assoc (signText negative)] at hmatch ⊢
    rw [scanOnce_number, hmatch]
    rfl
  | .str s, n, rest, _, _ => by
    have htext : (Doc.str s).text ++ rest = 34 :: (s.flatMap Piece.text ++ 34 :: rest) := by simp [Doc.text, stringText]
    rw [htext, scanOnce.eq_def]
    simp only [scanString_text]
    rfl
  | .arr gap l, 0, rest, hread, _ => by simp [Doc.readable] at hread
  | .arr gap l, n + 1, rest, hread, hrest => by
    simp only [Doc.readable, Bool.and_eq_true, Nat.add_sub_cancel] at hread
    rw [arr_text, scanOnce]
    by_cases hl : l = .nil
    · subst hl
      have hskip : skip (gap.1 ++ 93 :: rest) = 93 :: rest := skip_gap gap (stops_cons.2 rfl)
      simp only [Elems.texts, join, List.nil_append, parseArray, hskip]
      rfl
    · rw [parseArray_eq (by rw [skip_append_gap]; exact elems_open hl _), skip_append_gap, elements_text l n rest hl hread.2]
      rfl
  | .obj gap l, 0, rest, hread, _ => by simp [Doc.readable] at hread
  | .obj gap l, n + 1, rest, hread, hrest => by
    simp only [Doc.readable, Bool.and_eq_true, Nat.add_sub_cancel] at hread
    rw [obj_text, scanOnce]
    by_cases hl : l = .nil
    · subst hl
      have hskip : skip (gap.1 ++ 125 :: rest) = 125 :: rest := skip_gap gap (stops_cons.2 rfl)
      simp only [Members.texts, join, List.nil_append, parseObject, hskip]
      rfl
    · rw [parseObject_eq (by rw [skip_append_gap]; exact members_open hl _), skip_append_gap, members_text l n rest hl hread.2]
      rfl

theorem elements_text : ∀ (l : Elems) (n : Nat) (rest : Str), l ≠ .nil → l.readable n = true →
    elements (scanOnce repr n) (skip (join (lit ",") l.texts ++ 93 :: rest)).length
      (skip (join (lit ",") l.texts ++ 93 :: rest)) = .ok (l.values repr, rest)
  | .nil, _, _, hne, _ => absurd rfl hne
  | .cons before d after .nil, n, rest, _, hread => by
    simp only [Elems.readable, Bool.and_true] at hread
    rw [skip_elems]
    simp only [moreElems, List.nil_append]
    rw [elements_scanOnce, scanOnce_text d n _ hread (stops_gap after rfl)]
    simp only [skip_gap after (stops_cons.2 rfl : Stops isWhitespace (93 :: rest))]
    rfl
  | .cons before d after (.cons before' d' after' l), n, rest, _, hread => by
    simp only [Elems.readable, Bool.and_eq_true] at hread
    have hrest := elements_text (.cons before' d' after' l) n rest (by simp) (by simpa [Elems.readable] using hread.2)
    rw [skip_elems]
    simp only [moreElems, List.cons_append]
    rw [elements_scanOnce, scanOnce_text d n _ hread.1 (stops_gap after rfl)]
    simp only [skip_gap after (stops_cons.2 rfl : Stops isWhitespace (44 :: _)), hrest]
    rfl

theorem members_text : ∀ (l : Members) (n : Nat) (rest : Str), l ≠ .nil → l.readable n = true →
    members (scanOnce repr n) (skip (join (lit ",") l.texts ++ 125 :: rest)).length
      (skip (join (lit ",") l.texts ++ 125 :: rest)) = .ok (l.items repr, rest)
  | .nil, _, _, hne, _ => absurd rfl hne
  | .cons before key beforeColon afterColon d after .nil, n, rest, _, hread => by
    simp only [Members.readable, Bool.and_true] at hread
    have hvalue := scanOnce_text d n (after.1 ++ 125 :: rest) hread (stops_gap after rfl)
    rw [skip_members]
    simp only [moreMembers, List.nil_append]
    rw [members_scanOnce, scanString_text]
    simp only [skip_gap beforeColon (stops_cons.2 rfl : Stops isWhitespace (58 :: _)), skip_gap afterColon (stops_doc d _),
      hvalue, skip_gap after (stops_cons.2 rfl : Stops isWhitespace (125 :: rest))]
    rfl
  | .cons before key beforeColon afterColon d after (.cons before' key' beforeColon' afterColon' d' after' l), n, rest, _,
      hread => by
    simp only [Members.readable, Bool.and_eq_true] at hread
    have hrest := members_text (.cons before' key' beforeColon' afterColon' d' after' l) n rest (by simp)
      (by simpa [Members.readable] using hread.2)
    rw [skip_members]
    simp only [moreMembers, List.cons_append]
    generalize join (lit ",") (Members.cons before' key' beforeColon' afterColon' d' after' l).texts ++ 125 :: rest = tail at hrest ⊢
    have hvalue := scanOnce_text d n (after.1 ++ 44 :: tail) hread.1 (stops_gap after rfl)
    rw [members_scanOnce, scanString_text]
    simp only [skip_gap beforeColon (stops_cons.2 rfl : Stops isWhitespace (58 :: _)), skip_gap afterColon (stops_doc d _),
      hvalue, skip_gap after (stops_cons.2 rfl : Stops isWhitespace (44 :: tail)), hrest]
    rfl

end

/-! ## Trees that are not readable -/

/-- A limit of the interpreter, which a text that is written correctly can run into. -/
def ScanError.IsLimit : ScanError → Prop
  | .decode _ _ => False
  | .recursion | .intDigits => True

/-- The text runs into a limit. -/
def HitsLimit {α : Type} (x : Scanned α) : Prop := ∃ e, x = .error e ∧ e.IsLimit

theorem HitsLimit.map {α β : Type} {x : Scanned α} (h : HitsLimit x) (f : α × Str → β × Str) : HitsLimit (x.map f) := by
  obtain ⟨e, rfl, he⟩ := h
  exact ⟨e, rfl, he⟩

mutual

theorem scanOnce_unreadable : ∀ (d : Doc) (n : Nat) (rest : Str), d.readable n = false → Stops isNumeral rest →
    HitsLimit (scanOnce repr n (d.text ++ rest))
  | .int negative m, n, rest, hread, hrest => by
    obtain ⟨hdigit, hfraction, hexponent⟩ := stops_numeral hrest
    have hlong : PyInt.maxStrDigits < (natText m).length := by simpa [Doc.readable] using hread
    rw [Doc.text, scanOnce_number]
    simp only [matchNumber, minus_text, integer?_text m hdigit, hfraction, hexponent, if_pos hlong]
    exact ⟨_, rfl, trivial⟩
  | .arr gap l, 0, rest, _, _ => ⟨.recursion, rfl, trivial⟩
  | .arr gap l, n + 1, rest, hread, _ => by
    have hl : l ≠ .nil := by
      rintro rfl
      simp [Doc.readable, Elems.readable] at hread
    have hitems : l.readable n = false := by simpa [Doc.readable] using hread
    rw [arr_text, scanOnce, parseArray_eq (by rw [skip_append_gap]; exact elems_open hl _), skip_append_gap]
    exact (elements_unreadable l n rest hitems).map _
  | .obj gap l, 0, rest, _, _ => ⟨.recursion, rfl, trivial⟩
  | .obj gap l, n + 1, rest, hread, _ => by
    have hl : l ≠ .nil := by
      rintro rfl
      simp [Doc.readable, Members.readable] at hread
    have hitems : l.readable n = false := by simpa [Doc.readable] using hread
    rw [obj_text, scanOnce, parseObject_eq (by rw [skip_append_gap]; exact members_open hl _), skip_append_gap]
    exact (members_unreadable l n rest hitems).map _
  | .null, _, _, hread, _ | .bool _, _, _, hread, _ | .float _, _, _, hread, _ | .str _, _, _, hread, _ => by
    simp [Doc.readable] at hread

/-- The first element that is not readable ends the loop. -/
theorem elements_unreadable : ∀ (l : Elems) (n : Nat) (rest : Str), l.readable n = false →
    HitsLimit (elements (scanOnce repr n) (skip (join (lit ",") l.texts ++ 93 :: rest)).length
      (skip (join (lit ",") l.texts ++ 93 :: rest)))
  | .nil, _, _, hread => by simp [Elems.readable] at hread
  | .cons before d after l, n, rest, hread => by
    rw [skip_elems, elements_scanOnce]
    cases hd : d.readable n with
    | false =>
      have hstops : Stops isNumeral (after.1 ++ (moreElems l ++ 93 :: rest)) := by
        cases l <;> exact stops_gap after rfl
      obtain ⟨e, he, hlimit⟩ := scanOnce_unreadable d n _ hd hstops
      rw [he]
      exact ⟨e, rfl, hlimit⟩
    | true =>
      have hmore : l.readable n = false := by simpa [Elems.readable, hd] using hread
      have hrest := elements_unreadable l n rest hmore
      cases l with
      | nil => simp [Elems.readable] at hmore
      | cons before' d' after' l =>
        simp only [moreElems, List.cons_append]
        rw [scanOnce_text d n _ hd (stops_gap after rfl)]
        simp only [skip_gap after (stops_cons.2 rfl : Stops isWhitespace (44 :: _))]
        exact hrest.map _

theorem members_unreadable : ∀ (l : Members) (n : Nat) (rest : Str), l.readable n = false →
    HitsLimit (members (scanOnce repr n) (skip (join (lit ",") l.texts ++ 125 :: rest)).length
      (skip (join (lit ",") l.texts ++ 125 :: rest)))
  | .nil, _, _, hread => by simp [Members.readable] at hread
  | .cons before key beforeColon afterColon d after l, n, rest, hread => by
    rw [skip_members, members_scanOnce, scanString_text]
    simp only [skip_gap beforeColon (stops_cons.2 rfl : Stops isWhitespace (58 :: _)), skip_gap afterColon (stops_doc d _)]
    cases hd : d.readable n with
    | false =>
      have hstops : Stops isNumeral (after.1 ++ (moreMembers l ++ 125 :: rest)) := by
        cases l <;> exact stops_gap after rfl
      obtain ⟨e, he, hlimit⟩ := scanOnce_unreadable d n _ hd hstops
      rw [he]
      exact ⟨e, rfl, hlimit⟩
    | true =>
      have hmore : l.readable n = false := by simpa [Members.readable, hd] using hread
      have hrest := members_unreadable l n rest hmore
      cases l with
      | nil => simp [Members.readable] at hmore
      | cons before' key' beforeColon' afterColon' d' after' l =>
        simp only [moreMembers, List.cons_append]
        rw [scanOnce_text d n _ hd (stops_gap after rfl)]
        simp only [skip_gap after (stops_cons.2 rfl : Stops isWhitespace (44 :: _))]
        exact hrest.map _

end

/-! ## What a value has taken -/

/-- What is read is the text of a tree that is readable with `n` levels left. -/
def Takes (repr : FloatLiteral → Str) (n : Nat) (scan : Str → Scanned Json) : Prop :=
  ∀ s v r, CodePoints s → scan s = .ok (v, r) → ∃ d : Doc, s = d.text ++ r ∧ d.readable n = true ∧ d.value repr = v

variable {scan : Str → Scanned Json} {n : Nat}

theorem text_of_elements (hscan : Takes repr n scan) (k : Nat) {s r : Str} {vs : List Json} (hs : CodePoints s)
    (h : elements scan k s = .ok (vs, r)) (before : Gap) :
    ∃ l : Elems, l ≠ .nil ∧ before.1 ++ s = join (lit ",") l.texts ++ 93 :: r ∧ l.readable n = true ∧ l.values repr = vs := by
  induction k generalizing s vs before with
  | zero => cases h
  | succ k ih =>
    rw [elements] at h
    split at h
    · cases h
    rename_i v r₁ hv
    obtain ⟨d, htext, hread, hvalue⟩ := hscan _ _ _ hs hv
    obtain ⟨after, hafter⟩ := gap_of_skip r₁
    have hr₁ := hs.behind htext
    split at h
    · rename_i r₂ hskip
      cases h
      refine ⟨.cons before d after .nil, by simp, ?_, by simp [Elems.readable, hread], by rw [← hvalue]; rfl⟩
      rw [htext, hafter, hskip]
      simp [Elems.texts, join]
    · rename_i r₂ hskip
      obtain ⟨vs', r', hrest, heq⟩ := map_ok h
      cases heq
      obtain ⟨gap, hgap⟩ := gap_of_skip r₂
      obtain ⟨l, hne, hl, hlread, hlvalues⟩ := ih (hr₁.mark hskip).skip hrest gap
      refine ⟨.cons before d after l, by simp, ?_, by simp [Elems.readable, hread, hlread], ?_⟩
      · rw [← hgap] at hl
        rw [htext, hafter, hskip, hl, Elems.texts, join_cons (elems_texts_ne_nil hne)]
        simp
      · rw [← hvalue, ← hlvalues]
        rfl
    · cases h

theorem text_of_members (hscan : Takes repr n scan) (k : Nat) {s r : Str} {items : List (Str × Json)} (hs : CodePoints s)
    (h : members scan k s = .ok (items, r)) (before : Gap) :
    ∃ l : Members, l ≠ .nil ∧ before.1 ++ s = join (lit ",") l.texts ++ 125 :: r ∧ l.readable n = true ∧
      l.items repr = items := by
  induction k generalizing s items before with
  | zero => cases h
  | succ k ih =>
    unfold members at h
    split at h
    swap
    · cases h
    rename_i k' s hk
    cases hk
    split at h
    · cases h
    rename_i name r₁ hname
    obtain ⟨key, hkey, hkeyvalue⟩ := text_of_scanString hs.tail hname
    obtain ⟨beforeColon, hbefore⟩ := gap_of_skip r₁
    have hr₁ := hs.behind hkey
    split at h
    swap
    · cases h
    rename_i r₂ hcolon
    obtain ⟨afterColon, hbehind⟩ := gap_of_skip r₂
    have hr₂ := hr₁.mark hcolon
    split at h
    · cases h
    rename_i v r₃ hv
    obtain ⟨d, htext, hread, hvalue⟩ := hscan _ _ _ hr₂.skip hv
    obtain ⟨after, hafter⟩ := gap_of_skip r₃
    have hr₃ := hr₂.skip.behind htext
    have hcolonText : lit ":" = [58] := rfl
    split at h
    · rename_i r₄ hskip
      cases h
      refine ⟨.cons before key beforeColon afterColon d after .nil, by simp, ?_, by simp [Members.readable, hread], ?_⟩
      · rw [hkey, hbefore, hcolon, hbehind, htext, hafter, hskip]
        simp [Members.texts, join, hcolonText]
      · rw [← hvalue, ← hkeyvalue]
        rfl
    · rename_i r₄ hskip
      obtain ⟨items', r', hrest, heq⟩ := map_ok h
      cases heq
      obtain ⟨gap, hgap⟩ := gap_of_skip r₄
      obtain ⟨l, hne, hl, hlread, hlitems⟩ := ih (hr₃.mark hskip).skip hrest gap
      refine ⟨.cons before key beforeColon afterColon d after l, by simp, ?_, by simp [Members.readable, hread, hlread], ?_⟩
      · rw [← hgap] at hl
        rw [hkey, hbefore, hcolon, hbehind, htext, hafter, hskip, hl, Members.texts, join_cons (members_texts_ne_nil hne)]
        simp [hcolonText]
      · rw [← hvalue, ← hkeyvalue, ← hlitems]
        rfl
    · cases h

theorem scanOnce_takes (n : Nat) : Takes repr n (scanOnce repr n) := by
  induction n using Nat.strong_induction_on with
  | _ n ih =>
    intro s v r hs h
    unfold scanOnce at h
    split at h
    · obtain ⟨l, r', hstring, heq⟩ := map_ok h
      cases heq
      obtain ⟨pieces, htext, hvalue⟩ := text_of_scanString hs.tail hstring
      exact ⟨.str pieces, htext, rfl, by rw [← hvalue]; rfl⟩
    · cases h
    · rename_i n s
      obtain ⟨items, r', hobject, heq⟩ := map_ok h
      cases heq
      obtain ⟨gap, hgap⟩ := gap_of_skip s
      have hbehind := hs.tail.skip
      have hopen : lit "\x7b" = [123] := rfl
      have hclose : lit "\x7d" = [125] := rfl
      unfold parseObject at hobject
      split at hobject
      · rename_i r hskip
        cases hobject
        refine ⟨.obj gap .nil, ?_, by simp [Doc.readable, Members.readable], rfl⟩
        rw [hgap, hskip]
        simp [Doc.text, Members.texts, join, hopen, hclose]
      · obtain ⟨l, -, hl, hread, hitems⟩ := text_of_members (ih n (Nat.lt_succ_self n)) _ hbehind hobject gap
        rw [← hgap] at hl
        refine ⟨.obj .nothing l, ?_, by simp [Doc.readable, hread], by rw [← hitems]; rfl⟩
        rw [hl]
        simp [Doc.text, Gap.nothing, hopen, hclose]
    · cases h
    · rename_i n s
      obtain ⟨vs, r', harray, heq⟩ := map_ok h
      cases heq
      obtain ⟨gap, hgap⟩ := gap_of_skip s
      have hbehind := hs.tail.skip
      have hopen : lit "[" = [91] := rfl
      have hclose : lit "]" = [93] := rfl
      unfold parseArray at harray
      split at harray
      · rename_i r hskip
        cases harray
        refine ⟨.arr gap .nil, ?_, by simp [Doc.readable, Elems.readable], rfl⟩
        rw [hgap, hskip]
        simp [Doc.text, Elems.texts, join, hopen, hclose]
      · obtain ⟨l, -, hl, hread, hvalues⟩ := text_of_elements (ih n (Nat.lt_succ_self n)) _ hbehind harray gap
        rw [← hgap] at hl
        refine ⟨.arr .nothing l, ?_, by simp [Doc.readable, hread], by rw [← hvalues]; rfl⟩
        rw [hl]
        simp [Doc.text, Gap.nothing, hopen, hclose]
    · split at h
      · rename_i hconstant
        cases h
        exact text_of_constant? n hconstant
      · exact text_of_matchNumber n h

end

/-! ## Whole texts -/

section
variable {repr : FloatLiteral → Str} {nesting : Nat}

theorem skip_document (d : Document) : skip d.text = d.doc.text ++ d.after.1 := by
  rw [Document.text, List.append_assoc]
  exact skip_gap d.before (stops_doc d.doc _)

theorem stops_after (d : Document) : Stops isNumeral d.after.1 := by
  obtain ⟨before, doc, after, hspace⟩ := d
  cases after with
  | nil => exact stops_nil _
  | cons c after =>
    apply stops_cons.2
    rcases hspace c List.mem_cons_self with rfl | rfl | rfl | rfl <;> rfl

theorem decode_text (d : Document) (hread : d.doc.readable nesting = true) :
    decode repr nesting d.text = .ok (d.doc.value repr) := by
  have hend : skip d.after.1 = [] := by simpa using skip_gap d.after (stops_nil _)
  unfold decode
  rw [skip_document, scanOnce_text d.doc nesting d.after.1 hread (stops_after d)]
  simp only [hend]

theorem decode_unreadable (repr : FloatLiteral → Str) (d : Document) (hread : d.doc.readable nesting = false) :
    ∃ e, decode repr nesting d.text = .error e ∧ e.IsLimit := by
  have hlimits : HitsLimit (scanOnce repr nesting (d.doc.text ++ d.after.1)) :=
    scanOnce_unreadable d.doc nesting d.after.1 hread (stops_after d)
  obtain ⟨e, he, hlimit⟩ := hlimits
  refine ⟨e, ?_, hlimit⟩
  unfold decode
  rw [skip_document, he]

theorem text_of_decode {s : Str} {v : Json} (hs : CodePoints s) (h : decode repr nesting s = .ok v) :
    ∃ d : Document, s = d.text ∧ d.doc.readable nesting = true ∧ d.doc.value repr = v := by
  obtain ⟨before, hbefore⟩ := gap_of_skip s
  unfold decode at h
  split at h
  · cases h
  rename_i v' r hv
  obtain ⟨d, htext, hread, hvalue⟩ := scanOnce_takes nesting _ _ _ hs.skip hv
  obtain ⟨after, hafter⟩ := gap_of_skip r
  split at h
  · rename_i hend
    cases h
    refine ⟨⟨before, d, after⟩, ?_, hread, hvalue⟩
    rw [hbefore, htext, hafter, hend, Document.text]
    simp
  · cases h

end

section
variable {dec : Decoder} {raw : List Nat} {d : Document} {v : Json}

/-- Bytes that decode to the text of a tree are read as the tree is. -/
theorem loads_document (htext : dec.decode raw = some d.text) (h : dec.loads d = some v) : loads dec raw = .ok v := by
  obtain ⟨hread, rfl⟩ := Decoder.loads_eq_some.1 h
  simp only [loads, htext, loadsText, decode_text d hread]

theorem loads_document_none (htext : dec.decode raw = some d.text) (h : dec.loads d = none) :
    loads dec raw = .error .recursionError ∨ loads dec raw = .error .valueError := by
  have hread : d.doc.readable dec.nesting = false := by simpa [Decoder.loads] using h
  obtain ⟨e, he, hlimit⟩ := decode_unreadable dec.repr d hread
  simp only [loads, htext, loadsText, he]
  cases e with
  | decode => cases hlimit
  | recursion => exact .inl rfl
  | intDigits => exact .inr rfl

/-- `json.loads` reads exactly the texts of the readable trees, each for its value. -/
theorem loads_eq_ok_iff (hdec : ∀ s, dec.decode raw = some s → CodePoints s) :
    loads dec raw = .ok v ↔ ∃ d : Document, dec.decode raw = some d.text ∧ dec.loads d = some v := by
  constructor
  · intro h
    unfold loads at h
    split at h
    · cases h
    rename_i s hraw
    unfold loadsText at h
    split at h <;> cases h
    rename_i hv
    obtain ⟨d, rfl, hread, hvalue⟩ := text_of_decode (hdec s hraw) hv
    exact ⟨d, hraw, Decoder.loads_eq_some.2 ⟨hread, hvalue⟩⟩
  · rintro ⟨d, htext, hloads⟩
    exact loads_document htext hloads

end

end AetherNode.Lib.JsonScan
