import AetherNode.Lib.JsonText
import Mathlib.Data.List.TakeWhile
/-!
# Reading JSON texts

`json.loads` as the scanner of CPython runs it: one value, the white space
around it, and nothing else. It reads from the left, so what it raises is the
first error of the text, whatever follows. The loops over elements and members
have the length of the text as their fuel; `elements_scanOnce` and
`members_scanOnce` are those loops without it.
-/
namespace AetherNode.Lib.JsonScan

open Json JsonText

/-- What the scanner raises: a `JSONDecodeError` at the place where `rest` begins, a `RecursionError`, or the
`ValueError` of an integer that is too long. -/
inductive ScanError where
  | decode (message : Str) (rest : Str)
  | recursion
  | intDigits

/-- What is read, and the text behind it. -/
abbrev Scanned (α : Type) := Except ScanError (α × Str)

def isWhitespace (c : Nat) : Bool := c = 32 || c = 9 || c = 10 || c = 13

def skip (s : Str) : Str := s.dropWhile isWhitespace

def isDigit (c : Nat) : Bool := 48 ≤ c && c ≤ 57

/-! ## Strings -/

/-- A character of a string, or the unit of a `\u` escape. -/
inductive CharUnit where
  | char (c : Nat)
  | unicode (u : Nat)

def hexValue (c : Nat) : Option Nat :=
  if isDigit c then some (c - 48)
  else if 65 ≤ c ∧ c ≤ 70 then some (c - 55)
  else if 97 ≤ c ∧ c ≤ 102 then some (c - 87)
  else none

def hexUnit (a b c d : Nat) : Option Nat :=
  match hexValue a, hexValue b, hexValue c, hexValue d with
  | some a, some b, some c, some d => some (((a * 16 + b) * 16 + c) * 16 + d)
  | _, _, _, _ => none

/-- The character of an escape of one letter. -/
def unescape (c : Nat) : Option Nat :=
  if c = 34 ∨ c = 92 ∨ c = 47 then some c
  else if c = 98 then some 8
  else if c = 102 then some 12
  else if c = 110 then some 10
  else if c = 114 then some 13
  else if c = 116 then some 9
  else none

/-- The units of a string that begins at `begin`, up to its quote. The digits of an escape must not end the text. -/
def scanUnits (begin : Str) : Str → Scanned (List CharUnit)
  | [] => .error (.decode (lit "Unterminated string starting at") begin)
  | 34 :: s => .ok ([], s)
  | 92 :: [] => .error (.decode (lit "Unterminated string starting at") begin)
  | 92 :: c :: s =>
    if c = 117 then
      match s with
      | d3 :: d2 :: d1 :: d0 :: next :: s =>
        match hexUnit d3 d2 d1 d0 with
        | none => .error (.decode (lit "Invalid \\uXXXX escape") (117 :: d3 :: d2 :: d1 :: d0 :: next :: s))
        | some u => (scanUnits begin (next :: s)).map fun r => (.unicode u :: r.1, r.2)
      | s => .error (.decode (lit "Invalid \\uXXXX escape") (117 :: s))
    else
      match unescape c with
      | none => .error (.decode (lit "Invalid \\escape") (92 :: c :: s))
      | some d => (scanUnits begin s).map fun r => (.char d :: r.1, r.2)
  | c :: s =>
    if c < 32 then .error (.decode (lit "Invalid control character at") (c :: s))
    else (scanUnits begin s).map fun r => (.char c :: r.1, r.2)

/-- Two units that are a surrogate pair make one character. -/
def joinUnits : List CharUnit → Str
  | .unicode u :: .unicode v :: s =>
    if isHighSurrogate u && isLowSurrogate v then joinSurrogates u v :: joinUnits s else u :: joinUnits (.unicode v :: s)
  | .unicode u :: s => u :: joinUnits s
  | .char c :: s => c :: joinUnits s
  | [] => []

/-- `scanstring`, behind the opening quote. -/
def scanString (s : Str) : Scanned Str := (scanUnits (34 :: s) s).map fun r => (joinUnits r.1, r.2)

/-! ## Numbers and constants -/

/-- A run of digits. -/
def digits? (s : Str) : Option (Digits × Str) :=
  if h : s.takeWhile isDigit ≠ [] then
    some (⟨s.takeWhile isDigit, h, fun c hc => by simpa [isDigit] using List.mem_takeWhile_imp hc⟩, s.dropWhile isDigit)
  else none

/-- The digits of an integer: a zero stands alone. -/
def integer? : Str → Option (Nat × Str)
  | 48 :: s => some (0, s)
  | s => (digits? s).map fun r => ((digitsVal? r.1.1).getD 0, r.2)

def fraction? : Str → Option (Digits × Str)
  | 46 :: s => digits? s
  | _ => none

/-- The sign of an exponent; true is a minus. -/
def exponentSign : Str → Option Bool × Str
  | 45 :: s => (some true, s)
  | 43 :: s => (some false, s)
  | s => (none, s)

def exponent? : Str → Option (Exponent × Str)
  | c :: s =>
    if c = 101 ∨ c = 69 then (digits? (exponentSign s).2).map fun r => (⟨c = 69, (exponentSign s).1, r.1⟩, r.2)
    else none
  | [] => none

/-- The sign of a number. -/
def minus : Str → Bool × Str
  | 45 :: s => (true, s)
  | s => (false, s)

section
variable (repr : FloatLiteral → Str)

/-- `_match_number`. -/
def matchNumber (s : Str) : Scanned Json :=
  let (negative, body) := minus s
  match integer? body with
  | none => .error (.decode (lit "Expecting value") s)
  | some (n, r) =>
    match fraction? r with
    | some (d, r) =>
      match exponent? r with
      | some (e, r) => .ok (.float (repr (.fraction negative n d (some e))), r)
      | none => .ok (.float (repr (.fraction negative n d none)), r)
    | none =>
      match exponent? r with
      | some (e, r) => .ok (.float (repr (.exponent negative n e)), r)
      | none =>
        if PyInt.maxStrDigits < (natText n).length then .error .intDigits
        else .ok (.int (if negative then -(n : Int) else n), r)

/-- The named constants, and what they stand for. -/
def constants : List (Str × Json) :=
  [(lit "null", .null), (lit "true", .bool true), (lit "false", .bool false), (lit "NaN", .float (repr .nan)),
    (lit "Infinity", .float (repr (.infinity false))), (lit "-Infinity", .float (repr (.infinity true)))]

def constant? (s : Str) : Option (Json × Str) :=
  (constants repr).findSome? fun x => if x.1.isPrefixOf s then some (x.2, s.drop x.1.length) else none

/-! ## Values -/

/-- The elements of an array that is not empty, up to its bracket. -/
def elements (scan : Str → Scanned Json) : Nat → Str → Scanned (List Json)
  | 0, s => .error (.decode (lit "Expecting value") s)
  | k + 1, s =>
    match scan s with
    | .error e => .error e
    | .ok (v, r) =>
      match skip r with
      | 93 :: r => .ok ([v], r)
      | 44 :: r => (elements scan k (skip r)).map fun l => (v :: l.1, l.2)
      | r => .error (.decode (lit "Expecting ',' delimiter") r)

/-- `_parse_array`, behind the bracket. -/
def parseArray (scan : Str → Scanned Json) (s : Str) : Scanned (List Json) :=
  match skip s with
  | 93 :: r => .ok ([], r)
  | s => elements scan s.length s

/-- The members of an object that is not empty, up to its brace. -/
def members (scan : Str → Scanned Json) : Nat → Str → Scanned (List (Str × Json))
  | k + 1, 34 :: s =>
    match scanString s with
    | .error e => .error e
    | .ok (key, r) =>
      match skip r with
      | 58 :: r =>
        match scan (skip r) with
        | .error e => .error e
        | .ok (v, r) =>
          match skip r with
          | 125 :: r => .ok ([(key, v)], r)
          | 44 :: r => (members scan k (skip r)).map fun l => ((key, v) :: l.1, l.2)
          | r => .error (.decode (lit "Expecting ',' delimiter") r)
      | r => .error (.decode (lit "Expecting ':' delimiter") r)
  | _, s => .error (.decode (lit "Expecting property name enclosed in double quotes") s)

/-- `_parse_object`, behind the brace. -/
def parseObject (scan : Str → Scanned Json) (s : Str) : Scanned (List (Str × Json)) :=
  match skip s with
  | 125 :: r => .ok ([], r)
  | s => members scan s.length s

/-- `scan_once`, with so many levels of nesting left. -/
def scanOnce : Nat → Str → Scanned Json
  | _, 34 :: s => (scanString s).map fun r => (.str r.1, r.2)
  | 0, 123 :: _ => .error .recursion
  | n + 1, 123 :: s => (parseObject (scanOnce n) s).map fun r => (.obj (dictOf r.1), r.2)
  | 0, 91 :: _ => .error .recursion
  | n + 1, 91 :: s => (parseArray (scanOnce n) s).map fun r => (.arr r.1, r.2)
  | _, s =>
    match constant? repr s with
    | some r => .ok r
    | none => matchNumber repr s

/-- `JSONDecoder.decode`. -/
def decode (nesting : Nat) (s : Str) : Except ScanError Json :=
  match scanOnce repr nesting (skip s) with
  | .error e => .error e
  | .ok (v, r) =>
    match skip r with
    | [] => .ok v
    | r => .error (.decode (lit "Extra data") r)

end

/-! ## `json.loads` -/

inductive LoadsError where
  | jsonDecodeError (message : Str)
  | unicodeDecodeError
  | recursionError
  | valueError
  deriving DecidableEq

/-- The message of a `JSONDecodeError` about a text, at the place where `rest` begins. -/
def errmsg (message doc rest : Str) : Str :=
  let pos := doc.length - rest.length
  let before := doc.take pos
  message ++ lit ": line " ++ natText (before.count 10 + 1) ++ lit " column " ++
    natText ((before.reverse.takeWhile (· ≠ 10)).length + 1) ++ lit " (char " ++ natText pos ++ lit ")"

/-- `json.loads` of a text. -/
def loadsText (dec : Decoder) (s : Str) : Except LoadsError Json :=
  match decode dec.repr dec.nesting s with
  | .ok v => .ok v
  | .error (.decode message rest) => .error (.jsonDecodeError (errmsg message s rest))
  | .error .recursion => .error .recursionError
  | .error .intDigits => .error .valueError

/-- `json.loads` of bytes. -/
def loads (dec : Decoder) (raw : List Nat) : Except LoadsError Json :=
  match dec.decode raw with
  | none => .error .unicodeDecodeError
  | some s => loadsText dec s

/-! ## What a scanner leaves -/

/-- A scanner that takes something wherever it reads a value. -/
def Shortens {α : Type} (scan : Str → Scanned α) : Prop := ∀ s v r, scan s = .ok (v, r) → r.length < s.length

theorem skip_length_le (s : Str) : (skip s).length ≤ s.length := (List.dropWhile_suffix isWhitespace).length_le

/-- What `map` has read comes from what was read. -/
theorem map_ok {α β : Type} {x : Scanned α} {f : α × Str → β × Str} {y : β × Str} (h : x.map f = .ok y) :
    ∃ a r, x = .ok (a, r) ∧ f (a, r) = y := by
  cases x with
  | error e => cases h
  | ok a => exact ⟨a.1, a.2, rfl, Except.ok.inj h⟩

theorem scanUnits_shortens (begin : Str) : Shortens (scanUnits begin) := by
  intro s
  fun_induction scanUnits begin s with
  | case1 | case3 | case4 | case6 | case7 | case9 =>
    intro l r h
    cases h
  | case2 =>
    intro l r h
    cases h
    exact Nat.lt_succ_self _
  | case5 d3 d2 d1 d0 next s u _ ih =>
    intro l r h
    obtain ⟨l', r', hrest, heq⟩ := map_ok h
    cases heq
    exact Nat.lt_add_right 6 (ih l' r' hrest)
  | case8 c s _ d _ ih =>
    intro l r h
    obtain ⟨l', r', hrest, heq⟩ := map_ok h
    cases heq
    exact Nat.lt_add_right 2 (ih l' r' hrest)
  | case10 c s _ _ _ _ ih =>
    intro l r h
    obtain ⟨l', r', hrest, heq⟩ := map_ok h
    cases heq
    exact Nat.lt_add_right 1 (ih l' r' hrest)

theorem scanString_shortens : Shortens scanString := by
  intro s v r h
  obtain ⟨l, r', hunits, heq⟩ := map_ok h
  cases heq
  exact scanUnits_shortens _ s l r' hunits

theorem digits?_shortens {s r : Str} {d : Digits} (h : digits? s = some (d, r)) : r.length < s.length := by
  unfold digits? at h
  split at h
  · rename_i hne
    cases h
    have hsplit := congrArg List.length (List.takeWhile_append_dropWhile (p := isDigit) (l := s))
    have hpos := List.length_pos_iff.2 hne
    rw [List.length_append] at hsplit
    omega
  · cases h

theorem integer?_shortens {s r : Str} {n : Nat} (h : integer? s = some (n, r)) : r.length < s.length := by
  unfold integer? at h
  split at h
  · cases h
    exact Nat.lt_succ_self _
  · obtain ⟨d, hd, heq⟩ := Option.map_eq_some_iff.1 h
    cases heq
    exact digits?_shortens hd

theorem fraction?_shortens {s r : Str} {d : Digits} (h : fraction? s = some (d, r)) : r.length < s.length := by
  unfold fraction? at h
  split at h
  · exact Nat.lt_succ_of_lt (digits?_shortens h)
  · cases h

theorem exponentSign_length_le (s : Str) : (exponentSign s).2.length ≤ s.length := by
  unfold exponentSign
  split
  · exact Nat.le_succ _
  · exact Nat.le_succ _
  · exact Nat.le_refl _

theorem exponent?_shortens {s r : Str} {e : Exponent} (h : exponent? s = some (e, r)) : r.length < s.length := by
  unfold exponent? at h
  split at h
  · split at h
    · rename_i c s _
      obtain ⟨d, hd, heq⟩ := Option.map_eq_some_iff.1 h
      cases heq
      exact Nat.lt_succ_of_lt (Nat.lt_of_lt_of_le (digits?_shortens hd) (exponentSign_length_le s))
    · cases h
  · cases h

section
variable {repr : FloatLiteral → Str}

theorem minus_length_le (s : Str) : (minus s).2.length ≤ s.length := by
  unfold minus
  split
  · exact Nat.le_succ _
  · exact Nat.le_refl _

theorem matchNumber_shortens : Shortens (matchNumber repr) := by
  intro s v r h
  have hbody := minus_length_le s
  unfold matchNumber at h
  generalize minus s = x at h hbody
  obtain ⟨negative, body⟩ := x
  dsimp only at h hbody
  split at h
  · cases h
  rename_i n r' hint
  have hn := integer?_shortens hint
  split at h
  · rename_i d r'' hfraction
    have hd := fraction?_shortens hfraction
    split at h
    · rename_i e _ hexponent
      have he := exponent?_shortens hexponent
      cases h
      omega
    · cases h
      omega
  split at h
  · rename_i e _ hexponent
    have he := exponent?_shortens hexponent
    cases h
    omega
  split at h
  · cases h
  · cases h
    omega

theorem constant?_shortens {s r : Str} {v : Json} (h : constant? repr s = some (v, r)) : r.length < s.length := by
  obtain ⟨x, hx, hmatch⟩ := List.exists_of_findSome?_eq_some h
  split at hmatch
  · rename_i hstarts
    cases hmatch
    have hle := (List.isPrefixOf_iff_prefix.1 hstarts).length_le
    have hpos : 0 < x.1.length := by
      simp only [constants, List.mem_cons, List.not_mem_nil, or_false] at hx
      rcases hx with rfl | rfl | rfl | rfl | rfl | rfl <;> exact Nat.succ_pos _
    rw [List.length_drop]
    omega
  · cases hmatch

variable {scan : Str → Scanned Json}

/-- The first character behind white space, and what is behind it. -/
theorem skip_eq_cons {s r : Str} {c : Nat} (h : skip s = c :: r) : r.length < s.length := by
  have := skip_length_le s
  rw [h, List.length_cons] at this
  omega

theorem elements_shortens (hscan : Shortens scan) (k : Nat) : Shortens (elements scan k) := by
  induction k with
  | zero =>
    intro s l r h
    cases h
  | succ k ih =>
    intro s l r h
    rw [elements] at h
    split at h
    · cases h
    rename_i v r₁ hv
    have hfirst := hscan _ _ _ hv
    split at h
    · rename_i r₂ hskip
      cases h
      exact Nat.lt_trans (skip_eq_cons hskip) hfirst
    · rename_i r₂ hskip
      obtain ⟨l', r', hrest, heq⟩ := map_ok h
      cases heq
      have hcomma := skip_eq_cons hskip
      have hle := skip_length_le r₂
      have := ih _ _ _ hrest
      dsimp only
      omega
    · cases h

theorem members_shortens (hscan : Shortens scan) (k : Nat) : Shortens (members scan k) := by
  induction k with
  | zero =>
    intro s l r h
    cases h
  | succ k ih =>
    intro s l r h
    unfold members at h
    split at h
    swap
    · cases h
    rename_i k' s hk
    cases hk
    split at h
    · cases h
    rename_i key r₁ hkey
    have hname := scanString_shortens _ _ _ hkey
    split at h
    swap
    · cases h
    rename_i r₂ hcolon
    have hbehind := skip_eq_cons hcolon
    have hgap := skip_length_le r₂
    split at h
    · cases h
    rename_i v r₃ hv
    have hfirst := hscan _ _ _ hv
    rw [List.length_cons]
    split at h
    · rename_i r₄ hbrace
      cases h
      have := skip_eq_cons hbrace
      omega
    · rename_i r₄ hskip
      obtain ⟨l', r', hrest, heq⟩ := map_ok h
      cases heq
      have hcomma := skip_eq_cons hskip
      have hle := skip_length_le r₄
      have := ih _ _ _ hrest
      dsimp only
      omega
    · cases h

/-- Where the elements shorten the text, its length is fuel enough. -/
theorem elements_fuel (hscan : Shortens scan) (hnil : scan [] = .error (.decode (lit "Expecting value") [])) {k k' : Nat}
    {s : Str} (hk : s.length ≤ k) (hk' : s.length ≤ k') : elements scan k s = elements scan k' s := by
  induction k generalizing k' s with
  | zero =>
    obtain rfl := List.eq_nil_of_length_eq_zero (Nat.le_zero.1 hk)
    cases k' with
    | zero => rfl
    | succ k' => rw [elements, elements, hnil]
  | succ k ih =>
    cases k' with
    | zero =>
      obtain rfl := List.eq_nil_of_length_eq_zero (Nat.le_zero.1 hk')
      rw [elements, elements, hnil]
    | succ k' =>
      rw [elements, elements]
      split
      · rfl
      rename_i v r hv
      have hfirst := hscan _ _ _ hv
      split
      · rfl
      · rename_i r' hskip
        have hcomma := skip_eq_cons hskip
        have hle := skip_length_le r'
        rw [ih (by omega) (by omega : (skip r').length ≤ k')]
      · rfl

theorem members_fuel (hscan : Shortens scan) {k k' : Nat} {s : Str} (hk : s.length ≤ k) (hk' : s.length ≤ k') :
    members scan k s = members scan k' s := by
  induction k generalizing k' s with
  | zero =>
    obtain rfl := List.eq_nil_of_length_eq_zero (Nat.le_zero.1 hk)
    cases k' <;> rfl
  | succ k ih =>
    cases k' with
    | zero =>
      obtain rfl := List.eq_nil_of_length_eq_zero (Nat.le_zero.1 hk')
      rfl
    | succ k' =>
      by_cases hquote : ∃ s', s = 34 :: s'
      · obtain ⟨s, rfl⟩ := hquote
        rw [List.length_cons] at hk hk'
        rw [members, members]
        split
        · rfl
        rename_i key r₁ hkey
        have hname := scanString_shortens _ _ _ hkey
        split
        · rename_i r₂ hcolon
          have hbehind := skip_eq_cons hcolon
          have hgap := skip_length_le r₂
          split
          · rfl
          rename_i v r₃ hv
          have hfirst := hscan _ _ _ hv
          split
          · rfl
          · rename_i r₄ hskip
            have hcomma := skip_eq_cons hskip
            have hle := skip_length_le r₄
            rw [ih (by omega) (by omega : (skip r₄).length ≤ k')]
          · rfl
        · rfl
      · have hother : ∀ k, members scan k s = .error (.decode (lit "Expecting property name enclosed in double quotes") s) := by
          intro k
          unfold members
          split
          · exact absurd ⟨_, rfl⟩ hquote
          · rfl
        rw [hother, hother]

theorem scanOnce_nil (n : Nat) : scanOnce repr n [] = .error (.decode (lit "Expecting value") []) := by
  cases n <;> rfl

theorem parseArray_shortens (hscan : Shortens scan) : Shortens (parseArray scan) := by
  intro s l r h
  have hle := skip_length_le s
  unfold parseArray at h
  split at h
  · rename_i r hskip
    cases h
    exact skip_eq_cons hskip
  · exact Nat.lt_of_lt_of_le (elements_shortens hscan _ _ _ _ h) hle

theorem parseObject_shortens (hscan : Shortens scan) : Shortens (parseObject scan) := by
  intro s l r h
  have hle := skip_length_le s
  unfold parseObject at h
  split at h
  · rename_i r hskip
    cases h
    exact skip_eq_cons hskip
  · exact Nat.lt_of_lt_of_le (members_shortens hscan _ _ _ _ h) hle

theorem scanOnce_shortens (n : Nat) : Shortens (scanOnce repr n) := by
  induction n using Nat.strong_induction_on with
  | _ n ih =>
    intro s v r h
    unfold scanOnce at h
    split at h
    · obtain ⟨l, r', hstring, heq⟩ := map_ok h
      cases heq
      exact Nat.lt_succ_of_lt (scanString_shortens _ _ _ hstring)
    · cases h
    · rename_i n s
      obtain ⟨l, r', hobject, heq⟩ := map_ok h
      cases heq
      exact Nat.lt_succ_of_lt (parseObject_shortens (ih n (Nat.lt_succ_self n)) _ _ _ hobject)
    · cases h
    · rename_i n s
      obtain ⟨l, r', harray, heq⟩ := map_ok h
      cases heq
      exact Nat.lt_succ_of_lt (parseArray_shortens (ih n (Nat.lt_succ_self n)) _ _ _ harray)
    · split at h
      · rename_i hconstant
        cases h
        exact constant?_shortens hconstant
      · exact matchNumber_shortens _ _ _ h

/-- The loop over the elements, as it runs without fuel. -/
theorem elements_scanOnce (n : Nat) (s : Str) :
    elements (scanOnce repr n) s.length s =
      match scanOnce repr n s with
      | .error e => .error e
      | .ok (v, r) =>
        match skip r with
        | 93 :: r => .ok ([v], r)
        | 44 :: r => (elements (scanOnce repr n) (skip r).length (skip r)).map fun l => (v :: l.1, l.2)
        | r => .error (.decode (lit "Expecting ',' delimiter") r) := by
  rw [elements_fuel (scanOnce_shortens n) (scanOnce_nil n) (Nat.le_refl _) (Nat.le_succ _), elements]
  split
  · rfl
  rename_i v r hv
  have hfirst := scanOnce_shortens n _ _ _ hv
  split
  · rfl
  · rename_i r' hskip
    have hcomma := skip_eq_cons hskip
    have hle := skip_length_le r'
    rw [elements_fuel (scanOnce_shortens n) (scanOnce_nil n) (by omega : (skip r').length ≤ s.length) (Nat.le_refl _)]
  · rfl

/-- The loop over the members. -/
theorem members_scanOnce (n : Nat) (s : Str) :
    members (scanOnce repr n) (34 :: s).length (34 :: s) =
      match scanString s with
      | .error e => .error e
      | .ok (key, r) =>
        match skip r with
        | 58 :: r =>
          match scanOnce repr n (skip r) with
          | .error e => .error e
          | .ok (v, r) =>
            match skip r with
            | 125 :: r => .ok ([(key, v)], r)
            | 44 :: r => (members (scanOnce repr n) (skip r).length (skip r)).map fun l => ((key, v) :: l.1, l.2)
            | r => .error (.decode (lit "Expecting ',' delimiter") r)
        | r => .error (.decode (lit "Expecting ':' delimiter") r) := by
  rw [List.length_cons, members]
  split
  · rfl
  rename_i key r₁ hkey
  have hname := scanString_shortens _ _ _ hkey
  split
  · rename_i r₂ hcolon
    have hbehind := skip_eq_cons hcolon
    have hgap := skip_length_le r₂
    split
    · rfl
    rename_i v r₃ hv
    have hfirst := scanOnce_shortens n _ _ _ hv
    split
    · rfl
    · rename_i r₄ hskip
      have hcomma := skip_eq_cons hskip
      have hle := skip_length_le r₄
      rw [members_fuel (scanOnce_shortens n) (by omega : (skip r₄).length ≤ s.length) (Nat.le_refl _)]
    · rfl
  · rfl

end

end AetherNode.Lib.JsonScan
