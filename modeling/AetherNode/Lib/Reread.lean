import AetherNode.Lib.JsonGrammar
import AetherNode.Lib.Reencode
import Mathlib.Data.List.Nodup
/-!
# Reading printed values

`json.loads` on what `json.dumps` writes. Almost every value comes back: only
a high and a low surrogate that follow each other in a string are printed as
the escapes of one character, and are read as it. What has been read once is
read back as it is, and is printed as before where no key of an object is
affected.
-/
namespace AetherNode.Lib.Reread

open Json JsonText JsonScan

/-! ## Strings -/

/-- What is read of a printed string. -/
def rejoin : Str → Str
  | u :: v :: s => if isHighSurrogate u && isLowSurrogate v then joinSurrogates u v :: rejoin s else u :: rejoin (v :: s)
  | s => s

def hexDigitOf (n : Nat) : HexDigit := ⟨⟨n % 16, Nat.mod_lt n (Nat.succ_pos 15)⟩, false⟩

def hexUnitOf (n : Nat) : HexUnit := ⟨hexDigitOf (n / 4096), hexDigitOf (n / 256), hexDigitOf (n / 16), hexDigitOf n⟩

/-- How a character is printed. -/
def charPieces (c : Nat) : List Piece :=
  if c = 34 then [.escape .quote]
  else if c = 92 then [.escape .backslash]
  else if c = 10 then [.escape .newline]
  else if c = 13 then [.escape .carriageReturn]
  else if c = 9 then [.escape .tab]
  else if c = 12 then [.escape .formFeed]
  else if c = 8 then [.escape .backspace]
  else if 32 ≤ c ∧ c ≤ 126 then [plain c]
  else if c < 0x10000 then [.unicode (hexUnitOf c)]
  else [.unicode (hexUnitOf (0xD800 + (c - 0x10000) / 0x400)), .unicode (hexUnitOf (0xDC00 + (c - 0x10000) % 0x400))]

theorem hexUnitOf_text (n : Nat) : (hexUnitOf n).text = hexEscape n := rfl

theorem hexUnitOf_value {n : Nat} (h : n < 0x10000) : (hexUnitOf n).value = n := by
  simp only [HexUnit.value, hexUnitOf, hexDigitOf]
  omega

theorem plain_eq {c : Nat} (h : 32 ≤ c) (hc : c ≤ 126) (hquote : c ≠ 34) (hslash : c ≠ 92) :
    plain c = .plain ⟨c, h, hquote, hslash, by omega⟩ := dif_pos ⟨h, hquote, hslash, by omega⟩

/-- The ways a character is printed. -/
inductive Printing (c : Nat) : List Piece → Prop
  | letter {p} : (∀ u, p ≠ .unicode u) → p.char = c → c < 127 → p.text = escapeChar c → Printing c [p]
  | unit : c < 0x10000 → escapeChar c = hexEscape c → Printing c [.unicode (hexUnitOf c)]
  | pair : 0x10000 ≤ c → escapeChar c = hexEscape (0xD800 + (c - 0x10000) / 0x400) ++ hexEscape (0xDC00 + (c - 0x10000) % 0x400) →
      Printing c [.unicode (hexUnitOf (0xD800 + (c - 0x10000) / 0x400)), .unicode (hexUnitOf (0xDC00 + (c - 0x10000) % 0x400))]

theorem charPieces_printing (c : Nat) : Printing c (charPieces c) := by
  unfold charPieces
  by_cases hquote : c = 34
  · subst hquote
    exact .letter (by simp) rfl (by omega) rfl
  by_cases hslash : c = 92
  · subst hslash
    exact .letter (by simp) rfl (by omega) rfl
  by_cases hnewline : c = 10
  · subst hnewline
    exact .letter (by simp) rfl (by omega) rfl
  by_cases hreturn : c = 13
  · subst hreturn
    exact .letter (by simp) rfl (by omega) rfl
  by_cases htab : c = 9
  · subst htab
    exact .letter (by simp) rfl (by omega) rfl
  by_cases hfeed : c = 12
  · subst hfeed
    exact .letter (by simp) rfl (by omega) rfl
  by_cases hback : c = 8
  · subst hback
    exact .letter (by simp) rfl (by omega) rfl
  have hescape : escapeChar c = if 32 ≤ c ∧ c ≤ 126 then [c] else if c < 0x10000 then hexEscape c
      else hexEscape (0xD800 + (c - 0x10000) / 0x400) ++ hexEscape (0xDC00 + (c - 0x10000) % 0x400) := by
    simp only [escapeChar, hquote, hslash, hnewline, hreturn, htab, hfeed, hback, if_false]
  simp only [hquote, hslash, hnewline, hreturn, htab, hfeed, hback, if_false]
  by_cases hplain : 32 ≤ c ∧ c ≤ 126
  · rw [if_pos hplain] at hescape ⊢
    rw [plain_eq hplain.1 hplain.2 hquote hslash]
    exact .letter (by simp) rfl (by omega) hescape.symm
  rw [if_neg hplain] at hescape ⊢
  by_cases hunit : c < 0x10000
  · rw [if_pos hunit] at hescape ⊢
    exact .unit hunit hescape
  · rw [if_neg hunit] at hescape ⊢
    exact .pair (Nat.not_lt.1 hunit) hescape

theorem charPieces_text (c : Nat) : (charPieces c).flatMap Piece.text = escapeChar c := by
  have h := charPieces_printing c
  generalize charPieces c = l at h
  cases h with
  | letter _ _ _ htext => simp [htext]
  | unit _ hescape => rw [hescape]; simp [Piece.text, hexUnitOf_text]
  | pair _ hescape => rw [hescape]; simp [Piece.text, hexUnitOf_text]

theorem stringText_pieces (s : Str) : stringText (s.flatMap charPieces) = quote s := by
  have hchars : (s.flatMap charPieces).flatMap Piece.text = s.flatMap escapeChar := by
    rw [List.flatMap_assoc]
    exact congrArg (fun f => s.flatMap f) (funext charPieces_text)
  rw [stringText, quote, hchars]

/-- The next unit is a low surrogate. -/
def StartsLow : List Piece → Prop
  | .unicode v :: _ => isLowSurrogate v.value = true
  | _ => False

theorem isHighSurrogate_iff {c : Nat} : isHighSurrogate c = true ↔ 0xD800 ≤ c ∧ c ≤ 0xDBFF := by
  simp [isHighSurrogate]

theorem isLowSurrogate_iff {c : Nat} : isLowSurrogate c = true ↔ 0xDC00 ≤ c ∧ c ≤ 0xDFFF := by
  simp [isLowSurrogate]

theorem stringValue_letter {p : Piece} (h : ∀ u, p ≠ .unicode u) (rest : List Piece) :
    stringValue (p :: rest) = p.char :: stringValue rest := by
  cases p with
  | unicode u => exact absurd rfl (h u)
  | plain c | escape e => simp [stringValue]

theorem stringValue_unit {u : HexUnit} {rest : List Piece} (h : isHighSurrogate u.value = true → ¬ StartsLow rest) :
    stringValue (.unicode u :: rest) = u.value :: stringValue rest := by
  cases rest with
  | nil => rfl
  | cons q rest =>
    cases q with
    | unicode v =>
      have hno : ¬ (isHighSurrogate u.value && isLowSurrogate v.value) = true := by
        rw [Bool.and_eq_true]
        exact fun hpair => h hpair.1 hpair.2
      rw [stringValue, if_neg hno]
    | plain c | escape e => simp [stringValue, Piece.char]

theorem startsLow_pieces {c : Nat} (hc : c < 0x110000) (rest : List Piece) :
    StartsLow (charPieces c ++ rest) ↔ isLowSurrogate c = true := by
  have h := charPieces_printing c
  generalize charPieces c = l at h
  cases h with
  | @letter p hp hchar hsmall _ =>
    refine iff_of_false ?_ (by rw [isLowSurrogate_iff]; omega)
    cases p with
    | unicode u => exact absurd rfl (hp u)
    | plain c | escape e => exact fun h => h
  | unit hunit _ =>
    show isLowSurrogate (hexUnitOf c).value = true ↔ _
    rw [hexUnitOf_value hunit]
  | pair hastral _ =>
    show isLowSurrogate (hexUnitOf _).value = true ↔ _
    rw [hexUnitOf_value (by omega), isLowSurrogate_iff, isLowSurrogate_iff]
    omega

theorem joinSurrogates_astral (u v : Nat) : 0x10000 ≤ joinSurrogates u v := by
  unfold joinSurrogates
  omega

theorem joinSurrogates_units {c : Nat} (h : 0x10000 ≤ c) :
    joinSurrogates (0xD800 + (c - 0x10000) / 0x400) (0xDC00 + (c - 0x10000) % 0x400) = c := by
  unfold joinSurrogates
  rw [Nat.add_sub_cancel_left, Nat.add_sub_cancel_left]
  omega

/-- A printed character is read, unless it joins what follows it. -/
theorem stringValue_pieces {c : Nat} (hc : c < 0x110000) {rest : List Piece}
    (h : isHighSurrogate c = true → ¬ StartsLow rest) : stringValue (charPieces c ++ rest) = c :: stringValue rest := by
  have hprint := charPieces_printing c
  generalize charPieces c = l at hprint
  cases hprint with
  | letter hp hchar _ _ => rw [List.singleton_append, stringValue_letter hp, hchar]
  | unit hunit _ =>
    have hvalue := hexUnitOf_value hunit
    rw [List.singleton_append, stringValue_unit (by rwa [hvalue]), hvalue]
  | pair hastral _ =>
    have hhigh := hexUnitOf_value (n := 0xD800 + (c - 0x10000) / 0x400) (by omega)
    have hlow := hexUnitOf_value (n := 0xDC00 + (c - 0x10000) % 0x400) (by omega)
    have hpair : (isHighSurrogate (hexUnitOf (0xD800 + (c - 0x10000) / 0x400)).value &&
        isLowSurrogate (hexUnitOf (0xDC00 + (c - 0x10000) % 0x400)).value) = true := by
      rw [hhigh, hlow, Bool.and_eq_true, isHighSurrogate_iff, isLowSurrogate_iff]
      omega
    simp only [List.cons_append, List.nil_append]
    rw [stringValue, if_pos hpair, hhigh, hlow, joinSurrogates_units hastral]

theorem stringValue_printed {s : Str} (hs : CodePoints s) : stringValue (s.flatMap charPieces) = rejoin s := by
  fun_induction rejoin s with
  | case1 u v s hpair ih =>
    rw [Bool.and_eq_true, isHighSurrogate_iff, isLowSurrogate_iff] at hpair
    have hunit : ∀ c, 0xD800 ≤ c → c ≤ 0xDFFF → charPieces c = [.unicode (hexUnitOf c)] := by
      intro c hlow hhigh
      unfold charPieces
      repeat rw [if_neg (by omega)]
      rw [if_pos (by omega)]
    have hu := hexUnitOf_value (n := u) (by omega)
    have hv := hexUnitOf_value (n := v) (by omega)
    rw [List.flatMap_cons, List.flatMap_cons, hunit u hpair.1.1 (by omega), hunit v (by omega) hpair.2.2]
    simp only [List.cons_append, List.nil_append]
    rw [stringValue, if_pos (by rw [hu, hv, Bool.and_eq_true, isHighSurrogate_iff, isLowSurrogate_iff]; exact hpair),
      hu, hv, ih hs.tail.tail]
  | case2 u v s hpair ih =>
    rw [List.flatMap_cons, stringValue_pieces (hs u (by simp)), ih hs.tail]
    intro hhigh hlow
    rw [List.flatMap_cons, startsLow_pieces (hs v (by simp))] at hlow
    exact hpair (by rw [hhigh, hlow]; rfl)
  | case3 s hno =>
    cases s with
    | nil => rfl
    | cons c s =>
      cases s with
      | nil =>
        rw [List.flatMap_cons, stringValue_pieces (hs c (by simp)) fun _ hlow => by cases hlow]
        rfl
      | cons v s => exact absurd rfl (hno c v s)

/-! ### Strings that are read as they are -/

/-- No two characters would be read as one. -/
def Joined (s : Str) : Prop := s.IsChain fun u v => ¬ (isHighSurrogate u = true ∧ isLowSurrogate v = true)

theorem rejoin_of_joined {s : Str} (h : Joined s) : rejoin s = s := by
  fun_induction rejoin s with
  | case1 u v s hpair ih =>
    rw [Bool.and_eq_true] at hpair
    exact absurd hpair (List.isChain_cons_cons.1 h).1
  | case2 u v s hpair ih => rw [ih (List.isChain_cons_cons.1 h).2]
  | case3 s hno => rfl

/-- A rejoined text begins as it did, or with a character of two surrogates. -/
theorem rejoin_head (v : Nat) (s : Str) : ∃ c r, rejoin (v :: s) = c :: r ∧ (c = v ∨ 0x10000 ≤ c) := by
  cases s with
  | nil => exact ⟨v, [], rfl, .inl rfl⟩
  | cons w s =>
    rw [rejoin]
    split
    · exact ⟨_, _, rfl, .inr (joinSurrogates_astral v w)⟩
    · exact ⟨_, _, rfl, .inl rfl⟩

theorem joined_rejoin (s : Str) : Joined (rejoin s) := by
  fun_induction rejoin s with
  | case1 u v s hpair ih =>
    cases hs : rejoin s with
    | nil => exact List.IsChain.singleton _
    | cons c r =>
      rw [hs] at ih
      refine List.isChain_cons_cons.2 ⟨?_, ih⟩
      rintro ⟨hhigh, -⟩
      rw [isHighSurrogate_iff] at hhigh
      have := joinSurrogates_astral u v
      omega
  | case2 u v s hpair ih =>
    obtain ⟨c, r, hs, hc⟩ := rejoin_head v s
    rw [hs] at ih ⊢
    refine List.isChain_cons_cons.2 ⟨?_, ih⟩
    rintro ⟨hhigh, hlow⟩
    rcases hc with rfl | hc
    · exact hpair (by rw [hhigh, hlow]; rfl)
    · rw [isLowSurrogate_iff] at hlow
      omega
  | case3 s hno =>
    cases s with
    | nil => exact List.IsChain.nil
    | cons c s =>
      cases s with
      | nil => exact List.IsChain.singleton c
      | cons v s => exact absurd rfl (hno c v s)

theorem rejoin_rejoin (s : Str) : rejoin (rejoin s) = rejoin s := rejoin_of_joined (joined_rejoin s)

/-- Without surrogates nothing is joined. -/
theorem joined_of_encodable {s : Str} (h : encodable s = true) : Joined s := by
  induction s with
  | nil => exact List.IsChain.nil
  | cons c s ih =>
    have hall := List.all_eq_true.1 h
    cases s with
    | nil => exact List.IsChain.singleton c
    | cons v s =>
      refine List.isChain_cons_cons.2 ⟨?_, ih (List.all_eq_true.2 fun x hx => hall x (List.mem_cons_of_mem c hx))⟩
      rintro ⟨hhigh, -⟩
      have hc := hall c List.mem_cons_self
      rw [isHighSurrogate_iff] at hhigh
      simp only [isSurrogate, Bool.not_eq_true', Bool.and_eq_false_iff, decide_eq_false_iff_not] at hc
      omega

/-- The escapes are those of the two characters. -/
theorem escapeChar_join {u v : Nat} (hu : isHighSurrogate u = true) (hv : isLowSurrogate v = true) :
    escapeChar (joinSurrogates u v) = escapeChar u ++ escapeChar v := by
  rw [isHighSurrogate_iff] at hu
  rw [isLowSurrogate_iff] at hv
  have hunit : ∀ c, 0xD800 ≤ c → c ≤ 0xDFFF → escapeChar c = hexEscape c := by
    intro c hlow hhigh
    unfold escapeChar
    repeat rw [if_neg (by omega)]
    rw [if_pos (by omega)]
  have hastral : ∀ c, 0x10000 ≤ c →
      escapeChar c = hexEscape (0xD800 + (c - 0x10000) / 0x400) ++ hexEscape (0xDC00 + (c - 0x10000) % 0x400) := by
    intro c hc
    unfold escapeChar
    repeat rw [if_neg (by omega)]
  have hunits : 0xD800 + (joinSurrogates u v - 0x10000) / 0x400 = u ∧ 0xDC00 + (joinSurrogates u v - 0x10000) % 0x400 = v := by
    unfold joinSurrogates
    omega
  rw [hastral _ (joinSurrogates_astral u v), hunit u hu.1 (by omega), hunit v (by omega) hv.2, hunits.1, hunits.2]

theorem quote_rejoin (s : Str) : quote (rejoin s) = quote s := by
  have hchars : (rejoin s).flatMap escapeChar = s.flatMap escapeChar := by
    fun_induction rejoin s with
    | case1 u v s hpair ih =>
      rw [Bool.and_eq_true] at hpair
      rw [List.flatMap_cons, ih, escapeChar_join hpair.1 hpair.2, List.flatMap_cons, List.flatMap_cons, List.append_assoc]
    | case2 u v s hpair ih => rw [List.flatMap_cons, ih, ← List.flatMap_cons]
    | case3 s hno => rfl
  rw [quote, quote, hchars]

/-! ## Values -/

mutual

/-- What `json.loads` returns for the printed value. -/
def reread : Json → Json
  | .str s => .str (rejoin s)
  | .arr l => .arr (rereadAll l)
  | .obj l => .obj (dictOf (rereadItems l))
  | v => v

def rereadAll : List Json → List Json
  | [] => []
  | v :: l => reread v :: rereadAll l

def rereadItems : List (Str × Json) → List (Str × Json)
  | [] => []
  | (k, v) :: l => (rejoin k, reread v) :: rereadItems l

end

theorem rereadAll_eq_map (l : List Json) : rereadAll l = l.map reread := by
  induction l with
  | nil => rfl
  | cons v l ih => rw [rereadAll, ih, List.map_cons]

theorem rereadItems_eq_map (l : List (Str × Json)) : rereadItems l = l.map fun kv => (rejoin kv.1, reread kv.2) := by
  induction l with
  | nil => rfl
  | cons kv l ih => rw [rereadItems, ih, List.map_cons]

/-- Every float that has been read is printed as a literal that reads as it, as `float(repr(x))` is `x`. -/
def Stable (repr : FloatLiteral → Str) : Prop := ∀ f, ∃ g : FloatLiteral, g.text = repr f ∧ repr g = repr f

section
variable (repr : FloatLiteral → Str)

mutual

/-- What is printed can be read, with so many levels of nesting left. -/
def Readable : Json → Nat → Prop
  | .int z, _ => (natText z.natAbs).length ≤ PyInt.maxStrDigits
  | .float r, _ => ∃ f : FloatLiteral, f.text = r ∧ repr f = r
  | .str s, _ => CodePoints s
  | .arr l, nesting => 0 < nesting ∧ ReadableAll l (nesting - 1)
  | .obj l, nesting => 0 < nesting ∧ ReadableItems l (nesting - 1)
  | _, _ => True

def ReadableAll : List Json → Nat → Prop
  | [], _ => True
  | v :: l, nesting => Readable v nesting ∧ ReadableAll l nesting

def ReadableItems : List (Str × Json) → Nat → Prop
  | [], _ => True
  | (k, v) :: l, nesting => CodePoints k ∧ Readable v nesting ∧ ReadableItems l nesting

end

end

variable {repr : FloatLiteral → Str}

theorem readableItems_iff {l : List (Str × Json)} {n : Nat} :
    ReadableItems repr l n ↔ ∀ kv ∈ l, CodePoints kv.1 ∧ Readable repr kv.2 n := by
  induction l with
  | nil => simp [ReadableItems]
  | cons kv l ih => simp [ReadableItems, ih, and_assoc]

theorem readableAll_iff {l : List Json} {n : Nat} : ReadableAll repr l n ↔ ∀ v ∈ l, Readable repr v n := by
  induction l with
  | nil => simp [ReadableAll]
  | cons v l ih => simp [ReadableAll, ih]

/-- What is in an object that can be read can be read one level further in. -/
theorem readable_get {d : Dict} {key : Str} {v : Json} {n : Nat} (h : Readable repr (.obj d) n) (hget : d.get key = some v) :
    Readable repr v (n - 1) := by
  obtain ⟨kv, hfind, rfl⟩ := Option.map_eq_some_iff.1 hget
  exact (readableItems_iff.1 h.2 kv (List.mem_of_find?_eq_some hfind)).2

theorem codePoints_text {d : Dict} {n : Nat} (h : Readable repr (.obj d) n) (key : Str) : CodePoints (d.text key) := by
  unfold Dict.text
  split
  · rename_i s hs
    exact readable_get h hs
  · exact fun c hc => by cases hc

mutual

/-- With more nesting left, no less can be read. -/
theorem Readable.mono : ∀ (v : Json) {n m : Nat}, n ≤ m → Readable repr v n → Readable repr v m
  | .null, _, _, _, h => h
  | .bool _, _, _, _, h => h
  | .int _, _, _, _, h => h
  | .float _, _, _, _, h => h
  | .str _, _, _, _, h => h
  | .arr l, _, _, hle, h => ⟨Nat.lt_of_lt_of_le h.1 hle, ReadableAll.mono l (Nat.sub_le_sub_right hle 1) h.2⟩
  | .obj l, _, _, hle, h => ⟨Nat.lt_of_lt_of_le h.1 hle, ReadableItems.mono l (Nat.sub_le_sub_right hle 1) h.2⟩

theorem ReadableAll.mono : ∀ (l : List Json) {n m : Nat}, n ≤ m → ReadableAll repr l n → ReadableAll repr l m
  | [], _, _, _, _ => trivial
  | v :: l, _, _, hle, h => ⟨Readable.mono v hle h.1, ReadableAll.mono l hle h.2⟩

theorem ReadableItems.mono : ∀ (l : List (Str × Json)) {n m : Nat}, n ≤ m → ReadableItems repr l n → ReadableItems repr l m
  | [], _, _, _, _ => trivial
  | (_, v) :: l, _, _, hle, h => ⟨h.1, Readable.mono v hle h.2.1, ReadableItems.mono l hle h.2.2⟩

end

/-! ## The tree of a printed value -/

/-- The gap behind each comma and colon: a space by default, and nothing in the canonical form. -/
def space : Gap := ⟨[32], by simp⟩

section
variable (behind : Gap)

/-- Elements after one another. -/
def elemsOf (gap : Gap) : List Doc → Elems
  | [] => .nil
  | d :: l => .cons gap d .nothing (elemsOf behind l)

def membersOf (gap : Gap) : List (List Piece × Doc) → Members
  | [] => .nil
  | m :: l => .cons gap m.1 .nothing behind m.2 .nothing (membersOf behind l)

/-- The text of a member. -/
def memberText (m : List Piece × Doc) : Str := stringText m.1 ++ (lit ":" ++ behind.1) ++ m.2.text

theorem elemsOf_texts (gap : Gap) (d : Doc) (l : List Doc) :
    (elemsOf behind gap (d :: l)).texts = (gap.1 ++ d.text) :: l.map fun d => behind.1 ++ d.text := by
  induction l generalizing gap d with
  | nil => simp [elemsOf, Elems.texts, Gap.nothing]
  | cons d' l ih =>
    rw [elemsOf, Elems.texts, ih, List.map_cons]
    simp only [Gap.nothing, List.append_nil]

theorem membersOf_texts (gap : Gap) (m : List Piece × Doc) (l : List (List Piece × Doc)) :
    (membersOf behind gap (m :: l)).texts = (gap.1 ++ memberText behind m) :: l.map fun m => behind.1 ++ memberText behind m := by
  induction l generalizing gap m with
  | nil => simp [membersOf, Members.texts, Gap.nothing, memberText]
  | cons m' l ih =>
    rw [membersOf, Members.texts, ih, List.map_cons]
    simp only [memberText, Gap.nothing, List.append_nil, List.append_assoc]

theorem join_behind (x : Str) (l : List Str) :
    join (lit ",") (x :: l.map fun t => behind.1 ++ t) = join (lit "," ++ behind.1) (x :: l) := by
  induction l generalizing x with
  | nil => rfl
  | cons y l ih =>
    have hstart : ∀ l : List Str, join (lit ",") ((behind.1 ++ y) :: l) = behind.1 ++ join (lit ",") (y :: l) := by
      intro l
      cases l <;> simp [join]
    rw [List.map_cons, join, hstart, ih, join]
    simp only [List.append_assoc]

theorem arr_printed (l : List Doc) : (Doc.arr .nothing (elemsOf behind .nothing l)).text =
    lit "[" ++ join (lit "," ++ behind.1) (l.map Doc.text) ++ lit "]" := by
  cases l with
  | nil => rfl
  | cons d l =>
    have hmap : (l.map fun d => behind.1 ++ d.text) = (l.map Doc.text).map fun t => behind.1 ++ t := by
      rw [List.map_map]
      rfl
    rw [Doc.text, elemsOf_texts, hmap, join_behind, List.map_cons]
    simp [Gap.nothing]

theorem obj_printed (l : List (List Piece × Doc)) : (Doc.obj .nothing (membersOf behind .nothing l)).text =
    lit "\x7b" ++ join (lit "," ++ behind.1) (l.map (memberText behind)) ++ lit "\x7d" := by
  cases l with
  | nil => rfl
  | cons m l =>
    have hmap : (l.map fun m => behind.1 ++ memberText behind m) = (l.map (memberText behind)).map fun t => behind.1 ++ t := by
      rw [List.map_map]
      rfl
    rw [Doc.text, membersOf_texts, hmap, join_behind, List.map_cons]
    simp [Gap.nothing]

theorem elemsOf_values (gap : Gap) (l : List Doc) : (elemsOf behind gap l).values repr = l.map fun d => d.value repr := by
  induction l generalizing gap with
  | nil => rfl
  | cons d l ih => rw [elemsOf, Elems.values, ih, List.map_cons]

theorem membersOf_items (gap : Gap) (l : List (List Piece × Doc)) :
    (membersOf behind gap l).items repr = l.map fun m => (stringValue m.1, m.2.value repr) := by
  induction l generalizing gap with
  | nil => rfl
  | cons m l ih => rw [membersOf, Members.items, ih, List.map_cons]

theorem elemsOf_readable {gap : Gap} {l : List Doc} {n : Nat} (h : ∀ d ∈ l, d.readable n = true) :
    (elemsOf behind gap l).readable n = true := by
  induction l generalizing gap with
  | nil => rfl
  | cons d l ih =>
    rw [elemsOf, Elems.readable, h d List.mem_cons_self, ih fun x hx => h x (List.mem_cons_of_mem d hx)]
    rfl

theorem membersOf_readable {gap : Gap} {l : List (List Piece × Doc)} {n : Nat} (h : ∀ m ∈ l, m.2.readable n = true) :
    (membersOf behind gap l).readable n = true := by
  induction l generalizing gap with
  | nil => rfl
  | cons m l ih =>
    rw [membersOf, Members.readable, h m List.mem_cons_self, ih fun x hx => h x (List.mem_cons_of_mem m hx)]
    rfl

end

theorem int_printed (repr : FloatLiteral → Str) (z : Int) : (Doc.int (decide (z < 0)) z.natAbs).text = intText z ∧
    (Doc.int (decide (z < 0)) z.natAbs).value repr = .int z := by
  cases z with
  | ofNat n =>
    have hneg : decide (Int.ofNat n < 0) = false := decide_eq_false (by simp)
    rw [hneg]
    exact ⟨rfl, rfl⟩
  | negSucc n =>
    have hneg : decide (Int.negSucc n < 0) = true := decide_eq_true (Int.negSucc_lt_zero n)
    rw [hneg]
    exact ⟨rfl, rfl⟩

section
variable (behind : Gap)

mutual

/-- A printed value is the text of a tree, for what is read of it. -/
theorem tree_of_value : ∀ (v : Json) (n : Nat), Readable repr v n →
    ∃ d : Doc, d.text = dumps (lit "," ++ behind.1) (lit ":" ++ behind.1) v ∧ d.value repr = reread v ∧ d.readable n = true
  | .null, _, _ => ⟨.null, rfl, rfl, rfl⟩
  | .bool true, _, _ => ⟨.bool true, rfl, rfl, rfl⟩
  | .bool false, _, _ => ⟨.bool false, rfl, rfl, rfl⟩
  | .int z, n, h => ⟨.int (decide (z < 0)) z.natAbs, (int_printed repr z).1, (int_printed repr z).2, decide_eq_true h⟩
  | .float r, _, h => by
    obtain ⟨f, htext, hrepr⟩ := h
    exact ⟨.float f, htext, congrArg Json.float hrepr, rfl⟩
  | .str s, _, h => ⟨.str (s.flatMap charPieces), stringText_pieces s, congrArg Json.str (stringValue_printed h), rfl⟩
  | .arr l, n, h => by
    obtain ⟨ds, htexts, hvalues, hread⟩ := trees_of_values l (n - 1) h.2
    refine ⟨.arr .nothing (elemsOf behind .nothing ds), ?_, ?_, ?_⟩
    · rw [arr_printed, htexts]
      rfl
    · rw [Doc.value, elemsOf_values, hvalues, reread]
    · rw [Doc.readable, elemsOf_readable behind hread, decide_eq_true h.1]
      rfl
  | .obj l, n, h => by
    obtain ⟨ms, htexts, hvalues, hread⟩ := trees_of_items l (n - 1) h.2
    refine ⟨.obj .nothing (membersOf behind .nothing ms), ?_, ?_, ?_⟩
    · rw [obj_printed, htexts]
      rfl
    · rw [Doc.value, membersOf_items, hvalues, reread]
    · rw [Doc.readable, membersOf_readable behind hread, decide_eq_true h.1]
      rfl

theorem trees_of_values : ∀ (l : List Json) (n : Nat), ReadableAll repr l n →
    ∃ ds : List Doc, ds.map Doc.text = dumpsAll (lit "," ++ behind.1) (lit ":" ++ behind.1) l ∧
      (ds.map fun d => d.value repr) = rereadAll l ∧ ∀ d ∈ ds, d.readable n = true
  | [], _, _ => ⟨[], rfl, rfl, by simp⟩
  | v :: l, n, h => by
    obtain ⟨d, htext, hvalue, hread⟩ := tree_of_value v n h.1
    obtain ⟨ds, htexts, hvalues, hreads⟩ := trees_of_values l n h.2
    refine ⟨d :: ds, ?_, ?_, List.forall_mem_cons.2 ⟨hread, hreads⟩⟩
    · rw [List.map_cons, htext, htexts]
      rfl
    · rw [List.map_cons, hvalue, hvalues, rereadAll]

theorem trees_of_items : ∀ (l : List (Str × Json)) (n : Nat), ReadableItems repr l n →
    ∃ ms : List (List Piece × Doc), ms.map (memberText behind) = dumpsItems (lit "," ++ behind.1) (lit ":" ++ behind.1) l ∧
      (ms.map fun m => (stringValue m.1, m.2.value repr)) = rereadItems l ∧ ∀ m ∈ ms, m.2.readable n = true
  | [], _, _ => ⟨[], rfl, rfl, by simp⟩
  | (k, v) :: l, n, h => by
    obtain ⟨d, htext, hvalue, hread⟩ := tree_of_value v n h.2.1
    obtain ⟨ms, htexts, hvalues, hreads⟩ := trees_of_items l n h.2.2
    refine ⟨(k.flatMap charPieces, d) :: ms, ?_, ?_, List.forall_mem_cons.2 ⟨hread, hreads⟩⟩
    · rw [List.map_cons, htexts, memberText, stringText_pieces, htext]
      rfl
    · rw [List.map_cons, hvalues, stringValue_printed h.1, hvalue, rereadItems]

end

theorem decode_printed {d : Doc} {v : Json} {n : Nat} (hread : d.readable n = true)
    (htext : d.text = dumps (lit "," ++ behind.1) (lit ":" ++ behind.1) v) :
    decode repr n (dumps (lit "," ++ behind.1) (lit ":" ++ behind.1) v) = .ok (d.value repr) := by
  have hdocument : Document.text ⟨.nothing, d, .nothing⟩ = dumps (lit "," ++ behind.1) (lit ":" ++ behind.1) v := by
    rw [Document.text, htext]
    simp [Gap.nothing]
  rw [← hdocument]
  exact decode_text ⟨.nothing, d, .nothing⟩ hread

/-- Values printed alike are read alike. -/
theorem reread_eq_of_dumps {v w : Json} {n : Nat} (hv : Readable repr v n) (hw : Readable repr w n)
    (h : dumps (lit "," ++ behind.1) (lit ":" ++ behind.1) v = dumps (lit "," ++ behind.1) (lit ":" ++ behind.1) w) :
    reread v = reread w := by
  obtain ⟨d, htext, hvalue, hread⟩ := tree_of_value behind v n hv
  obtain ⟨d', htext', hvalue', hread'⟩ := tree_of_value behind w n hw
  have hone : decode repr n (dumps (lit "," ++ behind.1) (lit ":" ++ behind.1) v) = .ok (d.value repr) :=
    decode_printed behind hread htext
  rw [h, decode_printed behind hread' htext'] at hone
  rw [← hvalue, ← hvalue']
  exact (Except.ok.inj hone).symm

end

/-- What `json.dumps` writes `json.loads` reads, as `reread` says. -/
theorem loads_dumps {dec : Decoder} {v : Json} (h : Readable dec.repr v dec.nesting) :
    loadsText dec (dumpsDefault v) = .ok (reread v) := by
  obtain ⟨d, htext, hvalue, hread⟩ := tree_of_value space v dec.nesting h
  have hdecode : decode dec.repr dec.nesting (dumpsDefault v) = .ok (d.value dec.repr) := decode_printed space hread htext
  simp only [loadsText, hdecode, hvalue]

/-! ## Printed bytes -/

/-- Printable ASCII. -/
def Printable (s : Str) : Prop := ∀ c ∈ s, 32 ≤ c ∧ c ≤ 126

theorem Printable.append {s t : Str} (hs : Printable s) (ht : Printable t) : Printable (s ++ t) :=
  List.forall_mem_append.2 ⟨hs, ht⟩

/-- A text that is written out. -/
theorem printable_of_all {s : Str} (h : (s.all fun c => Nat.ble 32 c && Nat.ble c 126) = true) : Printable s := by
  intro c hc
  have hboth := List.all_eq_true.1 h c hc
  rwa [Bool.and_eq_true, Nat.ble_eq, Nat.ble_eq] at hboth

theorem printable_nil : Printable [] := printable_of_all rfl

theorem Printable.cons {c : Nat} {s : Str} (hc : 32 ≤ c ∧ c ≤ 126) (hs : Printable s) : Printable (c :: s) :=
  List.forall_mem_cons.2 ⟨hc, hs⟩

theorem printable_join {sep : Str} (hsep : Printable sep) {l : List Str} (hl : ∀ s ∈ l, Printable s) : Printable (join sep l) := by
  induction l with
  | nil => exact printable_nil
  | cons x l ih =>
    obtain ⟨hx, hl⟩ := List.forall_mem_cons.1 hl
    cases l with
    | nil => exact hx
    | cons y l => exact (hx.append hsep).append (ih hl)

theorem printable_digits {s : Str} (h : ∀ c ∈ s, 48 ≤ c ∧ c ≤ 57) : Printable s := by
  intro c hc
  have := h c hc
  omega

theorem printable_natText (n : Nat) : Printable (natText n) := printable_digits (PyInt.natText_digits n)

theorem printable_intText (z : Int) : Printable (intText z) := by
  cases z with
  | ofNat n => exact printable_natText n
  | negSucc n => exact .append (printable_of_all rfl) (printable_natText (n + 1))

theorem printable_hexEscape (n : Nat) : Printable (hexEscape n) := by
  have hdigit : ∀ d, 32 ≤ Json.hexDigit (d % 16) ∧ Json.hexDigit (d % 16) ≤ 126 := by
    intro d
    unfold Json.hexDigit
    split <;> omega
  refine .cons (by omega) (.cons (by omega) (.cons (hdigit _) (.cons (hdigit _) (.cons (hdigit _) (.cons (hdigit _) ?_)))))
  exact printable_nil

theorem printable_escapeChar (c : Nat) : Printable (escapeChar c) := by
  unfold escapeChar
  iterate 7
    split
    · exact printable_of_all rfl
  split
  · rename_i h
    exact .cons h printable_nil
  split
  · exact printable_hexEscape c
  · exact (printable_hexEscape _).append (printable_hexEscape _)

theorem printable_quote (s : Str) : Printable (quote s) := by
  have hchars : Printable (s.flatMap escapeChar) := by
    intro c hc
    obtain ⟨x, -, hc⟩ := List.mem_flatMap.1 hc
    exact printable_escapeChar x c hc
  exact .append (.append (printable_of_all rfl) hchars) (printable_of_all rfl)

theorem printable_exponent (e : Exponent) : Printable e.text := by
  obtain ⟨upper, sign, digits⟩ := e
  have hmark : Printable [if upper then 69 else 101] := by cases upper <;> exact printable_of_all rfl
  refine (hmark.append ?_).append (printable_digits digits.2.2)
  rcases sign with _ | (_ | _) <;> exact printable_of_all rfl

theorem printable_float (f : FloatLiteral) : Printable f.text := by
  have hsign : ∀ negative, Printable (signText negative) := by
    intro negative
    cases negative <;> exact printable_of_all rfl
  cases f with
  | nan => exact printable_of_all rfl
  | infinity negative => exact (hsign negative).append (printable_of_all rfl)
  | fraction negative n digits e =>
    have hpoint : Printable [46] := printable_of_all rfl
    refine ((((hsign negative).append (printable_natText n)).append hpoint).append (printable_digits digits.2.2)).append ?_
    cases e with
    | none => exact printable_nil
    | some e => exact printable_exponent e
  | exponent negative n e => exact ((hsign negative).append (printable_natText n)).append (printable_exponent e)

mutual

/-- What is printed and can be read is printable ASCII. -/
theorem printable_dumps : ∀ (v : Json) (n : Nat), Readable repr v n → Printable (dumpsDefault v)
  | .null, _, _ => printable_of_all rfl
  | .bool true, _, _ => printable_of_all rfl
  | .bool false, _, _ => printable_of_all rfl
  | .int z, _, _ => printable_intText z
  | .float r, _, h => by
    obtain ⟨f, rfl, -⟩ := h
    exact printable_float f
  | .str s, _, _ => printable_quote s
  | .arr l, n, h =>
    .append (.append (printable_of_all rfl) (printable_join (printable_of_all rfl) (printable_dumpsAll l (n - 1) h.2)))
      (printable_of_all rfl)
  | .obj l, n, h =>
    .append (.append (printable_of_all rfl) (printable_join (printable_of_all rfl) (printable_dumpsItems l (n - 1) h.2)))
      (printable_of_all rfl)

theorem printable_dumpsAll : ∀ (l : List Json) (n : Nat), ReadableAll repr l n →
    ∀ s ∈ dumpsAll (lit ", ") (lit ": ") l, Printable s
  | [], _, _ => fun _ h => absurd h List.not_mem_nil
  | v :: l, n, h => List.forall_mem_cons.2 ⟨printable_dumps v n h.1, printable_dumpsAll l n h.2⟩

theorem printable_dumpsItems : ∀ (l : List (Str × Json)) (n : Nat), ReadableItems repr l n →
    ∀ s ∈ dumpsItems (lit ", ") (lit ": ") l, Printable s
  | [], _, _ => fun _ h => absurd h List.not_mem_nil
  | (k, v) :: l, n, h => List.forall_mem_cons.2
      ⟨((printable_quote k).append (printable_of_all rfl)).append (printable_dumps v n h.2.1), printable_dumpsItems l n h.2.2⟩

end

/-- Bytes of printable ASCII are decoded as they are. -/
def ReadsAscii (dec : Decoder) : Prop := ∀ s, Printable s → dec.decode s = some s

/-- The bytes of `json.dumps` are read as its text. -/
theorem loads_encode_dumps {dec : Decoder} (hascii : ReadsAscii dec) {v : Json} {n : Nat} (h : Readable dec.repr v n) :
    loads dec (encode (dumpsDefault v)) = loadsText dec (dumpsDefault v) := by
  have hprintable := printable_dumps v n h
  have hbytes : encode (dumpsDefault v) = dumpsDefault v := encode_ascii fun c hc => by
    have := hprintable c hc
    omega
  rw [hbytes, loads, hascii _ hprintable]

mutual

theorem readable_doc_mono : ∀ (d : Doc) {n m : Nat}, n ≤ m → d.readable n = true → d.readable m = true
  | .null, _, _, _, _ => rfl
  | .bool _, _, _, _, _ => rfl
  | .int _ _, _, _, _, h => h
  | .float _, _, _, _, _ => rfl
  | .str _, _, _, _, _ => rfl
  | .arr _ l, _, _, hle, h => by
    rw [Doc.readable, Bool.and_eq_true, decide_eq_true_eq] at h ⊢
    exact ⟨Nat.lt_of_lt_of_le h.1 hle, readable_elems_mono l (Nat.sub_le_sub_right hle 1) h.2⟩
  | .obj _ l, _, _, hle, h => by
    rw [Doc.readable, Bool.and_eq_true, decide_eq_true_eq] at h ⊢
    exact ⟨Nat.lt_of_lt_of_le h.1 hle, readable_members_mono l (Nat.sub_le_sub_right hle 1) h.2⟩

theorem readable_elems_mono : ∀ (l : Elems) {n m : Nat}, n ≤ m → l.readable n = true → l.readable m = true
  | .nil, _, _, _, _ => rfl
  | .cons _ d _ l, _, _, hle, h => by
    rw [Elems.readable, Bool.and_eq_true] at h ⊢
    exact ⟨readable_doc_mono d hle h.1, readable_elems_mono l hle h.2⟩

theorem readable_members_mono : ∀ (l : Members) {n m : Nat}, n ≤ m → l.readable n = true → l.readable m = true
  | .nil, _, _, _, _ => rfl
  | .cons _ _ _ _ d _ l, _, _, hle, h => by
    rw [Members.readable, Bool.and_eq_true] at h ⊢
    exact ⟨readable_doc_mono d hle h.1, readable_members_mono l hle h.2⟩

end

/-- Whatever is read of a printed value is what `reread` says, however deep the decoder goes. -/
theorem eq_reread_of_loadsText {dec : Decoder} {v w : Json} {n : Nat} (hv : Readable dec.repr v n)
    (h : loadsText dec (dumpsDefault v) = .ok w) : w = reread v := by
  have hpoints : CodePoints (dumpsDefault v) := fun c hc =>
    Nat.lt_of_le_of_lt (printable_dumps v n hv c hc).2 (Nat.le_of_ble_eq_true rfl)
  unfold loadsText at h
  split at h <;> cases h
  rename_i hdecode
  obtain ⟨d, htext, hread, hvalue⟩ := text_of_decode hpoints hdecode
  -- Both trees of the text are readable at the larger depth, where it is read in one way.
  obtain ⟨d', htext', hvalue', hread'⟩ := tree_of_value space v _ (Readable.mono v (Nat.le_max_left n dec.nesting) hv)
  have hone : decode dec.repr (max n dec.nesting) d.text = .ok (d.doc.value dec.repr) :=
    decode_text d (readable_doc_mono d.doc (Nat.le_max_right n _) hread)
  have htwo : decode dec.repr (max n dec.nesting) (dumpsDefault v) = .ok (d'.value dec.repr) :=
    decode_printed space hread' htext'
  rw [htext, hone] at htwo
  rw [← hvalue, ← hvalue']
  exact Except.ok.inj htwo

/-! ## What has been read -/

theorem hexUnit_value_lt (u : HexUnit) : u.value < 0x10000 := by
  have h3 := u.d3.value.2
  have h2 := u.d2.value.2
  have h1 := u.d1.value.2
  have h0 := u.d0.value.2
  unfold HexUnit.value
  omega

theorem piece_char_lt (p : Piece) : p.char < 0x110000 := by
  cases p with
  | plain c => exact c.2.2.2.2
  | escape e => cases e <;> simp [Piece.char, Escape.char]
  | unicode u => exact Nat.lt_of_lt_of_le (hexUnit_value_lt u) (Nat.le_of_ble_eq_true rfl)

theorem codePoints_stringValue (s : List Piece) : CodePoints (stringValue s) := by
  fun_induction stringValue s with
  | case1 u v s hpair ih =>
    rw [Bool.and_eq_true, isHighSurrogate_iff, isLowSurrogate_iff] at hpair
    have hastral : joinSurrogates u.value v.value < 0x110000 := by
      unfold joinSurrogates
      omega
    exact List.forall_mem_cons.2 ⟨hastral, ih⟩
  | case2 u v s hpair ih => exact List.forall_mem_cons.2 ⟨piece_char_lt (.unicode u), ih⟩
  | case3 p s hno ih => exact List.forall_mem_cons.2 ⟨piece_char_lt p, ih⟩
  | case4 => exact fun c hc => by cases hc

theorem mem_of_dictOf {l : List (Str × Json)} {kv : Str × Json} (h : kv ∈ dictOf l) : kv ∈ l :=
  live_subset l kv ((dictOf_perm l).mem_iff.1 h)

theorem dictOf_nodup (l : List (Str × Json)) : ((dictOf l).map Prod.fst).Nodup :=
  ((dictOf_perm l).map Prod.fst).nodup_iff.2 (live_nodup l)

theorem set_new {d : Dict} {key : Str} {v : Json} (h : key ∉ d.map Prod.fst) : set d key v = d ++ [(key, v)] := by
  induction d with
  | nil => rfl
  | cons kv d ih =>
    rw [List.map_cons, List.mem_cons, not_or] at h
    rw [JsonText.set, if_neg fun heq => h.1 heq.symm, ih h.2, List.cons_append]

/-- A dictionary is made of its own items. -/
theorem dictOf_self {d : Dict} (h : (d.map Prod.fst).Nodup) : dictOf d = d := by
  induction d using List.reverseRecOn with
  | nil => rfl
  | append_singleton d kv ih =>
    rw [List.map_append, List.nodup_append] at h
    obtain ⟨hd, -, hnew⟩ := h
    have hkv : kv.1 ∉ d.map Prod.fst := fun hmem => hnew _ hmem _ List.mem_cons_self rfl
    rw [dictOf, List.foldl_concat]
    exact (congrArg (fun x => set x kv.1 kv.2) (ih hd)).trans (set_new hkv)

mutual

/-- What has been read can be read again. -/
theorem readable_value (hrepr : Stable repr) : ∀ (d : Doc) (n : Nat), d.readable n = true → Readable repr (d.value repr) n
  | .null, _, _ => trivial
  | .bool _, _, _ => trivial
  | .int negative m, _, h => by
    have habs : (if negative then -(m : Int) else m).natAbs = m := by
      cases negative <;> simp
    rw [Doc.value, Readable, habs]
    exact of_decide_eq_true h
  | .float f, _, _ => hrepr f
  | .str s, _, _ => codePoints_stringValue s
  | .arr _ l, n, h => by
    rw [Doc.readable, Bool.and_eq_true] at h
    exact ⟨of_decide_eq_true h.1, readable_values hrepr l (n - 1) h.2⟩
  | .obj _ l, n, h => by
    rw [Doc.readable, Bool.and_eq_true] at h
    refine ⟨of_decide_eq_true h.1, readableItems_iff.2 fun kv hkv => ?_⟩
    exact readableItems_iff.1 (readable_items hrepr l (n - 1) h.2) kv (mem_of_dictOf hkv)

theorem readable_values (hrepr : Stable repr) : ∀ (l : Elems) (n : Nat), l.readable n = true → ReadableAll repr (l.values repr) n
  | .nil, _, _ => trivial
  | .cons _ d _ l, n, h => by
    rw [Elems.readable, Bool.and_eq_true] at h
    exact ⟨readable_value hrepr d n h.1, readable_values hrepr l n h.2⟩

theorem readable_items (hrepr : Stable repr) : ∀ (l : Members) (n : Nat), l.readable n = true →
    ReadableItems repr (l.items repr) n
  | .nil, _, _ => trivial
  | .cons _ key _ _ d _ l, n, h => by
    rw [Members.readable, Bool.and_eq_true] at h
    exact ⟨codePoints_stringValue key, readable_value hrepr d n h.1, readable_items hrepr l n h.2⟩

end

theorem readable_of_loadsText {dec : Decoder} (hrepr : Stable dec.repr) {s : Str} {v : Json} (hs : CodePoints s)
    (h : loadsText dec s = .ok v) : Readable dec.repr v dec.nesting := by
  unfold loadsText at h
  split at h <;> cases h
  rename_i hdecode
  obtain ⟨d, -, hread, rfl⟩ := text_of_decode hs hdecode
  exact readable_value hrepr d.doc dec.nesting hread

theorem readable_of_loads {dec : Decoder} (hrepr : Stable dec.repr) {raw : List Nat} {v : Json}
    (hdec : ∀ s, dec.decode raw = some s → CodePoints s) (h : loads dec raw = .ok v) :
    Readable dec.repr v dec.nesting := by
  unfold loads at h
  split at h
  · cases h
  · rename_i s hs
    exact readable_of_loadsText hrepr (hdec s hs) h

theorem readable_reread (hrepr : Stable repr) {v : Json} {n : Nat} (h : Readable repr v n) : Readable repr (reread v) n := by
  obtain ⟨d, -, hvalue, hread⟩ := tree_of_value space v n h
  rw [← hvalue]
  exact readable_value hrepr d n hread

/-! ## Keys -/

mutual

/-- No object has a key twice. -/
def Distinct : Json → Prop
  | .arr l => DistinctAll l
  | .obj l => (l.map Prod.fst).Nodup ∧ DistinctItems l
  | _ => True

def DistinctAll : List Json → Prop
  | [] => True
  | v :: l => Distinct v ∧ DistinctAll l

def DistinctItems : List (Str × Json) → Prop
  | [] => True
  | (_, v) :: l => Distinct v ∧ DistinctItems l

end

theorem distinctAll_iff {l : List Json} : DistinctAll l ↔ ∀ v ∈ l, Distinct v := by
  induction l with
  | nil => simp [DistinctAll]
  | cons v l ih => simp [DistinctAll, ih]

theorem distinctItems_iff {l : List (Str × Json)} : DistinctItems l ↔ ∀ kv ∈ l, Distinct kv.2 := by
  induction l with
  | nil => simp [DistinctItems]
  | cons kv l ih => simp [DistinctItems, ih]

theorem distinct_get {d : Dict} {key : Str} {v : Json} (h : Distinct (.obj d)) (hget : d.get key = some v) : Distinct v := by
  obtain ⟨kv, hfind, rfl⟩ := Option.map_eq_some_iff.1 hget
  exact distinctItems_iff.1 h.2 kv (List.mem_of_find?_eq_some hfind)

mutual

/-- What has been read has no key twice. -/
theorem distinct_value (repr : FloatLiteral → Str) : ∀ d : Doc, Distinct (d.value repr)
  | .null => trivial
  | .bool _ => trivial
  | .int _ _ => trivial
  | .float _ => trivial
  | .str _ => trivial
  | .arr _ l => distinctAll_iff.2 (distinct_values repr l)
  | .obj _ l => ⟨dictOf_nodup _, distinctItems_iff.2 fun kv hkv => distinct_items repr l kv (mem_of_dictOf hkv)⟩

theorem distinct_values (repr : FloatLiteral → Str) : ∀ (l : Elems), ∀ v ∈ l.values repr, Distinct v
  | .nil => fun _ h => absurd h List.not_mem_nil
  | .cons _ d _ l => List.forall_mem_cons.2 ⟨distinct_value repr d, distinct_values repr l⟩

theorem distinct_items (repr : FloatLiteral → Str) : ∀ (l : Members), ∀ kv ∈ l.items repr, Distinct kv.2
  | .nil => fun _ h => absurd h List.not_mem_nil
  | .cons _ _ _ _ d _ l => List.forall_mem_cons.2 ⟨distinct_value repr d, distinct_items repr l⟩

end

theorem distinct_of_loads {dec : Decoder} {raw : List Nat} {v : Json}
    (hdec : ∀ s, dec.decode raw = some s → CodePoints s) (h : loads dec raw = .ok v) : Distinct v := by
  unfold loads loadsText at h
  split at h
  · cases h
  · rename_i s hs
    split at h <;> cases h
    rename_i hdecode
    obtain ⟨d, -, -, rfl⟩ := text_of_decode (hdec s hs) hdecode
    exact distinct_value dec.repr d.doc

/-! ### Reading a field -/

theorem get_append (d : Dict) (kv : Str × Json) (key : Str) :
    Dict.get (d ++ [kv]) key = (d.get key).or (if kv.1 = key then some kv.2 else none) := by
  rw [Dict.get, Dict.get, List.find?_append, Option.map_or]
  congr 1
  by_cases hkey : kv.1 = key <;> simp [hkey]

theorem get_eq_none {d : Dict} {key : Str} : d.get key = none ↔ key ∉ d.map Prod.fst := by
  rw [Dict.get, Option.map_eq_none_iff, List.find?_eq_none, List.mem_map]
  constructor
  · rintro h ⟨kv, hkv, rfl⟩
    exact h kv hkv (decide_eq_true rfl)
  · intro h kv hkv hkey
    exact h ⟨kv, hkv, of_decide_eq_true hkey⟩

theorem get_set (d : Dict) (name : Str) (v : Json) (key : Str) :
    (set d name v).get key = if name = key then some v else d.get key := by
  induction d with
  | nil => by_cases hname : name = key <;> simp [JsonText.set, Dict.get, hname]
  | cons kv d ih =>
    rw [JsonText.set]
    unfold Dict.get at ih ⊢
    by_cases hkv : kv.1 = name
    · subst hkv
      by_cases hkey : kv.1 = key <;> simp [hkey]
    · rw [if_neg hkv, List.find?_cons, List.find?_cons]
      by_cases hkey : kv.1 = key
      · have hname : ¬ name = key := fun h => hkv (hkey.trans h.symm)
        simp [hkey, hname]
      · simpa [hkey] using ih

/-- A dictionary has the keys of its pairs. -/
theorem mem_keys_dictOf {l : List (Str × Json)} {key : Str} : key ∈ (dictOf l).map Prod.fst ↔ key ∈ l.map Prod.fst := by
  rw [← not_iff_not, ← get_eq_none, ← get_eq_none]
  induction l using List.reverseRecOn with
  | nil => rfl
  | append_singleton l kv ih =>
    rw [dictOf, List.foldl_concat, ← dictOf, get_set, get_append]
    by_cases hkv : kv.1 = key
    · simp [hkv]
    · simpa [hkv] using ih

/-- A field under a name that is read of no other is what is read of that field. -/
theorem get_reread {d : Dict} (hd : (d.map Prod.fst).Nodup) {key : Str} (hkey : ∀ s, rejoin s = key ↔ s = key) :
    (dictOf (rereadItems d)).get key = (d.get key).map reread := by
  induction d using List.reverseRecOn with
  | nil => rfl
  | append_singleton d kv ih =>
    rw [List.map_append, List.nodup_append] at hd
    obtain ⟨hd, -, hnew⟩ := hd
    have hitems : rereadItems (d ++ [kv]) = rereadItems d ++ [(rejoin kv.1, reread kv.2)] := by
      simp [rereadItems_eq_map]
    rw [hitems, dictOf, List.foldl_concat, ← dictOf, get_set, ih hd, get_append]
    by_cases hkv : kv.1 = key
    · have hnone : Dict.get d key = none := get_eq_none.2 fun hmem => hnew _ hmem _ List.mem_cons_self hkv.symm
      rw [if_pos ((hkey kv.1).2 hkv), if_pos hkv, hnone]
      rfl
    · rw [if_neg (mt (hkey kv.1).1 hkv), if_neg hkv, Option.or_none]

/-! ### Keys that are kept -/

mutual

/-- Every key is read as it is, and no object has one twice. -/
def KeysKept : Json → Prop
  | .arr l => KeysKeptAll l
  | .obj l => (l.map Prod.fst).Nodup ∧ KeysKeptItems l
  | _ => True

def KeysKeptAll : List Json → Prop
  | [] => True
  | v :: l => KeysKept v ∧ KeysKeptAll l

def KeysKeptItems : List (Str × Json) → Prop
  | [] => True
  | (k, v) :: l => rejoin k = k ∧ KeysKept v ∧ KeysKeptItems l

end

theorem keysKeptItems_iff {l : List (Str × Json)} :
    KeysKeptItems l ↔ ∀ kv ∈ l, rejoin kv.1 = kv.1 ∧ KeysKept kv.2 := by
  induction l with
  | nil => simp [KeysKeptItems]
  | cons kv l ih => simp [KeysKeptItems, ih, and_assoc]

mutual

/-- After one reading every key is kept. -/
theorem keysKept_reread : ∀ v : Json, KeysKept (reread v)
  | .null => trivial
  | .bool _ => trivial
  | .int _ => trivial
  | .float _ => trivial
  | .str _ => trivial
  | .arr l => keysKept_rereadAll l
  | .obj l => ⟨dictOf_nodup _, keysKeptItems_iff.2 fun kv hkv =>
      keysKeptItems_iff.1 (keysKept_rereadItems l) kv (mem_of_dictOf hkv)⟩

theorem keysKept_rereadAll : ∀ l : List Json, KeysKeptAll (rereadAll l)
  | [] => trivial
  | v :: l => ⟨keysKept_reread v, keysKept_rereadAll l⟩

theorem keysKept_rereadItems : ∀ l : List (Str × Json), KeysKeptItems (rereadItems l)
  | [] => trivial
  | (k, v) :: l => ⟨rejoin_rejoin k, keysKept_reread v, keysKept_rereadItems l⟩

end

section
variable {l : List (Str × Json)}

theorem keys_rereadItems (h : KeysKeptItems l) : (rereadItems l).map Prod.fst = l.map Prod.fst := by
  rw [rereadItems_eq_map, List.map_map]
  exact List.map_congr_left fun kv hkv => (keysKeptItems_iff.1 h kv hkv).1

theorem dictOf_rereadItems (h : KeysKept (.obj l)) : dictOf (rereadItems l) = rereadItems l := by
  apply dictOf_self
  rw [keys_rereadItems h.2]
  exact h.1

/-- An object whose keys are kept is read item by item. -/
theorem reread_obj (h : KeysKept (.obj l)) : reread (.obj l) = .obj (l.map fun kv => (kv.1, reread kv.2)) := by
  rw [reread, dictOf_rereadItems h, rereadItems_eq_map]
  refine congrArg Json.obj (List.map_congr_left fun kv hkv => ?_)
  rw [(keysKeptItems_iff.1 h.2 kv hkv).1]

end

mutual

/-- Reading a second time changes nothing. -/
theorem reread_reread : ∀ v : Json, reread (reread v) = reread v
  | .null => rfl
  | .bool _ => rfl
  | .int _ => rfl
  | .float _ => rfl
  | .str s => congrArg Json.str (rejoin_rejoin s)
  | .arr l => congrArg Json.arr (rereadAll_rereadAll l)
  | .obj l => by
    have hkept := keysKept_reread (.obj l)
    have hfixed : ∀ kv ∈ rereadItems l, (rejoin kv.1, reread kv.2) = kv := by
      have hitems := rereadItems_rereadItems l
      rw [rereadItems_eq_map (rereadItems l)] at hitems
      exact fun kv hkv => List.map_inj_left.1 (hitems.trans (List.map_id _).symm) kv hkv
    rw [reread] at hkept ⊢
    rw [reread_obj hkept]
    refine congrArg Json.obj ((List.map_congr_left fun kv hkv => ?_).trans (List.map_id _))
    have hvalue : reread kv.2 = kv.2 := congrArg Prod.snd (hfixed kv (mem_of_dictOf hkv))
    exact Prod.ext rfl hvalue

theorem rereadAll_rereadAll : ∀ l : List Json, rereadAll (rereadAll l) = rereadAll l
  | [] => rfl
  | v :: l => by rw [rereadAll, rereadAll, reread_reread v, rereadAll_rereadAll l]

theorem rereadItems_rereadItems : ∀ l : List (Str × Json), rereadItems (rereadItems l) = rereadItems l
  | [] => rfl
  | (k, v) :: l => by rw [rereadItems, rereadItems, rejoin_rejoin k, reread_reread v, rereadItems_rereadItems l]

end

section
variable (sep colon : Str)

mutual

/-- Where the keys are kept, what has been read is printed as before. -/
theorem dumps_reread : ∀ v : Json, KeysKept v → dumps sep colon (reread v) = dumps sep colon v
  | .null, _ => rfl
  | .bool _, _ => rfl
  | .int _, _ => rfl
  | .float _, _ => rfl
  | .str s, _ => quote_rejoin s
  | .arr l, h => by rw [reread, dumps, dumpsAll_reread l h, dumps]
  | .obj l, h => by rw [reread, dictOf_rereadItems h, dumps, dumpsItems_reread l h.2, dumps]

theorem dumpsAll_reread : ∀ l : List Json, KeysKeptAll l → dumpsAll sep colon (rereadAll l) = dumpsAll sep colon l
  | [], _ => rfl
  | v :: l, h => by rw [rereadAll, dumpsAll, dumps_reread v h.1, dumpsAll_reread l h.2, dumpsAll]

theorem dumpsItems_reread : ∀ l : List (Str × Json), KeysKeptItems l →
    dumpsItems sep colon (rereadItems l) = dumpsItems sep colon l
  | [], _ => rfl
  | (k, v) :: l, h => by
    rw [rereadItems, dumpsItems, quote_rejoin, dumps_reread v h.2.1, dumpsItems_reread l h.2.2, dumpsItems]

end

end

/-! ## The canonical form -/

theorem insertByKey_perm (kv : Str × Json) (l : List (Str × Json)) : (insertByKey kv l).Perm (kv :: l) := by
  induction l with
  | nil => exact .refl _
  | cons x l ih =>
    rw [insertByKey]
    split
    · exact .refl _
    · exact (ih.cons x).trans (.swap kv x l)

theorem sortKeysItems_perm (l : List (Str × Json)) :
    (sortKeysItems l).Perm (l.map fun kv => (kv.1, sortKeys kv.2)) := by
  induction l with
  | nil => exact .refl _
  | cons kv l ih =>
    rw [sortKeysItems, List.map_cons]
    exact (insertByKey_perm _ _).trans (ih.cons _)

theorem nodup_sortKeysItems {d : Dict} (hd : (d.map Prod.fst).Nodup) : ((sortKeysItems d).map Prod.fst).Nodup := by
  have hkeys := (sortKeysItems_perm d).map Prod.fst
  rw [List.map_map] at hkeys
  exact hkeys.nodup_iff.2 hd

mutual

theorem keysKept_sortKeys : ∀ v : Json, KeysKept v → KeysKept (sortKeys v)
  | .null, _ => trivial
  | .bool _, _ => trivial
  | .int _, _ => trivial
  | .float _, _ => trivial
  | .str _, _ => trivial
  | .arr l, h => keysKept_sortKeysAll l h
  | .obj l, h => ⟨nodup_sortKeysItems h.1, keysKept_sortKeysItems l h.2⟩

theorem keysKept_sortKeysAll : ∀ l : List Json, KeysKeptAll l → KeysKeptAll (sortKeysAll l)
  | [], _ => trivial
  | v :: l, h => ⟨keysKept_sortKeys v h.1, keysKept_sortKeysAll l h.2⟩

theorem keysKept_sortKeysItems : ∀ l : List (Str × Json), KeysKeptItems l → KeysKeptItems (sortKeysItems l)
  | [], _ => trivial
  | (k, v) :: l, h => by
    have hrest := keysKeptItems_iff.1 (keysKept_sortKeysItems l h.2.2)
    refine keysKeptItems_iff.2 fun kv hkv => ?_
    rcases List.mem_cons.1 ((insertByKey_perm _ _).mem_iff.1 hkv) with rfl | hkv
    · exact ⟨h.1, keysKept_sortKeys v h.2.1⟩
    · exact hrest kv hkv

end

/-- The items are sorted by keys that are kept. -/
theorem insertByKey_reread {k : Str} {v : Json} {l : List (Str × Json)} (hk : rejoin k = k) (hl : KeysKeptItems l) :
    insertByKey (rejoin k, reread v) (rereadItems l) = rereadItems (insertByKey (k, v) l) := by
  induction l with
  | nil => rfl
  | cons kv l ih =>
    obtain ⟨key, w⟩ := kv
    obtain ⟨hkey, -, hrest⟩ := hl
    rw [rereadItems, insertByKey, insertByKey, hk, hkey]
    by_cases hlt : k < key
    · rw [if_pos hlt, if_pos hlt, rereadItems, rereadItems, hk, hkey]
    · rw [if_neg hlt, if_neg hlt, rereadItems, hkey, ← ih hrest, hk]

mutual

theorem sortKeys_reread : ∀ v : Json, KeysKept v → sortKeys (reread v) = reread (sortKeys v)
  | .null, _ => rfl
  | .bool _, _ => rfl
  | .int _, _ => rfl
  | .float _, _ => rfl
  | .str _, _ => rfl
  | .arr l, h => congrArg Json.arr (sortKeysAll_reread l h)
  | .obj l, h => by
    have hsorted : KeysKept (.obj (sortKeysItems l)) := keysKept_sortKeys (.obj l) h
    rw [reread, dictOf_rereadItems h, sortKeys, sortKeysItems_reread l h.2, sortKeys, reread, dictOf_rereadItems hsorted]

theorem sortKeysAll_reread : ∀ l : List Json, KeysKeptAll l → sortKeysAll (rereadAll l) = rereadAll (sortKeysAll l)
  | [], _ => rfl
  | v :: l, h => by rw [rereadAll, sortKeysAll, sortKeys_reread v h.1, sortKeysAll_reread l h.2, sortKeysAll, rereadAll]

theorem sortKeysItems_reread : ∀ l : List (Str × Json), KeysKeptItems l →
    sortKeysItems (rereadItems l) = rereadItems (sortKeysItems l)
  | [], _ => rfl
  | (k, v) :: l, h => by
    rw [rereadItems, sortKeysItems, sortKeys_reread v h.2.1, sortKeysItems_reread l h.2.2, sortKeysItems,
      insertByKey_reread h.1 (keysKept_sortKeysItems l h.2.2)]

end

/-- Where the keys are kept, what is signed stays what it is. -/
theorem canonical_reread {v : Json} (h : KeysKept v) : canonical (reread v) = canonical v := by
  rw [canonical, sortKeys_reread v h, dumps_reread _ _ _ (keysKept_sortKeys v h), canonical]

/-! ### What a canonical form tells -/

mutual

theorem readable_sortKeys : ∀ (v : Json) (n : Nat), Readable repr v n → Readable repr (sortKeys v) n
  | .null, _, h => h
  | .bool _, _, h => h
  | .int _, _, h => h
  | .float _, _, h => h
  | .str _, _, h => h
  | .arr l, n, h => ⟨h.1, readable_sortKeysAll l (n - 1) h.2⟩
  | .obj l, n, h => ⟨h.1, readable_sortKeysItems l (n - 1) h.2⟩

theorem readable_sortKeysAll : ∀ (l : List Json) (n : Nat), ReadableAll repr l n → ReadableAll repr (sortKeysAll l) n
  | [], _, _ => trivial
  | v :: l, n, h => ⟨readable_sortKeys v n h.1, readable_sortKeysAll l n h.2⟩

theorem readable_sortKeysItems : ∀ (l : List (Str × Json)) (n : Nat), ReadableItems repr l n →
    ReadableItems repr (sortKeysItems l) n
  | [], _, _ => trivial
  | (k, v) :: l, n, h => by
    have hrest := readableItems_iff.1 (readable_sortKeysItems l n h.2.2)
    refine readableItems_iff.2 fun kv hkv => ?_
    rcases List.mem_cons.1 ((insertByKey_perm _ _).mem_iff.1 hkv) with rfl | hkv
    · exact ⟨h.1, readable_sortKeys v n h.2.1⟩
    · exact hrest kv hkv

end

theorem get_eq_some_iff {d : Dict} (hd : (d.map Prod.fst).Nodup) {key : Str} {v : Json} : d.get key = some v ↔ (key, v) ∈ d := by
  constructor
  · intro h
    obtain ⟨kv, hfind, rfl⟩ := Option.map_eq_some_iff.1 h
    have hkey : kv.1 = key := by simpa using List.find?_some hfind
    rw [← hkey]
    exact List.mem_of_find?_eq_some hfind
  · intro h
    cases hget : d.get key with
    | none =>
      rw [Dict.get, Option.map_eq_none_iff, List.find?_eq_none] at hget
      exact absurd (decide_eq_true rfl) (hget _ h)
    | some w =>
      obtain ⟨kv, hfind, rfl⟩ := Option.map_eq_some_iff.1 hget
      have hkey : kv.1 = key := by simpa using List.find?_some hfind
      have hsame : kv = (key, v) := List.inj_on_of_nodup_map hd (List.mem_of_find?_eq_some hfind) h hkey
      rw [hsame]

/-- The fields of a sorted object. -/
theorem get_sortKeysItems {d : Dict} (hd : (d.map Prod.fst).Nodup) (key : Str) :
    Dict.get (sortKeysItems d) key = (d.get key).map sortKeys := by
  ext v
  rw [get_eq_some_iff (nodup_sortKeysItems hd), (sortKeysItems_perm d).mem_iff, Option.map_eq_some_iff]
  simp only [List.mem_map, Prod.mk.injEq, get_eq_some_iff hd]
  constructor
  · rintro ⟨kv, hkv, rfl, hv⟩
    exact ⟨kv.2, hkv, hv⟩
  · rintro ⟨w, hw, hv⟩
    exact ⟨(key, w), hw, rfl, hv⟩

theorem reread_eq_of_canonical {v w : Json} {n : Nat} (hv : Readable repr v n) (hw : Readable repr w n)
    (h : canonical v = canonical w) : reread (sortKeys v) = reread (sortKeys w) :=
  reread_eq_of_dumps Gap.nothing (readable_sortKeys v n hv) (readable_sortKeys w n hw) h

/-- The keys that are read of a sorted object. -/
theorem mem_keys_sorted {d : Dict} {key : Str} :
    key ∈ (dictOf (rereadItems (sortKeysItems d))).map Prod.fst ↔ ∃ k ∈ d.map Prod.fst, rejoin k = key := by
  have hkeys := (sortKeysItems_perm d).map fun kv => rejoin kv.1
  rw [List.map_map] at hkeys
  rw [mem_keys_dictOf, rereadItems_eq_map, List.map_map, ← List.mem_map, List.map_map]
  exact hkeys.mem_iff

/-- Objects with the same canonical form have the same fields, as far as the texts in them are read apart. -/
theorem get_of_canonical {p q : Dict} {n : Nat} (hp : Readable repr (.obj p) n) (hq : Readable repr (.obj q) n)
    (hpkeys : (p.map Prod.fst).Nodup) (hqkeys : (q.map Prod.fst).Nodup) (h : canonical (.obj p) = canonical (.obj q)) {key : Str}
    (hkey : ∀ s, rejoin s = key ↔ s = key) :
    (p.get key).map (fun v => reread (sortKeys v)) = (q.get key).map fun v => reread (sortKeys v) := by
  have hfield : ∀ {d : Dict}, (d.map Prod.fst).Nodup →
      (dictOf (rereadItems (sortKeysItems d))).get key = (d.get key).map fun v => reread (sortKeys v) := by
    intro d hd
    rw [get_reread (nodup_sortKeysItems hd) hkey, get_sortKeysItems hd, Option.map_map]
    rfl
  have hsame := reread_eq_of_canonical hp hq h
  rw [← hfield hpkeys, ← hfield hqkeys]
  exact congrArg (fun d : Dict => d.get key) (Json.obj.inj hsame)

end AetherNode.Lib.Reread
