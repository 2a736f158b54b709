import AetherNode.Lib.JsonText
import Mathlib.Tactic.Linarith
/-!
# How long a text is when it is printed again

`json.dumps` of what was read differs from the text token by token: a space
after every comma and colon, no other white space, one spelling for every
character, and the last of several members with one key. `growth` adds this
up over the tree.
-/
namespace AetherNode.Lib.JsonText

open Json

/-! ## Strings -/

theorem encode_ascii {s : Str} (h : ∀ c ∈ s, c < 128) : encode s = s := by
  induction s with
  | nil => rfl
  | cons c s ih =>
    have hc : utf8 c = [c] := by rw [utf8, if_pos (h c (by simp))]
    rw [encode, List.flatMap_cons, hc, ← encode, ih fun d hd => h d (by simp [hd])]
    rfl

theorem hexEscape_ascii (n : Nat) : ∀ c ∈ hexEscape n, c < 128 := by
  have hdigit : ∀ m, hexDigit (m % 16) < 128 := by
    intro m
    unfold hexDigit
    split <;> omega
  intro c hc
  simp only [hexEscape, List.mem_cons, List.not_mem_nil, or_false] at hc
  rcases hc with rfl | rfl | rfl | rfl | rfl | rfl
  · omega
  · omega
  all_goals exact hdigit _

theorem escapeChar_ascii (c : Nat) : ∀ x ∈ escapeChar c, x < 128 := by
  intro x hx
  unfold escapeChar at hx
  split_ifs at hx
  all_goals first
    | exact hexEscape_ascii _ x hx
    | (rcases List.mem_append.1 hx with hx | hx <;> exact hexEscape_ascii _ x hx)
    | (simp only [List.mem_cons, List.not_mem_nil, or_false] at hx; omega)

theorem escapeChar_surrogate {c : Nat} (h : 0xD800 ≤ c) (h' : c ≤ 0xDFFF) : (escapeChar c).length = 6 := by
  unfold escapeChar
  repeat rw [if_neg (by omega)]
  rw [if_pos (by omega)]
  rfl

theorem escapeChar_astral {c : Nat} (h : 0x10000 ≤ c) : (escapeChar c).length = 12 := by
  unfold escapeChar
  repeat rw [if_neg (by omega)]
  rfl

/-- The characters of a string are printed one spelling at a time: a pair is as long as its halves. -/
theorem length_printed (s : List Piece) : ((stringValue s).flatMap escapeChar).length =
    (s.map fun p => (escapeChar p.char).length).sum := by
  induction s using stringValue.induct with
  | case1 u v s hpair ih =>
    rw [stringValue, if_pos hpair]
    simp only [isHighSurrogate, isLowSurrogate, Bool.and_eq_true, decide_eq_true_eq] at hpair
    have hboth : (escapeChar (joinSurrogates u.value v.value)).length = 12 :=
      escapeChar_astral (by unfold joinSurrogates; omega)
    have hhigh : (escapeChar (Piece.unicode u).char).length = 6 :=
      escapeChar_surrogate (c := u.value) hpair.1.1 (by omega)
    have hlow : (escapeChar (Piece.unicode v).char).length = 6 :=
      escapeChar_surrogate (c := v.value) (by omega) hpair.2.2
    rw [List.flatMap_cons, List.length_append, ih, hboth, List.map_cons, List.map_cons, List.sum_cons, List.sum_cons,
      hhigh, hlow]
    omega
  | case2 u v s hpair ih =>
    rw [stringValue, if_neg hpair, List.flatMap_cons, List.length_append, ih, List.map_cons, List.sum_cons]
    rfl
  | case3 p s hne ih =>
    have hcons : stringValue (p :: s) = p.char :: stringValue s := by
      rw [stringValue]
      exact hne
    rw [hcons, List.flatMap_cons, List.length_append, ih, List.map_cons, List.sum_cons]
  | case4 => rfl

def Piece.growth (p : Piece) : Int := (escapeChar p.char).length - p.text.length

def stringGrowth (s : List Piece) : Int := (s.map Piece.growth).sum

theorem length_quote (s : List Piece) :
    ((encode (quote (stringValue s))).length : Int) = (stringText s).length + stringGrowth s := by
  have hascii : ∀ c ∈ quote (stringValue s), c < 128 := by
    intro c hc
    simp only [quote, List.mem_append, List.mem_singleton, List.mem_flatMap] at hc
    rcases hc with (rfl | ⟨x, -, hx⟩) | rfl
    · omega
    · exact escapeChar_ascii x c hx
    · omega
  have htext : (s.flatMap Piece.text).length = (s.map fun p => p.text.length).sum := by simp [List.length_flatMap]
  have hsum : ∀ l : List Piece, ((l.map fun p => (escapeChar p.char).length).sum : Int) =
      ((l.map fun p => p.text.length).sum : Nat) + stringGrowth l := by
    intro l
    induction l with
    | nil => rfl
    | cons p l ih =>
      simp only [stringGrowth, List.map_cons, List.sum_cons, Piece.growth, Nat.cast_add] at ih ⊢
      omega
  rw [encode_ascii hascii]
  simp only [quote, stringText, List.length_append, List.length_singleton, length_printed, htext, Nat.cast_add]
  have := hsum s
  push_cast at this ⊢
  omega

/-! ## Objects with one key more than once -/

/-- The members that no later one overrides. -/
def live : List (Str × Json) → List (Str × Json)
  | [] => []
  | kv :: l => if kv.1 ∈ l.map Prod.fst then live l else kv :: live l

theorem live_subset (l : List (Str × Json)) : ∀ kv ∈ live l, kv ∈ l := by
  induction l with
  | nil => simp [live]
  | cons x l ih =>
    intro kv hkv
    rw [live] at hkv
    split at hkv
    · exact List.mem_cons_of_mem _ (ih kv hkv)
    · rcases List.mem_cons.1 hkv with rfl | hkv
      · exact List.mem_cons_self
      · exact List.mem_cons_of_mem _ (ih kv hkv)

theorem live_nodup (l : List (Str × Json)) : ((live l).map Prod.fst).Nodup := by
  induction l with
  | nil => exact .nil
  | cons x l ih =>
    rw [live]
    split
    · exact ih
    · rename_i hx
      refine List.nodup_cons.2 ⟨?_, ih⟩
      intro hmem
      obtain ⟨kv, hkv, heq⟩ := List.mem_map.1 hmem
      exact hx (List.mem_map.2 ⟨kv, live_subset l kv hkv, heq⟩)

theorem live_concat (l : List (Str × Json)) (x : Str × Json) :
    live (l ++ [x]) = (live l).filter (fun kv => kv.1 ≠ x.1) ++ [x] := by
  induction l with
  | nil => rfl
  | cons y l ih =>
    simp only [List.cons_append, live, List.map_append, List.map_cons, List.map_nil, List.mem_append,
      List.mem_singleton, ih]
    by_cases hl : y.1 ∈ l.map Prod.fst
    · rw [if_pos (.inl hl), if_pos hl]
    · rw [if_neg hl, List.filter_cons]
      by_cases hx : y.1 = x.1 <;> simp [hl, hx]

theorem set_perm {d : Dict} (hd : (d.map Prod.fst).Nodup) (key : Str) (v : Json) :
    (set d key v).Perm (d.filter (fun kv => kv.1 ≠ key) ++ [(key, v)]) := by
  induction d with
  | nil => exact .refl _
  | cons kv d ih =>
    obtain ⟨hkv, hd⟩ := List.nodup_cons.1 hd
    rw [set, List.filter_cons]
    split
    · rename_i heq
      have hall : d.filter (fun kv => kv.1 ≠ key) = d := by
        rw [List.filter_eq_self]
        intro x hx
        simp only [ne_eq, decide_eq_true_eq]
        rintro rfl
        exact hkv (heq ▸ List.mem_map.2 ⟨x, hx, rfl⟩)
      simp only [heq, ne_eq, not_true, decide_false, Bool.false_eq_true, if_false]
      rw [hall]
      exact (List.perm_append_singleton (key, v) d).symm
    · rename_i hne
      simp only [ne_eq, hne, not_false_eq_true, decide_true, if_true, List.cons_append]
      exact (ih hd).cons kv

/-- Setting one key after another leaves the last value of each. -/
theorem dictOf_perm (l : List (Str × Json)) : (dictOf l).Perm (live l) := by
  induction l using List.reverseRecOn with
  | nil => exact .refl _
  | append_singleton l x ih =>
    have hd : ((dictOf l).map Prod.fst).Nodup := (ih.map Prod.fst).nodup_iff.2 (live_nodup l)
    rw [dictOf, List.foldl_concat, live_concat]
    exact (set_perm hd x.1 x.2).trans ((ih.filter _).append_right _)

theorem live_eq_nil {l : List (Str × Json)} : live l = [] ↔ l = [] := by
  rw [← List.length_eq_zero_iff, ← (dictOf_perm l).length_eq]
  constructor
  · intro h
    cases l using List.reverseRecOn with
    | nil => rfl
    | append_singleton l x =>
      rw [(dictOf_perm _).length_eq, live_concat, List.length_append, List.length_singleton] at h
      omega
  · rintro rfl
    rfl

/-! ## Whole texts -/

def Elems.commas : Elems → Int
  | .nil => 0
  | .cons .. => 1

def Members.commas : Members → Int
  | .nil => 0
  | .cons .. => 1

def Members.keys : Members → List Str
  | .nil => []
  | .cons _ key _ _ _ _ l => stringValue key :: l.keys

section
variable (repr : FloatLiteral → Str)

mutual

/-- What the printed value has more than the text. -/
def Doc.growth : Doc → Int
  | .int negative n => if negative ∧ n = 0 then -1 else 0
  | .float f => (encode (repr f)).length - f.text.length
  | .str s => stringGrowth s
  | .arr gap l => l.growth - gap.1.length
  | .obj gap l => l.growth - gap.1.length
  | _ => 0

def Elems.growth : Elems → Int
  | .nil => 0
  | .cons before d after l => d.growth - before.1.length - after.1.length + l.commas + l.growth

/-- A member that a later one overrides goes with its comma. -/
def Members.growth : Members → Int
  | .nil => 0
  | .cons before key beforeColon afterColon d after l =>
    (if stringValue key ∈ l.keys then
      -((before.1 ++ stringText key ++ beforeColon.1 ++ lit ":" ++ afterColon.1 ++ d.text ++ after.1).length : Int) - 1
    else
      stringGrowth key + d.growth - before.1.length - beforeColon.1.length - afterColon.1.length - after.1.length + 1 +
        l.commas) + l.growth

end

def Document.growth (d : Document) : Int := d.doc.growth repr - d.before.1.length - d.after.1.length

end

theorem length_join (sep : Str) (l : List Str) :
    (join sep l).length = (l.map List.length).sum + (l.length - 1) * sep.length := by
  induction l with
  | nil => simp [join]
  | cons x l ih =>
    cases l with
    | nil => simp [join]
    | cons y l =>
      simp only [join, List.length_append, ih, List.map_cons, List.sum_cons, List.length_cons, Nat.add_sub_cancel,
        Nat.add_mul, Nat.one_mul]
      omega

/-! The bytes of a value, and of a member. -/

def printed (v : Json) : Nat := (encode (dumpsDefault v)).length

def printedItem (kv : Str × Json) : Nat := (encode (quote kv.1)).length + 2 + printed kv.2

theorem printed_arr (l : List Json) : printed (.arr l) = 2 + (l.map printed).sum + 2 * (l.length - 1) := by
  have hsep : (encode (lit ", ")).length = 2 ∧ (encode (lit "[")).length = 1 ∧ (encode (lit "]")).length = 1 := by decide
  have hprinted : (fun x => (encode x).length) ∘ dumps (lit ", ") (lit ": ") = printed := rfl
  rw [printed, dumpsDefault]
  simp only [dumps, encode_append, List.length_append, length_encode_join, hsep, dumpsAll_eq_map, List.map_map,
    List.length_map, hprinted]
  omega

theorem dumpsItems_eq_map (sep colon : Str) (l : List (Str × Json)) :
    dumpsItems sep colon l = l.map fun kv => quote kv.1 ++ colon ++ dumps sep colon kv.2 := by
  induction l with
  | nil => rfl
  | cons kv l ih => rw [dumpsItems, ih, List.map_cons]

theorem printed_obj (l : List (Str × Json)) : printed (.obj l) = 2 + (l.map printedItem).sum + 2 * (l.length - 1) := by
  have hsep : (encode (lit ", ")).length = 2 ∧ (encode (lit ": ")).length = 2 ∧ (encode (lit "\x7b")).length = 1 ∧
      (encode (lit "\x7d")).length = 1 := by decide
  have hitem : ((fun x => (encode x).length) ∘ fun kv : Str × Json => quote kv.1 ++ lit ": " ++
      dumps (lit ", ") (lit ": ") kv.2) = printedItem := by
    funext kv
    simp only [Function.comp_apply, encode_append, List.length_append, hsep]
    rfl
  rw [printed, dumpsDefault]
  simp only [dumps, encode_append, List.length_append, length_encode_join, hsep, dumpsItems_eq_map, List.map_map,
    List.length_map, hitem]
  omega

theorem Elems.length_values (repr : FloatLiteral → Str) : ∀ l : Elems, (l.values repr).length = l.texts.length
  | .nil => rfl
  | .cons _ _ _ l => by rw [values, texts, List.length_cons, List.length_cons, length_values repr l]

theorem Members.length_items (repr : FloatLiteral → Str) : ∀ l : Members, (l.items repr).length = l.texts.length
  | .nil => rfl
  | .cons _ _ _ _ _ _ l => by rw [items, texts, List.length_cons, List.length_cons, length_items repr l]

theorem Members.keys_eq (repr : FloatLiteral → Str) : ∀ l : Members, (l.items repr).map Prod.fst = l.keys
  | .nil => rfl
  | .cons _ _ _ _ _ _ l => by rw [items, keys, List.map_cons, keys_eq repr l]

theorem Elems.commas_eq (l : Elems) : l.commas = (l.texts.length : Int) - (l.texts.length - 1 : Nat) := by
  cases l <;> simp [commas, texts]

theorem Members.commas_eq (l : Members) : l.commas = (l.texts.length : Int) - (l.texts.length - 1 : Nat) := by
  cases l <;> simp [commas, texts]

theorem natText_ascii (n : Nat) : ∀ c ∈ natText n, c < 128 := by
  intro c hc
  have := PyInt.natText_digits n c hc
  omega

/-- Only `-0` is printed in another way than it is read. -/
theorem printed_int (repr : FloatLiteral → Str) (negative : Bool) (n : Nat) :
    (printed (Doc.value repr (.int negative n)) : Int) = (Doc.text (.int negative n)).length + Doc.growth repr (.int negative n) := by
  rw [printed, dumpsDefault, Doc.value, Doc.text, Doc.growth, dumps]
  cases negative with
  | false => simp [signText, intText, encode_ascii (natText_ascii n)]
  | true =>
    cases n with
    | zero => rfl
    | succ n =>
      have hminus : (encode (lit "-")).length = 1 := by decide
      have hneg : intText (-((n + 1 : Nat) : Int)) = lit "-" ++ natText (n + 1) := rfl
      simp only [if_true, hneg, encode_append, encode_ascii (natText_ascii _), List.length_append, hminus, signText]
      simp

section
variable (repr : FloatLiteral → Str)

mutual

/-- The printed value is as long as the text and its growth. -/
theorem Doc.printed_value : ∀ d : Doc, (printed (d.value repr) : Int) = d.text.length + d.growth repr
  | .null => rfl
  | .bool true => rfl
  | .bool false => rfl
  | .int negative n => printed_int repr negative n
  | .float f => by
    rw [Doc.value, Doc.text, Doc.growth, printed, dumpsDefault, dumps]
    omega
  | .str s => length_quote s
  | .arr gap l => by
    have hl := Elems.printed_values l
    have hlength := Elems.length_values repr l
    rw [Doc.value, Doc.text, Doc.growth, printed_arr, hlength]
    simp only [List.length_append, length_join]
    have hlit : (lit "[").length = 1 ∧ (lit "]").length = 1 ∧ (lit ",").length = 1 := by decide
    simp only [hlit]
    push_cast at hl ⊢
    omega
  | .obj gap l => by
    have hl := Members.printed_items l
    have hlength := Members.length_items repr l
    have hperm := dictOf_perm (l.items repr)
    rw [Doc.value, Doc.text, Doc.growth, printed_obj, (hperm.map printedItem).sum_eq, hperm.length_eq]
    simp only [List.length_append, length_join]
    have hlit : (lit "\x7b").length = 1 ∧ (lit "\x7d").length = 1 ∧ (lit ",").length = 1 := by decide
    simp only [hlit]
    push_cast at hl ⊢
    omega

theorem Elems.printed_values : ∀ l : Elems,
    (((l.values repr).map printed).sum : Int) + (l.texts.length - 1 : Nat) = (l.texts.map List.length).sum + l.growth repr
  | .nil => rfl
  | .cons before d after l => by
    have hd := Doc.printed_value d
    have hl := Elems.printed_values l
    have hcommas := l.commas_eq
    simp only [Elems.values, Elems.texts, Elems.growth, List.map_cons, List.sum_cons, List.length_append, List.length_cons] at hl ⊢
    push_cast at hl ⊢
    omega

theorem Members.printed_items : ∀ l : Members,
    (((live (l.items repr)).map printedItem).sum : Int) + 2 * ((live (l.items repr)).length - 1 : Nat) =
      (l.texts.map List.length).sum + (l.texts.length - 1 : Nat) + l.growth repr
  | .nil => rfl
  | .cons before key beforeColon afterColon d after l => by
    have hd := Doc.printed_value d
    have hl := Members.printed_items l
    have hkey := length_quote key
    have hcommas := l.commas_eq
    have hitems := Members.length_items repr l
    have hlit : (lit ":").length = 1 := by decide
    have hlive : (live (l.items repr)).length = 0 ↔ l.texts.length = 0 := by
      rw [← hitems, List.length_eq_zero_iff, List.length_eq_zero_iff, live_eq_nil]
    simp only [Members.items, Members.texts, Members.growth, live, Members.keys_eq, List.map_cons, List.sum_cons, List.length_append, List.length_cons,
      hlit] at hl ⊢
    by_cases hover : stringValue key ∈ l.keys
    · have hne : l.texts.length ≠ 0 := by
        rw [← hitems, ← List.length_map (f := Prod.fst), Members.keys_eq]
        exact List.length_pos_of_mem hover |>.ne'
      rw [if_pos hover, if_pos hover]
      push_cast at hl ⊢
      omega
    · rw [if_neg hover, if_neg hover, List.map_cons, List.sum_cons, List.length_cons]
      simp only [printedItem]
      push_cast at hl ⊢
      omega

end

theorem Document.printed_value (d : Document) :
    (printed (d.doc.value repr) : Int) = d.text.length + d.growth repr := by
  rw [d.doc.printed_value repr, Document.text, Document.growth, List.length_append, List.length_append]
  omega

end

end AetherNode.Lib.JsonText
