import Mathlib.Data.List.Induction
import Mathlib.Data.List.Lex
import Mathlib.Order.Lex
import Mathlib.Order.Nat
import Mathlib.Tactic.Ring
/-!
# Text as code points

A text is its list of code points, lone surrogates included. The order on
lists is lexicographic, which for code points is also the byte-wise order of
the UTF-8 encodings. The lemmas compare texts block by block: equal-length
blocks first, then what follows them.
-/
namespace AetherNode.Lib

/-- A text: its code points. -/
abbrev Str := List Nat

/-- Texts are compared as lists of code points, also where `∈` is decided. -/
instance : LawfulBEq Str := inferInstance

/-- The code points of a literal. -/
def lit (s : String) : Str := s.toList.map Char.toNat

/-- A code point of the UTF-16 surrogate range, which UTF-8 cannot encode. -/
def isSurrogate (c : Nat) : Bool := 0xD800 ≤ c && c ≤ 0xDFFF

/-- UTF-8 can encode the text. -/
def encodable (s : Str) : Bool := s.all fun c => !isSurrogate c

theorem encodable_append (s t : Str) : encodable (s ++ t) = (encodable s && encodable t) := List.all_append

/-- The code points that `str.strip` removes. -/
def isSpace (c : Nat) : Bool :=
  9 ≤ c && c ≤ 13 || 28 ≤ c && c ≤ 32 || c = 0x85 || c = 0xA0 || c = 0x1680 || 0x2000 ≤ c && c ≤ 0x200A ||
    c = 0x2028 || c = 0x2029 || c = 0x202F || c = 0x205F || c = 0x3000

/-- `sep.join(l)`. -/
def join (sep : Str) : List Str → Str
  | [] => []
  | [x] => x
  | x :: y :: l => x ++ sep ++ join sep (y :: l)

/-- `s.split(c)`. -/
def splitOn (c : Nat) : Str → List Str
  | [] => [[]]
  | d :: s =>
    if d = c then [] :: splitOn c s
    else
      match splitOn c s with
      | [] => [[d]]
      | x :: l => (d :: x) :: l

theorem splitOn_ne_nil (c : Nat) (s : Str) : splitOn c s ≠ [] := by
  cases s with
  | nil => simp [splitOn]
  | cons d s =>
    unfold splitOn
    split
    · simp
    · split <;> simp

theorem splitOn_append (c : Nat) (s t : Str) : splitOn c (s ++ c :: t) = splitOn c s ++ splitOn c t := by
  induction s with
  | nil => simp [splitOn]
  | cons d s ih =>
    rw [List.cons_append, splitOn, splitOn, ih]
    split
    · rfl
    · cases hs : splitOn c s with
      | nil => exact absurd hs (splitOn_ne_nil c s)
      | cons x l => rfl

/-- Splitting a joined text splits its parts. -/
theorem splitOn_join (c : Nat) {l : List Str} (h : l ≠ []) : splitOn c (join [c] l) = l.flatMap (splitOn c) := by
  induction l with
  | nil => exact absurd rfl h
  | cons s l ih =>
    cases l with
    | nil => simp [join]
    | cons t l =>
      rw [join, List.append_assoc, List.singleton_append, splitOn_append, ih (by simp)]
      rfl

/-- The UTF-8 bytes of a code point. -/
def utf8 (c : Nat) : List Nat :=
  if c < 0x80 then [c]
  else if c < 0x800 then [0xC0 + c / 64, 0x80 + c % 64]
  else if c < 0x10000 then [0xE0 + c / 4096, 0x80 + c / 64 % 64, 0x80 + c % 64]
  else [0xF0 + c / 262144, 0x80 + c / 4096 % 64, 0x80 + c / 64 % 64, 0x80 + c % 64]

/-- `s.encode()`, for a text that UTF-8 can encode. -/
def encode (s : Str) : List Nat := s.flatMap utf8

@[simp] theorem encode_append (s t : Str) : encode (s ++ t) = encode s ++ encode t := List.flatMap_append

theorem length_encode_join (sep : Str) (l : List Str) : (encode (join sep l)).length =
    (l.map fun x => (encode x).length).sum + (l.length - 1) * (encode sep).length := by
  induction l with
  | nil => simp [join, encode]
  | cons x l ih =>
    cases l with
    | nil => simp [join]
    | cons y l =>
      simp only [join, encode_append, List.length_append, ih, List.map_cons, List.sum_cons, List.length_cons,
        Nat.add_sub_cancel, Nat.add_mul, Nat.one_mul]
      omega

/-! ## Comparing block by block -/

theorem append_lt_append_iff {a b x y : Str} (h : a.length = b.length) :
    a ++ x < b ++ y ↔ a < b ∨ a = b ∧ x < y := by
  induction a generalizing b with
  | nil =>
    obtain rfl : b = [] := List.length_eq_zero_iff.1 h.symm
    simp
  | cons c a ih =>
    cases b with
    | nil => simp at h
    | cons d b =>
      simp only [List.length_cons, Nat.add_right_cancel_iff] at h
      simp only [List.cons_append, List.cons_lt_cons_iff, ih h, List.cons.injEq]
      tauto

theorem prefix_lt_iff {p x y : Str} : p ++ x < p ++ y ↔ x < y := by
  simp [append_lt_append_iff]

/-! ## Zero-padded decimals -/

/-- The last `w` decimal digits of `n`, zero-padded. -/
def pad : Nat → Nat → Str
  | 0, _ => []
  | w + 1, n => pad w (n / 10) ++ [48 + n % 10]

@[simp] theorem pad_length (w n : Nat) : (pad w n).length = w := by
  induction w generalizing n with
  | zero => rfl
  | succ w ih => simp [pad, ih]

/-- A padded number in two blocks. -/
theorem pad_add (w v n : Nat) : pad (w + v) n = pad w (n / 10 ^ v) ++ pad v n := by
  induction v generalizing n with
  | zero => simp [pad]
  | succ v ih =>
    rw [← Nat.add_assoc, pad, ih, pad, ← List.append_assoc, Nat.div_div_eq_div_mul, pow_succ, Nat.mul_comm 10]

/-- Padded numbers of one width compare as the numbers do. -/
theorem pad_lt_pad {w n m : Nat} (hn : n < 10 ^ w) (hm : m < 10 ^ w) : pad w n < pad w m ↔ n < m := by
  induction w generalizing n m with
  | zero => simp [pad]; omega
  | succ w ih =>
    have hn' : n / 10 < 10 ^ w := by rw [pow_succ] at hn; omega
    have hm' : m / 10 < 10 ^ w := by rw [pow_succ] at hm; omega
    have heq : pad w (n / 10) = pad w (m / 10) ↔ n / 10 = m / 10 := by
      refine ⟨?_, fun h => by rw [h]⟩
      intro h
      by_contra hne
      rcases Nat.lt_or_gt_of_ne hne with hlt | hlt
      · exact absurd ((ih hn' hm').2 hlt) (h ▸ lt_irrefl _)
      · exact absurd ((ih hm' hn').2 hlt) (h ▸ lt_irrefl _)
    have hlen : (pad w (n / 10)).length = (pad w (m / 10)).length := by simp
    rw [pad, pad, append_lt_append_iff hlen, ih hn' hm', heq, List.cons_lt_cons_iff]
    simp only [lt_self_iff_false, and_false, or_false]
    omega

theorem pad_inj {w n m : Nat} (hn : n < 10 ^ w) (hm : m < 10 ^ w) (h : pad w n = pad w m) : n = m := by
  rcases lt_trichotomy n m with hlt | heq | hlt
  · exact absurd ((pad_lt_pad hn hm).2 hlt) (h ▸ lt_irrefl _)
  · exact heq
  · exact absurd ((pad_lt_pad hm hn).2 hlt) (h ▸ lt_irrefl _)

/-- One block of padded numbers, then the rest: the numbers decide first. -/
theorem pad_append_lt {w n m : Nat} {x y : Str} (hn : n < 10 ^ w) (hm : m < 10 ^ w) :
    pad w n ++ x < pad w m ++ y ↔ n < m ∨ n = m ∧ x < y := by
  rw [append_lt_append_iff (by simp), pad_lt_pad hn hm]
  refine or_congr_right (and_congr_left fun _ => ⟨pad_inj hn hm, fun h => by rw [h]⟩)

/-! ## Reading decimals -/

/-- The value of an ASCII digit. -/
def digitVal? (c : Nat) : Option Nat := if 48 ≤ c ∧ c ≤ 57 then some (c - 48) else none

/-- The value of a text of ASCII digits; `none` for anything else. -/
def digitsVal? (s : Str) : Option Nat :=
  s.foldl (fun acc c => acc.bind fun n => (digitVal? c).map fun d => 10 * n + d) (some 0)

/-- What holds of every digit holds of a padded number. -/
theorem all_pad {f : Nat → Bool} (hf : ∀ d < 10, f (48 + d) = true) (w n : Nat) : (pad w n).all f = true := by
  induction w generalizing n with
  | zero => rfl
  | succ w ih =>
    rw [pad, List.all_append, ih, List.all_cons, hf _ (Nat.mod_lt _ (by omega))]
    rfl

theorem encodable_pad (w n : Nat) : encodable (pad w n) = true := by
  refine all_pad (?_) w n
  intro d hd
  simp only [isSurrogate, Bool.not_eq_true', Bool.and_eq_false_iff, decide_eq_false_iff_not]
  omega

theorem digitsVal?_concat (s : Str) (c : Nat) :
    digitsVal? (s ++ [c]) = (digitsVal? s).bind fun n => (digitVal? c).map fun d => 10 * n + d := by
  simp [digitsVal?]

theorem digitVal?_digit {d : Nat} (h : d < 10) : digitVal? (48 + d) = some d := by
  simp only [digitVal?]
  rw [if_pos (by omega), Nat.add_sub_cancel_left]

/-- A padded number reads back. -/
theorem digitsVal?_pad {w n : Nat} (h : n < 10 ^ w) : digitsVal? (pad w n) = some n := by
  induction w generalizing n with
  | zero => simp [pad, digitsVal?]; omega
  | succ w ih =>
    rw [pad, digitsVal?_concat, ih (by rw [pow_succ] at h; omega), digitVal?_digit (Nat.mod_lt _ (by omega))]
    simp [Nat.div_add_mod]

theorem digitsVal?_lt {s : Str} {n : Nat} (h : digitsVal? s = some n) : n < 10 ^ s.length := by
  induction s using List.reverseRecOn generalizing n with
  | nil => simp [digitsVal?] at h; simp [← h]
  | append_singleton s c ih =>
    rw [digitsVal?_concat] at h
    obtain ⟨m, hm, hx⟩ := Option.bind_eq_some_iff.1 h
    obtain ⟨d, hd, rfl⟩ := Option.map_eq_some_iff.1 hx
    have hm' := ih hm
    simp only [digitVal?] at hd
    split at hd <;> simp only [Option.some.injEq, reduceCtorEq] at hd
    simp only [List.length_append, List.length_singleton, pow_succ]
    omega

/-- Digits that read as `n` are `n` padded to their number. -/
theorem eq_pad_of_digitsVal? {s : Str} {n : Nat} (h : digitsVal? s = some n) : s = pad s.length n := by
  induction s using List.reverseRecOn generalizing n with
  | nil => rfl
  | append_singleton s c ih =>
    rw [digitsVal?_concat] at h
    obtain ⟨m, hm, hx⟩ := Option.bind_eq_some_iff.1 h
    obtain ⟨d, hd, rfl⟩ := Option.map_eq_some_iff.1 hx
    simp only [digitVal?] at hd
    split at hd <;> simp only [Option.some.injEq, reduceCtorEq] at hd
    simp only [List.length_append, List.length_singleton, pad]
    rw [show (10 * m + d) / 10 = m by omega, show (10 * m + d) % 10 = d by omega, ← ih hm]
    congr 2
    omega

end AetherNode.Lib
