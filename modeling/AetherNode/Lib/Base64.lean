import AetherNode.Lib.Text
/-!
# Base64

`b64decode` is Python's non-strict decoder: characters outside the alphabet
are skipped, and decoding stops at the padding that completes a quad.
-/
namespace AetherNode.Lib

/-- A byte string. -/
abbrev Bytes := List Nat

/-- The value of a character of the standard alphabet. -/
def sextet? (c : Nat) : Option Nat :=
  if 65 ≤ c ∧ c ≤ 90 then some (c - 65)
  else if 97 ≤ c ∧ c ≤ 122 then some (c - 71)
  else if 48 ≤ c ∧ c ≤ 57 then some (c + 4)
  else if c = 43 then some 62
  else if c = 47 then some 63
  else none

/-- `binascii.a2b_base64`: `pos` characters of the current quad are read, `left` holds the bits not
yet written, and `pads` counts the padding seen in the quad. -/
def a2bBase64 (pos left pads : Nat) : Str → Option Bytes
  | [] => if pos = 0 then some [] else none
  | c :: cs =>
    if c = 61 then
      if 2 ≤ pos then
        if 4 ≤ pos + (pads + 1) then some [] else a2bBase64 pos left (pads + 1) cs
      else a2bBase64 pos left pads cs
    else
      match sextet? c, pos with
      | none, _ => a2bBase64 pos left pads cs
      | some v, 0 => a2bBase64 1 v 0 cs
      | some v, 1 => (a2bBase64 2 (v % 16) 0 cs).map fun bs => (left * 4 + v / 16) :: bs
      | some v, 2 => (a2bBase64 3 (v % 4) 0 cs).map fun bs => (left * 16 + v / 4) :: bs
      | some v, _ => (a2bBase64 0 0 0 cs).map fun bs => (left * 64 + v) :: bs

/-- `base64.b64decode` of a text; `none` is its ValueError. -/
def b64decode (s : Str) : Option Bytes := if s.all (· < 128) then a2bBase64 0 0 0 s else none

/-- Only ASCII texts decode. -/
theorem ascii_of_b64decode {s : Str} {b : Bytes} (h : b64decode s = some b) : ∀ c ∈ s, c < 128 := by
  unfold b64decode at h
  split at h
  · rename_i ha
    intro c hc
    simpa using List.all_eq_true.1 ha c hc
  · cases h

theorem encodable_of_b64decode {s : Str} {b : Bytes} (h : b64decode s = some b) : encodable s = true := by
  apply List.all_eq_true.2
  intro c hc
  have := ascii_of_b64decode h c hc
  simp only [isSurrogate, Bool.not_eq_true', Bool.and_eq_false_iff, decide_eq_false_iff_not]
  omega

/-- The character of a value below 64. -/
def sextetChar (v : Nat) : Nat :=
  if v < 26 then v + 65 else if v < 52 then v + 71 else if v < 62 then v - 4 else if v = 62 then 43 else 47

/-- `base64.b64encode` of a byte string. -/
def b64encode : Bytes → Str
  | [] => []
  | [a] => [sextetChar (a / 4), sextetChar (a % 4 * 16), 61, 61]
  | [a, b] => [sextetChar (a / 4), sextetChar (a % 4 * 16 + b / 16), sextetChar (b % 16 * 4), 61]
  | a :: b :: c :: l =>
    sextetChar (a / 4) :: sextetChar (a % 4 * 16 + b / 16) :: sextetChar (b % 16 * 4 + c / 64) :: sextetChar (c % 64) ::
      b64encode l

theorem sextet?_sextetChar {v : Nat} (h : v < 64) : sextet? (sextetChar v) = some v := by
  revert h
  revert v
  decide

theorem sextetChar_ascii (v : Nat) : sextetChar v < 128 ∧ sextetChar v ≠ 61 := by
  unfold sextetChar
  split
  · omega
  split
  · omega
  split
  · omega
  split <;> omega

section
variable {v : Nat} (h : v < 64) (left pads : Nat) (s : Str)
include h

/-- A character of the alphabet is read as its value, at each position of the quad. -/
theorem a2bBase64_first : a2bBase64 0 left pads (sextetChar v :: s) = a2bBase64 1 v 0 s := by
  simp [a2bBase64, (sextetChar_ascii v).2, sextet?_sextetChar h]

theorem a2bBase64_second : a2bBase64 1 left pads (sextetChar v :: s) =
    (a2bBase64 2 (v % 16) 0 s).map fun bs => (left * 4 + v / 16) :: bs := by
  simp [a2bBase64, (sextetChar_ascii v).2, sextet?_sextetChar h]

theorem a2bBase64_third : a2bBase64 2 left pads (sextetChar v :: s) =
    (a2bBase64 3 (v % 4) 0 s).map fun bs => (left * 16 + v / 4) :: bs := by
  simp [a2bBase64, (sextetChar_ascii v).2, sextet?_sextetChar h]

theorem a2bBase64_fourth : a2bBase64 3 left pads (sextetChar v :: s) =
    (a2bBase64 0 0 0 s).map fun bs => (left * 64 + v) :: bs := by
  simp [a2bBase64, (sextetChar_ascii v).2, sextet?_sextetChar h]

end

theorem a2bBase64_b64encode (bs : Bytes) (h : ∀ x ∈ bs, x < 256) : a2bBase64 0 0 0 (b64encode bs) = some bs := by
  induction bs using b64encode.induct with
  | case1 => rfl
  | case2 a =>
    have ha := h a (by simp)
    have hbyte : a / 4 * 4 + a % 4 * 16 / 16 = a := by omega
    rw [b64encode, a2bBase64_first (by omega), a2bBase64_second (by omega), hbyte]
    rfl
  | case3 a b =>
    have ha := h a (by simp)
    have hb := h b (by simp)
    have hfirst : a / 4 * 4 + (a % 4 * 16 + b / 16) / 16 = a := by omega
    have hsecond : (a % 4 * 16 + b / 16) % 16 * 16 + b % 16 * 4 / 4 = b := by omega
    rw [b64encode, a2bBase64_first (by omega), a2bBase64_second (by omega), a2bBase64_third (by omega), hfirst, hsecond]
    rfl
  | case4 a b c l ih =>
    have ha := h a (by simp)
    have hb := h b (by simp)
    have hc := h c (by simp)
    have hfirst : a / 4 * 4 + (a % 4 * 16 + b / 16) / 16 = a := by omega
    have hsecond : (a % 4 * 16 + b / 16) % 16 * 16 + (b % 16 * 4 + c / 64) / 4 = b := by omega
    have hthird : (b % 16 * 4 + c / 64) % 4 * 64 + c % 64 = c := by omega
    rw [b64encode, a2bBase64_first (by omega), a2bBase64_second (by omega), a2bBase64_third (by omega),
      a2bBase64_fourth (by omega), hfirst, hsecond, hthird, ih fun x hx => h x (by simp [hx])]
    rfl

theorem ascii_b64encode (bs : Bytes) : ∀ c ∈ b64encode bs, c < 128 := by
  induction bs using b64encode.induct with
  | case1 => simp [b64encode]
  | case2 a => simp [b64encode, sextetChar_ascii]
  | case3 a b => simp [b64encode, sextetChar_ascii]
  | case4 a b c l ih => simpa [b64encode, sextetChar_ascii] using ih

/-- What is encoded decodes to the same bytes. -/
theorem b64decode_b64encode {bs : Bytes} (h : ∀ x ∈ bs, x < 256) : b64decode (b64encode bs) = some bs := by
  have hascii : (b64encode bs).all (· < 128) = true :=
    List.all_eq_true.2 fun c hc => decide_eq_true (ascii_b64encode bs c hc)
  rw [b64decode, if_pos hascii, a2bBase64_b64encode bs h]

example : b64decode (lit "aGk=") = some [104, 105] ∧ b64decode (lit "aG-k=\n") = some [104, 105] := by decide

end AetherNode.Lib
