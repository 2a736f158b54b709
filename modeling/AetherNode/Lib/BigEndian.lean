import AetherNode.Lib.Base64
/-!
# Big-endian numbers

`n.to_bytes(width, "big")` and `int.from_bytes(bytes, "big")`: the digits of a
number to the base 256, most significant first.
-/
namespace AetherNode.Lib.BigEndian

/-- The last `w` digits of `n`. -/
def digits : Nat → Nat → Bytes
  | 0, _ => []
  | w + 1, n => digits w (n / 256) ++ [n % 256]

/-- `n.to_bytes(w, "big")`; `none` is the OverflowError of a number that is too big. -/
def toBytes (w n : Nat) : Option Bytes := if n < 256 ^ w then some (digits w n) else none

/-- `int.from_bytes(bytes, "big")`. -/
def fromBytes (bytes : Bytes) : Nat := bytes.foldl (fun n b => 256 * n + b) 0

@[simp] theorem length_digits (w n : Nat) : (digits w n).length = w := by
  induction w generalizing n with
  | zero => rfl
  | succ w ih => rw [digits, List.length_append, ih, List.length_singleton]

theorem fromBytes_concat (bytes : Bytes) (b : Nat) : fromBytes (bytes ++ [b]) = 256 * fromBytes bytes + b :=
  List.foldl_concat ..

theorem fromBytes_digits {w n : Nat} (h : n < 256 ^ w) : fromBytes (digits w n) = n := by
  induction w generalizing n with
  | zero =>
    rw [Nat.pow_zero] at h
    rw [digits, Nat.lt_one_iff.1 h]
    rfl
  | succ w ih =>
    rw [Nat.pow_succ] at h
    rw [digits, fromBytes_concat, ih (by omega)]
    omega

end AetherNode.Lib.BigEndian
