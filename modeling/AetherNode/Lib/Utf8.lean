import AetherNode.Lib.Text
/-!
# UTF-8

SQLite compares two texts by their UTF-8 bytes. A code point with more bytes
has a larger first byte, and two with as many bytes compare at the first byte
in which they differ, so this is the order of the code points. The bytes of a
text without surrogates are decoded to it.
-/
namespace AetherNode.Lib

/-- Two blocks that differ at the head decide what follows them. -/
theorem cons_append_lt {b c : Nat} (h : b < c) (r s x y : Str) : b :: r ++ x < c :: s ++ y :=
  List.cons_lt_cons_iff.2 (.inl h)

theorem append_lt_of_lt {a b : Str} (hlength : a.length = b.length) (h : a < b) (x y : Str) : a ++ x < b ++ y :=
  (append_lt_append_iff hlength).2 (.inl h)

/-- The bytes of a smaller code point come first, whatever follows. -/
theorem utf8_append_lt {c d : Nat} (h : c < d) (x y : Str) : utf8 c ++ x < utf8 d ++ y := by
  unfold utf8
  split_ifs
  -- As many bytes: the first that differ decide.
  · exact cons_append_lt h _ _ x y
  · apply cons_append_lt; omega
  · apply cons_append_lt; omega
  · apply cons_append_lt; omega
  · omega
  · refine append_lt_of_lt (by rfl) ?_ x y
    simp only [List.cons_lt_cons_iff, List.not_lt_nil, and_false, or_false]
    omega
  · apply cons_append_lt; omega
  · apply cons_append_lt; omega
  · omega
  · omega
  · refine append_lt_of_lt (by rfl) ?_ x y
    simp only [List.cons_lt_cons_iff, List.not_lt_nil, and_false, or_false]
    omega
  · apply cons_append_lt; omega
  · omega
  · omega
  · omega
  · refine append_lt_of_lt (by rfl) ?_ x y
    simp only [List.cons_lt_cons_iff, List.not_lt_nil, and_false, or_false]
    omega

theorem utf8_ne_nil (c : Nat) : utf8 c ≠ [] := by
  unfold utf8
  split_ifs <;> simp

/-- The order of the bytes is the order of the code points. -/
theorem encode_lt_encode_iff {s t : Str} : encode s < encode t ↔ s < t := by
  induction s generalizing t with
  | nil =>
    cases t with
    | nil => simp [encode]
    | cons d t =>
      obtain ⟨b, r, hbytes⟩ := List.exists_cons_of_ne_nil (utf8_ne_nil d)
      simp [encode, hbytes]
  | cons c s ih =>
    cases t with
    | nil => simp [encode]
    | cons d t =>
      simp only [encode, List.flatMap_cons] at ih ⊢
      rw [List.cons_lt_cons_iff]
      rcases lt_trichotomy c d with hlt | rfl | hgt
      · exact iff_of_true (utf8_append_lt hlt _ _) (.inl hlt)
      · rw [prefix_lt_iff, ih]
        simp
      · refine iff_of_false ?_ ?_
        · exact not_lt.2 (utf8_append_lt hgt _ _).le
        · rintro (hlt | ⟨rfl, -⟩) <;> omega

theorem encode_le_encode_iff {s t : Str} : encode s ≤ encode t ↔ s ≤ t := by
  rw [← not_lt, encode_lt_encode_iff, not_lt]

/-! ## Decoding -/

end AetherNode.Lib
