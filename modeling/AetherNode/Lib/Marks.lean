import AetherNode.Lib.Text
/-!
# Texts that mark a place among other texts

A family of texts is in the order of its index. Another text marks `e` when it
sorts where the text of `e` does: not after it, and after the texts of all
that is smaller. Then comparing it with any text of the family is comparing
`e`. The lemmas take such a text apart from the left, one padded number or one
character at a time; `S` collects what an index shares with `e` so far.
-/
namespace AetherNode.Lib

variable {σ : Type} [LinearOrder σ]

/-- Among the indices in `S`, the text `r` sorts where the text of `e` does. -/
structure Marks (text : σ → Str) (S : σ → Prop) (e : σ) (r : Str) : Prop where
  le : r ≤ text e
  lt : ∀ x, x < e → S x → text x < r

section
variable {text text' : σ → Str} {S : σ → Prop} {e : σ} {r : Str}

/-- A text marks `e` when its comparisons, from some index below `e` on, are those of `e`. -/
theorem marks_iff_compare (hmono : ∀ {x y : σ}, text x < text y ↔ x < y) {t : σ} (ht : t < e) :
    (∀ x, t ≤ x → (text x < r ↔ x < e)) ↔ Marks text (fun _ => True) e r := by
  constructor
  · intro h
    constructor
    · rw [← not_lt, h e ht.le]
      exact lt_irrefl e
    · intro x hx _
      rcases le_or_gt t x with hle | hlt
      · exact (h x hle).2 hx
      · exact (hmono.2 hlt).trans ((h t le_rfl).2 ht)
  · intro h x _
    constructor
    · intro hx
      exact hmono.1 (lt_of_lt_of_le hx h.le)
    · intro hx
      exact h.lt x hx trivial

/-- A padded number that is the one of `e`. -/
theorem marks_pad {w : Nat} {f : σ → Nat} (htext : ∀ x, text x = pad w (f x) ++ text' x) (hf : ∀ x, f x < 10 ^ w)
    (hmono : ∀ x, x < e → S x → f x ≤ f e) :
    Marks text S e (pad w (f e) ++ r) ↔ Marks text' (fun x => S x ∧ f x = f e) e r := by
  constructor
  · intro h
    have hle := h.le
    rw [htext, ← not_lt, prefix_lt_iff, not_lt] at hle
    refine ⟨hle, ?_⟩
    rintro x hx ⟨hs, hfx⟩
    have := h.lt x hx hs
    rwa [htext, hfx, prefix_lt_iff] at this
  · intro h
    constructor
    · rw [htext, ← not_lt, prefix_lt_iff, not_lt]
      exact h.le
    · intro x hx hs
      rw [htext, pad_append_lt (hf x) (hf e)]
      rcases Nat.lt_or_eq_of_le (hmono x hx hs) with hlt | heq
      · exact .inl hlt
      · exact .inr ⟨heq, h.lt x hx ⟨hs, heq⟩⟩

/-- A character that all the texts have. -/
theorem marks_cons {c : Nat} (htext : ∀ x, text x = c :: text' x) :
    Marks text S e (c :: r) ↔ Marks text' S e r := by
  have hcons : ∀ a b : Str, c :: a < c :: b ↔ a < b := fun a b => by simp
  constructor
  · intro h
    have hle := h.le
    rw [htext, ← not_lt, hcons, not_lt] at hle
    refine ⟨hle, ?_⟩
    intro x hx hs
    have := h.lt x hx hs
    rwa [htext, hcons] at this
  · intro h
    constructor
    · rw [htext, ← not_lt, hcons, not_lt]
      exact h.le
    · intro x hx hs
      rw [htext, hcons]
      exact h.lt x hx hs

/-- A smaller character marks `e` when nothing below `e` shares what came before. -/
theorem marks_cons_lt {c d : Nat} (htext : ∀ x, text x = c :: text' x) (h : d < c) :
    Marks text S e (d :: r) ↔ ∀ x, x < e → ¬ S x := by
  constructor
  · intro hm x hx hs
    have hlt := hm.lt x hx hs
    rw [htext, List.cons_lt_cons_iff] at hlt
    omega
  · intro hnone
    constructor
    · rw [htext]
      exact le_of_lt (List.cons_lt_cons_iff.2 (.inl h))
    · intro x hx hs
      exact absurd hs (hnone x hx)

/-- A larger character marks nothing. -/
theorem not_marks_cons_gt {c d : Nat} (htext : ∀ x, text x = c :: text' x) (h : c < d) :
    ¬ Marks text S e (d :: r) := by
  intro hm
  have hle := hm.le
  rw [htext, ← not_lt] at hle
  exact hle (List.cons_lt_cons_iff.2 (.inl h))

/-- The first character that is not the one of the texts decides. -/
theorem marks_cons_ne {c d : Nat} (htext : ∀ x, text x = c :: text' x) (h : d ≠ c) :
    Marks text S e (d :: r) ↔ d < c ∧ ∀ x, x < e → ¬ S x := by
  rcases Nat.lt_or_gt_of_ne h with hlt | hgt
  · rw [marks_cons_lt htext hlt]
    simp [hlt]
  · have hnot : ¬ Marks text S e (d :: r) := not_marks_cons_gt htext hgt
    simp [hnot, not_lt.2 hgt.le]

/-- With nothing below `e`, only the upper bound is left. -/
theorem marks_none (h : ∀ x, x < e → ¬ S x) : Marks text S e r ↔ r ≤ text e := by
  constructor
  · intro hm
    exact hm.le
  · intro hle
    exact ⟨hle, fun x hx hs => absurd hs (h x hx)⟩

end

end AetherNode.Lib
