import AetherNode.Lib.Table
/-!
# Reading a growing table by id

A reader asks for a window of the rows above the largest id it has been
through, handles the rows of the window one by one, and saves the last id. The
table changes meanwhile: rows go, and new ones come under ids that were never
used. What the reader has been through stays covered, and an empty window
means that every row is.
-/
namespace AetherNode.Lib.Cursor

variable {ρ : Type}

/-- The first `n` rows above an id of which `p` holds. -/
def window (n : Nat) (p : ρ → Bool) (rows : List (Nat × ρ)) (sinceId : Nat) : List (Nat × ρ) :=
  (rows.filter fun r => decide (sinceId < r.1) && p r.2).take n

/-- A window being handled: the largest id so far, and what is left. -/
structure Page (ρ : Type) where
  maxId : Nat
  rest : List (Nat × ρ)

/-- Every row up to an id is done. -/
def Covered (rows : List (Nat × ρ)) (done : Nat × ρ → Prop) (n : Nat) : Prop := ∀ x ∈ rows, x.1 ≤ n → done x

/-- The rows up to where the page has come are done, and none of the later ones is missing before the page ends. -/
structure Page.Sound (rows : List (Nat × ρ)) (done : Nat × ρ → Prop) (page : Page ρ) : Prop where
  passed : Covered rows done page.maxId
  sorted : page.rest.Pairwise fun a b => a.1 < b.1
  left : ∀ y ∈ page.rest, ∀ x ∈ rows, x.1 ≤ y.1 → done x ∨ x ∈ page.rest

/-- No id of the page is above `n`. -/
structure Page.Within (n : Nat) (page : Page ρ) : Prop where
  maxId : page.maxId ≤ n
  rest : ∀ y ∈ page.rest, y.1 ≤ n

variable {rows rows' : List (Nat × ρ)} {done done' : Nat × ρ → Prop} {page : Page ρ} {n m : Nat}

/-! ## The rows change -/

theorem Covered.mono (h : Covered rows done n) (hdone : ∀ x, done x → done' x) : Covered rows done' n :=
  fun x hx hle => hdone x (h x hx hle)

/-- New rows above the id leave the others covered. -/
theorem Covered.evolve (h : Covered rows done n) (hrows : ∀ x ∈ rows', x ∈ rows ∨ n < x.1) : Covered rows' done n := by
  intro x hx hle
  rcases hrows x hx with hx | hlt
  · exact h x hx hle
  · omega

theorem Page.Sound.mono (h : page.Sound rows done) (hdone : ∀ x, done x → done' x) : page.Sound rows done' := by
  refine ⟨h.passed.mono hdone, h.sorted, ?_⟩
  intro y hy x hx hle
  exact (h.left y hy x hx hle).imp_left (hdone x)

theorem Page.Sound.evolve (h : page.Sound rows done) (hn : page.Within n) (hrows : ∀ x ∈ rows', x ∈ rows ∨ n < x.1) :
    page.Sound rows' done := by
  refine ⟨h.passed.evolve fun x hx => (hrows x hx).imp_right (Nat.lt_of_le_of_lt hn.maxId), h.sorted, ?_⟩
  intro y hy x hx hle
  rcases hrows x hx with hx | hlt
  · exact h.left y hy x hx hle
  · have := hn.rest y hy
    omega

theorem Page.Within.later (h : page.Within n) (hle : n ≤ m) : page.Within m :=
  ⟨Nat.le_trans h.maxId hle, fun y hy => Nat.le_trans (h.rest y hy) hle⟩

/-! ## The reader goes on -/

theorem mem_of_window {p : ρ → Bool} {r : Nat × ρ} (h : r ∈ window n p rows m) : r ∈ rows ∧ m < r.1 ∧ p r.2 = true := by
  have := List.mem_filter.1 (List.mem_of_mem_take h)
  simpa using this

/-- A prefix of sorted rows has all rows up to each of its own. -/
theorem mem_take_of_le {l : List (Nat × ρ)} (hl : l.Pairwise fun a b => a.1 < b.1) {x y : Nat × ρ} (hy : y ∈ l.take n)
    (hx : x ∈ l) (hle : x.1 ≤ y.1) : x ∈ l.take n := by
  rw [← List.take_append_drop n l] at hx hl
  rcases List.mem_append.1 hx with hx | hx
  · exact hx
  · have hlt := (List.pairwise_append.1 hl).2.2 y hy x hx
    omega

/-- The window above a covered id is a sound page. -/
theorem sound_window {p : ρ → Bool} (hs : rows.Pairwise fun a b => a.1 < b.1) (hp : ∀ x, p x.2 = false → done x)
    (h : Covered rows done m) : Page.Sound rows done ⟨m, window n p rows m⟩ := by
  have hsorted := hs.filter fun r => decide (m < r.1) && p r.2
  refine ⟨h, hsorted.sublist (List.take_sublist _ _), ?_⟩
  intro y hy x hx hle
  cases hpx : p x.2 with
  | false => exact .inl (hp x hpx)
  | true =>
    by_cases hm : x.1 ≤ m
    · exact .inl (h x hx hm)
    · refine .inr (mem_take_of_le hsorted hy ?_ hle)
      simp [hx, hpx, Nat.lt_of_not_le hm]

theorem within_window {p : ρ → Bool} (hm : m ≤ n) (hn : ∀ x ∈ rows, x.1 ≤ n) (k : Nat) :
    Page.Within n ⟨m, window k p rows m⟩ :=
  ⟨hm, fun y hy => hn y (mem_of_window hy).1⟩

/-- A row of a sound page is passed once it is done. -/
theorem Page.Sound.pass {y : Nat × ρ} {rest : List (Nat × ρ)} (h : Page.Sound rows done ⟨m, y :: rest⟩) (hy : done y) :
    Page.Sound rows done ⟨max m y.1, rest⟩ := by
  obtain ⟨hfirst, hsorted⟩ := List.pairwise_cons.1 h.sorted
  -- A row that is still left is the first one, or in the rest.
  have hleft : ∀ z ∈ y :: rest, ∀ x ∈ rows, x.1 ≤ z.1 → done x ∨ x ∈ rest := by
    intro z hz x hx hle
    rcases h.left z hz x hx hle with hdone | hmem
    · exact .inl hdone
    · rcases List.mem_cons.1 hmem with rfl | hmem
      · exact .inl hy
      · exact .inr hmem
  constructor
  · intro x hx (hle : x.1 ≤ max m y.1)
    by_cases hm : x.1 ≤ m
    · exact h.passed x hx hm
    · have hxy : x.1 ≤ y.1 := by omega
      rcases hleft y List.mem_cons_self x hx hxy with hdone | hmem
      · exact hdone
      · have := hfirst x hmem
        omega
  · exact hsorted
  · exact fun z hz => hleft z (List.mem_cons_of_mem y hz)

theorem Page.Within.pass {y : Nat × ρ} {rest : List (Nat × ρ)} (h : Page.Within n ⟨m, y :: rest⟩) :
    Page.Within n ⟨max m y.1, rest⟩ :=
  ⟨Nat.max_le.2 ⟨h.maxId, h.rest y List.mem_cons_self⟩, fun z hz => h.rest z (List.mem_cons_of_mem y hz)⟩

/-- An empty window above a covered id: every row is done. -/
theorem done_of_window_nil {p : ρ → Bool} (hn : 0 < n) (hp : ∀ x, p x.2 = false → done x) (h : Covered rows done m)
    (hnil : window n p rows m = []) : ∀ x ∈ rows, done x := by
  intro x hx
  cases hpx : p x.2 with
  | false => exact hp x hpx
  | true =>
    refine h x hx (Nat.le_of_not_lt fun hlt => ?_)
    rcases List.take_eq_nil_iff.1 hnil with hzero | hfilter
    · omega
    · have hmem : x ∈ rows.filter fun r => decide (m < r.1) && p r.2 := by simp [hx, hpx, hlt]
      rw [hfilter] at hmem
      cases hmem

end AetherNode.Lib.Cursor
