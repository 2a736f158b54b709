import Mathlib.Data.List.Nodup
import Mathlib.Data.List.Pairwise
import Mathlib.Data.List.Perm.Subperm
/-!
# An AUTOINCREMENT table with one UNIQUE column

The rows are kept in id order, next to the largest id ever handed out. A
table cannot be built with two rows of one key, with ids out of order, or
with an id that is zero or above the sequence, so no invariant about any of these is needed
elsewhere. `lookup` is the table read by its unique key; every operation is
described by what it does to `lookup`.
-/
namespace AetherNode.Lib

/-- Rows with their ids, oldest first, and the AUTOINCREMENT sequence. -/
structure Table {ρ κ : Type} (key : ρ → κ) where
  rows : List (Nat × ρ)
  seq : Nat
  sorted : rows.Pairwise (fun a b => a.1 < b.1)
  positive : ∀ r ∈ rows, 0 < r.1
  bounded : ∀ r ∈ rows, r.1 ≤ seq
  unique : (rows.map fun r => key r.2).Nodup

namespace Table
variable {ρ κ : Type} {key : ρ → κ}

def empty : Table key := ⟨[], 0, .nil, by simp, by simp, by simp⟩

/-- `DELETE ... WHERE p`. -/
def deleteWhere (t : Table key) (p : ρ → Bool) : Table key where
  rows := t.rows.filter fun r => !p r.2
  seq := t.seq
  sorted := t.sorted.filter _
  positive r hr := t.positive r (List.mem_filter.1 hr).1
  bounded r hr := t.bounded r (List.mem_filter.1 hr).1
  unique := (List.filter_sublist.map _).nodup t.unique

/-- A new row under the next id, for a key no row has. -/
def append (t : Table key) (x : ρ) (h : ∀ r ∈ t.rows, key r.2 ≠ key x) : Table key where
  rows := t.rows ++ [(t.seq + 1, x)]
  seq := t.seq + 1
  sorted := List.pairwise_append.2 ⟨t.sorted, List.pairwise_singleton _ _, fun a ha b hb => by
    rw [List.mem_singleton.1 hb]; exact Nat.lt_succ_of_le (t.bounded a ha)⟩
  positive r hr := by
    rcases List.mem_append.1 hr with hr | hr
    · exact t.positive r hr
    · rw [List.mem_singleton.1 hr]; exact Nat.succ_pos _
  bounded r hr := by
    rcases List.mem_append.1 hr with hr | hr
    · exact Nat.le_succ_of_le (t.bounded r hr)
    · exact Nat.le_of_eq (congrArg Prod.fst (List.mem_singleton.1 hr))
  unique := by
    rw [List.map_append]
    refine List.nodup_append.2 ⟨t.unique, by simp, ?_⟩
    intro a ha b hb
    obtain ⟨r, hr, rfl⟩ := List.mem_map.1 ha
    rw [List.mem_singleton.1 hb]
    exact h r hr

/-- An id handed out to a row that was not kept. -/
def skip (t : Table key) : Table key :=
  { t with seq := t.seq + 1, bounded := fun r hr => Nat.le_succ_of_le (t.bounded r hr) }

/-- Some rows have gone, and no id was handed out. -/
structure Sheds (t t' : Table key) : Prop where
  rows : t'.rows.Sublist t.rows
  seq : t'.seq = t.seq

theorem Sheds.refl (t : Table key) : t.Sheds t := ⟨.refl _, rfl⟩

theorem sheds_deleteWhere (t : Table key) (p : ρ → Bool) : t.Sheds (t.deleteWhere p) := ⟨List.filter_sublist, rfl⟩

/-- A table is its rows and its sequence. -/
theorem eq_of_rows {t t' : Table key} (hrows : t.rows = t'.rows) (hseq : t.seq = t'.seq) : t = t' := by
  cases t
  cases t'
  cases hrows
  cases hseq
  rfl

/-- Every row is an old one or has an id that was never handed out before. -/
structure Evolves (t t' : Table key) : Prop where
  rows : ∀ r ∈ t'.rows, r ∈ t.rows ∨ t.seq < r.1
  seq : t.seq ≤ t'.seq

theorem Evolves.refl (t : Table key) : t.Evolves t := ⟨fun _ h => .inl h, Nat.le_refl _⟩

theorem Evolves.trans {t t' t'' : Table key} (h : t.Evolves t') (h' : t'.Evolves t'') : t.Evolves t'' := by
  constructor
  · intro r hr
    rcases h'.rows r hr with hr | hr
    · exact h.rows r hr
    · exact .inr (Nat.lt_of_le_of_lt h.seq hr)
  · exact Nat.le_trans h.seq h'.seq

theorem Sheds.evolves {t t' : Table key} (h : t.Sheds t') : t.Evolves t' :=
  ⟨fun _ hr => .inl (h.rows.subset hr), Nat.le_of_eq h.seq.symm⟩

theorem evolves_append (t : Table key) (x : ρ) (h) : t.Evolves (t.append x h) := by
  constructor
  · intro r hr
    rcases List.mem_append.1 hr with hr | hr
    · exact .inl hr
    · rw [List.mem_singleton.1 hr]
      exact .inr (Nat.lt_succ_self _)
  · exact Nat.le_succ _

theorem evolves_skip (t : Table key) : t.Evolves t.skip := ⟨fun _ h => .inl h, Nat.le_succ _⟩

variable [DecidableEq κ]

/-- The row with key `k`. -/
def lookup (t : Table key) (k : κ) : Option ρ := (t.rows.find? fun r => key r.2 = k).map (·.2)

/-- `INSERT`: `none` is the uniqueness violation, with the new row's id otherwise. -/
def insert? (t : Table key) (x : ρ) : Option (Table key × Nat) :=
  if h : ∀ r ∈ t.rows, key r.2 ≠ key x then some (t.append x h, t.seq + 1) else none

/-- `INSERT OR IGNORE`: an ignored row still uses up an id. -/
def insertOrIgnore (t : Table key) (x : ρ) : Table key :=
  if h : ∀ r ∈ t.rows, key r.2 ≠ key x then t.append x h else t.skip

/-- `INSERT OR REPLACE`: the row with the same key goes, the new one gets a fresh id. -/
def insertOrReplace (t : Table key) (x : ρ) : Table key :=
  (t.deleteWhere fun y => key y = key x).append x fun r hr => by
    simpa [deleteWhere] using (List.mem_filter.1 hr).2

theorem evolves_insert? {t t' : Table key} {x : ρ} {i : Nat} (h : t.insert? x = some (t', i)) : t.Evolves t' := by
  unfold insert? at h
  split at h
  · cases h
    exact t.evolves_append x _
  · cases h

theorem evolves_insertOrIgnore (t : Table key) (x : ρ) : t.Evolves (t.insertOrIgnore x) := by
  unfold insertOrIgnore
  split
  · exact t.evolves_append x _
  · exact t.evolves_skip

theorem evolves_insertOrReplace (t : Table key) (x : ρ) : t.Evolves (t.insertOrReplace x) :=
  (t.sheds_deleteWhere _).evolves.trans (evolves_append _ x _)

/-! ## Reading by key -/

theorem lookup_eq_some {t : Table key} {k : κ} {x : ρ} :
    t.lookup k = some x ↔ (∃ i, (i, x) ∈ t.rows) ∧ key x = k := by
  constructor
  · intro h
    obtain ⟨r, hr, rfl⟩ := Option.map_eq_some_iff.1 h
    exact ⟨⟨r.1, List.mem_of_find?_eq_some hr⟩, by simpa using List.find?_some hr⟩
  · rintro ⟨⟨i, hi⟩, rfl⟩
    unfold lookup
    cases hf : t.rows.find? (fun r => key r.2 = key x) with
    | none => simp [List.find?_eq_none] at hf; exact absurd rfl (hf i x hi)
    | some r =>
      have hk : key r.2 = key x := by simpa using List.find?_some hf
      have hr := List.mem_of_find?_eq_some hf
      rw [List.inj_on_of_nodup_map t.unique hr hi hk]
      rfl

theorem lookup_key {t : Table key} {k : κ} {x : ρ} (h : t.lookup k = some x) : key x = k :=
  (lookup_eq_some.1 h).2

theorem lookup_eq_none {t : Table key} {k : κ} : t.lookup k = none ↔ ∀ r ∈ t.rows, key r.2 ≠ k := by
  simp [lookup, List.find?_eq_none]

theorem lookup_of_mem {t : Table key} {r : Nat × ρ} (h : r ∈ t.rows) : t.lookup (key r.2) = some r.2 :=
  lookup_eq_some.2 ⟨⟨r.1, h⟩, rfl⟩

/-- Two tables are read alike when they hold the same rows, whatever their ids. -/
theorem lookup_congr {t t' : Table key} {k : κ}
    (h : ∀ x, key x = k → ((∃ i, (i, x) ∈ t.rows) ↔ ∃ i, (i, x) ∈ t'.rows)) : t.lookup k = t'.lookup k := by
  ext x
  rw [lookup_eq_some, lookup_eq_some]
  exact ⟨fun ⟨h1, h2⟩ => ⟨(h x h2).1 h1, h2⟩, fun ⟨h1, h2⟩ => ⟨(h x h2).2 h1, h2⟩⟩

@[simp] theorem lookup_empty (k : κ) : (empty : Table key).lookup k = none := rfl

@[simp] theorem lookup_skip (t : Table key) (k : κ) : t.skip.lookup k = t.lookup k := rfl

theorem lookup_append (t : Table key) (x : ρ) (h) (k : κ) :
    (t.append x h).lookup k = if k = key x then some x else t.lookup k := by
  split
  · rename_i hk
    subst hk
    exact lookup_eq_some.2 ⟨⟨t.seq + 1, by simp [append]⟩, rfl⟩
  · rename_i hk
    apply lookup_congr
    intro y hy
    have hne : y ≠ x := fun h => hk (by rw [← hy, h])
    simp [append, hne]

theorem lookup_deleteWhere (t : Table key) (p : ρ → Bool) (k : κ) :
    (t.deleteWhere p).lookup k = (t.lookup k).filter fun x => !p x := by
  ext x
  rw [lookup_eq_some, Option.filter_eq_some_iff, lookup_eq_some]
  simp only [deleteWhere, List.mem_filter]
  tauto

/-- Deleting one key. -/
theorem lookup_deleteKey (t : Table key) (k k' : κ) :
    (t.deleteWhere fun x => key x = k').lookup k = if k = k' then none else t.lookup k := by
  rw [lookup_deleteWhere]
  cases h : t.lookup k with
  | none => simp
  | some x =>
    have hk := lookup_key h
    subst hk
    by_cases hx : key x = k' <;> simp [Option.filter, hx]

/-- Deleting a key that no row has. -/
theorem deleteKey_absent {t : Table key} {k : κ} (h : t.lookup k = none) :
    (t.deleteWhere fun x => key x = k) = t := by
  have hrows : (t.deleteWhere fun x => key x = k).rows = t.rows := by
    refine List.filter_eq_self.2 ?_
    intro r hr
    simpa using lookup_eq_none.1 h r hr
  cases t
  simp only [deleteWhere] at hrows ⊢
  simp only [hrows]

theorem lookup_insertOrReplace (t : Table key) (x : ρ) (k : κ) :
    (t.insertOrReplace x).lookup k = if k = key x then some x else t.lookup k := by
  rw [insertOrReplace, lookup_append, lookup_deleteKey]
  split <;> rfl

theorem fresh_iff {t : Table key} {x : ρ} : (∀ r ∈ t.rows, key r.2 ≠ key x) ↔ t.lookup (key x) = none :=
  lookup_eq_none.symm

theorem lookup_insertOrIgnore (t : Table key) (x : ρ) (k : κ) :
    (t.insertOrIgnore x).lookup k = if k = key x ∧ t.lookup k = none then some x else t.lookup k := by
  unfold insertOrIgnore
  split
  · rename_i h
    rw [lookup_append]
    by_cases hk : k = key x
    · subst hk; simp [fresh_iff.1 h]
    · simp [hk]
  · rename_i h
    rw [fresh_iff] at h
    rw [lookup_skip]
    split
    · rename_i hk; exact absurd (hk.1 ▸ hk.2) h
    · rfl

theorem insert?_eq_some {t t' : Table key} {x : ρ} {i : Nat} (h : t.insert? x = some (t', i)) :
    t.lookup (key x) = none ∧ i = t.seq + 1 ∧ ∀ k, t'.lookup k = if k = key x then some x else t.lookup k := by
  unfold insert? at h
  split at h
  · rename_i hf
    simp only [Option.some.injEq, Prod.mk.injEq] at h
    obtain ⟨rfl, rfl⟩ := h
    exact ⟨fresh_iff.1 hf, rfl, fun k => lookup_append t x hf k⟩
  · cases h

theorem insert?_rows {t t' : Table key} {x : ρ} {i : Nat} (h : t.insert? x = some (t', i)) :
    t'.rows = t.rows ++ [(i, x)] ∧ t.seq < i ∧ t'.seq = i := by
  unfold insert? at h
  split at h
  · simp only [Option.some.injEq, Prod.mk.injEq] at h
    obtain ⟨rfl, rfl⟩ := h
    exact ⟨rfl, Nat.lt_succ_self _, rfl⟩
  · cases h

/-! ## Paging by id -/

end Table

end AetherNode.Lib
