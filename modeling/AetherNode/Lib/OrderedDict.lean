import Mathlib.Data.List.Nodup
import Mathlib.Data.List.Pairwise
/-!
# Ordered dictionaries

Python's `OrderedDict`: items with distinct keys, in the order they were last
put at the end. The operations are those an LRU pool needs, each described by
what it does to `get?`; the order is read off `items`.
-/
namespace AetherNode.Lib

/-- Items with distinct keys, oldest first. -/
structure OrderedDict (κ ν : Type) where
  items : List (κ × ν)
  nodup : (items.map Prod.fst).Nodup

namespace OrderedDict

variable {κ ν : Type}

def empty : OrderedDict κ ν := ⟨[], .nil⟩

/-- `len(d)`. -/
def length (d : OrderedDict κ ν) : Nat := d.items.length

/-- `list(d)`. -/
def keys (d : OrderedDict κ ν) : List κ := d.items.map Prod.fst

theorem length_keys (d : OrderedDict κ ν) : d.keys.length = d.length := List.length_map _

/-- `d.popitem(last=False)`, the item dropped. -/
def popFirst (d : OrderedDict κ ν) : OrderedDict κ ν :=
  ⟨d.items.tail, by rw [List.map_tail]; exact (List.tail_sublist _).nodup d.nodup⟩

variable [DecidableEq κ]

/-- `d.get(k)`. -/
def get? (d : OrderedDict κ ν) (k : κ) : Option ν := (d.items.find? fun x => x.1 = k).map (·.2)

/-- The item goes to the end: `d[k] = v` for a new key, or followed by `move_to_end(k)`. -/
def putLast (d : OrderedDict κ ν) (k : κ) (v : ν) : OrderedDict κ ν where
  items := (d.items.filter fun x => x.1 ≠ k) ++ [(k, v)]
  nodup := by
    rw [List.map_append]
    refine List.nodup_append.2 ⟨(List.filter_sublist.map _).nodup d.nodup, by simp, ?_⟩
    intro a ha b hb
    obtain ⟨x, hx, rfl⟩ := List.mem_map.1 ha
    obtain rfl : b = k := by simpa using hb
    simpa using (List.mem_filter.1 hx).2

/-- The value at `k` is changed in place, if there is one. -/
def modify (d : OrderedDict κ ν) (k : κ) (f : ν → ν) : OrderedDict κ ν where
  items := d.items.map fun x => (x.1, if x.1 = k then f x.2 else x.2)
  nodup := by
    rw [List.map_map]
    exact d.nodup

/-- The item is dropped, if there is one. -/
def erase (d : OrderedDict κ ν) (k : κ) : OrderedDict κ ν where
  items := d.items.filter fun x => x.1 ≠ k
  nodup := (List.filter_sublist.map _).nodup d.nodup

theorem get?_eq_some {d : OrderedDict κ ν} {k : κ} {v : ν} : d.get? k = some v ↔ (k, v) ∈ d.items := by
  unfold get?
  constructor
  · intro h
    obtain ⟨x, hx, rfl⟩ := Option.map_eq_some_iff.1 h
    obtain rfl : x.1 = k := by simpa using List.find?_some hx
    exact List.mem_of_find?_eq_some hx
  · intro h
    cases hf : d.items.find? (fun x => x.1 = k) with
    | none =>
      have := List.find?_eq_none.1 hf (k, v) h
      simp at this
    | some x =>
      have hk : x.1 = k := by simpa using List.find?_some hf
      rw [List.inj_on_of_nodup_map d.nodup (List.mem_of_find?_eq_some hf) h hk]
      rfl

theorem get?_eq_none {d : OrderedDict κ ν} {k : κ} : d.get? k = none ↔ ∀ x ∈ d.items, x.1 ≠ k := by
  simp [get?, List.find?_eq_none]

/-- A new key and the keys. -/
theorem nodup_cons {d : OrderedDict κ ν} {k : κ} (h : d.get? k = none) : (k :: d.items.map Prod.fst).Nodup := by
  refine List.nodup_cons.2 ⟨?_, d.nodup⟩
  intro hmem
  obtain ⟨x, hx, heq⟩ := List.mem_map.1 hmem
  exact get?_eq_none.1 h x hx heq

theorem get?_putLast (d : OrderedDict κ ν) (k : κ) (v : ν) (j : κ) :
    (d.putLast k v).get? j = if j = k then some v else d.get? j := by
  split
  · rename_i h
    subst h
    exact get?_eq_some.2 (List.mem_append_right _ (List.mem_singleton.2 rfl))
  · rename_i h
    ext w
    simp [get?_eq_some, putLast, h]

theorem get?_popFirst {d : OrderedDict κ ν} {x : κ × ν} {rest : List (κ × ν)} (h : d.items = x :: rest) (j : κ) :
    d.popFirst.get? j = if j = x.1 then none else d.get? j := by
  have hrest : d.popFirst.items = rest := by simp [popFirst, h]
  have hnodup := d.nodup
  rw [h, List.map_cons, List.nodup_cons] at hnodup
  split
  · rename_i hj
    subst hj
    rw [get?_eq_none]
    rintro y hy hyx
    rw [hrest] at hy
    exact hnodup.1 (hyx ▸ List.mem_map_of_mem hy)
  · rename_i hj
    ext w
    rw [get?_eq_some, get?_eq_some, hrest, h, List.mem_cons]
    constructor
    · exact .inr
    · rintro (rfl | hw)
      · exact absurd rfl hj
      · exact hw

/-- Changing in place what was just put at the end. -/
theorem modify_putLast (d : OrderedDict κ ν) (k : κ) (v : ν) (f : ν → ν) :
    (d.putLast k v).modify k f = d.putLast k (f v) := by
  unfold modify putLast
  congr 1
  rw [List.map_append, List.map_singleton, if_pos rfl]
  congr 1
  conv_rhs => rw [← List.map_id (d.items.filter fun x => x.1 ≠ k)]
  apply List.map_congr_left
  intro x hx
  have : x.1 ≠ k := by simpa using (List.mem_filter.1 hx).2
  rw [if_neg this]
  rfl

theorem modify_popFirst (d : OrderedDict κ ν) (k : κ) (f : ν → ν) : d.popFirst.modify k f = (d.modify k f).popFirst := by
  unfold modify popFirst
  congr 1
  exact List.map_tail

/-- A new key comes after every item. -/
theorem items_putLast_new {d : OrderedDict κ ν} {k : κ} (h : d.get? k = none) (v : ν) :
    (d.putLast k v).items = d.items ++ [(k, v)] := by
  have hall : (d.items.filter fun x => x.1 ≠ k) = d.items := by
    apply List.filter_eq_self.2
    intro x hx
    simpa using get?_eq_none.1 h x hx
  simp only [putLast, hall]

theorem length_putLast_new {d : OrderedDict κ ν} {k : κ} (h : d.get? k = none) (v : ν) :
    (d.putLast k v).length = d.length + 1 := by
  rw [length, items_putLast_new h, List.length_append, length]
  rfl

/-- An order of the items survives a put that comes after every item. -/
theorem pairwise_putLast {d : OrderedDict κ ν} {R : κ × ν → κ × ν → Prop} (h : d.items.Pairwise R) {k : κ} {v : ν}
    (hlast : ∀ x ∈ d.items, R x (k, v)) : (d.putLast k v).items.Pairwise R := by
  apply List.pairwise_append.2 ⟨h.filter _, List.pairwise_singleton _ _, ?_⟩
  intro x hx y hy
  rw [List.mem_singleton.1 hy]
  exact hlast x (List.mem_filter.1 hx).1

theorem length_modify (d : OrderedDict κ ν) (k : κ) (f : ν → ν) : (d.modify k f).length = d.length := List.length_map _

theorem get?_modify (d : OrderedDict κ ν) (k : κ) (f : ν → ν) (j : κ) :
    (d.modify k f).get? j = if j = k then (d.get? k).map f else d.get? j := by
  have hmap : ∀ l : List (κ × ν), ((l.map fun x => (x.1, if x.1 = k then f x.2 else x.2)).find? fun x => x.1 = j).map (·.2) =
      if j = k then ((l.find? fun x => x.1 = k).map (·.2)).map f else (l.find? fun x => x.1 = j).map (·.2) := by
    intro l
    induction l with
    | nil => simp
    | cons x l ih =>
      rw [List.map_cons, List.find?_cons]
      by_cases hx : x.1 = j
      · by_cases hj : j = k <;> simp [hx, hj]
      · simp only [hx, decide_false, ih, List.find?_cons]
        split <;> rename_i hj
        · simp [hj ▸ hx]
        · rfl
  exact hmap d.items

theorem get?_erase (d : OrderedDict κ ν) (k j : κ) : (d.erase k).get? j = if j = k then none else d.get? j := by
  split <;> rename_i hj
  · exact get?_eq_none.2 fun x hx => by simpa [hj] using (List.mem_filter.1 hx).2
  · unfold get? erase
    rw [List.find?_filter]
    congr 2
    funext x
    by_cases hx : x.1 = j <;> simp [hx, hj]

/-! ## The keys in order -/

omit [DecidableEq κ] in
theorem keys_popFirst (d : OrderedDict κ ν) : d.popFirst.keys = d.keys.tail := List.map_tail

theorem keys_putLast (d : OrderedDict κ ν) (k : κ) (v : ν) : (d.putLast k v).keys = d.keys.filter (fun x => x ≠ k) ++ [k] := by
  rw [keys, putLast, List.map_append, List.map_singleton, keys, List.filter_map]
  rfl

theorem mem_keys {d : OrderedDict κ ν} {k : κ} : k ∈ d.keys ↔ ∃ v, d.get? k = some v := by
  simp only [keys, List.mem_map, get?_eq_some]
  constructor
  · rintro ⟨x, hx, rfl⟩
    exact ⟨x.2, hx⟩
  · rintro ⟨v, hv⟩
    exact ⟨(k, v), hv, rfl⟩

theorem keys_erase (d : OrderedDict κ ν) (k : κ) : (d.erase k).keys = d.keys.erase k := by
  have hnodup : d.keys.Nodup := d.nodup
  rw [hnodup.erase_eq_filter, keys, keys, erase, List.filter_map]
  congr 1
  exact List.filter_congr fun x _ => by by_cases hx : x.1 = k <;> simp [hx]

/-- An item less. -/
theorem length_erase {d : OrderedDict κ ν} {k : κ} {v : ν} (h : d.get? k = some v) : (d.erase k).length + 1 = d.length := by
  rw [← length_keys, ← length_keys, keys_erase]
  exact List.length_erase_add_one (mem_keys.2 ⟨v, h⟩)

end OrderedDict

end AetherNode.Lib
