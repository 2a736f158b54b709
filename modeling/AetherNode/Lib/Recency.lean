import Mathlib.Data.List.Dedup
/-!
# Keys by their last use

What an LRU cache holds: the keys of a history of uses, each once and in the
order of their last uses, of which the last ones stay. The cache itself is not
here; a use says what becomes of the list, which is what a cache has to do.
-/
namespace AetherNode.Lib.Recency

variable {κ : Type} [DecidableEq κ]

/-- The keys of a history, each once, in the order of their last uses: `dedup` keeps the last one. -/
def byLastUse (h : List κ) : List κ := h.dedup

/-- The last `m` of them. -/
def lastUsed (m : Nat) (h : List κ) : List κ := (byLastUse h).drop ((byLastUse h).length - m)

theorem length_lastUsed (m : Nat) (h : List κ) : (lastUsed m h).length = min m (byLastUse h).length := by
  rw [lastUsed, List.length_drop]
  omega

/-- A use puts its key at the end. -/
theorem byLastUse_concat (h : List κ) (k : κ) :
    byLastUse (h ++ [k]) = (byLastUse h).filter (fun x => x ≠ k) ++ [k] := by
  unfold byLastUse
  induction h with
  | nil => simp
  | cons a h ih =>
    rw [List.cons_append, List.dedup_cons, List.dedup_cons, ih]
    by_cases ha : a ∈ h
    · rw [if_pos (List.mem_append_left _ ha), if_pos ha]
    · rw [if_neg ha]
      by_cases hak : a = k
      · subst hak
        rw [if_pos (by simp), List.filter_cons_of_neg (by simp)]
      · rw [if_neg (by simp [ha, hak]), List.filter_cons_of_pos (by simpa using hak), List.cons_append]

/-- Without one of its elements, a list of distinct ones is one shorter. -/
theorem length_filter_ne {l : List κ} (hl : l.Nodup) {k : κ} (hk : k ∈ l) :
    (l.filter fun x => x ≠ k).length + 1 = l.length := by
  have herase : l.erase k = l.filter fun x => x ≠ k := by
    rw [hl.erase_eq_filter]
    apply List.filter_congr
    intro x _
    exact Bool.eq_iff_iff.2 (by simp)
  rw [← herase, List.length_erase_add_one hk]

theorem filter_ne_of_notMem {l : List κ} {k : κ} (hk : k ∉ l) : (l.filter fun x => x ≠ k) = l := by
  apply List.filter_eq_self.2
  intro x hx
  simpa using fun h : x = k => hk (h ▸ hx)

/-- The keys that are no longer there, and those that are. -/
theorem split (m : Nat) (h : List κ) :
    ∃ gone, byLastUse h = gone ++ lastUsed m h ∧ gone.length = (byLastUse h).length - m ∧
      (gone ++ lastUsed m h).Nodup := by
  refine ⟨(byLastUse h).take ((byLastUse h).length - m), ?_, ?_, ?_⟩
  · exact (List.take_append_drop _ _).symm
  · rw [List.length_take]
    omega
  · rw [lastUsed, List.take_append_drop]
    exact List.nodup_dedup h

/-- A key that is there goes to the end. -/
theorem lastUsed_hit {m : Nat} {h : List κ} {k : κ} (hk : k ∈ lastUsed m h) :
    lastUsed m (h ++ [k]) = (lastUsed m h).filter (fun x => x ≠ k) ++ [k] := by
  obtain ⟨gone, hsplit, hgone, hnodup⟩ := split m h
  obtain ⟨-, hkept, hdisjoint⟩ := List.nodup_append.1 hnodup
  have hnew : k ∉ gone := fun hmem => hdisjoint k hmem k hk rfl
  have huses : byLastUse (h ++ [k]) = gone ++ ((lastUsed m h).filter (fun x => x ≠ k) ++ [k]) := by
    rw [byLastUse_concat, hsplit, List.filter_append, filter_ne_of_notMem hnew, List.append_assoc]
  have hlength := congrArg List.length huses
  have hshorter := length_filter_ne hkept hk
  have hsum := congrArg List.length hsplit
  simp only [List.length_append, List.length_singleton] at hlength hsum
  rw [lastUsed, huses]
  apply List.drop_left'
  rw [← huses]
  omega

/-- A new key comes to the end, and the first one goes when there is no room. -/
theorem lastUsed_miss {m : Nat} {h : List κ} {k : κ} (hk : k ∉ lastUsed m h) :
    lastUsed m (h ++ [k]) =
      if m < (lastUsed m h).length + 1 then (lastUsed m h ++ [k]).tail else lastUsed m h ++ [k] := by
  obtain ⟨gone, hsplit, hgone, hnodup⟩ := split m h
  obtain ⟨hold, -, -⟩ := List.nodup_append.1 hnodup
  have huses : byLastUse (h ++ [k]) = gone.filter (fun x => x ≠ k) ++ (lastUsed m h ++ [k]) := by
    rw [byLastUse_concat, hsplit, List.filter_append, filter_ne_of_notMem hk, List.append_assoc]
  have hlength := congrArg List.length huses
  have hsum := congrArg List.length hsplit
  simp only [List.length_append, List.length_singleton] at hlength hsum
  rw [lastUsed, huses]
  by_cases hback : k ∈ gone
  · -- The key was used long ago: the others that are gone are one fewer.
    have hshorter := length_filter_ne hold hback
    have hdrop : (gone.filter (fun x => x ≠ k) ++ (lastUsed m h ++ [k])).length - m =
        (gone.filter fun x => x ≠ k).length + 1 := by
      rw [← huses]
      omega
    rw [if_pos (by omega), hdrop, List.drop_length_add_append, List.drop_one]
  · rw [filter_ne_of_notMem hback] at huses hlength ⊢
    split_ifs with hroom
    · have hdrop : (gone ++ (lastUsed m h ++ [k])).length - m = gone.length + 1 := by
        rw [← huses]
        omega
      rw [hdrop, List.drop_length_add_append, List.drop_one]
    · apply List.drop_left'
      rw [← huses]
      omega

end AetherNode.Lib.Recency
