import AetherNode.RateLimit
import AetherNode.Lib.Recency
/-!
# The pool of buckets as a cache

`_get_or_create_bucket_locked` keeps the buckets of the identities used last.
Whatever the accesses and whatever their callers do with the buckets, the keys
of the pool are the last ones of the history in the order of their last uses,
and a bucket that stays changes by the accesses of its own identity only.
-/
open AetherNode.Lib AetherNode.Lib.Recency

namespace AetherNode.RateLimit

/-- An access to the bucket of an identity, and what its caller does with the bucket. -/
structure Access where
  now : ℚ
  identity : Str
  use : TokenBucket → TokenBucket

namespace RateLimiter

/-- `_get_or_create_bucket_locked`, and the bucket changed in place by its caller. -/
def access (r : RateLimiter) (a : Access) : RateLimiter :=
  let (bucket, buckets) := r.getOrCreateBucketLocked a.now a.identity
  { r with buckets := buckets.modify a.identity fun _ => a.use bucket }

/-- The limiter after a sequence of accesses. -/
def accesses (r : RateLimiter) (h : List Access) : RateLimiter := h.foldl access r

/-- What an access does: the bucket goes to the end, and the oldest one is pushed out for a new one of a full pool. -/
theorem access_cases (r : RateLimiter) (a : Access) :
    (¬ r.Evicts a.identity ∧
        r.access a = { r with buckets := r.buckets.putLast a.identity (a.use (r.bucketAt a.now a.identity)) }) ∨
      (r.Evicts a.identity ∧ r.access a =
        { r with buckets := (r.buckets.putLast a.identity (a.use (r.bucketAt a.now a.identity))).popFirst }) := by
  rw [← getOrCreateBucketLocked_fst]
  rcases r.getOrCreateBucketLocked_modify a.now a.identity (a.use (r.getOrCreateBucketLocked a.now a.identity).1) with
    ⟨hroom, heq⟩ | ⟨hfull, heq⟩
  · exact .inl ⟨hroom, by rw [← heq]; rfl⟩
  · exact .inr ⟨hfull, by rw [← heq]; rfl⟩

variable {r : RateLimiter}

theorem accesses_concat (r : RateLimiter) (h : List Access) (a : Access) :
    r.accesses (h ++ [a]) = (r.accesses h).access a := List.foldl_concat ..

theorem accesses_append (r : RateLimiter) (h h' : List Access) :
    r.accesses (h ++ h') = (r.accesses h).accesses h' := List.foldl_append

/-- Accesses change the pool only. -/
theorem accesses_eq (r : RateLimiter) (h : List Access) : r.accesses h = { r with buckets := (r.accesses h).buckets } := by
  induction h using List.reverseRecOn with
  | nil => rfl
  | append_singleton h a ih =>
    rw [accesses_concat, ih]
    rfl

/-! ## The keys of the pool -/

/-- One access does to the keys what a use does to those used last. -/
theorem access_keys {m : Nat} {used : List Str} (hm : r.maxIdentities = m) (hkeys : r.buckets.keys = lastUsed m used)
    (a : Access) : (r.access a).buckets.keys = lastUsed m (used ++ [a.identity]) := by
  have hlength : r.buckets.length = (lastUsed m used).length := by rw [← hkeys, OrderedDict.length_keys]
  by_cases hin : a.identity ∈ lastUsed m used
  · obtain ⟨b, hget⟩ := OrderedDict.mem_keys.1 (hkeys ▸ hin)
    rcases r.access_cases a with ⟨-, heq⟩ | ⟨⟨hnew, -⟩, -⟩
    · rw [heq, OrderedDict.keys_putLast, hkeys, lastUsed_hit hin]
    · rw [hget] at hnew
      cases hnew
  · have hnew : r.buckets.get? a.identity = none := by
      rw [Option.eq_none_iff_forall_not_mem]
      intro b hb
      exact hin (hkeys ▸ OrderedDict.mem_keys.2 ⟨b, hb⟩)
    have hput : ∀ b, (r.buckets.putLast a.identity b).keys = lastUsed m used ++ [a.identity] := by
      intro b
      rw [OrderedDict.keys_putLast, hkeys, filter_ne_of_notMem hin]
    rw [lastUsed_miss hin]
    rcases r.access_cases a with ⟨hroom, heq⟩ | ⟨⟨-, hfull⟩, heq⟩ <;> rw [heq]
    · rw [hput, if_neg]
      intro hfull
      apply hroom
      exact ⟨hnew, by rw [hm, hlength]; exact_mod_cast hfull⟩
    · rw [hm, hlength] at hfull
      rw [OrderedDict.keys_popFirst, hput, if_pos (by exact_mod_cast hfull)]

/-- The pool of a limiter that starts without buckets holds the identities used last. -/
theorem accesses_keys {m : Nat} (hm : r.maxIdentities = m) (hempty : r.buckets = .empty) (h : List Access) :
    (r.accesses h).buckets.keys = lastUsed m (h.map Access.identity) := by
  induction h using List.reverseRecOn with
  | nil =>
    rw [accesses, List.foldl_nil, hempty]
    simp [lastUsed, byLastUse, OrderedDict.keys, OrderedDict.empty]
  | append_singleton h a ih =>
    rw [accesses_concat, List.map_append, List.map_singleton]
    apply access_keys _ ih
    rw [accesses_eq, hm]

/-! ## A bucket that stays -/

/-- An access leaves a bucket that stays as it was, unless it is its own. -/
theorem access_get? {i : Str} {a : Access} (hin : i ∈ r.buckets.keys) (hstays : i ∈ (r.access a).buckets.keys) :
    (r.access a).buckets.get? i = (r.buckets.get? i).map fun b => if a.identity = i then a.use b else b := by
  obtain ⟨b, hb⟩ := OrderedDict.mem_keys.1 hin
  have hput : (r.buckets.putLast a.identity (a.use (r.bucketAt a.now a.identity))).get? i =
      (r.buckets.get? i).map fun b => if a.identity = i then a.use b else b := by
    rw [OrderedDict.get?_putLast]
    by_cases hown : i = a.identity
    · rw [if_pos hown, hb, bucketAt, ← hown, hb]
      simp
    · rw [if_neg hown, hb]
      simp [Ne.symm hown]
  rcases r.access_cases a with ⟨-, heq⟩ | ⟨-, heq⟩
  · rw [heq, hput]
  · obtain ⟨b', hb'⟩ := OrderedDict.mem_keys.1 hstays
    rw [heq] at hb' ⊢
    dsimp only at hb' ⊢
    cases hitems : (r.buckets.putLast a.identity (a.use (r.bucketAt a.now a.identity))).items with
    | nil => simp [OrderedDict.putLast] at hitems
    | cons x rest =>
      rw [OrderedDict.get?_popFirst hitems] at hb' ⊢
      split at hb'
      · cases hb'
      · rename_i hfirst
        rw [if_neg hfirst, hput]

/-- What the accesses of an identity make of its bucket. -/
def ownUses (i : Str) (h : List Access) (b : TokenBucket) : TokenBucket :=
  (h.filter fun a => a.identity = i).foldl (fun b a => a.use b) b

/-- While it stays in the pool, a bucket changes by the accesses of its own identity. -/
theorem accesses_get? {i : Str} {h : List Access} (hstays : ∀ pre, pre <+: h → i ∈ (r.accesses pre).buckets.keys) :
    (r.accesses h).buckets.get? i = (r.buckets.get? i).map (ownUses i h) := by
  induction h using List.reverseRecOn with
  | nil =>
    have hnone : ownUses i [] = id := rfl
    rw [hnone, Option.map_id]
    rfl
  | append_singleton h a ih =>
    have hbefore := ih fun pre hpre => hstays pre (hpre.trans (List.prefix_append _ _))
    have hin := hstays h (List.prefix_append _ _)
    have hafter := hstays (h ++ [a]) (List.prefix_refl _)
    rw [accesses_concat] at hafter ⊢
    rw [access_get? hin hafter, hbefore, Option.map_map]
    congr 1
    funext b
    simp only [Function.comp_apply, ownUses, List.filter_append, List.foldl_append]
    by_cases hown : a.identity = i <;> simp [hown]

end RateLimiter

/-! ## The cache -/

/-- The pool of a limiter that starts without buckets is an LRU cache. After any accesses its keys are the last
`maxIdentities` identities in the order of their last accesses, each once; there are no more of them than that; an
access gets the bucket of its identity, or a new one; and a bucket that stays changes by the accesses of its own
identity only. -/
theorem pool_lru (global : TokenBucket) (capacity rate : ℚ) (maxIdentities : Nat) (h : List Access) :
    let r : RateLimiter := ⟨global, capacity, rate, maxIdentities, .empty⟩
    (r.accesses h).buckets.keys = lastUsed maxIdentities (h.map Access.identity) ∧
      (r.accesses h).buckets.keys.Nodup ∧
      (r.accesses h).buckets.length = min maxIdentities (byLastUse (h.map Access.identity)).length ∧
      (∀ now i, ((r.accesses h).getOrCreateBucketLocked now i).1 =
        ((r.accesses h).buckets.get? i).getD (.new capacity rate now)) ∧
      ∀ i h', (∀ pre, pre <+: h' → i ∈ (r.accesses (h ++ pre)).buckets.keys) →
        (r.accesses (h ++ h')).buckets.get? i =
          ((r.accesses h).buckets.get? i).map (RateLimiter.ownUses i h') := by
  intro r
  have hkeys : (r.accesses h).buckets.keys = lastUsed maxIdentities (h.map Access.identity) :=
    RateLimiter.accesses_keys rfl rfl h
  refine ⟨hkeys, (r.accesses h).buckets.nodup, ?_, ?_, ?_⟩
  · rw [← OrderedDict.length_keys, hkeys, length_lastUsed]
  · intro now i
    rw [RateLimiter.getOrCreateBucketLocked_fst, RateLimiter.bucketAt, RateLimiter.accesses_eq]
  · intro i h' hstays
    simp only [RateLimiter.accesses_append] at hstays ⊢
    exact RateLimiter.accesses_get? hstays

/-! ## The pool of a running limiter -/

/-- The access that a call makes, if it reaches the pool. -/
def accessOf (x : Event × Answer) : Option Access :=
  match x.1.call, x.2 with
  | .checkIdentity identity, _ => some ⟨x.1.now, identity, fun b => (b.tryTake x.1.now).1⟩
  | .allow identity, .allow a => if a = .globalRefused then none else some ⟨x.1.now, identity, fun b => (b.tryTake x.1.now).1⟩
  | _, _ => none

/-- The pool does not look at the global bucket. -/
theorem accesses_global (r : RateLimiter) (g : TokenBucket) (h : List Access) :
    RateLimiter.accesses { r with global := g } h = { r.accesses h with global := g } := by
  induction h using List.reverseRecOn with
  | nil => rfl
  | append_singleton h a ih =>
    rw [RateLimiter.accesses_concat, ih, RateLimiter.accesses_concat]
    rfl

/-- A call does to the pool what its access does. -/
theorem answer_pool (r : RateLimiter) (now : ℚ) (c : Call) :
    ∃ g, (r.answer now c).1 = { r.accesses (accessOf (⟨now, c⟩, (r.answer now c).2)).toList with global := g } := by
  cases c with
  | checkGlobal => exact ⟨_, rfl⟩
  | checkIdentity identity => exact ⟨_, rfl⟩
  | refundGlobal => exact ⟨_, rfl⟩
  | allow identity =>
    have hanswer : r.answer now (.allow identity) = ((r.allow now identity).1, .allow (r.allow now identity).2) := rfl
    rw [hanswer]
    rcases r.allow_cases now identity with ⟨-, heq⟩ | ⟨-, ⟨-, heq⟩ | ⟨-, heq⟩⟩ <;> rw [heq] <;> exact ⟨_, rfl⟩

/-- The pool of a limiter, whatever is called: what the accesses of the calls make of it. -/
theorem run_pool {l : Limits} {t₀ : ℚ} {h : List (Event × Answer)} {s : Clocked} (hr : LimiterRun l t₀ h s) :
    ∃ g, s.limiter = { (RateLimiter.new l t₀).accesses (h.filterMap accessOf) with global := g } := by
  induction hr with
  | nil => exact ⟨_, rfl⟩
  | @snoc h s e o s' _ _ hs ih =>
    obtain ⟨-, rfl, rfl⟩ := step_eq hs
    obtain ⟨g, hbefore⟩ := ih
    obtain ⟨g', hafter⟩ := answer_pool s.limiter e.now e.call
    have hlast : [(e, (s.limiter.answer e.now e.call).2)].filterMap accessOf =
        (accessOf (e, (s.limiter.answer e.now e.call).2)).toList := by
      cases hx : accessOf (e, (s.limiter.answer e.now e.call).2) <;> simp [List.filterMap, hx]
    refine ⟨g', ?_⟩
    rw [hafter, List.filterMap_append, RateLimiter.accesses_append, hlast, hbefore, accesses_global]

/-- At any moment of a run the limiter has the buckets of the identities that reached their own bucket last. -/
theorem run_keys {l : Limits} {t₀ : ℚ} {m : Nat} (hm : l.maxIdentities = m) {h : List (Event × Answer)} {s : Clocked}
    (hr : LimiterRun l t₀ h s) :
    s.limiter.buckets.keys = lastUsed m ((h.filterMap accessOf).map Access.identity) := by
  obtain ⟨g, heq⟩ := run_pool hr
  rw [heq]
  exact RateLimiter.accesses_keys hm rfl _

end AetherNode.RateLimit
