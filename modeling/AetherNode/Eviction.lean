import AetherNode.RateLimit
/-!
# Eviction from the pool of buckets

A pool that is full makes room by dropping the bucket that was used longest
ago. With limits as `main` builds them and room for three times the global
capacity, that bucket has been idle for a minute: every bucket of the pool has
been admitted within a minute before its last use, and two minutes of the
global bucket do not admit that many identities. After a minute the bucket is
full, so dropping it loses nothing.
-/
open AetherNode.Lib

namespace AetherNode.RateLimit

/-- Only `allow` is called. -/
def AllowOnly (_ : Clocked) (e : Event) : Prop := ∃ identity, e.call = .allow identity

def Call.isAllow : Call → Bool
  | .allow _ => true
  | _ => false

theorem allowOnly_of_isAllow {s : Clocked} {e : Event} (h : e.call.isAllow = true) : AllowOnly s e := by
  unfold Call.isAllow at h
  split at h
  · rename_i identity hcall
    exact ⟨identity, hcall⟩
  · cases h

/-- Histories of `allow` calls of a limiter created at `t₀`. -/
abbrev AllowRun (l : Limits) (t₀ : ℚ) : List (Event × Answer) → Clocked → Prop :=
  Run step AllowOnly ⟨t₀, .new l t₀⟩

/-- The call reached the bucket of the identity. -/
def Accesses (identity : Str) (x : Event × Answer) : Prop :=
  x.1.call = .allow identity ∧ x.2 ≠ .allow .globalRefused

/-- The calls of `allow(identity)` that return true. -/
def admissionsOf (identity : Str) (h : List (Event × Answer)) : Nat :=
  h.countP fun x => x.1.call = .allow identity ∧ x.2 = .allow .admitted

theorem allowRun_calls {l : Limits} {t₀ : ℚ} {h : List (Event × Answer)} {s : Clocked} (hr : AllowRun l t₀ h s) :
    ∀ x ∈ h, ∃ identity a, x.1.call = .allow identity ∧ x.2 = .allow a := by
  induction hr with
  | nil => simp
  | @snoc h s e o s' _ ho hs ih =>
    obtain ⟨identity, hcall⟩ := ho
    obtain ⟨-, -, rfl⟩ := step_eq hs
    intro x hx
    rcases List.mem_append.1 hx with hx | hx
    · exact ih x hx
    · rw [List.mem_singleton.1 hx, hcall]
      exact ⟨identity, (s.limiter.allow e.now identity).2, rfl, rfl⟩

/-- What `allow` does to the pool: nothing, or what a check of the identity does. -/
theorem allow_pool (r : RateLimiter) (now : ℚ) (identity : Str) :
    ((r.allow now identity).2 = .globalRefused ∧ (r.allow now identity).1.buckets = r.buckets) ∨
      ((r.allow now identity).2 = (if ((r.bucketAt now identity).tryTake now).2 then .admitted else .identityRefused) ∧
        ((¬ r.Evicts identity ∧ (r.allow now identity).1.buckets =
            r.buckets.putLast identity ((r.bucketAt now identity).tryTake now).1) ∨
          (r.Evicts identity ∧ (r.allow now identity).1.buckets =
            (r.buckets.putLast identity ((r.bucketAt now identity).tryTake now).1).popFirst))) := by
  obtain ⟨htake, hpool⟩ := (r.checkGlobal now).1.checkIdentity_cases now identity
  have hbuckets : (r.checkGlobal now).1.bucketAt now identity = r.bucketAt now identity := rfl
  have hevicts : (r.checkGlobal now).1.Evicts identity ↔ r.Evicts identity := Iff.rfl
  rw [hbuckets] at htake hpool
  rw [hevicts] at hpool
  rcases r.allow_cases now identity with ⟨-, heq⟩ | ⟨-, ⟨hok, heq⟩ | ⟨hok, heq⟩⟩ <;> rw [heq]
  · exact .inl ⟨rfl, rfl⟩
  · rw [hok] at htake
    refine .inr ⟨by rw [← htake]; rfl, ?_⟩
    rcases hpool with ⟨hkeep, hpool⟩ | ⟨hevict, hpool⟩
    · exact .inl ⟨hkeep, by rw [hpool]; rfl⟩
    · exact .inr ⟨hevict, by rw [hpool]; rfl⟩
  · rw [hok] at htake
    refine .inr ⟨by rw [← htake]; rfl, ?_⟩
    rcases hpool with ⟨hkeep, hpool⟩ | ⟨hevict, hpool⟩
    · exact .inl ⟨hkeep, by rw [RateLimiter.refundGlobal, hpool]; rfl⟩
    · exact .inr ⟨hevict, by rw [RateLimiter.refundGlobal, hpool]; rfl⟩

/-! ## When a bucket was last used -/

/-- A bucket of the pool: its last call that was admitted lies within a minute before its last use, and it holds what
has flowed in since. -/
def Recent (l : Limits) (h : List (Event × Answer)) (x : Str × TokenBucket) : Prop :=
  ∃ u, (⟨u, .allow x.1⟩, .allow .admitted) ∈ h ∧ u ≤ x.2.lastRefill ∧ x.2.lastRefill < u + 60 ∧
    Bucket.level l.perIdentityCapacity l.perIdentityRefillPerSecond 0 (x.2.lastRefill - u) ≤ x.2.tokens

/-- What holds of the pool after a history of calls. -/
structure PoolInv (l : Limits) (h : List (Event × Answer)) (s : Clocked) : Prop where
  sound : s.limiter.Sound l s.clock
  times : ∀ x ∈ h, x.1.now ≤ s.clock
  ordered : s.limiter.buckets.items.Pairwise fun x y => x.2.lastRefill ≤ y.2.lastRefill
  accessed : ∀ x ∈ s.limiter.buckets.items, ∀ y ∈ h, Accesses x.1 y → y.1.now ≤ x.2.lastRefill
  recent : ∀ x ∈ s.limiter.buckets.items, Recent l h x

section
variable {l : Limits} {h h' : List (Event × Answer)} {s : Clocked} {now : ℚ} {identity : Str}

theorem Recent.mono {x : Str × TokenBucket} (hx : Recent l h x) (hsub : ∀ y ∈ h, y ∈ h') : Recent l h' x := by
  obtain ⟨u, hu, hrest⟩ := hx
  exact ⟨u, hsub _ hu, hrest⟩

theorem tryTake_lastRefill (b : TokenBucket) (t : ℚ) : (b.tryTake t).1.lastRefill = t := by
  rcases b.tryTake_cases t with ⟨-, heq⟩ | ⟨-, heq⟩ <;> rw [heq]

end

/-- A minute fills a bucket. -/
theorem level_minute {P tokens elapsed : ℚ} (ht : 0 ≤ tokens) (he : 60 ≤ elapsed) (hP : 0 ≤ P) :
    Bucket.level P (perMinute P) tokens elapsed = P := by
  apply Bucket.level_full ht
  unfold perMinute
  have := mul_le_mul_of_nonneg_right he (div_nonneg hP (show (0 : ℚ) ≤ 60 by norm_num))
  linarith

theorem level_new {P rate now : ℚ} : (TokenBucket.new P rate now).level now = P := by
  rw [TokenBucket.level, TokenBucket.new, sub_self]
  exact Bucket.level_zero le_rfl

/-! ## Limits as `main` builds them -/

section
variable {G P : ℚ} {maxIdentities : Int} {hG : 0 ≤ G} {hP : 0 ≤ P} {h : List (Event × Answer)} {s : Clocked} {now : ℚ}
  {identity : Str}

/-- The bucket a call has used has been admitted within a minute: a bucket that refuses is not full. -/
theorem access_recent (hone : 1 ≤ P) (hs : s.limiter.Sound (.perMinute G P maxIdentities hG hP) s.clock)
    (hrecent : ∀ x ∈ s.limiter.buckets.items, Recent (.perMinute G P maxIdentities hG hP) h x) (ht : s.clock ≤ now) :
    Recent (.perMinute G P maxIdentities hG hP)
      (h ++ [(⟨now, .allow identity⟩,
        .allow (if ((s.limiter.bucketAt now identity).tryTake now).2 then .admitted else .identityRefused))])
      (identity, ((s.limiter.bucketAt now identity).tryTake now).1) := by
  have hwithin : (s.limiter.bucketAt now identity).Within P (perMinute P) now := hs.bucketAt_within ht
  rcases (s.limiter.bucketAt now identity).tryTake_cases now with ⟨hlevel, heq⟩ | ⟨hlevel, heq⟩ <;> rw [heq]
  · refine ⟨now, List.mem_append_right _ (List.mem_singleton.2 rfl), le_rfl, by linarith, ?_⟩
    have hzero : Bucket.level P (perMinute P) 0 (now - now) ≤ 0 := by
      rw [sub_self, Bucket.level_zero hP]
    exact hzero.trans (sub_nonneg.2 hlevel)
  · -- A bucket with less than one token is not new, so it was admitted before.
    unfold RateLimiter.bucketAt at hlevel hwithin ⊢
    cases hget : s.limiter.buckets.get? identity with
    | none =>
      rw [hget, Option.getD_none, hs.perIdentityCapacity_eq, level_new] at hlevel
      exact absurd hlevel (not_lt.2 hone)
    | some b =>
      rw [hget] at hlevel hwithin
      rw [Option.getD_some] at hlevel hwithin ⊢
      have hmem := OrderedDict.get?_eq_some.1 hget
      obtain ⟨u, hu, hlast, -, hflow⟩ := hrecent _ hmem
      have hpast : b.lastRefill ≤ now := (hs.identity _ hmem).past.trans ht
      have hread : Bucket.level P (perMinute P) 0 (now - u) ≤ b.level now := by
        rw [TokenBucket.level, hwithin.capacity_eq, hwithin.rate_eq,
          show now - u = (b.lastRefill - u) + (now - b.lastRefill) by ring,
          ← Bucket.level_level (perMinute_nonneg hP) (sub_nonneg.2 hpast)]
        exact Bucket.level_mono hflow
      refine ⟨u, List.mem_append_left _ hu, hlast.trans hpast, ?_, hread⟩
      by_contra hlong
      rw [level_minute le_rfl (by linarith) hP] at hread
      linarith

/-- Every answer of `allow` that admits takes a token it does not give back. -/
theorem allowOnly_admitted (hcalls : ∀ x ∈ h, ∃ identity a, x.1.call = .allow identity ∧ x.2 = .allow a) :
    (h.countP fun x => x.2 = .allow .admitted) + refunds h ≤ takes h := by
  have hnone : ∀ o, (∀ a, o ≠ Answer.allow a) → h.countP (fun x => x.2 = o) = 0 := by
    intro o ho
    apply List.countP_eq_zero.2
    intro x hx
    obtain ⟨-, a, -, ha⟩ := hcalls x hx
    rw [ha]
    simpa using fun heq => ho a heq.symm
  have haccounted : Accounted h := by
    unfold Accounted
    rw [hnone _ (by simp), hnone _ (by simp)]
    exact Nat.zero_le _
  refine le_trans (Nat.add_le_add_right ?_ _) (accounted_admitted haccounted)
  apply List.countP_mono_left
  intro x _ hx
  simp only [decide_eq_true_eq] at hx
  rw [hx]
  rfl

/-- A list of different identities, each admitted in a window, is no longer than the global bucket allows. -/
theorem identities_le {t₀ : ℚ} (hr : AllowRun (.perMinute G P maxIdentities hG hP) t₀ h s) {ids : List Str}
    (hnodup : ids.Nodup) (a : ℚ) {d : ℚ} (hd : 0 ≤ d)
    (hids : ∀ i ∈ ids, ∃ u, (⟨u, .allow i⟩, .allow .admitted) ∈ h ∧ a ≤ u ∧ u ≤ a + d) :
    (ids.length : ℚ) ≤ G + d * perMinute G := by
  have hwindow := window_le (RateLimiter.new_sound _ t₀) hr a hd
  have hcalls := allowRun_calls hr
  have hcount := allowOnly_admitted (h := Bucket.window Event.now a (a + d) h)
    fun x hx => hcalls x (List.mem_filter.1 hx).1
  -- Different identities are admitted by different calls.
  have hlength : ids.length ≤ (Bucket.window Event.now a (a + d) h).countP fun x => x.2 = .allow .admitted := by
    have hsub : ids.map Call.allow ⊆
        ((Bucket.window Event.now a (a + d) h).filter fun x => x.2 = .allow .admitted).map fun x => x.1.call := by
      intro c hc
      obtain ⟨i, hi, rfl⟩ := List.mem_map.1 hc
      obtain ⟨u, hu, hau, hub⟩ := hids i hi
      refine List.mem_map.2 ⟨(⟨u, .allow i⟩, .allow .admitted), ?_, rfl⟩
      simp [Bucket.window, List.mem_filter, hu, hau, hub]
    have hmap : (ids.map Call.allow).Nodup := hnodup.map fun _ _ heq => Call.allow.inj heq
    have := (List.subperm_of_subset hmap hsub).length_le
    rwa [List.length_map, List.length_map, ← List.countP_eq_length_filter] at this
  have hq : (ids.length : ℚ) + refunds (Bucket.window Event.now a (a + d) h) ≤
      takes (Bucket.window Event.now a (a + d) h) := by
    exact_mod_cast (Nat.add_le_add_right hlength _).trans hcount
  have hcap : (Limits.perMinute G P maxIdentities hG hP).globalCapacity = G := rfl
  have hrate : (Limits.perMinute G P maxIdentities hG hP).globalRefillPerSecond = perMinute G := rfl
  rw [hcap, hrate] at hwindow
  linarith

/-- A new identity has a full bucket, so it is admitted. -/
theorem new_admitted (hone : 1 ≤ P) (hs : s.limiter.Sound (.perMinute G P maxIdentities hG hP) s.clock)
    (hnew : s.limiter.buckets.get? identity = none) : ((s.limiter.bucketAt now identity).tryTake now).2 = true := by
  have hlevel : (s.limiter.bucketAt now identity).level now = P := by
    rw [RateLimiter.bucketAt, hnew, Option.getD_none, hs.perIdentityCapacity_eq]
    exact level_new
  rcases (s.limiter.bucketAt now identity).tryTake_cases now with ⟨-, heq⟩ | ⟨hlt, -⟩
  · rw [heq]
  · rw [hlevel] at hlt
    exact absurd hlt (not_lt.2 hone)

/-- A pool that is full with room for one bucket at least is not empty. -/
theorem pool_nonempty (hmax : (0 : ℚ) < maxIdentities)
    (hs : s.limiter.Sound (.perMinute G P maxIdentities hG hP) s.clock) (hevicts : s.limiter.Evicts identity) :
    ∃ x rest, s.limiter.buckets.items = x :: rest := by
  apply List.exists_cons_of_ne_nil
  intro hempty
  have hroom := hevicts.2
  rw [hs.maxIdentities_eq, OrderedDict.length, hempty] at hroom
  have hlt : maxIdentities < 1 := hroom
  have hpos : 0 < maxIdentities := by exact_mod_cast hmax
  omega

/-- What is dropped has not been used for a minute. -/
theorem evicted_idle (hpos : 0 < G) (hmax : 3 * G ≤ maxIdentities) {t₀ : ℚ}
    (hr : AllowRun (.perMinute G P maxIdentities hG hP) t₀ h s) (hinv : PoolInv (.perMinute G P maxIdentities hG hP) h s)
    {s' : Clocked} (hstep : step s ⟨now, .allow identity⟩ = some (s', .allow .admitted))
    (hevicts : s.limiter.Evicts identity) {x : Str × TokenBucket} {rest : List (Str × TokenBucket)}
    (hitems : s.limiter.buckets.items = x :: rest) : x.2.lastRefill + 60 ≤ now := by
  obtain ⟨hle, -, -⟩ := step_eq hstep
  by_contra hlt
  -- The identities of the pool and the new one, within two minutes.
  have hnodup := OrderedDict.nodup_cons hevicts.1
  have hpast : ∀ y ∈ s.limiter.buckets.items, y.2.lastRefill ≤ now := by
    intro y hy
    exact (hinv.sound.identity y hy).past.trans hle
  have hoverdue : 0 ≤ now - (x.2.lastRefill - 60) := by
    have := hpast x (by simp [hitems])
    linarith
  have hrun := hr.snoc ⟨identity, rfl⟩ hstep
  have hcount := identities_le hrun hnodup (x.2.lastRefill - 60) hoverdue (by
    intro i hi
    rcases List.mem_cons.1 hi with rfl | hi
    · exact ⟨now, by simp, by linarith, by linarith⟩
    · obtain ⟨y, hy, rfl⟩ := List.mem_map.1 hi
      obtain ⟨u, hu, hlast, hminute, -⟩ := hinv.recent y hy
      have hfirst : x.2.lastRefill ≤ y.2.lastRefill := by
        have hordered := hinv.ordered
        rw [hitems] at hy hordered
        rcases List.mem_cons.1 hy with rfl | hy
        · exact le_rfl
        · exact List.rel_of_pairwise_cons hordered hy
      exact ⟨u, List.mem_append_left _ hu, by linarith, by linarith [hpast y hy]⟩)
  have hfull : (maxIdentities : ℚ) < (identity :: s.limiter.buckets.items.map Prod.fst).length := by
    have hroom := hevicts.2
    rw [hinv.sound.maxIdentities_eq] at hroom
    rw [List.length_cons, List.length_map]
    exact_mod_cast hroom
  have hflow : (now - (x.2.lastRefill - 60)) * perMinute G < 120 * perMinute G :=
    mul_lt_mul_of_pos_right (by linarith) (div_pos hpos (by norm_num))
  have htwo : 120 * perMinute G = 2 * G := by
    unfold perMinute
    ring
  linarith

/-- What a call does to the bucket of one identity: nothing; or it takes from it; or it drops it after a minute without
use. -/
theorem bucket_cases (hpos : 0 < G) (hone : 1 ≤ P) (hmax : 3 * G ≤ maxIdentities) {t₀ : ℚ}
    (hr : AllowRun (.perMinute G P maxIdentities hG hP) t₀ h s) (hinv : PoolInv (.perMinute G P maxIdentities hG hP) h s)
    {e : Event} {s' : Clocked} {o : Answer} (ho : AllowOnly s e) (hstep : step s e = some (s', o)) (identity : Str) :
    (s'.limiter.buckets.get? identity = s.limiter.buckets.get? identity ∧
        ¬ (e.call = .allow identity ∧ o = .allow .admitted)) ∨
      (e.call = .allow identity ∧
        o = .allow (if ((s.limiter.bucketAt e.now identity).tryTake e.now).2 then .admitted else .identityRefused) ∧
        s'.limiter.buckets.get? identity = some ((s.limiter.bucketAt e.now identity).tryTake e.now).1) ∨
      (e.call ≠ .allow identity ∧ ∃ b, s.limiter.buckets.get? identity = some b ∧
        s'.limiter.buckets.get? identity = none ∧ b.lastRefill + 60 ≤ e.now) := by
  obtain ⟨now, call⟩ := e
  obtain ⟨j, rfl⟩ := ho
  obtain ⟨-, hs', hobs⟩ := step_eq hstep
  have hlimiter : s'.limiter = (s.limiter.allow now j).1 := by rw [hs']; rfl
  have hanswer : o = .allow (s.limiter.allow now j).2 := hobs
  rw [hlimiter]
  -- What a check puts at the end of the pool.
  have hput : ((s.limiter.buckets.putLast j ((s.limiter.bucketAt now j).tryTake now).1).get? identity =
        s.limiter.buckets.get? identity ∧ ¬ (Call.allow j = .allow identity ∧ o = .allow .admitted)) ∨
      (Call.allow j = .allow identity ∧
        (s.limiter.buckets.putLast j ((s.limiter.bucketAt now j).tryTake now).1).get? identity =
          some ((s.limiter.bucketAt now identity).tryTake now).1) := by
    rw [OrderedDict.get?_putLast]
    by_cases hj : identity = j
    · subst hj
      exact .inr ⟨rfl, if_pos rfl⟩
    · refine .inl ⟨if_neg hj, ?_⟩
      rintro ⟨heq, -⟩
      exact hj (Call.allow.inj heq).symm
  rcases allow_pool s.limiter now j with ⟨ha, hpool⟩ | ⟨ha, ⟨-, hpool⟩ | ⟨hevicts, hpool⟩⟩
  · rw [hpool]
    refine .inl ⟨rfl, ?_⟩
    rw [hanswer, ha]
    simp
  · rw [hpool]
    rcases hput with hsame | ⟨hcall, hput⟩
    · exact .inl hsame
    · obtain rfl : j = identity := Call.allow.inj hcall
      exact .inr (.inl ⟨rfl, by rw [hanswer, ha], hput⟩)
  · -- The pool is full, so it has a first bucket, and that one is not of the new identity.
    have hadmitted : o = .allow .admitted := by
      rw [hanswer, ha, new_admitted hone hinv.sound hevicts.1]
      rfl
    obtain ⟨x, rest, hitems⟩ := pool_nonempty (by linarith) hinv.sound hevicts
    have hfirst : (s.limiter.buckets.putLast j ((s.limiter.bucketAt now j).tryTake now).1).items =
        x :: (rest ++ [(j, ((s.limiter.bucketAt now j).tryTake now).1)]) := by
      rw [OrderedDict.items_putLast_new hevicts.1, hitems]
      rfl
    rw [hpool, OrderedDict.get?_popFirst hfirst]
    by_cases hx : identity = x.1
    · rw [if_pos hx]
      have hmem : x ∈ s.limiter.buckets.items := by simp [hitems]
      refine .inr (.inr ⟨?_, x.2, ?_, rfl, ?_⟩)
      · intro hcall
        exact OrderedDict.get?_eq_none.1 hevicts.1 x hmem (hx.symm.trans (Call.allow.inj hcall).symm)
      · rw [hx]
        exact OrderedDict.get?_eq_some.2 hmem
      · exact evicted_idle hpos hmax hr hinv (hadmitted ▸ hstep) hevicts hitems
    · rw [if_neg hx]
      rcases hput with hsame | ⟨hcall, hput⟩
      · exact .inl hsame
      · obtain rfl : j = identity := Call.allow.inj hcall
        exact .inr (.inl ⟨rfl, by rw [hanswer, ha], hput⟩)

/-! ## Runs -/

/-- What a call has put at the end of the pool comes after all other buckets. -/
theorem put_inv (hinv : PoolInv (.perMinute G P maxIdentities hG hP) h s) (hone : 1 ≤ P) (ht : s.clock ≤ now)
    (j : Str) :
    let pool := s.limiter.buckets.putLast j ((s.limiter.bucketAt now j).tryTake now).1
    let x : Event × Answer := (⟨now, .allow j⟩,
      .allow (if ((s.limiter.bucketAt now j).tryTake now).2 then .admitted else .identityRefused))
    pool.items.Pairwise (fun x y => x.2.lastRefill ≤ y.2.lastRefill) ∧
      (∀ b ∈ pool.items, ∀ y ∈ h ++ [x], Accesses b.1 y → y.1.now ≤ b.2.lastRefill) ∧
      ∀ b ∈ pool.items, Recent (.perMinute G P maxIdentities hG hP) (h ++ [x]) b := by
  intro pool x
  have hlast : ((s.limiter.bucketAt now j).tryTake now).1.lastRefill = now := tryTake_lastRefill _ _
  have hmem : ∀ b ∈ pool.items, (b ∈ s.limiter.buckets.items ∧ b.1 ≠ j) ∨
      b = (j, ((s.limiter.bucketAt now j).tryTake now).1) := by
    intro b hb
    rcases List.mem_append.1 hb with hb | hb
    · exact .inl (by simpa using hb)
    · exact .inr (List.mem_singleton.1 hb)
  refine ⟨?_, ?_, ?_⟩
  · apply OrderedDict.pairwise_putLast hinv.ordered
    intro b hb
    rw [hlast]
    exact (hinv.sound.identity b hb).past.trans ht
  · intro b hb y hy hacc
    rcases hmem b hb with ⟨hold, hne⟩ | rfl
    · rcases List.mem_append.1 hy with hy | hy
      · exact hinv.accessed b hold y hy hacc
      · rw [List.mem_singleton.1 hy] at hacc
        exact absurd (Call.allow.inj hacc.1).symm hne
    · rw [hlast]
      rcases List.mem_append.1 hy with hy | hy
      · exact (hinv.times y hy).trans ht
      · rw [List.mem_singleton.1 hy]
  · intro b hb
    rcases hmem b hb with ⟨hold, -⟩ | rfl
    · exact (hinv.recent b hold).mono fun y hy => List.mem_append_left _ hy
    · exact access_recent hone hinv.sound hinv.recent ht

theorem pool_step (hone : 1 ≤ P) (hinv : PoolInv (.perMinute G P maxIdentities hG hP) h s) {e : Event} {s' : Clocked}
    {o : Answer} (ho : AllowOnly s e) (hstep : step s e = some (s', o)) :
    PoolInv (.perMinute G P maxIdentities hG hP) (h ++ [(e, o)]) s' := by
  have hsound := step_sound hinv.sound hstep
  obtain ⟨now, call⟩ := e
  obtain ⟨j, rfl⟩ := ho
  obtain ⟨hle, hs', hobs⟩ := step_eq hstep
  have hclock : s'.clock = now := by rw [hs']
  have hlimiter : s'.limiter = (s.limiter.allow now j).1 := by rw [hs']; rfl
  have hanswer : o = .allow (s.limiter.allow now j).2 := hobs
  have htimes : ∀ x ∈ h ++ [(⟨now, .allow j⟩, o)], x.1.now ≤ s'.clock := by
    intro x hx
    rw [hclock]
    rcases List.mem_append.1 hx with hx | hx
    · exact (hinv.times x hx).trans hle
    · rw [List.mem_singleton.1 hx]
  obtain ⟨hordered, haccessed, hrecent⟩ := put_inv hinv hone hle j
  rcases allow_pool s.limiter now j with ⟨ha, hpool⟩ | ⟨ha, ⟨-, hpool⟩ | ⟨-, hpool⟩⟩ <;>
    rw [← hlimiter] at hpool <;> rw [ha] at hanswer <;> subst hanswer
  · refine ⟨hsound, htimes, hpool ▸ hinv.ordered, ?_, ?_⟩
    · intro b hb y hy hacc
      rw [hpool] at hb
      rcases List.mem_append.1 hy with hy | hy
      · exact hinv.accessed b hb y hy hacc
      · -- The call did not reach a bucket.
        rw [List.mem_singleton.1 hy] at hacc
        exact absurd rfl hacc.2
    · intro b hb
      rw [hpool] at hb
      exact (hinv.recent b hb).mono fun y hy => List.mem_append_left _ hy
  · exact ⟨hsound, htimes, hpool ▸ hordered, hpool ▸ haccessed, hpool ▸ hrecent⟩
  · have hsub : ∀ b ∈ s'.limiter.buckets.items,
        b ∈ (s.limiter.buckets.putLast j ((s.limiter.bucketAt now j).tryTake now).1).items := by
      intro b hb
      rw [hpool] at hb
      exact List.mem_of_mem_tail hb
    exact ⟨hsound, htimes, hpool ▸ hordered.tail, fun b hb => haccessed b (hsub b hb), fun b hb => hrecent b (hsub b hb)⟩

theorem pool_inv (hone : 1 ≤ P) {t₀ : ℚ} (hr : AllowRun (.perMinute G P maxIdentities hG hP) t₀ h s) :
    PoolInv (.perMinute G P maxIdentities hG hP) h s := by
  apply hr.inv_hist (PoolInv (.perMinute G P maxIdentities hG hP))
  · refine ⟨RateLimiter.new_sound _ t₀, by simp, .nil, ?_, ?_⟩
    · intro x hx
      cases hx
    · intro x hx
      cases hx
  · intro h s e s' o hinv ho hstep
    exact pool_step hone hinv ho hstep

/-- The bucket of one identity, full while it is not in the pool, meters the admissions of that identity. -/
theorem identity_metered (hpos : 0 < G) (hone : 1 ≤ P) (hmax : 3 * G ≤ maxIdentities) (t₀ : ℚ) (identity : Str) :
    Bucket.Metered step AllowOnly (fun h s => AllowRun (.perMinute G P maxIdentities hG hP) t₀ h s) Clocked.clock
      Event.now (fun s t => (s.limiter.bucketAt t identity).level t) P (perMinute P)
      fun x => TokenBucket.taken (x.1.call = .allow identity ∧ x.2 = .allow .admitted) where
  rate_nonneg := perMinute_nonneg hP
  clocked s e s' o hs := by
    obtain ⟨hle, rfl, -⟩ := step_eq hs
    exact ⟨hle, rfl⟩
  preserved h s e s' o hr ho hs := hr.snoc ho hs
  nonneg h s t hr ht := ((pool_inv hone hr).sound.bucketAt_within ht).level_nonneg hP (perMinute_nonneg hP) le_rfl
  le_cap h s t hr := by
    have hs := (pool_inv hone hr).sound
    unfold RateLimiter.bucketAt
    cases hget : s.limiter.buckets.get? identity with
    | none => exact (level_new.trans hs.perIdentityCapacity_eq).le
    | some b => exact (hs.identity _ (OrderedDict.get?_eq_some.1 hget)).level_le
  grows h s t d hr hd := by
    have hs := (pool_inv hone hr).sound
    unfold RateLimiter.bucketAt
    cases hget : s.limiter.buckets.get? identity with
    | none =>
      have := mul_nonneg hd (perMinute_nonneg hP)
      simp only [Option.getD_none, level_new]
      linarith
    | some b => exact (hs.identity _ (OrderedDict.get?_eq_some.1 hget)).level_add_le (perMinute_nonneg hP) hd
  pays h s e s' o hr ho hs := by
    have hinv := pool_inv hone hr
    have hsound' := step_sound hinv.sound hs
    obtain ⟨hle, -, -⟩ := step_eq hs
    rcases bucket_cases hpos hone hmax hr hinv ho hs identity with
      ⟨hget, hne⟩ | ⟨hcall, ho, hget⟩ | ⟨hcall, b, hb, hget, hidle⟩
    · rw [RateLimiter.bucketAt, hget, hsound'.perIdentityCapacity_eq, hsound'.perIdentityRefill_eq, RateLimiter.bucketAt,
        hinv.sound.perIdentityCapacity_eq, hinv.sound.perIdentityRefill_eq]
      simp [TokenBucket.taken, hne]
    · have hwithin : (s.limiter.bucketAt e.now identity).Within P (perMinute P) e.now := hinv.sound.bucketAt_within hle
      have htake := TokenBucket.level_tryTake hP (perMinute_nonneg hP) hwithin le_rfl
      rw [show (s'.limiter.bucketAt e.now identity) = ((s.limiter.bucketAt e.now identity).tryTake e.now).1 by
        rw [RateLimiter.bucketAt, hget, Option.getD_some]]
      refine le_of_eq (Eq.trans ?_ htake)
      congr 1
      cases hok : ((s.limiter.bucketAt e.now identity).tryTake e.now).2 <;> simp [TokenBucket.taken, hcall, ho, hok]
    · -- A minute has filled the bucket that is dropped.
      have hwithin := hinv.sound.identity _ (OrderedDict.get?_eq_some.1 hb)
      have hfull : b.level e.now = P := by
        rw [TokenBucket.level, hwithin.capacity_eq, hwithin.rate_eq]
        exact level_minute hwithin.nonneg (by linarith) hP
      rw [RateLimiter.bucketAt, hget, Option.getD_none, level_new, hsound'.perIdentityCapacity_eq, RateLimiter.bucketAt,
        hb, Option.getD_some, hfull]
      simp [TokenBucket.taken, hcall, Limits.perMinute]

/-- The identity had a bucket before the step and has none after it. -/
def Drops (s s' : Clocked) (identity : Str) : Prop :=
  (s.limiter.buckets.get? identity).isSome ∧ s'.limiter.buckets.get? identity = none

/-- In every window of every run an identity is admitted no more often than one bucket allows, and a bucket is only
ever dropped a minute after the last call that reached it. -/
theorem eviction_harmless (hpos : 0 < G) (hone : 1 ≤ P) (hmax : 3 * G ≤ maxIdentities) {t₀ : ℚ}
    (hr : AllowRun (.perMinute G P maxIdentities hG hP) t₀ h s) :
    (∀ identity a d, 0 ≤ d →
      (admissionsOf identity (Bucket.window Event.now a (a + d) h) : ℚ) ≤ P + d * P / 60) ∧
    ∀ pre e o post, h = pre ++ (e, o) :: post → ∃ s₁ s₂, AllowRun (.perMinute G P maxIdentities hG hP) t₀ pre s₁ ∧
      step s₁ e = some (s₂, o) ∧ ∀ identity, Drops s₁ s₂ identity →
        ∀ y ∈ pre, Accesses identity y → y.1.now + 60 ≤ e.now := by
  constructor
  · intro identity a d hd
    have hab : a ≤ a + d := le_add_of_nonneg_right hd
    have hcost := (identity_metered hpos hone hmax t₀ identity).window_le .nil hr hab
    rw [sum_taken, add_sub_cancel_left, perMinute, ← mul_div_assoc] at hcost
    exact hcost
  · intro pre e o post hh
    obtain ⟨s₁, s₂, hpre, ho, hstep, -⟩ := hr.fired hh
    refine ⟨s₁, s₂, hpre, hstep, ?_⟩
    rintro identity ⟨hsome, hnone⟩ y hy hacc
    have hinv := pool_inv hone hpre
    rcases bucket_cases hpos hone hmax hpre hinv ho hstep identity with
      ⟨hget, -⟩ | ⟨-, -, hget⟩ | ⟨-, b, hb, -, hidle⟩
    · rw [← hget, hnone] at hsome
      cases hsome
    · rw [hnone] at hget
      cases hget
    · have := hinv.accessed _ (OrderedDict.get?_eq_some.1 hb) y hy hacc
      exact (add_le_add_left this 60).trans hidle

end

/-- Seven identities in a pool for six: the first one is dropped, and still admitted once a minute only. -/
theorem eviction_harmless_seven : ∃ h s, AllowRun burst 0 h s ∧ s.limiter.buckets.get? (lit "a") = none ∧
    ∀ a, (admissionsOf (lit "a") (Bucket.window Event.now a (a + 60) h) : ℚ) ≤ 1 + 60 * 1 / 60 := by
  obtain ⟨h, s, hr, hp⟩ := exists_run step (fun _ e => e.call.isAllow)
    (fun s _ => (s.limiter.buckets.get? (lit "a")).isNone) ⟨0, .new burst 0⟩
    [⟨0, .allow (lit "a")⟩, ⟨0, .allow (lit "b")⟩, ⟨60, .allow (lit "c")⟩, ⟨60, .allow (lit "d")⟩,
      ⟨120, .allow (lit "e")⟩, ⟨120, .allow (lit "f")⟩, ⟨180, .allow (lit "g")⟩] (by decide +kernel)
  have hrun : AllowRun burst 0 h s := hr.mono fun _ _ ho => allowOnly_of_isAllow ho
  have hroom : 3 * (2 : ℚ) ≤ ((6 : Int) : ℚ) := by norm_num
  refine ⟨h, s, hrun, Option.isNone_iff_eq_none.1 hp, ?_⟩
  intro a
  exact (eviction_harmless two_pos le_rfl hroom hrun).1 (lit "a") a 60 (by norm_num)

end AetherNode.RateLimit
