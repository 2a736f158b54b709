import AetherNode.Lib.Bucket
import AetherNode.Lib.OrderedDict
import AetherNode.Lib.Text
import Mathlib.Algebra.Order.Ring.Rat
/-!
# The rate limiter

A global token bucket and an LRU pool of buckets per identity, with exact
arithmetic. The whole of a call runs under the limiter's lock, so a call has
one reading of the clock, and a run is a sequence of calls at non-decreasing
times. What the global bucket holds pays for every admission.
-/
open AetherNode.Lib

namespace AetherNode.RateLimit

/-- `_TokenBucket`. -/
structure TokenBucket where
  capacity : ℚ
  refillPerSecond : ℚ
  tokens : ℚ
  lastRefill : ℚ

namespace TokenBucket

def new (capacity refillPerSecond now : ℚ) : TokenBucket := ⟨capacity, refillPerSecond, capacity, now⟩

/-- `_refill`. -/
def refill (b : TokenBucket) (now : ℚ) : TokenBucket :=
  let elapsed := now - b.lastRefill
  { b with lastRefill := now, tokens := min b.capacity (b.tokens + elapsed * b.refillPerSecond) }

def tryTake (b : TokenBucket) (now : ℚ) : TokenBucket × Bool :=
  let b := b.refill now
  if 1 ≤ b.tokens then ({ b with tokens := b.tokens - 1 }, true) else (b, false)

def refund (b : TokenBucket) : TokenBucket := { b with tokens := min b.capacity (b.tokens + 1) }

/-- What the bucket would hold when it is refilled at `t`. -/
def level (b : TokenBucket) (t : ℚ) : ℚ := Bucket.level b.capacity b.refillPerSecond b.tokens (t - b.lastRefill)

/-- A bucket of this capacity and rate, filled within its bounds and last refilled by `now`. -/
structure Within (capacity rate now : ℚ) (b : TokenBucket) : Prop where
  capacity_eq : b.capacity = capacity
  rate_eq : b.refillPerSecond = rate
  nonneg : 0 ≤ b.tokens
  le : b.tokens ≤ capacity
  past : b.lastRefill ≤ now

end TokenBucket

/-- What a limiter is built with. -/
structure Limits where
  globalCapacity : ℚ
  globalRefillPerSecond : ℚ
  perIdentityCapacity : ℚ
  perIdentityRefillPerSecond : ℚ
  maxIdentities : Int
  globalCapacity_nonneg : 0 ≤ globalCapacity
  globalRefill_nonneg : 0 ≤ globalRefillPerSecond
  perIdentityCapacity_nonneg : 0 ≤ perIdentityCapacity
  perIdentityRefill_nonneg : 0 ≤ perIdentityRefillPerSecond

/-- `per_minute`. -/
def perMinute (capacity : ℚ) : ℚ := capacity / 60

theorem perMinute_nonneg {capacity : ℚ} (h : 0 ≤ capacity) : 0 ≤ perMinute capacity := div_nonneg h (by norm_num)

/-- The limits `main` builds from a pair of flags: a minute's allowance as capacity. -/
def Limits.perMinute (global perIdentity : ℚ) (maxIdentities : Int) (hg : 0 ≤ global) (hi : 0 ≤ perIdentity) : Limits :=
  ⟨global, RateLimit.perMinute global, perIdentity, RateLimit.perMinute perIdentity, maxIdentities, hg,
    perMinute_nonneg hg, hi, perMinute_nonneg hi⟩

structure RateLimiter where
  global : TokenBucket
  perIdentityCapacity : ℚ
  perIdentityRefill : ℚ
  maxIdentities : Int
  buckets : OrderedDict Str TokenBucket

/-- How `allow` ends; only `admitted` returns `True`. -/
inductive Admission where
  | globalRefused
  | identityRefused
  | admitted
  deriving DecidableEq

namespace RateLimiter

def new (l : Limits) (now : ℚ) : RateLimiter where
  global := .new l.globalCapacity l.globalRefillPerSecond now
  perIdentityCapacity := l.perIdentityCapacity
  perIdentityRefill := l.perIdentityRefillPerSecond
  maxIdentities := l.maxIdentities
  buckets := .empty

/-- `_get_or_create_bucket_locked`: the bucket, and the pool with it at the end. A new bucket may push the oldest
one out. -/
def getOrCreateBucketLocked (r : RateLimiter) (now : ℚ) (identity : Str) : TokenBucket × OrderedDict Str TokenBucket :=
  match r.buckets.get? identity with
  | none =>
    let bucket := TokenBucket.new r.perIdentityCapacity r.perIdentityRefill now
    let buckets := r.buckets.putLast identity bucket
    (bucket, if r.maxIdentities < buckets.length then buckets.popFirst else buckets)
  | some bucket => (bucket, r.buckets.putLast identity bucket)

def checkGlobal (r : RateLimiter) (now : ℚ) : RateLimiter × Bool :=
  let (global, ok) := r.global.tryTake now
  ({ r with global := global }, ok)

/-- The bucket is changed in place, also when it has just been pushed out of the pool. -/
def checkIdentity (r : RateLimiter) (now : ℚ) (identity : Str) : RateLimiter × Bool :=
  let (bucket, buckets) := r.getOrCreateBucketLocked now identity
  let (bucket, ok) := bucket.tryTake now
  ({ r with buckets := buckets.modify identity fun _ => bucket }, ok)

def refundGlobal (r : RateLimiter) : RateLimiter := { r with global := r.global.refund }

def allow (r : RateLimiter) (now : ℚ) (identity : Str) : RateLimiter × Admission :=
  match r.checkGlobal now with
  | (r, false) => (r, .globalRefused)
  | (r, true) =>
    match r.checkIdentity now identity with
    | (r, true) => (r, .admitted)
    | (r, false) => (r.refundGlobal, .identityRefused)

end RateLimiter

/-! ## Runs of calls -/

inductive Call where
  | checkGlobal
  | checkIdentity (identity : Str)
  | refundGlobal
  | allow (identity : Str)
  deriving DecidableEq

/-- A call at a reading of the clock. -/
structure Event where
  now : ℚ
  call : Call

inductive Answer where
  | checkGlobal (ok : Bool)
  | checkIdentity (ok : Bool)
  | refunded
  | allow (a : Admission)
  deriving DecidableEq

def RateLimiter.answer (r : RateLimiter) (now : ℚ) : Call → RateLimiter × Answer
  | .checkGlobal =>
    let (r, ok) := r.checkGlobal now
    (r, .checkGlobal ok)
  | .checkIdentity identity =>
    let (r, ok) := r.checkIdentity now identity
    (r, .checkIdentity ok)
  | .refundGlobal => (r.refundGlobal, .refunded)
  | .allow identity =>
    let (r, a) := r.allow now identity
    (r, .allow a)

/-- A limiter and the last reading of the clock. -/
structure Clocked where
  clock : ℚ
  limiter : RateLimiter

/-- The clock never goes back. -/
def step : System Clocked Event Answer := fun s e =>
  if s.clock ≤ e.now then
    let r := s.limiter.answer e.now e.call
    some (⟨e.now, r.1⟩, r.2)
  else none

/-- Histories of a limiter created at `t₀`. -/
abbrev LimiterRun (l : Limits) (t₀ : ℚ) : List (Event × Answer) → Clocked → Prop :=
  Run step Any ⟨t₀, .new l t₀⟩

theorem step_eq {s s' : Clocked} {e : Event} {o : Answer} (h : step s e = some (s', o)) :
    s.clock ≤ e.now ∧ s' = ⟨e.now, (s.limiter.answer e.now e.call).1⟩ ∧ o = (s.limiter.answer e.now e.call).2 := by
  unfold step at h
  split at h
  · rename_i hle
    simp only [Option.some.injEq, Prod.mk.injEq] at h
    exact ⟨hle, h.1.symm, h.2.symm⟩
  · cases h

theorem step_of_le {s : Clocked} {e : Event} (h : s.clock ≤ e.now) :
    step s e = some (⟨e.now, (s.limiter.answer e.now e.call).1⟩, (s.limiter.answer e.now e.call).2) := if_pos h

/-! ## One bucket -/

namespace TokenBucket

variable {capacity rate now t : ℚ} {b : TokenBucket}

theorem new_within (hc : 0 ≤ capacity) : (new capacity rate now).Within capacity rate now :=
  ⟨rfl, rfl, hc, le_rfl, le_rfl⟩

theorem Within.later (h : b.Within capacity rate now) (ht : now ≤ t) : b.Within capacity rate t :=
  { h with past := h.past.trans ht }

theorem Within.level_nonneg (hc : 0 ≤ capacity) (hr : 0 ≤ rate) (h : b.Within capacity rate now) (ht : now ≤ t) :
    0 ≤ b.level t := by
  rw [level, h.capacity_eq, h.rate_eq]
  exact Bucket.level_nonneg hc hr h.nonneg (sub_nonneg.2 (h.past.trans ht))

theorem Within.level_le (h : b.Within capacity rate now) : b.level t ≤ capacity := by
  rw [level, h.capacity_eq]
  exact Bucket.level_le_cap

theorem Within.level_add_le (hr : 0 ≤ rate) (h : b.Within capacity rate now) {d : ℚ} (hd : 0 ≤ d) :
    b.level (t + d) ≤ b.level t + d * rate := by
  rw [level, level, h.capacity_eq, h.rate_eq, add_sub_right_comm]
  exact Bucket.level_add_le hr hd

/-- `try_take`: a token goes when the level has one, and the level is written back in any case. -/
theorem tryTake_cases (b : TokenBucket) (t : ℚ) :
    (1 ≤ b.level t ∧ b.tryTake t = ({ b with tokens := b.level t - 1, lastRefill := t }, true)) ∨
      (b.level t < 1 ∧ b.tryTake t = ({ b with tokens := b.level t, lastRefill := t }, false)) := by
  by_cases h : 1 ≤ b.level t
  · exact .inl ⟨h, if_pos h⟩
  · exact .inr ⟨not_le.1 h, if_neg h⟩

theorem tryTake_within (hc : 0 ≤ capacity) (hr : 0 ≤ rate) (h : b.Within capacity rate now) (ht : now ≤ t) :
    (b.tryTake t).1.Within capacity rate t := by
  have hlevel := h.level_le (t := t)
  rcases tryTake_cases b t with ⟨hone, heq⟩ | ⟨-, heq⟩ <;> rw [heq]
  · exact ⟨h.capacity_eq, h.rate_eq, by linarith, by linarith, le_rfl⟩
  · exact ⟨h.capacity_eq, h.rate_eq, h.level_nonneg hc hr ht, hlevel, le_rfl⟩

/-- What a call of `try_take` took. -/
def taken (ok : Bool) : ℚ := if ok then 1 else 0

/-- A token taken comes off the level. -/
theorem level_tryTake (hc : 0 ≤ capacity) (hr : 0 ≤ rate) (h : b.Within capacity rate now) (ht : now ≤ t) :
    taken (b.tryTake t).2 + (b.tryTake t).1.level t = b.level t := by
  have hw := tryTake_within hc hr h ht
  have hread : (b.tryTake t).1.level t = (b.tryTake t).1.tokens := by
    have hlast : (b.tryTake t).1.lastRefill = t := by
      rcases tryTake_cases b t with ⟨-, heq⟩ | ⟨-, heq⟩ <;> rw [heq]
    rw [level, hlast, sub_self, hw.capacity_eq]
    exact Bucket.level_zero hw.le
  rw [hread]
  rcases tryTake_cases b t with ⟨-, heq⟩ | ⟨-, heq⟩ <;> rw [heq]
  · simp [taken]
  · simp [taken]

theorem refund_within (h : b.Within capacity rate now) (hc : 0 ≤ capacity) : b.refund.Within capacity rate now := by
  have hnonneg := h.nonneg
  refine ⟨h.capacity_eq, h.rate_eq, le_min ?_ (by linarith), ?_, h.past⟩
  · rw [h.capacity_eq]
    exact hc
  · exact (min_le_left _ _).trans h.capacity_eq.le

theorem level_refund_le (b : TokenBucket) (t : ℚ) : b.refund.level t ≤ b.level t + 1 := Bucket.level_refund_le

end TokenBucket

/-! ## The pool of buckets -/

namespace RateLimiter

/-- The bucket a check of `identity` takes from. -/
def bucketAt (r : RateLimiter) (now : ℚ) (identity : Str) : TokenBucket :=
  (r.buckets.get? identity).getD (.new r.perIdentityCapacity r.perIdentityRefill now)

/-- The check pushes the oldest bucket out: the identity is new and the pool is full. -/
def Evicts (r : RateLimiter) (identity : Str) : Prop :=
  r.buckets.get? identity = none ∧ r.maxIdentities < (r.buckets.length + 1 : Nat)

/-- The bucket that an access gets: that of its identity where there is one, and else a new one. -/
theorem getOrCreateBucketLocked_fst (r : RateLimiter) (now : ℚ) (identity : Str) :
    (r.getOrCreateBucketLocked now identity).1 = r.bucketAt now identity := by
  unfold getOrCreateBucketLocked bucketAt
  cases r.buckets.get? identity <;> rfl

/-- The pool once the bucket of an access has changed: it is at the end, and the oldest one is pushed out for a new one
of a full pool. -/
theorem getOrCreateBucketLocked_modify (r : RateLimiter) (now : ℚ) (identity : Str) (b : TokenBucket) :
    (¬ r.Evicts identity ∧
        (r.getOrCreateBucketLocked now identity).2.modify identity (fun _ => b) = r.buckets.putLast identity b) ∨
      (r.Evicts identity ∧
        (r.getOrCreateBucketLocked now identity).2.modify identity (fun _ => b) = (r.buckets.putLast identity b).popFirst) := by
  unfold getOrCreateBucketLocked Evicts
  cases hget : r.buckets.get? identity with
  | some bucket => simp [OrderedDict.modify_putLast]
  | none =>
    simp only [OrderedDict.length_putLast_new hget, true_and]
    split
    · rename_i hfull
      exact .inr ⟨hfull, by rw [OrderedDict.modify_popFirst, OrderedDict.modify_putLast]⟩
    · rename_i hroom
      exact .inl ⟨hroom, by rw [OrderedDict.modify_putLast]⟩

/-- What `check_identity` does: the bucket it took from goes to the end. -/
theorem checkIdentity_cases (r : RateLimiter) (now : ℚ) (identity : Str) :
    (r.checkIdentity now identity).2 = ((r.bucketAt now identity).tryTake now).2 ∧
      ((¬ r.Evicts identity ∧ (r.checkIdentity now identity).1 =
          { r with buckets := r.buckets.putLast identity ((r.bucketAt now identity).tryTake now).1 }) ∨
        (r.Evicts identity ∧ (r.checkIdentity now identity).1 =
          { r with buckets := (r.buckets.putLast identity ((r.bucketAt now identity).tryTake now).1).popFirst })) := by
  rw [← getOrCreateBucketLocked_fst]
  refine ⟨rfl, ?_⟩
  rcases r.getOrCreateBucketLocked_modify now identity ((r.getOrCreateBucketLocked now identity).1.tryTake now).1 with
    ⟨hroom, heq⟩ | ⟨hfull, heq⟩
  · exact .inl ⟨hroom, by rw [← heq]; rfl⟩
  · exact .inr ⟨hfull, by rw [← heq]; rfl⟩

/-- The buckets after a check: the one it took from, and buckets that were there. -/
theorem mem_checkIdentity {r : RateLimiter} {now : ℚ} {identity : Str} {x : Str × TokenBucket}
    (hx : x ∈ (r.checkIdentity now identity).1.buckets.items) :
    x = (identity, ((r.bucketAt now identity).tryTake now).1) ∨ x ∈ r.buckets.items := by
  have hput : ∀ b, x ∈ (r.buckets.putLast identity b).items → x = (identity, b) ∨ x ∈ r.buckets.items := by
    intro b hb
    rcases List.mem_append.1 hb with hb | hb
    · exact .inr (List.mem_filter.1 hb).1
    · exact .inl (List.mem_singleton.1 hb)
  rcases (checkIdentity_cases r now identity).2 with ⟨-, heq⟩ | ⟨-, heq⟩ <;> rw [heq] at hx
  · exact hput _ hx
  · exact hput _ (List.mem_of_mem_tail hx)

/-- `allow`: a refusal of the global bucket, or a check of the identity with the token given back when it fails. -/
theorem allow_cases (r : RateLimiter) (now : ℚ) (identity : Str) :
    ((r.global.tryTake now).2 = false ∧ r.allow now identity = ((r.checkGlobal now).1, .globalRefused)) ∨
      ((r.global.tryTake now).2 = true ∧
        ((((r.checkGlobal now).1.checkIdentity now identity).2 = true ∧
            r.allow now identity = (((r.checkGlobal now).1.checkIdentity now identity).1, .admitted)) ∨
          (((r.checkGlobal now).1.checkIdentity now identity).2 = false ∧
            r.allow now identity =
              (((r.checkGlobal now).1.checkIdentity now identity).1.refundGlobal, .identityRefused)))) := by
  unfold allow
  cases hg : r.checkGlobal now with
  | mk r' ok =>
    have hok : (r.global.tryTake now).2 = ok := congrArg Prod.snd hg
    cases ok with
    | false => exact .inl ⟨hok, rfl⟩
    | true =>
      refine .inr ⟨hok, ?_⟩
      cases hi : r'.checkIdentity now identity with
      | mk r'' ok' =>
        cases ok' with
        | true => exact .inl ⟨rfl, by simp only [hi]⟩
        | false => exact .inr ⟨rfl, by simp only [hi]⟩

/-- The limiter built with `l`, as it can be at time `now`. -/
structure Sound (l : Limits) (now : ℚ) (r : RateLimiter) : Prop where
  global : r.global.Within l.globalCapacity l.globalRefillPerSecond now
  identity : ∀ x ∈ r.buckets.items, x.2.Within l.perIdentityCapacity l.perIdentityRefillPerSecond now
  perIdentityCapacity_eq : r.perIdentityCapacity = l.perIdentityCapacity
  perIdentityRefill_eq : r.perIdentityRefill = l.perIdentityRefillPerSecond
  maxIdentities_eq : r.maxIdentities = l.maxIdentities

variable {l : Limits} {r : RateLimiter} {now t : ℚ} {identity : Str}

theorem new_sound (l : Limits) (now : ℚ) : (RateLimiter.new l now).Sound l now where
  global := TokenBucket.new_within l.globalCapacity_nonneg
  identity := by
    intro x hx
    cases hx
  perIdentityCapacity_eq := rfl
  perIdentityRefill_eq := rfl
  maxIdentities_eq := rfl

/-- The bucket a check takes from is within its bounds, also when it is new. -/
theorem Sound.bucketAt_within (h : r.Sound l now) (ht : now ≤ t) :
    (r.bucketAt t identity).Within l.perIdentityCapacity l.perIdentityRefillPerSecond t := by
  unfold bucketAt
  cases hget : r.buckets.get? identity with
  | some b => exact (h.identity _ (OrderedDict.get?_eq_some.1 hget)).later ht
  | none =>
    rw [h.perIdentityCapacity_eq, h.perIdentityRefill_eq]
    exact TokenBucket.new_within l.perIdentityCapacity_nonneg

theorem checkGlobal_sound (h : r.Sound l now) (ht : now ≤ t) : (r.checkGlobal t).1.Sound l t where
  global := TokenBucket.tryTake_within l.globalCapacity_nonneg l.globalRefill_nonneg h.global ht
  identity x hx := (h.identity x hx).later ht
  perIdentityCapacity_eq := h.perIdentityCapacity_eq
  perIdentityRefill_eq := h.perIdentityRefill_eq
  maxIdentities_eq := h.maxIdentities_eq

theorem checkIdentity_sound (h : r.Sound l now) (ht : now ≤ t) : (r.checkIdentity t identity).1.Sound l t where
  global := h.global.later ht
  identity x hx := by
    rcases mem_checkIdentity hx with rfl | hx
    · exact TokenBucket.tryTake_within l.perIdentityCapacity_nonneg l.perIdentityRefill_nonneg
        (h.bucketAt_within ht) le_rfl
    · exact (h.identity x hx).later ht
  perIdentityCapacity_eq := h.perIdentityCapacity_eq
  perIdentityRefill_eq := h.perIdentityRefill_eq
  maxIdentities_eq := h.maxIdentities_eq

theorem refundGlobal_sound (h : r.Sound l now) : r.refundGlobal.Sound l now :=
  { h with global := TokenBucket.refund_within h.global l.globalCapacity_nonneg }

theorem Sound.later (h : r.Sound l now) (ht : now ≤ t) : r.Sound l t :=
  { h with global := h.global.later ht, identity := fun x hx => (h.identity x hx).later ht }

/-- Every call keeps the limiter sound. -/
theorem answer_sound (h : r.Sound l now) (ht : now ≤ t) (c : Call) : (r.answer t c).1.Sound l t := by
  cases c with
  | checkGlobal => exact checkGlobal_sound h ht
  | checkIdentity identity => exact checkIdentity_sound h ht
  | refundGlobal => exact refundGlobal_sound (h.later ht)
  | allow identity =>
    show (r.allow t identity).1.Sound l t
    have hg := checkGlobal_sound h ht
    have hi : ((r.checkGlobal t).1.checkIdentity t identity).1.Sound l t := checkIdentity_sound hg le_rfl
    rcases allow_cases r t identity with ⟨-, heq⟩ | ⟨-, ⟨-, heq⟩ | ⟨-, heq⟩⟩ <;> rw [heq]
    · exact hg
    · exact hi
    · exact refundGlobal_sound hi

end RateLimiter

/-! ## What the global bucket pays for -/

/-- `check_global` returned true, or `allow` reached the identity check. -/
def Answer.takesGlobal : Answer → Bool
  | .checkGlobal ok => ok
  | .allow .identityRefused => true
  | .allow .admitted => true
  | _ => false

/-- A token was given back to the global bucket, by `refund_global` or inside `allow`. -/
def Answer.refundsGlobal : Answer → Bool
  | .refunded => true
  | .allow .identityRefused => true
  | _ => false

/-- The request passed both buckets. -/
def Answer.admits : Answer → Bool
  | .checkIdentity ok => ok
  | .allow .admitted => true
  | _ => false

def takes (h : List (Event × Answer)) : Nat := h.countP (·.2.takesGlobal)

def refunds (h : List (Event × Answer)) : Nat := h.countP (·.2.refundsGlobal)

def admitted (h : List (Event × Answer)) : Nat := h.countP (·.2.admits)

/-- As the callers use the split check: a request that passed its identity check or was refunded had passed
`check_global`, and each request does one of the two at most. -/
def Accounted (h : List (Event × Answer)) : Prop :=
  h.countP (fun x => x.2 = .checkIdentity true) + h.countP (fun x => x.2 = .refunded) ≤
    h.countP fun x => x.2 = .checkGlobal true

open TokenBucket in
/-- What a call takes from the global bucket, less what it gives back, comes off the level. -/
theorem answer_global {l : Limits} {r : RateLimiter} {now t : ℚ} (h : r.Sound l now) (ht : now ≤ t) (c : Call) :
    taken (r.answer t c).2.takesGlobal - taken (r.answer t c).2.refundsGlobal + (r.answer t c).1.global.level t ≤
      r.global.level t := by
  have htake := level_tryTake l.globalCapacity_nonneg l.globalRefill_nonneg h.global ht
  cases c with
  | checkGlobal =>
    show taken (r.global.tryTake t).2 - 0 + (r.global.tryTake t).1.level t ≤ r.global.level t
    linarith
  | checkIdentity identity =>
    show (0 : ℚ) - 0 + r.global.level t ≤ r.global.level t
    linarith
  | refundGlobal =>
    have hrefund := level_refund_le r.global t
    show (0 : ℚ) - 1 + r.global.refund.level t ≤ r.global.level t
    linarith
  | allow identity =>
    show taken (Answer.allow (r.allow t identity).2).takesGlobal - taken (Answer.allow (r.allow t identity).2).refundsGlobal +
      (r.allow t identity).1.global.level t ≤ r.global.level t
    have hleft : (r.checkGlobal t).1.global = (r.global.tryTake t).1 := rfl
    rcases r.allow_cases t identity with ⟨hok, heq⟩ | ⟨hok, ⟨-, heq⟩ | ⟨-, heq⟩⟩ <;> rw [heq] <;> rw [hok] at htake
    · show (0 : ℚ) - 0 + (r.checkGlobal t).1.global.level t ≤ r.global.level t
      rw [hleft]
      simp only [taken, Bool.false_eq_true, if_false] at htake
      linarith
    · show (1 : ℚ) - 0 + (r.checkGlobal t).1.global.level t ≤ r.global.level t
      rw [hleft]
      simp only [taken, if_true] at htake
      linarith
    · -- The token goes back into the bucket it was taken from at the same instant.
      have hrefund := level_refund_le (r.checkGlobal t).1.global t
      show (1 : ℚ) - 1 + (r.checkGlobal t).1.global.refund.level t ≤ r.global.level t
      rw [hleft] at hrefund ⊢
      simp only [taken, if_true] at htake
      linarith

theorem step_sound {l : Limits} {s s' : Clocked} {e : Event} {o : Answer} (h : s.limiter.Sound l s.clock)
    (hs : step s e = some (s', o)) : s'.limiter.Sound l s'.clock := by
  obtain ⟨hle, rfl, -⟩ := step_eq hs
  exact RateLimiter.answer_sound h hle e.call

theorem run_sound {l : Limits} {t₀ : ℚ} {h : List (Event × Answer)} {s : Clocked} (hr : LimiterRun l t₀ h s) :
    s.limiter.Sound l s.clock :=
  hr.inv (fun s => s.limiter.Sound l s.clock) (RateLimiter.new_sound l t₀) fun _ _ _ _ hs _ ht => step_sound hs ht

/-- The global bucket meters every run. -/
theorem global_metered (l : Limits) (ok : Clocked → Event → Prop) :
    Bucket.Metered step ok (fun _ s => s.limiter.Sound l s.clock) Clocked.clock Event.now
      (fun s t => s.limiter.global.level t) l.globalCapacity l.globalRefillPerSecond
      fun x => TokenBucket.taken x.2.takesGlobal - TokenBucket.taken x.2.refundsGlobal where
  rate_nonneg := l.globalRefill_nonneg
  clocked s e s' o hs := by
    obtain ⟨hle, rfl, -⟩ := step_eq hs
    exact ⟨hle, rfl⟩
  preserved _ s e s' o h _ hs := step_sound h hs
  nonneg _ s t h ht := h.global.level_nonneg l.globalCapacity_nonneg l.globalRefill_nonneg ht
  le_cap _ s t h := h.global.level_le
  grows _ s t d h hd := h.global.level_add_le l.globalRefill_nonneg hd
  pays _ s e s' o h _ hs := by
    obtain ⟨hle, rfl, rfl⟩ := step_eq hs
    exact answer_global h hle e.call

/-- Every event lies between the start of a run and its clock. -/
theorem event_times {l : Limits} {t₀ : ℚ} {ok : Clocked → Event → Prop} {h : List (Event × Answer)} {s : Clocked}
    (hr : Run step ok ⟨t₀, .new l t₀⟩ h s) : t₀ ≤ s.clock ∧ ∀ x ∈ h, t₀ ≤ x.1.now ∧ x.1.now ≤ s.clock := by
  induction hr with
  | nil => exact ⟨le_rfl, by simp⟩
  | snoc _ _ hs ih =>
    obtain ⟨hle, rfl, -⟩ := step_eq hs
    refine ⟨ih.1.trans hle, ?_⟩
    intro x hx
    rcases List.mem_append.1 hx with hx | hx
    · exact ⟨(ih.2 x hx).1, (ih.2 x hx).2.trans hle⟩
    · rw [List.mem_singleton.1 hx]
      exact ⟨ih.1.trans hle, le_rfl⟩

theorem sum_taken (p : Event × Answer → Bool) (h : List (Event × Answer)) :
    (h.map fun x => TokenBucket.taken (p x)).sum = (h.countP p : ℚ) := by
  induction h with
  | nil => rfl
  | cons x h ih =>
    rw [List.map_cons, List.sum_cons, ih, List.countP_cons]
    cases p x <;> simp [TokenBucket.taken, add_comm]

theorem sum_cost (h : List (Event × Answer)) :
    (h.map fun x => TokenBucket.taken x.2.takesGlobal - TokenBucket.taken x.2.refundsGlobal).sum =
      (takes h : ℚ) - refunds h := by
  rw [takes, refunds, ← sum_taken, ← sum_taken]
  induction h with
  | nil => simp
  | cons x h ih =>
    simp only [List.map_cons, List.sum_cons, ih]
    ring

/-- In a window of `d` seconds the global bucket gives out no more than its capacity and what flows in. -/
theorem window_le {l : Limits} {ok : Clocked → Event → Prop} {s s' : Clocked} {h : List (Event × Answer)}
    (hs : s.limiter.Sound l s.clock) (hr : Run step ok s h s') (a : ℚ) {d : ℚ} (hd : 0 ≤ d) :
    (takes (Bucket.window Event.now a (a + d) h) : ℚ) - refunds (Bucket.window Event.now a (a + d) h) ≤
      l.globalCapacity + d * l.globalRefillPerSecond := by
  have hab : a ≤ a + d := le_add_of_nonneg_right hd
  have hcost := (global_metered l ok).window_le hs hr hab
  rwa [sum_cost, add_sub_cancel_left] at hcost

instance (h : List (Event × Answer)) : Decidable (Accounted h) := by unfold Accounted; infer_instance

/-- Every answer that admits or refunds is one that takes, or settles a request of the split check. -/
theorem Answer.settles (o : Answer) :
    (if o.admits then 1 else 0) + (if o.refundsGlobal then 1 else 0) + (if o = .checkGlobal true then 1 else 0) =
      (if o.takesGlobal then 1 else 0) + (if o = .checkIdentity true then 1 else 0) + if o = .refunded then 1 else 0 := by
  rcases o with (_ | _) | (_ | _) | _ | (_ | _ | _) <;> rfl

theorem accounted_admitted {h : List (Event × Answer)} (ha : Accounted h) : admitted h + refunds h ≤ takes h := by
  have hcount : admitted h + refunds h + h.countP (fun x => x.2 = .checkGlobal true) =
      takes h + h.countP (fun x => x.2 = .checkIdentity true) + h.countP (fun x => x.2 = .refunded) := by
    clear ha
    unfold admitted refunds takes
    induction h with
    | nil => rfl
    | cons x h ih =>
      have hx := x.2.settles
      simp only [List.countP_cons, decide_eq_true_eq]
      omega
  unfold Accounted at ha
  omega

theorem admitted_le {l : Limits} {t₀ : ℚ} {h : List (Event × Answer)} {s : Clocked} (hr : LimiterRun l t₀ h s)
    (ha : Accounted h) : (admitted h : ℚ) ≤ l.globalCapacity + (s.clock - t₀) * l.globalRefillPerSecond := by
  obtain ⟨hclock, htimes⟩ := event_times hr
  have hwindow := window_le (RateLimiter.new_sound l t₀) hr t₀ (sub_nonneg.2 hclock)
  rw [Bucket.window_eq_self (by simpa using htimes)] at hwindow
  have hadmitted : (admitted h : ℚ) + refunds h ≤ takes h := by exact_mod_cast accounted_admitted ha
  linarith

/-- The tokens of a bucket are within its bounds. -/
def TokenBucket.Bounded (b : TokenBucket) : Prop := 0 ≤ b.tokens ∧ b.tokens ≤ b.capacity

theorem TokenBucket.Within.bounded {capacity rate now : ℚ} {b : TokenBucket} (h : b.Within capacity rate now) :
    b.Bounded :=
  ⟨h.nonneg, h.capacity_eq ▸ h.le⟩

/-- In every run: no segment of `d` seconds takes more tokens than the capacity and what flows in, refunds set off; no
bucket holds less than nothing or more than its capacity; and no more requests are admitted than the capacity and what
has flowed in since the start, whatever identities they use. -/
theorem admissions_bounded {l : Limits} {t₀ : ℚ} {h : List (Event × Answer)} {s : Clocked} (hr : LimiterRun l t₀ h s) :
    (∀ pre seg post a d, h = pre ++ seg ++ post → 0 ≤ d → (∀ x ∈ seg, a ≤ x.1.now ∧ x.1.now ≤ a + d) →
      (takes seg : ℚ) - refunds seg ≤ l.globalCapacity + d * l.globalRefillPerSecond) ∧
    s.limiter.global.Bounded ∧ (∀ identity b, s.limiter.buckets.get? identity = some b → b.Bounded) ∧
    (Accounted h → (admitted h : ℚ) ≤ l.globalCapacity + (s.clock - t₀) * l.globalRefillPerSecond) := by
  have hsound := run_sound hr
  refine ⟨?_, hsound.global.bounded, ?_, ?_⟩
  · intro pre seg post a d hseg hd ht
    subst hseg
    obtain ⟨s₂, hpre, -⟩ := hr.split
    obtain ⟨s₁, hstart, hrun⟩ := hpre.split
    have hwindow := window_le (run_sound hstart) hrun a hd
    rwa [Bucket.window_eq_self ht] at hwindow
  · intro identity b hb
    exact (hsound.identity _ (OrderedDict.get?_eq_some.1 hb)).bounded
  · exact admitted_le hr

/-- A burst of two, and one request a minute for each identity. -/
def burst : Limits := .perMinute 2 1 6 zero_le_two zero_le_one

/-- Two identities use the burst up; a refused one gives its token back. -/
theorem admissions_bounded_burst : ∃ h s, LimiterRun burst 0 h s ∧ Accounted h ∧ admitted h = 2 ∧
    (admitted h : ℚ) ≤ burst.globalCapacity + (s.clock - 0) * burst.globalRefillPerSecond := by
  obtain ⟨h, s, hr, hp⟩ := exists_any_run step (fun _ h => decide (Accounted h ∧ admitted h = 2)) ⟨0, .new burst 0⟩
    [⟨0, .allow (lit "a")⟩, ⟨0, .allow (lit "a")⟩, ⟨1, .checkGlobal⟩, ⟨1, .checkIdentity (lit "b")⟩, ⟨2, .checkGlobal⟩]
    (by decide +kernel)
  obtain ⟨ha, hn⟩ := of_decide_eq_true hp
  exact ⟨h, s, hr, ha, hn, (admissions_bounded hr).2.2.2 ha⟩

/-! ## Requests that share a limiter

A handler asks `check_global` first, and a request that passed it goes on to
`check_identity` or gives its token back, whatever the other threads do. -/

inductive FrontCall where
  | checkGlobal (request : Nat)
  | checkIdentity (request : Nat) (identity : Str)
  | refundGlobal (request : Nat)
  | allow (identity : Str)

/-- The limiter, and the requests that hold a global token and are neither admitted nor refunded. -/
structure Front where
  server : Clocked
  holding : List Nat

def FrontCall.call : FrontCall → Call
  | .checkGlobal _ => .checkGlobal
  | .checkIdentity _ identity => .checkIdentity identity
  | .refundGlobal _ => .refundGlobal
  | .allow identity => .allow identity

/-- Only a request that holds a token checks its identity or gives the token back. -/
def FrontCall.allowed (holding : List Nat) : FrontCall → Bool
  | .checkIdentity k _ => holding.contains k
  | .refundGlobal k => holding.contains k
  | _ => true

def FrontCall.settle (holding : List Nat) : FrontCall → Answer → List Nat
  | .checkGlobal k, .checkGlobal true => k :: holding
  | .checkIdentity k _, .checkIdentity true => holding.erase k
  | .refundGlobal k, _ => holding.erase k
  | _, _ => holding

def frontStep : System Front (ℚ × FrontCall) Answer := fun s e =>
  if e.2.allowed s.holding then
    (step s.server ⟨e.1, e.2.call⟩).map fun r => (⟨r.1, e.2.settle s.holding r.2⟩, r.2)
  else none

/-- The calls the limiter sees. -/
def calls (h : List ((ℚ × FrontCall) × Answer)) : List (Event × Answer) := h.map fun x => (⟨x.1.1, x.1.2.call⟩, x.2)

/-- A call settles a request that holds a token, or gives one to a request. -/
theorem settle_length (r : RateLimiter) (now : ℚ) {holding : List Nat} {c : FrontCall} (hc : c.allowed holding = true) :
    (c.settle holding (r.answer now c.call).2).length + (if (r.answer now c.call).2 = .checkIdentity true then 1 else 0) +
        (if (r.answer now c.call).2 = .refunded then 1 else 0) =
      holding.length + if (r.answer now c.call).2 = .checkGlobal true then 1 else 0 := by
  have herase : ∀ k, holding.contains k = true → (holding.erase k).length + 1 = holding.length := by
    intro k hk
    have hmem : k ∈ holding := by simpa using hk
    have := List.length_erase_of_mem hmem
    have := List.length_pos_of_mem hmem
    omega
  cases c with
  | checkGlobal k =>
    show (FrontCall.settle holding (.checkGlobal k) (.checkGlobal (r.checkGlobal now).2)).length + _ + _ = _
    cases hok : (r.checkGlobal now).2 <;> simp [FrontCall.settle, FrontCall.call, RateLimiter.answer, hok]
  | checkIdentity k identity =>
    have := herase k hc
    show (FrontCall.settle holding (.checkIdentity k identity) (.checkIdentity (r.checkIdentity now identity).2)).length +
      _ + _ = _
    cases hok : (r.checkIdentity now identity).2 <;> simp [FrontCall.settle, FrontCall.call, RateLimiter.answer, hok]
    omega
  | refundGlobal k =>
    have := herase k hc
    simpa [FrontCall.settle, FrontCall.call, RateLimiter.answer] using this
  | allow identity => simp [FrontCall.settle, FrontCall.call, RateLimiter.answer]

/-- Requests that share a limiter make a run of it that accounts for every token. -/
theorem front_accounted {l : Limits} {t₀ : ℚ} {h : List ((ℚ × FrontCall) × Answer)} {s : Front}
    (hr : Run frontStep Any ⟨⟨t₀, .new l t₀⟩, []⟩ h s) : LimiterRun l t₀ (calls h) s.server ∧ Accounted (calls h) := by
  have hcount : LimiterRun l t₀ (calls h) s.server ∧
      (calls h).countP (fun x => x.2 = .checkIdentity true) + (calls h).countP (fun x => x.2 = .refunded) +
        s.holding.length = (calls h).countP fun x => x.2 = .checkGlobal true := by
    induction hr with
    | nil => exact ⟨.nil, rfl⟩
    | @snoc h s e o s' _ _ hstep ih =>
      obtain ⟨hrun, hcount⟩ := ih
      unfold frontStep at hstep
      split at hstep
      · rename_i hallowed
        obtain ⟨r, hserver, hr⟩ := Option.map_eq_some_iff.1 hstep
        simp only [Prod.mk.injEq] at hr
        obtain ⟨rfl, rfl⟩ := hr
        obtain ⟨-, -, ho⟩ := step_eq hserver
        have hlength := settle_length s.server.limiter e.1 hallowed
        rw [calls, List.map_append]
        refine ⟨hrun.snoc trivial hserver, ?_⟩
        rw [← ho] at hlength
        simp only [List.countP_append, List.map_singleton, List.countP_singleton, decide_eq_true_eq]
        unfold calls at hcount
        omega
      · cases hstep
  exact ⟨hcount.1, by unfold Accounted; omega⟩

/-- Requests of any number of identities are admitted at the rate of the global bucket at most. -/
theorem requests_bounded {l : Limits} {t₀ : ℚ} {h : List ((ℚ × FrontCall) × Answer)} {s : Front}
    (hr : Run frontStep Any ⟨⟨t₀, .new l t₀⟩, []⟩ h s) :
    (admitted (calls h) : ℚ) ≤ l.globalCapacity + (s.server.clock - t₀) * l.globalRefillPerSecond := by
  obtain ⟨hrun, ha⟩ := front_accounted hr
  exact admitted_le hrun ha

end AetherNode.RateLimit
