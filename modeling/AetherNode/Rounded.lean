import AetherNode.Eviction
import AetherNode.Lib.Binary64
/-!
# The rate limiter in floating point

The limiter of the source with a rounding after every operation: with `id` it
is the limiter of exact arithmetic, with `Binary64.round` that of Python. A
call is off by no more than a `slip`, and the slips of a run add up: the
global bucket gives out its capacity, what flows in, and a slip for each call.
-/
open AetherNode.Lib AetherNode.Lib.Binary64

namespace AetherNode.RateLimit.Rounded

section
variable (fl : ℚ → ℚ)

/-- `_refill`. -/
def refill (b : TokenBucket) (now : ℚ) : TokenBucket :=
  let elapsed := fl (now - b.lastRefill)
  { b with lastRefill := now, tokens := min b.capacity (fl (b.tokens + fl (elapsed * b.refillPerSecond))) }

def tryTake (b : TokenBucket) (now : ℚ) : TokenBucket × Bool :=
  let b := refill fl b now
  if 1 ≤ b.tokens then ({ b with tokens := fl (b.tokens - 1) }, true) else (b, false)

def refund (b : TokenBucket) : TokenBucket := { b with tokens := min b.capacity (fl (b.tokens + 1)) }

/-- `per_minute`. -/
def perMinute (capacity : ℚ) : ℚ := fl (capacity / 60)

def checkGlobal (r : RateLimiter) (now : ℚ) : RateLimiter × Bool :=
  let (global, ok) := tryTake fl r.global now
  ({ r with global := global }, ok)

def checkIdentity (r : RateLimiter) (now : ℚ) (identity : Str) : RateLimiter × Bool :=
  let (bucket, buckets) := r.getOrCreateBucketLocked now identity
  let (bucket, ok) := tryTake fl bucket now
  ({ r with buckets := buckets.modify identity fun _ => bucket }, ok)

def refundGlobal (r : RateLimiter) : RateLimiter := { r with global := refund fl r.global }

def allow (r : RateLimiter) (now : ℚ) (identity : Str) : RateLimiter × Admission :=
  match checkGlobal fl r now with
  | (r, false) => (r, .globalRefused)
  | (r, true) =>
    match checkIdentity fl r now identity with
    | (r, true) => (r, .admitted)
    | (r, false) => (refundGlobal fl r, .identityRefused)

def answer (r : RateLimiter) (now : ℚ) : Call → RateLimiter × Answer
  | .checkGlobal =>
    let (r, ok) := checkGlobal fl r now
    (r, .checkGlobal ok)
  | .checkIdentity identity =>
    let (r, ok) := checkIdentity fl r now identity
    (r, .checkIdentity ok)
  | .refundGlobal => (refundGlobal fl r, .refunded)
  | .allow identity =>
    let (r, a) := allow fl r now identity
    (r, .allow a)

def step : System Clocked Event Answer := fun s e =>
  if s.clock ≤ e.now then
    let r := answer fl s.limiter e.now e.call
    some (⟨e.now, r.1⟩, r.2)
  else none

end

theorem checkGlobal_id (r : RateLimiter) (now : ℚ) : checkGlobal id r now = r.checkGlobal now := rfl

theorem checkIdentity_id (r : RateLimiter) (now : ℚ) (identity : Str) :
    checkIdentity id r now identity = r.checkIdentity now identity := rfl

theorem allow_id (r : RateLimiter) (now : ℚ) (identity : Str) : allow id r now identity = r.allow now identity := by
  unfold allow RateLimiter.allow
  rw [checkGlobal_id]
  rcases r.checkGlobal now with ⟨r, _ | _⟩
  · rfl
  · simp only [checkIdentity_id]
    rcases r.checkIdentity now identity with ⟨r, _ | _⟩ <;> rfl

theorem answer_id (r : RateLimiter) (now : ℚ) (c : Call) : answer id r now c = r.answer now c := by
  cases c with
  | checkGlobal => rfl
  | checkIdentity identity => rfl
  | refundGlobal => rfl
  | allow identity => simp only [answer, RateLimiter.answer, allow_id]

/-- Exact arithmetic is the case of no rounding. -/
theorem step_id : step id = RateLimit.step := by
  funext s e
  simp only [step, RateLimit.step, answer_id]

/-- The limits `main` builds from a pair of flags. -/
def limits {fl : ℚ → ℚ} {u : ℚ} (hfl : Accurate fl u) (global perIdentity : ℚ) (maxIdentities : Int) (hg : 0 ≤ global)
    (hi : 0 ≤ perIdentity) : Limits :=
  ⟨global, perMinute fl global, perIdentity, perMinute fl perIdentity, maxIdentities, hg,
    hfl.nonneg _ (RateLimit.perMinute_nonneg hg), hi, hfl.nonneg _ (RateLimit.perMinute_nonneg hi)⟩

/-- Three requests a minute, and a pool three times that size. -/
def three : Limits := limits round_accurate 3 3 9 (by norm_num) (by norm_num)

/-- The last double below sixty. -/
def almostMinute : ℚ := 60 - 1 / 2 ^ 47

/-- Three calls at zero empty the bucket. The product of the last double below sixty and of 3/60 is rounded up to three,
so three more are admitted before the minute is over. -/
theorem six_admitted : ∃ h s, Run (step Binary64.round) AllowOnly ⟨0, .new three 0⟩ h s ∧
    (∀ x ∈ h, Binary64.round x.1.now = x.1.now) ∧
    (3 + almostMinute * 3 / 60 : ℚ) < admissionsOf (lit "a") (Bucket.window Event.now 0 (0 + almostMinute) h) := by
  obtain ⟨h, s, hr, hp⟩ := exists_run (step Binary64.round) (fun _ e => e.call.isAllow)
    (fun _ h => h.all (fun x => Binary64.round x.1.now = x.1.now) ∧
      admissionsOf (lit "a") (Bucket.window Event.now 0 (0 + almostMinute) h) = 6) ⟨0, .new three 0⟩
    [⟨0, .allow (lit "a")⟩, ⟨0, .allow (lit "a")⟩, ⟨0, .allow (lit "a")⟩, ⟨almostMinute, .allow (lit "a")⟩,
      ⟨almostMinute, .allow (lit "a")⟩, ⟨almostMinute, .allow (lit "a")⟩] (by decide +kernel)
  obtain ⟨hdoubles, hsix⟩ := of_decide_eq_true hp
  refine ⟨h, s, hr.mono fun _ _ ho => allowOnly_of_isAllow ho, by simpa using hdoubles, ?_⟩
  rw [hsix]
  norm_num [almostMinute]

/-! ## How far off a call is -/

/-- What the roundings of one call may add to a bucket. -/
def slip (u capacity rate : ℚ) : ℚ := u * (7 * capacity + 2 * rate + 5)

/-- A bucket of this capacity and rate, last refilled by `now`. What `try_take` leaves may be a rounding above the
capacity. -/
structure Within (u capacity rate now : ℚ) (b : TokenBucket) : Prop where
  capacity_eq : b.capacity = capacity
  rate_eq : b.refillPerSecond = rate
  nonneg : 0 ≤ b.tokens
  le : b.tokens ≤ (1 + u) * capacity
  past : b.lastRefill ≤ now

section
variable {fl : ℚ → ℚ} {u capacity rate now t : ℚ} {b : TokenBucket}

theorem new_within (hu : 0 ≤ u) (hc : 0 ≤ capacity) : Within u capacity rate now (.new capacity rate now) :=
  ⟨rfl, rfl, hc, le_mul_of_one_le_left hc (by linarith), le_rfl⟩

theorem Within.later (h : Within u capacity rate now b) (ht : now ≤ t) : Within u capacity rate t b :=
  { h with past := h.past.trans ht }

theorem Within.level_nonneg (hc : 0 ≤ capacity) (hr : 0 ≤ rate) (h : Within u capacity rate now b) (ht : now ≤ t) :
    0 ≤ b.level t := by
  rw [TokenBucket.level, h.capacity_eq, h.rate_eq]
  exact Bucket.level_nonneg hc hr h.nonneg (sub_nonneg.2 (h.past.trans ht))

theorem Within.level_le (h : Within u capacity rate now b) : b.level t ≤ capacity := by
  rw [TokenBucket.level, h.capacity_eq]
  exact Bucket.level_le_cap

theorem Within.level_add_le (hr : 0 ≤ rate) (h : Within u capacity rate now b) {d : ℚ} (hd : 0 ≤ d) :
    b.level (t + d) ≤ b.level t + d * rate := by
  rw [TokenBucket.level, TokenBucket.level, h.capacity_eq, h.rate_eq, add_sub_right_comm]
  exact Bucket.level_add_le hr hd

/-- A refill gives no more than exact arithmetic does, up to its three roundings. -/
theorem refill_le (hfl : Accurate fl u) (hu : 0 ≤ u) (hsmall : u ≤ 1 / 8) (hr : 0 ≤ rate)
    (h : Within u capacity rate now b) (ht : now ≤ t) :
    (refill fl b t).tokens ≤ b.level t + u * (4 * capacity + 2 * rate + 3) := by
  have helapsed : 0 ≤ t - b.lastRefill := sub_nonneg.2 (h.past.trans ht)
  have herror := hfl.add_mul_error hu hsmall h.nonneg helapsed hr
  have hupper := (abs_le.1 herror).2
  have hc : 0 ≤ capacity := by
    have := h.nonneg.trans h.le
    nlinarith
  have hextra : 0 ≤ u * (4 * capacity + 2 * rate + 3) := mul_nonneg hu (by linarith)
  simp only [refill, TokenBucket.level, Bucket.level, h.capacity_eq, h.rate_eq]
  rcases le_total capacity (b.tokens + (t - b.lastRefill) * rate) with hfull | hroom
  · rw [min_eq_left hfull]
    linarith [min_le_left capacity (fl (b.tokens + fl (fl (t - b.lastRefill) * rate)))]
  · rw [min_eq_right hroom]
    have hscale := mul_le_mul_of_nonneg_left hroom hu
    linarith [min_le_right capacity (fl (b.tokens + fl (fl (t - b.lastRefill) * rate)))]

theorem refill_within (hfl : Accurate fl u) (hu : 0 ≤ u) (hr : 0 ≤ rate) (h : Within u capacity rate now b)
    (hc : 0 ≤ capacity) (ht : now ≤ t) : Within u capacity rate t (refill fl b t) where
  capacity_eq := h.capacity_eq
  rate_eq := h.rate_eq
  nonneg := by
    have hflow : 0 ≤ fl (t - b.lastRefill) * b.refillPerSecond :=
      mul_nonneg (hfl.nonneg _ (sub_nonneg.2 (h.past.trans ht))) (h.rate_eq ▸ hr)
    exact le_min (h.capacity_eq ▸ hc) (hfl.nonneg _ (add_nonneg h.nonneg (hfl.nonneg _ hflow)))
  le := by
    have hcap : (refill fl b t).tokens ≤ capacity := (min_le_left _ _).trans h.capacity_eq.le
    exact hcap.trans (le_mul_of_one_le_left hc (by linarith))
  past := le_rfl

/-- `try_take`: what is left is a token less, rounded, or the refilled bucket. -/
theorem tryTake_cases (fl : ℚ → ℚ) (b : TokenBucket) (t : ℚ) :
    (1 ≤ (refill fl b t).tokens ∧
        tryTake fl b t = ({ refill fl b t with tokens := fl ((refill fl b t).tokens - 1) }, true)) ∨
      ((refill fl b t).tokens < 1 ∧ tryTake fl b t = (refill fl b t, false)) := by
  by_cases h : 1 ≤ (refill fl b t).tokens
  · exact .inl ⟨h, if_pos h⟩
  · exact .inr ⟨not_le.1 h, if_neg h⟩

theorem tryTake_lastRefill (fl : ℚ → ℚ) (b : TokenBucket) (t : ℚ) : (tryTake fl b t).1.lastRefill = t := by
  rcases tryTake_cases fl b t with ⟨-, heq⟩ | ⟨-, heq⟩ <;> rw [heq] <;> rfl

theorem tryTake_within (hfl : Accurate fl u) (hu : 0 ≤ u) (hc : 0 ≤ capacity) (hr : 0 ≤ rate)
    (h : Within u capacity rate now b) (ht : now ≤ t) : Within u capacity rate t (tryTake fl b t).1 := by
  have hrefill := refill_within hfl hu hr h hc ht
  have hcap : (refill fl b t).tokens ≤ capacity := (min_le_left _ _).trans h.capacity_eq.le
  rcases tryTake_cases fl b t with ⟨hone, heq⟩ | ⟨-, heq⟩ <;> rw [heq]
  · have hleft := hfl.le (sub_nonneg.2 hone)
    have hscale := mul_le_mul_of_nonneg_left hcap hu
    exact { hrefill with nonneg := hfl.nonneg _ (sub_nonneg.2 hone), le := by dsimp only; linarith }
  · exact hrefill

/-- What a call takes and leaves is what was there, up to the roundings. -/
theorem level_tryTake (hfl : Accurate fl u) (hu : 0 ≤ u) (hsmall : u ≤ 1 / 8) (hc : 0 ≤ capacity) (hr : 0 ≤ rate)
    (h : Within u capacity rate now b) (ht : now ≤ t) :
    TokenBucket.taken (tryTake fl b t).2 + (tryTake fl b t).1.level t ≤
      b.level t + u * (5 * capacity + 2 * rate + 3) := by
  have hread : (tryTake fl b t).1.level t ≤ (tryTake fl b t).1.tokens := by
    rw [TokenBucket.level, tryTake_lastRefill, sub_self, Bucket.level, zero_mul, add_zero]
    exact min_le_right _ _
  have hrefill := refill_le hfl hu hsmall hr h ht
  have hcap : (refill fl b t).tokens ≤ capacity := (min_le_left _ _).trans h.capacity_eq.le
  have hscale := mul_le_mul_of_nonneg_left hcap hu
  rcases tryTake_cases fl b t with ⟨hone, heq⟩ | ⟨-, heq⟩ <;> rw [heq] at hread ⊢
  · have hleft := hfl.le (sub_nonneg.2 hone)
    simp only [TokenBucket.taken, if_true]
    linarith
  · simp only [TokenBucket.taken, Bool.false_eq_true, if_false]
    linarith [mul_nonneg hu hc]

/-- Putting a token back raises the level by one, up to a rounding. -/
theorem level_refund_le (hfl : Accurate fl u) (hu : 0 ≤ u) (hsmall : u ≤ 1 / 8) (hc : 0 ≤ capacity)
    (h : Within u capacity rate now b) : (refund fl b).level t ≤ b.level t + 1 + u * (2 * capacity + 2) := by
  have hback := hfl.le (add_nonneg h.nonneg zero_le_one)
  have hdouble : u * b.tokens ≤ u * (2 * capacity) := by
    have hle : (1 + u) * capacity ≤ 2 * capacity := mul_le_mul_of_nonneg_right (by linarith) hc
    exact mul_le_mul_of_nonneg_left (h.le.trans hle) hu
  have hextra : 0 ≤ u * (2 * capacity + 2) := mul_nonneg hu (by linarith)
  have hstored : (refund fl b).tokens ≤ b.tokens + 1 + u * (2 * capacity + 2) := (min_le_right _ _).trans (by linarith)
  simp only [TokenBucket.level, Bucket.level]
  show min b.capacity ((refund fl b).tokens + (t - b.lastRefill) * b.refillPerSecond) ≤ _
  rw [add_assoc, ← min_add_add_right]
  exact min_le_min (by linarith) (by linarith)

end

/-! ## What the global bucket pays for -/

/-- `allow`: what is left in the global bucket is what its check left, with the token given back when the check of the
identity fails. -/
theorem allow_global (fl : ℚ → ℚ) (r : RateLimiter) (now : ℚ) (identity : Str) :
    ((tryTake fl r.global now).2 = false ∧ (allow fl r now identity).2 = .globalRefused ∧
        (allow fl r now identity).1.global = (tryTake fl r.global now).1) ∨
      ((tryTake fl r.global now).2 = true ∧
        (((allow fl r now identity).2 = .admitted ∧ (allow fl r now identity).1.global = (tryTake fl r.global now).1) ∨
          ((allow fl r now identity).2 = .identityRefused ∧
            (allow fl r now identity).1.global = refund fl (tryTake fl r.global now).1))) := by
  have hleft : ∀ r' : RateLimiter, (checkIdentity fl r' now identity).1.global = r'.global := fun _ => rfl
  unfold allow
  cases hg : checkGlobal fl r now with
  | mk r' ok =>
    have hok : (tryTake fl r.global now).2 = ok := congrArg Prod.snd hg
    have hglobal : r'.global = (tryTake fl r.global now).1 := congrArg (fun x => x.1.global) hg.symm
    cases ok with
    | false => exact .inl ⟨hok, rfl, hglobal⟩
    | true =>
      refine .inr ⟨hok, ?_⟩
      cases hi : checkIdentity fl r' now identity with
      | mk r'' ok' =>
        have hsame : r''.global = r'.global := by rw [← hleft r', hi]
        cases ok' with
        | true => exact .inl ⟨by simp only [hi], by simp only [hi, hsame, hglobal]⟩
        | false => exact .inr ⟨by simp only [hi], by simp only [hi, refundGlobal, hsame, hglobal]⟩

section
variable {fl : ℚ → ℚ} {u : ℚ} {l : Limits} {r : RateLimiter} {now t : ℚ}

/-- The global bucket of a limiter built with `l`, as it can be at time `now`. -/
abbrev Global (u : ℚ) (l : Limits) (now : ℚ) (r : RateLimiter) : Prop :=
  Within u l.globalCapacity l.globalRefillPerSecond now r.global

theorem refund_within {capacity rate : ℚ} {b : TokenBucket} (hfl : Accurate fl u) (hu : 0 ≤ u) (hc : 0 ≤ capacity)
    (h : Within u capacity rate now b) : Within u capacity rate now (refund fl b) := by
  have hback : 0 ≤ fl (b.tokens + 1) := hfl.nonneg _ (add_nonneg h.nonneg zero_le_one)
  have hcap : (refund fl b).tokens ≤ capacity := (min_le_left _ _).trans h.capacity_eq.le
  exact { h with
    nonneg := le_min (h.capacity_eq ▸ hc) hback
    le := hcap.trans (le_mul_of_one_le_left hc (by linarith)) }

/-- Every call keeps the global bucket within its bounds. -/
theorem answer_within (hfl : Accurate fl u) (hu : 0 ≤ u) (h : Global u l now r) (ht : now ≤ t) (c : Call) :
    Global u l t (answer fl r t c).1 := by
  have htaken : Within u l.globalCapacity l.globalRefillPerSecond t (tryTake fl r.global t).1 :=
    tryTake_within hfl hu l.globalCapacity_nonneg l.globalRefill_nonneg h ht
  cases c with
  | checkGlobal => exact htaken
  | checkIdentity identity => exact h.later ht
  | refundGlobal => exact refund_within hfl hu l.globalCapacity_nonneg (h.later ht)
  | allow identity =>
    show Global u l t (allow fl r t identity).1
    unfold Global
    rcases allow_global fl r t identity with ⟨-, -, heq⟩ | ⟨-, ⟨-, heq⟩ | ⟨-, heq⟩⟩ <;> rw [heq]
    · exact htaken
    · exact htaken
    · exact refund_within hfl hu l.globalCapacity_nonneg htaken

open TokenBucket in
/-- What a call takes from the global bucket, less what it gives back, comes off the level, up to a slip. -/
theorem answer_global (hfl : Accurate fl u) (hu : 0 ≤ u) (hsmall : u ≤ 1 / 8) (h : Global u l now r) (ht : now ≤ t)
    (c : Call) :
    taken (answer fl r t c).2.takesGlobal - taken (answer fl r t c).2.refundsGlobal +
        (answer fl r t c).1.global.level t ≤
      r.global.level t + slip u l.globalCapacity l.globalRefillPerSecond := by
  have hc := l.globalCapacity_nonneg
  have hr := l.globalRefill_nonneg
  have htake := level_tryTake hfl hu hsmall hc hr h ht
  have hslip : slip u l.globalCapacity l.globalRefillPerSecond =
      u * (5 * l.globalCapacity + 2 * l.globalRefillPerSecond + 3) + u * (2 * l.globalCapacity + 2) := by
    unfold slip
    ring
  have hgive : 0 ≤ u * (5 * l.globalCapacity + 2 * l.globalRefillPerSecond + 3) := mul_nonneg hu (by linarith)
  have hback : 0 ≤ u * (2 * l.globalCapacity + 2) := mul_nonneg hu (by linarith)
  rw [hslip]
  cases c with
  | checkGlobal =>
    show taken (tryTake fl r.global t).2 - 0 + (tryTake fl r.global t).1.level t ≤ _
    linarith
  | checkIdentity identity =>
    show (0 : ℚ) - 0 + r.global.level t ≤ _
    linarith
  | refundGlobal =>
    have hrefund := level_refund_le (t := t) hfl hu hsmall hc h
    show (0 : ℚ) - 1 + (refund fl r.global).level t ≤ _
    linarith
  | allow identity =>
    show taken (Answer.allow (allow fl r t identity).2).takesGlobal -
        taken (Answer.allow (allow fl r t identity).2).refundsGlobal + (allow fl r t identity).1.global.level t ≤ _
    rcases allow_global fl r t identity with ⟨hok, ha, heq⟩ | ⟨hok, ⟨ha, heq⟩ | ⟨ha, heq⟩⟩ <;> rw [ha, heq] <;>
      rw [hok] at htake
    · show (0 : ℚ) - 0 + (tryTake fl r.global t).1.level t ≤ _
      simp only [taken, Bool.false_eq_true, if_false] at htake
      linarith
    · show (1 : ℚ) - 0 + (tryTake fl r.global t).1.level t ≤ _
      simp only [taken, if_true] at htake
      linarith
    · have htaken := tryTake_within hfl hu hc hr h ht
      have hrefund := level_refund_le (t := t) hfl hu hsmall hc htaken
      show (1 : ℚ) - 1 + (refund fl (tryTake fl r.global t).1).level t ≤ _
      simp only [taken, if_true] at htake
      linarith

theorem step_eq {s s' : Clocked} {e : Event} {o : Answer} (h : step fl s e = some (s', o)) :
    s.clock ≤ e.now ∧ s' = ⟨e.now, (answer fl s.limiter e.now e.call).1⟩ ∧ o = (answer fl s.limiter e.now e.call).2 := by
  unfold step at h
  split at h
  · rename_i hle
    simp only [Option.some.injEq, Prod.mk.injEq] at h
    exact ⟨hle, h.1.symm, h.2.symm⟩
  · cases h

/-- The global bucket meters every run, when each call may be off by a slip. -/
theorem global_metered (hfl : Accurate fl u) (hu : 0 ≤ u) (hsmall : u ≤ 1 / 8) (l : Limits)
    (ok : Clocked → Event → Prop) :
    Bucket.Metered (step fl) ok (fun _ s => Global u l s.clock s.limiter) Clocked.clock Event.now
      (fun s t => s.limiter.global.level t) l.globalCapacity l.globalRefillPerSecond
      fun x => TokenBucket.taken x.2.takesGlobal - TokenBucket.taken x.2.refundsGlobal -
        slip u l.globalCapacity l.globalRefillPerSecond where
  rate_nonneg := l.globalRefill_nonneg
  clocked s e s' o hs := by
    obtain ⟨hle, rfl, -⟩ := step_eq hs
    exact ⟨hle, rfl⟩
  preserved _ s e s' o h _ hs := by
    obtain ⟨hle, rfl, -⟩ := step_eq hs
    exact answer_within hfl hu h hle e.call
  nonneg _ s t h ht := h.level_nonneg l.globalCapacity_nonneg l.globalRefill_nonneg ht
  le_cap _ s t h := h.level_le
  grows _ s t d h hd := h.level_add_le l.globalRefill_nonneg hd
  pays _ s e s' o h _ hs := by
    obtain ⟨hle, rfl, rfl⟩ := step_eq hs
    have hcall := answer_global hfl hu hsmall h hle e.call
    linarith

theorem sum_cost (c : ℚ) (h : List (Event × Answer)) :
    (h.map fun x => TokenBucket.taken x.2.takesGlobal - TokenBucket.taken x.2.refundsGlobal - c).sum =
      (takes h : ℚ) - refunds h - h.length * c := by
  rw [← RateLimit.sum_cost]
  induction h with
  | nil => simp
  | cons x h ih =>
    simp only [List.map_cons, List.sum_cons, List.length_cons, ih]
    push_cast
    ring

/-- In a window of `d` seconds the global bucket gives out its capacity, what flows in, and a slip for each call. -/
theorem window_le (hfl : Accurate fl u) (hu : 0 ≤ u) (hsmall : u ≤ 1 / 8) {t₀ : ℚ} {ok : Clocked → Event → Prop}
    {s : Clocked} {h : List (Event × Answer)} (hr : Run (step fl) ok ⟨t₀, .new l t₀⟩ h s) (a : ℚ) {d : ℚ}
    (hd : 0 ≤ d) :
    (takes (Bucket.window Event.now a (a + d) h) : ℚ) - refunds (Bucket.window Event.now a (a + d) h) ≤
      l.globalCapacity + d * l.globalRefillPerSecond +
        (Bucket.window Event.now a (a + d) h).length * slip u l.globalCapacity l.globalRefillPerSecond := by
  have hnew : Global u l t₀ (.new l t₀) := new_within hu l.globalCapacity_nonneg
  have hab : a ≤ a + d := le_add_of_nonneg_right hd
  have hcost := (global_metered hfl hu hsmall l ok).window_le hnew hr hab
  rw [sum_cost, add_sub_cancel_left] at hcost
  linarith

end

/-- In double precision a call is off by less than a billionth of a token, for capacities and rates up to a million. -/
theorem binary64_window_le {l : Limits} (hcap : l.globalCapacity ≤ 10 ^ 6) (hrate : l.globalRefillPerSecond ≤ 10 ^ 6)
    {t₀ : ℚ} {ok : Clocked → Event → Prop} {s : Clocked} {h : List (Event × Answer)}
    (hr : Run (step Binary64.round) ok ⟨t₀, .new l t₀⟩ h s) (a : ℚ) {d : ℚ} (hd : 0 ≤ d) :
    (takes (Bucket.window Event.now a (a + d) h) : ℚ) - refunds (Bucket.window Event.now a (a + d) h) ≤
      l.globalCapacity + d * l.globalRefillPerSecond + (Bucket.window Event.now a (a + d) h).length / 10 ^ 9 := by
  have hslip : slip (1 / 2 ^ 53) l.globalCapacity l.globalRefillPerSecond ≤ 1 / 10 ^ 9 := by
    unfold slip
    linarith
  have hwindow := window_le round_accurate (by norm_num) (by norm_num) hr a hd
  have hcount : (0 : ℚ) ≤ (Bucket.window Event.now a (a + d) h).length := Nat.cast_nonneg _
  have hcalls := mul_le_mul_of_nonneg_left hslip hcount
  rw [mul_one_div] at hcalls
  linarith

end AetherNode.RateLimit.Rounded
