import AetherNode.Eviction
import Mathlib.Data.List.Dedup
/-!
# Calls refused by identity

A call that the bucket of its identity refuses takes a global token and gives
it back at the same instant, and reads one bucket of the pool. While the pool
has room for every identity, nothing of it can be seen afterwards: what each
bucket will hold at any later instant is what it would hold without the call,
so the calls that stay are answered alike in a run that leaves it out.
-/
open AetherNode.Lib

namespace AetherNode.RateLimit

/-! ## Levels -/

namespace TokenBucket

variable {capacity rate now now' t u : ℚ} {b b' : TokenBucket}

/-- A level is read off an earlier one. -/
theorem level_later (hr : 0 ≤ b.refillPerSecond) (hu : t ≤ u) :
    b.level u = Bucket.level b.capacity b.refillPerSecond (b.level t) (u - t) := by
  rw [level, level, Bucket.level_level hr (sub_nonneg.2 hu)]
  congr 1
  ring

/-- After a take the bucket holds what is left of the level, and what flows in. -/
theorem level_after_take (b : TokenBucket) (t u : ℚ) :
    (b.tryTake t).1.level u =
      Bucket.level b.capacity b.refillPerSecond (b.level t - taken (b.tryTake t).2) (u - t) := by
  rcases b.tryTake_cases t with ⟨-, heq⟩ | ⟨-, heq⟩ <;> rw [heq]
  · rfl
  · simp [taken, level]

/-- A take that fails leaves no trace. -/
theorem level_refused (hr : 0 ≤ b.refillPerSecond) (hno : (b.tryTake t).2 = false) (hu : t ≤ u) :
    (b.tryTake t).1.level u = b.level u := by
  rw [level_after_take, hno, level_later hr hu, taken]
  simp

/-- Nor does a take that is given back at once. -/
theorem level_refunded (hr : 0 ≤ b.refillPerSecond) (hyes : (b.tryTake t).2 = true) (hu : t ≤ u) :
    (b.tryTake t).1.refund.level u = b.level u := by
  rcases b.tryTake_cases t with ⟨-, heq⟩ | ⟨-, heq⟩
  · have hback : b.level t - 1 + 1 = b.level t := by ring
    have hcap : b.level t ≤ b.capacity := Bucket.level_le_cap
    rw [heq, refund, level, level_later hr hu, hback, min_eq_right hcap]
  · rw [heq] at hyes
    cases hyes

/-- Buckets that hold the same answer alike, and hold the same afterwards. -/
theorem tryTake_congr (h : b.Within capacity rate now) (h' : b'.Within capacity rate now')
    (hlevel : b'.level t = b.level t) :
    (b'.tryTake t).2 = (b.tryTake t).2 ∧ ∀ u, (b'.tryTake t).1.level u = (b.tryTake t).1.level u := by
  have hok : (b'.tryTake t).2 = (b.tryTake t).2 := by
    rcases b.tryTake_cases t with ⟨hb, heq⟩ | ⟨hb, heq⟩ <;>
      rcases b'.tryTake_cases t with ⟨hb', heq'⟩ | ⟨hb', heq'⟩ <;> rw [heq, heq']
    · exact absurd hb (not_le.2 (hlevel ▸ hb'))
    · exact absurd hb' (not_le.2 (hlevel ▸ hb))
  refine ⟨hok, ?_⟩
  intro u
  rw [level_after_take, level_after_take, hok, hlevel, h.capacity_eq, h.rate_eq, h'.capacity_eq, h'.rate_eq]

end TokenBucket

/-! ## Limiters that cannot be told apart -/

section
variable {l : Limits} {ids : List Str} {now t u : ℚ} {r r' : RateLimiter} {identity i : Str}

/-- What a check of the identity would find at `t`. -/
def RateLimiter.identityLevel (r : RateLimiter) (t : ℚ) (identity : Str) : ℚ := (r.bucketAt t identity).level t

/-- The pool holds buckets of these identities only. -/
def RateLimiter.Knows (ids : List Str) (r : RateLimiter) : Prop := ∀ x ∈ r.buckets.items, x.1 ∈ ids

/-- Two limiters that hold the same from `now` on, in the global bucket and for every identity. -/
structure Alike (l : Limits) (ids : List Str) (now : ℚ) (r r' : RateLimiter) : Prop where
  sound : r.Sound l now
  sound' : r'.Sound l now
  knows : r.Knows ids
  knows' : r'.Knows ids
  global : ∀ t, now ≤ t → r'.global.level t = r.global.level t
  identity : ∀ t i, now ≤ t → r'.identityLevel t i = r.identityLevel t i

theorem Alike.later (h : Alike l ids now r r') (ht : now ≤ t) : Alike l ids t r r' where
  sound := h.sound.later ht
  sound' := h.sound'.later ht
  knows := h.knows
  knows' := h.knows'
  global u hu := h.global u (ht.trans hu)
  identity u i hu := h.identity u i (ht.trans hu)

/-- A pool with room for every identity drops none. -/
theorem knows_not_evicts (hs : r.Sound l now) (hknows : r.Knows ids) (hroom : (ids.length : Int) ≤ l.maxIdentities)
    (hi : identity ∈ ids) : ¬ r.Evicts identity := by
  rintro ⟨hnew, hfull⟩
  have hnodup := OrderedDict.nodup_cons hnew
  have hsub : identity :: r.buckets.items.map Prod.fst ⊆ ids := by
    intro j hj
    rcases List.mem_cons.1 hj with rfl | hj
    · exact hi
    · obtain ⟨x, hx, rfl⟩ := List.mem_map.1 hj
      exact hknows x hx
  have hlength := (List.subperm_of_subset hnodup hsub).length_le
  rw [List.length_cons, List.length_map] at hlength
  rw [hs.maxIdentities_eq, OrderedDict.length] at hfull
  omega

theorem RateLimiter.Knows.putLast (h : r.Knows ids) (hi : identity ∈ ids) {b : TokenBucket} :
    RateLimiter.Knows ids { r with buckets := r.buckets.putLast identity b } := by
  intro x hx
  rcases List.mem_append.1 hx with hx | hx
  · exact h x (List.mem_filter.1 hx).1
  · rw [List.mem_singleton.1 hx]
    exact hi

/-- A call that the global bucket lets through, in a pool with room. -/
theorem allow_reached (hroom : ¬ r.Evicts identity) (hok : (r.global.tryTake t).2 = true) :
    r.allow t identity =
      (if ((r.bucketAt t identity).tryTake t).2 then
        ({ r with global := (r.global.tryTake t).1,
                  buckets := r.buckets.putLast identity ((r.bucketAt t identity).tryTake t).1 }, .admitted)
      else
        ({ r with global := (r.global.tryTake t).1.refund,
                  buckets := r.buckets.putLast identity ((r.bucketAt t identity).tryTake t).1 }, .identityRefused)) := by
  obtain ⟨htake, hpool⟩ := (r.checkGlobal t).1.checkIdentity_cases t identity
  have hbucket : (r.checkGlobal t).1.bucketAt t identity = r.bucketAt t identity := rfl
  have hpool : ((r.checkGlobal t).1.checkIdentity t identity).1 =
      { r with global := (r.global.tryTake t).1,
               buckets := r.buckets.putLast identity ((r.bucketAt t identity).tryTake t).1 } := by
    rcases hpool with ⟨-, hpool⟩ | ⟨hevicts, -⟩
    · exact hpool
    · exact absurd hevicts hroom
  rw [hbucket] at htake
  rcases r.allow_cases t identity with ⟨hno, -⟩ | ⟨-, ⟨hyes, heq⟩ | ⟨hno, heq⟩⟩
  · rw [hok] at hno
    cases hno
  · rw [heq, hpool, if_pos (htake ▸ hyes)]
  · rw [heq, hpool, if_neg (by rw [← htake, hno]; exact Bool.false_ne_true)]
    rfl

theorem identityLevel_putLast (r : RateLimiter) (g b : TokenBucket) (identity i : Str) (u : ℚ) :
    RateLimiter.identityLevel { r with global := g, buckets := r.buckets.putLast identity b } u i =
      if i = identity then b.level u else r.identityLevel u i := by
  unfold RateLimiter.identityLevel RateLimiter.bucketAt
  simp only [OrderedDict.get?_putLast]
  split <;> rfl

/-- A bucket that is made at once or only later holds the same: it is full. -/
theorem level_bucketAt (hs : r.Sound l now) (hu : t ≤ u) : (r.bucketAt t i).level u = r.identityLevel u i := by
  unfold RateLimiter.identityLevel RateLimiter.bucketAt
  cases r.buckets.get? i with
  | some b => rfl
  | none =>
    have hflow : 0 ≤ (u - t) * r.perIdentityRefill := by
      rw [hs.perIdentityRefill_eq]
      exact mul_nonneg (sub_nonneg.2 hu) l.perIdentityRefill_nonneg
    rw [Option.getD_none, Option.getD_none, level_new]
    exact min_eq_left (le_add_of_nonneg_right hflow)

/-- A call refused by identity is not seen in any level. -/
theorem Alike.refused (h : Alike l ids t r r') (hroom : (ids.length : Int) ≤ l.maxIdentities) (hi : identity ∈ ids)
    (hno : (r.allow t identity).2 = .identityRefused) : Alike l ids t (r.allow t identity).1 r' := by
  have hsound : (r.allow t identity).1.Sound l t := RateLimiter.answer_sound h.sound le_rfl (.allow identity)
  have hglobal : 0 ≤ r.global.refillPerSecond := by
    rw [h.sound.global.rate_eq]
    exact l.globalRefill_nonneg
  have hrate : 0 ≤ (r.bucketAt t identity).refillPerSecond := by
    rw [(h.sound.bucketAt_within le_rfl).rate_eq]
    exact l.perIdentityRefill_nonneg
  have hok : (r.global.tryTake t).2 = true := by
    rcases r.allow_cases t identity with ⟨-, heq⟩ | ⟨hok, -⟩
    · rw [heq] at hno
      cases hno
    · exact hok
  have heq := allow_reached (knows_not_evicts h.sound h.knows hroom hi) hok
  split at heq <;> rename_i htake <;> rw [heq] at hno hsound ⊢
  · cases hno
  · refine ⟨hsound, h.sound', h.knows.putLast hi, h.knows', ?_, ?_⟩
    · intro u hu
      rw [h.global u hu]
      exact (TokenBucket.level_refunded hglobal hok hu).symm
    · intro u i hu
      rw [h.identity u i hu, identityLevel_putLast]
      split
      · rename_i hii
        rw [TokenBucket.level_refused hrate (Bool.eq_false_iff.2 htake) hu, level_bucketAt h.sound hu, hii]
      · rfl

/-- Any call is answered alike, and the limiters stay alike. -/
theorem Alike.allow (h : Alike l ids t r r') (hroom : (ids.length : Int) ≤ l.maxIdentities) (hi : identity ∈ ids) :
    (r'.allow t identity).2 = (r.allow t identity).2 ∧ Alike l ids t (r.allow t identity).1 (r'.allow t identity).1 := by
  have hsound : (r.allow t identity).1.Sound l t := RateLimiter.answer_sound h.sound le_rfl (.allow identity)
  have hsound' : (r'.allow t identity).1.Sound l t := RateLimiter.answer_sound h.sound' le_rfl (.allow identity)
  obtain ⟨hok, hglobal⟩ := TokenBucket.tryTake_congr h.sound.global h.sound'.global (h.global t le_rfl)
  obtain ⟨htake, hidentity⟩ := TokenBucket.tryTake_congr (h.sound.bucketAt_within (le_refl t))
    (h.sound'.bucketAt_within le_rfl) (h.identity t identity le_rfl)
  cases hg : (r.global.tryTake t).2 with
  | false =>
    have hrefused : ∀ q : RateLimiter, (q.global.tryTake t).2 = false →
        q.allow t identity = ((q.checkGlobal t).1, .globalRefused) := by
      intro q hq
      rcases q.allow_cases t identity with ⟨-, heq⟩ | ⟨hyes, -⟩
      · exact heq
      · rw [hq] at hyes
        cases hyes
    rw [hrefused r hg] at hsound ⊢
    rw [hrefused r' (hok.trans hg)] at hsound' ⊢
    exact ⟨rfl, hsound, hsound', h.knows, h.knows', fun u _ => hglobal u, fun u i hu => h.identity u i hu⟩
  | true =>
    have heq := allow_reached (knows_not_evicts h.sound h.knows hroom hi) hg
    have heq' := allow_reached (knows_not_evicts h.sound' h.knows' hroom hi) (hok.trans hg)
    have hlevels : ∀ g g' u i, t ≤ u →
        RateLimiter.identityLevel { r' with
          global := g', buckets := r'.buckets.putLast identity ((r'.bucketAt t identity).tryTake t).1 } u i =
        RateLimiter.identityLevel { r with
          global := g, buckets := r.buckets.putLast identity ((r.bucketAt t identity).tryTake t).1 } u i := by
      intro g g' u i hu
      rw [identityLevel_putLast, identityLevel_putLast, hidentity u, h.identity u i hu]
    rw [htake] at heq'
    split at heq <;> rename_i hadmit
    · rw [if_pos hadmit] at heq'
      rw [heq] at hsound ⊢
      rw [heq'] at hsound' ⊢
      exact ⟨rfl, hsound, hsound', h.knows.putLast hi, h.knows'.putLast hi, fun u _ => hglobal u, hlevels _ _⟩
    · rw [if_neg hadmit] at heq'
      rw [heq] at hsound ⊢
      rw [heq'] at hsound' ⊢
      refine ⟨rfl, hsound, hsound', h.knows.putLast hi, h.knows'.putLast hi, ?_, hlevels _ _⟩
      intro u hu
      have hrate := l.globalRefill_nonneg
      have hback := TokenBucket.level_refunded (h.sound.global.rate_eq ▸ hrate) hg hu
      have hback' := TokenBucket.level_refunded (h.sound'.global.rate_eq ▸ hrate) (hok.trans hg) hu
      exact hback'.trans ((h.global u hu).trans hback.symm)

end

/-! ## Runs without the refused calls -/

def Call.identity? : Call → Option Str
  | .checkIdentity identity => some identity
  | .allow identity => some identity
  | _ => none

/-- The identities a history's calls use, each once. -/
def identitiesOf (h : List (Event × Answer)) : List Str := (h.filterMap fun x => x.1.call.identity?).dedup

/-- The call was not refused by the bucket of its identity. -/
def stays (x : Event × Answer) : Bool := x.2 ≠ .allow .identityRefused

theorem new_alike (l : Limits) (t₀ : ℚ) (ids : List Str) : Alike l ids t₀ (.new l t₀) (.new l t₀) where
  sound := RateLimiter.new_sound l t₀
  sound' := RateLimiter.new_sound l t₀
  knows := by
    intro x hx
    cases hx
  knows' := by
    intro x hx
    cases hx
  global _ _ := rfl
  identity _ _ _ := rfl

section
variable {l : Limits} {t₀ : ℚ} {h : List (Event × Answer)} {s : Clocked}

/-- The run without the refused calls ends in a limiter that holds the same. -/
theorem stays_run (hr : AllowRun l t₀ h s) {ids : List Str} (hsub : identitiesOf h ⊆ ids)
    (hroom : (ids.length : Int) ≤ l.maxIdentities) :
    ∃ s', AllowRun l t₀ (h.filter stays) s' ∧ s'.clock ≤ s.clock ∧ Alike l ids s.clock s.limiter s'.limiter := by
  have hmem : ∀ pre e o post identity, h = pre ++ (e, o) :: post → e.call = .allow identity → identity ∈ ids := by
    intro pre e o post identity heq hcall
    apply hsub
    rw [identitiesOf, List.mem_dedup, List.mem_filterMap]
    exact ⟨(e, o), by simp [heq], by simp [hcall, Call.identity?]⟩
  obtain ⟨h', s', hrun, ⟨hclock, halike⟩, hview⟩ := hr.project AllowOnly
    (fun _ s s' => s'.clock ≤ s.clock ∧ Alike l ids s.clock s.limiter s'.limiter) stays id id
    ⟨le_rfl, new_alike l t₀ ids⟩
    (by
      rintro pre e o post s s₁ s' hh ⟨identity, hcall⟩ hstep ⟨hclock, halike⟩ -
      obtain ⟨hle, rfl, rfl⟩ := step_eq hstep
      have hi := hmem pre e _ post identity hh hcall
      obtain ⟨hanswer, hnext⟩ := (halike.later hle).allow hroom hi
      refine ⟨_, _, ⟨identity, hcall⟩, step_of_le (hclock.trans hle), ?_, ?_⟩
      · rw [hcall]
        exact congrArg Answer.allow hanswer
      · rw [hcall]
        exact ⟨le_rfl, hnext⟩)
    (by
      rintro pre e o post s s₁ s' hh ⟨identity, hcall⟩ hstep ⟨hclock, halike⟩ hgone
      obtain ⟨hle, rfl, rfl⟩ := step_eq hstep
      have hi := hmem pre e _ post identity hh hcall
      refine ⟨hclock.trans hle, ?_⟩
      rw [hcall] at hgone ⊢
      have hno : (s.limiter.allow e.now identity).2 = .identityRefused := by
        simpa [stays, RateLimiter.answer] using hgone
      exact (halike.later hle).refused hroom hi hno)
  simp only [id_eq, Prod.mk.eta, List.map_id_fun'] at hview
  exact ⟨s', hview ▸ hrun, hclock, halike⟩

/-- Leaving out every call that the bucket of its identity refused leaves every other call as it was, and what the
global bucket holds at every later instant. -/
theorem refusals_invisible (hr : AllowRun l t₀ h s) (hroom : ((identitiesOf h).length : Int) ≤ l.maxIdentities) :
    (∃ s', AllowRun l t₀ (h.filter stays) s') ∧ ∀ pre post, h = pre ++ post → ∃ s₁ s₂, AllowRun l t₀ pre s₁ ∧
      AllowRun l t₀ (pre.filter stays) s₂ ∧
      ∀ t, s₁.clock ≤ t → (s₂.limiter.global.refill t).tokens = (s₁.limiter.global.refill t).tokens := by
  constructor
  · obtain ⟨s', hrun, -⟩ := stays_run hr (List.Subset.refl _) hroom
    exact ⟨s', hrun⟩
  · rintro pre post rfl
    obtain ⟨s₁, hpre, -⟩ := hr.split
    have hsub : identitiesOf pre ⊆ identitiesOf (pre ++ post) := by
      intro identity hi
      rw [identitiesOf, List.mem_dedup] at hi ⊢
      rw [List.filterMap_append]
      exact List.mem_append_left _ hi
    obtain ⟨s₂, hrun, -, halike⟩ := stays_run hpre hsub hroom
    exact ⟨s₁, s₂, hpre, hrun, halike.global⟩

end

/-- A second call of one identity is refused, and the burst is left for another. -/
theorem refusals_invisible_burst : ∃ h s, AllowRun burst 0 h s ∧
    h.map (·.2) = [.allow .admitted, .allow .identityRefused, .allow .admitted] ∧
    ∃ s', AllowRun burst 0 (h.filter stays) s' := by
  obtain ⟨h, s, hr, hp⟩ := exists_run step (fun _ e => e.call.isAllow)
    (fun _ h => decide (h.map (·.2) = [.allow .admitted, .allow .identityRefused, .allow .admitted] ∧
      ((identitiesOf h).length : Int) ≤ burst.maxIdentities)) ⟨0, .new burst 0⟩
    [⟨0, .allow (lit "a")⟩, ⟨1, .allow (lit "a")⟩, ⟨1, .allow (lit "b")⟩] (by decide +kernel)
  have hrun : AllowRun burst 0 h s := hr.mono fun _ _ ho => allowOnly_of_isAllow ho
  obtain ⟨hanswers, hroom⟩ := of_decide_eq_true hp
  exact ⟨h, s, hrun, hanswers, (refusals_invisible hrun hroom).1⟩

end AetherNode.RateLimit
