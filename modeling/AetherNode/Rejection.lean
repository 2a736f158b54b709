import AetherNode.AntiEntropy
/-!
# What a pull gives up on

A pull moves its cursor past every item that does not validate. A payload
that is malformed, unsigned or about to expire stays invalid; but one that
expires too late for the puller becomes valid when time has passed, and the
pull has given up on it for good.
-/
open AetherNode.Lib AetherNode.Lib.Json AetherNode.Protocol

namespace AetherNode.Rejection

variable {env : Env} {t : Datetime} {p : Dict}

/-- Every check that does not look at the clock passes, and the payload expires at `e`. -/
structure Timeless (env : Env) (p : Dict) (e : Datetime) : Prop where
  complete : missingFields requiredFields p = []
  recipient : ∃ r, p.get (lit "recipient_id") = some (.str r) ∧ 0 < r.length ∧ r.length ≤ maxRecipientIdLen
  expiry : ∃ raw, p.get (lit "expires_at") = some (.str raw) ∧ fromisoformat raw = some ⟨e, some 0⟩
  verified : env.verifier.verify p (lit "sender_pubkey") = true

/-- The payload only expires too late at `t`: some later moment is early enough, if the bounds leave any. -/
def Premature (env : Env) (t : Datetime) (p : Dict) : Prop :=
  ∃ e, Timeless env p e ∧ (∃ latest, t.addSeconds env.maxTtlSeconds = some latest ∧ latest < e) ∧
    env.minTtlSeconds ≤ env.maxTtlSeconds ∧ (e.addSeconds (-env.maxTtlSeconds)).isSome = true

theorem validPublish_iff : ValidPublish env t p ↔ ∃ e, Timeless env p e ∧
    (∃ earliest, t.addSeconds env.minTtlSeconds = some earliest ∧ earliest ≤ e) ∧
      ∃ latest, t.addSeconds env.maxTtlSeconds = some latest ∧ e ≤ latest := by
  constructor
  · rintro ⟨hcomplete, hrecipient, ⟨raw, e, hraw, hparses, hearliest, hlatest⟩, hverified⟩
    exact ⟨e, ⟨hcomplete, hrecipient, ⟨raw, hraw, hparses⟩, hverified⟩, hearliest, hlatest⟩
  · rintro ⟨e, ⟨hcomplete, hrecipient, ⟨raw, hraw, hparses⟩, hverified⟩, hearliest, hlatest⟩
    exact ⟨hcomplete, hrecipient, ⟨raw, e, hraw, hparses, hearliest, hlatest⟩, hverified⟩

/-- The expiry is one moment. -/
theorem Timeless.unique {e e' : Datetime} (h : Timeless env p e) (h' : Timeless env p e') : e = e' := by
  obtain ⟨raw, hraw, hparses⟩ := h.expiry
  obtain ⟨raw', hraw', hparses'⟩ := h'.expiry
  rw [hraw] at hraw'
  cases hraw'
  rw [hparses] at hparses'
  cases hparses'
  rfl

/-- A payload that fails only at the clock expires too early or too late. -/
theorem Timeless.rejected {e : Datetime} (h : Timeless env p e) {error : Str}
    (hrejects : validatePublishPayload env t p = .ok (some error)) :
    ∃ earliest, t.addSeconds env.minTtlSeconds = some earliest ∧
      (e < earliest ∨ ∃ latest, t.addSeconds env.maxTtlSeconds = some latest ∧ latest < e) := by
  obtain ⟨r, hr, hlength⟩ := h.recipient
  obtain ⟨raw, hraw, hparses⟩ := h.expiry
  have hexpires : validateExpiresAt env t raw = .ok (some error) := by
    simp only [validatePublishPayload, h.complete, hr, hlength, hraw, h.verified] at hrejects
    cases hv : validateExpiresAt env t raw with
    | error e => simp [hv] at hrejects
    | ok result => cases result <;> simp_all
  simp only [validateExpiresAt, hparses] at hexpires
  cases hearliest : t.addSeconds env.minTtlSeconds with
  | none => simp [hearliest] at hexpires
  | some earliest =>
    refine ⟨earliest, rfl, ?_⟩
    by_cases hlow : e < earliest
    · exact .inl hlow
    · cases hlatest : t.addSeconds env.maxTtlSeconds with
      | none => simp [hearliest, hlow, hlatest] at hexpires
      | some latest =>
        refine .inr ⟨latest, rfl, ?_⟩
        by_contra hhigh
        simp [hearliest, hlow, hlatest, hhigh] at hexpires

/-- When `e` can be accepted at a later moment: it comes too late now, the bounds leave room, and the first moment it is
early enough for is a date. -/
theorem window_later {earliest e t' : Datetime} (hearliest : t.addSeconds env.minTtlSeconds = some earliest)
    (h : e < earliest ∨ ∃ latest, t.addSeconds env.maxTtlSeconds = some latest ∧ latest < e) (hle : t ≤ t')
    (hlow : ∃ u, t'.addSeconds env.minTtlSeconds = some u ∧ u ≤ e)
    (hhigh : ∃ u, t'.addSeconds env.maxTtlSeconds = some u ∧ e ≤ u) :
    (∃ latest, t.addSeconds env.maxTtlSeconds = some latest ∧ latest < e) ∧
      env.minTtlSeconds ≤ env.maxTtlSeconds ∧ (e.addSeconds (-env.maxTtlSeconds)).isSome = true := by
  obtain ⟨u, hu, hue⟩ := hlow
  obtain ⟨v, hv, hev⟩ := hhigh
  have hu := Datetime.addSeconds_eq_some.1 hu
  have hv := Datetime.addSeconds_eq_some.1 hv
  have hearliest := Datetime.addSeconds_eq_some.1 hearliest
  rw [Datetime.le_def] at hle hue hev
  rcases h with hbefore | ⟨latest, hlatest, hafter⟩
  · rw [Datetime.lt_def] at hbefore
    omega
  · refine ⟨⟨latest, hlatest, hafter⟩, by omega, ?_⟩
    -- It lies between `t` and `t'`.
    have hlatest := Datetime.addSeconds_eq_some.1 hlatest
    rw [Datetime.lt_def] at hafter
    have hmax := t'.toMicros_lt_max
    exact Datetime.addSeconds_isSome.2 ⟨by omega, by omega⟩

/-- What is rejected at `t` is never accepted afterwards, exactly when it is not merely premature. An exception at the
end of the calendar is no acceptance. -/
theorem rejected_for_good_iff {error : Str} (hrejects : validatePublishPayload env t p = .ok (some error)) :
    (∀ t', t ≤ t' → validatePublishPayload env t' p ≠ .ok none) ↔ ¬ Premature env t p := by
  constructor
  · rintro hgood ⟨e, htimeless, ⟨latest, hlatest, hafter⟩, hbounds, hdate⟩
    obtain ⟨t', ht'⟩ := Option.isSome_iff_exists.1 hdate
    obtain ⟨earliest, hearliest, -⟩ := htimeless.rejected hrejects
    have hlatest := Datetime.addSeconds_eq_some.1 hlatest
    have hearliest := Datetime.addSeconds_eq_some.1 hearliest
    have ht' := Datetime.addSeconds_eq_some.1 ht'
    rw [Datetime.lt_def] at hafter
    have hle : t ≤ t' := Datetime.le_def.2 (by omega)
    refine hgood t' hle (validatePublishPayload_none.2 (validPublish_iff.2 ⟨e, htimeless, ?_, ?_⟩))
    · -- The earliest expiry at `t'` is between the one at `t` and `e`.
      have hmax := e.toMicros_lt_max
      have hdate : (t'.addSeconds env.minTtlSeconds).isSome = true := Datetime.addSeconds_isSome.2 ⟨by omega, by omega⟩
      obtain ⟨u, hu⟩ := Option.isSome_iff_exists.1 hdate
      refine ⟨u, hu, ?_⟩
      have hu := Datetime.addSeconds_eq_some.1 hu
      rw [Datetime.le_def]
      omega
    · exact ⟨e, Datetime.addSeconds_eq_some.2 (by omega), le_refl e⟩
  · intro hnot t' hle haccepts
    obtain ⟨e, htimeless, hlow, hhigh⟩ := validPublish_iff.1 (validatePublishPayload_none.1 haccepts)
    obtain ⟨earliest, hearliest, hcase⟩ := htimeless.rejected hrejects
    exact hnot ⟨e, htimeless, window_later hearliest hcase hle hlow hhigh⟩

/-! ## A month and an hour -/

/-- The sample payload without its signature. -/
def unsigned : Dict := (Sample.payload (lit "c2ln")).filter fun kv => kv.1 ≠ lit "signature"

/-- A payload that misses its signature is rejected for good. -/
theorem rejected_for_good_unsigned :
    validatePublishPayload Sample.config Sample.noon unsigned = .ok (some (lit "Missing fields: signature")) ∧
      ∀ t', Sample.noon ≤ t' → validatePublishPayload Sample.config t' unsigned ≠ .ok none := by
  have hrejects : validatePublishPayload Sample.config Sample.noon unsigned =
      .ok (some (lit "Missing fields: signature")) := by decide
  refine ⟨hrejects, (rejected_for_good_iff hrejects).2 ?_⟩
  rintro ⟨e, htimeless, -⟩
  exact absurd htimeless.complete (by decide)

/-- Thirty days and an hour before the sample payload expires. -/
def tooEarly : Datetime := .ofFields 2025 12 4 11 0 0 0 (by decide)

/-- A relay that keeps messages for sixty days, and has accepted the payload. -/
def patient : Env := { Sample.config with maxTtlSeconds := 60 * 24 * 3600 }

def source : Db := (ingest patient .publish tooEarly true true (Sample.payload (lit "c2ln")) .empty).1

/-- The puller after a round at each of these moments. -/
def pulledAt (moments : List Datetime) : AntiEntropy.Puller :=
  AntiEntropy.pulls Sample.config source (moments.map AntiEntropy.Round.unlimited) ⟨.empty, 0, 0⟩

/-- The puller rejects the payload an hour too early and moves its cursor past it; when the payload has become valid,
the next round does not ask for it any more. -/
theorem gives_up_too_early : (∃ error, validatePublishPayload Sample.config tooEarly (Sample.payload (lit "c2ln")) =
      .ok (some error)) ∧ (source.message (lit "c2ln")).isSome = true ∧ (pulledAt [tooEarly]).lastSeenId = 1 ∧
    tooEarly ≤ Sample.noon ∧ validatePublishPayload Sample.config Sample.noon (Sample.payload (lit "c2ln")) = .ok none ∧
    (pulledAt [tooEarly, Sample.noon]).db.message (lit "c2ln") = none := by
  refine ⟨⟨lit "'expires_at' must not exceed 2592000s in the future", by decide +kernel⟩, by decide +kernel,
    by decide +kernel, by decide, by decide +kernel, by decide +kernel⟩

end AetherNode.Rejection
