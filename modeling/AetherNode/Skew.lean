import AetherNode.Expiry
/-!
# Senders whose clock is off

A message is addressed by the day of its sender's clock, which may be a day
off in either direction. The candidate days go one day further back than the
retention needs, so a clock that is behind does no harm; but they end with
today, so the message of a clock that is ahead can be addressed to a day that
is not tried yet.
-/
open AetherNode.Lib AetherNode.Lib.Json AetherNode.Protocol

namespace AetherNode.Skew

open Expiry

variable {env : Env} {key : Bytes} {now s t : Datetime}

/-- A message of `key` addressed at the clock reading `s` is found at `now`: its day is among the days tried, so that a
fetch of the candidate ids lists it while it is unexpired, and its deletion by the key is confirmed. -/
structure Found (env : Env) (key : Bytes) (now s : Datetime) : Prop where
  tried : ∃ days, candidateDays now env.maxTtlSeconds = some days ∧ ∃ d ∈ days, dayBucket d = dayBucket s
  fetched : ∃ ids, candidateRecipientIds env.hmac now env.maxTtlSeconds key = some ids ∧
    ∀ (db : Db) sig m, db.message sig = some m → m.recipientId = blindRecipientId env.hmac key (dayBucket s) →
      now.isoformat < m.expiresAt → m ∈ fetchRows ids now db
  deleted : ∀ (db : Db) m p, db.message (p.text (lit "target_signature")) = some m → m.binds = true →
    m.recipientId = blindRecipientId env.hmac key (dayBucket s) → decodeField p (lit "recipient_pubkey") = some key →
      (handleDeleteRequest env now p db).2 = .ok .deleted

/-- All of it follows from the day. -/
theorem found_of_tried {days : List Datetime} (hdays : candidateDays now env.maxTtlSeconds = some days) {d : Datetime}
    (hd : d ∈ days) (hday : dayBucket d = dayBucket s) : Found env key now s := by
  have hids : candidateRecipientIds env.hmac now env.maxTtlSeconds key =
      some (days.map fun d => blindRecipientId env.hmac key (dayBucket d)) := by
    simp [candidateRecipientIds, hdays]
  have hmem : blindRecipientId env.hmac key (dayBucket s) ∈
      days.map fun d => blindRecipientId env.hmac key (dayBucket d) :=
    List.mem_map.2 ⟨d, hd, by rw [hday]⟩
  constructor
  · exact ⟨days, hdays, d, hd, hday⟩
  · refine ⟨_, hids, ?_⟩
    intro db sig m hm hrid hlive
    rw [mem_fetchRows hm, hrid]
    exact ⟨hmem, hlive⟩
  · intro db m p hm hbinds hrid hkey
    obtain ⟨k, hk, hder⟩ := decodeField_eq hkey
    have hown : Owns env now (p.text (lit "recipient_pubkey")) m.recipientId := by
      rw [Dict.text_eq hk, hrid]
      exact ⟨key, _, hder, hids, hmem⟩
    have hsignature : m.signature = p.text (lit "target_signature") := Table.lookup_key hm
    have hencodable : encodable (p.text (lit "target_signature")) = true := by
      simp only [Message.binds, Bool.and_eq_true] at hbinds
      rw [← hsignature]
      exact hbinds.1.2
    rw [handleDeleteRequest_owner hencodable hm hown]

/-- While a message lives, its sender's reading of at most a day off is within the lookback. -/
theorem lookback_covers (ht : t ≤ now) (hlive : (now.toMicros : Int) < t.toMicros + env.maxTtlSeconds * 1000000)
    (hskew : |(s.toMicros : Int) - t.toMicros| ≤ Datetime.dayMicros) :
    (now.toordinal : Int) ≤ s.toordinal + lookbackDays env.maxTtlSeconds := by
  have hle := Datetime.le_def.1 ht
  obtain ⟨hbehind, -⟩ := abs_le.1 hskew
  have hnow := now.toordinal_eq
  have hthen := s.toordinal_eq
  unfold Datetime.dayMicros at hnow hthen hbehind
  unfold lookbackDays
  omega

/-- An unexpired message whose sender's clock is at most a day off is found exactly when that clock has not come to a
day after today, and no day of the lookback is before year 1. -/
theorem skew_found_iff (key : Bytes) (hpos : 0 < env.maxTtlSeconds) (ht : t ≤ now)
    (hlive : (now.toMicros : Int) < t.toMicros + env.maxTtlSeconds * 1000000)
    (hskew : |(s.toMicros : Int) - t.toMicros| ≤ Datetime.dayMicros) :
    Found env key now s ↔
      s.toordinal ≤ now.toordinal ∧ lookbackDays env.maxTtlSeconds * Datetime.dayMicros ≤ now.toMicros := by
  constructor
  · rintro ⟨⟨days, hdays, d, hd, hday⟩, -, -⟩
    have hle := candidateDays_le hdays hd
    rw [toordinal_of_dayBucket hday] at hle
    refine ⟨hle, ?_⟩
    have hsome : (candidateDays now env.maxTtlSeconds).isSome = true := by simp [hdays]
    rcases candidateDays_isSome.1 hsome with hneg | hyear
    · unfold lookbackDays at hneg
      omega
    · exact hyear
  · rintro ⟨hday, hyear⟩
    obtain ⟨days, hdays⟩ := Option.isSome_iff_exists.1 (candidateDays_isSome.2 (.inr hyear))
    obtain ⟨d, hd, hbucket⟩ := mem_candidateDays hdays hday (lookback_covers ht hlive hskew)
    exact found_of_tried hdays hd hbucket

/-- A clock that is a day behind. -/
theorem skew_found_behind : Found Sample.config [104, 105] Sample.nextNoon Sample.noon := by
  have hpos : 0 < Sample.config.maxTtlSeconds := by decide
  have ht : Sample.nextNoon ≤ Sample.nextNoon := le_refl _
  exact (skew_found_iff (s := Sample.noon) [104, 105] hpos ht (by decide) (by decide)).2 ⟨by decide, by decide⟩

/-- Late in the evening of 2 January 2026. -/
def evening : Datetime := .ofFields 2026 1 2 23 0 0 0 (by decide)

/-- Two hours later. -/
def night : Datetime := .ofFields 2026 1 3 1 0 0 0 (by decide)

/-- A sender whose clock is two hours ahead addresses a message in the evening; it is not found that night, although
it has just been sent and lives for a month. -/
theorem skew_hides_message : evening.toMicros + 2 * 3600 * 1000000 = night.toMicros ∧
    (evening.toMicros : Int) < evening.toMicros + Sample.config.maxTtlSeconds * 1000000 ∧
    |(night.toMicros : Int) - evening.toMicros| ≤ Datetime.dayMicros ∧
    ¬ Found Sample.config [104, 105] evening night := by
  refine ⟨by decide, by decide, by decide, ?_⟩
  rintro ⟨⟨days, hdays, d, hd, hday⟩, -, -⟩
  have hle := candidateDays_le hdays hd
  rw [toordinal_of_dayBucket hday] at hle
  exact absurd hle (by decide)

end AetherNode.Skew
