import AetherNode.Expiry
import AetherNode.Lib.Utf8
/-!
# Server timestamps

The relay writes its own clock with `isoformat()` and compares the texts in
SQL, byte by byte. Such a text comes in two lengths, with and without a
fraction, and the bytes still compare as the moments do.
-/
open AetherNode.Lib AetherNode.Lib.Json

namespace AetherNode.Timestamps

open Datetime

/-- `isoformat()` texts compare byte by byte as the moments they name. -/
theorem bytes_le_iff_le (a b : Datetime) : a ≤ b ↔ encode a.isoformat ≤ encode b.isoformat := by
  rw [encode_le_encode_iff, isoformat_le_iff]

/-- A text with a fraction has seven characters more. -/
theorem length_isoformat (t : Datetime) : t.isoformat.length = if t.microsecond = 0 then 25 else 32 := by
  have hlits : (lit "-").length = 1 ∧ (lit "T").length = 1 ∧ (lit ":").length = 1 ∧ (lit ".").length = 1 ∧
      (lit "+00:00").length = 6 := by decide
  simp only [isoformat, dateText, timeText, fractionText, List.length_append, pad_length, hlits]
  split
  · rfl
  · rw [List.length_append, pad_length, hlits.2.2.2.1]

/-! ## The comparisons of the relay -/

variable {env : Env} {db : Db} {now cutoffNow cutoff t : Datetime}

/-- `requested_at <= cutoff`: a sweep takes the tombstones requested by the cutoff. -/
theorem tombstone_swept_iff {sig : Str} {r : DeletionRequest} (hr : db.request sig = some r)
    (hat : r.requestedAt = t.isoformat) (hcutoff : cutoffNow.addSeconds (-env.maxTtlSeconds) = some cutoff) :
    (runOnce env now cutoffNow db).1.request sig = none ↔ t ≤ cutoff := by
  rcases runOnce_cases (Prod.mk.eta.symm : runOnce env now cutoffNow db = _) with ⟨hnone, -⟩ | ⟨c, hc, -, hq⟩
  · rw [hcutoff] at hnone
    cases hnone
  · rw [hcutoff] at hc
    cases hc
    rw [hq, hr, Option.filter_eq_none_iff]
    simp [hat, isoformat_le_iff]

/-- `expires_at > now`: `/fetch` serves an honest client's message until the moment it expires. -/
theorem message_served_iff {sig : Str} {m : Message} (hm : db.message sig = some m) (hat : m.expiresAt = t.isoformat) :
    m ∈ Expiry.fetchRows [m.recipientId] now db ↔ now < t := by
  rw [Expiry.mem_fetchRows hm, hat, isoformat_lt_iff]
  simp

/-- `expires_at <= now`: a sweep takes it from that moment on. -/
theorem message_swept_iff {sig : Str} {m : Message} {db' : Db} (hm : db.message sig = some m)
    (hat : m.expiresAt = t.isoformat) (hsweep : runOnce env now cutoffNow db = (db', .ok ())) :
    db'.message sig = none ↔ t ≤ now := by
  rw [Expiry.swept_iff hsweep hm, hat, isoformat_le_iff]

end AetherNode.Timestamps
