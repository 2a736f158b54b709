import AetherNode.Datetime
import AetherNode.Lib.Base64
import AetherNode.Lib.Json
/-!
# Protocol constants and blind recipient ids

The sizes both programs derive their limits from, and the rotating recipient
address: an HMAC of the day under the recipient's public key. A relay accepts
the addresses of every day of its retention window plus one day of slack.
-/
open AetherNode.Lib AetherNode.Lib.Json

namespace AetherNode.Protocol

/-- The padded plaintext sizes. -/
def padBuckets : List Nat := [4 * 1024, 16 * 1024, 64 * 1024]

def largestCiphertextBytes : Nat := padBuckets.getLast (by decide) + 16

def largestCiphertextB64Bytes : Nat := 4 * ((largestCiphertextBytes + 2) / 3)

def jsonFieldOverheadBytes : Nat := 1320

def maxPublishBodyBytes : Nat := largestCiphertextB64Bytes + jsonFieldOverheadBytes

/-- `_MAX_BODY_BYTES` of the relay, which is `max_body_bytes` of its gossip side. -/
def maxBodyBytes : Nat := maxPublishBodyBytes + maxPublishBodyBytes / 2

/-- `day_bucket`: the UTC calendar day. `%Y` prints a year as it is, without padding. -/
def dayBucket (t : Datetime) : Str := natText t.year ++ lit "-" ++ pad 2 t.month ++ lit "-" ++ pad 2 t.day

/-- The text of a day tells the day. -/
theorem toordinal_of_dayBucket {a b : Datetime} (h : dayBucket a = dayBucket b) : a.toordinal = b.toordinal := by
  have hmonth : ∀ t : Datetime, t.month < 10 ^ 2 := fun t => by
    have := t.date_valid.2.2.1
    omega
  have hday : ∀ t : Datetime, t.day < 10 ^ 2 := fun t => by
    have := t.date_valid.2.2.2.2
    have := Calendar.daysInMonth_le t.year t.month
    omega
  simp only [dayBucket] at h
  obtain ⟨h, hd⟩ := List.append_inj' h (by simp)
  obtain ⟨h, -⟩ := List.append_inj' h rfl
  obtain ⟨h, hm⟩ := List.append_inj' h (by simp)
  obtain ⟨hy, -⟩ := List.append_inj' h rfl
  rw [Datetime.toordinal, Datetime.toordinal, natText_injective hy, pad_inj (hmonth a) (hmonth b) hm,
    pad_inj (hday a) (hday b) hd]

/-- HMAC-SHA256 in lower-case hex, a parameter of the model: the key, then the message. -/
structure Hmac where
  hexdigest : Bytes → Str → Str
  hex : ∀ k m, encodable (hexdigest k m) = true

/-- `blind_recipient_id`. -/
def blindRecipientId (hmac : Hmac) (pubkeyDer : Bytes) (day : Str) : Str := hmac.hexdigest pubkeyDer day

/-- `ceil(max_ttl / 86400)` and the one-day buffer. -/
def lookbackDays (maxTtlSeconds : Int) : Int := -(-maxTtlSeconds / 86400) + 1

/-- The days of `_candidate_recipient_ids`, today first; `none` when one is before year 1. -/
def candidateDays (now : Datetime) (maxTtlSeconds : Int) : Option (List Datetime) :=
  (List.range (lookbackDays maxTtlSeconds + 1).toNat).mapM fun offset => now.addSeconds (-86400 * offset)

/-- `_candidate_recipient_ids`; `none` is the OverflowError of the date arithmetic. -/
def candidateRecipientIds (hmac : Hmac) (now : Datetime) (maxTtlSeconds : Int) (pubkeyDer : Bytes) :
    Option (List Str) :=
  (candidateDays now maxTtlSeconds).map fun days => days.map fun d => blindRecipientId hmac pubkeyDer (dayBucket d)

/-- A list is mapped when every element is. -/
theorem mapM_eq_some {α β : Type} {f : α → Option β} {l : List α} {bs : List β} :
    l.mapM f = some bs ↔ l.map f = bs.map some := by
  induction l generalizing bs with
  | nil => cases bs <;> simp
  | cons a l ih =>
    rw [List.mapM_cons, List.map_cons]
    cases hf : f a with
    | none => cases bs <;> simp
    | some b =>
      cases hl : l.mapM f with
      | none =>
        have hne : ∀ bs : List β, l.map f ≠ bs.map some := fun bs heq => by simp [ih.2 heq] at hl
        cases bs <;> simp [hne]
      | some bs' =>
        have hinj : ∀ bs : List β, bs'.map some = bs.map some ↔ bs' = bs := fun bs =>
          (List.map_injective_iff.2 (Option.some_injective β)).eq_iff
        cases bs <;> simp [ih.1 hl, hinj]

theorem mapM_isSome {α β : Type} {f : α → Option β} {l : List α} :
    (l.mapM f).isSome = true ↔ ∀ a ∈ l, (f a).isSome = true := by
  rw [Option.isSome_iff_exists]
  constructor
  · rintro ⟨bs, hbs⟩ a ha
    have hmem : f a ∈ bs.map some := mapM_eq_some.1 hbs ▸ List.mem_map_of_mem ha
    obtain ⟨b, -, hb⟩ := List.mem_map.1 hmem
    rw [← hb]
    rfl
  · intro h
    refine ⟨l.filterMap f, mapM_eq_some.2 ?_⟩
    rw [List.map_filterMap_some_eq_filter_map_isSome, List.filter_eq_self.2]
    intro x hx
    obtain ⟨a, ha, rfl⟩ := List.mem_map.1 hx
    exact h a ha

/-- The candidate days are those of the offsets up to the lookback. -/
theorem candidateDays_eq_some {now : Datetime} {maxTtl : Int} {days : List Datetime} :
    candidateDays now maxTtl = some days ↔
      (List.range (lookbackDays maxTtl + 1).toNat).map (fun k : Nat => now.addSeconds (-86400 * k)) = days.map some := by
  rw [candidateDays, mapM_eq_some]
  simp only [List.bind_eq_flatMap, List.pure_def, ← List.map_eq_flatMap, List.map_map, Function.comp_def]

/-- They can be computed unless one of them is before year 1. -/
theorem candidateDays_isSome {now : Datetime} {maxTtl : Int} : (candidateDays now maxTtl).isSome = true ↔
    lookbackDays maxTtl < 0 ∨ lookbackDays maxTtl * Datetime.dayMicros ≤ now.toMicros := by
  have hoffset : ∀ k : Nat, (now.addSeconds (-86400 * k)).isSome = true ↔ (k : Int) * Datetime.dayMicros ≤ now.toMicros := by
    intro k
    rw [Datetime.addSeconds_back (by omega)]
    unfold Datetime.dayMicros
    omega
  have hall : (candidateDays now maxTtl).isSome = true ↔
      ∀ k ∈ List.range (lookbackDays maxTtl + 1).toNat, (now.addSeconds (-86400 * (k : Nat))).isSome = true := by
    rw [← mapM_isSome, Option.isSome_iff_exists, Option.isSome_iff_exists]
    simp only [candidateDays_eq_some, mapM_eq_some]
  rw [hall]
  constructor
  · intro h
    by_cases hneg : lookbackDays maxTtl < 0
    · exact .inl hneg
    · have hlast := (hoffset _).1 (h (lookbackDays maxTtl).toNat (List.mem_range.2 (by omega)))
      rw [Int.toNat_of_nonneg (by omega)] at hlast
      exact .inr hlast
  · intro h k hk
    have hk := List.mem_range.1 hk
    apply (hoffset k).2
    unfold Datetime.dayMicros at h ⊢
    omega

/-- The day of every moment of the lookback window is among the candidate days. -/
theorem mem_candidateDays {now t : Datetime} {maxTtl : Int} {days : List Datetime}
    (h : candidateDays now maxTtl = some days) (hle : t.toordinal ≤ now.toordinal)
    (hback : (now.toordinal : Int) ≤ t.toordinal + lookbackDays maxTtl) :
    ∃ d ∈ days, dayBucket d = dayBucket t := by
  obtain ⟨k, hk⟩ := Nat.exists_eq_add_of_le hle
  have hmem : now.addSeconds (-86400 * k) ∈ days.map some := by
    rw [← candidateDays_eq_some.1 h]
    exact List.mem_map.2 ⟨k, List.mem_range.2 (by omega), rfl⟩
  obtain ⟨d, hd, hsome⟩ := List.mem_map.1 hmem
  refine ⟨d, hd, ?_⟩
  have hmicros := Datetime.addSeconds_toMicros hsome.symm
  have hordinal : d.toordinal = t.toordinal := by
    have hnow := now.toordinal_eq
    have hd := d.toordinal_eq
    unfold Datetime.dayMicros at hnow hd
    omega
  obtain ⟨hy, hm, hday⟩ := Datetime.date_eq_of_toordinal hordinal
  rw [dayBucket, dayBucket, hy, hm, hday]

/-- No candidate day is after today. -/
theorem candidateDays_le {now d : Datetime} {maxTtl : Int} {days : List Datetime}
    (h : candidateDays now maxTtl = some days) (hd : d ∈ days) : d.toordinal ≤ now.toordinal := by
  have hmem : some d ∈ days.map some := List.mem_map_of_mem hd
  rw [← candidateDays_eq_some.1 h] at hmem
  obtain ⟨k, -, hk⟩ := List.mem_map.1 hmem
  have hmicros := Datetime.addSeconds_toMicros hk
  have hnow := now.toordinal_eq
  have hthen := d.toordinal_eq
  unfold Datetime.dayMicros at hnow hthen
  omega

theorem candidate_encodable {hmac : Hmac} {now : Datetime} {maxTtl : Int} {der : Bytes} {ids : List Str}
    (h : candidateRecipientIds hmac now maxTtl der = some ids) : ∀ rid ∈ ids, encodable rid = true := by
  obtain ⟨days, -, rfl⟩ := Option.map_eq_some_iff.1 h
  intro rid hr
  obtain ⟨d, -, rfl⟩ := List.mem_map.1 hr
  exact hmac.hex _ _

end AetherNode.Protocol
