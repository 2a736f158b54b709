import AetherNode.Quota
import Mathlib.Algebra.BigOperators.Group.List.Lemmas
import Mathlib.Algebra.Group.Action.Defs
import Mathlib.Data.List.Dedup
/-!
# The worst case of one recipient

The quota is kept for each recipient id, and a key answers to one id for every
day of its lookback. The startup banner multiplies the quota by the days of the
retention window; the lookback also has today and a buffer day, so the factor
that holds is two more.
-/
open AetherNode.Lib AetherNode.Lib.Json AetherNode.Protocol

namespace AetherNode

variable {env : Env}

/-- The recipient ids of the rows that a list of ids names, row by row. -/
def Db.named (db : Db) (ids : List Str) : List Str := (db.messages.rows.map fun r => r.2.recipientId).filter (· ∈ ids)

namespace Quota

/-- `_quota_days`. -/
def quotaDays (env : Env) : Int := -(-env.maxTtlSeconds / 86400)

/-- No key has more rows under its candidate ids, at any time, than the startup banner says. -/
def WithinWorstCase (env : Env) (db : Db) : Prop :=
  ∀ now key ids, candidateRecipientIds env.hmac now env.maxTtlSeconds key = some ids →
    ((db.named ids).length : Int) ≤ env.recipientQuotaMaxMessages * quotaDays env

/-- An insert that passes the section's check, for a candidate id of some key: with its row no more of the key's ids
are in use than the window has days. -/
def Spreads (env : Env) (s : Relay env) (e : Event) : Prop :=
  ∀ i now gate g hv, e = .advance i now gate → s.ingests[i]? = some g → g.phase = .insert hv →
    s.db.message (g.payload.text (lit "signature")) = none →
    quotaReached env (g.payload.text (lit "recipient_id")) s.db = false →
    (messageOf g.payload (g.payload.text (lit "recipient_id")) now).binds = true →
    ∀ t key ids, candidateRecipientIds env.hmac t env.maxTtlSeconds key = some ids →
      g.payload.text (lit "recipient_id") ∈ ids →
      ((g.payload.text (lit "recipient_id") :: s.db.named ids).dedup.length : Int) ≤ quotaDays env

/-! ## From one id to many -/

theorem countP_named {db : Db} {ids : List Str} {rid : Str} (h : rid ∈ ids) :
    (db.named ids).countP (· = rid) = (db.inbox rid).length := by
  rw [Db.named, List.countP_filter, Db.inbox, List.countP_map, List.filter_map, List.length_map,
    List.countP_eq_length_filter]
  congr 1
  apply List.filter_congr
  intro r _
  by_cases hr : r.2.recipientId = rid
  · simp [hr, h]
  · simp [hr]

/-- The rows under a list of ids are at most the quota for each id in use. -/
theorem length_named_le {db : Db} (hdb : WithinMessages env db) (ids : List Str) :
    ((db.named ids).length : Int) ≤ (db.named ids).dedup.length * max env.recipientQuotaMaxMessages 0 := by
  have hcap : ∀ n ∈ (db.named ids).dedup.map fun rid => (db.named ids).countP (· = rid),
      n ≤ (max env.recipientQuotaMaxMessages 0).toNat := by
    intro n hn
    obtain ⟨rid, hrid, rfl⟩ := List.mem_map.1 hn
    have hmem : rid ∈ ids := by
      have := List.mem_dedup.1 hrid
      rw [Db.named, List.mem_filter] at this
      simpa using this.2
    rw [countP_named hmem]
    have := hdb rid
    omega
  have hsum := List.sum_le_card_nsmul _ _ hcap
  have hdedup : ((db.named ids).dedup.map fun rid => (db.named ids).countP (· = rid)).sum = (db.named ids).length :=
    List.sum_map_count_dedup_eq_length _
  rw [hdedup, List.length_map, smul_eq_mul] at hsum
  have hmax : ((max env.recipientQuotaMaxMessages 0).toNat : Int) = max env.recipientQuotaMaxMessages 0 :=
    Int.toNat_of_nonneg (le_max_right _ _)
  calc ((db.named ids).length : Int)
      ≤ ((db.named ids).dedup.length * (max env.recipientQuotaMaxMessages 0).toNat : Nat) := Int.ofNat_le.2 hsum
    _ = (db.named ids).dedup.length * max env.recipientQuotaMaxMessages 0 := by rw [Nat.cast_mul, hmax]

/-- The ids in use are among the candidates: one for every day of the window, today and the buffer day. -/
theorem dedup_named_le {db : Db} {now : Datetime} {key : Bytes} {ids : List Str} (httl : 0 < env.maxTtlSeconds)
    (h : candidateRecipientIds env.hmac now env.maxTtlSeconds key = some ids) :
    ((db.named ids).dedup.length : Int) ≤ quotaDays env + 2 := by
  have hids : ids.length = (lookbackDays env.maxTtlSeconds + 1).toNat := by
    obtain ⟨days, hdays, rfl⟩ := Option.map_eq_some_iff.1 h
    have hlength := congrArg List.length (candidateDays_eq_some.1 hdays)
    rw [List.length_map, List.length_map, List.length_range] at hlength
    rw [List.length_map, hlength]
  have hsubset : (db.named ids).dedup ⊆ ids := by
    intro rid hrid
    have hmem := List.mem_dedup.1 hrid
    rw [Db.named, List.mem_filter] at hmem
    exact of_decide_eq_true hmem.2
  have hle := (List.nodup_dedup _).length_le_of_subset hsubset
  rw [hids] at hle
  unfold lookbackDays at hle
  unfold quotaDays
  omega

/-- In every reachable state the rows under the candidate ids of a key are at most the quota for each candidate day:
those of the window, and two more. -/
theorem worst_case {h : List (Event × Obs)} {s : Relay env} (hr : RelayRun env Any h s) (httl : 0 < env.maxTtlSeconds)
    {now : Datetime} {key : Bytes} {ids : List Str}
    (hids : candidateRecipientIds env.hmac now env.maxTtlSeconds key = some ids) :
    ((s.db.named ids).length : Int) ≤ max env.recipientQuotaMaxMessages 0 * (quotaDays env + 2) := by
  calc ((s.db.named ids).length : Int)
      ≤ (s.db.named ids).dedup.length * max env.recipientQuotaMaxMessages 0 :=
        length_named_le (fun rid => message_cap hr rid) ids
    _ ≤ (quotaDays env + 2) * max env.recipientQuotaMaxMessages 0 :=
        Int.mul_le_mul_of_nonneg_right (dedup_named_le httl hids) (le_max_right _ _)
    _ = max env.recipientQuotaMaxMessages 0 * (quotaDays env + 2) := Int.mul_comm _ _

/-! ## What a step does to the rows under a list of ids -/

theorem named_sheds {db db' : Db} (h : db.messages.Sheds db'.messages) (ids : List Str) :
    (db'.named ids).Sublist (db.named ids) :=
  (h.rows.map _).filter _

theorem named_gains {p : Dict} {now : Datetime} {id : Nat} {db db' : Db} (h : Gains env p now id db db')
    (ids : List Str) : db'.named ids = db.named ids ++
      if p.text (lit "recipient_id") ∈ ids then [p.text (lit "recipient_id")] else [] := by
  rw [Db.named, h.rows, List.map_append, List.filter_append, Db.named]
  congr 1
  by_cases hmem : p.text (lit "recipient_id") ∈ ids
  · simp [messageOf, hmem]
  · simp [messageOf, hmem]

theorem step_withinWorstCase {s s' : Relay env} {e : Event} {o : Obs} (hq : 0 ≤ env.recipientQuotaMaxMessages)
    (hs : WithinWorstCase env s.db) (hs' : WithinMessages env s'.db) (hspreads : Spreads env s e)
    (h : step env s e = some (s', o)) : WithinWorstCase env s'.db := by
  intro t key ids hids
  rcases step_messages h with hsheds | ⟨i, now, gate, g, hv, id, he, hg, hph, -, hgains⟩
  · have := (named_sheds hsheds ids).length_le
    have := hs t key ids hids
    omega
  · by_cases hmem : g.payload.text (lit "recipient_id") ∈ ids
    · have hnamed := named_gains hgains ids
      rw [if_pos hmem] at hnamed
      have hdays := hspreads i now gate g hv he hg hph hgains.fresh hgains.room hgains.binds t key ids hids hmem
      -- No more ids than days: the quota of each of them is enough.
      have hperm : (s'.db.named ids).Perm (g.payload.text (lit "recipient_id") :: s.db.named ids) := by
        rw [hnamed]
        exact List.perm_append_singleton _ _
      have hle := length_named_le hs' ids
      rw [hperm.dedup.length_eq, max_eq_left hq] at hle
      calc ((s'.db.named ids).length : Int)
          ≤ (g.payload.text (lit "recipient_id") :: s.db.named ids).dedup.length * env.recipientQuotaMaxMessages := hle
        _ ≤ quotaDays env * env.recipientQuotaMaxMessages := Int.mul_le_mul_of_nonneg_right hdays hq
        _ = env.recipientQuotaMaxMessages * quotaDays env := Int.mul_comm _ _
    · rw [named_gains hgains, if_neg hmem, List.append_nil]
      exact hs t key ids hids

theorem named_empty (ids : List Str) : Db.empty.named ids = [] := rfl

/-- Inserts that spread over no more days than the window has keep every key within the product. -/
theorem run_withinWorstCase {h : List (Event × Obs)} {s : Relay env} (httl : 0 < env.maxTtlSeconds)
    (hq : 0 ≤ env.recipientQuotaMaxMessages) (hr : RelayRun env (Spreads env) h s) : WithinWorstCase env s.db := by
  induction hr with
  | nil =>
    intro t key ids _
    have hempty : (Relay.init : Relay env).db.named ids = [] := named_empty ids
    rw [hempty]
    apply Int.mul_nonneg hq
    unfold quotaDays
    omega
  | snoc hr hspreads hstep ih =>
    refine step_withinWorstCase hq ih ?_ hspreads hstep
    exact fun rid => message_cap (hr.any.snoc trivial hstep) rid

/-- A run whose inserts open no more ids of any key than the window has days keeps every key within the product of the
quota and those days in all its states, unless the quota is negative. -/
theorem worst_case_spread (httl : 0 < env.maxTtlSeconds)
    (hq : 0 ≤ env.recipientQuotaMaxMessages ∨ ∀ now key, candidateRecipientIds env.hmac now env.maxTtlSeconds key = none)
    {h : List (Event × Obs)} {s : Relay env} (hr : RelayRun env (Spreads env) h s) : WithinWorstCase env s.db := by
  rcases hq with hq | hnone
  · exact run_withinWorstCase httl hq hr
  · intro now key ids hids
    rw [hnone now key] at hids
    cases hids

/-- While fewer ids than the window has days are in use at all, every insert is within. -/
theorem spreads_of_few {s : Relay env} {e : Event}
    (hfew : ((s.db.messages.rows.map fun r => r.2.recipientId).dedup.length : Int) < quotaDays env) : Spreads env s e := by
  intro i now gate g hv _ _ _ _ _ _ t key ids _ _
  have hsub : (g.payload.text (lit "recipient_id") :: s.db.named ids).dedup ⊆
      g.payload.text (lit "recipient_id") :: (s.db.messages.rows.map fun r => r.2.recipientId).dedup := by
    intro rid hrid
    rcases List.mem_cons.1 (List.mem_dedup.1 hrid) with rfl | hrid
    · exact List.mem_cons_self
    · exact List.mem_cons_of_mem _ (List.mem_dedup.2 (List.mem_filter.1 hrid).1)
  have hle := (List.nodup_dedup _).length_le_of_subset hsub
  rw [List.length_cons] at hle
  omega

/-! ## A window of one day -/

/-- Room for one message under each id, and a window of one day. -/
def oneDay : Env := { Sample.lenient with recipientQuotaMaxMessages := 1, maxTtlSeconds := 86400 }

/-- A message to the owner under the address of a day. -/
def addressed (signature : Str) (day : Datetime) : Dict :=
  (Sample.payload signature).map fun field =>
    if field.1 = lit "recipient_id" then (field.1, .str (blindRecipientId Sample.hmac [104, 105] (dayBucket day))) else field

/-- Today, yesterday and the day before. -/
def candidateNoons : List Datetime :=
  [Sample.noon, .ofFields 2026 1 1 12 0 0 0 (by decide), .ofFields 2025 12 31 12 0 0 0 (by decide)]

/-- A message to the owner under each of the three addresses. -/
def flood : List Event :=
  (candidateNoons.zip [lit "c2ln", lit "ZGVs", lit "YWE="]).map (fun x => .arrive .publish (addressed x.2 x.1)) ++
    Sample.sections 0 4 ++ Sample.sections 1 4 ++ Sample.sections 2 4

set_option maxRecDepth 8000 in
/-- One message under each candidate id of the owner: three, where the banner says one. -/
theorem worst_case_exceeded : ∃ h s ids, RelayRun oneDay Any h s ∧
    candidateRecipientIds oneDay.hmac Sample.noon oneDay.maxTtlSeconds [104, 105] = some ids ∧
    (s.db.named ids).length = 3 ∧ oneDay.recipientQuotaMaxMessages * quotaDays oneDay = 1 ∧
    ¬ WithinWorstCase oneDay s.db := by
  let ids := candidateNoons.map fun day => blindRecipientId Sample.hmac [104, 105] (dayBucket day)
  have hids : candidateRecipientIds oneDay.hmac Sample.noon oneDay.maxTtlSeconds [104, 105] = some ids := by
    decide +kernel
  have hproduct : oneDay.recipientQuotaMaxMessages * quotaDays oneDay = 1 := by decide
  obtain ⟨h, s, hr, hp⟩ := exists_any_run (step oneDay) (fun s _ => decide ((s.db.named ids).length = 3)) Relay.init
    flood (by decide +kernel)
  have hthree := of_decide_eq_true hp
  refine ⟨h, s, ids, hr, hids, hthree, hproduct, ?_⟩
  intro hwithin
  have := hwithin Sample.noon [104, 105] ids hids
  rw [hproduct, hthree] at this
  omega

/-- A window of three days. -/
def threeDays : Env := { oneDay with maxTtlSeconds := 259200 }

/-- The same three messages in a window of three days: as many as the banner says. -/
theorem worst_case_spread_three : ∃ h s ids, RelayRun threeDays Any h s ∧
    candidateRecipientIds threeDays.hmac Sample.noon threeDays.maxTtlSeconds [104, 105] = some ids ∧
    (s.db.named ids).length = 3 ∧ threeDays.recipientQuotaMaxMessages * quotaDays threeDays = 3 ∧
    WithinWorstCase threeDays s.db := by
  obtain ⟨h, s, hr, hp⟩ := exists_run (step threeDays)
    (fun s _ => decide (((s.db.messages.rows.map fun r => r.2.recipientId).dedup.length : Int) < quotaDays threeDays))
    (fun s _ => (candidateRecipientIds threeDays.hmac Sample.noon threeDays.maxTtlSeconds [104, 105]).any
      fun ids => decide ((s.db.named ids).length = 3)) Relay.init flood (by decide +kernel)
  obtain ⟨ids, hids, hthree⟩ := (Option.any_eq_true _ _).1 hp
  have hspreads : RelayRun threeDays (Spreads threeDays) h s :=
    hr.mono fun _ _ hfew => spreads_of_few (of_decide_eq_true hfew)
  exact ⟨h, s, ids, hr.any, hids, of_decide_eq_true hthree, by decide, worst_case_spread (by decide) (.inl (by decide)) hspreads⟩

end Quota

end AetherNode
