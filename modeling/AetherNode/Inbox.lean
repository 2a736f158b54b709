import AetherNode.Expiry
/-!
# Fetching an inbox

A client asks for the addresses of every day of the relay's retention window,
which is also what the relay tries when a key asks for a deletion. The window
covers the day of every message that can still be unexpired, and as many ids
as it needs are allowed; but the request that lists them is a body like any
other, and after some five years of retention it is too long.
-/
open AetherNode.Lib AetherNode.Lib.Json AetherNode.Protocol

namespace AetherNode.Inbox

open Expiry

variable {env : Env}

/-! ## The request -/

/-- The body of `/fetch` in `cmd_fetch`. -/
def fetchBody (ids : List Str) : Json := .obj [(lit "ids", .arr (ids.map .str))]

/-- `_do_fetch`, on a body as `_http_post` prints it. -/
def postFetch (env : Env) (now : Datetime) (body : Json) (db : Db) : Except PyError FetchReply :=
  if maxBodyBytes < (encode (dumpsDefault body)).length then
    .ok (.refused (lit "Request body exceeds " ++ natText maxBodyBytes ++ lit " bytes"))
  else doFetch env now body db

/-- What `cmd_fetch` gets, for the retention window that `/health` reports. -/
def cmdFetch (env : Env) (now : Datetime) (pubkeyDer : Bytes) (db : Db) : Except PyError FetchReply :=
  match candidateRecipientIds env.hmac now env.maxTtlSeconds pubkeyDer with
  | none => .error .overflowError
  | some ids => postFetch env now (fetchBody ids) db

/-- The digests are 64 lower-case hex digits, as those of SHA-256. -/
def HexDigests (hmac : Hmac) : Prop :=
  ∀ k m, (hmac.hexdigest k m).length = 64 ∧ ∀ c ∈ hmac.hexdigest k m, 48 ≤ c ∧ c ≤ 57 ∨ 97 ≤ c ∧ c ≤ 102

section
variable {now : Datetime} {key : Bytes} {ids : List Str} {db : Db}

/-- One id for each day of the lookback. -/
theorem length_candidates (h : candidateRecipientIds env.hmac now env.maxTtlSeconds key = some ids) :
    ids.length = (maxFetchIds env).toNat := by
  obtain ⟨days, hdays, rfl⟩ := Option.map_eq_some_iff.1 h
  have hlength := congrArg List.length (candidateDays_eq_some.1 hdays)
  rw [List.length_map, List.length_map, List.length_range] at hlength
  rw [List.length_map, ← hlength]
  unfold lookbackDays maxFetchIds
  congr 1
  omega

theorem candidate_hex (hhex : HexDigests env.hmac)
    (h : candidateRecipientIds env.hmac now env.maxTtlSeconds key = some ids) {i : Str} (hi : i ∈ ids) :
    i.length = 64 ∧ ∀ c ∈ i, 48 ≤ c ∧ c ≤ 57 ∨ 97 ≤ c ∧ c ≤ 102 := by
  obtain ⟨days, -, rfl⟩ := Option.map_eq_some_iff.1 h
  obtain ⟨d, -, rfl⟩ := List.mem_map.1 hi
  exact hhex _ _

/-- The length of the request. -/
theorem length_fetchBody (hhex : ∀ i ∈ ids, i.length = 64 ∧ ∀ c ∈ i, 48 ≤ c ∧ c ≤ 57 ∨ 97 ≤ c ∧ c ≤ 102) :
    (encode (dumpsDefault (fetchBody ids))).length = 66 * ids.length + 2 * (ids.length - 1) + 11 := by
  have hname : (encode (quote (lit "ids"))).length = 5 := by decide
  have htexts : (encode (lit ": ")).length = 2 ∧ (encode (lit ", ")).length = 2 ∧ (encode (lit "\x7b")).length = 1 ∧
    (encode (lit "\x7d")).length = 1 ∧ (encode (lit "[")).length = 1 ∧ (encode (lit "]")).length = 1 := by decide
  have hquoted : ∀ i ∈ ids, (encode (quote i)).length = 66 := by
    intro i hi
    obtain ⟨hlength, hchars⟩ := hhex i hi
    rw [length_encode_quote, hlength]
    intro c hc
    have := hchars c hc
    omega
  have hids : (encode (join (lit ", ") (dumpsAll (lit ", ") (lit ": ") (ids.map .str)))).length =
      66 * ids.length + 2 * (ids.length - 1) := by
    have hsum : (ids.map fun i => (encode (quote i)).length).sum = 66 * ids.length := by
      rw [List.map_congr_left hquoted, List.map_const', List.sum_replicate_nat, Nat.mul_comm]
    rw [length_encode_join, dumpsAll_eq_map, List.map_map, List.map_map, List.length_map, List.length_map, htexts.2.1,
      Nat.mul_comm _ 2]
    exact congrArg (· + _) hsum
  rw [dumpsDefault, fetchBody]
  simp only [dumps, dumpsItems, join, encode_append, List.length_append, hids, hname, htexts]
  omega

/-- A list of candidates is refused only when it is empty, or when its body is too long. -/
theorem postFetch_candidates (hhex : HexDigests env.hmac)
    (h : candidateRecipientIds env.hmac now env.maxTtlSeconds key = some ids) (db : Db) :
    (1 ≤ ids.length ∧ ids.length ≤ 1957 ∧
        postFetch env now (fetchBody ids) db = .ok (.messages ((fetchRows ids now db).map (·.payload)))) ∨
      (¬ (1 ≤ ids.length ∧ ids.length ≤ 1957) ∧
        ∃ error, postFetch env now (fetchBody ids) db = .ok (.refused error)) := by
  have hbody := length_fetchBody fun i hi => candidate_hex hhex h hi
  have hcap : maxBodyBytes = 133086 := by decide
  have htexts : (ids.map Json.str).mapM text? = some ids := by
    rw [mapM_eq_some, List.map_map]
    rfl
  have hget : Dict.get [(lit "ids", Json.arr (ids.map .str))] (lit "ids") = some (.arr (ids.map .str)) := rfl
  unfold postFetch
  rw [hbody, hcap]
  split
  · rename_i hlong
    exact .inr ⟨by omega, _, rfl⟩
  rename_i hfits
  simp only [fetchBody, doFetch, hget, htexts]
  by_cases hempty : ids = []
  · rw [if_pos hempty]
    exact .inr ⟨by simp [hempty], _, rfl⟩
  have hpos : 1 ≤ ids.length := List.length_pos_of_ne_nil hempty
  have hcount : ¬ maxFetchIds env < ids.length := by
    rw [length_candidates h] at hpos ⊢
    omega
  have hlengths : ids.any (fun i => !(0 < i.length ∧ i.length ≤ maxRecipientIdLen)) = false := by
    rw [List.any_eq_false]
    intro i hi
    simp [(candidate_hex hhex h hi).1, maxRecipientIdLen]
  have hencodable : ids.all encodable = true := List.all_eq_true.2 (candidate_encodable h)
  rw [if_neg hempty, if_neg hcount, hlengths, hencodable]
  exact .inl ⟨hpos, by omega, rfl⟩

end

/-! ## What is in the inbox -/

/-- The message is to the holder of `key`, sent at `t` and expiring at `e`, as `cmd_send` builds it. -/
structure SentTo (env : Env) (key : Bytes) (t e : Datetime) (recipientId expiresAt : Str) : Prop where
  recipient : recipientId = blindRecipientId env.hmac key (dayBucket t)
  expiry : expiresAt = e.isoformat
  ttl : (e.toMicros : Int) ≤ t.toMicros + env.maxTtlSeconds * 1000000

/-- What arrives is built by `cmd_send`. -/
def Sends (env : Env) (_ : Relay env) (e : Event) : Prop :=
  ∀ path p, e = .arrive path p →
    ∃ key t expiry, SentTo env key t expiry (p.text (lit "recipient_id")) (p.text (lit "expires_at"))

/-- The message expires after `now`, as a moment. -/
def Unexpired (now : Datetime) (m : Message) : Prop := ∃ e, fromisoformat m.expiresAt = some ⟨e, some 0⟩ ∧ now < e

/-- Every stored message has been sent. -/
theorem stored_sent {h : List (Event × Obs)} {s : Relay env} (hr : RelayRun env (Sends env) h s) :
    ∀ r ∈ s.db.messages.rows, ∃ key t e, SentTo env key t e r.2.recipientId r.2.expiresAt := by
  refine (hr.inv (fun s => (∀ g ∈ s.ingests, ∃ key t e,
      SentTo env key t e (g.payload.text (lit "recipient_id")) (g.payload.text (lit "expires_at"))) ∧
      ∀ r ∈ s.db.messages.rows, ∃ key t e, SentTo env key t e r.2.recipientId r.2.expiresAt) ?_ ?_).2
  · constructor
    · intro g hg
      cases hg
    · intro r hr
      cases hr
  · rintro s e s' o ⟨hingests, hrows⟩ hsends hstep
    constructor
    · intro g hg
      rcases step_ingests hstep hg with hg | ⟨path, p, rfl, rfl⟩ | ⟨i, now, gate, g₀, -, hg₀, rfl⟩
      · exact hingests g hg
      · exact hsends path p rfl
      · exact hingests g₀ (List.mem_of_getElem? hg₀)
    · intro r hr
      rcases step_messages hstep with hsheds | ⟨i, now, gate, g, hv, id, -, hg, -, -, hgains⟩
      · exact hrows r (hsheds.rows.subset hr)
      · rw [hgains.rows] at hr
        rcases List.mem_append.1 hr with hr | hr
        · exact hrows r hr
        · rw [List.mem_singleton.1 hr]
          exact hingests g (List.mem_of_getElem? hg)

/-- The text and the moment decide alike for what has been sent. -/
theorem SentTo.unexpired_iff {key : Bytes} {t e now : Datetime} {m : Message}
    (h : SentTo env key t e m.recipientId m.expiresAt) : now.isoformat < m.expiresAt ↔ Unexpired now m := by
  have hread := fromisoformat_isoformat e
  unfold Unexpired
  rw [h.expiry, Datetime.isoformat_lt_iff, hread]
  simp

/-- The address of a message that can be unexpired at `now` is among the candidates. -/
theorem SentTo.mem_candidates {key : Bytes} {t e now : Datetime} {recipientId expiresAt : Str} {ids : List Str}
    (h : SentTo env key t e recipientId expiresAt) (ht : t ≤ now) (he : now < e)
    (hids : candidateRecipientIds env.hmac now env.maxTtlSeconds key = some ids) : recipientId ∈ ids := by
  obtain ⟨days, hdays, rfl⟩ := Option.map_eq_some_iff.1 hids
  have hspan := h.ttl
  have hle := Datetime.le_def.1 ht
  have hlt := Datetime.lt_def.1 he
  have hnow := now.toordinal_eq
  have hthen := t.toordinal_eq
  unfold Datetime.dayMicros at hnow hthen
  have hback : (now.toordinal : Int) ≤ t.toordinal + lookbackDays env.maxTtlSeconds := by
    unfold lookbackDays
    omega
  have hfirst : t.toordinal ≤ now.toordinal := by omega
  obtain ⟨d, hd, hday⟩ := mem_candidateDays hdays hfirst hback
  rw [h.recipient, ← hday]
  exact List.mem_map_of_mem hd

/-! ## The whole inbox -/

/-- The fetch of the candidate ids at `now` is answered with these rows: the stored ones for an id of the list that are
unexpired, each once and in the order of their ids; and any unexpired message sent to the key is among them, and its
deletion by the key is confirmed. -/
structure FetchComplete (env : Env) (key : Bytes) (now : Datetime) (db : Db) (ids : List Str)
    (rows : List (Nat × Message)) : Prop where
  candidates : candidateRecipientIds env.hmac now env.maxTtlSeconds key = some ids
  reply : cmdFetch env now key db = .ok (.messages (rows.map (·.2.payload)))
  ordered : rows.Pairwise fun a b => a.1 < b.1
  listed : ∀ r, r ∈ rows ↔ r ∈ db.messages.rows ∧ r.2.recipientId ∈ ids ∧ Unexpired now r.2
  inbox : ∀ r ∈ db.messages.rows, ∀ t e, SentTo env key t e r.2.recipientId r.2.expiresAt → t ≤ now → now < e →
    r ∈ rows ∧ ∀ p, ValidDelete env p → decodeField p (lit "recipient_pubkey") = some key →
      p.text (lit "target_signature") = r.2.signature → (handleDeleteRequest env now p db).2 = .ok .deleted

section
variable {key : Bytes} {now : Datetime} {h : List (Event × Obs)} {s : Relay env}

/-- An owner's request for a stored message of a candidate id is confirmed. -/
theorem delete_confirmed {ok : Relay env → Event → Prop} (hr : RelayRun env ok h s) {ids : List Str}
    (hids : candidateRecipientIds env.hmac now env.maxTtlSeconds key = some ids) {r : Nat × Message}
    (hrow : r ∈ s.db.messages.rows) (hmem : r.2.recipientId ∈ ids) {p : Dict}
    (hkey : decodeField p (lit "recipient_pubkey") = some key)
    (htarget : p.text (lit "target_signature") = r.2.signature) :
    (handleDeleteRequest env now p s.db).2 = .ok .deleted := by
  obtain ⟨k, hk, hder⟩ := decodeField_eq hkey
  have hown : Owns env now (p.text (lit "recipient_pubkey")) r.2.recipientId := by
    rw [Dict.text_eq hk]
    exact ⟨key, ids, hder, hids, hmem⟩
  have hbinds := stored_binds hr r hrow
  have hencodable : encodable (p.text (lit "target_signature")) = true := by
    rw [htarget]
    simp only [Message.binds, Bool.and_eq_true] at hbinds
    exact hbinds.1.2
  have hstored : s.db.message (p.text (lit "target_signature")) = some r.2 := by
    rw [htarget]
    exact Table.lookup_of_mem hrow
  rw [handleDeleteRequest_owner hencodable hstored hown]

/-- The candidates can be listed unless a day of the lookback is before year 1. -/
theorem candidates_isSome {maxTtl : Int} {hmac : Hmac} (hpos : 0 ≤ lookbackDays maxTtl) :
    (∃ ids, candidateRecipientIds hmac now maxTtl key = some ids) ↔
      lookbackDays maxTtl * Datetime.dayMicros ≤ now.toMicros := by
  unfold candidateRecipientIds
  rw [← Option.isSome_iff_exists, Option.isSome_map, candidateDays_isSome]
  omega

/-- In every state that publishes of sent messages lead to, the inbox of a key can be fetched completely at `now`
exactly when the lookback of the relay is one to 1957 days, none of which is before year 1. -/
theorem fetch_complete_iff (hr : RelayRun env (Sends env) h s) (hhex : HexDigests env.hmac) (key : Bytes)
    (now : Datetime) : (∃ ids rows, FetchComplete env key now s.db ids rows) ↔
      1 ≤ maxFetchIds env ∧ maxFetchIds env ≤ 1957 ∧ (maxFetchIds env - 1) * Datetime.dayMicros ≤ now.toMicros := by
  have hlookback : maxFetchIds env - 1 = lookbackDays env.maxTtlSeconds := by
    unfold maxFetchIds lookbackDays
    omega
  constructor
  · rintro ⟨ids, rows, hfetch⟩
    have hlength := length_candidates hfetch.candidates
    rcases postFetch_candidates hhex hfetch.candidates s.db with ⟨hmin, hmax, -⟩ | ⟨-, error, hrefused⟩
    · refine ⟨by omega, by omega, ?_⟩
      rw [hlookback]
      exact (candidates_isSome (by omega)).1 ⟨ids, hfetch.candidates⟩
    · have hreply := hfetch.reply
      simp only [cmdFetch, hfetch.candidates, hrefused] at hreply
      cases hreply
  · rintro ⟨hmin, hmax, hyear⟩
    rw [hlookback] at hyear
    obtain ⟨ids, hids⟩ : ∃ ids, candidateRecipientIds env.hmac now env.maxTtlSeconds key = some ids :=
      (candidates_isSome (by omega)).2 hyear
    have hlength := length_candidates hids
    rcases postFetch_candidates hhex hids s.db with ⟨-, -, hreply⟩ | ⟨hno, -⟩
    · have hlisted : ∀ r, r ∈ s.db.messages.rows.filter (fun r =>
          ids.contains r.2.recipientId && decide (now.isoformat < r.2.expiresAt)) ↔
          r ∈ s.db.messages.rows ∧ r.2.recipientId ∈ ids ∧ Unexpired now r.2 := by
        intro r
        simp only [List.mem_filter, Bool.and_eq_true, List.contains_iff_mem, decide_eq_true_eq]
        refine and_congr_right fun hrow => and_congr_right fun _ => ?_
        obtain ⟨key, t, e, hsent⟩ := stored_sent hr r hrow
        exact hsent.unexpired_iff
      refine ⟨ids, _, hids, ?_, s.db.messages.sorted.filter _, hlisted, ?_⟩
      · simp only [cmdFetch, hids, hreply, fetchRows, List.filter_map, List.map_map]
        rfl
      · intro r hrow t e hsent ht he
        have hmem := hsent.mem_candidates ht he hids
        refine ⟨(hlisted r).2 ⟨hrow, hmem, ?_⟩, fun p _ hkey htarget => delete_confirmed hr hids hrow hmem hkey htarget⟩
        rw [← hsent.unexpired_iff, hsent.expiry]
        exact Datetime.isoformat_lt_iff.2 he
    · omega

end

/-! ## Retention of a month and of five years -/

def hexDigit (n : Nat) : Nat := if n < 10 then 48 + n else 87 + n

/-- The bytes of key and day in hex, filled up to the length of a digest. -/
def digest (k : Bytes) (m : Str) : Str :=
  (((k ++ m).flatMap fun c => [hexDigit (c / 16 % 16), hexDigit (c % 16)]) ++ List.replicate 64 48).take 64

theorem digest_hex (k : Bytes) (m : Str) :
    (digest k m).length = 64 ∧ ∀ c ∈ digest k m, 48 ≤ c ∧ c ≤ 57 ∨ 97 ≤ c ∧ c ≤ 102 := by
  have hdigit : ∀ n, 48 ≤ hexDigit (n % 16) ∧ hexDigit (n % 16) ≤ 57 ∨
      97 ≤ hexDigit (n % 16) ∧ hexDigit (n % 16) ≤ 102 := by
    intro n
    unfold hexDigit
    split <;> omega
  constructor
  · rw [digest, List.length_take, List.length_append, List.length_replicate]
    omega
  · intro c hc
    rcases List.mem_append.1 (List.mem_of_mem_take hc) with hc | hc
    · obtain ⟨b, -, hb⟩ := List.mem_flatMap.1 hc
      simp only [List.mem_cons, List.not_mem_nil, or_false] at hb
      rcases hb with rfl | rfl
      · exact hdigit _
      · exact hdigit _
    · exact .inl (by rw [List.eq_of_mem_replicate hc]; omega)

theorem digest_encodable (k : Bytes) (m : Str) : encodable (digest k m) = true := by
  refine List.all_eq_true.2 fun c hc => ?_
  have := (digest_hex k m).2 c hc
  simp only [isSurrogate, Bool.not_eq_true', Bool.and_eq_false_iff, decide_eq_false_iff_not]
  omega

def hexHmac : Hmac := ⟨digest, digest_encodable⟩

def ownerKey : Bytes := [104, 105]

/-- A relay that keeps messages for so many days. -/
def retaining (days : Int) : Env := { Sample.lenient with hmac := hexHmac, maxTtlSeconds := days * 86400 }

/-- The owner's address of the day. -/
def address : Str := blindRecipientId hexHmac ownerKey (dayBucket Sample.noon)

/-- A message that `cmd_send` addresses to the owner at noon, for a day. -/
def payload : Dict :=
  (Sample.payload (lit "c2ln")).map fun (field, v) => (field, if field = lit "recipient_id" then .str address else v)

/-- What arrives is such a message. -/
def forOwner {env : Env} (_ : Relay env) : Event → Bool
  | .arrive _ p => p.text (lit "recipient_id") = address && p.text (lit "expires_at") = Sample.nextNoon.isoformat
  | _ => true

theorem sends_forOwner {days : Int} (hdays : 1 ≤ days) (s : Relay (retaining days)) (e : Event)
    (h : forOwner s e = true) : Sends (retaining days) s e := by
  rintro path p rfl
  simp only [forOwner, Bool.and_eq_true, decide_eq_true_eq] at h
  refine ⟨ownerKey, Sample.noon, Sample.nextNoon, h.1, h.2, ?_⟩
  have hday : (Sample.nextNoon.toMicros : Int) = Sample.noon.toMicros + 86400 * 1000000 := by decide +kernel
  have hkept : (retaining days).maxTtlSeconds = days * 86400 := rfl
  omega

def publish : List Event := [.arrive .publish payload] ++ Sample.sections 0 4

/-- With a retention of thirty days the stored message is fetched. -/
theorem fetch_complete_month : ∃ h s, RelayRun (retaining 30) (Sends (retaining 30)) h s ∧
    s.db.messages.rows.length = 1 ∧ ∃ ids rows, FetchComplete (retaining 30) ownerKey Sample.noon s.db ids rows := by
  obtain ⟨h, s, hr, hp⟩ := exists_run (step (retaining 30)) forOwner (fun s _ => s.db.messages.rows.length = 1)
    Relay.init publish (by decide +kernel)
  have hr' : RelayRun (retaining 30) (Sends (retaining 30)) h s := hr.mono (sends_forOwner (by decide))
  exact ⟨h, s, hr', of_decide_eq_true hp,
    (fetch_complete_iff hr' (fun k m => digest_hex k m) ownerKey Sample.noon).2 (by decide +kernel)⟩

/-- With one of 1956 days the list of ids that the client sends is refused: the stored message is out of reach. -/
theorem fetch_refused : ∃ h s, RelayRun (retaining 1956) (Sends (retaining 1956)) h s ∧ s.db.messages.rows.length = 1 ∧
    (∃ error, cmdFetch (retaining 1956) Sample.noon ownerKey s.db = .ok (.refused error)) ∧
    ¬ ∃ ids rows, FetchComplete (retaining 1956) ownerKey Sample.noon s.db ids rows := by
  obtain ⟨h, s, hr, hp⟩ := exists_run (step (retaining 1956)) forOwner (fun s _ => s.db.messages.rows.length = 1)
    Relay.init publish (by decide +kernel)
  obtain ⟨ids, hids⟩ : ∃ ids, candidateRecipientIds (retaining 1956).hmac Sample.noon (retaining 1956).maxTtlSeconds
      ownerKey = some ids := (candidates_isSome (by decide)).2 (by decide +kernel)
  have hlength : ids.length = 1958 := length_candidates hids
  obtain ⟨error, hrefused⟩ : ∃ error, cmdFetch (retaining 1956) Sample.noon ownerKey s.db = .ok (.refused error) := by
    rcases postFetch_candidates (fun k m => digest_hex k m) hids s.db with ⟨-, hmax, -⟩ | ⟨-, error, hrefused⟩
    · omega
    · exact ⟨error, by simp only [cmdFetch, hids, hrefused]⟩
  refine ⟨h, s, hr.mono (sends_forOwner (by decide)), of_decide_eq_true hp, ⟨error, hrefused⟩, ?_⟩
  rintro ⟨ids, rows, hfetch⟩
  have hreply := hfetch.reply
  rw [hrefused] at hreply
  cases hreply

end AetherNode.Inbox
