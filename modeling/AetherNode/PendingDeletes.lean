import AetherNode.Handlers
/-!
# A delete that outruns its message

Requests for a signature with no message share one row: the first one recorded
stays, whoever sent it. So an arriving message is discarded exactly when the
claim in force, a row that was there before or else the first recorded
request, is confirmed or its key owns the message.
-/
open AetherNode.Lib AetherNode.Lib.Json AetherNode.Protocol

namespace AetherNode.PendingDeletes

variable {env : Env}

/-- Delete requests handled one after the other, each at its own time. -/
def handleAll (env : Env) : List (Dict × Datetime) → Db → Db
  | [], db => db
  | (p, now) :: reqs, db => handleAll env reqs (handleDeleteRequest env now p db).1

/-- The first request that is recorded: its candidate days do not reach back before year 1. -/
def firstRecorded (env : Env) (reqs : List (Dict × Datetime)) : Option (Dict × Datetime) :=
  reqs.find? fun r => (candidateDays r.2 env.maxTtlSeconds).isSome

/-- The row a recorded request leaves. -/
def pendingRow (r : Dict × Datetime) : DeletionRequest :=
  ⟨r.1.text (lit "target_signature"), r.1.text (lit "recipient_pubkey"), [], false, r.2.isoformat⟩

/-- A validated request for a signature that is not stored is recorded, or raises before it is. -/
theorem handle_unstored {p : Dict} {now : Datetime} {db : Db} (hv : ValidDelete env p)
    (henc : encodable (p.text (lit "target_signature")) = true)
    (hnew : db.message (p.text (lit "target_signature")) = none) :
    (handleDeleteRequest env now p db).1 =
      if (candidateDays now env.maxTtlSeconds).isSome then db.recordRequest (pendingRow (p, now)) else db := by
  obtain ⟨der, hder⟩ := Verifier.pubkey_text hv.verified
  unfold handleDeleteRequest candidateRecipientIds
  cases hdays : candidateDays now env.maxTtlSeconds with
  | none => simp [hder]
  | some days => simp [hder, henc, hnew, pendingRow]

/-- After the requests, the row is the one that was there, or else the first recorded request's. -/
theorem handleAll_spec {sig : Str} (henc : encodable sig = true) (reqs : List (Dict × Datetime)) (db : Db)
    (hreqs : ∀ r ∈ reqs, ValidDelete env r.1 ∧ r.1.text (lit "target_signature") = sig)
    (hnew : db.message sig = none) :
    (handleAll env reqs db).messages = db.messages ∧
      (handleAll env reqs db).request sig = (db.request sig).or ((firstRecorded env reqs).map pendingRow) := by
  induction reqs generalizing db with
  | nil => simp [handleAll, firstRecorded]
  | cons r reqs ih =>
    obtain ⟨p, now⟩ := r
    obtain ⟨hv, rfl⟩ := hreqs (p, now) List.mem_cons_self
    simp only [handleAll]
    rw [handle_unstored hv henc hnew]
    split
    · rename_i hdays
      -- The request is recorded, unless a row is there already.
      obtain ⟨h1, h2⟩ := ih (db.recordRequest (pendingRow (p, now))) (fun r hr => hreqs r (List.mem_cons_of_mem _ hr)) hnew
      refine ⟨h1, ?_⟩
      rw [h2]
      cases hreq : db.request (p.text (lit "target_signature")) <;>
        simp [hreq, firstRecorded, hdays, pendingRow]
    · rename_i hdays
      -- It raises before it is recorded.
      obtain ⟨h1, h2⟩ := ih db (fun r hr => hreqs r (List.mem_cons_of_mem _ hr)) hnew
      refine ⟨h1, ?_⟩
      rw [h2]
      simp [firstRecorded, hdays]

/-- The claim the relay goes by: the row it has, or else the first recorded request's. -/
def claimInForce (env : Env) (db : Db) (reqs : List (Dict × Datetime)) (sig : Str) : Option DeletionRequest :=
  (db.request sig).or ((firstRecorded env reqs).map pendingRow)

/-- The claim in force deletes a message to `rid` that arrives at `now`. -/
def ClaimDeletes (env : Env) (now : Datetime) (rid : Str) (r : DeletionRequest) : Prop :=
  r.confirmed = true ∨ Owns env now r.requesterPubkey rid

/-- A message that meets a row is discarded, with a confirmed row left, exactly when the row deletes it. -/
theorem ingest_discarded_iff {path : Path} {now : Datetime} {p : Dict} {db : Db} (hv : ValidPublish env now p)
    (hnew : db.message (p.text (lit "signature")) = none) (hroom : hasRoom env p db = .ok true) :
    ((ingest env path now true true p db).2 = .discarded ∧
        (ingest env path now true true p db).1.confirmed (p.text (lit "signature")) = true) ↔
      ∃ r, db.request (p.text (lit "signature")) = some r ∧ ClaimDeletes env now (p.text (lit "recipient_id")) r := by
  have hsig := Verifier.signature_encodable hv.verified
  rw [ingest_admitted hv hnew hroom]
  cases hres : resolveDeletionRequest env now (p.text (lit "signature")) (p.text (lit "recipient_id")) db with
  | mk db' res =>
    rcases resolve_cases hsig hres with ⟨hreq, rfl, rfl⟩ | ⟨hc, rfl, rfl⟩ | ⟨key, ⟨row, hrow, hrc, rfl⟩, ⟨e, he, rfl, rfl⟩ |
      ⟨hown, rfl, rfl⟩ | ⟨hclaim, rfl, rfl⟩⟩
    · simp [hreq, insertOutcome_ne_discarded]
    · obtain ⟨r, hr, hrc⟩ := Db.confirmed_iff.1 hc
      exact iff_of_true ⟨rfl, hc⟩ ⟨r, hr, .inl hrc⟩
    · apply iff_of_false (by simp)
      rintro ⟨r, hr, hdel⟩
      rw [hrow] at hr
      cases hr
      rcases hdel with hdel | hdel
      · rw [hrc] at hdel
        cases hdel
      · rw [owns_iff, he] at hdel
        cases hdel
    · exact iff_of_true ⟨rfl, by simp [Db.confirmed]⟩ ⟨row, hrow, .inr hown⟩
    · refine iff_of_false ?_ ?_
      · rintro ⟨hd, -⟩
        exact insertOutcome_ne_discarded _ hd
      · rintro ⟨r, hr, hdel⟩
        rw [hrow] at hr
        cases hr
        rcases hdel with hdel | hdel
        · rw [hrc] at hdel
          cases hdel
        · rw [owns_iff, hclaim] at hdel
          cases hdel

/-- Some request of the list is by a key that owns messages to `rid`. -/
def OwnerAmong (env : Env) (now : Datetime) (rid : Str) (reqs : List (Dict × Datetime)) : Prop :=
  ∃ r ∈ reqs, Owns env now (r.1.text (lit "recipient_pubkey")) rid

/-- The owner's request is honoured when the message arrives exactly when the claim in force is confirmed or an
owner's. -/
theorem owner_honoured_iff (path : Path) {now : Datetime} {p : Dict} {db : Db} {reqs : List (Dict × Datetime)}
    (hreqs : ∀ r ∈ reqs, ValidDelete env r.1 ∧ r.1.text (lit "target_signature") = p.text (lit "signature"))
    (hnew : db.message (p.text (lit "signature")) = none) (hv : ValidPublish env now p)
    (hroom : hasRoom env p (handleAll env reqs db) = .ok true) :
    (OwnerAmong env now (p.text (lit "recipient_id")) reqs →
        (ingest env path now true true p (handleAll env reqs db)).2 = .discarded ∧
          (ingest env path now true true p (handleAll env reqs db)).1.confirmed (p.text (lit "signature")) = true) ↔
      (OwnerAmong env now (p.text (lit "recipient_id")) reqs →
        ∃ r, claimInForce env db reqs (p.text (lit "signature")) = some r ∧
          ClaimDeletes env now (p.text (lit "recipient_id")) r) := by
  obtain ⟨hmsg, hreq⟩ := handleAll_spec (Verifier.signature_encodable hv.verified) reqs db hreqs hnew
  have hnew' : (handleAll env reqs db).message (p.text (lit "signature")) = none := by
    unfold Db.message at hnew ⊢
    rw [hmsg, hnew]
  rw [ingest_discarded_iff hv hnew' hroom, hreq]
  rfl

theorem sample_validPublish : ValidPublish Sample.config Sample.noon (Sample.payload (lit "c2ln")) :=
  validatePublishPayload_none.1 (by decide +kernel)

theorem sample_owns : Owns Sample.config Sample.noon Sample.ownerKey Sample.recipientId :=
  owns_iff.2 (by decide +kernel)

/-- The owner's request and a stranger's. -/
def ownerRequest : Dict × Datetime := (Sample.deletePayload (lit "c2ln") Sample.ownerKey, Sample.noon)

def otherRequest : Dict × Datetime := (Sample.deletePayload (lit "c2ln") Sample.otherKey, Sample.noon)

theorem sample_requests {r : Dict × Datetime} (h : r = ownerRequest ∨ r = otherRequest) :
    ValidDelete Sample.config r.1 ∧
      r.1.text (lit "target_signature") = (Sample.payload (lit "c2ln")).text (lit "signature") := by
  rcases h with rfl | rfl
  · exact ⟨validateDeletePayload_none.1 (by decide +kernel), by decide⟩
  · exact ⟨validateDeletePayload_none.1 (by decide +kernel), by decide⟩

/-- The owner asks first and a stranger second: the message is discarded. -/
theorem owner_honoured_first :
    (ingest Sample.config .publish Sample.noon true true (Sample.payload (lit "c2ln"))
      (handleAll Sample.config [ownerRequest, otherRequest] .empty)).2 = .discarded := by
  have hiff := owner_honoured_iff .publish (fun r hr => sample_requests (by simpa using hr)) rfl sample_validPublish
    (show hasRoom Sample.config (Sample.payload (lit "c2ln"))
      (handleAll Sample.config [ownerRequest, otherRequest] .empty) = .ok true by decide +kernel)
  refine (hiff.2 (fun _ => ⟨pendingRow ownerRequest, by decide +kernel, .inr sample_owns⟩) ?_).1
  exact ⟨ownerRequest, List.mem_cons_self, sample_owns⟩

/-- A stranger asks first and the owner second: the message is stored, and no row for it is left. -/
theorem owner_not_honoured_second : ∃ p reqs,
    (∀ r ∈ reqs, ValidDelete Sample.config r.1 ∧ r.1.text (lit "target_signature") = p.text (lit "signature")) ∧
    Db.empty.message (p.text (lit "signature")) = none ∧ ValidPublish Sample.config Sample.noon p ∧
    hasRoom Sample.config p (handleAll Sample.config reqs .empty) = .ok true ∧
    OwnerAmong Sample.config Sample.noon (p.text (lit "recipient_id")) reqs ∧
    (ingest Sample.config .publish Sample.noon true true p (handleAll Sample.config reqs .empty)).2 = .stored 1 ∧
    (ingest Sample.config .publish Sample.noon true true p (handleAll Sample.config reqs .empty)).1.request
      (p.text (lit "signature")) = none := by
  refine ⟨Sample.payload (lit "c2ln"), [otherRequest, ownerRequest], ?_, rfl, sample_validPublish, by decide +kernel,
    ⟨ownerRequest, by simp, sample_owns⟩, by decide +kernel, by decide +kernel⟩
  intro r hr
  exact sample_requests (by simpa [or_comm] using hr)

end AetherNode.PendingDeletes
