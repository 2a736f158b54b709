import AetherNode.Relay
/-!
# The handlers run alone

`resolve_deletion_request` and the ingestion of a message as the source writes
them, section after section. `ingest_schedule` is the link to the concurrent
relay: the schedule that lets one ingestion take all its sections in a row
leaves what `ingest` computes. `ingest_effect` says what that can be.
-/
open AetherNode.Lib AetherNode.Lib.Json AetherNode.Protocol

namespace AetherNode

variable {env : Env}

/-- `resolve_deletion_request`: true when the message must be discarded. -/
def resolveDeletionRequest (env : Env) (now : Datetime) (signature recipientId : Str) : Section Bool := fun db =>
  match readDeletionRequest signature db with
  | .error e => (db, .error e)
  | .ok .noRequest => (db, .ok false)
  | .ok .alreadyConfirmed => (db, .ok true)
  | .ok (.pending requesterPubkey) =>
    match claimMatches env now requesterPubkey recipientId with
    | .error e => (db, .error e)
    | .ok matched =>
      match writeResolution env now signature recipientId requesterPubkey matched db with
      | (db', .error e) => (db', .error e)
      | (db', .ok ()) => (db', .ok matched)

/-- An ingestion from its first section to its end, with the limiters' answers before and after the
validation. A stored message is followed by the publish fan-out. -/
def ingest (env : Env) (path : Path) (now : Datetime) (gate identityGate : Bool) (p : Dict) (db : Db) : Db × Outcome :=
  let signature := p.text (lit "signature")
  let recipientId := p.text (lit "recipient_id")
  match alreadyStored p db with
  | .error e => (db, .raised e)
  | .ok true => (db, .duplicate)
  | .ok false =>
    if !gate then (db, .rateLimited)
    else
      match hasRoom env p db with
      | .error e => (db, .raised e)
      | .ok false => (db, .quotaExceeded)
      | .ok true =>
        match validatePublishPayload env now p with
        | .error e => (db, .raised e)
        | .ok (some error) => (db, .invalid error)
        | .ok none =>
          if ¬ (identityGate ∨ path = .gossipPublish) then (db, .rateLimited)
          else
            match resolveDeletionRequest env now signature recipientId db with
            | (db', .error e) => (db', .raised e)
            | (db', .ok true) => (db', .discarded)
            | (db', .ok false) =>
              let r := insertMessageAndMaybeGossip env p recipientId now db'
              (r.1, insertOutcome r.2)

/-! ## The uninterrupted schedule -/

/-- Some schedule in which only ingestion `i` takes sections ends with these tables and this outcome. -/
def Finishes (s : Relay env) (i : Nat) (path : Path) (p : Dict) (r : Db × Outcome) : Prop :=
  ∃ h, Run (step env) (fun _ e => ∃ now gate, e = .advance i now gate) s h
    ⟨r.1, s.ingests.set i ⟨path, p, .done r.2⟩⟩

section
variable {s : Relay env} {i : Nat} {path : Path} {p : Dict}

/-- One section, then the rest of the schedule. -/
theorem finishes_step {ph : Phase env p} {r : Db × Outcome} (now : Datetime) (gate : Bool) (db' : Db)
    (ph' : Phase env p) (hg : s.ingests[i]? = some ⟨path, p, ph⟩) (hd : ph.isDone = false)
    (ha : advance env now gate ⟨path, p, ph⟩ s.db = (db', ph'))
    (hnext : ∀ t : Relay env, t.db = db' → t.ingests[i]? = some ⟨path, p, ph'⟩ → Finishes t i path p r) :
    Finishes s i path p r := by
  have hlt : i < s.ingests.length := (List.getElem?_eq_some_iff.1 hg).1
  have hstep : step env s (.advance i now gate) = some (⟨db', s.ingests.set i ⟨path, p, ph'⟩⟩, obsOf ph') := by
    simp only [step, hg, hd, Relay.setPhase, ha]
    rfl
  obtain ⟨h, hrun⟩ := hnext ⟨db', s.ingests.set i ⟨path, p, ph'⟩⟩ rfl (by simp [hlt])
  have hone : Run (step env) (fun _ e => ∃ now gate, e = .advance i now gate) s
      ([] ++ [(.advance i now gate, obsOf ph')]) ⟨db', s.ingests.set i ⟨path, p, ph'⟩⟩ :=
    .snoc .nil ⟨now, gate, rfl⟩ hstep
  rw [List.set_set] at hrun
  exact ⟨_, hone.trans hrun⟩

/-- One more section ends the ingestion. -/
theorem finishes_last {ph : Phase env p} {db' : Db} {o : Outcome} (now : Datetime) (gate : Bool)
    (hg : s.ingests[i]? = some ⟨path, p, ph⟩) (hd : ph.isDone = false)
    (ha : advance env now gate ⟨path, p, ph⟩ s.db = (db', .done o)) :
    Finishes s i path p (db', o) := by
  apply finishes_step now gate db' (.done o) hg hd ha
  rintro t rfl ht
  obtain ⟨hi, hx⟩ := List.getElem?_eq_some_iff.1 ht
  refine ⟨[], ?_⟩
  rw [← hx, List.set_getElem_self]
  exact .nil

theorem finishes_insert {hv : Validated env p} (now : Datetime) (hg : s.ingests[i]? = some ⟨path, p, .insert hv⟩) :
    Finishes s i path p ((insertMessageAndMaybeGossip env p (p.text (lit "recipient_id")) now s.db).1,
      insertOutcome (insertMessageAndMaybeGossip env p (p.text (lit "recipient_id")) now s.db).2) :=
  finishes_last now true hg rfl rfl

/-- From the tombstone check on, the sections do what `resolve_deletion_request` and the insert do. -/
theorem finishes_resolve {hv : Validated env p} (now : Datetime) (hg : s.ingests[i]? = some ⟨path, p, .resolveRead hv⟩) :
    Finishes s i path p
      (match resolveDeletionRequest env now (p.text (lit "signature")) (p.text (lit "recipient_id")) s.db with
        | (db', .error e) => (db', .raised e)
        | (db', .ok true) => (db', .discarded)
        | (db', .ok false) =>
          let r := insertMessageAndMaybeGossip env p (p.text (lit "recipient_id")) now db'
          (r.1, insertOutcome r.2)) := by
  unfold resolveDeletionRequest
  cases hread : readDeletionRequest (p.text (lit "signature")) s.db with
  | error e => exact finishes_last now true hg rfl (by simp [advance, hread])
  | ok res =>
    cases res with
    | noRequest =>
      apply finishes_step now true s.db (.insert hv) hg rfl (by simp [advance, hread])
      rintro t ht hgt
      rw [← ht]
      exact finishes_insert now hgt
    | alreadyConfirmed => exact finishes_last now true hg rfl (by simp [advance, hread])
    | pending key =>
      dsimp only
      cases hclaim : claimMatches env now key (p.text (lit "recipient_id")) with
      | error e =>
        apply finishes_last now true hg rfl
        simp only [advance, hread]
        split <;> simp_all
      | ok matched =>
        -- Nothing runs between the two sections: the write section meets the row that was read.
        refine finishes_step now true s.db (.resolveWrite hv key matched ⟨now, hclaim⟩) hg rfl ?_ ?_
        · simp only [advance, hread]
          split
          · simp_all
          · rename_i matched' hclaim'
            cases hclaim.symm.trans hclaim'
            rfl
        · rintro t ht hgt
          rw [← ht]
          have hw : writeResolution env now (p.text (lit "signature")) (p.text (lit "recipient_id")) key matched t.db = _ :=
            writeResolution_eq (validated_signature hv) hclaim t.db
          simp only [hw]
          cases matched with
          | true => exact finishes_last now true hgt rfl (by simp [advance, hw])
          | false =>
            refine finishes_step now true (t.db.deleteRequest (p.text (lit "signature"))) (.insert hv) hgt rfl
              (by simp [advance, hw]) ?_
            rintro t' ht' hgt'
            have := finishes_insert now hgt'
            rwa [ht'] at this

/-- Left alone, an ingestion of the concurrent relay does what `ingest` computes. -/
theorem ingest_schedule (now : Datetime) (gate identityGate : Bool)
    (hg : s.ingests[i]? = some ⟨path, p, .messageExists⟩) :
    Finishes s i path p (ingest env path now gate identityGate p s.db) := by
  unfold ingest
  dsimp only
  cases hex : alreadyStored p s.db with
  | error e => exact finishes_last now gate hg rfl (by simp [advance, hex])
  | ok found =>
    cases found with
    | true => exact finishes_last now gate hg rfl (by simp [advance, hex])
    | false =>
      cases gate with
      | false => exact finishes_last now false hg rfl (by simp [advance, hex])
      | true =>
        refine finishes_step now true s.db .checkRecipientQuota hg rfl
          (by simp [advance, hex]) ?_
        rintro t ht hgt
        rw [← ht]
        cases hroom : hasRoom env p t.db with
        | error e => exact finishes_last now identityGate hgt rfl (by simp [advance, hroom])
        | ok room =>
          cases room with
          | false => exact finishes_last now identityGate hgt rfl (by simp [advance, hroom])
          | true =>
            cases hval : validatePublishPayload env now p with
            | error e =>
              apply finishes_last now identityGate hgt rfl
              simp only [advance, hroom]
              split <;> simp_all
            | ok res =>
              cases res with
              | some error =>
                apply finishes_last now identityGate hgt rfl
                simp only [advance, hroom]
                split <;> simp_all
              | none =>
                by_cases hpass : identityGate = true ∨ path = .gossipPublish
                · refine finishes_step now identityGate t.db
                    (.resolveRead ⟨now, validatePublishPayload_none.1 hval⟩) hgt rfl ?_ ?_
                  · simp only [advance, hroom]
                    split <;> simp_all
                  · rintro t' ht' hgt'
                    rw [← ht', if_neg (not_not.2 hpass)]
                    exact finishes_resolve now hgt'
                · rw [if_pos hpass]
                  apply finishes_last now identityGate hgt rfl
                  simp only [advance, hroom]
                  split <;> simp_all

end

/-! ## What a handler run alone does -/

/-- There is a pending row by `key` for the signature. -/
def Pending (db : Db) (signature key : Str) : Prop :=
  ∃ r, db.request signature = some r ∧ r.confirmed = false ∧ r.requesterPubkey = key

/-- What `resolve_deletion_request` does and returns, by the row it finds. -/
theorem resolve_cases {now : Datetime} {sig rid : Str} {db db' : Db} {r : Except PyError Bool}
    (hsig : encodable sig = true) (h : resolveDeletionRequest env now sig rid db = (db', r)) :
    (db.request sig = none ∧ db' = db ∧ r = .ok false) ∨
      (db.confirmed sig = true ∧ db' = db ∧ r = .ok true) ∨
      ∃ key, Pending db sig key ∧
        ((∃ e, claimMatches env now key rid = .error e ∧ db' = db ∧ r = .error e) ∨
          (Owns env now key rid ∧ db' = db.bury ⟨sig, key, rid, true, now.isoformat⟩ ∧ r = .ok true) ∨
          (claimMatches env now key rid = .ok false ∧ db' = db.deleteRequest sig ∧ r = .ok false)) := by
  unfold resolveDeletionRequest readDeletionRequest at h
  rw [if_pos hsig] at h
  cases hreq : db.request sig with
  | none =>
    simp only [hreq] at h
    obtain ⟨rfl, rfl⟩ := Prod.mk.inj h
    exact .inl ⟨rfl, rfl, rfl⟩
  | some row =>
    simp only [hreq] at h
    cases hc : row.confirmed with
    | true =>
      simp only [hc, if_true] at h
      obtain ⟨rfl, rfl⟩ := Prod.mk.inj h
      exact .inr (.inl ⟨Db.confirmed_iff.2 ⟨row, hreq, hc⟩, rfl, rfl⟩)
    | false =>
      simp only [hc, Bool.false_eq_true, if_false] at h
      refine .inr (.inr ⟨row.requesterPubkey, ⟨row, hreq, hc, rfl⟩, ?_⟩)
      cases hm : claimMatches env now row.requesterPubkey rid with
      | error e =>
        simp only [hm] at h
        obtain ⟨rfl, rfl⟩ := Prod.mk.inj h
        exact .inl ⟨e, rfl, rfl, rfl⟩
      | ok matched =>
        simp only [hm, writeResolution_eq hsig hm] at h
        obtain ⟨rfl, rfl⟩ := Prod.mk.inj h
        cases matched with
        | false => exact .inr (.inr ⟨rfl, rfl, rfl⟩)
        | true => exact .inr (.inl ⟨owns_iff.2 hm, rfl, rfl⟩)

/-- Every way an ingestion run alone changes the tables, with its outcome. -/
inductive IngestEffect (env : Env) (now : Datetime) (p : Dict) (db : Db) : Db → Outcome → Prop
  /-- Nothing changes; a discard then has found a confirmed row. -/
  | same {o} : (∀ id, o ≠ .stored id) → (o = .discarded → db.confirmed (p.text (lit "signature")) = true) →
      IngestEffect env now p db db o
  /-- The message is stored, and no request for its signature is left. -/
  | stores {db' id} : ValidPublish env now p → db.message (p.text (lit "signature")) = none →
      db.confirmed (p.text (lit "signature")) = false →
      (messageOf p (p.text (lit "recipient_id")) now).binds = true →
      (∀ s, db'.message s = if s = p.text (lit "signature")
        then some (messageOf p (p.text (lit "recipient_id")) now) else db.message s) →
      (∀ s, db'.request s = if s = p.text (lit "signature") then none else db.request s) →
      IngestEffect env now p db db' (.stored id)
  /-- A pending claim of someone else is dropped, and the message is not stored. -/
  | drops {key o} : ValidPublish env now p → Pending db (p.text (lit "signature")) key →
      (∀ id, o ≠ .stored id) → o ≠ .discarded →
      IngestEffect env now p db (db.deleteRequest (p.text (lit "signature"))) o
  /-- A pending claim of the owner becomes a confirmed deletion. -/
  | promotes {key} : ValidPublish env now p → Pending db (p.text (lit "signature")) key →
      Owns env now key (p.text (lit "recipient_id")) → db.message (p.text (lit "signature")) = none →
      IngestEffect env now p db
        (db.bury ⟨p.text (lit "signature"), key, p.text (lit "recipient_id"), true, now.isoformat⟩) .discarded

theorem insertOutcome_stored {r : Except PyError InsertResult} {id : Nat} (h : insertOutcome r = .stored id) :
    r = .ok (.stored id) := by
  unfold insertOutcome at h
  split at h <;> cases h
  rfl

theorem insertOutcome_ne_discarded (r : Except PyError InsertResult) : insertOutcome r ≠ .discarded := by
  unfold insertOutcome
  split <;> simp

theorem alreadyStored_false {p : Dict} {db : Db} (hv : Validated env p) (h : alreadyStored p db = .ok false) :
    db.message (p.text (lit "signature")) = none := by
  obtain ⟨t, hv⟩ := hv
  obtain ⟨s, b, hs, hb⟩ := env.verifier.signature_decodes p _ hv.verified
  simp only [alreadyStored, hs, messageExists, encodable_of_b64decode hb, if_true, Except.ok.injEq,
    Option.isSome_eq_false_iff, Option.isNone_iff_eq_none] at h
  rwa [Dict.text_eq hs]

/-- Every ingestion run alone changes the tables in one of these ways. -/
theorem ingest_effect (env : Env) (path : Path) (now : Datetime) (gate identityGate : Bool) (p : Dict) (db : Db) :
    IngestEffect env now p db (ingest env path now gate identityGate p db).1
      (ingest env path now gate identityGate p db).2 := by
  unfold ingest
  dsimp only
  split
  · exact .same (by simp) (by simp)
  · exact .same (by simp) (by simp)
  rename_i hex
  split
  · exact .same (by simp) (by simp)
  split
  · exact .same (by simp) (by simp)
  · exact .same (by simp) (by simp)
  split
  · exact .same (by simp) (by simp)
  · exact .same (by simp) (by simp)
  rename_i hval
  split
  · exact .same (by simp) (by simp)
  -- Up to here no section has written.
  have hv := validatePublishPayload_none.1 hval
  have hsig := Verifier.signature_encodable hv.verified
  have hnone := alreadyStored_false ⟨now, hv⟩ hex
  cases hres : resolveDeletionRequest env now (p.text (lit "signature")) (p.text (lit "recipient_id")) db with
  | mk db' r =>
    rcases resolve_cases hsig hres with ⟨hreq, rfl, rfl⟩ | ⟨hc, rfl, rfl⟩ | ⟨key, hp, ⟨e, -, rfl, rfl⟩ |
      ⟨hown, rfl, rfl⟩ | ⟨-, rfl, rfl⟩⟩
    · dsimp only
      cases hins : insertMessageAndMaybeGossip env p (p.text (lit "recipient_id")) now db' with
      | mk db'' ri =>
        rcases insert_cases hins with ⟨rfl, hns⟩ | ⟨⟨id, rfl⟩, -, -, hb, hlook, hreq'⟩
        · exact .same (fun id h => hns id (insertOutcome_stored h)) fun h => absurd h (insertOutcome_ne_discarded ri)
        · refine .stores hv hnone (by simp [Db.confirmed, hreq]) hb hlook ?_
          intro s
          have : db''.request s = db'.request s := by simp only [Db.request, hreq']
          rw [this]
          split
          · rename_i hs
            rw [hs, hreq]
          · rfl
    · exact .same (by simp) fun _ => hc
    · exact .same (by simp) (by simp)
    · exact .promotes hv hp hown hnone
    · dsimp only
      obtain ⟨row, hrow, hrc, -⟩ := id hp
      cases hins : insertMessageAndMaybeGossip env p (p.text (lit "recipient_id")) now
          (db.deleteRequest (p.text (lit "signature"))) with
      | mk db'' ri =>
        rcases insert_cases hins with ⟨rfl, hns⟩ | ⟨⟨id, rfl⟩, -, -, hb, hlook, hreq'⟩
        · exact .drops hv hp (fun id h => hns id (insertOutcome_stored h)) (insertOutcome_ne_discarded ri)
        · refine .stores hv hnone (by simp [Db.confirmed, hrow, hrc]) hb hlook ?_
          intro s
          have : db''.request s = (db.deleteRequest (p.text (lit "signature"))).request s := by
            simp only [Db.request, hreq']
          rw [this, Db.request_deleteRequest]

theorem ingest_cases {path : Path} {now : Datetime} {gate identityGate : Bool} {p : Dict} {db db' : Db} {o : Outcome}
    (h : ingest env path now gate identityGate p db = (db', o)) : IngestEffect env now p db db' o := by
  have heff := ingest_effect env path now gate identityGate p db
  rwa [h] at heff

/-- A payload that is new, has room and passes goes on to `resolve_deletion_request`. -/
theorem ingest_admitted {path : Path} {now : Datetime} {p : Dict} {db : Db} (hv : ValidPublish env now p)
    (hnew : db.message (p.text (lit "signature")) = none) (hroom : hasRoom env p db = .ok true) :
    ingest env path now true true p db =
      match resolveDeletionRequest env now (p.text (lit "signature")) (p.text (lit "recipient_id")) db with
      | (db', .error e) => (db', .raised e)
      | (db', .ok true) => (db', .discarded)
      | (db', .ok false) =>
        let r := insertMessageAndMaybeGossip env p (p.text (lit "recipient_id")) now db'
        (r.1, insertOutcome r.2) := by
  obtain ⟨s, b, hs, hb⟩ := env.verifier.signature_decodes p _ hv.verified
  have hex : alreadyStored p db = .ok false := by
    rw [Dict.text_eq hs] at hnew
    simp [alreadyStored, hs, messageExists, encodable_of_b64decode hb, hnew]
  simp [ingest, hex, hroom, validatePublishPayload_none.2 hv]

/-- How far the checks let a payload come that no limiter refuses. -/
inductive IngestChecks (env : Env) (path : Path) (now : Datetime) (p : Dict) (db : Db) : Db × Outcome → Prop
  | unbound {e} : alreadyStored p db = .error e → IngestChecks env path now p db (db, .raised e)
  | duplicate : alreadyStored p db = .ok true → IngestChecks env path now p db (db, .duplicate)
  | unboundRecipient {e} : alreadyStored p db = .ok false → hasRoom env p db = .error e →
      IngestChecks env path now p db (db, .raised e)
  | full : alreadyStored p db = .ok false → hasRoom env p db = .ok false → IngestChecks env path now p db (db, .quotaExceeded)
  | clock {e} : alreadyStored p db = .ok false → hasRoom env p db = .ok true →
      validatePublishPayload env now p = .error e → IngestChecks env path now p db (db, .raised e)
  | invalid {error} : alreadyStored p db = .ok false → hasRoom env p db = .ok true →
      validatePublishPayload env now p = .ok (some error) → IngestChecks env path now p db (db, .invalid error)
  | admitted : alreadyStored p db = .ok false → hasRoom env p db = .ok true → ValidPublish env now p →
      IngestChecks env path now p db (ingest env path now true true p db)

theorem ingest_checks (env : Env) (path : Path) (now : Datetime) (p : Dict) (db : Db) :
    IngestChecks env path now p db (ingest env path now true true p db) := by
  cases hstored : alreadyStored p db with
  | error e =>
    have hends : ingest env path now true true p db = (db, .raised e) := by simp [ingest, hstored]
    rw [hends]
    exact .unbound hstored
  | ok stored =>
    cases stored with
    | true =>
      have hends : ingest env path now true true p db = (db, .duplicate) := by simp [ingest, hstored]
      rw [hends]
      exact .duplicate hstored
    | false =>
      cases hroom : hasRoom env p db with
      | error e =>
        have hends : ingest env path now true true p db = (db, .raised e) := by simp [ingest, hstored, hroom]
        rw [hends]
        exact .unboundRecipient hstored hroom
      | ok room =>
        cases room with
        | false =>
          have hends : ingest env path now true true p db = (db, .quotaExceeded) := by simp [ingest, hstored, hroom]
          rw [hends]
          exact .full hstored hroom
        | true =>
          cases hval : validatePublishPayload env now p with
          | error e =>
            have hends : ingest env path now true true p db = (db, .raised e) := by simp [ingest, hstored, hroom, hval]
            rw [hends]
            exact .clock hstored hroom hval
          | ok result =>
            cases result with
            | none => exact .admitted hstored hroom (validatePublishPayload_none.1 hval)
            | some error =>
              have hends : ingest env path now true true p db = (db, .invalid error) := by
                simp [ingest, hstored, hroom, hval]
              rw [hends]
              exact .invalid hstored hroom hval

/-! ## A relay that handles one operation at a time -/

/-- An operation handled alone. -/
inductive AtomicEvent where
  | ingest (path : Path) (payload : Dict) (now : Datetime) (gate identityGate : Bool)
  | delete (payload : Dict) (now : Datetime) (gate : Gate)
  | pullDeletion (item : Dict) (now : Datetime) (gate : Bool)
  | sweep (now cutoffNow : Datetime)

inductive AtomicObs where
  | ingest (o : Outcome)
  | delete (o : DeleteOutcome)
  | pullDeletion (o : PullOutcome)
  | sweep (r : Except PyError Unit)

def atomicStep (env : Env) : System Db AtomicEvent AtomicObs
  | db, .ingest path p now gate identityGate =>
    let r := ingest env path now gate identityGate p db
    some (r.1, .ingest r.2)
  | db, .delete p now gate =>
    let r := doDelete env now gate p db
    some (r.1, .delete r.2)
  | db, .pullDeletion item now gate =>
    let r := syncDeletion env now gate item db
    some (r.1, .pullDeletion r.2)
  | db, .sweep now cutoffNow =>
    let r := runOnce env now cutoffNow db
    some (r.1, .sweep r.2)

/-- Histories of a relay that starts with empty tables and handles one operation at a time. -/
abbrev AtomicRun (env : Env) : List (AtomicEvent × AtomicObs) → Db → Prop := Run (atomicStep env) Any Db.empty

/-- The operation is followed by a fan-out. -/
def AtomicObs.fansOut : AtomicObs → Bool
  | .ingest (.stored _) => true
  | .delete (.replied .deleted) => true
  | _ => false

/-- Every way an operation handled alone changes the tables, with what it shows. -/
inductive AtomicEffect (env : Env) (db : Db) : AtomicEvent → AtomicObs → Db → Prop
  /-- Nothing changes. -/
  | same {e o} : o.fansOut = false → AtomicEffect env db e o db
  /-- A new message is stored. -/
  | stores {path p now gate identityGate id db'} : ValidPublish env now p →
      db.message (p.text (lit "signature")) = none → db.confirmed (p.text (lit "signature")) = false →
      (∀ s, db'.message s = if s = p.text (lit "signature")
        then some (messageOf p (p.text (lit "recipient_id")) now) else db.message s) →
      (∀ s, db'.request s = if s = p.text (lit "signature") then none else db.request s) →
      AtomicEffect env db (.ingest path p now gate identityGate) (.ingest (.stored id)) db'
  /-- A claim that does not match an arriving message is dropped, and the message is not stored. -/
  | drops {path p now gate identityGate key o} : Pending db (p.text (lit "signature")) key → o.fansOut = false →
      AtomicEffect env db (.ingest path p now gate identityGate) o (db.deleteRequest (p.text (lit "signature")))
  /-- A claim that matches an arriving message is confirmed. -/
  | promotes {path p now gate identityGate key} : ValidPublish env now p →
      Pending db (p.text (lit "signature")) key → Owns env now key (p.text (lit "recipient_id")) →
      AtomicEffect env db (.ingest path p now gate identityGate) (.ingest .discarded)
        (db.bury ⟨p.text (lit "signature"), key, p.text (lit "recipient_id"), true, now.isoformat⟩)
  /-- The owner of a stored message deletes it. -/
  | deletes {p now gate m} : ValidDelete env p → db.message (p.text (lit "target_signature")) = some m →
      Owns env now (p.text (lit "recipient_pubkey")) m.recipientId →
      AtomicEffect env db (.delete p now gate) (.delete (.replied .deleted))
        (db.bury ⟨p.text (lit "target_signature"), p.text (lit "recipient_pubkey"), m.recipientId, true, now.isoformat⟩)
  /-- A delete request for a signature that is not stored. -/
  | records {p now gate} : ValidDelete env p → db.message (p.text (lit "target_signature")) = none →
      AtomicEffect env db (.delete p now gate) (.delete (.replied .deleteRequested))
        (db.recordRequest ⟨p.text (lit "target_signature"), p.text (lit "recipient_pubkey"), [], false, now.isoformat⟩)
  /-- A pulled tombstone for a signature with no confirmed row. -/
  | adopts {item now t row} : item.get (lit "target_signature") = some (.str t) → db.confirmed t = false →
      pulledTombstone env now item t = .ok row →
      AtomicEffect env db (.pullDeletion item now true) (.pullDeletion .adopted) (db.bury row)
  /-- A pulled tombstone that does not bind. -/
  | loses {item now t err} : item.get (lit "target_signature") = some (.str t) → db.confirmed t = false →
      pulledTombstone env now item t = .error err →
      AtomicEffect env db (.pullDeletion item now true) (.pullDeletion (.raised err)) (db.deleteMessage t)
  /-- A sweep. -/
  | sweeps {now cutoffNow cutoff r db'} : cutoffNow.addSeconds (-env.maxTtlSeconds) = some cutoff →
      (∀ s, db'.message s = (db.message s).filter fun m => !decide (m.expiresAt ≤ now.isoformat)) →
      (∀ s, db'.request s = (db.request s).filter fun r => !decide (r.requestedAt ≤ cutoff.isoformat)) →
      AtomicEffect env db (.sweep now cutoffNow) (.sweep r) db'

theorem fansOut_ingest {o : Outcome} (h : ∀ id, o ≠ .stored id) : (AtomicObs.ingest o).fansOut = false := by
  cases o with
  | stored id => exact absurd rfl (h id)
  | _ => rfl

theorem fansOut_delete {o : DeleteOutcome} (h : o ≠ .replied .deleted) : (AtomicObs.delete o).fansOut = false := by
  cases o with
  | replied r =>
    cases r with
    | deleted => exact absurd rfl h
    | deleteRequested => rfl
  | _ => rfl

/-- Every operation handled alone changes the tables in one of these ways. -/
theorem atomic_effect {db db' : Db} {e : AtomicEvent} {o : AtomicObs} (h : atomicStep env db e = some (db', o)) :
    AtomicEffect env db e o db' := by
  cases e with
  | ingest path p now gate identityGate =>
    simp only [atomicStep, Option.some.injEq, Prod.mk.injEq] at h
    obtain ⟨rfl, rfl⟩ := h
    cases hr : ingest env path now gate identityGate p db with | mk db' o =>
    cases ingest_cases hr with
    | same hn => exact .same (fansOut_ingest hn)
    | stores hv hnone hc _ hlook hreq => exact .stores hv hnone hc hlook hreq
    | drops _ hp hn => exact .drops hp (fansOut_ingest hn)
    | promotes hv hp hown => exact .promotes hv hp hown
  | delete p now gate =>
    simp only [atomicStep, Option.some.injEq, Prod.mk.injEq] at h
    obtain ⟨rfl, rfl⟩ := h
    rcases doDelete_cases (Prod.mk.eta.symm : doDelete env now gate p db = _) with
      ⟨hd, ho⟩ | ⟨-, hv, m, hm, hown, ho, hd⟩ | ⟨-, hv, hnone, ho, hd⟩
    · rw [hd]
      exact .same (fansOut_delete ho)
    · rw [hd, ho]
      exact .deletes hv hm hown
    · rw [hd, ho]
      exact .records hv hnone
  | pullDeletion item now gate =>
    simp only [atomicStep, Option.some.injEq, Prod.mk.injEq] at h
    obtain ⟨rfl, rfl⟩ := h
    rcases syncDeletion_cases (Prod.mk.eta.symm : syncDeletion env now gate item db = _) with
      ⟨hd, -⟩ | ⟨t, ht, rfl, -, hc, ⟨row, hrow, hd, ho⟩ | ⟨err, herr, hd, ho⟩⟩
    · rw [hd]
      exact .same rfl
    · rw [hd, ho]
      exact .adopts ht hc hrow
    · rw [hd, ho]
      exact .loses ht hc herr
  | sweep now cutoffNow =>
    simp only [atomicStep, Option.some.injEq, Prod.mk.injEq] at h
    obtain ⟨rfl, rfl⟩ := h
    cases hr : runOnce env now cutoffNow db with | mk db' r =>
    rcases runOnce_cases hr with ⟨-, rfl⟩ | ⟨cutoff, hc, hm, hq⟩
    · exact .same rfl
    · exact .sweeps hc hm hq

/-- Only an ingestion that stores adds a message. -/
theorem atomic_message {db db' : Db} {e : AtomicEvent} {o : AtomicObs} (h : atomicStep env db e = some (db', o))
    {sig : Str} {m : Message} (hm : db'.message sig = some m) :
    db.message sig = some m ∨ ∃ path p now gate identityGate id, e = .ingest path p now gate identityGate ∧
      o = .ingest (.stored id) ∧ ValidPublish env now p ∧ sig = p.text (lit "signature") ∧
      m = messageOf p (p.text (lit "recipient_id")) now := by
  have hbury : ∀ row, (db.bury row).message sig = some m → db.message sig = some m := by
    intro row hm
    rw [Db.message_bury] at hm
    split at hm
    · cases hm
    · exact hm
  cases atomic_effect h with
  | same => exact .inl hm
  | stores hv _ _ hlook =>
    rw [hlook] at hm
    split at hm
    · rename_i hs
      cases hm
      exact .inr ⟨_, _, _, _, _, _, rfl, rfl, hv, hs, rfl⟩
    · exact .inl hm
  | drops => exact .inl hm
  | promotes => exact .inl (hbury _ hm)
  | deletes => exact .inl (hbury _ hm)
  | records => exact .inl hm
  | adopts => exact .inl (hbury _ hm)
  | loses =>
    rw [Db.message_deleteMessage] at hm
    split at hm
    · cases hm
    · exact .inl hm
  | sweeps _ hk =>
    rw [hk] at hm
    exact .inl (Option.filter_eq_some_iff.1 hm).1

/-- A store that holds the sample message. -/
def Sample.holding : Db := (ingest config .publish noon true true (payload (lit "c2ln")) .empty).1

end AetherNode
