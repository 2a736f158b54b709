import AetherNode.AntiEntropy
/-!
# The three ways in and the plain one

Every path first looks at fields it has not verified: whether the signature is
stored already, and whether the recipient has room. The plain pipeline
validates, resolves deletion requests and inserts, and does nothing else. On
every store that a relay can reach both leave the same messages, because a
stored signature never has a deletion request.
-/
open AetherNode.Lib AetherNode.Lib.Json AetherNode.Protocol

namespace AetherNode.Pipeline

variable {env : Env} {now : Datetime} {p : Dict} {db db' : Db}

/-- The abstract ingestion: validate, stop at a prior deletion, insert within the quotas. -/
def plainPipeline (env : Env) (now : Datetime) (p : Dict) (db : Db) : Db × Outcome :=
  match validatePublishPayload env now p with
  | .error e => (db, .raised e)
  | .ok (some error) => (db, .invalid error)
  | .ok none =>
    match resolveDeletionRequest env now (p.text (lit "signature")) (p.text (lit "recipient_id")) db with
    | (db', .error e) => (db', .raised e)
    | (db', .ok true) => (db', .discarded)
    | (db', .ok false) =>
      let r := insertMessageAndMaybeGossip env p (p.text (lit "recipient_id")) now db'
      (r.1, insertOutcome r.2)

/-- The same `messages` table, and a new row, which is what schedules the fan-out, in one exactly when in the other. -/
structure SameStore (r r' : Db × Outcome) : Prop where
  messages : r.1.messages = r'.1.messages
  fanOut : ∀ id, r.2 = .stored id ↔ r'.2 = .stored id

/-- Nothing is stored. -/
structure StoresNothing (db : Db) (r : Db × Outcome) : Prop where
  messages : r.1.messages = db.messages
  fanOut : ∀ id, r.2 ≠ .stored id

theorem StoresNothing.same {r r' : Db × Outcome} (h : StoresNothing db r) (h' : StoresNothing db r') : SameStore r r' :=
  ⟨h.messages.trans h'.messages.symm, fun id => iff_of_false (h.fanOut id) (h'.fanOut id)⟩

/-! ## A stored signature has no deletion request -/

/-- No stored signature has a row in `deletion_requests`, pending or confirmed. -/
def Exclusive (db : Db) : Prop := ∀ s, (db.message s).isSome = true → db.request s = none

theorem Exclusive.bury (h : Exclusive db) (row : DeletionRequest) : Exclusive (db.bury row) := by
  intro s hs
  rw [Db.message_bury] at hs
  rw [Db.request_bury]
  split at hs
  · cases hs
  · rename_i hne
    rw [if_neg hne]
    exact h s hs

theorem Exclusive.recordRequest (h : Exclusive db) {r : DeletionRequest} (hnone : db.message r.targetSignature = none) :
    Exclusive (db.recordRequest r) := by
  intro s hs
  rw [Db.message_recordRequest] at hs
  have hne : s ≠ r.targetSignature := by
    rintro rfl
    rw [hnone] at hs
    cases hs
  rw [Db.request_recordRequest, if_neg (by simp [hne])]
  exact h s hs

theorem atomic_exclusive {e : AtomicEvent} {o : AtomicObs} (h : atomicStep env db e = some (db', o))
    (hdb : Exclusive db) : Exclusive db' := by
  cases atomic_effect h with
  | same => exact hdb
  | @stores path p now gate identityGate id _ hv hnone hfree hlook hreq =>
    intro s hs
    rw [hreq]
    split
    · rfl
    · rename_i hne
      rw [hlook, if_neg hne] at hs
      exact hdb s hs
  | @drops path p now gate identityGate key _ hp =>
    intro s hs
    rw [Db.request_deleteRequest]
    split
    · rfl
    · exact hdb s hs
  | promotes => exact hdb.bury _
  | deletes => exact hdb.bury _
  | records _ hnone => exact hdb.recordRequest hnone
  | adopts => exact hdb.bury _
  | @loses item now t err =>
    intro s hs
    rw [Db.message_deleteMessage] at hs
    split at hs
    · cases hs
    · exact hdb s hs
  | sweeps _ hm hq =>
    intro s hs
    rw [hm] at hs
    obtain ⟨m, hfilter⟩ := Option.isSome_iff_exists.1 hs
    rw [hq, hdb s (by rw [(Option.filter_eq_some_iff.1 hfilter).1]; rfl)]
    rfl

theorem run_exclusive {h : List (AtomicEvent × AtomicObs)} (hr : AtomicRun env h db) : Exclusive db :=
  hr.inv Exclusive (by intro s hs; cases hs) fun _ _ _ _ hdb _ hstep => atomic_exclusive hstep hdb

/-! ## Where the pre-filters stop -/

/-- Of a signature that is not stored, a resolution touches the deletion requests only. -/
theorem resolve_messages {sig rid : Str} {r : Except PyError Bool} (hsig : encodable sig = true)
    (hnone : db.message sig = none) (h : resolveDeletionRequest env now sig rid db = (db', r)) :
    db'.messages = db.messages := by
  have hbury : ∀ row : DeletionRequest, row.targetSignature = sig → (db.bury row).messages = db.messages := by
    rintro row rfl
    exact Table.deleteKey_absent hnone
  rcases resolve_cases hsig h with ⟨-, rfl, -⟩ | ⟨-, rfl, -⟩ | ⟨key, -, ⟨e, -, rfl, -⟩ | ⟨-, rfl, -⟩ | ⟨-, rfl, -⟩⟩
  · rfl
  · rfl
  · rfl
  · exact hbury _ rfl
  · rfl

/-- What does not get into the table at its insert is not stored. -/
theorem insert_storesNothing {db₁ : Db} (hmessages : db₁.messages = db.messages)
    (h : ∀ messages id, db.messages.insert? (messageOf p (p.text (lit "recipient_id")) now) = some (messages, id) →
      quotaReached env (p.text (lit "recipient_id")) db = false →
      (messageOf p (p.text (lit "recipient_id")) now).binds = true → False) :
    StoresNothing db ((insertMessageAndMaybeGossip env p (p.text (lit "recipient_id")) now db₁).1,
      insertOutcome (insertMessageAndMaybeGossip env p (p.text (lit "recipient_id")) now db₁).2) := by
  have hinbox : ∀ rid, db₁.inbox rid = db.inbox rid := fun rid => by rw [Db.inbox, Db.inbox, hmessages]
  have hquota : quotaReached env (p.text (lit "recipient_id")) db₁ = quotaReached env (p.text (lit "recipient_id")) db := by
    unfold quotaReached
    rw [hinbox]
  cases hi : insertMessageAndMaybeGossip env p (p.text (lit "recipient_id")) now db₁ with
  | mk db₂ r =>
    rcases insert_spec hi with ⟨rfl, hnot⟩ | ⟨messages, id, hins, hq, hb, -, -⟩
    · exact ⟨hmessages, fun id hid => hnot id (insertOutcome_stored hid)⟩
    · exact (h messages id (hmessages ▸ hins) (hquota ▸ hq) hb).elim

/-- The plain pipeline stores nothing where a valid payload would not get past the resolution and the insert. -/
theorem plain_storesNothing (h : ValidPublish env now p → StoresNothing db
    (match resolveDeletionRequest env now (p.text (lit "signature")) (p.text (lit "recipient_id")) db with
      | (db', .error e) => (db', .raised e)
      | (db', .ok true) => (db', .discarded)
      | (db', .ok false) =>
        let r := insertMessageAndMaybeGossip env p (p.text (lit "recipient_id")) now db'
        (r.1, insertOutcome r.2))) : StoresNothing db (plainPipeline env now p db) := by
  unfold plainPipeline
  split
  · exact ⟨rfl, by simp⟩
  · exact ⟨rfl, by simp⟩
  · rename_i hv
    exact h (validatePublishPayload_none.1 hv)

/-- It stores nothing under a signature that is stored. -/
theorem plain_stored (hdb : Exclusive db) (hstored : (db.message (p.text (lit "signature"))).isSome = true) :
    StoresNothing db (plainPipeline env now p db) := by
  refine plain_storesNothing fun hv => ?_
  have hsig := Verifier.signature_encodable hv.verified
  have hresolve : resolveDeletionRequest env now (p.text (lit "signature")) (p.text (lit "recipient_id")) db =
      (db, .ok false) := by
    simp [resolveDeletionRequest, readDeletionRequest, hsig, hdb _ hstored]
  rw [hresolve]
  refine insert_storesNothing rfl ?_
  intro messages id hins _ _
  have hnone : db.message (p.text (lit "signature")) = none := (Table.insert?_eq_some hins).1
  rw [hnone] at hstored
  cases hstored

/-- It stores nothing for a recipient without room, or whose id does not bind. -/
theorem plain_full (hnone : db.message (p.text (lit "signature")) = none)
    (hfull : quotaReached env (p.text (lit "recipient_id")) db = true ∨
      encodable (p.text (lit "recipient_id")) = false) :
    StoresNothing db (plainPipeline env now p db) := by
  refine plain_storesNothing fun hv => ?_
  have hsig := Verifier.signature_encodable hv.verified
  cases hres : resolveDeletionRequest env now (p.text (lit "signature")) (p.text (lit "recipient_id")) db with
  | mk db₁ r =>
    have hmessages := resolve_messages hsig hnone hres
    cases r with
    | error e => exact ⟨hmessages, by simp⟩
    | ok discard =>
      cases discard with
      | true => exact ⟨hmessages, by simp⟩
      | false =>
        refine insert_storesNothing hmessages ?_
        intro messages id _ hq hb
        simp only [Message.binds, Bool.and_eq_true] at hb
        rcases hfull with hfull | hfull
        · rw [hfull] at hq
          cases hq
        · have hrid : encodable (p.text (lit "recipient_id")) = true := hb.1.1.1
          rw [hfull] at hrid
          cases hrid

/-- A payload without a text as its signature is not valid. -/
theorem plain_unverified (h : ¬ ValidPublish env now p) : StoresNothing db (plainPipeline env now p db) :=
  plain_storesNothing fun hv => absurd hv h

/-! ## The paths agree -/

/-- With no limiter refusing, every payload leaves the messages of a reachable store as the plain pipeline does,
whichever path it takes, and its fan-out is scheduled exactly when the plain pipeline stores it. -/
theorem paths_agree {h : List (AtomicEvent × AtomicObs)} (hr : AtomicRun env h db) (path : Path) (now : Datetime)
    (p : Dict) : SameStore (ingest env path now true true p db) (plainPipeline env now p db) := by
  have hdb := run_exclusive hr
  by_cases hv : ValidPublish env now p
  · obtain ⟨rid, hrid, -⟩ := hv.recipient
    have hchecked := ingest_checks env path now p db
    generalize hr : ingest env path now true true p db = r at hchecked
    cases hchecked with
    | unbound herror =>
      -- The signature is a text that does not bind, so it does not verify.
      obtain ⟨s, b, hs, hb⟩ := env.verifier.signature_decodes p _ hv.verified
      simp [alreadyStored, hs, messageExists, encodable_of_b64decode hb] at herror
    | duplicate hstored =>
      refine StoresNothing.same ⟨rfl, by simp⟩ (plain_stored hdb ?_)
      unfold alreadyStored at hstored
      split at hstored
      · rename_i s hs
        unfold messageExists at hstored
        split at hstored
        · rw [Dict.text_eq hs]
          exact Except.ok.inj hstored
        · cases hstored
      · cases hstored
    | unboundRecipient hstored herror =>
      refine StoresNothing.same ⟨rfl, by simp⟩ (plain_full (alreadyStored_false ⟨now, hv⟩ hstored) (.inr ?_))
      rw [Dict.text_eq hrid]
      cases hbind : encodable rid with
      | false => rfl
      | true => simp [hasRoom, hrid, checkRecipientQuota, hbind] at herror
    | full hstored hroom =>
      refine StoresNothing.same ⟨rfl, by simp⟩ (plain_full (alreadyStored_false ⟨now, hv⟩ hstored) ?_)
      rw [Dict.text_eq hrid]
      cases hbind : encodable rid with
      | false => exact .inr rfl
      | true => simpa [hasRoom, hrid, checkRecipientQuota, hbind] using hroom
    | clock _ _ herror => rw [validatePublishPayload_none.2 hv] at herror; cases herror
    | invalid _ _ hinvalid => rw [validatePublishPayload_none.2 hv] at hinvalid; cases hinvalid
    | admitted hstored hroom _ =>
      -- Past the pre-filters the two are the same.
      rw [ingest_admitted hv (alreadyStored_false ⟨now, hv⟩ hstored) hroom]
      simp only [plainPipeline, validatePublishPayload_none.2 hv]
      exact ⟨rfl, fun _ => Iff.rfl⟩
  · -- An invalid payload is not stored by either.
    refine StoresNothing.same ?_ (plain_unverified hv)
    have heff := ingest_effect env path now true true p db
    generalize ingest env path now true true p db = r at heff
    obtain ⟨db', o⟩ := r
    cases heff with
    | same hno => exact ⟨rfl, hno⟩
    | stores hv' => exact absurd hv' hv
    | drops hv' => exact absurd hv' hv
    | promotes hv' => exact absurd hv' hv

/-- A message arrives on a pull where a stranger's claim to it is pending. -/
theorem paths_agree_pending : ∃ h db, AtomicRun Sample.config h db ∧ (db.request (lit "c2ln")).isSome = true ∧
    SameStore (ingest Sample.config .antiEntropyPull Sample.noon true true (Sample.payload (lit "c2ln")) db)
      (plainPipeline Sample.config Sample.noon (Sample.payload (lit "c2ln")) db) := by
  obtain ⟨h, db, hr, hpending⟩ := exists_any_run (atomicStep Sample.config)
    (fun db _ => (db.request (lit "c2ln")).isSome) .empty
    [.delete (Sample.deletePayload (lit "c2ln") Sample.otherKey) Sample.noon .pass] (by decide +kernel)
  exact ⟨h, db, hr, hpending, paths_agree hr .antiEntropyPull Sample.noon _⟩

end AetherNode.Pipeline
