import AetherNode.Lib.Run
import AetherNode.Store
/-!
# One relay, its requests running at once

A relay serves every request in a thread of its own and serializes only the
`db_lock` sections. The state is the tables and the ingestions under way; an
event is one section together with the code that follows it up to the next
one. The answers of the rate limiters and every clock reading come with the
event, so they are free.
-/
open AetherNode.Lib AetherNode.Lib.Json AetherNode.Protocol

namespace AetherNode

/-- The three ways a relay learns of a message. -/
inductive Path where
  | publish
  | gossipPublish
  | antiEntropyPull
  deriving DecidableEq

/-- How an ingestion ends. -/
inductive Outcome where
  | duplicate
  | rateLimited
  | quotaExceeded
  | invalid (error : Str)
  | discarded
  | stored (id : Nat)
  | raised (e : PyError)
  deriving DecidableEq

/-- What the handlers make of the result of the insert. -/
def insertOutcome : Except PyError InsertResult → Outcome
  | .error e => .raised e
  | .ok .quotaExceeded => .quotaExceeded
  | .ok .duplicate => .duplicate
  | .ok (.stored id) => .stored id

/-- The payload has passed `_validate_publish_payload`. -/
def Validated (env : Env) (p : Dict) : Prop := ∃ t, ValidPublish env t p

/-- The claim of `key` on the message has been checked. -/
def Checked (env : Env) (p : Dict) (key : Str) (matched : Bool) : Prop :=
  ∃ t, claimMatches env t key (p.text (lit "recipient_id")) = .ok matched

/-- The section an ingestion of `p` is about to enter. A phase carries what has been checked on the
way: past the validation that the payload passed it, and before the write what the claim came to. -/
inductive Phase (env : Env) (p : Dict) where
  | messageExists
  | checkRecipientQuota
  | resolveRead (h : Validated env p)
  | resolveWrite (h : Validated env p) (requesterPubkey : Str) (matched : Bool)
      (hm : Checked env p requesterPubkey matched)
  | insert (h : Validated env p)
  | done (o : Outcome)

def Phase.isDone {env : Env} {p : Dict} : Phase env p → Bool
  | .done _ => true
  | _ => false

/-- An ingestion under way. -/
structure Ingest (env : Env) where
  path : Path
  payload : Dict
  phase : Phase env payload

variable {env : Env}

/-- `isinstance(signature, str) and message_exists(signature)`. -/
def alreadyStored (p : Dict) (db : Db) : Except PyError Bool :=
  match p.get (lit "signature") with
  | some (.str signature) => messageExists signature db
  | _ => .ok false

/-- `isinstance(recipient_id, str) and not check_recipient_quota(recipient_id)`, negated. -/
def hasRoom (env : Env) (p : Dict) (db : Db) : Except PyError Bool :=
  match p.get (lit "recipient_id") with
  | some (.str recipientId) => checkRecipientQuota env recipientId db
  | _ => .ok true

/-- One section of an ingestion, and where it goes from there. `gate` is the answer of the limiter
that follows the section; a gossip push has none after its validation. -/
def advance (env : Env) (now : Datetime) (gate : Bool) (g : Ingest env) (db : Db) : Db × Phase env g.payload :=
  let signature := g.payload.text (lit "signature")
  let recipientId := g.payload.text (lit "recipient_id")
  match g.phase with
  | .messageExists =>
    match alreadyStored g.payload db with
    | .error e => (db, .done (.raised e))
    | .ok true => (db, .done .duplicate)
    | .ok false => (db, if gate then .checkRecipientQuota else .done .rateLimited)
  | .checkRecipientQuota =>
    match hasRoom env g.payload db with
    | .error e => (db, .done (.raised e))
    | .ok false => (db, .done .quotaExceeded)
    | .ok true =>
      match h : validatePublishPayload env now g.payload with
      | .error e => (db, .done (.raised e))
      | .ok (some error) => (db, .done (.invalid error))
      | .ok none =>
        (db, if gate ∨ g.path = .gossipPublish then .resolveRead ⟨now, validatePublishPayload_none.1 h⟩
          else .done .rateLimited)
  | .resolveRead h =>
    match readDeletionRequest signature db with
    | .error e => (db, .done (.raised e))
    | .ok .noRequest => (db, .insert h)
    | .ok .alreadyConfirmed => (db, .done .discarded)
    | .ok (.pending requesterPubkey) =>
      match hm : claimMatches env now requesterPubkey recipientId with
      | .error e => (db, .done (.raised e))
      | .ok matched => (db, .resolveWrite h requesterPubkey matched ⟨now, hm⟩)
  | .resolveWrite h requesterPubkey matched _ =>
    match writeResolution env now signature recipientId requesterPubkey matched db with
    | (db', .error e) => (db', .done (.raised e))
    | (db', .ok ()) => (db', if matched then .done .discarded else .insert h)
  | .insert _ =>
    let r := insertMessageAndMaybeGossip env g.payload recipientId now db
    (r.1, .done (insertOutcome r.2))
  | .done o => (db, .done o)

/-- What the limiters answer to a request that meets both. -/
inductive Gate where
  | pass
  | globalRefused
  | identityRefused
  deriving DecidableEq

inductive DeleteOutcome where
  | rateLimited
  | invalid (error : Str)
  | replied (r : DeleteReply)
  | raised (e : PyError)
  deriving DecidableEq

/-- `_do_delete` of either handler; a `deleted` reply is followed by the fan-out. The gossip side asks both
limiters at once before it validates, so a refusal there is the global one. -/
def doDelete (env : Env) (now : Datetime) (gate : Gate) (p : Dict) (db : Db) : Db × DeleteOutcome :=
  if gate = .globalRefused then (db, .rateLimited)
  else
    match validateDeletePayload env p with
    | some error => (db, .invalid error)
    | none =>
      if gate = .identityRefused then (db, .rateLimited)
      else
        match handleDeleteRequest env now p db with
        | (db', .ok reply) => (db', .replied reply)
        | (db', .error e) => (db', .raised e)

inductive PullOutcome where
  | skipped
  | rateLimited
  | alreadyConfirmed
  | adopted
  | raised (e : PyError)
  deriving DecidableEq

/-- One item of `_sync_deletions_with_peer`. -/
def syncDeletion (env : Env) (now : Datetime) (gate : Bool) (item : Dict) (db : Db) : Db × PullOutcome :=
  match item.get (lit "target_signature") with
  | some (.str target) =>
    if gate then
      match applyPulledDeletion env now item target db with
      | (db', .ok true) => (db', .adopted)
      | (db', .ok false) => (db', .alreadyConfirmed)
      | (db', .error e) => (db', .raised e)
    else (db, .rateLimited)
  | _ => (db, .skipped)

/-- What a delete request does: nothing, the owner's deletion, or a pending row. -/
theorem doDelete_cases {now : Datetime} {gate : Gate} {p : Dict} {db db' : Db} {o : DeleteOutcome}
    (h : doDelete env now gate p db = (db', o)) :
    (db' = db ∧ o ≠ .replied .deleted) ∨
      (gate = .pass ∧ ValidDelete env p ∧ ∃ m, db.message (p.text (lit "target_signature")) = some m ∧
        Owns env now (p.text (lit "recipient_pubkey")) m.recipientId ∧ o = .replied .deleted ∧
        db' = db.bury ⟨p.text (lit "target_signature"), p.text (lit "recipient_pubkey"), m.recipientId, true,
          now.isoformat⟩) ∨
      (gate = .pass ∧ ValidDelete env p ∧ db.message (p.text (lit "target_signature")) = none ∧
        o = .replied .deleteRequested ∧
        db' = db.recordRequest ⟨p.text (lit "target_signature"), p.text (lit "recipient_pubkey"), [], false,
          now.isoformat⟩) := by
  unfold doDelete at h
  split at h
  · obtain ⟨rfl, rfl⟩ := Prod.mk.inj h
    exact .inl ⟨rfl, by simp⟩
  rename_i hglobal
  split at h
  · obtain ⟨rfl, rfl⟩ := Prod.mk.inj h
    exact .inl ⟨rfl, by simp⟩
  rename_i hv
  split at h
  · obtain ⟨rfl, rfl⟩ := Prod.mk.inj h
    exact .inl ⟨rfl, by simp⟩
  rename_i hidentity
  have hgate : gate = .pass := by cases gate <;> simp_all
  have hv' := validateDeletePayload_none.1 hv
  cases hd : handleDeleteRequest env now p db with
  | mk db'' r =>
    rw [hd] at h
    rcases handleDeleteRequest_cases hd with ⟨rfl, hr⟩ | ⟨m, hm, hown, rfl, rfl⟩ | ⟨hm, rfl, rfl⟩
    · cases r with
      | error e =>
        obtain ⟨rfl, rfl⟩ := Prod.mk.inj h
        exact .inl ⟨rfl, by simp⟩
      | ok reply =>
        obtain ⟨rfl, rfl⟩ := Prod.mk.inj h
        exact .inl ⟨rfl, by simpa using hr⟩
    · obtain ⟨rfl, rfl⟩ := Prod.mk.inj h
      exact .inr (.inl ⟨hgate, hv', m, hm, hown, rfl, rfl⟩)
    · obtain ⟨rfl, rfl⟩ := Prod.mk.inj h
      exact .inr (.inr ⟨hgate, hv', hm, rfl, rfl⟩)

/-- What a pulled item does: nothing; the tombstone of a signature with no confirmed row; or the loss of a message
whose tombstone does not bind. -/
theorem syncDeletion_cases {now : Datetime} {gate : Bool} {item : Dict} {db db' : Db} {o : PullOutcome}
    (h : syncDeletion env now gate item db = (db', o)) :
    (db' = db ∧ o ≠ .adopted) ∨
      ∃ t, item.get (lit "target_signature") = some (.str t) ∧ gate = true ∧ encodable t = true ∧
        db.confirmed t = false ∧
        ((∃ row, pulledTombstone env now item t = .ok row ∧ db' = db.bury row ∧ o = .adopted) ∨
          ∃ e, pulledTombstone env now item t = .error e ∧ db' = db.deleteMessage t ∧ o = .raised e) := by
  unfold syncDeletion at h
  split at h
  · rename_i t ht
    cases gate with
    | false =>
      obtain ⟨rfl, rfl⟩ := Prod.mk.inj h
      exact .inl ⟨rfl, by simp⟩
    | true =>
      cases hd : applyPulledDeletion env now item t db with
      | mk db'' r =>
        simp only [hd, if_true] at h
        rcases applyPulledDeletion_cases hd with ⟨rfl, hr⟩ | ⟨het, hc, ⟨row, hrow, rfl, rfl⟩ | ⟨e, he, rfl, rfl⟩⟩
        · rcases r with e | b
          · obtain ⟨rfl, rfl⟩ := Prod.mk.inj h
            exact .inl ⟨rfl, by simp⟩
          · cases b with
            | false =>
              obtain ⟨rfl, rfl⟩ := Prod.mk.inj h
              exact .inl ⟨rfl, by simp⟩
            | true => exact absurd rfl hr
        · obtain ⟨rfl, rfl⟩ := Prod.mk.inj h
          exact .inr ⟨t, ht, rfl, het, hc, .inl ⟨row, hrow, rfl, rfl⟩⟩
        · obtain ⟨rfl, rfl⟩ := Prod.mk.inj h
          exact .inr ⟨t, ht, rfl, het, hc, .inr ⟨e, he, rfl, rfl⟩⟩
  · obtain ⟨rfl, rfl⟩ := Prod.mk.inj h
    exact .inl ⟨rfl, by simp⟩

/-! ## The system -/

structure Relay (env : Env) where
  db : Db
  ingests : List (Ingest env)

def Relay.init : Relay env := ⟨.empty, []⟩

/-- A request body that is a JSON object arrives, an ingestion takes its next section, or another
operation runs its one section. -/
inductive Event where
  | arrive (path : Path) (payload : Dict)
  | advance (i : Nat) (now : Datetime) (gate : Bool)
  | delete (payload : Dict) (now : Datetime) (gate : Gate)
  | pullDeletion (item : Dict) (now : Datetime) (gate : Bool)
  | sweep (now cutoffNow : Datetime)

/-- What an event shows: an ingestion shows its payload when it ends. -/
inductive Obs where
  | arrived
  | advanced
  | ended (payload : Dict) (o : Outcome)
  | delete (o : DeleteOutcome)
  | pullDeletion (o : PullOutcome)
  | sweep (r : Except PyError Unit)

def obsOf {p : Dict} : Phase env p → Obs
  | .done o => .ended p o
  | _ => .advanced

/-- The relay with ingestion `i` at a new phase. -/
def Relay.setPhase (s : Relay env) (i : Nat) (g : Ingest env) (db : Db) (ph : Phase env g.payload) : Relay env :=
  ⟨db, s.ingests.set i { g with phase := ph }⟩

/-- One event. An ingestion that has ended takes no further section. -/
def step (env : Env) : System (Relay env) Event Obs
  | s, .arrive path p => some ({ s with ingests := s.ingests ++ [⟨path, p, .messageExists⟩] }, .arrived)
  | s, .advance i now gate =>
    match s.ingests[i]? with
    | none => none
    | some g =>
      if g.phase.isDone then none
      else
        let r := advance env now gate g s.db
        some (s.setPhase i g r.1 r.2, obsOf r.2)
  | s, .delete p now gate =>
    let r := doDelete env now gate p s.db
    some ({ s with db := r.1 }, .delete r.2)
  | s, .pullDeletion item now gate =>
    let r := syncDeletion env now gate item s.db
    some ({ s with db := r.1 }, .pullDeletion r.2)
  | s, .sweep now cutoffNow =>
    let r := runOnce env now cutoffNow s.db
    some ({ s with db := r.1 }, .sweep r.2)

/-- Histories of a relay that starts with empty tables. -/
abbrev RelayRun (env : Env) (ok : Relay env → Event → Prop) : List (Event × Obs) → Relay env → Prop :=
  Run (step env) ok Relay.init

/-! ## What a step can do to the tables -/

/-- Every way a step changes the tables, with what holds when it does. -/
inductive Effect (env : Env) (s : Relay env) : Event → Obs → Db → Prop
  /-- Nothing changes. -/
  | same {e o} : Effect env s e o s.db
  /-- The insert section of an ingestion stores its message. -/
  | stores {i now gate g h id db} : s.ingests[i]? = some g → g.phase = .insert h →
      s.db.message (g.payload.text (lit "signature")) = none →
      quotaReached env (g.payload.text (lit "recipient_id")) s.db = false →
      (messageOf g.payload (g.payload.text (lit "recipient_id")) now).binds = true →
      (∀ sig, db.message sig = if sig = g.payload.text (lit "signature")
        then some (messageOf g.payload (g.payload.text (lit "recipient_id")) now) else s.db.message sig) →
      db.deletionRequests = s.db.deletionRequests →
      Effect env s (.advance i now gate) (.ended g.payload (.stored id)) db
  /-- A pending claim that did not match is dropped. -/
  | drops {i now gate g h key hm} : s.ingests[i]? = some g → g.phase = .resolveWrite h key false hm →
      Effect env s (.advance i now gate) .advanced (s.db.deleteRequest (g.payload.text (lit "signature")))
  /-- A pending claim that matched becomes a confirmed deletion. -/
  | promotes {i now gate g h key hm} : s.ingests[i]? = some g → g.phase = .resolveWrite h key true hm →
      Effect env s (.advance i now gate) (.ended g.payload .discarded)
        (s.db.bury ⟨g.payload.text (lit "signature"), key, g.payload.text (lit "recipient_id"), true, now.isoformat⟩)
  /-- A delete request of the owner of a stored message. -/
  | deletes {p now m} : ValidDelete env p → s.db.message (p.text (lit "target_signature")) = some m →
      Owns env now (p.text (lit "recipient_pubkey")) m.recipientId →
      Effect env s (.delete p now .pass) (.delete (.replied .deleted))
        (s.db.bury ⟨p.text (lit "target_signature"), p.text (lit "recipient_pubkey"), m.recipientId, true,
          now.isoformat⟩)
  /-- A delete request for a signature that is not stored. -/
  | records {p now} : ValidDelete env p → s.db.message (p.text (lit "target_signature")) = none →
      Effect env s (.delete p now .pass) (.delete (.replied .deleteRequested))
        (s.db.recordRequest ⟨p.text (lit "target_signature"), p.text (lit "recipient_pubkey"), [], false,
          now.isoformat⟩)
  /-- A pulled tombstone for a signature with no confirmed row. -/
  | adopts {item now t row} : item.get (lit "target_signature") = some (.str t) → s.db.confirmed t = false →
      pulledTombstone env now item t = .ok row →
      Effect env s (.pullDeletion item now true) (.pullDeletion .adopted) (s.db.bury row)
  /-- A pulled tombstone that does not bind: the message is gone all the same. -/
  | loses {item now t e} : item.get (lit "target_signature") = some (.str t) → s.db.confirmed t = false →
      pulledTombstone env now item t = .error e →
      Effect env s (.pullDeletion item now true) (.pullDeletion (.raised e)) (s.db.deleteMessage t)
  /-- A sweep. -/
  | sweeps {now cutoffNow cutoff o db} : cutoffNow.addSeconds (-env.maxTtlSeconds) = some cutoff →
      (∀ sig, db.message sig = (s.db.message sig).filter fun m => !decide (m.expiresAt ≤ now.isoformat)) →
      (∀ sig, db.request sig = (s.db.request sig).filter fun r => !decide (r.requestedAt ≤ cutoff.isoformat)) →
      Effect env s (.sweep now cutoffNow) (.sweep o) db

theorem validated_signature {p : Dict} (h : Validated env p) : encodable (p.text (lit "signature")) = true := by
  obtain ⟨t, hv⟩ := h
  exact Verifier.signature_encodable hv.verified

/-- What a section of an ingestion can do, by the phase it starts from. -/
inductive Advances (env : Env) (now : Datetime) (g : Ingest env) (db : Db) : Db × Phase env g.payload → Prop
  /-- Nothing is written, and no deletion request has been read. -/
  | checks {ph} : (∀ hv key matched hm, ph ≠ .resolveWrite hv key matched hm) → ph ≠ .done .discarded →
      Advances env now g db (db, ph)
  /-- A pending claim has been read, and compared with the message. -/
  | pending {hv key matched hm r} : db.request (g.payload.text (lit "signature")) = some r → r.confirmed = false →
      r.requesterPubkey = key → claimMatches env now key (g.payload.text (lit "recipient_id")) = .ok matched →
      Advances env now g db (db, .resolveWrite hv key matched hm)
  /-- A confirmed tombstone has been read. -/
  | confirmed {hv} : g.phase = .resolveRead hv → db.confirmed (g.payload.text (lit "signature")) = true →
      Advances env now g db (db, .done .discarded)
  | promotes {hv key hm} : g.phase = .resolveWrite hv key true hm →
      Advances env now g db (db.bury ⟨g.payload.text (lit "signature"), key, g.payload.text (lit "recipient_id"), true,
        now.isoformat⟩, .done .discarded)
  | drops {hv key hm} : g.phase = .resolveWrite hv key false hm →
      Advances env now g db (db.deleteRequest (g.payload.text (lit "signature")), .insert hv)
  | inserts {hv db' r} : g.phase = .insert hv →
      insertMessageAndMaybeGossip env g.payload (g.payload.text (lit "recipient_id")) now db = (db', r) →
      Advances env now g db (db', .done (insertOutcome r))
  | ended {o} : g.phase = .done o → Advances env now g db (db, .done o)

theorem advance_cases (now : Datetime) (gate : Bool) (g : Ingest env) (db : Db) :
    Advances env now g db (advance env now gate g db) := by
  unfold advance
  dsimp only
  split
  · split
    · exact .checks (by simp) (by simp)
    · exact .checks (by simp) (by simp)
    · split <;> exact .checks (by simp) (by simp)
  · split
    · exact .checks (by simp) (by simp)
    · exact .checks (by simp) (by simp)
    · split
      · exact .checks (by simp) (by simp)
      · exact .checks (by simp) (by simp)
      · split <;> exact .checks (by simp) (by simp)
  · rename_i hv hph
    have hsig := validated_signature hv
    cases hreq : db.request (g.payload.text (lit "signature")) with
    | none =>
      have hread : readDeletionRequest (g.payload.text (lit "signature")) db = .ok .noRequest := by
        simp [readDeletionRequest, hsig, hreq]
      simp only [hread]
      exact .checks (by simp) (by simp)
    | some r =>
      cases hc : r.confirmed with
      | true =>
        have hread : readDeletionRequest (g.payload.text (lit "signature")) db = .ok .alreadyConfirmed := by
          simp [readDeletionRequest, hsig, hreq, hc]
        simp only [hread]
        exact .confirmed hph (Db.confirmed_iff.2 ⟨r, hreq, hc⟩)
      | false =>
        have hread : readDeletionRequest (g.payload.text (lit "signature")) db = .ok (.pending r.requesterPubkey) := by
          simp [readDeletionRequest, hsig, hreq, hc]
        simp only [hread]
        split
        · exact .checks (by simp) (by simp)
        · rename_i matched hm
          exact .pending hreq hc rfl hm
  · rename_i hv key matched hm hph
    obtain ⟨t, hclaim⟩ := id hm
    rw [writeResolution_eq (validated_signature hv) hclaim]
    cases matched with
    | true => exact .promotes hph
    | false => exact .drops hph
  · rename_i hv hph
    exact .inserts hph rfl
  · rename_i o hph
    exact .ended hph

theorem advance_effect {s : Relay env} {i : Nat} {now : Datetime} {gate : Bool} {g : Ingest env}
    (hg : s.ingests[i]? = some g) :
    Effect env s (.advance i now gate) (obsOf (advance env now gate g s.db).2) (advance env now gate g s.db).1 := by
  have hcases := advance_cases now gate g s.db
  generalize advance env now gate g s.db = r at hcases ⊢
  cases hcases with
  | checks => exact .same
  | pending => exact .same
  | confirmed => exact .same
  | promotes hph => exact .promotes hg hph
  | drops hph => exact .drops hg hph
  | inserts hph hi =>
    rcases insert_cases hi with ⟨rfl, -⟩ | ⟨⟨id, rfl⟩, hnone, hq, hb, hlook, hreq⟩
    · exact .same
    · exact .stores hg hph hnone hq hb hlook hreq
  | ended => exact .same

/-- Every step changes the tables in one of the ways of `Effect`. -/
theorem step_effect {s s' : Relay env} {e : Event} {o : Obs} (h : step env s e = some (s', o)) :
    Effect env s e o s'.db := by
  cases e with
  | arrive path p =>
    simp only [step, Option.some.injEq, Prod.mk.injEq] at h
    obtain ⟨rfl, rfl⟩ := h
    exact .same
  | advance i now gate =>
    simp only [step] at h
    split at h
    · cases h
    · rename_i g hg
      split at h
      · cases h
      · simp only [Option.some.injEq, Prod.mk.injEq] at h
        obtain ⟨rfl, rfl⟩ := h
        exact advance_effect hg
  | delete p now gate =>
    simp only [step, Option.some.injEq, Prod.mk.injEq] at h
    obtain ⟨rfl, rfl⟩ := h
    rcases doDelete_cases (Prod.mk.eta.symm : doDelete env now gate p s.db = _) with
      ⟨hd, -⟩ | ⟨rfl, hv, m, hm, hown, ho, hd⟩ | ⟨rfl, hv, hm, ho, hd⟩
    · rw [hd]
      exact .same
    · rw [ho, hd]
      exact .deletes hv hm hown
    · rw [ho, hd]
      exact .records hv hm
  | pullDeletion item now gate =>
    simp only [step, Option.some.injEq, Prod.mk.injEq] at h
    obtain ⟨rfl, rfl⟩ := h
    rcases syncDeletion_cases (Prod.mk.eta.symm : syncDeletion env now gate item s.db = _) with
      ⟨hd, -⟩ | ⟨t, ht, rfl, -, hc, ⟨row, hrow, hd, ho⟩ | ⟨e, he, hd, ho⟩⟩
    · rw [hd]
      exact .same
    · rw [ho, hd]
      exact .adopts ht hc hrow
    · rw [ho, hd]
      exact .loses ht hc he
  | sweep now cutoffNow =>
    simp only [step, Option.some.injEq, Prod.mk.injEq] at h
    obtain ⟨rfl, rfl⟩ := h
    cases hr : runOnce env now cutoffNow s.db with
    | mk db' r =>
      rcases runOnce_cases hr with ⟨-, rfl⟩ | ⟨cutoff, hc, hm, hq⟩
      · exact .same
      · exact .sweeps hc hm hq

/-- The insert section of an ingestion of `p` stores a row, within the quotas, after all others. -/
structure Gains (env : Env) (p : Dict) (now : Datetime) (id : Nat) (db db' : Db) : Prop where
  room : quotaReached env (p.text (lit "recipient_id")) db = false
  binds : (messageOf p (p.text (lit "recipient_id")) now).binds = true
  fresh : db.message (p.text (lit "signature")) = none
  above : db.messages.seq < id
  seq : db'.messages.seq = id
  rows : db'.messages.rows = db.messages.rows ++ [(id, messageOf p (p.text (lit "recipient_id")) now)]

/-- What a section of an ingestion does to the rows of `messages`: some go, or its own row comes. -/
theorem advance_messages (now : Datetime) (gate : Bool) (g : Ingest env) (db : Db) :
    db.messages.Sheds (advance env now gate g db).1.messages ∨
      ∃ hv id, g.phase = .insert hv ∧ (advance env now gate g db).2 = .done (.stored id) ∧
        Gains env g.payload now id db (advance env now gate g db).1 := by
  have hcases := advance_cases now gate g db
  generalize advance env now gate g db = r at hcases ⊢
  cases hcases with
  | checks => exact .inl (.refl _)
  | pending => exact .inl (.refl _)
  | confirmed => exact .inl (.refl _)
  | promotes => exact .inl (Db.sheds_bury _ _)
  | drops => exact .inl (.refl _)
  | @inserts hv _ _ hph hi =>
    rcases insert_spec hi with ⟨rfl, -⟩ | ⟨messages, id, hins, hq, hb, rfl, rfl⟩
    · exact .inl (.refl _)
    · obtain ⟨hrows, habove, hseq⟩ := Table.insert?_rows hins
      exact .inr ⟨hv, id, hph, rfl, hq, hb, (Table.insert?_eq_some hins).1, habove, hseq, hrows⟩
  | ended => exact .inl (.refl _)

/-- What a step does to the rows of `messages`. -/
theorem step_messages {s s' : Relay env} {e : Event} {o : Obs} (h : step env s e = some (s', o)) :
    s.db.messages.Sheds s'.db.messages ∨
      ∃ i now gate g hv id, e = .advance i now gate ∧ s.ingests[i]? = some g ∧ g.phase = .insert hv ∧
        o = .ended g.payload (.stored id) ∧ Gains env g.payload now id s.db s'.db := by
  cases e with
  | arrive path p =>
    simp only [step, Option.some.injEq, Prod.mk.injEq] at h
    obtain ⟨rfl, -⟩ := h
    exact .inl (.refl _)
  | advance i now gate =>
    simp only [step] at h
    split at h
    · cases h
    · rename_i g hg
      split at h
      · cases h
      · simp only [Option.some.injEq, Prod.mk.injEq] at h
        obtain ⟨rfl, rfl⟩ := h
        rcases advance_messages now gate g s.db with hsheds | ⟨hv, id, hph, hdone, hgains⟩
        · exact .inl hsheds
        · exact .inr ⟨i, now, gate, g, hv, id, rfl, hg, hph, by rw [hdone]; rfl, hgains⟩
  | delete p now gate =>
    simp only [step, Option.some.injEq, Prod.mk.injEq] at h
    obtain ⟨rfl, -⟩ := h
    rcases doDelete_cases (Prod.mk.eta.symm : doDelete env now gate p s.db = _) with
      ⟨hd, -⟩ | ⟨-, -, m, -, -, -, hd⟩ | ⟨-, -, -, -, hd⟩ <;> rw [hd]
    · exact .inl (.refl _)
    · exact .inl (Db.sheds_bury _ _)
    · exact .inl (.refl _)
  | pullDeletion item now gate =>
    simp only [step, Option.some.injEq, Prod.mk.injEq] at h
    obtain ⟨rfl, -⟩ := h
    rcases syncDeletion_cases (Prod.mk.eta.symm : syncDeletion env now gate item s.db = _) with
      ⟨hd, -⟩ | ⟨t, -, -, -, -, ⟨row, -, hd, -⟩ | ⟨e, -, hd, -⟩⟩ <;> rw [hd]
    · exact .inl (.refl _)
    · exact .inl (Db.sheds_bury _ _)
    · exact .inl (Db.sheds_deleteMessage _ _)
  | sweep now cutoffNow =>
    simp only [step, Option.some.injEq, Prod.mk.injEq] at h
    obtain ⟨rfl, -⟩ := h
    exact .inl (sheds_runOnce env now cutoffNow s.db)

/-- Every stored row has texts that bind. -/
theorem stored_binds {ok : Relay env → Event → Prop} {h : List (Event × Obs)} {s : Relay env}
    (hr : RelayRun env ok h s) : ∀ r ∈ s.db.messages.rows, r.2.binds = true := by
  refine hr.inv (fun s => ∀ r ∈ s.db.messages.rows, r.2.binds = true) ?_ ?_
  · intro r hr
    cases hr
  · intro s e s' o hs _ hstep r hr
    rcases step_messages hstep with hsheds | ⟨i, now, gate, g, hv, id, -, -, -, -, hgains⟩
    · exact hs r (hsheds.rows.subset hr)
    · rw [hgains.rows] at hr
      rcases List.mem_append.1 hr with hr | hr
      · exact hs r hr
      · rw [List.mem_singleton.1 hr]
        exact hgains.binds

/-! ## What a step can do to the ingestions -/

theorem step_ingests {s s' : Relay env} {e : Event} {o : Obs} (h : step env s e = some (s', o)) {g' : Ingest env}
    (hg' : g' ∈ s'.ingests) :
    g' ∈ s.ingests ∨ (∃ path p, e = .arrive path p ∧ g' = ⟨path, p, .messageExists⟩) ∨
      ∃ i now gate g, e = .advance i now gate ∧ s.ingests[i]? = some g ∧
        g' = { g with phase := (advance env now gate g s.db).2 } := by
  cases e with
  | arrive path p =>
    simp only [step, Option.some.injEq, Prod.mk.injEq] at h
    obtain ⟨rfl, -⟩ := h
    rcases List.mem_append.1 hg' with hg' | hg'
    · exact .inl hg'
    · exact .inr (.inl ⟨path, p, rfl, List.mem_singleton.1 hg'⟩)
  | advance i now gate =>
    simp only [step] at h
    split at h
    · cases h
    · rename_i g hg
      split at h
      · cases h
      · simp only [Option.some.injEq, Prod.mk.injEq] at h
        obtain ⟨rfl, -⟩ := h
        rcases List.mem_or_eq_of_mem_set hg' with hg' | rfl
        · exact .inl hg'
        · exact .inr (.inr ⟨i, now, gate, g, rfl, hg, rfl⟩)
  | delete p now gate =>
    simp only [step, Option.some.injEq, Prod.mk.injEq] at h
    obtain ⟨rfl, -⟩ := h
    exact .inl hg'
  | pullDeletion item now gate =>
    simp only [step, Option.some.injEq, Prod.mk.injEq] at h
    obtain ⟨rfl, -⟩ := h
    exact .inl hg'
  | sweep now cutoffNow =>
    simp only [step, Option.some.injEq, Prod.mk.injEq] at h
    obtain ⟨rfl, -⟩ := h
    exact .inl hg'

/-- An ingestion comes to the write of a resolution from a pending row it has just read. -/
theorem advance_resolveWrite {now : Datetime} {gate : Bool} {g : Ingest env} {db : Db} {hv : Validated env g.payload}
    {key : Str} {matched : Bool} {hm : Checked env g.payload key matched}
    (h : (advance env now gate g db).2 = .resolveWrite hv key matched hm) :
    ∃ r, db.request (g.payload.text (lit "signature")) = some r ∧ r.confirmed = false ∧ r.requesterPubkey = key ∧
      claimMatches env now key (g.payload.text (lit "recipient_id")) = .ok matched := by
  have hcases := advance_cases now gate g db
  generalize advance env now gate g db = r at hcases h
  cases hcases with
  | checks hne => exact absurd h (hne hv key matched hm)
  | pending hreq hc hkey hclaim =>
    cases h
    exact ⟨_, hreq, hc, hkey, hclaim⟩
  | confirmed => cases h
  | promotes => cases h
  | drops => cases h
  | inserts => cases h
  | ended => cases h

/-- An ingestion is discarded for a confirmed row it has just read, or when its resolution matched. -/
theorem advance_discarded {now : Datetime} {gate : Bool} {g : Ingest env} {db : Db} {p : Dict}
    (h : obsOf (advance env now gate g db).2 = .ended p .discarded) :
    p = g.payload ∧ (((∃ hv, g.phase = .resolveRead hv) ∧ db.confirmed (p.text (lit "signature")) = true) ∨
      (∃ hv key hm, g.phase = .resolveWrite hv key true hm) ∨ g.phase = .done .discarded) := by
  have hcases := advance_cases now gate g db
  generalize advance env now gate g db = r at hcases h
  cases hcases with
  | @checks ph _ hne =>
    cases ph with
    | done o =>
      simp only [obsOf, Obs.ended.injEq] at h
      exact absurd (congrArg Phase.done h.2) hne
    | _ => cases h
  | pending => cases h
  | @confirmed hv hph hc =>
    cases h
    exact ⟨rfl, .inl ⟨⟨hv, hph⟩, hc⟩⟩
  | @promotes hv key hm hph =>
    cases h
    exact ⟨rfl, .inr (.inl ⟨hv, key, hm, hph⟩)⟩
  | drops => cases h
  | inserts =>
    simp only [obsOf, Obs.ended.injEq] at h
    obtain ⟨-, h⟩ := h
    unfold insertOutcome at h
    split at h <;> cases h
  | ended hph =>
    cases h
    exact ⟨rfl, .inr (.inr hph)⟩

/-! ## A small configuration

The default limits, with toy libraries: the address of a key is spelled out
from the key and the day, and the verifier accepts any signature text that
decodes, over payloads for one recipient and one expiry. -/

namespace Sample

def hmac : Hmac where
  hexdigest k m := (k ++ m).map fun c => 97 + c % 26
  hex k m := by
    apply List.all_eq_true.2
    intro c hc
    obtain ⟨d, -, rfl⟩ := List.mem_map.1 hc
    simp only [isSurrogate, Bool.not_eq_true', Bool.and_eq_false_iff, decide_eq_false_iff_not]
    omega

/-- Noon of 2 January 2026. -/
def noon : Datetime := .ofFields 2026 1 2 12 0 0 0 (by decide)

/-- A day later. -/
def nextNoon : Datetime := .ofFields 2026 1 3 12 0 0 0 (by decide)

/-- The owner's key and another one. -/
def ownerKey : Str := lit "aGk="

def otherKey : Str := lit "bm8="

def recipientId : Str := blindRecipientId hmac [104, 105] (dayBucket noon)

def expiresAt : Str := lit "2026-01-03T12:00:00+00:00"

def verifier : Verifier where
  verify p f := (decodeField p (lit "signature")).isSome && (decodeField p f).isSome &&
    (f = lit "recipient_pubkey" || (p.text (lit "recipient_id") = recipientId && p.text (lit "expires_at") = expiresAt))
  signature_decodes p f h := by
    simp only [Bool.and_eq_true, Option.isSome_iff_exists] at h
    obtain ⟨⟨⟨b, hb⟩, -⟩, -⟩ := h
    obtain ⟨s, hs⟩ := decodeField_eq hb
    exact ⟨s, b, hs⟩
  pubkey_decodes p f h := by
    simp only [Bool.and_eq_true, Option.isSome_iff_exists] at h
    obtain ⟨⟨-, ⟨b, hb⟩⟩, -⟩ := h
    obtain ⟨s, hs⟩ := decodeField_eq hb
    exact ⟨s, b, hs⟩

def config : Env where
  verifier := verifier
  hmac := hmac
  minTtlSeconds := 60
  maxTtlSeconds := 30 * 24 * 3600
  recipientQuotaMaxMessages := 1000
  recipientQuotaMaxBytes := 50 * 1024 * 1024
  realText := some

/-- A message to the owner. -/
def payload (signature : Str) : Dict :=
  [(lit "version", .str (lit "1.0")), (lit "sender_pubkey", .str (lit "YWE=")), (lit "recipient_id", .str recipientId),
    (lit "expires_at", .str expiresAt), (lit "encrypted_key", .str []), (lit "nonce", .str []),
    (lit "ciphertext", .str []), (lit "timestamp", .str []), (lit "signature", .str signature)]

/-- A delete request by `key`. -/
def deletePayload (target key : Str) : Dict :=
  [(lit "version", .str (lit "1.0")), (lit "action", .str (lit "delete")), (lit "target_signature", .str target),
    (lit "recipient_pubkey", .str key), (lit "timestamp", .str []), (lit "signature", .str (lit "ZGVs"))]

theorem oneMessagePerSignature : OneMessagePerSignature verifier := by
  intro p q hp hq _
  have hne : lit "sender_pubkey" ≠ lit "recipient_pubkey" := by decide
  simp only [verifier, Bool.and_eq_true, Bool.or_eq_true, decide_eq_true_eq, hne, false_or] at hp hq
  obtain ⟨-, hp1, hp2⟩ := hp
  obtain ⟨-, hq1, hq2⟩ := hq
  exact ⟨hp1.trans hq1.symm, hp2.trans hq2.symm⟩

/-- Ingestion `i` takes its next `n` sections. -/
def sections (i n : Nat) : List Event := List.replicate n (.advance i noon true)

/-- The same with the relay's own verifier, over a key check that accepts two signatures. -/
def keyed : Env :=
  { config with
    verifier := rsaVerifier fun _ signature _ => signature = [115, 105, 103] ∨ signature = [100, 101, 108] }

/-- The same over a key check that accepts everything. -/
def lenient : Env := { config with verifier := rsaVerifier fun _ _ _ => true }

end Sample

end AetherNode
