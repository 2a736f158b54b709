import AetherNode.Lib.Table
import AetherNode.Validate
/-!
# The two tables and the sections that touch them

Every function here is what one `db_lock` critical section does: it returns
the tables it leaves and the result, or the exception it raises. There is no
rollback in the source, so what a section did before it raised stays.
-/
open AetherNode.Lib AetherNode.Lib.Json AetherNode.Protocol

namespace AetherNode

/-- A row of `messages`. The payload is kept as the object whose `json.dumps` text is stored. -/
structure Message where
  recipientId : Str
  senderPubkey : Str
  signature : Str
  payload : Dict
  expiresAt : Str
  receivedAt : Str

/-- `LENGTH(payload)`. -/
def Message.payloadLength (m : Message) : Nat := (dumpsDefault (.obj m.payload)).length

/-- A row of `deletion_requests`. -/
structure DeletionRequest where
  targetSignature : Str
  requesterPubkey : Str
  requesterRecipientId : Str
  confirmed : Bool
  requestedAt : Str
  deriving DecidableEq

structure Db where
  messages : Table Message.signature
  deletionRequests : Table DeletionRequest.targetSignature

/-- What a critical section does: the tables after it, and what it returns or raises. -/
abbrev Section (α : Type) := Db → Db × Except PyError α

namespace Db

def empty : Db := ⟨.empty, .empty⟩

/-- The stored message with a signature. -/
def message (db : Db) (signature : Str) : Option Message := db.messages.lookup signature

/-- The deletion request for a signature. -/
def request (db : Db) (signature : Str) : Option DeletionRequest := db.deletionRequests.lookup signature

/-- There is a confirmed tombstone for the signature. -/
def confirmed (db : Db) (signature : Str) : Bool := (db.request signature).any (·.confirmed)

/-- The rows of one recipient, expired ones included. -/
def inbox (db : Db) (recipientId : Str) : List Message :=
  (db.messages.rows.map (·.2)).filter fun m => m.recipientId = recipientId

def deleteMessage (db : Db) (signature : Str) : Db :=
  { db with messages := db.messages.deleteWhere fun m => m.signature = signature }

def deleteRequest (db : Db) (signature : Str) : Db :=
  { db with deletionRequests := db.deletionRequests.deleteWhere fun r => r.targetSignature = signature }

def replaceRequest (db : Db) (r : DeletionRequest) : Db :=
  { db with deletionRequests := db.deletionRequests.insertOrReplace r }

/-- The message of a tombstone goes and the tombstone comes. -/
def bury (db : Db) (row : DeletionRequest) : Db := (db.deleteMessage row.targetSignature).replaceRequest row

def recordRequest (db : Db) (r : DeletionRequest) : Db :=
  { db with deletionRequests := db.deletionRequests.insertOrIgnore r }

@[simp] theorem message_empty (s : Str) : empty.message s = none := rfl

@[simp] theorem request_empty (s : Str) : empty.request s = none := rfl

@[simp] theorem message_deleteMessage (db : Db) (t s : Str) :
    (db.deleteMessage t).message s = if s = t then none else db.message s :=
  Table.lookup_deleteKey db.messages s t

@[simp] theorem request_deleteMessage (db : Db) (t s : Str) : (db.deleteMessage t).request s = db.request s := rfl

@[simp] theorem message_deleteRequest (db : Db) (t s : Str) : (db.deleteRequest t).message s = db.message s := rfl

@[simp] theorem request_deleteRequest (db : Db) (t s : Str) :
    (db.deleteRequest t).request s = if s = t then none else db.request s :=
  Table.lookup_deleteKey db.deletionRequests s t

@[simp] theorem message_replaceRequest (db : Db) (r : DeletionRequest) (s : Str) :
    (db.replaceRequest r).message s = db.message s := rfl

@[simp] theorem request_replaceRequest (db : Db) (r : DeletionRequest) (s : Str) :
    (db.replaceRequest r).request s = if s = r.targetSignature then some r else db.request s :=
  Table.lookup_insertOrReplace db.deletionRequests r s

@[simp] theorem message_bury (db : Db) (row : DeletionRequest) (s : Str) :
    (db.bury row).message s = if s = row.targetSignature then none else db.message s := by
  simp [bury]

@[simp] theorem request_bury (db : Db) (row : DeletionRequest) (s : Str) :
    (db.bury row).request s = if s = row.targetSignature then some row else db.request s := by
  simp [bury]

@[simp] theorem message_recordRequest (db : Db) (r : DeletionRequest) (s : Str) :
    (db.recordRequest r).message s = db.message s := rfl

@[simp] theorem request_recordRequest (db : Db) (r : DeletionRequest) (s : Str) :
    (db.recordRequest r).request s =
      if s = r.targetSignature ∧ db.request s = none then some r else db.request s :=
  Table.lookup_insertOrIgnore db.deletionRequests r s

theorem sheds_deleteMessage (db : Db) (t : Str) : db.messages.Sheds (db.deleteMessage t).messages :=
  Table.sheds_deleteWhere db.messages fun m => m.signature = t

theorem sheds_bury (db : Db) (row : DeletionRequest) : db.messages.Sheds (db.bury row).messages :=
  sheds_deleteMessage db row.targetSignature

theorem requests_bury (db : Db) (row : DeletionRequest) : db.deletionRequests.Evolves (db.bury row).deletionRequests :=
  Table.evolves_insertOrReplace db.deletionRequests row

theorem requests_recordRequest (db : Db) (r : DeletionRequest) :
    db.deletionRequests.Evolves (db.recordRequest r).deletionRequests :=
  Table.evolves_insertOrIgnore db.deletionRequests r

theorem requests_deleteRequest (db : Db) (t : Str) :
    db.deletionRequests.Evolves (db.deleteRequest t).deletionRequests :=
  (Table.sheds_deleteWhere db.deletionRequests fun r => r.targetSignature = t).evolves

/-- A new last row is the last of its recipient's inbox. -/
theorem inbox_append {db db' : Db} {id : Nat} {m : Message} (h : db'.messages.rows = db.messages.rows ++ [(id, m)])
    (rid : Str) : db'.inbox rid = db.inbox rid ++ if m.recipientId = rid then [m] else [] := by
  unfold inbox
  rw [h, List.map_append, List.filter_append, List.map_singleton]
  congr 1
  by_cases hrid : m.recipientId = rid
  · simp [hrid]
  · simp [hrid]

/-- Rows that go by what they are go from every inbox. -/
theorem inbox_deleteWhere {db db' : Db} {p : Message → Bool} (h : db'.messages = db.messages.deleteWhere p)
    (rid : Str) : db'.inbox rid = (db.inbox rid).filter fun m => !p m := by
  unfold inbox
  rw [h, Table.deleteWhere, List.filter_filter, List.filter_map, List.filter_map, List.filter_filter]
  simp only [Function.comp_def, Bool.and_comm]

theorem inbox_deleteMessage (db : Db) (t rid : Str) :
    (db.deleteMessage t).inbox rid = (db.inbox rid).filter fun m => !decide (m.signature = t) := by
  have hmessages : (db.deleteMessage t).messages = db.messages.deleteWhere fun m => m.signature = t := rfl
  exact inbox_deleteWhere hmessages rid

theorem inbox_bury (db : Db) (row : DeletionRequest) (rid : Str) :
    (db.bury row).inbox rid = (db.inbox rid).filter fun m => !decide (m.signature = row.targetSignature) :=
  inbox_deleteMessage db row.targetSignature rid

theorem request_target {db : Db} {s : Str} {r : DeletionRequest} (h : db.request s = some r) :
    r.targetSignature = s :=
  Table.lookup_key h

theorem confirmed_iff {db : Db} {s : Str} :
    db.confirmed s = true ↔ ∃ r, db.request s = some r ∧ r.confirmed = true := by
  simp [confirmed, Option.any_eq_true]

end Db

/-! ## Binding values to TEXT columns -/

/-- Binding a value to a TEXT column: the text it becomes, `none` for NULL. -/
def bindText (env : Env) : Json → Except PyError (Option Str)
  | .null => .ok none
  | .bool b => .ok (some (lit (if b then "1" else "0")))
  | .int z => if -2 ^ 63 ≤ z ∧ z < 2 ^ 63 then .ok (some (intText z)) else .error .overflowError
  | .float r => .ok (env.realText r)
  | .str s => if encodable s then .ok (some s) else .error .unicodeEncodeError
  | .arr _ => .error .unsupportedType
  | .obj _ => .error .unsupportedType

theorem bindText_str {env : Env} {s : Str} (h : encodable s = true) : bindText env (.str s) = .ok (some s) := by
  simp [bindText, h]

/-! ## Reading and inserting messages -/

/-- `message_exists`. -/
def messageExists (signature : Str) (db : Db) : Except PyError Bool :=
  if encodable signature then .ok (db.message signature).isSome else .error .unicodeEncodeError

/-- One of the two quota ceilings is reached. -/
def quotaReached (env : Env) (recipientId : Str) (db : Db) : Bool :=
  env.recipientQuotaMaxMessages ≤ (db.inbox recipientId).length ∨
    env.recipientQuotaMaxBytes ≤ (((db.inbox recipientId).map Message.payloadLength).sum : Nat)

/-- `check_recipient_quota`: true when there is room. -/
def checkRecipientQuota (env : Env) (recipientId : Str) (db : Db) : Except PyError Bool :=
  if encodable recipientId then .ok (!quotaReached env recipientId db) else .error .unicodeEncodeError

/-- The row a payload is stored as. -/
def messageOf (p : Dict) (recipientId : Str) (receivedAt : Datetime) : Message where
  recipientId := recipientId
  senderPubkey := p.text (lit "sender_pubkey")
  signature := p.text (lit "signature")
  payload := p
  expiresAt := p.text (lit "expires_at")
  receivedAt := receivedAt.isoformat

inductive InsertResult where
  | quotaExceeded
  | duplicate
  | stored (id : Nat)
  deriving DecidableEq

/-- The texts of the row bind. -/
def Message.binds (m : Message) : Bool :=
  encodable m.recipientId && encodable m.senderPubkey && encodable m.signature && encodable m.expiresAt

/-- `insert_message_and_maybe_gossip`, the section; the fan-out follows a `stored`. -/
def insertMessageAndMaybeGossip (env : Env) (p : Dict) (recipientId : Str) (receivedAt : Datetime) :
    Section InsertResult := fun db =>
  let m := messageOf p recipientId receivedAt
  if !encodable recipientId then (db, .error .unicodeEncodeError)
  else if quotaReached env recipientId db then (db, .ok .quotaExceeded)
  else if !m.binds then (db, .error .unicodeEncodeError)
  else
    match db.messages.insert? m with
    | none => (db, .ok .duplicate)
    | some (messages, id) => ({ db with messages := messages }, .ok (.stored id))

/-- What the insert section does: nothing, or the insert, of a row that binds and within the quotas. -/
theorem insert_spec {env : Env} {p : Dict} {rid : Str} {t : Datetime} {db db' : Db}
    {r : Except PyError InsertResult} (h : insertMessageAndMaybeGossip env p rid t db = (db', r)) :
    (db' = db ∧ ∀ id, r ≠ .ok (.stored id)) ∨
      ∃ messages id, db.messages.insert? (messageOf p rid t) = some (messages, id) ∧
        quotaReached env rid db = false ∧ (messageOf p rid t).binds = true ∧
        db' = { db with messages := messages } ∧ r = .ok (.stored id) := by
  unfold insertMessageAndMaybeGossip at h
  dsimp only at h
  split at h
  · obtain ⟨rfl, rfl⟩ := Prod.mk.inj h
    exact .inl ⟨rfl, by simp⟩
  split at h
  · obtain ⟨rfl, rfl⟩ := Prod.mk.inj h
    exact .inl ⟨rfl, by simp⟩
  rename_i hq
  split at h
  · obtain ⟨rfl, rfl⟩ := Prod.mk.inj h
    exact .inl ⟨rfl, by simp⟩
  rename_i hb
  split at h
  · obtain ⟨rfl, rfl⟩ := Prod.mk.inj h
    exact .inl ⟨rfl, by simp⟩
  · rename_i messages id hi
    obtain ⟨rfl, rfl⟩ := Prod.mk.inj h
    exact .inr ⟨messages, id, hi, by simpa using hq, by simpa using hb, rfl, rfl⟩

/-- For a new signature only the quotas and the texts decide. -/
theorem insert_eq {env : Env} {p : Dict} {rid : Str} {t : Datetime} {db : Db}
    (hnew : ∀ r ∈ db.messages.rows, r.2.signature ≠ (messageOf p rid t).signature) :
    insertMessageAndMaybeGossip env p rid t db =
      if !encodable rid then (db, .error .unicodeEncodeError)
      else if quotaReached env rid db then (db, .ok .quotaExceeded)
      else if !(messageOf p rid t).binds then (db, .error .unicodeEncodeError)
      else ({ db with messages := db.messages.append (messageOf p rid t) hnew }, .ok (.stored (db.messages.seq + 1))) := by
  have hinsert : db.messages.insert? (messageOf p rid t) =
      some (db.messages.append (messageOf p rid t) hnew, db.messages.seq + 1) := dif_pos hnew
  simp only [insertMessageAndMaybeGossip, hinsert]

/-- The same read by signature: nothing, or one new row for a signature that had none. -/
theorem insert_cases {env : Env} {p : Dict} {rid : Str} {t : Datetime} {db db' : Db}
    {r : Except PyError InsertResult} (h : insertMessageAndMaybeGossip env p rid t db = (db', r)) :
    (db' = db ∧ ∀ id, r ≠ .ok (.stored id)) ∨
      ((∃ id, r = .ok (.stored id)) ∧ db.message (p.text (lit "signature")) = none ∧
        quotaReached env rid db = false ∧ (messageOf p rid t).binds = true ∧
        (∀ s, db'.message s = if s = p.text (lit "signature") then some (messageOf p rid t) else db.message s) ∧
        db'.deletionRequests = db.deletionRequests) := by
  rcases insert_spec h with hsame | ⟨messages, id, hi, hq, hb, rfl, rfl⟩
  · exact .inl hsame
  · obtain ⟨hnone, -, hlook⟩ := Table.insert?_eq_some hi
    exact .inr ⟨⟨id, rfl⟩, hnone, hq, hb, hlook, rfl⟩

/-! ## Deletions -/

/-- The tombstone row, once its values are bound: NULL in a NOT NULL column is an IntegrityError. -/
def bindTombstone (env : Env) (targetSignature : Str) (requesterPubkey requesterRecipientId requestedAt : Json) :
    Except PyError DeletionRequest := do
  let key ← bindText env requesterPubkey
  let rid ← bindText env requesterRecipientId
  let at_ ← bindText env requestedAt
  match key, rid, at_ with
  | some key, some rid, some at_ => return ⟨targetSignature, key, rid, true, at_⟩
  | _, _, _ => throw .integrityError

/-- `_apply_confirmed_deletion`: the message goes first, so it is gone even when the tombstone
cannot be written. -/
def applyConfirmedDeletion (env : Env) (targetSignature : Str)
    (requesterPubkey requesterRecipientId requestedAt : Json) : Section Unit := fun db =>
  if !encodable targetSignature then (db, .error .unicodeEncodeError)
  else
    match bindTombstone env targetSignature requesterPubkey requesterRecipientId requestedAt with
    | .error e => (db.deleteMessage targetSignature, .error e)
    | .ok row => (db.bury row, .ok ())

theorem bindTombstone_ok {env : Env} {t : Str} {a b c : Json} {row : DeletionRequest}
    (h : bindTombstone env t a b c = .ok row) :
    bindText env a = .ok (some row.requesterPubkey) ∧ bindText env b = .ok (some row.requesterRecipientId) ∧
      bindText env c = .ok (some row.requestedAt) ∧ row.targetSignature = t ∧ row.confirmed = true := by
  unfold bindTombstone at h
  cases ha : bindText env a with
  | error e => simp [ha, bind, Except.bind] at h
  | ok x =>
    cases hb : bindText env b with
    | error e => simp [ha, hb, bind, Except.bind] at h
    | ok y =>
      cases hc : bindText env c with
      | error e => simp [ha, hb, hc, bind, Except.bind] at h
      | ok z =>
        simp only [ha, hb, hc, bind, Except.bind] at h
        split at h
        · simp only [pure, Except.pure, Except.ok.injEq] at h
          subst h
          exact ⟨rfl, rfl, rfl, rfl, rfl⟩
        · simp [throw, throwThe, MonadExceptOf.throw] at h

theorem bindTombstone_str {env : Env} {t a b c : Str} (ha : encodable a = true) (hb : encodable b = true)
    (hc : encodable c = true) : bindTombstone env t (.str a) (.str b) (.str c) = .ok ⟨t, a, b, true, c⟩ := by
  simp [bindTombstone, bindText_str, ha, hb, hc, bind, Except.bind, pure, Except.pure]

/-- Whether or not the tombstone can be written, the message is gone from its inbox. -/
theorem inbox_applyConfirmedDeletion (env : Env) (t : Str) (key rid requestedAt : Json) (db : Db) (rid' : Str) :
    (applyConfirmedDeletion env t key rid requestedAt db).1.inbox rid' =
      if encodable t then (db.inbox rid').filter fun m => !decide (m.signature = t) else db.inbox rid' := by
  unfold applyConfirmedDeletion
  cases encodable t with
  | false => rfl
  | true =>
    rw [if_pos rfl]
    cases hb : bindTombstone env t key rid requestedAt with
    | error e => exact Db.inbox_deleteMessage db t rid'
    | ok row =>
      rw [← (bindTombstone_ok hb).2.2.2.1]
      exact Db.inbox_bury db row rid'

/-- With texts that bind, the tombstone is written. -/
theorem applyConfirmedDeletion_str {env : Env} {t key rid requestedAt : Str} (ht : encodable t = true)
    (hk : encodable key = true) (hr : encodable rid = true) (ha : encodable requestedAt = true) (db : Db) :
    applyConfirmedDeletion env t (.str key) (.str rid) (.str requestedAt) db =
      (db.bury ⟨t, key, rid, true, requestedAt⟩, .ok ()) := by
  simp [applyConfirmedDeletion, ht, bindTombstone_str hk hr ha]

/-- What `resolve_deletion_request` finds in its first section. -/
inductive Resolution where
  | noRequest
  | alreadyConfirmed
  | pending (requesterPubkey : Str)

/-- The read section of `resolve_deletion_request`. -/
def readDeletionRequest (signature : Str) (db : Db) : Except PyError Resolution :=
  if encodable signature then
    match db.request signature with
    | none => .ok .noRequest
    | some r => .ok (if r.confirmed then .alreadyConfirmed else .pending r.requesterPubkey)
  else .error .unicodeEncodeError

/-- Between the sections: is the arriving message addressed to the claimant? -/
def claimMatches (env : Env) (now : Datetime) (requesterPubkey recipientId : Str) : Except PyError Bool :=
  match b64decode requesterPubkey with
  | none => .error .binasciiError
  | some der =>
    match candidateRecipientIds env.hmac now env.maxTtlSeconds der with
    | none => .error .overflowError
    | some ids => .ok (recipientId ∈ ids)

/-- The candidate recipient ids of `key` at `now` contain `rid`. -/
def Owns (env : Env) (now : Datetime) (key rid : Str) : Prop :=
  ∃ der ids, b64decode key = some der ∧ candidateRecipientIds env.hmac now env.maxTtlSeconds der = some ids ∧ rid ∈ ids

theorem owns_iff {env : Env} {now : Datetime} {key rid : Str} :
    Owns env now key rid ↔ claimMatches env now key rid = .ok true := by
  unfold Owns claimMatches
  constructor
  · rintro ⟨der, ids, hder, hids, hmem⟩
    simp [hder, hids, hmem]
  · intro h
    split at h
    · cases h
    · rename_i der hder
      split at h
      · cases h
      · rename_i ids hids
        exact ⟨der, ids, hder, hids, by simpa using h⟩

theorem Owns.encodable {env : Env} {now : Datetime} {key rid : Str} (h : Owns env now key rid) :
    encodable key = true ∧ encodable rid = true := by
  obtain ⟨der, ids, hder, hids, hmem⟩ := h
  exact ⟨encodable_of_b64decode hder, candidate_encodable hids rid hmem⟩

/-- The write section of `resolve_deletion_request`. -/
def writeResolution (env : Env) (now : Datetime) (signature recipientId requesterPubkey : Str) (matched : Bool) :
    Section Unit := fun db =>
  if matched then
    applyConfirmedDeletion env signature (.str requesterPubkey) (.str recipientId) (.str now.isoformat) db
  else if encodable signature then (db.deleteRequest signature, .ok ())
  else (db, .error .unicodeEncodeError)

inductive DeleteReply where
  | deleted
  | deleteRequested
  deriving DecidableEq

/-- `handle_delete_request`, on a validated request. -/
def handleDeleteRequest (env : Env) (now : Datetime) (p : Dict) : Section DeleteReply := fun db =>
  let target := p.text (lit "target_signature")
  let key := p.text (lit "recipient_pubkey")
  match b64decode key with
  | none => (db, .error .binasciiError)
  | some der =>
    match candidateRecipientIds env.hmac now env.maxTtlSeconds der with
    | none => (db, .error .overflowError)
    | some ids =>
      if !encodable target then (db, .error .unicodeEncodeError)
      else
        match db.message target with
        | some m =>
          if m.recipientId ∈ ids then
            match applyConfirmedDeletion env target (.str key) (.str m.recipientId) (.str now.isoformat) db with
            | (db', .ok ()) => (db', .ok .deleted)
            | (db', .error e) => (db', .error e)
          else (db, .ok .deleteRequested)
        -- `INSERT OR IGNORE`: an earlier request for the target stays.
        | none => (db.recordRequest ⟨target, key, [], false, now.isoformat⟩, .ok .deleteRequested)

/-- `x.get(field) or default`. -/
def getOr (p : Dict) (field : Str) (default : Json) : Json :=
  match p.get field with
  | some v => if v.truthy then v else default
  | none => default

/-- The tombstone a pulled item asks for. -/
def pulledTombstone (env : Env) (now : Datetime) (item : Dict) (targetSignature : Str) :
    Except PyError DeletionRequest :=
  bindTombstone env targetSignature ((item.get (lit "requester_pubkey")).getD (.str []))
    ((item.get (lit "requester_recipient_id")).getD (.str [])) (getOr item (lit "requested_at") (.str now.isoformat))

/-- The section of one item of `_sync_deletions_with_peer`; true when the tombstone is new here. -/
def applyPulledDeletion (env : Env) (now : Datetime) (item : Dict) (targetSignature : Str) : Section Bool :=
  fun db =>
    if !encodable targetSignature then (db, .error .unicodeEncodeError)
    else if db.confirmed targetSignature then (db, .ok false)
    else
      match applyConfirmedDeletion env targetSignature ((item.get (lit "requester_pubkey")).getD (.str []))
          ((item.get (lit "requester_recipient_id")).getD (.str []))
          (getOr item (lit "requested_at") (.str now.isoformat)) db with
      | (db', .ok ()) => (db', .ok true)
      | (db', .error e) => (db', .error e)

/-- `_CleanupJob._run_once`, which reads the clock twice. -/
def runOnce (env : Env) (now cutoffNow : Datetime) : Section Unit := fun db =>
  match cutoffNow.addSeconds (-env.maxTtlSeconds) with
  | none => (db, .error .overflowError)
  | some tombstoneCutoff =>
    ({ messages := db.messages.deleteWhere fun m => m.expiresAt ≤ now.isoformat
       deletionRequests := db.deletionRequests.deleteWhere fun r => r.requestedAt ≤ tombstoneCutoff.isoformat },
      .ok ())

/-! ## What the deletion sections do, by the signature they touch -/

/-- `handle_delete_request`: nothing, or the owner's deletion of a stored message, or a pending row
for a signature with no message. -/
theorem handleDeleteRequest_cases {env : Env} {now : Datetime} {p : Dict} {db db' : Db}
    {r : Except PyError DeleteReply} (h : handleDeleteRequest env now p db = (db', r)) :
    (db' = db ∧ r ≠ .ok .deleted) ∨
      (∃ m, db.message (p.text (lit "target_signature")) = some m ∧
        Owns env now (p.text (lit "recipient_pubkey")) m.recipientId ∧ r = .ok .deleted ∧
        db' = db.bury ⟨p.text (lit "target_signature"), p.text (lit "recipient_pubkey"), m.recipientId, true,
          now.isoformat⟩) ∨
      (db.message (p.text (lit "target_signature")) = none ∧ r = .ok .deleteRequested ∧
        db' = db.recordRequest ⟨p.text (lit "target_signature"), p.text (lit "recipient_pubkey"), [], false,
          now.isoformat⟩) := by
  unfold handleDeleteRequest at h
  dsimp only at h
  split at h
  · obtain ⟨rfl, rfl⟩ := Prod.mk.inj h
    exact .inl ⟨rfl, by simp⟩
  rename_i der hder
  split at h
  · obtain ⟨rfl, rfl⟩ := Prod.mk.inj h
    exact .inl ⟨rfl, by simp⟩
  rename_i ids hids
  split at h
  · obtain ⟨rfl, rfl⟩ := Prod.mk.inj h
    exact .inl ⟨rfl, by simp⟩
  rename_i ht
  split at h
  · rename_i m hm
    split at h
    · rename_i hown
      rw [applyConfirmedDeletion_str (by simpa using ht) (encodable_of_b64decode hder)
        (candidate_encodable hids _ hown) now.encodable_isoformat] at h
      obtain ⟨rfl, rfl⟩ := Prod.mk.inj h
      exact .inr (.inl ⟨m, hm, ⟨der, ids, hder, hids, hown⟩, rfl, rfl⟩)
    · obtain ⟨rfl, rfl⟩ := Prod.mk.inj h
      exact .inl ⟨rfl, by simp⟩
  · rename_i hm
    obtain ⟨rfl, rfl⟩ := Prod.mk.inj h
    exact .inr (.inr ⟨hm, rfl, rfl⟩)

/-- The owner's request for a stored message is confirmed, and buries it. -/
theorem handleDeleteRequest_owner {env : Env} {now : Datetime} {p : Dict} {db : Db} {m : Message}
    (ht : encodable (p.text (lit "target_signature")) = true)
    (hm : db.message (p.text (lit "target_signature")) = some m)
    (hown : Owns env now (p.text (lit "recipient_pubkey")) m.recipientId) :
    handleDeleteRequest env now p db =
      (db.bury ⟨p.text (lit "target_signature"), p.text (lit "recipient_pubkey"), m.recipientId, true, now.isoformat⟩,
        .ok .deleted) := by
  obtain ⟨hkey, hrid⟩ := hown.encodable
  obtain ⟨der, ids, hder, hids, hmem⟩ := hown
  have happly : applyConfirmedDeletion env _ _ _ _ db = _ :=
    applyConfirmedDeletion_str ht hkey hrid now.encodable_isoformat db
  simp only [handleDeleteRequest, hder, hids, ht, hm, hmem, happly, Bool.not_true, Bool.false_eq_true, if_false, if_true]

/-- The item of a pull: nothing; or, for a signature with no confirmed row, its tombstone; or, when the
tombstone does not bind, the loss of the message alone. -/
theorem applyPulledDeletion_cases {env : Env} {now : Datetime} {item : Dict} {t : Str} {db db' : Db}
    {r : Except PyError Bool} (h : applyPulledDeletion env now item t db = (db', r)) :
    (db' = db ∧ r ≠ .ok true) ∨
      (encodable t = true ∧ db.confirmed t = false ∧
        ((∃ row, pulledTombstone env now item t = .ok row ∧ db' = db.bury row ∧ r = .ok true) ∨
          ∃ e, pulledTombstone env now item t = .error e ∧ db' = db.deleteMessage t ∧ r = .error e)) := by
  unfold applyPulledDeletion at h
  split at h
  · obtain ⟨rfl, rfl⟩ := Prod.mk.inj h
    exact .inl ⟨rfl, by simp⟩
  rename_i he
  split at h
  · obtain ⟨rfl, rfl⟩ := Prod.mk.inj h
    exact .inl ⟨rfl, by simp⟩
  rename_i hc
  refine .inr ⟨by simpa using he, by simpa using hc, ?_⟩
  simp only [applyConfirmedDeletion, he] at h
  cases hp : pulledTombstone env now item t with
  | error e =>
    simp only [pulledTombstone] at hp
    simp only [hp] at h
    obtain ⟨rfl, rfl⟩ := Prod.mk.inj h
    exact .inr ⟨e, rfl, rfl, rfl⟩
  | ok row =>
    simp only [pulledTombstone] at hp
    simp only [hp] at h
    obtain ⟨rfl, rfl⟩ := Prod.mk.inj h
    exact .inl ⟨row, rfl, rfl, rfl⟩

/-- Writing a resolution of a claim: the owner's is buried with its message, anyone else's is dropped. -/
theorem writeResolution_eq {env : Env} {now t : Datetime} {sig rid key : Str} {matched : Bool}
    (hsig : encodable sig = true) (hm : claimMatches env t key rid = .ok matched) (db : Db) :
    writeResolution env now sig rid key matched db =
      (if matched then db.bury ⟨sig, key, rid, true, now.isoformat⟩ else db.deleteRequest sig, .ok ()) := by
  cases matched with
  | true =>
    obtain ⟨hk, hr⟩ := (owns_iff.2 hm).encodable
    simp [writeResolution, applyConfirmedDeletion_str hsig hk hr now.encodable_isoformat]
  | false => simp [writeResolution, hsig]

/-- A sweep keeps exactly the rows that are not due, or raises and keeps them all. -/
theorem runOnce_cases {env : Env} {now cutoffNow : Datetime} {db db' : Db} {r : Except PyError Unit}
    (h : runOnce env now cutoffNow db = (db', r)) :
    (cutoffNow.addSeconds (-env.maxTtlSeconds) = none ∧ db' = db) ∨
      ∃ cutoff, cutoffNow.addSeconds (-env.maxTtlSeconds) = some cutoff ∧
        (∀ s, db'.message s = (db.message s).filter fun m => !decide (m.expiresAt ≤ now.isoformat)) ∧
        (∀ s, db'.request s = (db.request s).filter fun r => !decide (r.requestedAt ≤ cutoff.isoformat)) := by
  unfold runOnce at h
  split at h
  · rename_i hc
    exact .inl ⟨hc, (Prod.mk.inj h).1.symm⟩
  · rename_i cutoff hc
    obtain ⟨rfl, rfl⟩ := Prod.mk.inj h
    exact .inr ⟨cutoff, hc, fun s => Table.lookup_deleteWhere _ _ _, fun s => Table.lookup_deleteWhere _ _ _⟩

/-- A sweep leaves in an inbox what is not due. -/
theorem inbox_runOnce (env : Env) (now cutoffNow : Datetime) (db : Db) (rid : Str) :
    (runOnce env now cutoffNow db).1.inbox rid =
      if (cutoffNow.addSeconds (-env.maxTtlSeconds)).isSome
        then (db.inbox rid).filter fun m => !decide (m.expiresAt ≤ now.isoformat) else db.inbox rid := by
  unfold runOnce
  cases cutoffNow.addSeconds (-env.maxTtlSeconds) with
  | none => rfl
  | some cutoff => exact Db.inbox_deleteWhere rfl rid

theorem sheds_runOnce (env : Env) (now cutoffNow : Datetime) (db : Db) :
    db.messages.Sheds (runOnce env now cutoffNow db).1.messages := by
  unfold runOnce
  split
  · exact .refl _
  · exact Table.sheds_deleteWhere db.messages fun m => m.expiresAt ≤ now.isoformat

/-- A section that sweeps hands out no id. -/
theorem requests_runOnce (env : Env) (now cutoffNow : Datetime) (db : Db) :
    db.deletionRequests.Evolves (runOnce env now cutoffNow db).1.deletionRequests := by
  unfold runOnce
  split
  · exact .refl _
  · rename_i cutoff hcutoff
    exact (Table.sheds_deleteWhere db.deletionRequests fun r => r.requestedAt ≤ cutoff.isoformat).evolves

end AetherNode
