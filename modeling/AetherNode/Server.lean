import AetherNode.Lib.JsonGrammar
import AetherNode.Expiry
import AetherNode.Malformed
import AetherNode.RateLimit
import AetherNode.Requests
/-!
# The POST handlers

Each of the five handlers reads a body, parses it and works on what comes out,
which is any JSON value. `json.JSONDecodeError` is the only exception they
catch. A handler ends with the responses it has sent and the exception it
raises; `Answerable` lists the bodies that get one response and no exception.
-/
open AetherNode.Lib AetherNode.Lib.Json AetherNode.Lib.JsonText AetherNode.Lib.JsonScan AetherNode.Protocol
  AetherNode.RateLimit

namespace AetherNode.Server

/-- What a handler lets through to its server. -/
inductive ServerError where
  | raised (e : PyError)
  | loads (e : LoadsError)
  | recursionError
  | operationalError

structure Response where
  code : Nat
  body : Json

/-- How a handler ends. -/
structure Ended where
  responses : List Response
  error : Option ServerError

/-- The tables, and the limiters of the relay and of its gossip side. -/
structure State where
  db : Db
  clientPublishLimiter : RateLimiter
  gossipPushLimiter : RateLimiter

mutual

/-- How deep a value is nested. -/
def nest : Json → Nat
  | .arr l => nestAll l + 1
  | .obj l => nestItems l + 1
  | _ => 0

def nestAll : List Json → Nat
  | [] => 0
  | v :: l => max (nest v) (nestAll l)

def nestItems : List (Str × Json) → Nat
  | [] => 0
  | (_, v) :: l => max (nest v) (nestItems l)

end

/-- What the handlers leave to the interpreter and to SQLite: reading JSON, how deep `json.dumps` goes, and how many
variables a statement may have. -/
structure Platform where
  decoder : Decoder
  encoderNesting : Nat
  encodes_two : 2 ≤ encoderNesting
  maxVariableNumber : Nat

/-- The clock readings of a request. -/
structure Readings where
  now : Datetime
  checkGlobal : ℚ
  checkIdentity : ℚ

/-- `raise`. -/
def raises (e : ServerError) : Ended := ⟨[], some e⟩

def errorBody (error : Str) : Json := .obj [(lit "error", .str error)]

def statusBody (status : Str) : Json := .obj [(lit "status", .str status)]

section
variable (env : Env) (platform : Platform) (clock : Readings)

/-- `_send_json`. -/
def sendJson (code : Nat) (body : Json) : Ended :=
  if nest body ≤ platform.encoderNesting then ⟨[⟨code, body⟩], none⟩ else raises .recursionError

/-- `json.loads(row[0])`, on what `json.dumps` has made of a payload. -/
def readRow (m : Message) : Except LoadsError Json := loadsText platform.decoder (dumpsDefault (.obj m.payload))

/-- `[json.loads(row[0]) for row in rows]`. -/
def readRows : List Message → Except LoadsError (List Json)
  | [] => .ok []
  | m :: rows =>
    match readRow platform m with
    | .error e => .error e
    | .ok v => (readRows rows).map (v :: ·)

namespace RelayHandler

/-- `_do_publish`, on an object. What verifies has been encoded, so the insert can encode it. -/
def publishObject (p : Dict) (s : State) : State × Ended :=
  match alreadyStored p s.db with
  | .error e => (s, raises (.raised e))
  | .ok true => (s, sendJson platform 409 (errorBody (lit "Message already published (duplicate signature)")))
  | .ok false =>
    let (limiter, ok) := s.clientPublishLimiter.checkGlobal clock.checkGlobal
    let s := { s with clientPublishLimiter := limiter }
    if !ok then (s, sendJson platform 429 (errorBody (lit "rate limit exceeded")))
    else
      match hasRoom env p s.db with
      | .error e => (s, raises (.raised e))
      | .ok false => (s, sendJson platform 429 (errorBody (lit "recipient storage quota exceeded")))
      | .ok true =>
        match validatePublishPayload env clock.now p with
        | .error e => (s, raises (.raised e))
        | .ok (some error) => (s, sendJson platform 400 (errorBody error))
        | .ok none =>
          let (limiter, ok) := s.clientPublishLimiter.checkIdentity clock.checkIdentity (p.text (lit "sender_pubkey"))
          let s := { s with clientPublishLimiter := limiter }
          if !ok then
            ({ s with clientPublishLimiter := s.clientPublishLimiter.refundGlobal },
              sendJson platform 429 (errorBody (lit "rate limit exceeded")))
          else
            match resolveDeletionRequest env clock.now (p.text (lit "signature")) (p.text (lit "recipient_id")) s.db with
            | (db, .error e) => ({ s with db := db }, raises (.raised e))
            | (db, .ok true) =>
              ({ s with db := db }, sendJson platform 200 (.obj [(lit "status", .str (lit "discarded")),
                (lit "reason", .str (lit "message was the target of a prior deletion request"))]))
            | (db, .ok false) =>
              match insertMessageAndMaybeGossip env p (p.text (lit "recipient_id")) clock.now db with
              | (db, .error e) => ({ s with db := db }, raises (.raised e))
              | (db, .ok .quotaExceeded) =>
                ({ s with db := db }, sendJson platform 429 (errorBody (lit "recipient storage quota exceeded")))
              | (db, .ok (.stored id)) =>
                ({ s with db := db }, sendJson platform 200 (.obj [(lit "status", .str (lit "ok")), (lit "id", .int id)]))
              | (db, .ok .duplicate) =>
                ({ s with db := db },
                  sendJson platform 409 (errorBody (lit "Message already published (duplicate signature)")))

/-- `_do_publish`, on what `json.loads` has returned. -/
def publish (payload : Json) (s : State) : State × Ended :=
  match payload with
  | .obj p => publishObject env platform clock p s
  | _ => (s, raises (.raised .attributeError))

/-- The query of `_do_fetch` and its response. -/
def fetchIds (ids : List Str) (s : State) : Ended :=
  if platform.maxVariableNumber < ids.length + 1 then raises .operationalError
  else if !ids.all encodable then raises (.raised .unicodeEncodeError)
  else
    match readRows platform (Expiry.fetchRows ids clock.now s.db) with
    | .error e => raises (.loads e)
    | .ok messages => sendJson platform 200 (.obj [(lit "messages", .arr messages), (lit "count", .int messages.length)])

/-- The checks of `_do_fetch`: the ids, or what it answers. -/
def checkIds (p : Dict) : Except Str (List Str) :=
  match p.get (lit "ids") with
  | some (.arr l) =>
    match l.mapM Expiry.text? with
    | some ids =>
      if ids = [] then .error (lit "'ids' must be a non-empty list of strings")
      else if Expiry.maxFetchIds env < ids.length then
        .error (lit "'ids' exceeds " ++ intText (Expiry.maxFetchIds env) ++ lit " entries")
      else if ids.any fun i => !(0 < i.length ∧ i.length ≤ maxRecipientIdLen) then
        .error (lit "one or more 'ids' entries has an invalid length")
      else .ok ids
    | none => .error (lit "'ids' must be a non-empty list of strings")
  | _ => .error (lit "'ids' must be a non-empty list of strings")

/-- `_do_fetch`, on what `json.loads` has returned. -/
def fetch (payload : Json) (s : State) : State × Ended :=
  match payload with
  | .obj p =>
    match checkIds env p with
    | .error error => (s, sendJson platform 400 (errorBody error))
    | .ok ids => (s, fetchIds platform clock ids s)
  | _ => (s, raises (.raised .attributeError))

/-- The response of `handle_delete_request`. -/
def deleteResponse : DeleteReply → Json
  | .deleted => .obj [(lit "status", .str (lit "deleted")), (lit "propagation", .str (lit "async"))]
  | .deleteRequested => statusBody (lit "delete_requested")

/-- `_do_delete`, on an object, behind `check_global`. -/
def deleteObject (p : Dict) (s : State) : State × Ended :=
  match validateDeletePayload env p with
  | some error => (s, sendJson platform 400 (errorBody error))
  | none =>
    let (limiter, ok) := s.clientPublishLimiter.checkIdentity clock.checkIdentity (p.text (lit "recipient_pubkey"))
    let s := { s with clientPublishLimiter := limiter }
    if !ok then
      ({ s with clientPublishLimiter := s.clientPublishLimiter.refundGlobal },
        sendJson platform 429 (errorBody (lit "rate limit exceeded")))
    else
      match handleDeleteRequest env clock.now p s.db with
      | (db, .error e) => ({ s with db := db }, raises (.raised e))
      | (db, .ok reply) => ({ s with db := db }, sendJson platform 200 (deleteResponse reply))

/-- `_do_delete`, on what `json.loads` has returned; the validation is the first to look at it. -/
def delete (payload : Json) (s : State) : State × Ended :=
  let (limiter, ok) := s.clientPublishLimiter.checkGlobal clock.checkGlobal
  let s := { s with clientPublishLimiter := limiter }
  if !ok then (s, sendJson platform 429 (errorBody (lit "rate limit exceeded")))
  else
    match payload with
    | .obj p => deleteObject env platform clock p s
    | _ => (s, raises (.raised .attributeError))

end RelayHandler

namespace GossipHandler

/-- `peer_fingerprint is not None and gossip_push_limiter.allow(peer_fingerprint)`. -/
def allow (peerFingerprint : Option Str) (s : State) : State × Bool :=
  match peerFingerprint with
  | none => (s, false)
  | some fingerprint =>
    let (limiter, admission) := s.gossipPushLimiter.allow clock.checkGlobal fingerprint
    ({ s with gossipPushLimiter := limiter }, admission = .admitted)

/-- `_do_publish`, on an object. -/
def publishObject (peerFingerprint : Option Str) (p : Dict) (s : State) : State × Ended :=
  match alreadyStored p s.db with
  | .error e => (s, raises (.raised e))
  | .ok true => (s, sendJson platform 200 (statusBody (lit "duplicate")))
  | .ok false =>
    let (s, ok) := allow clock peerFingerprint s
    if !ok then (s, sendJson platform 429 (errorBody (lit "rate limit exceeded")))
    else
      match hasRoom env p s.db with
      | .error e => (s, raises (.raised e))
      | .ok false => (s, sendJson platform 429 (errorBody (lit "recipient storage quota exceeded")))
      | .ok true =>
        match validatePublishPayload env clock.now p with
        | .error e => (s, raises (.raised e))
        | .ok (some error) => (s, sendJson platform 400 (errorBody error))
        | .ok none =>
          match resolveDeletionRequest env clock.now (p.text (lit "signature")) (p.text (lit "recipient_id")) s.db with
          | (db, .error e) => ({ s with db := db }, raises (.raised e))
          | (db, .ok true) => ({ s with db := db }, sendJson platform 200 (statusBody (lit "discarded")))
          | (db, .ok false) =>
            match insertMessageAndMaybeGossip env p (p.text (lit "recipient_id")) clock.now db with
            | (db, .error e) => ({ s with db := db }, raises (.raised e))
            | (db, .ok .quotaExceeded) =>
              ({ s with db := db }, sendJson platform 429 (errorBody (lit "recipient storage quota exceeded")))
            | (db, .ok (.stored id)) =>
              ({ s with db := db }, sendJson platform 200 (.obj [(lit "status", .str (lit "ok")), (lit "id", .int id)]))
            | (db, .ok .duplicate) => ({ s with db := db }, sendJson platform 200 (statusBody (lit "duplicate")))

/-- `_do_publish`, on what `json.loads` has returned. -/
def publish (peerFingerprint : Option Str) (payload : Json) (s : State) : State × Ended :=
  match payload with
  | .obj p => publishObject env platform clock peerFingerprint p s
  | _ => (s, raises (.raised .attributeError))

/-- `_do_delete`, on an object, behind `allow`. -/
def deleteObject (p : Dict) (s : State) : State × Ended :=
  match validateDeletePayload env p with
  | some error => (s, sendJson platform 400 (errorBody error))
  | none =>
    match handleDeleteRequest env clock.now p s.db with
    | (db, .error e) => ({ s with db := db }, raises (.raised e))
    | (db, .ok reply) => ({ s with db := db }, sendJson platform 200 (RelayHandler.deleteResponse reply))

/-- `_do_delete`, on what `json.loads` has returned. -/
def delete (peerFingerprint : Option Str) (payload : Json) (s : State) : State × Ended :=
  let (s, ok) := allow clock peerFingerprint s
  if !ok then (s, sendJson platform 429 (errorBody (lit "rate limit exceeded")))
  else
    match payload with
    | .obj p => deleteObject env platform clock p s
    | _ => (s, raises (.raised .attributeError))

end GossipHandler

end

/-- The five handlers. Those of the gossip server have its `max_body_bytes`, and the fingerprint of the peer of their
connection, if it has one. -/
inductive Handler where
  | publish
  | fetch
  | delete
  | gossipPublish (maxBodyBytes : Nat) (peerFingerprint : Option Str)
  | gossipDelete (maxBodyBytes : Nat) (peerFingerprint : Option Str)

/-- How a handler comes to its body. -/
def Handler.reading : Handler → Requests.Handler
  | .publish => .publish
  | .fetch => .fetch
  | .delete => .delete
  | .gossipPublish maxBodyBytes _ => .gossipPublish maxBodyBytes
  | .gossipDelete maxBodyBytes _ => .gossipDelete maxBodyBytes

section
variable (env : Env) (platform : Platform) (clock : Readings)

/-- The part of a handler behind `json.loads`. -/
def Handler.run : Handler → Json → State → State × Ended
  | .publish => RelayHandler.publish env platform clock
  | .fetch => RelayHandler.fetch env platform clock
  | .delete => RelayHandler.delete env platform clock
  | .gossipPublish _ peerFingerprint => GossipHandler.publish env platform clock peerFingerprint
  | .gossipDelete _ peerFingerprint => GossipHandler.delete env platform clock peerFingerprint

/-- A POST request: its body is read, parsed and worked on. -/
def doPost (h : Handler) (header : Option Requests.HeaderText) (stream : Bytes) (s : State) : State × Ended :=
  match (h.reading.run header stream).received with
  | .answered code error => (s, sendJson platform code (errorBody error))
  | .body raw =>
    match loads platform.decoder raw with
    | .ok payload => h.run env platform clock payload s
    | .error (.jsonDecodeError message) => (s, sendJson platform 400 (errorBody (lit "Invalid JSON: " ++ message)))
    | .error e => (s, raises (.loads e))

end

variable {env : Env} {platform : Platform} {clock : Readings} {p : Dict} {s : State}

/-! ## Responses -/

/-- One response, and no exception. -/
def Ended.Answers (e : Ended) : Prop := ∃ response, e = ⟨[response], none⟩

theorem not_answers_raises (e : ServerError) : ¬ (raises e).Answers := by
  rintro ⟨response, h⟩
  cases h

theorem sendJson_eq (platform : Platform) (code : Nat) {body : Json} (h : nest body ≤ 2) :
    sendJson platform code body = ⟨[⟨code, body⟩], none⟩ := if_pos (Nat.le_trans h platform.encodes_two)

theorem sendError_eq (platform : Platform) (code : Nat) (error : Str) :
    sendJson platform code (errorBody error) = ⟨[⟨code, errorBody error⟩], none⟩ :=
  sendJson_eq platform code (Nat.le_succ 1)

theorem sendJson_answers (platform : Platform) (code : Nat) {body : Json} (h : nest body ≤ 2) :
    (sendJson platform code body).Answers := ⟨_, sendJson_eq platform code h⟩

theorem sendJson_answers_iff {code : Nat} {body : Json} :
    (sendJson platform code body).Answers ↔ nest body ≤ platform.encoderNesting := by
  unfold sendJson
  split
  · rename_i h
    exact iff_of_true ⟨_, rfl⟩ h
  · rename_i h
    exact iff_of_false (not_answers_raises _) h

/-! ## Publishing -/

/-- The answer of `check_global`. -/
def State.globalGate (clock : Readings) (s : State) : Bool := (s.clientPublishLimiter.checkGlobal clock.checkGlobal).2

/-- The answer of `check_identity` behind it. -/
def State.identityGate (clock : Readings) (key : Str) (s : State) : Bool :=
  ((s.clientPublishLimiter.checkGlobal clock.checkGlobal).1.checkIdentity clock.checkIdentity key).2

/-- How `/publish` ends, by the outcome of the ingestion. -/
def RelayHandler.reply (platform : Platform) : Outcome → Ended
  | .duplicate => sendJson platform 409 (errorBody (lit "Message already published (duplicate signature)"))
  | .rateLimited => sendJson platform 429 (errorBody (lit "rate limit exceeded"))
  | .quotaExceeded => sendJson platform 429 (errorBody (lit "recipient storage quota exceeded"))
  | .invalid error => sendJson platform 400 (errorBody error)
  | .discarded => sendJson platform 200 (.obj [(lit "status", .str (lit "discarded")),
      (lit "reason", .str (lit "message was the target of a prior deletion request"))])
  | .stored id => sendJson platform 200 (.obj [(lit "status", .str (lit "ok")), (lit "id", .int id)])
  | .raised e => raises (.raised e)

/-- How `/gossip/publish` ends. -/
def GossipHandler.reply (platform : Platform) : Outcome → Ended
  | .duplicate => sendJson platform 200 (statusBody (lit "duplicate"))
  | .discarded => sendJson platform 200 (statusBody (lit "discarded"))
  | o => RelayHandler.reply platform o

theorem RelayHandler.reply_answers_iff {o : Outcome} : (RelayHandler.reply platform o).Answers ↔ ¬ ∃ e, o = .raised e := by
  cases o with
  | raised e => exact iff_of_false (not_answers_raises _) fun h => h ⟨e, rfl⟩
  | _ => exact iff_of_true (sendJson_answers platform _ (Nat.le_succ 1)) (by simp)

theorem GossipHandler.reply_answers_iff {o : Outcome} : (GossipHandler.reply platform o).Answers ↔ ¬ ∃ e, o = .raised e := by
  cases o with
  | raised e => exact iff_of_false (not_answers_raises _) fun h => h ⟨e, rfl⟩
  | _ => exact iff_of_true (sendJson_answers platform _ (Nat.le_succ 1)) (by simp)

/-- `/publish` on an object is an ingestion with the answers of the limiter. -/
theorem RelayHandler.publishObject_eq (env : Env) (platform : Platform) (clock : Readings) (p : Dict) (s : State) :
    ((RelayHandler.publishObject env platform clock p s).1.db, (RelayHandler.publishObject env platform clock p s).2) =
      Prod.map id (RelayHandler.reply platform)
        (ingest env .publish clock.now (s.globalGate clock) (s.identityGate clock (p.text (lit "sender_pubkey"))) p s.db) := by
  unfold RelayHandler.publishObject ingest State.globalGate State.identityGate
  rcases alreadyStored p s.db with e | (_ | _)
  · rfl
  · dsimp only
    rcases s.clientPublishLimiter.checkGlobal clock.checkGlobal with ⟨limiter, _ | _⟩
    · rfl
    dsimp only
    rcases hasRoom env p s.db with e | (_ | _)
    · rfl
    · rfl
    rcases validatePublishPayload env clock.now p with e | (_ | error)
    · rfl
    · dsimp only
      rcases limiter.checkIdentity clock.checkIdentity (p.text (lit "sender_pubkey")) with ⟨limiter, _ | _⟩
      · rfl
      rcases resolveDeletionRequest env clock.now (p.text (lit "signature")) (p.text (lit "recipient_id")) s.db with
        ⟨db, e | (_ | _)⟩
      · rfl
      · dsimp only
        rcases insertMessageAndMaybeGossip env p (p.text (lit "recipient_id")) clock.now db with ⟨db', e | (_ | _ | _)⟩ <;> rfl
      · rfl
    · rfl
  · rfl

theorem GossipHandler.allow_db (clock : Readings) (peerFingerprint : Option Str) (s : State) :
    (GossipHandler.allow clock peerFingerprint s).1.db = s.db := by
  cases peerFingerprint <;> rfl

/-- `/gossip/publish` on an object is an ingestion with the answer of its limiter, and none behind the validation. -/
theorem GossipHandler.publishObject_eq (env : Env) (platform : Platform) (clock : Readings) (peerFingerprint : Option Str)
    (p : Dict) (s : State) :
    ((GossipHandler.publishObject env platform clock peerFingerprint p s).1.db,
        (GossipHandler.publishObject env platform clock peerFingerprint p s).2) =
      Prod.map id (GossipHandler.reply platform)
        (ingest env .gossipPublish clock.now (GossipHandler.allow clock peerFingerprint s).2 true p s.db) := by
  unfold GossipHandler.publishObject ingest
  rcases alreadyStored p s.db with e | (_ | _)
  · rfl
  · have hdb := GossipHandler.allow_db clock peerFingerprint s
    generalize GossipHandler.allow clock peerFingerprint s = r at hdb ⊢
    rw [← hdb]
    rcases r with ⟨s', _ | _⟩
    · rfl
    dsimp only
    rcases hasRoom env p s'.db with e | (_ | _)
    · rfl
    · rfl
    rcases validatePublishPayload env clock.now p with e | (_ | error)
    · rfl
    · dsimp only
      rcases resolveDeletionRequest env clock.now (p.text (lit "signature")) (p.text (lit "recipient_id")) s'.db with
        ⟨db, e | (_ | _)⟩
      · rfl
      · dsimp only
        rcases insertMessageAndMaybeGossip env p (p.text (lit "recipient_id")) clock.now db with ⟨db', e | (_ | _ | _)⟩ <;> rfl
      · rfl
    · rfl
  · rfl

/-! ## Deleting -/

/-- The answers of the limiter to a delete. -/
def State.deleteGate (clock : Readings) (key : Str) (s : State) : Gate :=
  if !s.globalGate clock then .globalRefused
  else if !s.identityGate clock key then .identityRefused
  else .pass

/-- The gossip side asks its limiter once. -/
def State.gossipDeleteGate (clock : Readings) (peerFingerprint : Option Str) (s : State) : Gate :=
  if (GossipHandler.allow clock peerFingerprint s).2 then .pass else .globalRefused

/-- How either delete ends. -/
def deleteEnd (platform : Platform) : DeleteOutcome → Ended
  | .rateLimited => sendJson platform 429 (errorBody (lit "rate limit exceeded"))
  | .invalid error => sendJson platform 400 (errorBody error)
  | .replied reply => sendJson platform 200 (RelayHandler.deleteResponse reply)
  | .raised e => raises (.raised e)

theorem deleteEnd_answers_iff {o : DeleteOutcome} : (deleteEnd platform o).Answers ↔ ¬ ∃ e, o = .raised e := by
  cases o with
  | raised e => exact iff_of_false (not_answers_raises _) fun h => h ⟨e, rfl⟩
  | replied reply =>
    refine iff_of_true (sendJson_answers platform 200 ?_) (by simp)
    cases reply <;> exact Nat.le_succ 1
  | _ => exact iff_of_true (sendJson_answers platform _ (Nat.le_succ 1)) (by simp)

theorem RelayHandler.delete_eq (env : Env) (platform : Platform) (clock : Readings) (p : Dict) (s : State) :
    ((RelayHandler.delete env platform clock (.obj p) s).1.db, (RelayHandler.delete env platform clock (.obj p) s).2) =
      Prod.map id (deleteEnd platform)
        (doDelete env clock.now (s.deleteGate clock (p.text (lit "recipient_pubkey"))) p s.db) := by
  unfold RelayHandler.delete RelayHandler.deleteObject doDelete State.deleteGate State.globalGate State.identityGate
  rcases s.clientPublishLimiter.checkGlobal clock.checkGlobal with ⟨limiter, _ | _⟩
  · rfl
  dsimp only
  rcases validateDeletePayload env p with _ | error
  · rcases limiter.checkIdentity clock.checkIdentity (p.text (lit "recipient_pubkey")) with ⟨limiter, _ | _⟩
    · rfl
    dsimp only
    rcases handleDeleteRequest env clock.now p s.db with ⟨db, e | reply⟩ <;> rfl
  · rcases limiter.checkIdentity clock.checkIdentity (p.text (lit "recipient_pubkey")) with ⟨limiter, _ | _⟩ <;> rfl

theorem GossipHandler.delete_eq (env : Env) (platform : Platform) (clock : Readings) (peerFingerprint : Option Str)
    (p : Dict) (s : State) :
    ((GossipHandler.delete env platform clock peerFingerprint (.obj p) s).1.db,
        (GossipHandler.delete env platform clock peerFingerprint (.obj p) s).2) =
      Prod.map id (deleteEnd platform) (doDelete env clock.now (s.gossipDeleteGate clock peerFingerprint) p s.db) := by
  unfold GossipHandler.delete GossipHandler.deleteObject doDelete State.gossipDeleteGate
  have hdb := GossipHandler.allow_db clock peerFingerprint s
  generalize GossipHandler.allow clock peerFingerprint s = r at hdb ⊢
  rw [← hdb]
  rcases r with ⟨s', _ | _⟩
  · rfl
  dsimp only
  rcases validateDeletePayload env p with _ | error
  · rcases handleDeleteRequest env clock.now p s'.db with ⟨db, e | reply⟩ <;> rfl
  · rfl

/-- The valid deletes that raise: the addresses of the key cannot be computed, or the target does not bind. -/
inductive DeleteRaises (env : Env) (now : Datetime) (p : Dict) : Prop
  | clock {der} : ValidDelete env p → b64decode (p.text (lit "recipient_pubkey")) = some der →
      candidateRecipientIds env.hmac now env.maxTtlSeconds der = none → DeleteRaises env now p
  | target : ValidDelete env p → encodable (p.text (lit "target_signature")) = false → DeleteRaises env now p

theorem DeleteRaises.valid {now : Datetime} (h : DeleteRaises env now p) : ValidDelete env p := by
  cases h with
  | clock hv | target hv => exact hv

theorem handleDeleteRequest_raises_iff {now : Datetime} {db : Db} (hv : ValidDelete env p) :
    (∃ e, (handleDeleteRequest env now p db).2 = .error e) ↔ DeleteRaises env now p := by
  obtain ⟨der, hder⟩ := Verifier.pubkey_text hv.verified
  cases hids : candidateRecipientIds env.hmac now env.maxTtlSeconds der with
  | none =>
    exact iff_of_true ⟨.overflowError, by simp [handleDeleteRequest, hder, hids]⟩ (.clock hv hder hids)
  | some ids =>
    cases ht : encodable (p.text (lit "target_signature")) with
    | false =>
      exact iff_of_true ⟨.unicodeEncodeError, by simp [handleDeleteRequest, hder, hids, ht]⟩ (.target hv ht)
    | true =>
      refine iff_of_false ?_ ?_
      · rintro ⟨e, he⟩
        cases hm : db.message (p.text (lit "target_signature")) with
        | none => simp [handleDeleteRequest, hder, hids, ht, hm] at he
        | some m =>
          by_cases hown : m.recipientId ∈ ids
          · rw [handleDeleteRequest_owner ht hm ⟨der, ids, hder, hids, hown⟩] at he
            cases he
          · simp [handleDeleteRequest, hder, hids, ht, hm, hown] at he
      · intro h
        cases h with
        | clock _ hder' hnone =>
          rw [hder] at hder'
          cases hder'
          rw [hids] at hnone
          cases hnone
        | target _ hunbound =>
          rw [ht] at hunbound
          cases hunbound

theorem doDelete_raises_iff (env : Env) (now : Datetime) (gate : Gate) (p : Dict) (db : Db) :
    (∃ e, (doDelete env now gate p db).2 = .raised e) ↔ gate = .pass ∧ DeleteRaises env now p := by
  cases hval : validateDeletePayload env p with
  | some error =>
    refine iff_of_false (by cases gate <;> simp [doDelete, hval]) ?_
    rintro ⟨-, h⟩
    rw [validateDeletePayload_none.2 h.valid] at hval
    cases hval
  | none =>
    cases gate with
    | pass =>
      rw [← handleDeleteRequest_raises_iff (validateDeletePayload_none.1 hval)]
      rcases hrequest : handleDeleteRequest env now p db with ⟨db', e | reply⟩
      · exact iff_of_true ⟨e, by simp [doDelete, hval, hrequest]⟩ ⟨rfl, e, rfl⟩
      · exact iff_of_false (by simp [doDelete, hval, hrequest]) (by simp)
    | globalRefused | identityRefused => exact iff_of_false (by simp [doDelete, hval]) (by simp)

/-! ## Fetching -/

/-- The ids of a fetch that passes its checks. -/
structure ValidFetch (env : Env) (p : Dict) (ids : List Str) : Prop where
  listed : p.get (lit "ids") = some (.arr (ids.map .str))
  nonempty : ids ≠ []
  count : ids.length ≤ Expiry.maxFetchIds env
  lengths : ∀ i ∈ ids, 0 < i.length ∧ i.length ≤ maxRecipientIdLen

theorem texts_eq_some {l : List Json} {ids : List Str} : l.mapM Expiry.text? = some ids ↔ l = ids.map .str := by
  induction l generalizing ids with
  | nil => simp [eq_comm]
  | cons v l ih =>
    cases v with
    | str t =>
      cases hl : l.mapM Expiry.text? with
      | none =>
        have hno : ∀ ids : List Str, l ≠ ids.map Json.str := by
          rintro ids rfl
          rw [ih.2 rfl] at hl
          cases hl
        cases ids <;> simp [Expiry.text?, hl, hno]
      | some ids' =>
        obtain rfl := ih.1 hl
        have hinj : Function.Injective (List.map Json.str) := List.map_injective_iff.2 fun _ _ h => Json.str.inj h
        cases ids <;> simp [Expiry.text?, hl, hinj.eq_iff]
    | _ => cases ids <;> simp [Expiry.text?]

theorem checkIds_eq_ok {ids : List Str} : RelayHandler.checkIds env p = .ok ids ↔ ValidFetch env p ids := by
  constructor
  · intro h
    unfold RelayHandler.checkIds at h
    split at h
    · rename_i l hl
      split at h
      · rename_i ids' hids
        split_ifs at h with hempty hcount hlengths
        cases h
        rw [texts_eq_some.1 hids] at hl
        refine ⟨hl, hempty, Int.not_lt.1 hcount, ?_⟩
        simpa [List.length_pos_iff] using hlengths
      · cases h
    · cases h
  · rintro ⟨hl, hne, hcount, hlengths⟩
    have hids : (ids.map Json.str).mapM Expiry.text? = some ids := texts_eq_some.2 rfl
    have hlong : (ids.any fun i => !(0 < i.length ∧ i.length ≤ maxRecipientIdLen)) = false := by
      simpa [List.length_pos_iff] using hlengths
    simp only [RelayHandler.checkIds, hl, hids, hne, Int.not_lt.2 hcount, hlong, if_false, Bool.false_eq_true]

/-- What makes a fetch raise behind its checks: its ids, or the rows it finds. -/
inductive FetchRaises (platform : Platform) (now : Datetime) (ids : List Str) (db : Db) : Prop
  | tooMany : platform.maxVariableNumber < ids.length + 1 → FetchRaises platform now ids db
  | unbound {i} : i ∈ ids → encodable i = false → FetchRaises platform now ids db
  | unreadable {m e} : m ∈ Expiry.fetchRows ids now db → readRow platform m = .error e → FetchRaises platform now ids db
  /-- The list and the object around it are two levels more. -/
  | deep {m v} : m ∈ Expiry.fetchRows ids now db → readRow platform m = .ok v → platform.encoderNesting < nest v + 2 →
      FetchRaises platform now ids db

theorem nestAll_le {l : List Json} {n : Nat} : nestAll l ≤ n ↔ ∀ v ∈ l, nest v ≤ n := by
  induction l with
  | nil => simp [nestAll]
  | cons v l ih => simp [nestAll, ih]

theorem nest_messages (l : List Json) (n : Int) :
    nest (.obj [(lit "messages", .arr l), (lit "count", .int n)]) = nestAll l + 2 := by
  simp [nest, nestItems]

theorem readRows_error {rows : List Message} {e : LoadsError} (h : readRows platform rows = .error e) :
    ∃ m ∈ rows, readRow platform m = .error e := by
  induction rows with
  | nil => cases h
  | cons m rows ih =>
    rw [readRows] at h
    cases hrow : readRow platform m with
    | error e' =>
      rw [hrow] at h
      cases h
      exact ⟨m, List.mem_cons_self, hrow⟩
    | ok v =>
      rw [hrow] at h
      cases hrest : readRows platform rows with
      | error e' =>
        rw [hrest] at h
        cases h
        obtain ⟨m', hm, hread⟩ := ih hrest
        exact ⟨m', List.mem_cons_of_mem _ hm, hread⟩
      | ok l =>
        rw [hrest] at h
        cases h

theorem readRows_ok {rows : List Message} {l : List Json} (h : readRows platform rows = .ok l) :
    rows.map (readRow platform) = l.map .ok := by
  induction rows generalizing l with
  | nil =>
    cases h
    rfl
  | cons m rows ih =>
    rw [readRows] at h
    cases hrow : readRow platform m with
    | error e =>
      rw [hrow] at h
      cases h
    | ok v =>
      rw [hrow] at h
      cases hrest : readRows platform rows with
      | error e =>
        rw [hrest] at h
        cases h
      | ok l' =>
        rw [hrest] at h
        cases h
        rw [List.map_cons, List.map_cons, hrow, ih hrest]

theorem mem_readRows {rows : List Message} {l : List Json} (h : readRows platform rows = .ok l) {v : Json} :
    v ∈ l ↔ ∃ m ∈ rows, readRow platform m = .ok v := by
  have hmem : Except.ok v ∈ rows.map (readRow platform) ↔ v ∈ l := by
    rw [readRows_ok h]
    simp
  rw [← hmem, List.mem_map]

theorem fetchIds_answers_iff {ids : List Str} :
    (RelayHandler.fetchIds platform clock ids s).Answers ↔ ¬ FetchRaises platform clock.now ids s.db := by
  unfold RelayHandler.fetchIds
  by_cases hvariables : platform.maxVariableNumber < ids.length + 1
  · rw [if_pos hvariables]
    exact iff_of_false (not_answers_raises _) fun h => h (.tooMany hvariables)
  rw [if_neg hvariables]
  by_cases hbinds : ids.all encodable = true
  swap
  · obtain ⟨i, hi, hunbound⟩ : ∃ i ∈ ids, encodable i = false := by simpa using hbinds
    rw [if_pos (by simpa using hbinds)]
    exact iff_of_false (not_answers_raises _) fun h => h (.unbound hi hunbound)
  rw [if_neg (by simpa using hbinds)]
  cases hrows : readRows platform (Expiry.fetchRows ids clock.now s.db) with
  | error e =>
    obtain ⟨m, hm, hread⟩ := readRows_error hrows
    exact iff_of_false (not_answers_raises _) fun h => h (.unreadable hm hread)
  | ok l =>
    have htwo := platform.encodes_two
    have hdepth : nestAll l + 2 ≤ platform.encoderNesting ↔ ∀ v ∈ l, nest v + 2 ≤ platform.encoderNesting := by
      rw [← Nat.le_sub_iff_add_le htwo, nestAll_le]
      exact forall₂_congr fun v _ => Nat.le_sub_iff_add_le htwo
    rw [sendJson_answers_iff, nest_messages, hdepth]
    constructor
    · intro hfits h
      cases h with
      | tooMany h => exact hvariables h
      | unbound hi hunbound =>
        rw [List.all_eq_true.1 hbinds _ hi] at hunbound
        cases hunbound
      | unreadable hm hread =>
        have hmem := List.mem_map_of_mem (f := readRow platform) hm
        rw [readRows_ok hrows, hread] at hmem
        simp at hmem
      | deep hm hread hdeep => exact absurd (hfits _ ((mem_readRows hrows).2 ⟨_, hm, hread⟩)) (Nat.not_le.2 hdeep)
    · intro h v hv
      obtain ⟨m, hm, hread⟩ := (mem_readRows hrows).1 hv
      rw [← Nat.not_lt]
      exact fun hdeep => h (.deep hm hread hdeep)

/-! ## Which requests are answered -/

/-- The objects that make a handler raise in a state. -/
def Handler.Raises (env : Env) (platform : Platform) (clock : Readings) (p : Dict) (s : State) : Handler → Prop
  | .publish => Malformed.PublishRaises env clock.now (s.globalGate clock) (s.identityGate clock (p.text (lit "sender_pubkey"))) p s.db
  | .fetch => ∃ ids, ValidFetch env p ids ∧ FetchRaises platform clock.now ids s.db
  | .delete => s.deleteGate clock (p.text (lit "recipient_pubkey")) = .pass ∧ DeleteRaises env clock.now p
  | .gossipPublish _ peerFingerprint =>
    Malformed.PublishRaises env clock.now (GossipHandler.allow clock peerFingerprint s).2 true p s.db
  | .gossipDelete _ peerFingerprint =>
    (GossipHandler.allow clock peerFingerprint s).2 = true ∧ DeleteRaises env clock.now p

/-- On an object a handler sends one response, or raises before it has sent one. -/
theorem Handler.run_answers_iff (h : Handler) :
    (h.run env platform clock (.obj p) s).2.Answers ↔ ¬ h.Raises env platform clock p s := by
  cases h with
  | publish =>
    have heq := congrArg Prod.snd (RelayHandler.publishObject_eq env platform clock p s)
    rw [Handler.run, RelayHandler.publish, heq, Prod.map_snd, RelayHandler.reply_answers_iff, Malformed.ingest_raises_iff]
    simp [Handler.Raises]
  | fetch =>
    simp only [Handler.run, RelayHandler.fetch, Handler.Raises, ← checkIds_eq_ok]
    cases hids : RelayHandler.checkIds env p with
    | error error => exact iff_of_true (sendJson_answers platform 400 (Nat.le_succ 1)) (by simp)
    | ok ids =>
      simp only [Except.ok.injEq, exists_eq_left']
      exact fetchIds_answers_iff
  | delete =>
    have heq := congrArg Prod.snd (RelayHandler.delete_eq env platform clock p s)
    rw [Handler.run, heq, Prod.map_snd, deleteEnd_answers_iff, doDelete_raises_iff, Handler.Raises]
  | gossipPublish maxBodyBytes peerFingerprint =>
    have heq := congrArg Prod.snd (GossipHandler.publishObject_eq env platform clock peerFingerprint p s)
    rw [Handler.run, GossipHandler.publish, heq, Prod.map_snd, GossipHandler.reply_answers_iff, Malformed.ingest_raises_iff]
    simp [Handler.Raises]
  | gossipDelete maxBodyBytes peerFingerprint =>
    have heq := congrArg Prod.snd (GossipHandler.delete_eq env platform clock peerFingerprint p s)
    rw [Handler.run, heq, Prod.map_snd, deleteEnd_answers_iff, doDelete_raises_iff, Handler.Raises]
    simp [State.gossipDeleteGate]

/-- On any other value a handler raises, or the limiter of the deletes answers. -/
theorem Handler.run_not_object (h : Handler) {v : Json} (hv : ∀ p, v ≠ .obj p) :
    (∃ e, (h.run env platform clock v s).2 = raises e) ∨
      ∃ body, (h.run env platform clock v s).2 = sendJson platform 429 (errorBody body) := by
  cases v with
  | obj p => exact absurd rfl (hv p)
  | _ =>
    cases h with
    | publish | fetch | gossipPublish => exact .inl ⟨_, rfl⟩
    | delete =>
      rw [Handler.run, RelayHandler.delete]
      rcases s.clientPublishLimiter.checkGlobal clock.checkGlobal with ⟨limiter, _ | _⟩
      · exact .inr ⟨_, rfl⟩
      · exact .inl ⟨_, rfl⟩
    | gossipDelete maxBodyBytes peerFingerprint =>
      rw [Handler.run, GossipHandler.delete]
      rcases GossipHandler.allow clock peerFingerprint s with ⟨s', _ | _⟩
      · exact .inr ⟨_, rfl⟩
      · exact .inl ⟨_, rfl⟩

/-- How a request with this body should end: in one response, and in a 400 and no change for what is not an object. -/
structure OneAnswer (platform : Platform) (raw : Bytes) (s : State) (r : State × Ended) : Prop where
  answers : r.2.Answers
  refused : (¬ ∃ p, loads platform.decoder raw = .ok (.obj p)) → r.1 = s ∧ ∃ body, r.2.responses = [⟨400, body⟩]

/-- The bodies that get their answer: the empty one, malformed JSON, and the objects on which the handler does not
raise. -/
inductive Answerable (env : Env) (platform : Platform) (clock : Readings) (h : Handler) (raw : Bytes) (s : State) : Prop
  | empty : raw = [] → Answerable env platform clock h raw s
  | malformed {message} : loads platform.decoder raw = .error (.jsonDecodeError message) →
      Answerable env platform clock h raw s
  | object {p : Dict} : loads platform.decoder raw = .ok (.obj p) → ¬ h.Raises env platform clock p s →
      Answerable env platform clock h raw s

section
variable {h : Handler} {raw : Bytes}

theorem answerable_object_iff (hne : raw ≠ []) (hloads : loads platform.decoder raw = .ok (.obj p)) :
    Answerable env platform clock h raw s ↔ ¬ h.Raises env platform clock p s := by
  refine ⟨fun ha => ?_, .object hloads⟩
  cases ha with
  | empty hempty => exact absurd hempty hne
  | malformed hmalformed =>
    rw [hloads] at hmalformed
    cases hmalformed
  | object hloads' hraises =>
    rw [hloads] at hloads'
    cases hloads'
    exact hraises

theorem not_answerable (hne : raw ≠ []) (hmalformed : ∀ message, loads platform.decoder raw ≠ .error (.jsonDecodeError message))
    (hobj : ∀ p, loads platform.decoder raw ≠ .ok (.obj p)) : ¬ Answerable env platform clock h raw s := by
  intro ha
  cases ha with
  | empty hempty => exact hne hempty
  | malformed h => exact hmalformed _ h
  | object h => exact hobj _ h

/-- Beside malformed JSON, the bodies that get their answer are written as objects. -/
theorem answerable_iff_document (hne : raw ≠ []) (hdec : ∀ t, platform.decoder.decode raw = some t → CodePoints t) :
    Answerable env platform clock h raw s ↔
      (∃ message, loads platform.decoder raw = .error (.jsonDecodeError message)) ∨
        ∃ (d : Document) (p : Dict), platform.decoder.decode raw = some d.text ∧
          platform.decoder.loads d = some (.obj p) ∧ ¬ h.Raises env platform clock p s := by
  constructor
  · intro ha
    cases ha with
    | empty hempty => exact absurd hempty hne
    | malformed hmalformed => exact .inl ⟨_, hmalformed⟩
    | object hloads hraises =>
      obtain ⟨d, htext, hread⟩ := (loads_eq_ok_iff hdec).1 hloads
      exact .inr ⟨d, _, htext, hread, hraises⟩
  · rintro (⟨message, hmalformed⟩ | ⟨d, p, htext, hread, hraises⟩)
    · exact .malformed hmalformed
    · exact .object ((loads_eq_ok_iff hdec).2 ⟨d, htext, hread⟩) hraises

/-- A body that is written as JSON gets its answer exactly where it is an object that can be read and that the handler
does not raise on. -/
theorem answerable_document_iff {d : Document} (hne : raw ≠ []) (htext : platform.decoder.decode raw = some d.text) :
    Answerable env platform clock h raw s ↔
      ∃ p, platform.decoder.loads d = some (.obj p) ∧ ¬ h.Raises env platform clock p s := by
  cases hread : platform.decoder.loads d with
  | none =>
    refine iff_of_false ?_ (by simp)
    rcases loads_document_none htext hread with hloads | hloads <;>
      exact not_answerable hne (by simp [hloads]) (by simp [hloads])
  | some v =>
    have hloads := loads_document htext hread
    cases v with
    | obj p =>
      rw [answerable_object_iff hne hloads]
      simp
    | _ => exact iff_of_false (not_answerable hne (by simp [hloads]) (by simp [hloads])) (by simp)

end

/-- What a handler goes on with when a length within its cap is declared. -/
theorem received_eq (h : Handler) {header : Option Requests.HeaderText} {stream : Bytes} {n : Nat}
    (hdeclared : Requests.contentLength header = n) (hcap : n ≤ h.reading.cap) :
    (h.reading.run header stream).received =
      if stream.take n = [] then .answered 400 (lit "Empty request body") else .body (stream.take n) := by
  rw [Requests.Handler.run_eq, Requests.receive, hdeclared, if_neg (by omega)]
  by_cases hzero : n = 0
  · subst hzero
    rfl
  · have hread : Requests.RelayHandler.readBody n stream = some (stream.take n) := by
      rw [Requests.RelayHandler.readBody, if_neg (by omega), Requests.rfileRead, if_neg (by omega), Int.toNat_natCast]
    rw [hread]
    cases stream.take n <;> rfl

/-- Whatever is sent as the body of a request of a length within the cap, in whatever state: the request gets its one
answer, and changes nothing where it is not an object, exactly when the body is `Answerable`. -/
theorem one_answer_iff (env : Env) (platform : Platform) (clock : Readings) (h : Handler) (s : State)
    {header : Option Requests.HeaderText} {n : Nat} (hdeclared : Requests.contentLength header = n)
    (hcap : n ≤ h.reading.cap) (stream : Bytes) :
    OneAnswer platform (stream.take n) s (doPost env platform clock h header stream s) ↔
      Answerable env platform clock h (stream.take n) s := by
  unfold doPost
  rw [received_eq h hdeclared hcap]
  generalize stream.take n = raw
  by_cases hempty : raw = []
  · rw [if_pos hempty]
    dsimp only
    rw [sendError_eq]
    exact iff_of_true ⟨⟨_, rfl⟩, fun _ => ⟨rfl, _, rfl⟩⟩ (.empty hempty)
  rw [if_neg hempty]
  dsimp only
  cases hloads : loads platform.decoder raw with
  | error e =>
    cases e with
    | jsonDecodeError message =>
      dsimp only
      rw [sendError_eq]
      exact iff_of_true ⟨⟨_, rfl⟩, fun _ => ⟨rfl, _, rfl⟩⟩ (.malformed hloads)
    | _ =>
      refine iff_of_false (fun h => not_answers_raises _ h.answers) (not_answerable hempty ?_ ?_) <;> simp [hloads]
  | ok v =>
    by_cases hobj : ∃ p, v = .obj p
    · obtain ⟨p, rfl⟩ := hobj
      rw [answerable_object_iff hempty hloads, ← h.run_answers_iff]
      exact ⟨fun h => h.answers, fun h => ⟨h, fun hno => absurd ⟨p, hloads⟩ hno⟩⟩
    · have hno : ¬ ∃ p, loads platform.decoder raw = .ok (.obj p) := by simpa [hloads] using hobj
      refine iff_of_false ?_ (not_answerable hempty (by simp [hloads]) (not_exists.1 hno))
      rintro ⟨hanswers, hrefused⟩
      obtain ⟨-, body, hbody⟩ := hrefused hno
      dsimp only at hanswers hbody
      rcases h.run_not_object (not_exists.1 hobj) with ⟨e, he⟩ | ⟨error, he⟩
      · rw [he] at hanswers
        exact not_answers_raises e hanswers
      · rw [he, sendError_eq] at hbody
        cases hbody

/-- A relay that has just started. -/
def fresh : State := ⟨.empty, .new burst 0, .new burst 0⟩

/-- ASCII bodies, and limits of the order of those of CPython and SQLite. -/
def Platform.usual : Platform := ⟨Decoder.ascii, 1000, Nat.le_of_ble_eq_true rfl, 250000⟩

def noonReadings : Readings := ⟨Sample.noon, 0, 0⟩

/-- A request that declares the length of what it sends. -/
def sends (h : Handler) (raw : Bytes) (s : State) : State × Ended :=
  doPost Sample.config .usual noonReadings h (some (Requests.lengthHeader raw)) raw s

/-- `/publish` refuses an object without fields in one response. -/
theorem one_answer_iff_no_fields :
    OneAnswer .usual (lit "\x7b\x7d") fresh (sends .publish (lit "\x7b\x7d") fresh) := by
  have hloads : loads Platform.usual.decoder (lit "\x7b\x7d") = .ok (.obj []) := rfl
  have hmain := one_answer_iff Sample.config .usual noonReadings .publish fresh
    (rfl : Requests.contentLength (some (Requests.lengthHeader (lit "\x7b\x7d"))) = (2 : Nat)) (Nat.le_of_ble_eq_true rfl)
    (lit "\x7b\x7d")
  refine hmain.2 (.object hloads ?_)
  intro h
  cases h with
  | signature hs => cases hs
  | recipient _ _ hr => cases hr
  | clock _ _ _ herror => cases herror
  | claim _ _ hadmitted | expiry _ _ hadmitted =>
    obtain ⟨r, hr, -⟩ := hadmitted.valid.recipient
    cases hr

/-- `POST /publish` with the body `[]`: `AttributeError`, and no response. -/
theorem list_body_unanswered :
    sends .publish (lit "[]") fresh = (fresh, raises (.raised .attributeError)) ∧
      ¬ OneAnswer .usual (lit "[]") fresh (sends .publish (lit "[]") fresh) := by
  have hraised : sends .publish (lit "[]") fresh = (fresh, raises (.raised .attributeError)) := rfl
  refine ⟨hraised, ?_⟩
  rw [hraised]
  exact fun h => not_answers_raises _ h.answers

end AetherNode.Server
