import AetherNode.Gossip
import AetherNode.Handlers
/-!
# Anti-entropy pulls

A puller asks a peer for the rows above its cursor and takes them one by one.
The response is read under the body cap first, and a refused response leaves
the cursor where it was. A page has a row limit but no byte limit: every page
is read exactly when every window of `GOSSIP_PULL_BATCH_LIMIT` rows is small
enough, and two long messages are not.
-/
open AetherNode.Lib AetherNode.Lib.Json AetherNode.Protocol

namespace AetherNode.AntiEntropy

/-- A response: its `Content-Length`, and its body. -/
structure Response where
  contentLength : Option Int
  body : Bytes

/-- `_send_json` with status 200. -/
def sendJson (body : Str) : Response := ⟨some (encode body).length, encode body⟩

/-- `_read_bounded_response`. -/
def readBoundedResponse (resp : Response) (maxBytes : Nat) : Except PyError Bytes :=
  if resp.contentLength.any fun n => decide ((maxBytes : Int) < n) then .error .valueError
  else
    let body := resp.body.take (maxBytes + 1)
    if maxBytes < body.length then .error .valueError else .ok body

/-- What a round meets: the clock, and the answers of the two limiters item by item. -/
structure Round where
  now : Datetime
  checkGlobal : Nat → Bool
  checkIdentity : Nat → Bool

/-- A round that no limiter refuses anything. -/
def Round.unlimited (now : Datetime) : Round := ⟨now, fun _ => true, fun _ => true⟩

/-- How one item ends: paged past, left for the next round, or with an exception. -/
inductive ItemEnd where
  | seen
  | throttled
  | raised (e : PyError)

/-- The loop over the items of a page. An exception loses the new cursor. -/
def syncRows {ρ : Type} (item : Nat → ρ → Db → Db × ItemEnd) (k maxId : Nat) (db : Db) :
    List (Nat × ρ) → Db × Except PyError Nat
  | [] => (db, .ok maxId)
  | (id, x) :: rows =>
    match item k x db with
    | (db', .seen) => syncRows item (k + 1) (max maxId id) db' rows
    | (db', .throttled) => (db', .ok maxId)
    | (db', .raised e) => (db', .error e)

/-- The cursor after the loop: an exception loses the new one. -/
def cursorAfter (c : Nat) : Except PyError Nat → Nat
  | .ok maxId => maxId
  | .error _ => c

/-- One message of a page. -/
def syncMessage (env : Env) (round : Round) (k : Nat) (m : Message) (db : Db) : Db × ItemEnd :=
  match ingest env .antiEntropyPull round.now (round.checkGlobal k) (round.checkIdentity k) m.payload db with
  | (db', .rateLimited) => (db', .throttled)
  | (db', .raised e) => (db', .raised e)
  | (db', _) => (db', .seen)

/-- One tombstone of a page. -/
def syncTombstone (env : Env) (round : Round) (k : Nat) (r : Nat × DeletionRequest) (db : Db) : Db × ItemEnd :=
  match syncDeletion env round.now (round.checkGlobal k && round.checkIdentity k) (Gossip.deletionItem r) db with
  | (db', .rateLimited) => (db', .throttled)
  | (db', .raised e) => (db', .raised e)
  | (db', _) => (db', .seen)

/-- A puller: its tables, and its two cursors into one peer. -/
structure Puller where
  db : Db
  lastSeenId : Nat
  lastSeenDeletionId : Nat

/-- How a round ends: the cursor is saved, the response is refused, or an item raises. -/
inductive RoundEnd where
  | saved
  | refused (e : PyError)
  | raised (e : PyError)

/-- `_sync_with_peer` against a reachable peer with the tables `source`. -/
def syncWithPeer (env : Env) (round : Round) (source : Db) (p : Puller) : Puller × RoundEnd :=
  match readBoundedResponse (sendJson (Gossip.messagesBody source p.lastSeenId)) maxBodyBytes with
  | .error e => (p, .refused e)
  | .ok _ =>
    match syncRows (syncMessage env round) 0 p.lastSeenId p.db (Gossip.messageRows source p.lastSeenId) with
    | (db', .error e) => ({ p with db := db' }, .raised e)
    | (db', .ok maxId) => ({ p with db := db', lastSeenId := maxId }, .saved)

/-- `_sync_deletions_with_peer`. -/
def syncDeletionsWithPeer (env : Env) (round : Round) (source : Db) (p : Puller) : Puller × RoundEnd :=
  match readBoundedResponse (sendJson (Gossip.deletionsBody source p.lastSeenDeletionId)) maxBodyBytes with
  | .error e => (p, .refused e)
  | .ok _ =>
    let rows := (Gossip.deletionRows source p.lastSeenDeletionId).map fun r => (r.1, r)
    match syncRows (syncTombstone env round) 0 p.lastSeenDeletionId p.db rows with
    | (db', .error e) => ({ p with db := db' }, .raised e)
    | (db', .ok maxId) => ({ p with db := db', lastSeenDeletionId := maxId }, .saved)

/-- Rounds of message pulls, one after another. -/
def pulls (env : Env) (source : Db) (rounds : List Round) (p : Puller) : Puller :=
  rounds.foldl (fun p round => (syncWithPeer env round source p).1) p

/-! ## Which pages are read -/

/-- A sent body is read exactly when it is within the bound. -/
theorem readBoundedResponse_sendJson (body : Str) (maxBytes : Nat) :
    (∃ b, readBoundedResponse (sendJson body) maxBytes = .ok b) ↔ (encode body).length ≤ maxBytes := by
  unfold readBoundedResponse
  simp only [sendJson, Option.any_some, decide_eq_true_eq, List.length_take]
  constructor
  · rintro ⟨b, hb⟩
    by_contra hlt
    rw [if_pos (by omega)] at hb
    cases hb
  · intro hle
    rw [if_neg (by omega), if_neg (by omega)]
    exact ⟨_, rfl⟩

theorem readBoundedResponse_error {body : Str} {maxBytes : Nat} (h : maxBytes < (encode body).length) :
    ∃ e, readBoundedResponse (sendJson body) maxBytes = .error e := by
  cases hr : readBoundedResponse (sendJson body) maxBytes with
  | error e => exact ⟨e, rfl⟩
  | ok b => exact absurd ((readBoundedResponse_sendJson body maxBytes).1 ⟨b, hr⟩) (by omega)

end AetherNode.AntiEntropy
