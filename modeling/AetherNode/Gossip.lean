import AetherNode.Lib.Cursor
import AetherNode.Store
/-!
# The pages a relay serves to its peers

`GET /gossip/messages` and `GET /gossip/deletions`: the rows above `since_id`
in id order, at most `GOSSIP_PULL_BATCH_LIMIT` of them, as the JSON body that
is sent. Of `deletion_requests` only confirmed rows are served.
-/
open AetherNode.Lib AetherNode.Lib.Json

namespace AetherNode.Gossip

def gossipPullBatchLimit : Nat := 500

/-- `WHERE id > since_id AND p ORDER BY id ASC LIMIT GOSSIP_PULL_BATCH_LIMIT`. -/
def pageRows {ρ : Type} (p : ρ → Bool) (rows : List (Nat × ρ)) (sinceId : Nat) : List (Nat × ρ) :=
  (rows.filter fun r => decide (sinceId < r.1) && p r.2).take gossipPullBatchLimit

theorem pageRows_eq_window {ρ : Type} (p : ρ → Bool) (rows : List (Nat × ρ)) (sinceId : Nat) :
    pageRows p rows sinceId = Cursor.window gossipPullBatchLimit p rows sinceId :=
  rfl

theorem mem_of_pageRows {ρ : Type} {p : ρ → Bool} {rows : List (Nat × ρ)} {sinceId : Nat} {r : Nat × ρ}
    (h : r ∈ pageRows p rows sinceId) : r ∈ rows ∧ sinceId < r.1 ∧ p r.2 = true := by
  rw [pageRows_eq_window] at h
  exact Cursor.mem_of_window h

/-- The message rows of a page. -/
def messageRows (db : Db) (sinceId : Nat) : List (Nat × Message) := pageRows (fun _ => true) db.messages.rows sinceId

/-- The tombstones of a page. -/
def deletionRows (db : Db) (sinceId : Nat) : List (Nat × DeletionRequest) :=
  pageRows (fun r => r.confirmed) db.deletionRequests.rows sinceId

/-- `{"id": ..., "payload": ...}`. -/
def messageItem (r : Nat × Message) : Dict := [(lit "id", .int r.1), (lit "payload", .obj r.2.payload)]

/-- The served columns of a tombstone. -/
def deletionItem (r : Nat × DeletionRequest) : Dict :=
  [(lit "id", .int r.1), (lit "target_signature", .str r.2.targetSignature),
    (lit "requester_pubkey", .str r.2.requesterPubkey), (lit "requester_recipient_id", .str r.2.requesterRecipientId),
    (lit "requested_at", .str r.2.requestedAt)]

/-- `{"<name>": [...], "count": n}`, as `_send_json` prints it. -/
def pageBody (name : Str) (items : List Dict) : Str :=
  dumpsDefault (.obj [(name, .arr (items.map .obj)), (lit "count", .int items.length)])

/-- The body of `GET /gossip/messages?since_id=...`. -/
def messagesBody (db : Db) (sinceId : Nat) : Str := pageBody (lit "messages") ((messageRows db sinceId).map messageItem)

/-- The body of `GET /gossip/deletions?since_id=...`. -/
def deletionsBody (db : Db) (sinceId : Nat) : Str :=
  pageBody (lit "deletions") ((deletionRows db sinceId).map deletionItem)

/-- What a puller makes of a served tombstone: the row itself, under its own target. -/
theorem pulledTombstone_deletionItem {env : Env} {now : Datetime} {id : Nat} {r : DeletionRequest}
    (hk : encodable r.requesterPubkey = true) (hr : encodable r.requesterRecipientId = true)
    (ha : encodable r.requestedAt = true) (hne : r.requestedAt ≠ []) (hc : r.confirmed = true) :
    pulledTombstone env now (deletionItem (id, r)) r.targetSignature = .ok r := by
  obtain ⟨t, k, rid, c, a⟩ := r
  obtain rfl : c = true := hc
  have h1 : (deletionItem (id, ⟨t, k, rid, true, a⟩)).get (lit "requester_pubkey") = some (.str k) := rfl
  have h2 : (deletionItem (id, ⟨t, k, rid, true, a⟩)).get (lit "requester_recipient_id") = some (.str rid) := rfl
  have h3 : (deletionItem (id, ⟨t, k, rid, true, a⟩)).get (lit "requested_at") = some (.str a) := rfl
  have htrue : (Json.str a).truthy = true := by simpa [truthy] using hne
  simp only [pulledTombstone, h1, h2, Option.getD_some, getOr, h3, htrue, if_true]
  exact bindTombstone_str hk hr ha

/-! ## The size of a page -/

/-- The bytes of an item of `/gossip/messages`. -/
def messageBytes (r : Nat × Message) : Nat :=
  (encode (natText r.1)).length + (encode (dumpsDefault (.obj r.2.payload))).length + 21

/-- The bytes of an item of `/gossip/deletions`. -/
def deletionBytes (r : Nat × DeletionRequest) : Nat :=
  (encode (natText r.1)).length + (encode (quote r.2.targetSignature)).length +
    (encode (quote r.2.requesterPubkey)).length + (encode (quote r.2.requesterRecipientId)).length +
    (encode (quote r.2.requestedAt)).length + 98

/-- The bytes of a body whose items have these sizes. -/
def pageBytes (name : Str) (items : List Nat) : Nat :=
  (encode (quote name)).length + items.sum + 2 * (items.length - 1) + (encode (natText items.length)).length + 17

theorem length_messageItem (r : Nat × Message) :
    (encode (dumpsDefault (.obj (messageItem r)))).length = messageBytes r := by
  have h1 : (encode (quote (lit "id"))).length = 4 := by decide
  have h2 : (encode (quote (lit "payload"))).length = 9 := by decide
  have h3 : (encode (lit ": ")).length = 2 ∧ (encode (lit ", ")).length = 2 ∧ (encode (lit "\x7b")).length = 1 ∧
    (encode (lit "\x7d")).length = 1 := by decide
  simp only [dumpsDefault, dumps, dumpsItems, messageItem, join, encode_append, List.length_append, intText,
    messageBytes, h1, h2, h3]
  omega

theorem length_deletionItem (r : Nat × DeletionRequest) :
    (encode (dumpsDefault (.obj (deletionItem r)))).length = deletionBytes r := by
  have h1 : (encode (quote (lit "id"))).length = 4 ∧ (encode (quote (lit "target_signature"))).length = 18 ∧
    (encode (quote (lit "requester_pubkey"))).length = 18 ∧
    (encode (quote (lit "requester_recipient_id"))).length = 24 ∧
    (encode (quote (lit "requested_at"))).length = 14 := by decide
  have h2 : (encode (lit ": ")).length = 2 ∧ (encode (lit ", ")).length = 2 ∧ (encode (lit "\x7b")).length = 1 ∧
    (encode (lit "\x7d")).length = 1 := by decide
  simp only [dumpsDefault, dumps, dumpsItems, deletionItem, join, encode_append, List.length_append, intText,
    deletionBytes, h1, h2]
  omega

theorem length_pageBody (name : Str) (items : List Dict) : (encode (pageBody name items)).length =
    pageBytes name (items.map fun d => (encode (dumpsDefault (.obj d))).length) := by
  have h1 : (encode (quote (lit "count"))).length = 7 := by decide
  have h2 : (encode (lit ": ")).length = 2 ∧ (encode (lit ", ")).length = 2 ∧ (encode (lit "\x7b")).length = 1 ∧
    (encode (lit "\x7d")).length = 1 ∧ (encode (lit "[")).length = 1 ∧ (encode (lit "]")).length = 1 := by decide
  have hitems : (encode (join (lit ", ") (dumpsAll (lit ", ") (lit ": ") (items.map .obj)))).length =
      (items.map fun d => (encode (dumpsDefault (.obj d))).length).sum + (items.length - 1) * 2 := by
    rw [length_encode_join, dumpsAll_eq_map, List.map_map, List.map_map, List.length_map, List.length_map, h2.2.1]
    rfl
  have hcount : intText (items.length : Int) = natText items.length := rfl
  unfold pageBody
  rw [dumpsDefault]
  simp only [dumps, dumpsItems, join, encode_append, List.length_append, hitems, hcount, pageBytes, List.length_map, h1, h2]
  omega

theorem length_messagesBody (db : Db) (sinceId : Nat) : (encode (messagesBody db sinceId)).length =
    pageBytes (lit "messages") ((messageRows db sinceId).map messageBytes) := by
  rw [messagesBody, length_pageBody, List.map_map]
  simp only [Function.comp_def, length_messageItem]

theorem length_deletionsBody (db : Db) (sinceId : Nat) : (encode (deletionsBody db sinceId)).length =
    pageBytes (lit "deletions") ((deletionRows db sinceId).map deletionBytes) := by
  rw [deletionsBody, length_pageBody, List.map_map]
  simp only [Function.comp_def, length_deletionItem]

end AetherNode.Gossip
