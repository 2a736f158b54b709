import AetherNode.Delivery
/-!
# What the client is told of a deletion

`cmd_delete`, and `cmd_fetch` with `--delete-after-read`, post a signed request
and print what the relay answers. What they print is true of the tables of the
relay when the answer is made (`deletion_told`), and a message that is printed
as deleted does not come back before its tombstone is reaped
(`message_erased`).
-/
open AetherNode.Lib AetherNode.Lib.Json AetherNode.Lib.JsonText AetherNode.Lib.JsonScan AetherNode.Lib.Reread
  AetherNode.Protocol AetherNode.RateLimit AetherNode.Deletable AetherNode.Server AetherNode.Hops AetherNode.Served AetherNode.Node AetherNode.Answers
  AetherNode.Client AetherNode.Delivery

namespace AetherNode.Erasure

/-! ## The client -/

/-- `_http_post`, on what the relay sends before it closes the connection; `none` is an exception: a `ConnectionError`
without a response or for an error of HTTP, or what `json.loads` raises. -/
def httpPost (decoder : Decoder) (ended : Ended) : Option Json :=
  match ended.responses with
  | [] => none
  | response :: _ =>
    if 200 ≤ response.code ∧ response.code < 300 then (loads decoder (encode (dumpsDefault response.body))).toOption else none

/-- What is printed of a deletion; `failed` is also where the client ends in a traceback. -/
inductive Told where
  | done
  | pending
  | unexpected
  | failed
  deriving DecidableEq

/-- `cmd_delete`, from the result of `_http_post` on. -/
def cmdDelete : Option Json → Told
  | some (.obj result) =>
    match Dict.get result (lit "status") with
    | some (.str status) =>
      if status = lit "deleted" then .done else if status = lit "delete_requested" then .pending else .unexpected
    | _ => .unexpected
  | _ => .failed

/-- The line of `cmd_fetch` with `--delete-after-read`: deleted, not yet confirmed, or failed. -/
def deleteAfterRead : Option Json → Told
  | some (.obj result) =>
    match Dict.get result (lit "status") with
    | some (.str status) => if status = lit "deleted" then .done else .pending
    | _ => .pending
  | _ => .failed

section
variable {platform : Platform} {key : PrivateKey} {target : Str}

theorem texts_of_fields (fields : List (Str × Str)) (hkeys : (fields.map Prod.fst).Nodup)
    (htexts : ∀ f ∈ fields, IsText f.1 ∧ IsText f.2) : Texts (fields.map fun f => (f.1, .str f.2)) where
  keys := by
    rw [List.map_map]
    exact hkeys
  fields := List.forall_mem_map.2 fun f hf => ⟨(htexts f hf).1, f.2, rfl, (htexts f hf).2⟩

theorem isText_of_all {s : Str} (h : s.all (· < 128) = true) : IsText s :=
  .of_ascii fun c hc => by simpa using List.all_eq_true.1 h c hc

theorem texts_delete (htarget : IsText target) (timestamp : Datetime) (salt : Bytes) :
    Texts (buildDeletePayload key target timestamp salt) := by
  refine texts_of_fields [(lit "version", lit "1"), (lit "action", lit "delete"), (lit "target_signature", target),
    (lit "recipient_pubkey", pubkeyToB64 key), (lit "timestamp", timestamp.isoformat),
    (lit "signature", signPayload (unsignedDelete key target timestamp) key salt)] (by simp [lit]) ?_
  simp only [List.forall_mem_cons, List.not_mem_nil, false_implies, implies_true, and_true]
  exact ⟨⟨isText_of_all (by decide), isText_of_all (by decide)⟩, ⟨isText_of_all (by decide), isText_of_all (by decide)⟩,
    ⟨isText_of_all (by decide), htarget⟩, ⟨isText_of_all (by decide), isText_b64encode _⟩,
    ⟨isText_of_all (by decide), isText_isoformat timestamp⟩, isText_of_all (by decide), isText_b64encode _⟩

theorem texts_deleteResponse (reply : DeleteReply) : ∃ p, RelayHandler.deleteResponse reply = .obj p ∧ Texts p ∧
    Dict.get p (lit "status") = some (.str (match reply with
      | .deleted => lit "deleted"
      | .deleteRequested => lit "delete_requested")) := by
  have htext : IsText (lit "status") ∧ IsText (lit "deleted") ∧ IsText (lit "propagation") ∧ IsText (lit "async") ∧
      IsText (lit "delete_requested") := by
    refine ⟨?_, ?_, ?_, ?_, ?_⟩ <;> exact isText_of_all (by decide)
  cases reply with
  | deleted =>
    refine ⟨_, rfl, texts_of_fields [(lit "status", lit "deleted"), (lit "propagation", lit "async")]
      (by simp [lit]) ?_, rfl⟩
    simp [htext]
  | deleteRequested =>
    refine ⟨_, rfl, texts_of_fields [(lit "status", lit "delete_requested")] (by simp) ?_, rfl⟩
    simp [htext]

/-- The two commands agree on what is done. -/
theorem deleteAfterRead_done {result : Option Json} : deleteAfterRead result = .done ↔ cmdDelete result = .done := by
  unfold deleteAfterRead cmdDelete
  split
  · split
    · split <;> simp
      split <;> simp
    · simp
  · simp

/-- What is printed of how a delete ends. -/
theorem cmdDelete_deleteEnd (hreads : Reads platform) (o : DeleteOutcome) :
    cmdDelete (httpPost platform.decoder (deleteEnd platform o)) =
      match o with
      | .replied .deleted => .done
      | .replied .deleteRequested => .pending
      | _ => .failed := by
  have hnesting := Nat.zero_lt_of_lt hreads.nesting
  have hok : 200 ≤ 200 ∧ 200 < 300 := by omega
  cases o with
  | replied reply =>
    obtain ⟨p, hbody, htexts, hstatus⟩ := texts_deleteResponse reply
    have hnest : nest (RelayHandler.deleteResponse reply) ≤ 2 := by cases reply <;> exact Nat.le_succ 1
    rw [deleteEnd, sendJson_eq platform 200 hnest, hbody]
    simp only [httpPost, htexts.loads_eq hreads.ascii hnesting, if_pos hok, Except.toOption, cmdDelete, hstatus]
    cases reply <;> rfl
  | rateLimited | invalid error =>
    rw [deleteEnd, sendError_eq]
    rfl
  | raised e => rfl

end

section
variable {env : Env} {platform : Platform} {rsaPss : Bytes → Bytes → Str → Bool} {key : PrivateKey} {target : Str}
  {timestamp : Datetime} {salt : Bytes} {clock : Readings} {s : State}

/-- The request as `_http_post` prints it. -/
def body (key : PrivateKey) (target : Str) (timestamp : Datetime) (salt : Bytes) : Bytes :=
  encode (dumpsDefault (.obj (buildDeletePayload key target timestamp salt)))

/-- A key of at most 4096 bits: `_generate_keypair` makes keys of 2048. -/
structure AtMostRsa4096 (key : PrivateKey) : Prop where
  publicDer : key.publicDer.length ≤ 550
  sign : ∀ salt text, (key.sign salt text).length ≤ 512

/-- Then the request for a signature of a message is within the cap of a relay. -/
theorem body_fits (hsizes : AtMostRsa4096 key) (htarget : Unquoted target) (hlength : target.length ≤ maxSignatureLen) :
    (body key target timestamp salt).length ≤ maxBodyBytes := by
  have hfields : ∀ kv ∈ [(lit "version", lit "1"), (lit "action", lit "delete"), (lit "target_signature", target),
      (lit "recipient_pubkey", pubkeyToB64 key), (lit "timestamp", timestamp.isoformat),
      (lit "signature", signPayload (unsignedDelete key target timestamp) key salt)], Unquoted kv.1 ∧ Unquoted kv.2 := by
    simp only [List.forall_mem_cons, List.not_mem_nil, false_implies, implies_true, and_true]
    exact ⟨⟨unquoted_of_all rfl, unquoted_of_all rfl⟩, ⟨unquoted_of_all rfl, unquoted_of_all rfl⟩,
      ⟨unquoted_of_all rfl, htarget⟩, ⟨unquoted_of_all rfl, unquoted_b64encode key.publicDer_bytes⟩,
      ⟨unquoted_of_all rfl, unquoted_isoformat timestamp⟩, unquoted_of_all rfl, unquoted_b64encode (key.sign_bytes _ _)⟩
  have hnames : (lit "version").length = 7 ∧ (lit "action").length = 6 ∧ (lit "target_signature").length = 16 ∧
      (lit "recipient_pubkey").length = 16 ∧ (lit "timestamp").length = 9 ∧ (lit "signature").length = 9 ∧
      (lit "1").length = 1 ∧ (lit "delete").length = 6 := by
    decide
  have hcap : maxBodyBytes = 133086 ∧ maxSignatureLen = 512 := by decide
  have htime := length_isoformat_bounds timestamp
  have hkey := hsizes.publicDer
  have hsign := hsizes.sign salt (canonical (.obj (unsignedDelete key target timestamp)))
  have heq := length_object hfields
  simp only [List.map_cons, List.map_nil, List.sum_cons, List.sum_nil, List.length_cons, List.length_nil, hnames, pubkeyToB64,
    signPayload, length_b64encode] at heq
  show (encode (dumpsDefault (.obj (buildDeletePayload key target timestamp salt)))).length ≤ maxBodyBytes
  refine le_of_eq_of_le heq ?_
  rw [hcap.2] at hlength
  rw [hcap.1]
  omega

/-- The signature of a message is one that a delete request can name. -/
theorem posted_signature {ciphers : Ciphers} {privateKey : PrivateKey} {draws : Draws} {sentAt : Datetime}
    {recipientB64 message : Str} {ttlSeconds : Int} {p : Dict} (hsizes : Rsa2048 ciphers privateKey recipientB64)
    (hsend : cmdSend env.hmac ciphers privateKey draws salt sentAt recipientB64 message ttlSeconds = .posts p) :
    Unquoted (p.text (lit "signature")) ∧ 0 < (p.text (lit "signature")).length ∧
      (p.text (lit "signature")).length ≤ maxSignatureLen := by
  obtain ⟨der, enc, expiresAt, hposted⟩ := cmdSend_posts hsend
  have hsignature : ∃ text, p.text (lit "signature") = b64encode (privateKey.sign salt text) := by
    rw [hposted.eq]
    exact ⟨_, rfl⟩
  obtain ⟨text, hsignature⟩ := hsignature
  have hcap : maxSignatureLen = 512 := by decide
  rw [hsignature, length_b64encode, hsizes.sign, hcap]
  exact ⟨unquoted_b64encode (privateKey.sign_bytes _ _), by omega, by omega⟩

/-- `POST /delete` with it. -/
def postDelete (env : Env) (platform : Platform) (clock : Readings) (raw : Bytes) (s : State) : State × Ended :=
  doPost env platform clock .delete (some (Requests.lengthHeader raw)) raw s

/-- A request within the cap gets to the section, and is answered by what comes of it. -/
theorem postDelete_eq (env : Env) (hreads : Reads platform) (htarget : IsText target)
    (hfits : (body key target timestamp salt).length ≤ maxBodyBytes) (clock : Readings) (s : State) :
    ((postDelete env platform clock (body key target timestamp salt) s).1.db,
        (postDelete env platform clock (body key target timestamp salt) s).2) =
      Prod.map id (deleteEnd platform) (doDelete env clock.now (s.deleteGate clock (pubkeyToB64 key))
        (buildDeletePayload key target timestamp salt) s.db) := by
  have htexts : Texts (buildDeletePayload key target timestamp salt) := texts_delete htarget timestamp salt
  have hloads := htexts.loads_eq hreads.ascii (Nat.zero_lt_of_lt hreads.nesting)
  have hprinted : postDelete env platform clock (body key target timestamp salt) s =
      RelayHandler.delete env platform clock (.obj (buildDeletePayload key target timestamp salt)) s :=
    doPost_printed rfl hloads hfits
  rw [hprinted]
  exact RelayHandler.delete_eq env platform clock _ s

theorem doDelete_replied {env : Env} {now : Datetime} {gate : Gate} {p : Dict} {db db' : Db} {reply : DeleteReply}
    (h : doDelete env now gate p db = (db', .replied reply)) :
    gate = .pass ∧ ValidDelete env p ∧ handleDeleteRequest env now p db = (db', .ok reply) := by
  unfold doDelete at h
  split at h
  · cases h
  rename_i hglobal
  split at h
  · cases h
  rename_i hvalid
  split at h
  · cases h
  rename_i hidentity
  refine ⟨by cases gate <;> simp_all, validateDeletePayload_none.1 hvalid, ?_⟩
  split at h <;> rename_i hreply <;> cases h
  exact hreply

/-- A request for a signature that is not stored leaves a row for it. -/
theorem requested_recorded {env : Env} {now : Datetime} {p : Dict} {db db' : Db}
    (h : handleDeleteRequest env now p db = (db', .ok .deleteRequested))
    (hnone : db.message (p.text (lit "target_signature")) = none) :
    (db'.request (p.text (lit "target_signature"))).isSome = true := by
  simp only [handleDeleteRequest, hnone] at h
  split at h
  · cases h
  split at h
  · cases h
  split at h
  · cases h
  cases h
  rw [Db.request_recordRequest]
  split
  · rfl
  · rename_i hrow
    simpa [Option.isSome_iff_ne_none] using hrow

/-- The key owns the message that is stored under the target. -/
def OwnsStored (env : Env) (now : Datetime) (key : PrivateKey) (target : Str) (db : Db) : Prop :=
  ∃ m, db.message target = some m ∧ Owns env now (pubkeyToB64 key) m.recipientId

/-- The deletion of an owner goes through. -/
theorem doDelete_owner {now : Datetime} {db : Db} {m : Message} (hv : env.verifier = rsaVerifier rsaPss)
    (hkey : key.Accepted rsaPss) (htarget : IsText target) (hlength : 0 < target.length ∧ target.length ≤ maxSignatureLen)
    (hm : db.message target = some m) (hown : Owns env now (pubkeyToB64 key) m.recipientId) :
    doDelete env now .pass (buildDeletePayload key target timestamp salt) db =
      (db.bury ⟨target, pubkeyToB64 key, m.recipientId, true, now.isoformat⟩, .replied .deleted) := by
  have hvalid := (build_accepted_iff key target timestamp salt hv hkey).2 hlength
  have hreply : handleDeleteRequest env now (buildDeletePayload key target timestamp salt) db =
      (db.bury ⟨target, pubkeyToB64 key, m.recipientId, true, now.isoformat⟩, .ok .deleted) :=
    handleDeleteRequest_owner htarget.1 hm hown
  simp only [doDelete, hvalid, hreply]
  rfl

/-- What is only requested has no owner there. -/
theorem not_owned_of_requested {now : Datetime} {gate : Gate} {db db' : Db} (hv : env.verifier = rsaVerifier rsaPss)
    (hkey : key.Accepted rsaPss) (htarget : IsText target)
    (hd : doDelete env now gate (buildDeletePayload key target timestamp salt) db = (db', .replied .deleteRequested)) :
    ¬ OwnsStored env now key target db := by
  rintro ⟨m, hm, hown⟩
  obtain ⟨rfl, hvalid, -⟩ := doDelete_replied hd
  have hlength := (build_accepted_iff key target timestamp salt hv hkey).1 (validateDeletePayload_none.2 hvalid)
  rw [doDelete_owner hv hkey htarget hlength hm hown] at hd
  cases hd

/-- What is told of a deletion holds of the relay before it and after it. -/
structure Truthful (env : Env) (clock : Readings) (key : PrivateKey) (target : Str) (s s' : State) (told : Told) : Prop where
  done_iff : told = .done ↔ s.deleteGate clock (pubkeyToB64 key) = .pass ∧
    (0 < target.length ∧ target.length ≤ maxSignatureLen) ∧ OwnsStored env clock.now key target s.db
  done : told = .done → s'.db.message target = none ∧ s'.db.confirmed target = true
  pending : told = .pending → ¬ OwnsStored env clock.now key target s.db ∧
    (∀ sig, s'.db.message sig = s.db.message sig) ∧
      (s.db.message target = none → (s'.db.request target).isSome = true)
  failed : told ≠ .done → told ≠ .pending → told = .failed ∧ s'.db = s.db

/-- In every state of the relay and for every key, a request is printed as done
exactly where it gets through and names a stored message of the key, which is then gone and its tombstone confirmed; as
pending only where the key has no such message, and no message is touched; and otherwise nothing has changed. -/
theorem deletion_told (hreads : Reads platform) (hv : env.verifier = rsaVerifier rsaPss) (hkey : key.Accepted rsaPss)
    (htarget : IsText target) (hfits : (body key target timestamp salt).length ≤ maxBodyBytes) (clock : Readings) (s : State) :
    Truthful env clock key target s (postDelete env platform clock (body key target timestamp salt) s).1
      (cmdDelete (httpPost platform.decoder (postDelete env platform clock (body key target timestamp salt) s).2)) := by
  obtain ⟨hdb, hend⟩ := Prod.ext_iff.1 (postDelete_eq env hreads htarget hfits clock s)
  dsimp only [Prod.map_fst, Prod.map_snd, id] at hdb hend
  rw [hend, cmdDelete_deleteEnd hreads]
  cases hd : doDelete env clock.now (s.deleteGate clock (pubkeyToB64 key)) (buildDeletePayload key target timestamp salt) s.db with
  | mk db' o =>
  rw [hd] at hdb
  dsimp only at hdb ⊢
  rcases doDelete_cases hd with ⟨rfl, ho⟩ | ⟨hgate, hvalid, m, hm, hown, rfl, rfl⟩ | ⟨hgate, hvalid, hm, rfl, rfl⟩
  · -- Nothing has changed, so it was not the owner of a stored message who got through.
    have hnot : ¬ (s.deleteGate clock (pubkeyToB64 key) = .pass ∧ (0 < target.length ∧ target.length ≤ maxSignatureLen) ∧
        OwnsStored env clock.now key target s.db) := by
      rintro ⟨hgate, hlength, m, hm, hown⟩
      rw [hgate, doDelete_owner hv hkey htarget hlength hm hown] at hd
      exact ho (Prod.mk.inj hd).2.symm
    cases o with
    | replied reply =>
      cases reply with
      | deleted => exact absurd rfl ho
      | deleteRequested =>
        refine ⟨iff_of_false (by simp) hnot, by simp, fun _ => ⟨not_owned_of_requested hv hkey htarget hd, ?_, fun hnone => ?_⟩,
          by simp⟩
        · exact fun _ => by rw [hdb]
        · rw [hdb]
          exact requested_recorded (doDelete_replied hd).2.2 hnone
    | rateLimited | invalid error | raised e => exact ⟨iff_of_false (by simp) hnot, by simp, by simp, fun _ _ => ⟨rfl, hdb⟩⟩
  · have hlength := (build_accepted_iff key target timestamp salt hv hkey).1 (validateDeletePayload_none.2 hvalid)
    refine ⟨iff_of_true rfl ⟨hgate, hlength, m, hm, hown⟩, fun _ => ⟨?_, ?_⟩, by simp, by simp⟩ <;> rw [hdb]
    · exact (Db.message_bury _ _ _).trans (if_pos rfl)
    · exact Db.confirmed_iff.2 ⟨_, (Db.request_bury _ _ _).trans (if_pos rfl), rfl⟩
  · have hnot := not_owned_of_requested hv hkey htarget hd
    refine ⟨iff_of_false (by simp) fun h => hnot h.2.2, by simp, fun _ => ⟨hnot, ?_, fun _ => ?_⟩, by simp⟩ <;> rw [hdb]
    · exact fun _ => rfl
    · exact requested_recorded (doDelete_replied hd).2.2 hm

theorem sample_large : AtMostRsa4096 sampleRecipient.toPrivateKey where
  publicDer := by decide
  sign _ _ := by simp [sampleRecipient]

theorem sampleSent_eq : cmdSend sampleEnv.hmac sampleCiphers sampleSender sampleDraws [] Sample.noon
    (b64encode sampleRecipient.publicDer) (lit "hello") 86400 = .posts sampleSent := sample_sent

/-- The sample recipient deletes the sample message. -/
theorem deletion_told_sample :
    Truthful sampleEnv noonReadings sampleRecipient.toPrivateKey (sampleSent.text (lit "signature")) samplePosted.server
      (postDelete sampleEnv .usual noonReadings
        (body sampleRecipient.toPrivateKey (sampleSent.text (lit "signature")) Sample.noon []) samplePosted.server).1
      (cmdDelete (httpPost Platform.usual.decoder (postDelete sampleEnv .usual noonReadings
        (body sampleRecipient.toPrivateKey (sampleSent.text (lit "signature")) Sample.noon []) samplePosted.server).2)) := by
  obtain ⟨htarget, hlength⟩ := posted_signature sample_sizes sampleSent_eq
  exact deletion_told reads_usual rfl (fun _ _ => rfl) htarget.isText (body_fits sample_large htarget hlength.2) noonReadings
    samplePosted.server

end

/-! ## A deleted message -/

/-- The message is gone, and the row is its confirmed tombstone. -/
structure Erased (row : DeletionRequest) (db : Db) : Prop where
  gone : db.message row.targetSignature = none
  tombstone : db.request row.targetSignature = some row
  confirmed : row.confirmed = true

section
variable {env : Env} {db db' : Db} {row : DeletionRequest}

theorem Erased.db_confirmed (h : Erased row db) : db.confirmed row.targetSignature = true :=
  Db.confirmed_iff.2 ⟨row, h.tombstone, h.confirmed⟩

/-- Another tombstone leaves it. -/
theorem Erased.bury_other (h : Erased row db) {r : DeletionRequest} (hne : row.targetSignature ≠ r.targetSignature) :
    Erased row (db.bury r) := by
  refine ⟨?_, ?_, h.confirmed⟩
  · rw [Db.message_bury, if_neg hne, h.gone]
  · rw [Db.request_bury, if_neg hne, h.tombstone]

/-- It stays so through every operation but a sweep that reaps the tombstone. -/
theorem erased_step (h : Erased row db) {e : AtomicEvent} {o : AtomicObs}
    (hkeeps : ∀ now cutoffNow cutoff, e = .sweep now cutoffNow → cutoffNow.addSeconds (-env.maxTtlSeconds) = some cutoff →
      ¬ row.requestedAt ≤ cutoff.isoformat) (hstep : atomicStep env db e = some (db', o)) : Erased row db' := by
  have hother : ∀ {t}, db.confirmed t = false → row.targetSignature ≠ t := by
    rintro t hfree rfl
    rw [h.db_confirmed] at hfree
    cases hfree
  have hpending : ∀ {t key}, Pending db t key → row.targetSignature ≠ t := by
    rintro t key ⟨r, hr, hunconfirmed, -⟩ rfl
    obtain rfl : row = r := Option.some.inj (h.tombstone.symm.trans hr)
    rw [h.confirmed] at hunconfirmed
    cases hunconfirmed
  cases atomic_effect hstep with
  | same => exact h
  | stores _ _ hfree hlook hreq =>
    refine ⟨?_, ?_, h.confirmed⟩
    · rw [hlook, if_neg (hother hfree), h.gone]
    · rw [hreq, if_neg (hother hfree), h.tombstone]
  | drops hp =>
    refine ⟨h.gone, ?_, h.confirmed⟩
    rw [Db.request_deleteRequest, if_neg (hpending hp), h.tombstone]
  | promotes _ hp => exact h.bury_other (hpending hp)
  | deletes _ hm =>
    refine h.bury_other ?_
    intro hsame
    have hgone := h.gone
    rw [hsame] at hgone
    exact absurd (hgone.symm.trans hm) (by simp)
  | records =>
    refine ⟨h.gone, ?_, h.confirmed⟩
    rw [Db.request_recordRequest, if_neg, h.tombstone]
    rintro ⟨-, hnone⟩
    rw [h.tombstone] at hnone
    cases hnone
  | adopts _ hfree hrow =>
    refine h.bury_other ?_
    rw [(bindTombstone_ok hrow).2.2.2.1]
    exact hother hfree
  | loses _ hfree =>
    refine ⟨?_, h.tombstone, h.confirmed⟩
    rw [Db.message_deleteMessage, if_neg (hother hfree), h.gone]
  | sweeps hcut hmessage hrequest =>
    refine ⟨?_, ?_, h.confirmed⟩
    · rw [hmessage, h.gone]
      rfl
    · rw [hrequest, h.tombstone, Option.filter_some, if_pos]
      simpa using hkeeps _ _ _ rfl hcut

end

/-- No sweep of the event reaps a tombstone of that time. -/
def Outlasts (env : Env) (interpreter : Interpreter) (requestedAt : Str) (_ : Process) (e : Node.Event) : Prop :=
  ∀ now cutoffNow cutoff, e.performs interpreter (.sweep now cutoffNow) →
    cutoffNow.addSeconds (-env.maxTtlSeconds) = some cutoff → ¬ requestedAt ≤ cutoff.isoformat

section
variable {env : Env} {interpreter : Interpreter} {n n' : Process} {row : DeletionRequest}

/-- No message is stored under a confirmed tombstone. -/
def Clean (db : Db) : Prop := ∀ sig, ¬ Finality.Both db sig

/-- In no state of a relay is there one, nor in its file. -/
theorem clean_node (hreads : Reads interpreter.toPlatform) {client push pull : Limits} {time : ℚ}
    {h : List (Node.Event × Node.Obs)} (hrun : NodeRun env interpreter client push pull time h n) :
    Clean n.server.db ∧ Clean n.committed := by
  have hempty : Clean .empty := by
    rintro sig ⟨⟨m, hm⟩, -⟩
    cases hm
  refine hrun.inv (fun n => Clean n.server.db ∧ Clean n.committed) ⟨hempty, hempty⟩ fun n e n' o hclean _ hstep => ?_
  refine event_inv hreads ?_ hclean hstep
  exact fun _ _ _ _ hclean _ _ hstep sig => Convergence.atomic_clean hstep (hclean sig)

/-- What is erased is erased in the file: a tombstone is committed, and then no message is stored under it. -/
theorem Erased.committed (hreads : Reads interpreter.toPlatform) {client push pull : Limits} {time : ℚ}
    {h : List (Node.Event × Node.Obs)} (hrun : NodeRun env interpreter client push pull time h n)
    (herased : Erased row n.server.db) : Erased row n.committed := by
  have hrequests := (node_behind hreads.stable hreads.decodes hrun).deletionRequests
  have htombstone : n.committed.request row.targetSignature = some row := by
    rw [Db.request, hrequests]
    exact herased.tombstone
  refine ⟨?_, htombstone, herased.confirmed⟩
  cases hm : n.committed.message row.targetSignature with
  | none => rfl
  | some m =>
    have hconfirmed : n.committed.confirmed row.targetSignature = true := Db.confirmed_iff.2 ⟨row, htombstone, herased.confirmed⟩
    exact absurd ⟨⟨m, hm⟩, hconfirmed⟩ ((clean_node hreads hrun).2 row.targetSignature)

theorem erased_event (hreads : Reads interpreter.toPlatform) (herased : Erased row n.server.db ∧ Erased row n.committed)
    {e : Node.Event} {o : Node.Obs} (houtlasts : Outlasts env interpreter row.requestedAt n e)
    (hstep : Node.step env interpreter n e = some (n', o)) : Erased row n'.server.db ∧ Erased row n'.committed := by
  refine event_inv hreads ?_ herased hstep
  intro db a db' o herased _ hperforms hstep
  refine erased_step herased ?_ hstep
  rintro now cutoffNow cutoff rfl
  exact houtlasts now cutoffNow cutoff hperforms

theorem erased_run (hreads : Reads interpreter.toPlatform) (herased : Erased row n.server.db ∧ Erased row n.committed)
    {h : List (Node.Event × Node.Obs)} (hrun : Run (Node.step env interpreter) (Outlasts env interpreter row.requestedAt) n h n') :
    Erased row n'.server.db ∧ Erased row n'.committed :=
  hrun.inv (fun n => Erased row n.server.db ∧ Erased row n.committed) herased fun _ _ _ _ herased houtlasts hstep =>
    erased_event hreads herased houtlasts hstep

end

/-! ## From `cmd_send` to `cmd_delete` -/

section
variable {env : Env} {interpreter : Interpreter} {client push pull : Limits} {time : ℚ}
  {h₀ h h' : List (Node.Event × Node.Obs)} {n n₁ n₂ n₃ n₄ : Process}
  {rsaPss : Bytes → Bytes → Str → Bool} {ciphers : Ciphers} {privateKey : PrivateKey} {recipient : Identity} {draws : Draws}
  {salt salt' : Bytes} {sentAt deletedAt expiresAt : Datetime} {recipientB64 message : Str} {ttlSeconds : Int} {p : Dict}
  {clock clock' : Readings} {ids : List Str}

/-- The recipient of an unexpired message owns it. -/
theorem posted_owned (hrecipient : b64decode recipientB64 = some recipient.publicDer)
    (hsend : cmdSend env.hmac ciphers privateKey draws salt sentAt recipientB64 message ttlSeconds = .posts p)
    (httl : ttlSeconds ≤ env.maxTtlSeconds) {now : Datetime} (hlater : sentAt ≤ now)
    (hlive : ∀ e, sentAt.addSeconds ttlSeconds = some e → now < e)
    (hids : candidateRecipientIds env.hmac now env.maxTtlSeconds recipient.publicDer = some ids) :
    Owns env now (pubkeyToB64 recipient.toPrivateKey) (p.text (lit "recipient_id")) := by
  obtain ⟨der, enc, expiresAt, hposted⟩ := cmdSend_posts hsend
  obtain rfl : der = recipient.publicDer := Option.some.inj (hposted.decodes.symm.trans hrecipient)
  have hmicros := Datetime.addSeconds_toMicros hposted.expires
  have hsent : Inbox.SentTo env recipient.publicDer sentAt expiresAt (p.text (lit "recipient_id")) (p.text (lit "expires_at")) := by
    rw [hposted.eq]
    exact ⟨rfl, rfl, by omega⟩
  refine ⟨recipient.publicDer, ids, b64decode_b64encode recipient.publicDer_bytes, hids, ?_⟩
  exact hsent.mem_candidates hlater (hlive expiresAt hposted.expires) hids

/-- A delete request as a client posts it. -/
def deletes (key : PrivateKey) (target : Str) (deletedAt : Datetime) (salt : Bytes) (clock : Readings) : Node.Event :=
  posting .delete (.obj (buildDeletePayload key target deletedAt salt)) clock

theorem deletes_eq {key : PrivateKey} {target : Str} {ended : Ended}
    (h : Node.step env interpreter n (deletes key target deletedAt salt clock) = some (n', .post ended)) :
    n'.server = (postDelete env interpreter.toPlatform clock (body key target deletedAt salt) n.server).1 ∧
      ended = (postDelete env interpreter.toPlatform clock (body key target deletedAt salt) n.server).2 := by
  have hhandle := (step_eq h).2
  rw [deletes, handle_posting] at hhandle
  obtain ⟨rfl, hobs⟩ := Prod.mk.inj hhandle
  exact ⟨rfl, (Node.Obs.post.inj hobs).symm⟩

/-- A message that a relay has answered with a row id is gone as soon as its recipient deletes it, whatever the relay was
sent in the meantime, and the client says so. It does not come back as long as no sweep reaps its tombstone: whatever the
relay is sent, no fetch finds it. -/
theorem message_erased (hreads : Reads interpreter.toPlatform) (hv : env.verifier = rsaVerifier rsaPss)
    (hhex : Inbox.HexDigests env.hmac) (hsizes : Rsa2048 ciphers privateKey recipientB64)
    (hrecipient : b64decode recipientB64 = some recipient.publicDer)
    (hkey : recipient.Accepted rsaPss) (hlarge : AtMostRsa4096 recipient.toPrivateKey)
    (hsend : cmdSend env.hmac ciphers privateKey draws salt sentAt recipientB64 message ttlSeconds = .posts p)
    (httl : ttlSeconds ≤ env.maxTtlSeconds) (hrun : NodeRun env interpreter client push pull time h₀ n) {rowId : Nat}
    (hpost : Node.step env interpreter n (posting .publish (.obj p) clock) = some (n₁, .post ⟨[⟨200, storedBody rowId⟩], none⟩))
    (hkeeps : Run (Node.step env interpreter)
      (Keeps env interpreter (p.text (lit "signature")) (p.text (lit "recipient_id")) (p.text (lit "expires_at"))) n₁ h n₂)
    {ended : Ended} (hdelete : Node.step env interpreter n₂
      (deletes recipient.toPrivateKey (p.text (lit "signature")) deletedAt salt' clock') = some (n₃, .post ended))
    (hgate : n₂.server.deleteGate clock' (pubkeyToB64 recipient.toPrivateKey) = .pass) (hlater : sentAt ≤ clock'.now)
    (hlive : ∀ e, sentAt.addSeconds ttlSeconds = some e → clock'.now < e)
    (hids : candidateRecipientIds env.hmac clock'.now env.maxTtlSeconds recipient.publicDer = some ids)
    (houtlasts : Run (Node.step env interpreter) (Outlasts env interpreter clock'.now.isoformat) n₃ h' n₄) :
    cmdDelete (httpPost interpreter.decoder ended) = .done ∧ deleteAfterRead (httpPost interpreter.decoder ended) = .done ∧
      Erased ⟨p.text (lit "signature"), pubkeyToB64 recipient.toPrivateKey, p.text (lit "recipient_id"), true,
        clock'.now.isoformat⟩ n₄.server.db ∧
      ∀ ids now, ∀ m ∈ Expiry.fetchRows ids now n₄.server.db, m.signature ≠ p.text (lit "signature") := by
  obtain ⟨htarget, hlength⟩ := posted_signature hsizes hsend
  -- It is stored under the recipient's id when the request arrives.
  have hstays := (stays_run hreads (send_stored hreads hhex hsizes hsend hrun hpost) hkeeps).1
  have howns := posted_owned hrecipient hsend httl hlater hlive hids
  have hpassed : doDelete env clock'.now .pass (buildDeletePayload recipient.toPrivateKey (p.text (lit "signature")) deletedAt salt')
      n₂.server.db = _ := doDelete_owner hv hkey htarget.isText hlength hstays howns
  obtain ⟨hserver, rfl⟩ := deletes_eq hdelete
  have hfits : (body recipient.toPrivateKey (p.text (lit "signature")) deletedAt salt').length ≤ maxBodyBytes :=
    body_fits hlarge htarget hlength.2
  have hanswer := postDelete_eq env hreads htarget.isText hfits clock' n₂.server
  rw [hgate, hpassed] at hanswer
  obtain ⟨hdb, hend⟩ := Prod.mk.inj hanswer
  have hdone : cmdDelete (httpPost interpreter.decoder (postDelete env interpreter.toPlatform clock'
      (body recipient.toPrivateKey (p.text (lit "signature")) deletedAt salt') n₂.server).2) = .done := by
    rw [hend]
    exact cmdDelete_deleteEnd hreads _
  -- Then it is gone, and stays so.
  have hgone : Erased ⟨p.text (lit "signature"), pubkeyToB64 recipient.toPrivateKey, p.text (lit "recipient_id"), true,
      clock'.now.isoformat⟩ n₃.server.db := by
    rw [hserver, hdb]
    refine ⟨?_, ?_, rfl⟩
    · exact (Db.message_bury _ _ _).trans (if_pos rfl)
    · exact (Db.request_bury _ _ _).trans (if_pos rfl)
  have hrun₃ : NodeRun env interpreter client push pull time _ n₃ :=
    ((hrun.snoc trivial hpost).trans hkeeps.any).snoc trivial hdelete
  have hlast := (erased_run hreads ⟨hgone, hgone.committed hreads hrun₃⟩ houtlasts).1
  refine ⟨hdone, deleteAfterRead_done.2 hdone, hlast, fun ids now m hm hsame => ?_⟩
  have hlook := message_of_fetchRows hm
  rw [hsame] at hlook
  exact absurd (hlast.gone.symm.trans hlook) (by simp)

def sampleDeletes : Node.Event :=
  deletes sampleRecipient.toPrivateKey (sampleSent.text (lit "signature")) Sample.noon [] noonReadings

theorem samplePosted_server : samplePosted.clock = noonReadings.checkGlobal ∧ samplePosted.server =
    (RelayHandler.publishObject sampleEnv .usual noonReadings sampleSent sampleStart.server).1 := by
  rw [samplePosted, samplePosting, handle_posting, samplePosted_post]
  generalize RelayHandler.publishObject sampleEnv .usual noonReadings sampleSent sampleStart.server = r
  exact ⟨rfl, rfl⟩

theorem samplePosted_gate : samplePosted.server.deleteGate noonReadings (pubkeyToB64 sampleRecipient.toPrivateKey) = .pass := by
  rw [samplePosted_server.2]
  decide +kernel

/-- What the relay answers to it. -/
def sampleDeleted : Ended :=
  (postDelete sampleEnv .usual noonReadings
    (body sampleRecipient.toPrivateKey (sampleSent.text (lit "signature")) Sample.noon []) samplePosted.server).2

/-- The sample message is deleted at once. -/
theorem message_erased_sample :
    cmdDelete (httpPost Platform.usual.decoder sampleDeleted) = .done ∧
      deleteAfterRead (httpPost Platform.usual.decoder sampleDeleted) = .done ∧
      Erased ⟨sampleSent.text (lit "signature"), pubkeyToB64 sampleRecipient.toPrivateKey, sampleSent.text (lit "recipient_id"),
        true, noonReadings.now.isoformat⟩ (handle sampleEnv usualInterpreter samplePosted sampleDeletes).1.server.db ∧
      ∀ ids now, ∀ m ∈ Expiry.fetchRows ids now (handle sampleEnv usualInterpreter samplePosted sampleDeletes).1.server.db,
        m.signature ≠ sampleSent.text (lit "signature") := by
  have hv : sampleEnv.verifier = rsaVerifier fun _ _ _ => true := rfl
  have hstart : NodeRun sampleEnv usualInterpreter burst burst burst 0 [] sampleStart := .nil
  have hallowed : sampleDeletes.restarts = true ∨ samplePosted.clock ≤ sampleDeletes.time := .inr (le_of_eq samplePosted_server.1)
  have hdelete : Node.step sampleEnv usualInterpreter samplePosted sampleDeletes =
      some ((handle sampleEnv usualInterpreter samplePosted sampleDeletes).1, .post sampleDeleted) := by
    rw [step_of hallowed, sampleDeletes, deletes, handle_posting, sampleDeleted]
    rfl
  exact message_erased reads_usual hv hexDigests_sampleHmac sample_sizes (b64decode_b64encode sampleRecipient.publicDer_bytes)
    (fun _ _ => rfl) sample_large sampleSent_eq (by decide) hstart samplePosted_eq.2 .nil hdelete samplePosted_gate le_rfl sample_live
    sampleIds_eq .nil

end

end AetherNode.Erasure
