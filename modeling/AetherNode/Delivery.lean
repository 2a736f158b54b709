import AetherNode.Client
/-!
# From `cmd_send` to `cmd_fetch`

A relay that has answered a publish with a row id keeps the message until its
expiry, whatever it is sent, as long as nobody takes it away: `Takes` says who
can. A fetch of the recipient's candidate ids is answered in the meantime, and
the client shows the text that was sent.
-/
open AetherNode.Lib AetherNode.Lib.Json AetherNode.Lib.JsonText AetherNode.Lib.JsonScan AetherNode.Lib.Reread
  AetherNode.Protocol AetherNode.RateLimit AetherNode.Deletable AetherNode.Server AetherNode.Hops AetherNode.Served AetherNode.Node AetherNode.Answers
  AetherNode.Client

namespace AetherNode.Delivery

/-! ## A stored message stays -/

/-- The operation can take a stored message away: its owner's delete request, a pulled tombstone of it, or a sweep after
its expiry. -/
def Takes (env : Env) (sig recipientId expiresAt : Str) : AtomicEvent → Prop
  | .ingest _ _ _ _ _ => False
  | .delete p now _ => ValidDelete env p ∧ p.text (lit "target_signature") = sig ∧ Owns env now (p.text (lit "recipient_pubkey")) recipientId
  | .pullDeletion item _ _ => item.get (lit "target_signature") = some (.str sig)
  | .sweep now _ => expiresAt ≤ now.isoformat

section
variable {env : Env} {db db' : Db} {sig : Str} {m : Message}

/-- A payload of a stored message is a duplicate. -/
theorem ingest_stored (hm : db.message sig = some m) {p : Dict} (hp : p.get (lit "signature") = some (.str sig)) (path : Path)
    (now : Datetime) (gate identityGate : Bool) : (ingest env path now gate identityGate p db).1 = db := by
  unfold ingest
  simp only [alreadyStored, hp, messageExists, hm]
  cases encodable sig <;> rfl

/-- No other operation takes it away. -/
theorem stays_step (hm : db.message sig = some m) {e : AtomicEvent} {o : AtomicObs} (he : ¬ Takes env sig m.recipientId m.expiresAt e)
    (hstep : atomicStep env db e = some (db', o)) : db'.message sig = some m := by
  cases atomic_effect hstep with
  | same => exact hm
  | stores _ hnone _ hlook =>
    rw [hlook, if_neg, hm]
    rintro rfl
    rw [hnone] at hm
    cases hm
  | drops => exact hm
  | @promotes path p now gate identityGate key hv =>
    simp only [atomicStep, Option.some.injEq, Prod.mk.injEq] at hstep
    by_cases hsig : p.text (lit "signature") = sig
    · obtain ⟨s, -, hs, -⟩ := env.verifier.signature_decodes p _ hv.verified
      rw [Dict.text_eq hs] at hsig
      rw [← hstep.1, ingest_stored hm (hsig ▸ hs), hm]
    · rw [Db.message_bury, if_neg (Ne.symm hsig), hm]
  | @deletes p now gate m' hv hm' hown =>
    rw [Db.message_bury, if_neg, hm]
    rintro rfl
    obtain rfl : m' = m := Option.some.inj (hm'.symm.trans hm)
    exact he ⟨hv, rfl, hown⟩
  | records => exact hm
  | adopts ht _ hrow =>
    obtain ⟨-, -, -, htarget, -⟩ := bindTombstone_ok hrow
    rw [Db.message_bury, htarget, if_neg, hm]
    rintro rfl
    exact he ht
  | loses ht =>
    rw [Db.message_deleteMessage, if_neg, hm]
    rintro rfl
    exact he ht
  | sweeps _ hmessage =>
    rw [hmessage, hm, Option.filter_some, if_pos]
    simpa [Takes] using he

end

section
variable {env : Env} {interpreter : Interpreter} {n n' : Process} {sig : Str} {m : Message}

/-- The event takes no message with this signature, recipient id and expiry away. -/
def Keeps (env : Env) (interpreter : Interpreter) (sig recipientId expiresAt : Str) (_ : Process) (e : Node.Event) : Prop :=
  ∀ a, e.performs interpreter a → ¬ Takes env sig recipientId expiresAt a

/-- The message is in the tables and in the file. -/
def Holds (sig : Str) (m : Message) (n : Process) : Prop :=
  n.server.db.message sig = some m ∧ n.committed.message sig = some m

theorem stays_event (hreads : Reads interpreter.toPlatform) (hm : Holds sig m n) {e : Node.Event} {o : Node.Obs}
    (hkeeps : Keeps env interpreter sig m.recipientId m.expiresAt n e) (hstep : Node.step env interpreter n e = some (n', o)) :
    Holds sig m n' :=
  event_inv hreads (fun _ a _ _ hstays _ hperforms hstep => stays_step hstays (hkeeps a hperforms) hstep) hm hstep

/-- Over a run of such events it stays. -/
theorem stays_run (hreads : Reads interpreter.toPlatform) (hm : Holds sig m n) {h : List (Node.Event × Node.Obs)}
    (hrun : Run (Node.step env interpreter) (Keeps env interpreter sig m.recipientId m.expiresAt) n h n') : Holds sig m n' :=
  hrun.inv (Holds sig m) hm fun _ _ _ _ hm hkeeps hstep => stays_event hreads hm hkeeps hstep

end

/-! ## A publish that is answered with a row id -/

/-- The response of `/publish` with the row id of the message. -/
def storedBody (id : Nat) : Json := .obj [(lit "status", .str (lit "ok")), (lit "id", .int id)]

section
variable {env : Env} {platform : Platform} {clock : Readings} {s : State} {p : Dict}

theorem stored_of_reply {o : Outcome} {id : Nat} (h : RelayHandler.reply platform o = ⟨[⟨200, storedBody id⟩], none⟩) :
    ∃ id, o = .stored id := by
  cases o with
  | stored id => exact ⟨id, rfl⟩
  | raised e => cases h
  | discarded =>
    rw [RelayHandler.reply, sendJson_eq] at h
    · simp [storedBody, lit] at h
    · exact Nat.le_succ 1
  | duplicate | rateLimited | quotaExceeded | invalid error =>
    rw [RelayHandler.reply, sendError_eq] at h
    simp at h

/-- Then the payload is stored. -/
theorem publish_stored {rowId : Nat}
    (h : (RelayHandler.publishObject env platform clock p s).2 = ⟨[⟨200, storedBody rowId⟩], none⟩) :
    (RelayHandler.publishObject env platform clock p s).1.db.message (p.text (lit "signature")) =
      some (messageOf p (p.text (lit "recipient_id")) clock.now) := by
  obtain ⟨hdb, hreply⟩ := Prod.ext_iff.1 (RelayHandler.publishObject_eq env platform clock p s)
  dsimp only [Prod.map_fst, Prod.map_snd, id] at hdb hreply
  obtain ⟨_, hstored⟩ := stored_of_reply (hreply.symm.trans h)
  have heffect := ingest_effect env .publish clock.now (s.globalGate clock) (s.identityGate clock (p.text (lit "sender_pubkey"))) p s.db
  rw [hdb]
  generalize ingest env .publish clock.now (s.globalGate clock) (s.identityGate clock (p.text (lit "sender_pubkey"))) p s.db = r
    at hstored heffect
  obtain ⟨db, o⟩ := r
  dsimp only at hstored heffect ⊢
  subst hstored
  cases heffect with
  | same hno => exact absurd rfl (hno _)
  | stores _ _ _ _ hlook => exact (hlook _).trans (if_pos rfl)
  | drops _ _ hno => exact absurd rfl (hno _)

end

/-! ## A fetch of the candidate ids -/

section
variable {env : Env} {platform : Platform} {clock : Readings} {s : State} {key : Bytes} {ids : List Str}

end

/-! ## What is shown -/

section
variable {env : Env} {platform : Platform} {s : State} {m : Message} {rsaPss : Bytes → Bytes → Str → Bool} {ciphers : Ciphers}
  {identity : Identity}

/-- What a fetch finds is stored under its signature. -/
theorem message_of_fetchRows {db : Db} {ids : List Str} {now : Datetime} (hm : m ∈ Expiry.fetchRows ids now db) :
    db.message m.signature = some m := by
  obtain ⟨r, hr, rfl⟩ := List.mem_map.1 (List.mem_filter.1 hm).1
  exact Table.lookup_of_mem hr

end

/-! ## From the one client to the other -/

section
variable {env : Env} {interpreter : Interpreter} {client push pull : Limits} {time : ℚ} {h h' : List (Node.Event × Node.Obs)}
  {n n₁ n₂ : Process} {rsaPss : Bytes → Bytes → Str → Bool} {ciphers : Ciphers} {privateKey : PrivateKey} {recipient : Identity}
  {draws : Draws} {salt : Bytes} {sentAt fetchedAt : Datetime} {recipientB64 message : Str} {ttlSeconds : Int} {p : Dict}
  {clock : Readings} {ids : List Str}

/-- A body that is printed and posted. -/
def posting (h : Handler) (body : Json) (clock : Readings) : Node.Event :=
  .post h (some (Requests.lengthHeader (encode (dumpsDefault body)))) (encode (dumpsDefault body)) clock

theorem handle_posting (env : Env) (interpreter : Interpreter) (n : Process) (h : Handler) (body : Json) (clock : Readings) :
    handle env interpreter n (posting h body clock) =
      let r := doPost env interpreter.toPlatform clock h (some (Requests.lengthHeader (encode (dumpsDefault body))))
        (encode (dumpsDefault body)) n.server
      (Process.settle { n with server := r.1, clock := clock.checkGlobal }
        (postCommits env interpreter.toPlatform clock h (some (Requests.lengthHeader (encode (dumpsDefault body))))
          (encode (dumpsDefault body)) n.server), .post r.2) := rfl

/-- What `cmd_send` has posted is stored once the relay has answered with a row id. -/
theorem send_stored (hreads : Reads interpreter.toPlatform) (hhex : Inbox.HexDigests env.hmac)
    (hsizes : Rsa2048 ciphers privateKey recipientB64)
    (hsend : cmdSend env.hmac ciphers privateKey draws salt sentAt recipientB64 message ttlSeconds = .posts p)
    (hrun : NodeRun env interpreter client push pull time h n) {rowId : Nat}
    (hpost : Node.step env interpreter n (posting .publish (.obj p) clock) = some (n₁, .post ⟨[⟨200, storedBody rowId⟩], none⟩)) :
    Holds (p.text (lit "signature")) (messageOf p (p.text (lit "recipient_id")) clock.now) n₁ := by
  obtain ⟨der, enc, expiresAt, hposted⟩ := cmdSend_posts hsend
  have hloads := (hposted.texts hhex).loads_eq hreads.ascii (Nat.zero_lt_of_lt hreads.nesting)
  have hfits := hposted.fits hhex hsizes
  have hprinted : doPost env interpreter.toPlatform clock .publish (some (Requests.lengthHeader (encode (dumpsDefault (.obj p)))))
      (encode (dumpsDefault (.obj p))) n.server = RelayHandler.publishObject env interpreter.toPlatform clock p n.server :=
    doPost_printed rfl hloads hfits
  have hhandle := (step_eq hpost).2
  rw [handle_posting, hprinted] at hhandle
  obtain ⟨hn₁, hobs⟩ := Prod.mk.inj hhandle
  have hstored : n₁.server.db.message (p.text (lit "signature")) =
      some (messageOf p (p.text (lit "recipient_id")) clock.now) := by
    rw [← hn₁]
    exact publish_stored (Node.Obs.post.inj hobs)
  exact ⟨hstored, (node_behind hreads.stable hreads.decodes (hrun.snoc trivial hpost)).message _ _ hstored⟩

def samplePosting : Node.Event := posting .publish (.obj sampleSent) noonReadings

def samplePosted : Process := (handle sampleEnv usualInterpreter sampleStart samplePosting).1

/-- The sample message is stored in empty tables. -/
def sampleIngest : Db × Outcome :=
  ingest sampleEnv .publish noonReadings.now (sampleStart.server.globalGate noonReadings)
    (sampleStart.server.identityGate noonReadings (sampleSent.text (lit "sender_pubkey"))) sampleSent sampleStart.server.db

theorem sampleIngest_eq : sampleIngest.2 = .stored 1 ∧ sampleIngest.1.messages.seq < 2 ^ 63 ∧
    sampleIngest.1.messages.rows.map (fun r => r.2.signature) = [sampleSent.text (lit "signature")] := by
  decide +kernel

/-- The posted bytes get to the payload's ingestion. -/
theorem samplePosted_post : doPost sampleEnv usualInterpreter.toPlatform noonReadings .publish
    (some (Requests.lengthHeader (encode (dumpsDefault (.obj sampleSent))))) (encode (dumpsDefault (.obj sampleSent)))
    sampleStart.server = RelayHandler.publishObject sampleEnv .usual noonReadings sampleSent sampleStart.server := by
  obtain ⟨der, enc, expiresAt, hposted⟩ := cmdSend_posts sample_sent
  have hloads := (hposted.texts hexDigests_sampleHmac).loads_eq reads_usual.ascii (Nat.zero_lt_of_lt reads_usual.nesting)
  exact doPost_printed rfl hloads (hposted.fits hexDigests_sampleHmac sample_sizes)

theorem samplePosted_eq : samplePosted.server.db = sampleIngest.1 ∧
    Node.step sampleEnv usualInterpreter sampleStart samplePosting =
      some (samplePosted, .post ⟨[⟨200, storedBody 1⟩], none⟩) := by
  obtain ⟨hdb, hreply⟩ := Prod.ext_iff.1
    (RelayHandler.publishObject_eq sampleEnv .usual noonReadings sampleSent sampleStart.server)
  dsimp only [Prod.map_fst, Prod.map_snd, id] at hdb hreply
  have hstored : RelayHandler.reply .usual sampleIngest.2 = ⟨[⟨200, storedBody 1⟩], none⟩ := by
    rw [sampleIngest_eq.1]
    rfl
  have hdb : (RelayHandler.publishObject sampleEnv .usual noonReadings sampleSent sampleStart.server).1.db =
      sampleIngest.1 := hdb
  have hreply : (RelayHandler.publishObject sampleEnv .usual noonReadings sampleSent sampleStart.server).2 =
      ⟨[⟨200, storedBody 1⟩], none⟩ := hreply.trans hstored
  have hallowed : samplePosting.restarts = true ∨ sampleStart.clock ≤ samplePosting.time := .inr le_rfl
  rw [step_of hallowed, samplePosted, samplePosting, handle_posting, samplePosted_post]
  generalize RelayHandler.publishObject sampleEnv .usual noonReadings sampleSent sampleStart.server = r at hdb hreply
  constructor
  · rw [Process.settle_server]
    exact hdb
  · dsimp only
    rw [hreply]

theorem samplePosted_holds : Holds (sampleSent.text (lit "signature"))
    (messageOf sampleSent (sampleSent.text (lit "recipient_id")) noonReadings.now) samplePosted := by
  have hstart : NodeRun sampleEnv usualInterpreter burst burst burst 0 [] sampleStart := .nil
  have hpost : Node.step sampleEnv usualInterpreter sampleStart (posting .publish (.obj sampleSent) noonReadings) =
      some (samplePosted, .post ⟨[⟨200, storedBody 1⟩], none⟩) := samplePosted_eq.2
  have hreads : Reads usualInterpreter.toPlatform := reads_usual
  have hhex : Inbox.HexDigests sampleEnv.hmac := hexDigests_sampleHmac
  exact send_stored hreads hhex sample_sizes sample_sent hstart hpost

theorem keepsText_sampleEnv : KeepsText sampleEnv := by
  intro f s hf h
  cases h
  exact hf

def sampleIds : List Str := (candidateRecipientIds sampleHmac Sample.noon (30 * 86400) Inbox.ownerKey).getD []

theorem sampleIds_eq : candidateRecipientIds sampleHmac Sample.noon (30 * 86400) Inbox.ownerKey = some sampleIds := by
  have hsome : (candidateRecipientIds sampleHmac Sample.noon (30 * 86400) Inbox.ownerKey).isSome = true := by decide +kernel
  obtain ⟨ids, hids⟩ := Option.isSome_iff_exists.1 hsome
  rw [sampleIds, hids]
  rfl

theorem sample_live : ∀ e, Sample.noon.addSeconds 86400 = some e → Sample.noon < e := by
  have hexpires : Sample.noon.addSeconds 86400 = some Sample.nextNoon := by decide +kernel
  intro e he
  rw [hexpires] at he
  cases he
  decide +kernel

end

end AetherNode.Delivery
