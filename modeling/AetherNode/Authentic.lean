import AetherNode.Delivery
/-!
# What a signature vouches for

The holder of a key signs messages and delete requests, each as the canonical
form of its fields. That form tells the fields apart, so a relay that is
presented no forged signature holds nothing of the key but what has been sent
and requested with it, field by field, and takes neither for the other. And a
message leaves its tables before the expiry only if the key that it is
addressed to has asked for it, or a peer has sent a tombstone.
-/
open AetherNode.Lib AetherNode.Lib.Json AetherNode.Lib.JsonText AetherNode.Lib.JsonScan AetherNode.Lib.Reread
  AetherNode.Protocol AetherNode.RateLimit AetherNode.Deletable AetherNode.Server AetherNode.Hops AetherNode.Served AetherNode.Node
  AetherNode.Answers AetherNode.Client AetherNode.Delivery

namespace AetherNode.Authentic

/-! ## What is signed -/

/-- A command that signs: `cmd_send`, and a delete request of `cmd_delete` or `--delete-after-read`. -/
inductive Command where
  | send (draws : Draws) (salt : Bytes) (now : Datetime) (recipientB64 message : Str) (ttlSeconds : Int)
  | delete (salt : Bytes) (now : Datetime) (targetSignature : Str) (points : CodePoints targetSignature)

/-- The payload that it posts, if it gets there. -/
def Command.payload (hmac : Hmac) (ciphers : Ciphers) (privateKey : PrivateKey) : Command → Option Dict
  | .send draws salt now recipientB64 message ttlSeconds =>
    (cmdSend hmac ciphers privateKey draws salt now recipientB64 message ttlSeconds).payload?
  | .delete salt now targetSignature _ => some (buildDeletePayload privateKey targetSignature now salt)

/-- The holder of a key, and the commands that are run with it. -/
structure Holder where
  ciphers : Ciphers
  privateKey : PrivateKey
  runs : Command → Prop

namespace Holder

variable (holder : Holder) (hmac : Hmac) (rsaPss : Bytes → Bytes → Str → Bool)

/-- A command has signed the text. -/
def Signed (text : Str) : Prop :=
  ∃ c p, holder.runs c ∧ c.payload hmac holder.ciphers holder.privateKey = some p ∧ text = canonical (.obj (signedContent p))

/-- Every field of the payload but its signature has been sent. -/
def HasSent (p : Dict) : Prop :=
  ∃ draws salt now recipientB64 message ttlSeconds q, holder.runs (.send draws salt now recipientB64 message ttlSeconds) ∧
    cmdSend hmac holder.ciphers holder.privateKey draws salt now recipientB64 message ttlSeconds = .posts q ∧
    ∀ field, field ≠ lit "signature" → p.get field = q.get field

/-- A deletion of this signature has been requested. -/
def Requested (sig : Str) : Prop :=
  ∃ salt now target points, holder.runs (.delete salt now target points) ∧ rejoin target = rejoin sig

/-- A signature of the payload that verifies under the key has been made with it. -/
def Vouches (pubkeyField : Str) (p : Dict) : Prop :=
  verifySignature rsaPss p pubkeyField = true → decodeField p pubkeyField = some holder.privateKey.publicDer →
    holder.Signed hmac (canonical (.obj (signedContent p)))

/-- The operation is presented no forged signature of the key. -/
def Genuine : AtomicEvent → Prop
  | .ingest _ p _ _ _ => holder.Vouches hmac rsaPss (lit "sender_pubkey") p
  | .delete p _ _ => holder.Vouches hmac rsaPss (lit "recipient_pubkey") p
  | _ => True

/-- Nor is the event. -/
def Unforged (interpreter : Interpreter) (_ : Process) (e : Node.Event) : Prop :=
  ∀ a, e.performs interpreter a → holder.Genuine hmac rsaPss a

end Holder

/-! ### What the canonical form tells of it -/

section
variable {p q : Dict} {repr : FloatLiteral → Str} {n : Nat}

theorem get_signedContent {field : Str} (h : field ≠ lit "signature") (p : Dict) : (signedContent p).get field = p.get field := by
  rw [Dict.get, Dict.get, signedContent, List.find?_filter]
  congr 2
  funext kv
  by_cases hkv : kv.1 = field
  · simp [hkv, h]
  · simp [hkv]

theorem readable_signedContent (h : Readable repr (.obj p) n) : Readable repr (.obj (signedContent p)) n :=
  ⟨h.1, readableItems_iff.2 fun kv hkv => readableItems_iff.1 h.2 kv (List.mem_filter.1 hkv).1⟩

theorem nodup_signedContent (h : (p.map Prod.fst).Nodup) : ((signedContent p).map Prod.fst).Nodup :=
  h.sublist (List.filter_sublist.map Prod.fst)

/-- Only a text is read as one. -/
theorem eq_str_of_reread {v : Json} {s : Str} (hs : Unquoted s) (h : reread (sortKeys v) = .str s) : v = .str s := by
  cases v with
  | str t =>
    have ht : rejoin t = s := Json.str.inj h
    rw [(rejoin_eq_iff hs.small hs.rejoin_eq).1 ht]
  | _ => cases h

/-- A payload with the canonical form of one of plain texts has the same fields. -/
theorem get_eq_of_canonical (hp : Readable repr (.obj p) n) (hq : Readable repr (.obj q) n) (hpkeys : (p.map Prod.fst).Nodup)
    (hqkeys : (q.map Prod.fst).Nodup) (htexts : ∀ kv ∈ q, Unquoted kv.1 ∧ ∃ s, kv.2 = .str s ∧ Unquoted s)
    (h : canonical (.obj p) = canonical (.obj q)) (key : Str) : p.get key = q.get key := by
  cases hget : q.get key with
  | some v =>
    obtain ⟨hkey, s, hs, htext⟩ := htexts _ ((get_eq_some_iff hqkeys).1 hget)
    have hfield := get_of_canonical hp hq hpkeys hqkeys h fun _ => rejoin_eq_iff hkey.small hkey.rejoin_eq
    dsimp only at hs
    rw [hget, hs] at hfield
    obtain ⟨w, hw, hread⟩ := Option.map_eq_some_iff.1 hfield
    rw [hw, hs, eq_str_of_reread htext (hread.trans (congrArg Json.str htext.rejoin_eq))]
  | none =>
    -- A key of the one is read as a key of the other, which is read of no other key.
    rw [get_eq_none]
    intro hmem
    have hsame := Json.obj.inj (reread_eq_of_canonical hp hq h)
    have hsorted := (mem_keys_sorted (d := p)).2 ⟨key, hmem, rfl⟩
    rw [hsame] at hsorted
    obtain ⟨k, hk, hread⟩ := mem_keys_sorted.1 hsorted
    obtain ⟨kv, hkv, rfl⟩ := List.mem_map.1 hk
    have hplain := (htexts kv hkv).1
    rw [hplain.rejoin_eq] at hread
    rw [(rejoin_eq_iff hplain.small hplain.rejoin_eq).1 hread.symm] at hget
    exact get_eq_none.1 hget hk

end

section
variable {holder : Holder} {hmac : Hmac} {platform : Platform} {p q : Dict} {draws : Draws} {salt : Bytes} {now : Datetime}
  {recipientB64 message target : Str} {ttlSeconds : Int}

/-- What `cmd_send` signs is told from its canonical form. -/
theorem get_eq_of_sent (hhex : Inbox.HexDigests hmac) (hnesting : 0 < platform.decoder.nesting)
    (hsend : cmdSend hmac holder.ciphers holder.privateKey draws salt now recipientB64 message ttlSeconds = .posts q)
    (hp : Loaded platform (.obj p)) (h : canonical (.obj (signedContent p)) = canonical (.obj (signedContent q))) {field : Str}
    (hfield : field ≠ lit "signature") : p.get field = q.get field := by
  obtain ⟨der, enc, expiresAt, hposted⟩ := cmdSend_posts hsend
  have htexts := hposted.texts hhex
  have hread : Readable platform.decoder.repr (.obj q) platform.decoder.nesting := htexts.readable hnesting
  have hplain : ∀ kv ∈ signedContent q, Unquoted kv.1 ∧ ∃ s, kv.2 = .str s ∧ Unquoted s := by
    obtain ⟨text, fields, -, rfl, hfields⟩ := hposted.fields hhex
    intro kv hkv
    obtain ⟨f, hf, rfl⟩ := List.mem_map.1 (List.mem_filter.1 hkv).1
    exact ⟨(hfields f hf).1, f.2, rfl, (hfields f hf).2⟩
  have hsame := get_eq_of_canonical (readable_signedContent hp.readable) (readable_signedContent hread)
    (nodup_signedContent hp.distinct.1) (nodup_signedContent htexts.keys) hplain h field
  rwa [get_signedContent hfield, get_signedContent hfield] at hsame

/-- Of a delete request that is signed the fields are told, as far as its target is read. -/
theorem get_of_deleted (hnesting : 0 < platform.decoder.nesting) (htarget : CodePoints target) (hp : Loaded platform (.obj p))
    (h : canonical (.obj (signedContent p)) = canonical (.obj (unsignedDelete holder.privateKey target now))) {field : Str}
    (hfield : field ≠ lit "signature") (hsmall : ∀ c ∈ field, c < 0x10000) (hjoined : rejoin field = field) :
    (p.get field).map (fun v => reread (sortKeys v)) =
      (Dict.get (unsignedDelete holder.privateKey target now) field).map fun v => reread (sortKeys v) := by
  have hkeys : ((unsignedDelete holder.privateKey target now).map Prod.fst).Nodup := by simp [unsignedDelete, lit]
  have hread : Readable platform.decoder.repr (.obj (unsignedDelete holder.privateKey target now)) platform.decoder.nesting := by
    refine ⟨hnesting, readableItems_iff.2 ?_⟩
    have hname : ∀ name ∈ [lit "version", lit "action", lit "target_signature", lit "recipient_pubkey", lit "timestamp", lit "1",
        lit "delete"], CodePoints name := by
      simp [CodePoints, lit]
    simp only [unsignedDelete, List.forall_mem_cons, List.not_mem_nil, false_implies, implies_true, and_true] at hname ⊢
    simp only [hname, true_and, Readable]
    exact ⟨htarget, (isText_b64encode _).2, (isText_isoformat now).2⟩
  have hsame := get_of_canonical (readable_signedContent hp.readable) hread (nodup_signedContent hp.distinct.1) hkeys h fun _ =>
    rejoin_eq_iff hsmall hjoined
  rwa [get_signedContent hfield] at hsame

/-- A message that has been signed has been sent: it is no delete request. -/
theorem hasSent_of_signed (hhex : Inbox.HexDigests hmac) (hnesting : 0 < platform.decoder.nesting)
    (hp : Loaded platform (.obj p)) (hcomplete : missingFields requiredFields p = [])
    (h : holder.Signed hmac (canonical (.obj (signedContent p)))) : holder.HasSent hmac p := by
  obtain ⟨c, q, hruns, hpayload, hsame⟩ := h
  cases c with
  | send draws salt now recipientB64 message ttlSeconds =>
    have hsend := posts_of_payload hpayload
    exact ⟨draws, salt, now, recipientB64, message, ttlSeconds, q, hruns, hsend, fun _ hfield =>
      get_eq_of_sent hhex hnesting hsend hp hsame hfield⟩
  | delete salt now target points =>
    cases hpayload
    have hnone : p.get (lit "ciphertext") = none :=
      Option.map_eq_none_iff.1 (get_of_deleted hnesting points hp hsame (by simp [lit]) (by simp [lit]) rfl)
    have hmissing : lit "ciphertext" ∈ missingFields requiredFields p :=
      List.mem_filter.2 ⟨by simp [requiredFields], by rw [hnone]; rfl⟩
    rw [hcomplete] at hmissing
    cases hmissing

/-- A delete request that has been signed has been made: it is no message. -/
theorem requested_of_signed (hhex : Inbox.HexDigests hmac) (hnesting : 0 < platform.decoder.nesting)
    (hp : Loaded platform (.obj p)) (htarget : p.get (lit "target_signature") = some (.str target))
    (h : holder.Signed hmac (canonical (.obj (signedContent p)))) : holder.Requested target := by
  obtain ⟨c, q, hruns, hpayload, hsame⟩ := h
  cases c with
  | send draws salt now recipientB64 message ttlSeconds =>
    have hsend := posts_of_payload hpayload
    obtain ⟨der, enc, expiresAt, hposted⟩ := cmdSend_posts hsend
    have hfield : p.get (lit "target_signature") = q.get (lit "target_signature") :=
      get_eq_of_sent hhex hnesting hsend hp hsame (by simp [lit])
    rw [htarget, hposted.eq] at hfield
    cases hfield
  | delete salt now requested points =>
    cases hpayload
    have hfield : (p.get (lit "target_signature")).map (fun v => reread (sortKeys v)) = some (reread (.str requested)) :=
      get_of_deleted hnesting points hp hsame (by simp [lit]) (by simp [lit]) rfl
    rw [htarget] at hfield
    have hread : rejoin target = rejoin requested := Json.str.inj (Option.some.inj hfield)
    exact ⟨salt, now, requested, points, hruns, hread.symm⟩

end

/-! ## What the tables hold of the key -/

/-- Every message of the key has been sent, and every pending delete request of it has been made. -/
structure Attested (holder : Holder) (hmac : Hmac) (db : Db) : Prop where
  messages : ∀ sig m, db.message sig = some m → decodeField m.payload (lit "sender_pubkey") = some holder.privateKey.publicDer →
    holder.HasSent hmac m.payload
  requests : ∀ sig r, db.request sig = some r → r.confirmed = false → b64decode r.requesterPubkey = some holder.privateKey.publicDer →
    holder.Requested sig

section
variable {env : Env} {rsaPss : Bytes → Bytes → Str → Bool} {holder : Holder} {platform : Platform} {db db' : Db}

theorem decodeField_of_text {p : Dict} {field : Str} (hv : env.verifier.verify p field = true) :
    decodeField p field = b64decode (p.text field) := by
  obtain ⟨k, -, hk, -⟩ := env.verifier.pubkey_decodes p field hv
  rw [decodeField, hk, Dict.text_eq hk]

/-- A verified delete request of the key has been made. -/
theorem requested_of_valid (hv : env.verifier = rsaVerifier rsaPss) (hhex : Inbox.HexDigests env.hmac)
    (hnesting : 0 < platform.decoder.nesting) {p : Dict} (hp : Loaded platform (.obj p)) (hvalid : ValidDelete env p)
    (hvouches : holder.Vouches env.hmac rsaPss (lit "recipient_pubkey") p)
    (hkey : b64decode (p.text (lit "recipient_pubkey")) = some holder.privateKey.publicDer) :
    holder.Requested (p.text (lit "target_signature")) := by
  obtain ⟨target, htarget, -, -⟩ := hvalid.target
  have hverified := hvalid.verified
  rw [← decodeField_of_text hverified] at hkey
  rw [hv] at hverified
  rw [Dict.text_eq htarget]
  exact requested_of_signed hhex hnesting hp htarget (hvouches hverified hkey)

/-- An operation that is presented no forged signature keeps it so. -/
theorem attested_step (hv : env.verifier = rsaVerifier rsaPss) (hhex : Inbox.HexDigests env.hmac)
    (hnesting : 0 < platform.decoder.nesting) (h : Attested holder env.hmac db) {e : AtomicEvent} {o : AtomicObs}
    (he : HeardEvent platform db e) (hgenuine : holder.Genuine env.hmac rsaPss e) (hstep : atomicStep env db e = some (db', o)) :
    Attested holder env.hmac db' := by
  constructor
  · intro sig m hm hkey
    rcases atomic_message hstep hm with hold | ⟨path, p, now, gate, identityGate, id, rfl, -, hvalid, rfl, rfl⟩
    · exact h.messages sig m hold hkey
    · have hverified := hvalid.verified
      rw [hv] at hverified
      exact hasSent_of_signed hhex hnesting he hvalid.complete (hgenuine hverified hkey)
  · intro sig r hr hpending hkey
    have hbury : ∀ row : DeletionRequest, row.confirmed = true → (db.bury row).request sig = some r → holder.Requested sig := by
      intro row hrow hr
      rw [Db.request_bury] at hr
      split at hr
      · cases hr
        rw [hrow] at hpending
        cases hpending
      · exact h.requests sig r hr hpending hkey
    cases atomic_effect hstep with
    | same => exact h.requests sig r hr hpending hkey
    | stores _ _ _ _ hreq =>
      rw [hreq] at hr
      split at hr
      · cases hr
      · exact h.requests sig r hr hpending hkey
    | drops =>
      rw [Db.request_deleteRequest] at hr
      split at hr
      · cases hr
      · exact h.requests sig r hr hpending hkey
    | promotes | deletes => exact hbury _ rfl hr
    | records hvalid =>
      rw [Db.request_recordRequest] at hr
      split at hr
      · rename_i hsig
        cases hr
        rw [hsig.1]
        exact requested_of_valid hv hhex hnesting he hvalid hgenuine hkey
      · exact h.requests sig r hr hpending hkey
    | adopts _ _ hrow => exact hbury _ (bindTombstone_ok hrow).2.2.2.2 hr
    | loses => exact h.requests sig r (by simpa using hr) hpending hkey
    | sweeps _ _ hreq =>
      rw [hreq] at hr
      exact h.requests sig r (Option.filter_eq_some_iff.1 hr).1 hpending hkey

end

section
variable {env : Env} {rsaPss : Bytes → Bytes → Str → Bool} {holder : Holder} {interpreter : Interpreter} {client push pull : Limits}
  {time : ℚ} {h h' : List (Node.Event × Node.Obs)} {n n' : Process} {sig : Str} {m : Message}

/-- A relay that is presented no forged signature of a key stores no message of it but what has been sent, field by field,
and no pending delete request of it but what has been made: whatever else it is sent, and by whom. -/
theorem attested_run (hv : env.verifier = rsaVerifier rsaPss) (hreads : Reads interpreter.toPlatform)
    (hhex : Inbox.HexDigests env.hmac)
    (hrun : Run (Node.step env interpreter) (holder.Unforged env.hmac rsaPss interpreter) (start .empty client push pull time) h n) :
    Attested holder env.hmac n.server.db := by
  have hempty : Attested holder env.hmac .empty := by
    constructor
    · intro sig m hm
      cases hm
    · intro sig r hr
      cases hr
  have hboth : Attested holder env.hmac n.server.db ∧ Attested holder env.hmac n.committed := by
    refine hrun.inv (fun n => Attested holder env.hmac n.server.db ∧ Attested holder env.hmac n.committed) ⟨hempty, hempty⟩ ?_
    intro n e n' o hattested hunforged hstep
    refine event_inv hreads ?_ hattested hstep
    intro db a db' o hattested hheard hperforms hstep
    exact attested_step hv hhex (Nat.zero_lt_of_lt hreads.nesting) hattested hheard (hunforged a hperforms) hstep
  exact hboth.1

/-- The sender of the sample message has run `cmd_send` once. -/
def sampleHolder : Holder :=
  ⟨sampleCiphers, sampleSender, fun c => c = .send sampleDraws [] Sample.noon (b64encode Inbox.ownerKey) (lit "hello") 86400⟩

/-- The body of the request is the sample message. -/
theorem carries_sample {h : Handler} (hcap : h.reading.cap = maxBodyBytes) {p : Dict}
    (hcarries : Carries usualInterpreter h (some (Requests.lengthHeader (encode (dumpsDefault (.obj sampleSent)))))
      (encode (dumpsDefault (.obj sampleSent))) p) : p = sampleSent := by
  obtain ⟨der, enc, expiresAt, hposted⟩ := cmdSend_posts sample_sent
  obtain ⟨raw, hreceived, hloads⟩ := hcarries
  rw [received_printed hcap (hposted.fits hexDigests_sampleHmac sample_sizes)] at hreceived
  cases hreceived
  have hsame : loads usualInterpreter.decoder (encode (dumpsDefault (.obj sampleSent))) = .ok (.obj sampleSent) :=
    (hposted.texts hexDigests_sampleHmac).loads_eq reads_usual.ascii (Nat.zero_lt_of_lt reads_usual.nesting)
  rw [hsame] at hloads
  cases hloads
  rfl

theorem unforged_sample (n : Process) : sampleHolder.Unforged sampleHmac (fun _ _ _ => true) usualInterpreter n samplePosting := by
  intro a ha
  cases a with
  | ingest path p now gate identityGate =>
    obtain rfl := carries_sample rfl ha.2
    exact fun _ _ => ⟨_, sampleSent, rfl, congrArg Sending.payload? sample_sent, rfl⟩
  | delete p now gate =>
    obtain rfl := carries_sample rfl ha.2
    obtain ⟨der, enc, expiresAt, hposted⟩ := cmdSend_posts sample_sent
    intro _ hkey
    rw [hposted.eq] at hkey
    cases hkey
  | pullDeletion | sweep => trivial

/-- The relay that has the sample message. -/
theorem attested_run_sample : Attested sampleHolder sampleHmac samplePosted.server.db :=
  attested_run rfl reads_usual hexDigests_sampleHmac (Run.nil.snoc (unforged_sample sampleStart) samplePosted_eq.2)

/-! ## Who takes a message away -/

/-- No other key has this recipient id, on any day. -/
def Addresses (env : Env) (key : Bytes) (recipientId : Str) : Prop :=
  ∀ der day, blindRecipientId env.hmac der day = recipientId → der = key

/-- Only the key that a message is addressed to owns it. -/
theorem Addresses.owner {key : Bytes} {recipientId : Str} (h : Addresses env key recipientId) {now : Datetime} {keyB64 : Str}
    (hown : Owns env now keyB64 recipientId) : b64decode keyB64 = some key := by
  obtain ⟨der, ids, hder, hids, hmem⟩ := hown
  obtain ⟨days, -, rfl⟩ := Option.map_eq_some_iff.1 hids
  obtain ⟨d, -, hd⟩ := List.mem_map.1 hmem
  rw [hder, h der (dayBucket d) hd]

end


end AetherNode.Authentic
