import AetherNode.Lib.Reread
import AetherNode.Server
/-!
# Payloads that travel

A payload is printed into a row, read back into a page or an inbox, printed
into a response and read again by the next relay or the client. Each time it
may change: two surrogates that follow each other become one character. It
changes at the first leg at most, and what a relay checks, signs and stores of
it does not change at all where its keys are kept.
-/
open AetherNode.Lib AetherNode.Lib.Json AetherNode.Lib.JsonText AetherNode.Lib.JsonScan AetherNode.Lib.Reread
  AetherNode.Protocol AetherNode.Server

namespace AetherNode.Hops

/-! ## One printing and reading -/

/-- A payload that has been printed and read again. -/
def hop (p : Dict) : Dict := dictOf (rereadItems p)

theorem reread_payload (p : Dict) : reread (.obj p) = .obj (hop p) := rfl

theorem hop_hop (p : Dict) : hop (hop p) = hop p := Json.obj.inj (reread_reread (.obj p))

section
variable {p : Dict}

theorem hop_eq (hk : KeysKept (.obj p)) : hop p = p.map fun kv => (kv.1, reread kv.2) := Json.obj.inj (reread_obj hk)

theorem get_hop (hk : KeysKept (.obj p)) (key : Str) : (hop p).get key = (p.get key).map reread := by
  rw [hop_eq hk, Dict.get, Dict.get, List.find?_map, Option.map_map, Option.map_map]
  rfl

theorem text_hop (hk : KeysKept (.obj p)) (key : Str) : (hop p).text key = rejoin (p.text key) := by
  rw [Dict.text, Dict.text, get_hop hk]
  cases p.get key with
  | none => rfl
  | some v => cases v <;> rfl

theorem missingFields_hop (hk : KeysKept (.obj p)) (required : List Str) :
    missingFields required (hop p) = missingFields required p := by
  unfold missingFields
  apply List.filter_congr
  intro f _
  rw [get_hop hk]
  cases p.get f <;> rfl

theorem keysKept_signedContent (hk : KeysKept (.obj p)) : KeysKept (.obj (signedContent p)) := by
  have hsub : (signedContent p).Sublist p := List.filter_sublist
  refine ⟨hk.1.sublist (hsub.map Prod.fst), keysKeptItems_iff.2 fun kv hkv => ?_⟩
  exact keysKeptItems_iff.1 hk.2 kv (hsub.subset hkv)

/-- What is signed of the payload is what was signed before. -/
theorem canonical_signedContent_hop (hk : KeysKept (.obj p)) :
    canonical (.obj (signedContent (hop p))) = canonical (.obj (signedContent p)) := by
  have hcommute : signedContent (hop p) = hop (signedContent p) := by
    rw [hop_eq hk, hop_eq (keysKept_signedContent hk), signedContent, signedContent, List.filter_map]
    rfl
  rw [hcommute, ← reread_payload]
  exact canonical_reread (keysKept_signedContent hk)

end

/-! ### Fields -/

/-- A text below the astral characters has been joined nowhere. -/
theorem rejoin_of_small {s : Str} (h : ∀ c ∈ rejoin s, c < 0x10000) : rejoin s = s := by
  fun_induction rejoin s with
  | case1 u v s hpair ih =>
    have hastral := joinSurrogates_astral u v
    have hsmall := h _ List.mem_cons_self
    omega
  | case2 u v s hpair ih => rw [ih fun c hc => h c (List.mem_cons_of_mem u hc)]
  | case3 s hno => rfl

theorem b64decode_rejoin (s : Str) : b64decode (rejoin s) = b64decode s := by
  cases hs : b64decode s with
  | some b => rw [rejoin_of_joined (joined_of_encodable (encodable_of_b64decode hs)), hs]
  | none =>
    cases hjoined : b64decode (rejoin s) with
    | none => rfl
    | some b =>
      have hascii := ascii_of_b64decode hjoined
      rw [rejoin_of_small fun c hc => Nat.lt_trans (hascii c hc) (Nat.le_of_ble_eq_true rfl), hs] at hjoined
      cases hjoined

section
variable {p : Dict}

theorem decodeField_hop (hk : KeysKept (.obj p)) (field : Str) : decodeField (hop p) field = decodeField p field := by
  rw [decodeField, decodeField, get_hop hk]
  cases p.get field with
  | none => rfl
  | some v =>
    cases v with
    | str s => exact b64decode_rejoin s
    | _ => rfl

/-- A signature verifies on what is read exactly when it verifies on what was printed. -/
theorem verifySignature_hop (rsaPss : Bytes → Bytes → Str → Bool) (hk : KeysKept (.obj p)) (field : Str) :
    verifySignature rsaPss (hop p) field = verifySignature rsaPss p field := by
  rw [verifySignature, verifySignature, decodeField_hop hk, decodeField_hop hk, canonical_signedContent_hop hk]

end

/-! ## What a relay makes of it -/

/-- The columns of a row, with the payload as the text that is stored. -/
def columns (m : Message) : Str × Str × Str × Str × Str × Str :=
  (m.recipientId, m.senderPubkey, m.signature, dumpsDefault (.obj m.payload), m.expiresAt, m.receivedAt)

/-- Two relays hold the same rows, column by column. -/
structure Alike (db db' : Db) : Prop where
  messages : (db'.messages.rows.map fun r => (r.1, columns r.2)) = db.messages.rows.map fun r => (r.1, columns r.2)
  seq : db'.messages.seq = db.messages.seq
  deletionRequests : db'.deletionRequests = db.deletionRequests

/-- A relay checks and stores the same of `q` as of `p`. -/
structure Copies (env : Env) (p q : Dict) : Prop where
  stored : ∀ db, alreadyStored q db = alreadyStored p db
  room : ∀ db, hasRoom env q db = hasRoom env p db
  validation : ∀ now, validatePublishPayload env now q = validatePublishPayload env now p
  recipientId : q.text (lit "recipient_id") = p.text (lit "recipient_id")
  senderPubkey : q.text (lit "sender_pubkey") = p.text (lit "sender_pubkey")
  signature : q.text (lit "signature") = p.text (lit "signature")
  expiresAt : q.text (lit "expires_at") = p.text (lit "expires_at")
  printed : dumpsDefault (.obj q) = dumpsDefault (.obj p)

theorem Copies.refl (env : Env) (p : Dict) : Copies env p p :=
  ⟨fun _ => rfl, fun _ => rfl, fun _ => rfl, rfl, rfl, rfl, rfl, rfl⟩

theorem Copies.row {env : Env} {p q : Dict} (h : Copies env p q) (rid : Str) (now : Datetime) :
    columns (messageOf q rid now) = columns (messageOf p rid now) := by
  simp only [columns, messageOf, h.senderPubkey, h.signature, h.expiresAt, h.printed]

/-- The texts that become columns bind. -/
structure Binds (p : Dict) : Prop where
  recipientId : encodable (p.text (lit "recipient_id")) = true
  senderPubkey : encodable (p.text (lit "sender_pubkey")) = true
  signature : encodable (p.text (lit "signature")) = true
  expiresAt : encodable (p.text (lit "expires_at")) = true

section
variable {env : Env} {p : Dict} {f : Str}

/-- A text that binds is read as it is. -/
theorem text_hop_of_encodable (hk : KeysKept (.obj p)) (hf : encodable (p.text f) = true) : (hop p).text f = p.text f := by
  rw [text_hop hk, rejoin_of_joined (joined_of_encodable hf)]

/-- A field is the text it was, or no text as before. -/
theorem field_hop (hk : KeysKept (.obj p)) (hf : encodable (p.text f) = true) :
    (∃ s, p.get f = some (.str s) ∧ (hop p).get f = some (.str s)) ∨
      (∀ s, p.get f ≠ some (.str s)) ∧ ∀ s, (hop p).get f ≠ some (.str s) := by
  have hget := get_hop hk f
  cases hp : p.get f with
  | none => exact .inr ⟨by simp, by simp [hget, hp]⟩
  | some v =>
    rw [hp] at hget
    cases v with
    | str s =>
      rw [Dict.text_eq hp] at hf
      have hs : rejoin s = s := rejoin_of_joined (joined_of_encodable hf)
      exact .inl ⟨s, rfl, by rw [hget, Option.map_some, reread, hs]⟩
    | _ => exact .inr ⟨by simp, by simp [hget, reread]⟩

theorem alreadyStored_hop (hk : KeysKept (.obj p)) (hb : Binds p) (db : Db) :
    alreadyStored (hop p) db = alreadyStored p db := by
  unfold alreadyStored
  rcases field_hop hk hb.signature with ⟨s, hs, hs'⟩ | ⟨hno, hno'⟩
  · rw [hs, hs']
  · split
    · rename_i s hs
      exact absurd hs (hno' s)
    · rfl

theorem hasRoom_hop (hk : KeysKept (.obj p)) (hb : Binds p) (db : Db) : hasRoom env (hop p) db = hasRoom env p db := by
  unfold hasRoom
  rcases field_hop hk hb.recipientId with ⟨s, hs, hs'⟩ | ⟨hno, hno'⟩
  · rw [hs, hs']
  · split
    · rename_i s hs
      exact absurd hs (hno' s)
    · rfl

/-- The validation comes to the same verdict at any time. -/
theorem validate_hop {rsaPss : Bytes → Bytes → Str → Bool} (henv : env.verifier = rsaVerifier rsaPss)
    (hk : KeysKept (.obj p)) (hb : Binds p) (now : Datetime) :
    validatePublishPayload env now (hop p) = validatePublishPayload env now p := by
  have hverify : env.verifier.verify (hop p) (lit "sender_pubkey") = env.verifier.verify p (lit "sender_pubkey") := by
    rw [henv]
    exact verifySignature_hop rsaPss hk (lit "sender_pubkey")
  unfold validatePublishPayload
  rw [missingFields_hop hk, hverify]
  dsimp only
  rcases field_hop hk hb.recipientId with ⟨r, hr, hr'⟩ | ⟨hno, hno'⟩
  · rw [hr, hr']
    dsimp only
    rcases field_hop hk hb.expiresAt with ⟨raw, hraw, hraw'⟩ | ⟨hno, hno'⟩
    · rw [hraw, hraw']
    · split
      · rfl
      split
      · split
        · rename_i raw hraw
          exact absurd hraw (hno' raw)
        · rfl
      · rfl
  · split
    · rfl
    split
    · rename_i r hr
      exact absurd hr (hno' r)
    · rfl

/-- A relay with the verifier of the source takes what has travelled for what was sent. -/
theorem copies_hop {rsaPss : Bytes → Bytes → Str → Bool} (henv : env.verifier = rsaVerifier rsaPss)
    (hk : KeysKept (.obj p)) (hb : Binds p) : Copies env p (hop p) where
  stored := alreadyStored_hop hk hb
  room := hasRoom_hop hk hb
  validation := validate_hop henv hk hb
  recipientId := text_hop_of_encodable hk hb.recipientId
  senderPubkey := text_hop_of_encodable hk hb.senderPubkey
  signature := text_hop_of_encodable hk hb.signature
  expiresAt := text_hop_of_encodable hk hb.expiresAt
  printed := dumps_reread _ _ (.obj p) hk

end

/-! ### Relays that hold the same rows -/

section
variable {env : Env} {p q : Dict} {db db' : Db}

theorem Alike.refl (db : Db) : Alike db db := ⟨rfl, rfl, rfl⟩

theorem Alike.request (h : Alike db db') (s : Str) : db'.request s = db.request s := by
  rw [Db.request, Db.request, h.deletionRequests]

theorem Alike.inbox (h : Alike db db') (rid : Str) : (db'.inbox rid).map columns = (db.inbox rid).map columns := by
  have hinbox : ∀ db : Db, (db.inbox rid).map columns =
      ((db.messages.rows.map fun r => (r.1, columns r.2)).map Prod.snd).filter fun c => c.1 = rid := by
    intro db
    rw [Db.inbox, List.map_map, List.filter_map, List.filter_map, List.map_map]
    rfl
  rw [hinbox, hinbox, h.messages]

theorem Alike.message (h : Alike db db') (s : Str) : (db'.message s).map columns = (db.message s).map columns := by
  have hfind : ∀ db : Db, (db.message s).map columns =
      ((db.messages.rows.map fun r => (r.1, columns r.2)).find? fun c => c.2.2.2.1 = s).map Prod.snd := by
    intro db
    rw [Db.message, Table.lookup, List.find?_map, Option.map_map, Option.map_map]
    rfl
  rw [hfind, hfind, h.messages]

theorem Alike.isSome_message (h : Alike db db') (s : Str) : (db'.message s).isSome = (db.message s).isSome := by
  simpa using congrArg Option.isSome (h.message s)

theorem Alike.reached (h : Alike db db') (rid : Str) : quotaReached env rid db' = quotaReached env rid db := by
  have hlength : ∀ l : List Message, (l.map Message.payloadLength) = (l.map columns).map fun c => c.2.2.2.1.length := by
    intro l
    rw [List.map_map]
    rfl
  have hcount : (db'.inbox rid).length = (db.inbox rid).length := by simpa using congrArg List.length (h.inbox rid)
  rw [quotaReached, quotaReached, hcount, hlength, hlength, h.inbox]

theorem Alike.confirmed (h : Alike db db') (t : Str) : db'.confirmed t = db.confirmed t := by
  rw [Db.confirmed, Db.confirmed, h.request]

/-- Rows that go by their columns go from both. -/
theorem Alike.deleteWhere (h : Alike db db') (d : Str × Str × Str × Str × Str × Str → Bool)
    (requests : Table DeletionRequest.targetSignature) :
    Alike ⟨db.messages.deleteWhere fun m => d (columns m), requests⟩
      ⟨db'.messages.deleteWhere fun m => d (columns m), requests⟩ := by
  have hfilter : ∀ db : Db, ((db.messages.rows.filter fun r => !d (columns r.2)).map fun r => (r.1, columns r.2)) =
      (db.messages.rows.map fun r => (r.1, columns r.2)).filter fun c => !d c.2 := by
    intro db
    rw [List.filter_map]
    rfl
  refine ⟨?_, h.seq, rfl⟩
  rw [Table.deleteWhere, Table.deleteWhere, hfilter, hfilter, h.messages]

theorem Alike.deleteMessage (h : Alike db db') (t : Str) : Alike (db.deleteMessage t) (db'.deleteMessage t) := by
  have hdelete := h.deleteWhere (fun c => c.2.2.1 = t) db.deletionRequests
  rw [Db.deleteMessage, Db.deleteMessage, h.deletionRequests]
  exact hdelete

theorem Alike.withRequests (h : Alike db db') (f : Table DeletionRequest.targetSignature → Table DeletionRequest.targetSignature) :
    Alike { db with deletionRequests := f db.deletionRequests } { db' with deletionRequests := f db'.deletionRequests } :=
  ⟨h.messages, h.seq, congrArg f h.deletionRequests⟩

theorem Alike.bury (h : Alike db db') (row : DeletionRequest) : Alike (db.bury row) (db'.bury row) :=
  (h.deleteMessage row.targetSignature).withRequests fun t => t.insertOrReplace row

theorem Alike.recordRequest (h : Alike db db') (r : DeletionRequest) : Alike (db.recordRequest r) (db'.recordRequest r) :=
  h.withRequests fun t => t.insertOrIgnore r

theorem Alike.deleteRequest (h : Alike db db') (t : Str) : Alike (db.deleteRequest t) (db'.deleteRequest t) :=
  h.withRequests fun requests => requests.deleteWhere fun r => r.targetSignature = t

end

/-! ### Sections -/

/-- Two sections leave the same rows and return the same. -/
def Agree {α : Type} (r r' : Db × α) : Prop := Alike r.1 r'.1 ∧ r'.2 = r.2

theorem Agree.result {α : Type} {r r' : Db × α} (h : Agree r r') : ∃ d d' x, r = (d, x) ∧ r' = (d', x) ∧ Alike d d' := by
  obtain ⟨d, x⟩ := r
  obtain ⟨d', x'⟩ := r'
  obtain ⟨halike, hx⟩ := h
  exact ⟨d, d', x, rfl, Prod.ext rfl hx, halike⟩

section
variable {env : Env} {p q : Dict} {db db' : Db}

theorem Alike.agree {α : Type} (h : Alike db db') (x : α) : Agree (db, x) (db', x) := ⟨h, rfl⟩

/-- A row that is printed alike comes to both. -/
theorem Alike.inserts (h : Alike db db') (hpq : Copies env p q) (rid : Str) (now : Datetime) :
    Agree (insertMessageAndMaybeGossip env p rid now db) (insertMessageAndMaybeGossip env q rid now db') := by
  have hrow := hpq.row rid now
  have hbinds : (messageOf q rid now).binds = (messageOf p rid now).binds := by
    simp only [columns, Prod.mk.injEq] at hrow
    rw [Message.binds, Message.binds, hrow.1, hrow.2.1, hrow.2.2.1, hrow.2.2.2.2.1]
  have hsignature : (messageOf q rid now).signature = (messageOf p rid now).signature :=
    congrArg (fun c => c.2.2.1) hrow
  unfold insertMessageAndMaybeGossip
  dsimp only
  rw [h.reached, hbinds]
  split
  · exact h.agree _
  split
  · exact h.agree _
  split
  · exact h.agree _
  by_cases hnew : db.message (messageOf p rid now).signature = none
  · have hnew' : db'.message (messageOf q rid now).signature = none := by
      rw [hsignature, ← Option.isNone_iff_eq_none, ← Option.not_isSome, h.isSome_message, Option.not_isSome, hnew]
      rfl
    have hinsert : db.messages.insert? (messageOf p rid now) =
        some (db.messages.append _ (Table.fresh_iff.2 hnew), db.messages.seq + 1) := dif_pos (Table.fresh_iff.2 hnew)
    have hinsert' : db'.messages.insert? (messageOf q rid now) =
        some (db'.messages.append _ (Table.fresh_iff.2 hnew'), db'.messages.seq + 1) := dif_pos (Table.fresh_iff.2 hnew')
    rw [hinsert, hinsert']
    refine ⟨⟨?_, congrArg (· + 1) h.seq, h.deletionRequests⟩, by rw [h.seq]⟩
    simp only [Table.append, List.map_append, List.map_singleton, h.messages, h.seq, hrow]
  · have hnew' : db'.message (messageOf q rid now).signature ≠ none := by
      rw [hsignature, ← Option.isSome_iff_ne_none, h.isSome_message, Option.isSome_iff_ne_none]
      exact hnew
    have hinsert : db.messages.insert? (messageOf p rid now) = none := dif_neg fun hf => hnew (Table.fresh_iff.1 hf)
    have hinsert' : db'.messages.insert? (messageOf q rid now) = none := dif_neg fun hf => hnew' (Table.fresh_iff.1 hf)
    rw [hinsert, hinsert']
    exact h.agree _

theorem Alike.applies (h : Alike db db') (env : Env) (t : Str) (key rid requestedAt : Json) :
    Agree (applyConfirmedDeletion env t key rid requestedAt db) (applyConfirmedDeletion env t key rid requestedAt db') := by
  unfold applyConfirmedDeletion
  split
  · exact h.agree _
  split
  · exact (h.deleteMessage t).agree _
  · exact (h.bury _).agree _

theorem Alike.resolves (h : Alike db db') (env : Env) (now : Datetime) (sig rid : Str) :
    Agree (resolveDeletionRequest env now sig rid db) (resolveDeletionRequest env now sig rid db') := by
  have hread : readDeletionRequest sig db' = readDeletionRequest sig db := by
    rw [readDeletionRequest, readDeletionRequest, h.request]
  unfold resolveDeletionRequest
  rw [hread]
  rcases readDeletionRequest sig db with e | (_ | _ | key)
  · exact h.agree _
  · exact h.agree _
  · exact h.agree _
  dsimp only
  rcases claimMatches env now key rid with e | matched
  · exact h.agree _
  have hwrite : Agree (writeResolution env now sig rid key matched db) (writeResolution env now sig rid key matched db') := by
    unfold writeResolution
    split
    · exact h.applies _ _ _ _ _
    split
    · exact (h.deleteRequest sig).agree _
    · exact h.agree _
  obtain ⟨d, d', x, hd, hd', halike⟩ := hwrite.result
  simp only [hd, hd']
  cases x <;> exact halike.agree _

/-- The same ingestion, of a copy at a relay with the same rows. -/
theorem Alike.ingests (h : Alike db db') (hpq : Copies env p q) (path : Path) (now : Datetime) (gate identityGate : Bool) :
    Agree (ingest env path now gate identityGate p db) (ingest env path now gate identityGate q db') := by
  have hstored : alreadyStored q db' = alreadyStored p db := by
    rw [hpq.stored, alreadyStored, alreadyStored]
    simp only [messageExists, h.isSome_message]
  have hroom : hasRoom env q db' = hasRoom env p db := by
    rw [hpq.room, hasRoom, hasRoom]
    simp only [checkRecipientQuota, h.reached]
  unfold ingest
  dsimp only
  rw [hstored, hroom, hpq.validation, hpq.recipientId, hpq.signature]
  split
  · exact h.agree _
  · exact h.agree _
  split
  · exact h.agree _
  split
  · exact h.agree _
  · exact h.agree _
  split
  · exact h.agree _
  · exact h.agree _
  split
  · exact h.agree _
  obtain ⟨d, d', x, hd, hd', halike⟩ :=
    (h.resolves env now (p.text (lit "signature")) (p.text (lit "recipient_id"))).result
  simp only [hd, hd']
  rcases x with e | (_ | _)
  · exact halike.agree _
  · obtain ⟨hinsert, hres⟩ := halike.inserts hpq (p.text (lit "recipient_id")) now
    exact ⟨hinsert, congrArg insertOutcome hres⟩
  · exact halike.agree _

end

/-! ### Delete requests -/

/-- A relay checks and does the same of the delete request `q` as of `p`. -/
structure DeleteCopies (env : Env) (p q : Dict) : Prop where
  validation : validateDeletePayload env q = validateDeletePayload env p
  target : q.text (lit "target_signature") = p.text (lit "target_signature")
  key : q.text (lit "recipient_pubkey") = p.text (lit "recipient_pubkey")

theorem DeleteCopies.refl (env : Env) (p : Dict) : DeleteCopies env p p := ⟨rfl, rfl, rfl⟩

section
variable {env : Env} {p q : Dict} {db db' : Db}

/-- A text of the lower characters is read of no other text. -/
theorem rejoin_eq_iff {s t : Str} (ht : ∀ c ∈ t, c < 0x10000) (hjoined : rejoin t = t) : rejoin s = t ↔ s = t := by
  constructor
  · intro h
    rw [← h]
    exact (rejoin_of_small (by rwa [h])).symm
  · rintro rfl
    exact hjoined

/-- The request for a target that can be stored travels too. -/
theorem deleteCopies_hop {rsaPss : Bytes → Bytes → Str → Bool} (henv : env.verifier = rsaVerifier rsaPss)
    (hk : KeysKept (.obj p)) (ht : encodable (p.text (lit "target_signature")) = true)
    (hkey : encodable (p.text (lit "recipient_pubkey")) = true) : DeleteCopies env p (hop p) := by
  have hverify : env.verifier.verify (hop p) (lit "recipient_pubkey") = env.verifier.verify p (lit "recipient_pubkey") := by
    rw [henv]
    exact verifySignature_hop rsaPss hk (lit "recipient_pubkey")
  have haction : (hop p).text (lit "action") = lit "delete" ↔ p.text (lit "action") = lit "delete" := by
    rw [text_hop hk]
    exact rejoin_eq_iff (by simp [lit]) rfl
  refine ⟨?_, text_hop_of_encodable hk ht, text_hop_of_encodable hk hkey⟩
  unfold validateDeletePayload
  rw [missingFields_hop hk, hverify]
  dsimp only
  rcases field_hop hk ht with ⟨t, htarget, htarget'⟩ | ⟨hno, hno'⟩
  · simp only [htarget, htarget', ne_eq, haction]
  · simp only [ne_eq, haction]

theorem Alike.deletes (h : Alike db db') (hpq : DeleteCopies env p q) (now : Datetime) :
    Agree (handleDeleteRequest env now p db) (handleDeleteRequest env now q db') := by
  unfold handleDeleteRequest
  dsimp only
  rw [hpq.target, hpq.key]
  split
  · exact h.agree _
  split
  · exact h.agree _
  split
  · exact h.agree _
  have hmessage := h.message (p.text (lit "target_signature"))
  rcases hm : db.message (p.text (lit "target_signature")) with _ | m
  · rw [hm, Option.map_none, Option.map_eq_none_iff] at hmessage
    rw [hmessage]
    exact (h.recordRequest _).agree _
  rw [hm, Option.map_some, Option.map_eq_some_iff] at hmessage
  obtain ⟨m', hm', hcolumns⟩ := hmessage
  have hrid : m'.recipientId = m.recipientId := congrArg Prod.fst hcolumns
  rw [hm']
  dsimp only
  rw [hrid]
  split
  swap
  · exact h.agree _
  obtain ⟨d, d', x, hd, hd', halike⟩ := (h.applies env (p.text (lit "target_signature"))
    (.str (p.text (lit "recipient_pubkey"))) (.str m.recipientId) (.str now.isoformat)).result
  simp only [hd, hd']
  cases x <;> exact halike.agree _

theorem Alike.doesDelete (h : Alike db db') (hpq : DeleteCopies env p q) (now : Datetime) (gate : Gate) :
    Agree (doDelete env now gate p db) (doDelete env now gate q db') := by
  unfold doDelete
  rw [hpq.validation]
  split
  · exact h.agree _
  split
  · exact h.agree _
  split
  · exact h.agree _
  obtain ⟨d, d', x, hd, hd', halike⟩ := (h.deletes hpq now).result
  simp only [hd, hd']
  cases x <;> exact halike.agree _

theorem Alike.syncs (h : Alike db db') (env : Env) (now : Datetime) (gate : Bool) (item : Dict) :
    Agree (syncDeletion env now gate item db) (syncDeletion env now gate item db') := by
  unfold syncDeletion
  split
  swap
  · exact h.agree _
  rename_i t ht
  cases gate with
  | false => exact h.agree _
  | true =>
    have hpulled : Agree (applyPulledDeletion env now item t db) (applyPulledDeletion env now item t db') := by
      unfold applyPulledDeletion
      rw [h.confirmed]
      split
      · exact h.agree _
      split
      · exact h.agree _
      obtain ⟨d, d', x, hd, hd', halike⟩ := (h.applies env t ((item.get (lit "requester_pubkey")).getD (.str []))
        ((item.get (lit "requester_recipient_id")).getD (.str []))
        (getOr item (lit "requested_at") (.str now.isoformat))).result
      simp only [hd, hd']
      cases x <;> exact halike.agree _
    obtain ⟨d, d', x, hd, hd', halike⟩ := hpulled.result
    simp only [hd, hd', if_true]
    rcases x with e | (_ | _) <;> exact halike.agree _

theorem Alike.sweeps (h : Alike db db') (env : Env) (now cutoffNow : Datetime) :
    Agree (runOnce env now cutoffNow db) (runOnce env now cutoffNow db') := by
  unfold runOnce
  split
  · exact h.agree _
  · rw [h.deletionRequests]
    exact (h.deleteWhere (fun c => decide (c.2.2.2.2.1 ≤ now.isoformat)) _).agree _

end

/-! ## Whole runs -/

/-- The operation `e'` handles a copy of what `e` handles. -/
inductive EventCopies (env : Env) : AtomicEvent → AtomicEvent → Prop
  | ingest {p q} (path now gate identityGate) : Copies env p q →
      EventCopies env (.ingest path p now gate identityGate) (.ingest path q now gate identityGate)
  | delete {p q} (now gate) : DeleteCopies env p q → EventCopies env (.delete p now gate) (.delete q now gate)
  | pullDeletion (item now gate) : EventCopies env (.pullDeletion item now gate) (.pullDeletion item now gate)
  | sweep (now cutoffNow) : EventCopies env (.sweep now cutoffNow) (.sweep now cutoffNow)

section
variable {env : Env}

/-- Relays that hold the same rows show the same on copies, and hold the same rows again. -/
theorem alike_step {db db' s : Db} {e e' : AtomicEvent} {o : AtomicObs} (h : Alike db db') (he : EventCopies env e e')
    (hstep : atomicStep env db e = some (s, o)) : ∃ s', atomicStep env db' e' = some (s', o) ∧ Alike s s' := by
  cases he with
  | ingest path now gate identityGate hpq =>
    obtain ⟨halike, hsame⟩ := h.ingests hpq path now gate identityGate
    cases hstep
    exact ⟨_, by rw [atomicStep, hsame], halike⟩
  | delete now gate hpq =>
    obtain ⟨halike, hsame⟩ := h.doesDelete hpq now gate
    cases hstep
    exact ⟨_, by rw [atomicStep, hsame], halike⟩
  | pullDeletion item now gate =>
    obtain ⟨halike, hsame⟩ := h.syncs env now gate item
    cases hstep
    exact ⟨_, by rw [atomicStep, hsame], halike⟩
  | sweep now cutoffNow =>
    obtain ⟨halike, hsame⟩ := h.sweeps env now cutoffNow
    cases hstep
    exact ⟨_, by rw [atomicStep, hsame], halike⟩

/-- A relay that handles copies shows what the relay shows that handles the originals. -/
theorem alike_run {h : List (AtomicEvent × AtomicObs)} {db : Db} (hrun : AtomicRun env h db) {es : List AtomicEvent}
    (hes : List.Forall₂ (EventCopies env) (h.map Prod.fst) es) :
    ∃ h' db', AtomicRun env h' db' ∧ h'.map Prod.fst = es ∧ h'.map Prod.snd = h.map Prod.snd ∧ Alike db db' :=
  hrun.simulate Alike (EventCopies env) (.refl _) (fun _ _ _ _ _ _ halike he hstep => alike_step halike he hstep) hes

end

end AetherNode.Hops
