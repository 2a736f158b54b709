import AetherNode.Answers
import AetherNode.Deletable
import AetherNode.Inbox
import AetherNode.Lib.Utf8
import AetherNode.Padding
import AetherNode.Timestamps
/-!
# What the client sends and shows

`cmd_send` encrypts a text for a key, signs the payload and posts it;
`cmd_fetch` shows what verifies of an inbox, and what of that it can decrypt.
The ciphers are a parameter. A payload of `cmd_send` is one of plain texts: it
travels as it is, the relay accepts it as long as its expiry is within the
window, and the recipient reads the text that was sent.
-/
open AetherNode.Lib AetherNode.Lib.Json AetherNode.Lib.JsonText AetherNode.Lib.JsonScan AetherNode.Lib.Reread
  AetherNode.Protocol AetherNode.RateLimit AetherNode.Padding AetherNode.Deletable AetherNode.Server AetherNode.Hops AetherNode.Served

namespace AetherNode.Client

/-! ## Encryption -/

/-- RSA-OAEP under the DER bytes of a public key and with a seed, and AES-256-GCM under a key and a nonce. -/
structure Ciphers where
  /-- `load_der_public_key` returns. -/
  loads : Bytes → Bool
  oaepEncrypt : Bytes → Bytes → Bytes → Except PyError Bytes
  gcmEncrypt : Bytes → Bytes → Bytes → Bytes
  gcmDecrypt : Bytes → Bytes → Bytes → Option Bytes
  oaepEncrypt_bytes : ∀ der seed k c, oaepEncrypt der seed k = .ok c → ∀ x ∈ c, x < 256
  gcmEncrypt_bytes : ∀ k nonce p, ∀ x ∈ gcmEncrypt k nonce p, x < 256

/-- An identity: a private key that also decrypts; `none` is an exception. -/
structure Identity extends PrivateKey where
  oaepDecrypt : Bytes → Option Bytes

/-- What `encrypt_message` draws: `os.urandom(32)`, `os.urandom(12)`, the filler, and the seed of OAEP. -/
structure Draws where
  aesKey : Bytes
  nonce : Bytes
  filler : Urandom
  seed : Bytes
  aesKey_length : aesKey.length = 32
  aesKey_bytes : ∀ x ∈ aesKey, x < 256
  nonce_length : nonce.length = 12
  nonce_bytes : ∀ x ∈ nonce, x < 256
  filler_bytes : ∀ n, ∀ x ∈ filler.1 n, x < 256

inductive EncryptError where
  | unicodeEncodeError
  | padding (e : PaddingError)
  | oaep (e : PyError)

structure Envelope where
  encryptedKey : Str
  nonce : Str
  ciphertext : Str

section
variable (ciphers : Ciphers)

/-- `b64_to_pubkey`, as the DER bytes of the key; `none` is an exception. -/
def b64ToPubkey (b64 : Str) : Option Bytes := (b64decode b64).filter ciphers.loads

def encryptMessage (draws : Draws) (plaintext : Str) (recipientPublicKey : Bytes) : Except EncryptError Envelope :=
  if !encodable plaintext then .error .unicodeEncodeError
  else
    match padPlaintext draws.filler (encode plaintext) with
    | .error e => .error (.padding e)
    | .ok padded =>
      match ciphers.oaepEncrypt recipientPublicKey draws.seed draws.aesKey with
      | .error e => .error (.oaep e)
      | .ok encryptedKey =>
        .ok ⟨b64encode encryptedKey, b64encode draws.nonce, b64encode (ciphers.gcmEncrypt draws.aesKey draws.nonce padded)⟩

end

/-! ## Sending -/

/-- How `cmd_send` gets to its request: it prints why not and exits, raises, or posts a payload. -/
inductive Sending where
  | invalidRecipient
  | failed (e : EncryptError)
  | raised (e : PyError)
  | posts (payload : Dict)

/-- `except ValueError`. -/
def EncryptError.sending : EncryptError → Sending
  | .padding .overflowError => .raised .overflowError
  | .oaep e => if e = .valueError then .failed (.oaep e) else .raised e
  | e => .failed e

/-- The payload of `cmd_send` before it is signed. -/
def unsignedMessage (senderB64 recipientId : Str) (enc : Envelope) (timestamp expiresAt : Datetime) : Dict :=
  [(lit "version", .str (lit "1")), (lit "sender_pubkey", .str senderB64), (lit "recipient_id", .str recipientId),
    (lit "encrypted_key", .str enc.encryptedKey), (lit "nonce", .str enc.nonce), (lit "ciphertext", .str enc.ciphertext),
    (lit "timestamp", .str timestamp.isoformat), (lit "expires_at", .str expiresAt.isoformat)]

def signedMessage (privateKey : PrivateKey) (salt : Bytes) (recipientId : Str) (enc : Envelope) (timestamp expiresAt : Datetime) :
    Dict :=
  let payload := unsignedMessage (pubkeyToB64 privateKey) recipientId enc timestamp expiresAt
  payload ++ [(lit "signature", .str (signPayload payload privateKey salt))]

/-- `cmd_send` up to its `_http_post`. -/
def cmdSend (hmac : Hmac) (ciphers : Ciphers) (privateKey : PrivateKey) (draws : Draws) (salt : Bytes) (now : Datetime)
    (recipientB64 message : Str) (ttlSeconds : Int) : Sending :=
  match b64decode recipientB64, b64ToPubkey ciphers recipientB64 with
  | some recipientDer, some recipientPublicKey =>
    match encryptMessage ciphers draws message recipientPublicKey with
    | .error e => e.sending
    | .ok enc =>
      match now.addSeconds ttlSeconds with
      | none => .raised .overflowError
      | some expiresAt =>
        .posts (signedMessage privateKey salt (blindRecipientId hmac recipientDer (dayBucket now)) enc now expiresAt)
  | _, _ => .invalidRecipient

/-! ## Fetching -/

/-- `verify_payload_signature`. -/
def verifyPayloadSignature (rsaPss : Bytes → Bytes → Str → Bool) (payload : Dict) : Bool :=
  verifySignature rsaPss payload (lit "sender_pubkey")

/-- What `cmd_fetch` prints of a message: that its signature is invalid, that it cannot be decrypted, or its text. -/
inductive Shown where
  | invalid
  | undecryptable
  | content (plaintext : Str)

section
variable (rsaPss : Bytes → Bytes → Str → Bool) (ciphers : Ciphers) (privateKey : Identity)

end

/-- The days of `_candidate_recipient_ids` are those of an integer. -/
def maxTtlSeconds : Json → Except PyError Int
  | .int z => .ok z
  | .bool b => .ok (if b then 1 else 0)
  | _ => .error .typeError

/-- Every field is a text, and none is there twice. -/
structure Texts (p : Dict) : Prop where
  keys : (p.map Prod.fst).Nodup
  fields : ∀ kv ∈ p, IsText kv.1 ∧ ∃ s, kv.2 = .str s ∧ IsText s

section
variable {p : Dict} {repr : FloatLiteral → Str} {dec : Decoder}

/-- Such a payload travels as it is. -/
theorem Texts.hop_eq (h : Texts p) : hop p = p := by
  apply Json.obj.inj
  rw [← reread_payload]
  apply fixed_obj h.keys
  intro kv hkv
  obtain ⟨hkey, s, hs, htext⟩ := h.fields kv hkv
  rw [hs]
  exact ⟨hkey.1, fixed_str htext.1⟩

theorem Texts.readable (h : Texts p) {n : Nat} (hn : 0 < n) : Readable repr (.obj p) n := by
  refine ⟨hn, readableItems_iff.2 fun kv hkv => ?_⟩
  obtain ⟨hkey, s, hs, htext⟩ := h.fields kv hkv
  rw [hs]
  exact ⟨hkey.2, htext.2⟩

/-- It is read as it was printed. -/
theorem Texts.loads_eq (h : Texts p) (hascii : ReadsAscii dec) (hnesting : 0 < dec.nesting) :
    loads dec (encode (dumpsDefault (.obj p))) = .ok (.obj p) := by
  have hread : Readable dec.repr (.obj p) dec.nesting := h.readable hnesting
  rw [loads_encode_dumps hascii hread, loads_dumps hread, reread_payload, h.hop_eq]

/-- A printed body that fits is received. -/
theorem received_printed {h : Handler} (hcap : h.reading.cap = maxBodyBytes)
    (hfits : (encode (dumpsDefault (.obj p))).length ≤ maxBodyBytes) :
    (h.reading.run (some (Requests.lengthHeader (encode (dumpsDefault (.obj p))))) (encode (dumpsDefault (.obj p)))).received =
      .body (encode (dumpsDefault (.obj p))) := by
  have hlong : maxBodyBytes < 10 ^ 6 := by decide
  rw [Requests.Handler.run_eq, hcap]
  exact (Forward.receive_sent (Forward.fanoutBody_ne_nil p) (Nat.lt_of_le_of_lt hfits hlong)).trans (if_pos hfits)

/-- A body that is read as it was printed gets to its handler, if it fits. -/
theorem doPost_printed {env : Env} {platform : Platform} {clock : Readings} {s : State} {h : Handler}
    (hcap : h.reading.cap = maxBodyBytes) (hloads : loads platform.decoder (encode (dumpsDefault (.obj p))) = .ok (.obj p))
    (hfits : (encode (dumpsDefault (.obj p))).length ≤ maxBodyBytes) :
    doPost env platform clock h (some (Requests.lengthHeader (encode (dumpsDefault (.obj p)))))
      (encode (dumpsDefault (.obj p))) s = h.run env platform clock (.obj p) s := by
  rw [doPost, received_printed hcap hfits]
  simp only [hloads]

end

theorem isText_b64encode (bs : Bytes) : IsText (b64encode bs) := .of_ascii (ascii_b64encode bs)

/-! ## What is sent is what is read -/

section
variable {ciphers : Ciphers} {draws : Draws} {plaintext : Str} {der : Bytes} {enc : Envelope}

/-- What an envelope holds. -/
structure Encrypted (ciphers : Ciphers) (draws : Draws) (plaintext : Str) (der : Bytes) (enc : Envelope) (padded key : Bytes) :
    Prop where
  encodes : encodable plaintext = true
  pads : padPlaintext draws.filler (encode plaintext) = .ok padded
  wraps : ciphers.oaepEncrypt der draws.seed draws.aesKey = .ok key
  eq : enc = ⟨b64encode key, b64encode draws.nonce, b64encode (ciphers.gcmEncrypt draws.aesKey draws.nonce padded)⟩

theorem encryptMessage_ok (h : encryptMessage ciphers draws plaintext der = .ok enc) :
    ∃ padded key, Encrypted ciphers draws plaintext der enc padded key := by
  unfold encryptMessage at h
  split at h
  · cases h
  rename_i hencodable
  split at h
  · cases h
  rename_i padded hpadded
  split at h
  · cases h
  rename_i key hkey
  cases h
  exact ⟨padded, key, by simpa using hencodable, hpadded, hkey, rfl⟩

end

/-! ### The payload of `cmd_send` -/

section
variable {privateKey : PrivateKey} {salt : Bytes} {recipientId : Str} {enc : Envelope} {now expiresAt : Datetime}
  {rsaPss : Bytes → Bytes → Str → Bool}

theorem signedMessage_verified (hkey : privateKey.Accepted rsaPss) :
    verifyPayloadSignature rsaPss (signedMessage privateKey salt recipientId enc now expiresAt) = true := by
  have hsignature : decodeField (signedMessage privateKey salt recipientId enc now expiresAt) (lit "signature") =
      some (privateKey.sign salt (canonical (.obj (unsignedMessage (pubkeyToB64 privateKey) recipientId enc now expiresAt)))) :=
    b64decode_b64encode (privateKey.sign_bytes _ _)
  have hpubkey : decodeField (signedMessage privateKey salt recipientId enc now expiresAt) (lit "sender_pubkey") =
      some privateKey.publicDer :=
    b64decode_b64encode privateKey.publicDer_bytes
  have hcontent : signedContent (signedMessage privateKey salt recipientId enc now expiresAt) =
      unsignedMessage (pubkeyToB64 privateKey) recipientId enc now expiresAt := rfl
  simp only [verifyPayloadSignature, verifySignature, hsignature, hpubkey, hcontent]
  exact hkey _ _

/-- The window of a relay at `t`. -/
structure WithinWindow (env : Env) (t expiresAt : Datetime) : Prop where
  earliest : ∃ lo, t.addSeconds env.minTtlSeconds = some lo ∧ lo ≤ expiresAt
  latest : ∃ hi, t.addSeconds env.maxTtlSeconds = some hi ∧ expiresAt ≤ hi

/-- The relay accepts the payload exactly when its expiry is within the window. -/
theorem validate_signedMessage {env : Env} (hv : env.verifier = rsaVerifier rsaPss) (hkey : privateKey.Accepted rsaPss)
    (hrecipient : 0 < recipientId.length ∧ recipientId.length ≤ maxRecipientIdLen) (t : Datetime) :
    validatePublishPayload env t (signedMessage privateKey salt recipientId enc now expiresAt) = .ok none ↔
      WithinWindow env t expiresAt := by
  have hread := fromisoformat_isoformat expiresAt
  have hverified : env.verifier.verify (signedMessage privateKey salt recipientId enc now expiresAt) (lit "sender_pubkey") = true := by
    rw [hv]
    exact signedMessage_verified hkey
  rw [validatePublishPayload_none]
  constructor
  · rintro ⟨-, -, ⟨raw, e, hraw, hexpiry⟩, -⟩
    cases hraw
    have hsame := hexpiry.parses
    rw [hread] at hsame
    cases hsame
    exact ⟨hexpiry.earliest, hexpiry.latest⟩
  · intro hwindow
    exact ⟨rfl, ⟨recipientId, rfl, hrecipient⟩, ⟨expiresAt.isoformat, expiresAt, rfl, hread, hwindow.earliest, hwindow.latest⟩,
      hverified⟩

end

/-! ### Texts that are printed as they are -/

/-- The characters of a text are printed as they are. -/
def Unquoted (s : Str) : Prop := ∀ c ∈ s, 32 ≤ c ∧ c ≤ 126 ∧ c ≠ 34 ∧ c ≠ 92

theorem Unquoted.append {s t : Str} (hs : Unquoted s) (ht : Unquoted t) : Unquoted (s ++ t) := List.forall_mem_append.2 ⟨hs, ht⟩

/-- A text that is written out. -/
theorem unquoted_of_all {s : Str} (h : (s.all fun c => Nat.ble 32 c && Nat.ble c 126 && c != 34 && c != 92) = true) : Unquoted s := by
  intro c hc
  have hboth := List.all_eq_true.1 h c hc
  simpa [and_assoc] using hboth

theorem unquoted_b64encode {bs : Bytes} (hbytes : ∀ x ∈ bs, x < 256) : Unquoted (b64encode bs) := by
  have hchar : ∀ v < 64, 32 ≤ sextetChar v ∧ sextetChar v ≤ 126 ∧ sextetChar v ≠ 34 ∧ sextetChar v ≠ 92 := by decide
  induction bs using b64encode.induct with
  | case1 => exact unquoted_of_all rfl
  | case2 a =>
    have ha := hbytes a (by simp)
    have hfirst := hchar (a / 4) (by omega)
    have hsecond := hchar (a % 4 * 16) (by omega)
    simp [b64encode, Unquoted, hfirst, hsecond]
  | case3 a b =>
    have ha := hbytes a (by simp)
    have hb := hbytes b (by simp)
    have hfirst := hchar (a / 4) (by omega)
    have hsecond := hchar (a % 4 * 16 + b / 16) (by omega)
    have hthird := hchar (b % 16 * 4) (by omega)
    simp [b64encode, Unquoted, hfirst, hsecond, hthird]
  | case4 a b c l ih =>
    have ha := hbytes a (by simp)
    have hb := hbytes b (by simp)
    have hc := hbytes c (by simp)
    have hfirst := hchar (a / 4) (by omega)
    have hsecond := hchar (a % 4 * 16 + b / 16) (by omega)
    have hthird := hchar (b % 16 * 4 + c / 64) (by omega)
    have hfourth := hchar (c % 64) (by omega)
    have hrest := ih fun x hx => hbytes x (by simp [hx])
    rw [b64encode]
    simp only [Unquoted, List.forall_mem_cons]
    exact ⟨hfirst, hsecond, hthird, hfourth, hrest⟩

theorem unquoted_isoformat (t : Datetime) : Unquoted t.isoformat := by
  have hpad : ∀ w n, Unquoted (pad w n) := by
    intro w n
    apply unquoted_of_all
    refine all_pad (fun d hd => ?_) w n
    simp only [Bool.and_eq_true, Nat.ble_eq, bne_iff_ne]
    omega
  have hfraction : Unquoted t.fractionText := by
    unfold Datetime.fractionText
    split
    · exact unquoted_of_all rfl
    · exact (unquoted_of_all rfl).append (hpad _ _)
  have hdash : Unquoted (lit "-") := unquoted_of_all rfl
  have hcolon : Unquoted (lit ":") := unquoted_of_all rfl
  have hdate : Unquoted t.dateText := (((hpad _ _).append hdash).append (hpad _ _)).append hdash |>.append (hpad _ _)
  have htime : Unquoted t.timeText := (((hpad _ _).append hcolon).append (hpad _ _)).append hcolon |>.append (hpad _ _)
  exact (((hdate.append (unquoted_of_all rfl)).append htime).append hfraction).append (unquoted_of_all rfl)

/-- The fields of the payload that `cmd_send` posts. -/
def messageFields (senderB64 recipientId : Str) (enc : Envelope) (timestamp expiresAt : Datetime) (signature : Str) : List (Str × Str) :=
  [(lit "version", lit "1"), (lit "sender_pubkey", senderB64), (lit "recipient_id", recipientId),
    (lit "encrypted_key", enc.encryptedKey), (lit "nonce", enc.nonce), (lit "ciphertext", enc.ciphertext),
    (lit "timestamp", timestamp.isoformat), (lit "expires_at", expiresAt.isoformat), (lit "signature", signature)]

/-! ### What is posted -/

/-- The parts of a payload that `cmd_send` posts. -/
structure Posted (hmac : Hmac) (ciphers : Ciphers) (privateKey : PrivateKey) (draws : Draws) (salt : Bytes) (now : Datetime)
    (recipientB64 message : Str) (ttlSeconds : Int) (p : Dict) (der : Bytes) (enc : Envelope) (expiresAt : Datetime) : Prop where
  decodes : b64decode recipientB64 = some der
  encrypts : encryptMessage ciphers draws message der = .ok enc
  expires : now.addSeconds ttlSeconds = some expiresAt
  eq : p = signedMessage privateKey salt (blindRecipientId hmac der (dayBucket now)) enc now expiresAt

section
variable {hmac : Hmac} {ciphers : Ciphers} {privateKey : PrivateKey} {draws : Draws} {salt : Bytes} {now expiresAt : Datetime}
  {recipientB64 message : Str} {ttlSeconds : Int} {p : Dict} {der : Bytes} {enc : Envelope}

theorem cmdSend_posts (h : cmdSend hmac ciphers privateKey draws salt now recipientB64 message ttlSeconds = .posts p) :
    ∃ der enc expiresAt, Posted hmac ciphers privateKey draws salt now recipientB64 message ttlSeconds p der enc expiresAt := by
  unfold cmdSend at h
  split at h
  · rename_i der key hder hkey
    have hsame : key = der := by
      rw [b64ToPubkey, hder] at hkey
      exact (Option.some.inj (Option.filter_eq_some_iff.1 hkey).1).symm
    subst hsame
    split at h
    · rename_i e _
      cases e with
      | unicodeEncodeError => cases h
      | padding e => cases e <;> cases h
      | oaep e =>
        simp only [EncryptError.sending] at h
        split at h <;> cases h
    rename_i enc henc
    split at h
    · cases h
    rename_i expiresAt hexpires
    exact ⟨key, enc, expiresAt, hder, henc, hexpires, (Sending.posts.inj h).symm⟩
  · cases h

/-- Every field is a text that is printed as it is. -/
theorem Posted.fields (hhex : Inbox.HexDigests hmac)
    (h : Posted hmac ciphers privateKey draws salt now recipientB64 message ttlSeconds p der enc expiresAt) :
    ∃ text fields, fields = messageFields (pubkeyToB64 privateKey) (blindRecipientId hmac der (dayBucket now)) enc now expiresAt
        (b64encode (privateKey.sign salt text)) ∧
      p = fields.map (fun kv => (kv.1, .str kv.2)) ∧ ∀ kv ∈ fields, Unquoted kv.1 ∧ Unquoted kv.2 := by
  obtain ⟨padded, key, henc⟩ := encryptMessage_ok h.encrypts
  refine ⟨canonical (.obj (unsignedMessage (pubkeyToB64 privateKey) (blindRecipientId hmac der (dayBucket now)) enc now expiresAt)),
    _, rfl, h.eq, ?_⟩
  have hname : ∀ name ∈ [lit "version", lit "sender_pubkey", lit "recipient_id", lit "encrypted_key", lit "nonce", lit "ciphertext",
      lit "timestamp", lit "expires_at", lit "signature", lit "1"], Unquoted name := by
    simp only [List.forall_mem_cons, List.not_mem_nil, false_implies, implies_true, and_true]
    refine ⟨?_, ?_, ?_, ?_, ?_, ?_, ?_, ?_, ?_, ?_⟩ <;> exact unquoted_of_all rfl
  have hrecipient : Unquoted (blindRecipientId hmac der (dayBucket now)) := fun c hc => by
    have := (hhex der (dayBucket now)).2 c hc
    omega
  simp only [messageFields, List.forall_mem_cons, List.not_mem_nil, false_implies, implies_true, and_true] at hname ⊢
  simp only [hname, true_and, hrecipient, unquoted_isoformat, henc.eq]
  exact ⟨unquoted_b64encode privateKey.publicDer_bytes, unquoted_b64encode (ciphers.oaepEncrypt_bytes _ _ _ _ henc.wraps),
    unquoted_b64encode draws.nonce_bytes, unquoted_b64encode (ciphers.gcmEncrypt_bytes _ _ _),
    unquoted_b64encode (privateKey.sign_bytes _ _)⟩

theorem Unquoted.isText {s : Str} (h : Unquoted s) : IsText s := .of_ascii fun c hc => by
  have := h c hc
  omega

theorem Unquoted.small {s : Str} (h : Unquoted s) : ∀ c ∈ s, c < 0x10000 := fun c hc => by
  have := h c hc
  omega

theorem Unquoted.rejoin_eq {s : Str} (h : Unquoted s) : rejoin s = s := rejoin_of_joined (joined_of_encodable h.isText.1)

theorem Posted.texts (hhex : Inbox.HexDigests hmac)
    (h : Posted hmac ciphers privateKey draws salt now recipientB64 message ttlSeconds p der enc expiresAt) : Texts p := by
  obtain ⟨text, fields, rfl, rfl, hfields⟩ := h.fields hhex
  constructor
  · simp [messageFields, lit]
  · intro kv hkv
    obtain ⟨field, hfield, rfl⟩ := List.mem_map.1 hkv
    exact ⟨(hfields field hfield).1.isText, field.2, rfl, (hfields field hfield).2.isText⟩

end

/-! ### A sample message -/

/-- Ciphers of the sizes of the real ones, with nothing secret. -/
def sampleCiphers : Ciphers where
  loads _ := true
  oaepEncrypt _ _ k := .ok ((k.map (· % 256) ++ List.replicate 256 0).take 256)
  gcmEncrypt _ _ p := p.map (· % 256) ++ List.replicate 16 0
  gcmDecrypt _ _ c := some (c.take (c.length - 16))
  oaepEncrypt_bytes der seed k c h := by
    cases h
    intro x hx
    rcases List.mem_append.1 (List.mem_of_mem_take hx) with hx | hx
    · obtain ⟨y, -, rfl⟩ := List.mem_map.1 hx
      exact Nat.mod_lt y (Nat.succ_pos 255)
    · rw [List.eq_of_mem_replicate hx]
      exact Nat.succ_pos 255
  gcmEncrypt_bytes k nonce p x hx := by
    rcases List.mem_append.1 hx with hx | hx
    · obtain ⟨y, -, rfl⟩ := List.mem_map.1 hx
      exact Nat.mod_lt y (Nat.succ_pos 255)
    · rw [List.eq_of_mem_replicate hx]
      exact Nat.succ_pos 255

/-- Digests that tell the recipient's key from every other. -/
def sampleHmac : Hmac where
  hexdigest k m := if k = Inbox.ownerKey then Inbox.digest k m else List.replicate 64 102
  hex k m := by
    split
    · exact Inbox.digest_encodable k m
    · rfl

theorem hexDigests_sampleHmac : Inbox.HexDigests sampleHmac := by
  intro k m
  unfold sampleHmac
  dsimp only
  split
  · exact Inbox.digest_hex k m
  · refine ⟨List.length_replicate, fun c hc => ?_⟩
    rw [List.eq_of_mem_replicate hc]
    omega

/-- A relay that keeps messages for thirty days. -/
def sampleEnv : Env := { Inbox.retaining 30 with hmac := sampleHmac }

/-- A sender with a key and signatures of RSA-2048. -/
def sampleSender : PrivateKey where
  publicDer := List.replicate 294 7
  sign _ _ := List.replicate 256 1
  publicDer_bytes x hx := by
    rw [List.eq_of_mem_replicate hx]
    omega
  sign_bytes _ _ x hx := by
    rw [List.eq_of_mem_replicate hx]
    omega

theorem ownerKey_bytes : ∀ x ∈ Inbox.ownerKey, x < 256 := by simp [Inbox.ownerKey]

theorem bytes_one : ∀ x ∈ [1], x < 256 := by simp

def sampleRecipient : Identity where
  publicDer := Inbox.ownerKey
  sign _ _ := [1]
  publicDer_bytes := ownerKey_bytes
  sign_bytes _ _ := bytes_one
  oaepDecrypt c := some (c.take 32)

def sampleDraws : Draws where
  aesKey := List.replicate 32 5
  nonce := List.replicate 12 6
  filler := ⟨fun n => List.replicate n 0, fun _ => List.length_replicate⟩
  seed := []
  aesKey_length := rfl
  aesKey_bytes x hx := by
    rw [List.eq_of_mem_replicate hx]
    omega
  nonce_length := rfl
  nonce_bytes x hx := by
    rw [List.eq_of_mem_replicate hx]
    omega
  filler_bytes n x hx := by
    rw [List.eq_of_mem_replicate hx]
    omega

/-- The payload that is posted. -/
def Sending.payload? : Sending → Option Dict
  | .posts p => some p
  | _ => none

theorem posts_of_payload {x : Sending} {p : Dict} (h : x.payload? = some p) : x = .posts p := by
  cases x <;> cases h
  rfl

/-- `cmd_send` to the sample recipient, for a day. -/
def sampleSending : Sending :=
  cmdSend sampleHmac sampleCiphers sampleSender sampleDraws [] Sample.noon (b64encode Inbox.ownerKey) (lit "hello") 86400

def sampleSent : Dict := sampleSending.payload?.getD []

theorem sample_sent : sampleSending = .posts sampleSent := by
  have hsome : sampleSending.payload?.isSome = true := by decide +kernel
  obtain ⟨p, hp⟩ := Option.isSome_iff_exists.1 hsome
  rw [sampleSent, hp, posts_of_payload hp]
  rfl

/-! ### How long a request is -/

theorem length_b64encode (bs : Bytes) : (b64encode bs).length = 4 * ((bs.length + 2) / 3) := by
  induction bs using b64encode.induct with
  | case1 => rfl
  | case2 a => simp [b64encode]
  | case3 a b => simp [b64encode]
  | case4 a b c l ih =>
    simp only [b64encode, List.length_cons, ih]
    omega

/-- The length of an object of texts that are printed as they are: each has its quotes, and there is a colon and a comma. -/
theorem length_object {fields : List (Str × Str)} (hfields : ∀ kv ∈ fields, Unquoted kv.1 ∧ Unquoted kv.2) :
    (encode (dumpsDefault (.obj (fields.map fun kv => (kv.1, .str kv.2))))).length =
      (fields.map fun kv => kv.1.length + kv.2.length + 6).sum + (fields.length - 1) * 2 + 2 := by
  have hitems : (dumpsItems (lit ", ") (lit ": ") (fields.map fun kv => (kv.1, .str kv.2))).map (fun x => (encode x).length) =
      fields.map fun kv => kv.1.length + kv.2.length + 6 := by
    induction fields with
    | nil => rfl
    | cons kv fields ih =>
      obtain ⟨⟨hkey, hvalue⟩, hrest⟩ := List.forall_mem_cons.1 hfields
      have hcolon : (encode (lit ": ")).length = 2 := by decide
      have hitem : (encode (quote kv.1 ++ lit ": " ++ dumps (lit ", ") (lit ": ") (.str kv.2))).length =
          kv.1.length + kv.2.length + 6 := by
        rw [dumps, encode_append, encode_append, List.length_append, List.length_append, length_encode_quote hkey,
          length_encode_quote hvalue, hcolon]
        omega
      rw [List.map_cons, dumpsItems, List.map_cons, ih hrest, hitem, List.map_cons]
  have hcount : (dumpsItems (lit ", ") (lit ": ") (fields.map fun kv => (kv.1, .str kv.2))).length = fields.length := by
    simpa using congrArg List.length hitems
  have hopen : (encode (lit "\x7b")).length = 1 := by decide
  have hclose : (encode (lit "\x7d")).length = 1 := by decide
  have hsep : (encode (lit ", ")).length = 2 := by decide
  rw [dumpsDefault, dumps, encode_append, encode_append, List.length_append, List.length_append, length_encode_join, hitems,
    hcount, hopen, hclose, hsep]
  omega

theorem length_messageFields (senderB64 recipientId : Str) (enc : Envelope) (timestamp expiresAt : Datetime) (signature : Str) :
    ((messageFields senderB64 recipientId enc timestamp expiresAt signature).map fun kv => kv.1.length + kv.2.length + 6).sum =
      143 + senderB64.length + recipientId.length + enc.encryptedKey.length + enc.nonce.length + enc.ciphertext.length +
        timestamp.isoformat.length + expiresAt.isoformat.length + signature.length := by
  have hnames : (lit "version").length = 7 ∧ (lit "sender_pubkey").length = 13 ∧ (lit "recipient_id").length = 12 ∧
      (lit "encrypted_key").length = 13 ∧ (lit "nonce").length = 5 ∧ (lit "ciphertext").length = 10 ∧
      (lit "timestamp").length = 9 ∧ (lit "expires_at").length = 10 ∧ (lit "signature").length = 9 ∧ (lit "1").length = 1 := by
    decide
  simp only [messageFields, List.map_cons, List.map_nil, List.sum_cons, List.sum_nil, hnames]
  omega

/-- The sizes of RSA-2048, for the key of the sender and for that of the recipient, and of the tag of AES-GCM. -/
structure Rsa2048 (ciphers : Ciphers) (privateKey : PrivateKey) (recipientB64 : Str) : Prop where
  publicDer : privateKey.publicDer.length = 294
  sign : ∀ salt text, (privateKey.sign salt text).length = 256
  oaep : ∀ der seed k c, b64decode recipientB64 = some der → ciphers.oaepEncrypt der seed k = .ok c → c.length = 256
  gcm : ∀ k nonce p, (ciphers.gcmEncrypt k nonce p).length = p.length + 16

section
variable {hmac : Hmac} {ciphers : Ciphers} {privateKey : PrivateKey} {draws : Draws} {salt : Bytes} {now expiresAt : Datetime}
  {recipientB64 message : Str} {ttlSeconds : Int} {p : Dict} {der : Bytes} {enc : Envelope}

/-- The length of a request is that of its ciphertext, its timestamps and 1321 bytes. -/
theorem Posted.length_eq (hhex : Inbox.HexDigests hmac) (hsizes : Rsa2048 ciphers privateKey recipientB64)
    (h : Posted hmac ciphers privateKey draws salt now recipientB64 message ttlSeconds p der enc expiresAt) :
    ∃ bucket, IsLeast (holding (encode message).length) bucket ∧ (encode (dumpsDefault (.obj p))).length =
      4 * ((bucket + 16 + 2) / 3) + 1321 + now.isoformat.length + expiresAt.isoformat.length := by
  obtain ⟨padded, key, henc⟩ := encryptMessage_ok h.encrypts
  obtain ⟨text, fields, rfl, hp, hfields⟩ := h.fields hhex
  have hnine : ∀ (senderB64 recipientId : Str) (timestamp : Datetime) (signature : Str),
      (messageFields senderB64 recipientId enc timestamp expiresAt signature).length = 9 := fun _ _ _ _ => rfl
  have hrid : (blindRecipientId hmac der (dayBucket now)).length = 64 := (hhex der (dayBucket now)).1
  refine ⟨padded.length, pad_length henc.pads, ?_⟩
  rw [hp, length_object hfields, length_messageFields, hnine, hrid, henc.eq, pubkeyToB64, length_b64encode, length_b64encode,
    length_b64encode, length_b64encode, length_b64encode, hsizes.publicDer, hsizes.oaep _ _ _ _ h.decodes henc.wraps,
    hsizes.gcm, draws.nonce_length, hsizes.sign]
  omega

theorem length_isoformat_bounds (t : Datetime) : 25 ≤ t.isoformat.length ∧ t.isoformat.length ≤ 32 := by
  rw [Timestamps.length_isoformat]
  split <;> omega

theorem mem_padBuckets {bucket : Nat} : bucket ∈ padBuckets ↔ bucket = 4096 ∨ bucket = 16384 ∨ bucket = 65536 := by
  have hbuckets : padBuckets = [4096, 16384, 65536] := by decide
  simp [hbuckets]

/-- What is posted is within the cap of a relay. -/
theorem Posted.fits (hhex : Inbox.HexDigests hmac) (hsizes : Rsa2048 ciphers privateKey recipientB64)
    (h : Posted hmac ciphers privateKey draws salt now recipientB64 message ttlSeconds p der enc expiresAt) :
    (encode (dumpsDefault (.obj p))).length ≤ maxBodyBytes := by
  obtain ⟨bucket, hleast, hlength⟩ := h.length_eq hhex hsizes
  have hnow := length_isoformat_bounds now
  have hexpires := length_isoformat_bounds expiresAt
  have hcap : maxBodyBytes = 133086 := by decide
  rw [hlength, hcap]
  rcases mem_padBuckets.1 hleast.1.1 with rfl | rfl | rfl <;> omega

/-- A body that `cmd_send` posts is within the cap of a relay, though with the largest padding it is longer than
`MAX_PUBLISH_BODY_BYTES`. -/
theorem send_fits (hhex : Inbox.HexDigests hmac) (hsizes : Rsa2048 ciphers privateKey recipientB64)
    (hsend : cmdSend hmac ciphers privateKey draws salt now recipientB64 message ttlSeconds = .posts p) :
    (encode (dumpsDefault (.obj p))).length ≤ maxBodyBytes ∧
      (maxPublishBodyBytes < (encode (dumpsDefault (.obj p))).length ↔ 16 * 1024 < (encode message).length + lenPrefixSize) := by
  obtain ⟨der, enc, expiresAt, hposted⟩ := cmdSend_posts hsend
  refine ⟨hposted.fits hhex hsizes, ?_⟩
  obtain ⟨bucket, hleast, hlength⟩ := hposted.length_eq hhex hsizes
  have hnow := length_isoformat_bounds now
  have hexpires := length_isoformat_bounds expiresAt
  have hmax : maxPublishBodyBytes = 88724 := by decide
  have hsmallest : bucket ≤ 16384 ↔ (encode message).length + lenPrefixSize ≤ 16384 := by
    constructor
    · exact hleast.1.2.trans
    · intro hfits
      exact hleast.2 ⟨mem_padBuckets.2 (.inr (.inl rfl)), hfits⟩
  rw [hlength, hmax]
  rcases mem_padBuckets.1 hleast.1.1 with rfl | rfl | rfl <;> omega

theorem sample_sizes : Rsa2048 sampleCiphers sampleSender (b64encode sampleRecipient.publicDer) where
  publicDer := List.length_replicate
  sign _ _ := List.length_replicate
  oaep der seed k c _ h := by
    cases h
    rw [List.length_take, List.length_append, List.length_replicate]
    omega
  gcm k nonce p := by
    unfold sampleCiphers
    rw [List.length_append, List.length_map, List.length_replicate]

theorem send_fits_sample : (encode (dumpsDefault (.obj sampleSent))).length ≤ maxBodyBytes ∧
    (maxPublishBodyBytes < (encode (dumpsDefault (.obj sampleSent))).length ↔
      16 * 1024 < (encode (lit "hello")).length + lenPrefixSize) :=
  send_fits hexDigests_sampleHmac sample_sizes sample_sent

/-- What `cmd_send` posts gets through to the ingestion of a relay as it is, and passes its validation exactly when the
expiry is within the window by the clock of the relay. -/
theorem send_accepted_iff {env : Env} {platform : Platform} {rsaPss : Bytes → Bytes → Str → Bool}
    (hv : env.verifier = rsaVerifier rsaPss) (hkey : privateKey.Accepted rsaPss) (hascii : ReadsAscii platform.decoder)
    (hnesting : 0 < platform.decoder.nesting) (hhex : Inbox.HexDigests hmac) (hsizes : Rsa2048 ciphers privateKey recipientB64)
    (hsend : cmdSend hmac ciphers privateKey draws salt now recipientB64 message ttlSeconds = .posts p) (clock : Readings)
    (s : State) :
    doPost env platform clock .publish (some (Requests.lengthHeader (encode (dumpsDefault (.obj p)))))
        (encode (dumpsDefault (.obj p))) s = RelayHandler.publishObject env platform clock p s ∧
      (validatePublishPayload env clock.now p = .ok none ↔
        ∃ expiresAt, now.addSeconds ttlSeconds = some expiresAt ∧ WithinWindow env clock.now expiresAt) := by
  obtain ⟨der, enc, expiresAt, hposted⟩ := cmdSend_posts hsend
  constructor
  · exact doPost_printed rfl ((hposted.texts hhex).loads_eq hascii hnesting) (hposted.fits hhex hsizes)
  · have hrid := hhex der (dayBucket now)
    have hrecipient : 0 < (blindRecipientId hmac der (dayBucket now)).length ∧
        (blindRecipientId hmac der (dayBucket now)).length ≤ maxRecipientIdLen := by
      rw [blindRecipientId, hrid.1]
      decide
    rw [hposted.eq, validate_signedMessage hv hkey hrecipient, hposted.expires]
    simp

/-- A relay that reads its clock when the client does takes the sample message. -/
theorem send_accepted_sample : validatePublishPayload sampleEnv Sample.noon sampleSent = .ok none := by
  have hexpires : Sample.noon.addSeconds 86400 = some Sample.nextNoon := by decide +kernel
  have hearliest : (Sample.noon.addSeconds 60).any (fun lo => decide (lo ≤ Sample.nextNoon)) = true := by decide +kernel
  have hlatest : (Sample.noon.addSeconds 2592000).any (fun hi => decide (Sample.nextNoon ≤ hi)) = true := by decide +kernel
  obtain ⟨lo, hlo, hle⟩ := (Option.any_eq_true _ _).1 hearliest
  obtain ⟨hi, hhi, hge⟩ := (Option.any_eq_true _ _).1 hlatest
  have hverifier : sampleEnv.verifier = rsaVerifier fun _ _ _ => true := rfl
  have hkey : sampleSender.Accepted fun _ _ _ => true := fun _ _ => rfl
  exact (send_accepted_iff hverifier hkey Answers.reads_usual.ascii (Nat.zero_lt_of_lt Answers.reads_usual.nesting)
    hexDigests_sampleHmac sample_sizes sample_sent noonReadings ⟨.empty, .new burst 0, .new burst 0⟩).2.2
      ⟨Sample.nextNoon, hexpires, ⟨lo, hlo, of_decide_eq_true hle⟩, ⟨hi, hhi, of_decide_eq_true hge⟩⟩

end

end AetherNode.Client
