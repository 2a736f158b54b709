import AetherNode.Fromisoformat
import AetherNode.Protocol
/-!
# Validating publish and delete payloads

`_validate_publish_payload` and `_validate_delete_payload`: `none` accepts, a
text says what is wrong, and date arithmetic outside the years 1 to 9999
raises. Signature verification is a parameter of the relay; `verifySignature`
is the relay's own, over the RSA-PSS check of the cryptography library.
-/
open AetherNode.Lib AetherNode.Lib.Json AetherNode.Protocol

namespace AetherNode

/-- What a section of the relay may raise. -/
inductive PyError where
  | overflowError
  | unicodeEncodeError
  | integrityError
  | unsupportedType
  | binasciiError
  | attributeError
  | valueError
  | typeError
  | keyError
  | sslError
  deriving DecidableEq

/-! ## Signatures -/

/-- `verify_signature`: the payload and the field of the public key. Whatever accepts has decoded
both texts with `b64decode`, so a verified payload carries two texts that decode. -/
structure Verifier where
  verify : Dict → Str → Bool
  signature_decodes : ∀ p f, verify p f = true → ∃ s b, p.get (lit "signature") = some (.str s) ∧ b64decode s = some b
  pubkey_decodes : ∀ p f, verify p f = true → ∃ k b, p.get f = some (.str k) ∧ b64decode k = some b

/-- A signature string verifies for one message: its recipient and its expiry are determined. -/
def OneMessagePerSignature (v : Verifier) : Prop :=
  ∀ p q, v.verify p (lit "sender_pubkey") = true → v.verify q (lit "sender_pubkey") = true →
    p.text (lit "signature") = q.text (lit "signature") →
    p.text (lit "recipient_id") = q.text (lit "recipient_id") ∧ p.text (lit "expires_at") = q.text (lit "expires_at")

/-- All fields except the signature. -/
def signedContent (p : Dict) : Dict := p.filter fun kv => kv.1 ≠ lit "signature"

/-- `base64.b64decode(payload[field])`; `none` is any of its exceptions. -/
def decodeField (p : Dict) (field : Str) : Option Bytes :=
  match p.get field with
  | some (.str s) => b64decode s
  | _ => none

theorem decodeField_eq {p : Dict} {field : Str} {b : Bytes} (h : decodeField p field = some b) :
    ∃ s, p.get field = some (.str s) ∧ b64decode s = some b := by
  unfold decodeField at h
  split at h
  · rename_i s hs
    exact ⟨s, hs, h⟩
  · cases h

/-- The relay's `verify_signature`. `rsaPss der signature text` loads the key and checks the
signature of the text, and is false when either raises. -/
def verifySignature (rsaPss : Bytes → Bytes → Str → Bool) (p : Dict) (pubkeyField : Str) : Bool :=
  match decodeField p (lit "signature"), decodeField p pubkeyField with
  | some signature, some pubDer => rsaPss pubDer signature (canonical (.obj (signedContent p)))
  | _, _ => false

theorem verifySignature_eq {rsaPss : Bytes → Bytes → Str → Bool} {p : Dict} {f : Str}
    (h : verifySignature rsaPss p f = true) :
    ∃ b k, decodeField p (lit "signature") = some b ∧ decodeField p f = some k ∧
      rsaPss k b (canonical (.obj (signedContent p))) = true := by
  unfold verifySignature at h
  split at h
  · rename_i b k hb hk
    exact ⟨b, k, hb, hk, h⟩
  · cases h

/-- The relay's own verifier. -/
def rsaVerifier (rsaPss : Bytes → Bytes → Str → Bool) : Verifier where
  verify := verifySignature rsaPss
  signature_decodes p f h := by
    obtain ⟨b, k, hb, -⟩ := verifySignature_eq h
    obtain ⟨s, hs⟩ := decodeField_eq hb
    exact ⟨s, b, hs⟩
  pubkey_decodes p f h := by
    obtain ⟨b, k, -, hk, -⟩ := verifySignature_eq h
    obtain ⟨s, hs⟩ := decodeField_eq hk
    exact ⟨s, k, hs⟩

/-! ## The configuration of a relay -/

/-- What a relay is started with, and the libraries it calls. -/
structure Env where
  verifier : Verifier
  hmac : Hmac
  minTtlSeconds : Int
  maxTtlSeconds : Int
  recipientQuotaMaxMessages : Int
  recipientQuotaMaxBytes : Int
  /-- The text SQLite keeps for a float in a TEXT column; `none` for NaN, which it keeps as NULL. -/
  realText : Str → Option Str

/-! ## Publish payloads -/

/-- `REQUIRED_FIELDS`, sorted as the error lists them. -/
def requiredFields : List Str :=
  [lit "ciphertext", lit "encrypted_key", lit "expires_at", lit "nonce", lit "recipient_id", lit "sender_pubkey",
    lit "signature", lit "timestamp", lit "version"]

/-- `DELETE_REQUIRED_FIELDS`, sorted. -/
def deleteRequiredFields : List Str :=
  [lit "action", lit "recipient_pubkey", lit "signature", lit "target_signature", lit "timestamp", lit "version"]

def maxRecipientIdLen : Nat := 128

def maxSignatureLen : Nat := 512

/-- `sorted(required - set(payload.keys()))`. -/
def missingFields (required : List Str) (p : Dict) : List Str := required.filter fun f => (p.get f).isNone

def missingError (missing : List Str) : Str := lit "Missing fields: " ++ join (lit ", ") missing

/-- The `expires_at` checks, on its text. -/
def validateExpiresAt (env : Env) (now : Datetime) (raw : Str) : Except PyError (Option Str) :=
  match fromisoformat raw with
  | none => .ok (some (lit "Invalid 'expires_at': not a valid ISO8601 timestamp"))
  | some expiresAt =>
    match expiresAt.utcoffset with
    | none => .ok (some (lit "Invalid 'expires_at': must be timezone-aware"))
    | some offset =>
      if offset ≠ 0 then .ok (some (lit "Invalid 'expires_at': must use a UTC offset ('+00:00' or 'Z')"))
      else
        match now.addSeconds env.minTtlSeconds with
        | none => .error .overflowError
        | some earliest =>
          if expiresAt.fields < earliest then
            .ok (some (lit "'expires_at' must be at least " ++ intText env.minTtlSeconds ++ lit "s in the future"))
          else
            match now.addSeconds env.maxTtlSeconds with
            | none => .error .overflowError
            | some latest =>
              if latest < expiresAt.fields then
                .ok (some (lit "'expires_at' must not exceed " ++ intText env.maxTtlSeconds ++ lit "s in the future"))
              else .ok none

/-- `_validate_publish_payload` at the clock reading `now`. -/
def validatePublishPayload (env : Env) (now : Datetime) (p : Dict) : Except PyError (Option Str) :=
  let missing := missingFields requiredFields p
  if missing ≠ [] then .ok (some (missingError missing))
  else
    match p.get (lit "recipient_id") with
    | some (.str recipientId) =>
      if 0 < recipientId.length ∧ recipientId.length ≤ maxRecipientIdLen then
        match p.get (lit "expires_at") with
        | some (.str raw) =>
          match validateExpiresAt env now raw with
          | .ok none =>
            if env.verifier.verify p (lit "sender_pubkey") then .ok none
            else .ok (some (lit "Signature verification failed — message rejected"))
          | r => r
        | _ => .ok (some (lit "Invalid 'expires_at'"))
      else .ok (some (lit "Invalid 'recipient_id'"))
    | _ => .ok (some (lit "Invalid 'recipient_id'"))

/-- `_validate_delete_payload`. -/
def validateDeletePayload (env : Env) (p : Dict) : Option Str :=
  let missing := missingFields deleteRequiredFields p
  if missing ≠ [] then some (missingError missing)
  else if p.text (lit "action") ≠ lit "delete" then some (lit "Invalid 'action'")
  else
    match p.get (lit "target_signature") with
    | some (.str target) =>
      if 0 < target.length ∧ target.length ≤ maxSignatureLen then
        if env.verifier.verify p (lit "recipient_pubkey") then none
        else some (lit "Signature verification failed — delete request rejected")
      else some (lit "Invalid 'target_signature'")
    | _ => some (lit "Invalid 'target_signature'")

/-! ## What an accepted payload carries -/

/-- An expiry text that passes at `now`. -/
structure ExpiresAt (env : Env) (now : Datetime) (raw : Str) (e : Datetime) : Prop where
  parses : fromisoformat raw = some ⟨e, some 0⟩
  earliest : ∃ t, now.addSeconds env.minTtlSeconds = some t ∧ t ≤ e
  latest : ∃ t, now.addSeconds env.maxTtlSeconds = some t ∧ e ≤ t

theorem validateExpiresAt_none {env : Env} {now : Datetime} {raw : Str} :
    validateExpiresAt env now raw = .ok none ↔ ∃ e, ExpiresAt env now raw e := by
  constructor
  · intro h
    unfold validateExpiresAt at h
    split at h
    · simp at h
    rename_i parsed hp
    split at h
    · simp at h
    rename_i offset ho
    split at h
    · simp at h
    rename_i hz
    split at h
    · simp at h
    rename_i lo hlo
    split at h
    · simp at h
    rename_i hle
    split at h
    · simp at h
    rename_i hi hhi
    split at h
    · simp at h
    rename_i hge
    obtain ⟨e, off⟩ := parsed
    obtain rfl : off = some offset := ho
    obtain rfl : offset = 0 := not_not.1 hz
    exact ⟨e, hp, ⟨lo, hlo, not_lt.1 hle⟩, ⟨hi, hhi, not_lt.1 hge⟩⟩
  · rintro ⟨e, hp, ⟨lo, hlo, hle⟩, hi, hhi, hge⟩
    simp [validateExpiresAt, hp, hlo, hhi, not_lt.2 hle, not_lt.2 hge]

/-- A publish payload that passes at `now`, with the texts the relay goes on to use. -/
structure ValidPublish (env : Env) (now : Datetime) (p : Dict) : Prop where
  complete : missingFields requiredFields p = []
  recipient : ∃ r, p.get (lit "recipient_id") = some (.str r) ∧ 0 < r.length ∧ r.length ≤ maxRecipientIdLen
  expiry : ∃ raw e, p.get (lit "expires_at") = some (.str raw) ∧ ExpiresAt env now raw e
  verified : env.verifier.verify p (lit "sender_pubkey") = true

theorem validatePublishPayload_none {env : Env} {now : Datetime} {p : Dict} :
    validatePublishPayload env now p = .ok none ↔ ValidPublish env now p := by
  constructor
  · intro h
    unfold validatePublishPayload at h
    dsimp only at h
    split at h
    · simp at h
    rename_i hm
    split at h
    · rename_i r hr
      split at h
      · rename_i hlen
        split at h
        · rename_i raw hraw
          split at h
          · rename_i he
            split at h
            · rename_i hv
              obtain ⟨e, he⟩ := validateExpiresAt_none.1 he
              exact ⟨not_not.1 hm, ⟨r, hr, hlen⟩, ⟨raw, e, hraw, he⟩, hv⟩
            · simp at h
          · rename_i hne
            exact absurd h hne
        · simp at h
      · simp at h
    · simp at h
  · rintro ⟨hm, ⟨r, hr, hlen⟩, ⟨raw, e, hraw, he⟩, hv⟩
    simp [validatePublishPayload, hm, hr, hlen, hraw, validateExpiresAt_none.2 ⟨e, he⟩, hv]

/-- A delete request that passes. -/
structure ValidDelete (env : Env) (p : Dict) : Prop where
  complete : missingFields deleteRequiredFields p = []
  action : p.text (lit "action") = lit "delete"
  target : ∃ s, p.get (lit "target_signature") = some (.str s) ∧ 0 < s.length ∧ s.length ≤ maxSignatureLen
  verified : env.verifier.verify p (lit "recipient_pubkey") = true

theorem validateDeletePayload_none {env : Env} {p : Dict} : validateDeletePayload env p = none ↔ ValidDelete env p := by
  constructor
  · intro h
    unfold validateDeletePayload at h
    dsimp only at h
    split at h
    · simp at h
    rename_i hm
    split at h
    · simp at h
    rename_i ha
    split at h
    · rename_i s hs
      split at h
      · rename_i hlen
        split at h
        · rename_i hv
          exact ⟨not_not.1 hm, not_not.1 ha, ⟨s, hs, hlen⟩, hv⟩
        · simp at h
      · simp at h
    · simp at h
  · rintro ⟨hm, ha, ⟨s, hs, hlen⟩, hv⟩
    simp [validateDeletePayload, hm, ha, hs, hlen, hv]

variable {env : Env} {now : Datetime} {p : Dict}

/-- The signature of a verified payload is a text SQLite binds. -/
theorem Verifier.signature_encodable {v : Verifier} {f : Str} (h : v.verify p f = true) :
    encodable (p.text (lit "signature")) = true := by
  obtain ⟨s, b, hs, hb⟩ := v.signature_decodes p f h
  rw [Dict.text_eq hs]
  exact encodable_of_b64decode hb

theorem Verifier.pubkey_text {v : Verifier} {f : Str} (h : v.verify p f = true) :
    ∃ b, b64decode (p.text f) = some b := by
  obtain ⟨s, b, hs, hb⟩ := v.pubkey_decodes p f h
  exact ⟨b, by rw [Dict.text_eq hs, hb]⟩

end AetherNode
