import AetherNode.Relay
/-!
# Naming a stored message in a delete request

The client signs a delete request with the key the message was sent to. The
relay verifies it, finds the message by its signature text and the key among
its owners; but the text has to pass a bound of its own first, which
publishing does not put on it.
-/
open AetherNode.Lib AetherNode.Lib.Json AetherNode.Protocol

namespace AetherNode.Deletable

variable {env : Env} {rsaPss : Bytes → Bytes → Str → Bool}

/-! ## The client -/

/-- A private key as the client uses it: the DER bytes of its public key, and what it signs a text with for a salt. -/
structure PrivateKey where
  publicDer : Bytes
  sign : Bytes → Str → Bytes
  publicDer_bytes : ∀ x ∈ publicDer, x < 256
  sign_bytes : ∀ salt text, ∀ x ∈ sign salt text, x < 256

/-- RSA-PSS verification accepts what the key signed. -/
def PrivateKey.Accepted (rsaPss : Bytes → Bytes → Str → Bool) (key : PrivateKey) : Prop :=
  ∀ salt text, rsaPss key.publicDer (key.sign salt text) text = true

def pubkeyToB64 (key : PrivateKey) : Str := b64encode key.publicDer

def signPayload (payload : Dict) (key : PrivateKey) (salt : Bytes) : Str :=
  b64encode (key.sign salt (canonical (.obj payload)))

/-- `_build_delete_payload`, before it is signed. -/
def unsignedDelete (key : PrivateKey) (targetSignature : Str) (timestamp : Datetime) : Dict :=
  [(lit "version", .str (lit "1")), (lit "action", .str (lit "delete")), (lit "target_signature", .str targetSignature),
    (lit "recipient_pubkey", .str (pubkeyToB64 key)), (lit "timestamp", .str timestamp.isoformat)]

/-- `_build_delete_payload`. -/
def buildDeletePayload (key : PrivateKey) (targetSignature : Str) (timestamp : Datetime) (salt : Bytes) : Dict :=
  unsignedDelete key targetSignature timestamp ++
    [(lit "signature", .str (signPayload (unsignedDelete key targetSignature timestamp) key salt))]

section
variable (key : PrivateKey) (target : Str) (timestamp : Datetime) (salt : Bytes)

/-- The relay verifies what the client signs. -/
theorem build_verified (hkey : key.Accepted rsaPss) :
    verifySignature rsaPss (buildDeletePayload key target timestamp salt) (lit "recipient_pubkey") = true := by
  have hsignature : decodeField (buildDeletePayload key target timestamp salt) (lit "signature") =
      some (key.sign salt (canonical (.obj (unsignedDelete key target timestamp)))) :=
    b64decode_b64encode (key.sign_bytes _ _)
  have hpubkey : decodeField (buildDeletePayload key target timestamp salt) (lit "recipient_pubkey") =
      some key.publicDer :=
    b64decode_b64encode key.publicDer_bytes
  have hcontent : signedContent (buildDeletePayload key target timestamp salt) = unsignedDelete key target timestamp :=
    rfl
  simp only [verifySignature, hsignature, hpubkey, hcontent]
  exact hkey _ _

/-- The request is accepted exactly when the signature text it names is neither empty nor too long. -/
theorem build_accepted_iff (hv : env.verifier = rsaVerifier rsaPss) (hkey : key.Accepted rsaPss) :
    validateDeletePayload env (buildDeletePayload key target timestamp salt) = none ↔
      0 < target.length ∧ target.length ≤ maxSignatureLen := by
  rw [validateDeletePayload_none]
  constructor
  · intro h
    obtain ⟨s, hs, hlength⟩ := h.target
    cases hs
    exact hlength
  · intro hlength
    refine ⟨rfl, rfl, ⟨target, rfl, hlength⟩, ?_⟩
    rw [hv]
    exact build_verified key target timestamp salt hkey

end

/-! ## The owner of a stored message -/

/-- The relay accepts the request and confirms it, and the message is gone. -/
def Deletes (env : Env) (now : Datetime) (p : Dict) (db : Db) (sig : Str) : Prop :=
  validateDeletePayload env p = none ∧
    ∃ db', handleDeleteRequest env now p db = (db', .ok .deleted) ∧ db'.message sig = none

/-- An owner can delete a stored message exactly when its signature text is neither empty nor longer than a delete
request may name. -/
theorem owner_deletes_iff {h : List (Event × Obs)} {s : Relay env} {sig : Str} {m : Message} {key : PrivateKey}
    {now : Datetime} (hr : RelayRun env Any h s) (hv : env.verifier = rsaVerifier rsaPss) (hkey : key.Accepted rsaPss)
    (hm : s.db.message sig = some m) (hown : Owns env now (pubkeyToB64 key) m.recipientId) (timestamp : Datetime)
    (salt : Bytes) :
    Deletes env now (buildDeletePayload key m.signature timestamp salt) s.db sig ↔
      0 < m.signature.length ∧ m.signature.length ≤ maxSignatureLen := by
  have hsig : m.signature = sig := Table.lookup_key hm
  subst hsig
  constructor
  · intro hd
    exact (build_accepted_iff key _ timestamp salt hv hkey).1 hd.1
  · intro hlength
    obtain ⟨⟨id, hrow⟩, -⟩ := Table.lookup_eq_some.1 hm
    have hbinds := stored_binds hr _ hrow
    have hencodable : encodable m.signature = true := by
      simp only [Message.binds, Bool.and_eq_true] at hbinds
      exact hbinds.1.2
    refine ⟨(build_accepted_iff key _ timestamp salt hv hkey).2 hlength, _,
      handleDeleteRequest_owner hencodable hm hown, ?_⟩
    rw [Db.message_bury]
    exact if_pos rfl

/-! ## A signature of an RSA-4096 sender -/

/-- The owner's key. -/
def ownerKey : PrivateKey where
  publicDer := [104, 105]
  sign _ _ := [1]
  publicDer_bytes := by simp
  sign_bytes _ _ := by simp

theorem ownerKey_owns : Owns Sample.lenient Sample.noon (pubkeyToB64 ownerKey) Sample.recipientId := by
  rw [owns_iff]
  decide +kernel

/-- A publish of a message to the owner stores it. -/
def stores (sig : Str) (s : Relay Sample.lenient) : Bool :=
  (s.db.message sig).any fun m => m.recipientId = Sample.recipientId

def publish (sig : Str) : List Event := [.arrive .publish (Sample.payload sig)] ++ Sample.sections 0 4

/-- A message of an RSA-2048 sender, whose signature text has 344 characters, can be deleted. -/
theorem owner_deletes_short : ∃ h s, RelayRun Sample.lenient Any h s ∧
    Deletes Sample.lenient Sample.noon (buildDeletePayload ownerKey (List.replicate 344 65) Sample.noon []) s.db
      (List.replicate 344 65) := by
  obtain ⟨h, s, hr, hp⟩ := exists_any_run (step Sample.lenient) (fun s _ => stores (List.replicate 344 65) s) Relay.init
    (publish (List.replicate 344 65)) (by decide +kernel)
  obtain ⟨m, hm, hrid⟩ := (Option.any_eq_true _ _).1 hp
  have hsig : m.signature = List.replicate 344 65 := Table.lookup_key hm
  have hown : Owns Sample.lenient Sample.noon (pubkeyToB64 ownerKey) m.recipientId := by
    rw [of_decide_eq_true hrid]
    exact ownerKey_owns
  have hlength : m.signature.length = 344 := by rw [hsig, List.length_replicate]
  have hdeletes := (owner_deletes_iff hr rfl (fun _ _ => rfl) hm hown Sample.noon []).2
    (by unfold maxSignatureLen; omega)
  rw [hsig] at hdeletes
  exact ⟨h, s, hr, hdeletes⟩

/-- A message of an RSA-4096 sender, whose signature text has 684 characters, cannot. -/
theorem owner_cannot_delete : ∃ h s m, RelayRun Sample.lenient Any h s ∧ s.db.message (List.replicate 684 65) = some m ∧
    Owns Sample.lenient Sample.noon (pubkeyToB64 ownerKey) m.recipientId ∧ ownerKey.Accepted (fun _ _ _ => true) ∧
    ¬ Deletes Sample.lenient Sample.noon (buildDeletePayload ownerKey m.signature Sample.noon []) s.db m.signature := by
  obtain ⟨h, s, hr, hp⟩ := exists_any_run (step Sample.lenient) (fun s _ => stores (List.replicate 684 65) s) Relay.init
    (publish (List.replicate 684 65)) (by decide +kernel)
  obtain ⟨m, hm, hrid⟩ := (Option.any_eq_true _ _).1 hp
  have hsig : m.signature = List.replicate 684 65 := Table.lookup_key hm
  refine ⟨h, s, m, hr, hm, ?_, fun _ _ => rfl, ?_⟩
  · rw [of_decide_eq_true hrid]
    exact ownerKey_owns
  · intro hd
    have hshort := ((build_accepted_iff ownerKey _ _ _ rfl fun _ _ => rfl).1 hd.1).2
    rw [hsig, List.length_replicate] at hshort
    unfold maxSignatureLen at hshort
    omega

end AetherNode.Deletable
