import AetherNode.Validate
import AetherNode.Lib.Pem
/-!
# Whom the gossip listener trusts

A peer of peers.json is accepted when the first certificate of its file has
the declared fingerprint. The trust bundle is the text of all these files, and
the handshake accepts every certificate in it: the listener trusts pinned
certificates only, exactly when no other certificate in the files has a
fingerprint that no accepted peer declares.
-/
open AetherNode.Lib AetherNode.Lib.Json AetherNode.Lib.Pem

namespace AetherNode.Trust

/-- The certificate libraries: `x509.load_pem_x509_certificate`, with the DER of what it returns; the DERs that a
context trusts after `load_verify_locations(cadata=...)`; and the hash. -/
structure X509 where
  loadPemX509Certificate : Str → Option Bytes
  loadVerifyLocations : Str → Except PyError (List Bytes)
  sha256Hex : Bytes → Str

/-- Both libraries go by the certificates that `r` finds in a text. -/
structure X509.Reads (x : X509) (r : Reader Bytes) : Prop where
  /-- `load_pem_x509_certificate` reads the first certificate of a text. -/
  first : ∀ text cert, x.loadPemX509Certificate text = some cert → (r.items text).head? = some cert
  /-- `load_verify_locations` trusts every certificate of a text. -/
  every : ∀ cadata anchors, x.loadVerifyLocations cadata = .ok anchors → ∀ cert, cert ∈ anchors ↔ cert ∈ r.items cadata

section
variable (x : X509)

/-- `relay_fingerprint` and `relay_fingerprint_from_der`. -/
def X509.relayFingerprint (der : Bytes) : Str := x.sha256Hex der

/-- An accepted peer: the certificate that is read from its file has its fingerprint. -/
structure PeerConfig where
  label : Json
  transport : Json
  onion : Json
  gossipPort : Json
  unixSocketPath : Json
  certPemText : Str
  fingerprint : Str
  pinned : (x.loadPemX509Certificate certPemText).map x.relayFingerprint = some fingerprint

end

/-- `data.get(key, [])` as an iterable. -/
def listField (data : Json) (key : Str) : Except PyError (List Json) :=
  match data with
  | .obj d =>
    match Dict.get d key with
    | none => .ok []
    | some (.arr l) => .ok l
    | some (.obj l) => .ok (l.map fun kv => .str kv.1)
    | some (.str s) => .ok (s.map fun c => .str [c])
    | some _ => .error .typeError
  | _ => .error .attributeError

/-- One entry of peers.json; `none` when it is skipped. A file that cannot be read is `none`. -/
def loadEntry (x : X509) (readText : Str → Option Str) : Json → Except PyError (Option (PeerConfig x))
  | .obj entry =>
    match Dict.get entry (lit "cert_file") with
    | none => .ok none
    | some (.str certFile) =>
      match readText certFile with
      | none => .ok none
      | some certPemText =>
        match h : x.loadPemX509Certificate certPemText, Dict.get entry (lit "fingerprint") with
        | some cert, some (.str declared) =>
          if hd : x.relayFingerprint cert = declared then
            .ok (some
              { label := (Dict.get entry (lit "label")).getD (.str (lit "<unlabeled>"))
                transport := (Dict.get entry (lit "transport")).getD (.str (lit "tor"))
                onion := (Dict.get entry (lit "onion")).getD .null
                gossipPort := (Dict.get entry (lit "gossip_port")).getD .null
                unixSocketPath := (Dict.get entry (lit "unix_socket")).getD .null
                certPemText := certPemText
                fingerprint := declared
                pinned := by rw [h, Option.map_some, hd] })
          else .ok none
        | _, _ => .ok none
    | some _ => .error .typeError
  | _ => .error .attributeError

def loadEntries (x : X509) (readText : Str → Option Str) : List Json → Except PyError (List (PeerConfig x))
  | [] => .ok []
  | entry :: entries =>
    match loadEntry x readText entry with
    | .error e => .error e
    | .ok peer =>
      match loadEntries x readText entries with
      | .error e => .error e
      | .ok peers => .ok (peer.toList ++ peers)

/-- `load_peers`; `none` is a missing file. -/
def loadPeers (x : X509) (readText : Str → Option Str) : Option Json → Except PyError (List (PeerConfig x))
  | none => .ok []
  | some data =>
    match listField data (lit "peers") with
    | .error e => .error e
    | .ok entries => loadEntries x readText entries

/-- `entry["fingerprint"]`, as an element of a set. -/
def blacklistEntry : Json → Except PyError Json
  | .obj entry =>
    match Dict.get entry (lit "fingerprint") with
    | none => .error .keyError
    | some (.arr _) => .error .typeError
    | some (.obj _) => .error .typeError
    | some v => .ok v
  | _ => .error .typeError

def blacklistEntries : List Json → Except PyError (List Json)
  | [] => .ok []
  | entry :: entries =>
    match blacklistEntry entry with
    | .error e => .error e
    | .ok v =>
      match blacklistEntries entries with
      | .error e => .error e
      | .ok vs => .ok (v :: vs)

/-- `load_blacklist`; `none` is a missing file. -/
def loadBlacklist : Option Json → Except PyError (List Json)
  | none => .ok []
  | some data =>
    match listField data (lit "blacklisted") with
    | .error e => .error e
    | .ok entries => blacklistEntries entries

/-- `fingerprint in blacklist`. -/
def listed (blacklist : List Json) (fingerprint : Str) : Bool :=
  blacklist.any fun v => match v with
    | .str s => s = fingerprint
    | _ => false

/-- The peers a relay has loaded at its start. -/
structure TrustStore (x : X509) where
  peers : List (PeerConfig x)

/-- `TrustStore.__init__`. -/
def TrustStore.init (x : X509) (readText : Str → Option Str) (peersFile : Option Json) : Except PyError (TrustStore x) :=
  match loadPeers x readText peersFile with
  | .error e => .error e
  | .ok peers => .ok ⟨peers⟩

section
variable {x : X509}

/-- `active_peers`, with what blacklist.json holds at that moment. -/
def TrustStore.activePeers (store : TrustStore x) (blacklistFile : Option Json) : Except PyError (List (PeerConfig x)) :=
  match loadBlacklist blacklistFile with
  | .error e => .error e
  | .ok blacklist => .ok (store.peers.filter fun p => !listed blacklist p.fingerprint)

def isBlacklisted (blacklistFile : Option Json) (fingerprint : Str) : Except PyError Bool :=
  match loadBlacklist blacklistFile with
  | .error e => .error e
  | .ok blacklist => .ok (listed blacklist fingerprint)

/-- `trusted_cadata`. -/
def TrustStore.trustedCadata (store : TrustStore x) : Str := join [10] (store.peers.map fun p => p.certPemText)

/-- `build_server_ssl_context`: the trust anchors of the listener. -/
def buildServerSslContext (store : TrustStore x) : Except PyError (List Bytes) :=
  if store.trustedCadata.any fun c => !isSpace c then x.loadVerifyLocations store.trustedCadata else .ok []

/-- A completed handshake: the certificate the peer has presented is a trust anchor. -/
structure Session (anchors : List Bytes) where
  peercert : Bytes
  trusted : peercert ∈ anchors

/-- `finish_request`: the fingerprint with which the request handler runs; `none` when it does not. -/
def finishRequest (x : X509) {anchors : List Bytes} (blacklistFile : Option Json) :
    Option (Session anchors) → Except PyError (Option Str)
  | none => .ok none
  | some session =>
    if session.peercert = [] then .ok none
    else
      let fingerprint := x.relayFingerprint session.peercert
      match isBlacklisted blacklistFile fingerprint with
      | .error e => .error e
      | .ok true => .ok none
      | .ok false => .ok (some fingerprint)

end

/-! ## Pinned and other certificates -/

section
variable {x : X509} {r : Reader Bytes}

/-- The certificates that the files add to the bundle, other than the one each file is pinned by: a file of which
others are read, because a block was left open before it, has no pinned one. -/
def extras (r : Reader Bytes) (o : r.Open) : List (PeerConfig x) → List Bytes
  | [] => []
  | p :: peers =>
    (if (r.read o p.certPemText).1 = r.items p.certPemText then (r.items p.certPemText).tail
      else (r.read o p.certPemText).1) ++ extras r (r.read o p.certPemText).2 peers

/-- The bundle holds the certificates of the files, read one after the other. -/
theorem items_trustedCadata (store : TrustStore x) :
    r.items store.trustedCadata = r.inTurn r.closed (store.peers.map fun p => p.certPemText) :=
  r.items_join _

/-- The first certificate of a peer's file is the pinned one. -/
theorem PeerConfig.head_pinned (p : PeerConfig x) (hx : x.Reads r) {c : Bytes} {certificates : List Bytes}
    (h : r.items p.certPemText = c :: certificates) : x.relayFingerprint c = p.fingerprint := by
  obtain ⟨cert, hcert, hfp⟩ := Option.map_eq_some_iff.1 p.pinned
  have hfirst := hx.first _ _ hcert
  rw [h, List.head?_cons, Option.some.injEq] at hfirst
  rw [hfirst, hfp]

/-- A certificate of the files is pinned by its file, or one of the others. -/
theorem mem_inTurn (hx : x.Reads r) {o : r.Open} {peers : List (PeerConfig x)} {c : Bytes}
    (h : c ∈ r.inTurn o (peers.map fun p => p.certPemText)) :
    (∃ p ∈ peers, x.relayFingerprint c = p.fingerprint) ∨ c ∈ extras r o peers := by
  induction peers generalizing o with
  | nil => cases h
  | cons p peers ih =>
    rw [List.map_cons, Reader.inTurn] at h
    unfold extras
    rcases List.mem_append.1 h with h | h
    · by_cases hown : (r.read o p.certPemText).1 = r.items p.certPemText
      · rw [if_pos hown]
        rw [hown] at h
        cases hcs : r.items p.certPemText with
        | nil =>
          rw [hcs] at h
          cases h
        | cons c' certificates =>
          rw [hcs] at h
          rcases List.mem_cons.1 h with rfl | h
          · exact .inl ⟨p, List.mem_cons_self, p.head_pinned hx hcs⟩
          · exact .inr (List.mem_append_left _ h)
      · -- Not the certificates of the file on its own, so the first one is not the one it is pinned by.
        rw [if_neg hown]
        exact .inr (List.mem_append_left _ h)
    · rcases ih h with ⟨q, hq, hfp⟩ | h
      · exact .inl ⟨q, List.mem_cons_of_mem _ hq, hfp⟩
      · exact .inr (List.mem_append_right _ h)

theorem extras_subset (o : r.Open) (peers : List (PeerConfig x)) :
    extras r o peers ⊆ r.inTurn o (peers.map fun p => p.certPemText) := by
  induction peers generalizing o with
  | nil => exact List.Subset.refl _
  | cons p peers ih =>
    intro c hc
    rcases List.mem_append.1 hc with hc | hc
    · apply List.mem_append_left _
      split at hc
      · rename_i hown
        rw [hown]
        exact List.mem_of_mem_tail hc
      · exact hc
    · exact List.mem_append_right _ (ih _ hc)

/-- Every trusted identity is a pinned one: in the bundle, and wherever a request handler runs. -/
structure OnlyPinned (r : Reader Bytes) (store : TrustStore x) : Prop where
  bundle : ∀ c ∈ r.items store.trustedCadata, ∃ p ∈ store.peers, x.relayFingerprint c = p.fingerprint
  served : ∀ anchors, buildServerSslContext store = .ok anchors → ∀ blacklistFile (session : Session anchors) fingerprint,
    finishRequest x blacklistFile (some session) = .ok (some fingerprint) →
      x.relayFingerprint session.peercert = fingerprint ∧
        ∃ active, store.activePeers blacklistFile = .ok active ∧ ∃ p ∈ active, p.fingerprint = fingerprint

/-- What `finish_request` has checked where the handler runs. -/
theorem finishRequest_some {anchors : List Bytes} {blacklistFile : Option Json} {session : Session anchors}
    {fingerprint : Str} (h : finishRequest x blacklistFile (some session) = .ok (some fingerprint)) :
    x.relayFingerprint session.peercert = fingerprint ∧
      ∃ blacklist, loadBlacklist blacklistFile = .ok blacklist ∧ listed blacklist fingerprint = false := by
  unfold finishRequest isBlacklisted at h
  cases hb : loadBlacklist blacklistFile with
  | error e =>
    simp only [hb] at h
    split at h <;> cases h
  | ok blacklist =>
    cases hl : listed blacklist (x.relayFingerprint session.peercert) with
    | true => simp [hb, hl] at h
    | false =>
      simp only [hb, hl] at h
      split at h
      · cases h
      · cases h
        exact ⟨rfl, blacklist, rfl, hl⟩

/-- The anchors of the listener are certificates of the bundle. -/
theorem mem_buildServerSslContext (hx : x.Reads r) {store : TrustStore x} {anchors : List Bytes}
    (h : buildServerSslContext store = .ok anchors) {c : Bytes} (hc : c ∈ anchors) :
    c ∈ r.items store.trustedCadata := by
  unfold buildServerSslContext at h
  split at h
  · exact (hx.every _ _ h c).1 hc
  · cases h
    cases hc

/-- Only pinned identities are trusted exactly when every other certificate of the accepted peers' files, too, has a
fingerprint that an accepted peer declares. -/
theorem onlyPinned_iff (hx : x.Reads r) (store : TrustStore x) : OnlyPinned r store ↔
    ∀ c ∈ extras r r.closed store.peers, ∃ p ∈ store.peers, x.relayFingerprint c = p.fingerprint := by
  constructor
  · intro h c hc
    apply h.bundle
    rw [items_trustedCadata]
    exact extras_subset r.closed store.peers hc
  · intro h
    have hbundle : ∀ c ∈ r.items store.trustedCadata, ∃ p ∈ store.peers, x.relayFingerprint c = p.fingerprint := by
      intro c hc
      rw [items_trustedCadata] at hc
      rcases mem_inTurn hx hc with hp | hextra
      · exact hp
      · exact h c hextra
    refine ⟨hbundle, ?_⟩
    intro anchors hctx blacklistFile session fingerprint hrun
    obtain ⟨rfl, blacklist, hload, hfree⟩ := finishRequest_some hrun
    -- The presented certificate is in the bundle, so its fingerprint is some peer's, and that is not blacklisted.
    obtain ⟨p, hp, hfp⟩ := hbundle _ (mem_buildServerSslContext hx hctx session.trusted)
    refine ⟨rfl, store.peers.filter fun p => !listed blacklist p.fingerprint, ?_, p, ?_, hfp.symm⟩
    · simp [TrustStore.activePeers, hload]
    · rw [List.mem_filter, ← hfp, hfree]
      exact ⟨hp, rfl⟩

end

/-! ## A file with two certificates -/

/-- Certificates that are their own base64 text. -/
def samplePem : Reader Bytes := plain fun block => b64decode (block.flatMap fun l => l)

/-- Libraries that read them so, with a hash of one byte per byte. -/
def sampleX509 : X509 where
  loadPemX509Certificate text := (samplePem.items text).head?
  loadVerifyLocations cadata := if samplePem.items cadata = [] then .error .sslError else .ok (samplePem.items cadata)
  sha256Hex der := der.map fun c => 97 + c % 26

theorem sampleX509_reads : sampleX509.Reads samplePem where
  first text cert h := h
  every cadata anchors h cert := by
    unfold sampleX509 at h
    dsimp only at h
    split at h
    · cases h
    · cases h
      exact Iff.rfl

/-- The file of one peer: its certificate, and another one. -/
def twoCertificates : Str :=
  lit "-----BEGIN CERTIFICATE-----\nYWE=\n-----END CERTIFICATE-----\n-----BEGIN CERTIFICATE-----\nYmI=\n-----END CERTIFICATE-----\n"

/-- peers.json: one peer, with the fingerprint of the first certificate. -/
def onePeer : Json :=
  .obj [(lit "peers", .arr [.obj [(lit "label", .str (lit "a")), (lit "cert_file", .str (lit "a.pem")),
    (lit "fingerprint", .str (sampleX509.relayFingerprint [97, 97]))]])]

/-- What a relay loads from it. -/
def sampleStore : TrustStore sampleX509 where
  peers :=
    [{ label := .str (lit "a")
       transport := .str (lit "tor")
       onion := .null
       gossipPort := .null
       unixSocketPath := .null
       certPemText := twoCertificates
       fingerprint := sampleX509.relayFingerprint [97, 97]
       pinned := by decide +kernel }]

set_option maxRecDepth 8000 in
/-- The second certificate of an accepted peer's file is let in, although no peer declares it. -/
theorem stranger_served : sampleX509.Reads samplePem ∧
    TrustStore.init sampleX509 (fun _ => some twoCertificates) (some onePeer) = .ok sampleStore ∧
    ¬ OnlyPinned samplePem sampleStore ∧ ∃ anchors, buildServerSslContext sampleStore = .ok anchors ∧
      ∃ (session : Session anchors) (fingerprint : Str),
        finishRequest sampleX509 none (some session) = .ok (some fingerprint) ∧
        ∀ p ∈ sampleStore.peers, p.fingerprint ≠ fingerprint := by
  have hctx : buildServerSslContext sampleStore = .ok [[97, 97], [98, 98]] := by decide +kernel
  have hother : ∀ p ∈ sampleStore.peers, p.fingerprint ≠ sampleX509.relayFingerprint [98, 98] := by decide +kernel
  refine ⟨sampleX509_reads, rfl, ?_, _, hctx, ⟨[98, 98], by decide⟩, _, rfl, hother⟩
  intro h
  obtain ⟨p, hp, hfp⟩ := h.bundle [98, 98] (by decide +kernel)
  exact hother p hp hfp.symm

/-- A second peer, that declares the other certificate in a file of its own. -/
def declaredStore : TrustStore sampleX509 where
  peers := sampleStore.peers ++
    [{ label := .str (lit "b")
       transport := .str (lit "tor")
       onion := .null
       gossipPort := .null
       unixSocketPath := .null
       certPemText := lit "-----BEGIN CERTIFICATE-----\nYmI=\n-----END CERTIFICATE-----\n"
       fingerprint := sampleX509.relayFingerprint [98, 98]
       pinned := by decide +kernel }]

set_option maxRecDepth 8000 in
/-- With it the other certificate is that of an accepted peer. -/
theorem onlyPinned_declared : extras samplePem samplePem.closed declaredStore.peers = [[98, 98]] ∧
    OnlyPinned samplePem declaredStore := by
  have hextras : extras samplePem samplePem.closed declaredStore.peers = [[98, 98]] := by decide +kernel
  refine ⟨hextras, (onlyPinned_iff sampleX509_reads declaredStore).2 ?_⟩
  rw [hextras]
  decide +kernel

end AetherNode.Trust
