import AetherNode.Trust
import Mathlib.Data.List.Nodup
/-!
# One entry for each identity

The cursors of the pulls are kept by fingerprint, and the fan-out and the
anti-entropy loop go through the loaded peers. All three take a fingerprint
for one configured peer. `load_peers` checks every entry against its own
certificate, and none against the entries before it.
-/
open AetherNode.Lib AetherNode.Lib.Json AetherNode.Lib.Pem

namespace AetherNode.Trust

variable {x : X509}

/-! ## What goes by fingerprint -/

/-- `_last_seen_id`, or `_last_seen_deletion_id`. -/
abbrev Cursors := Str → Option Nat

/-- `cursors.get(peer.fingerprint, 0)`. -/
def sinceId (cursors : Cursors) (peer : PeerConfig x) : Nat := (cursors peer.fingerprint).getD 0

/-- `cursors[peer.fingerprint] = max_id`. -/
def saveCursor (cursors : Cursors) (peer : PeerConfig x) (maxId : Nat) : Cursors :=
  fun fingerprint => if fingerprint = peer.fingerprint then some maxId else cursors fingerprint

/-- A call of `_push_to_peer`, as it is submitted to the pool. -/
structure Push (x : X509) where
  peer : PeerConfig x
  body : Bytes
  targetPath : Str

/-- `schedule_fanout`: the pushes it submits. -/
def scheduleFanout (store : TrustStore x) (blacklistFile : Option Json) (payload : Dict) (targetPath : Str) :
    Except PyError (List (Push x)) :=
  let body := encode (dumpsDefault (.obj payload))
  match store.activePeers blacklistFile with
  | .error e => .error e
  | .ok peers => .ok (peers.map fun peer => ⟨peer, body, targetPath⟩)

/-- A round of `_loop`: the peers it syncs with, in order. A sync that raises is caught. -/
def visits (store : TrustStore x) (blacklistFile : Option Json) : Except PyError (List (PeerConfig x)) :=
  store.activePeers blacklistFile

/-- A fingerprint stands for one configured peer: wherever the relay goes by it, it finds this one. -/
structure UniqueKeys (store : TrustStore x) : Prop where
  distinct : (store.peers.map (·.fingerprint)).Nodup
  /-- Saving the cursor of one peer leaves that of every other. -/
  cursors : ∀ (i j : Fin store.peers.length), i ≠ j → ∀ (cursors : Cursors) maxId,
    sinceId (saveCursor cursors store.peers[i] maxId) store.peers[j] = sinceId cursors store.peers[j]
  /-- A message is pushed to an identity at most once. -/
  pushes : ∀ blacklistFile payload targetPath pushes, scheduleFanout store blacklistFile payload targetPath = .ok pushes →
    ∀ fingerprint, pushes.countP (fun push => push.peer.fingerprint = fingerprint) ≤ 1
  /-- A round visits an identity that is not blacklisted once. -/
  visits : ∀ blacklistFile peers, visits store blacklistFile = .ok peers → ∀ p ∈ peers,
    peers.countP (fun q => q.fingerprint = p.fingerprint) = 1

section
variable {store : TrustStore x}

theorem countP_fingerprint (peers : List (PeerConfig x)) (f : Str) :
    peers.countP (fun p => p.fingerprint = f) = (peers.map (·.fingerprint)).count f := by
  rw [List.count, List.countP_map]
  apply List.countP_congr
  intro p _
  simp

/-- All of it rests on the fingerprints being distinct. -/
theorem uniqueKeys_of_nodup (h : (store.peers.map (·.fingerprint)).Nodup) : UniqueKeys store := by
  have hactive : ∀ {blacklistFile peers}, store.activePeers blacklistFile = .ok peers →
      (peers.map (·.fingerprint)).Nodup := by
    intro blacklistFile peers hpeers
    unfold TrustStore.activePeers at hpeers
    split at hpeers <;> cases hpeers
    exact ((List.filter_sublist).map _).nodup h
  refine ⟨h, ?_, ?_, ?_⟩
  · intro i j hne cursors maxId
    have hfp : store.peers[j].fingerprint ≠ store.peers[i].fingerprint := by
      intro heq
      have hlen : ∀ k : Fin store.peers.length, k < (store.peers.map (·.fingerprint)).length := by simp
      have hat : ∀ k : Fin store.peers.length,
          (store.peers.map (·.fingerprint)).get ⟨k, hlen k⟩ = store.peers[k].fingerprint := by simp
      have heq' : (⟨i, hlen i⟩ : Fin (store.peers.map (·.fingerprint)).length) = ⟨j, hlen j⟩ := by
        apply h.injective_get
        rw [hat i, hat j, heq]
      exact hne (Fin.ext (Fin.mk.inj heq'))
    rw [sinceId, saveCursor, if_neg hfp, sinceId]
  · intro blacklistFile payload targetPath pushes hpushes fingerprint
    unfold scheduleFanout at hpushes
    cases hpeers : store.activePeers blacklistFile with
    | error e => simp [hpeers] at hpushes
    | ok peers =>
      simp only [hpeers, Except.ok.injEq] at hpushes
      subst hpushes
      rw [List.countP_map]
      exact (countP_fingerprint peers fingerprint).le.trans (List.nodup_iff_count_le_one.1 (hactive hpeers) _)
  · intro blacklistFile peers hpeers p hp
    rw [countP_fingerprint]
    exact List.count_eq_one_of_mem (hactive hpeers) (List.mem_map_of_mem hp)

end

/-! ## Which entries are loaded -/

/-- The entry is accepted for `fingerprint`: its certificate file can be read and begins with a certificate that has
the fingerprint the entry declares. -/
def Pins (x : X509) (readText : Str → Option Str) (entry : Json) (fingerprint : Str) : Prop :=
  ∃ d certFile text cert, entry = .obj d ∧ Dict.get d (lit "cert_file") = some (.str certFile) ∧
    readText certFile = some text ∧ x.loadPemX509Certificate text = some cert ∧
    x.relayFingerprint cert = fingerprint ∧ Dict.get d (lit "fingerprint") = some (.str fingerprint)

variable {readText : Str → Option Str}

theorem Pins.unique {entry : Json} {f g : Str} (hf : Pins x readText entry f) (hg : Pins x readText entry g) : f = g := by
  obtain ⟨d, -, -, -, rfl, -, -, -, -, hf⟩ := hf
  obtain ⟨d', -, -, -, hd, -, -, -, -, hg⟩ := hg
  cases hd
  rw [hf] at hg
  cases hg
  rfl

/-- An entry that does not raise is loaded for the fingerprint it is accepted for, or skipped. -/
theorem loadEntry_cases {entry : Json} {r : Option (PeerConfig x)} (h : loadEntry x readText entry = .ok r) :
    (∃ p, r = some p ∧ Pins x readText entry p.fingerprint) ∨ (r = none ∧ ∀ f, ¬ Pins x readText entry f) := by
  unfold loadEntry at h
  split at h
  · rename_i d
    split at h
    · rename_i hfile
      cases h
      refine .inr ⟨rfl, ?_⟩
      rintro f ⟨d', certFile, -, -, hd, hfile', -⟩
      cases hd
      rw [hfile] at hfile'
      cases hfile'
    · rename_i certFile hfile
      split at h
      · rename_i htext
        cases h
        refine .inr ⟨rfl, ?_⟩
        rintro f ⟨d', certFile', text, -, hd, hfile', htext', -⟩
        cases hd
        rw [hfile] at hfile'
        cases hfile'
        rw [htext] at htext'
        cases htext'
      · rename_i text htext
        split at h
        · rename_i cert declared hcert hdeclared
          split at h
          · rename_i hfp
            cases h
            exact .inl ⟨_, rfl, d, certFile, text, cert, rfl, hfile, htext, hcert, hfp, hdeclared⟩
          · rename_i hfp
            cases h
            refine .inr ⟨rfl, ?_⟩
            rintro f ⟨d', certFile', text', cert', hd, hfile', htext', hcert', hfp', hdeclared'⟩
            cases hd
            rw [hfile] at hfile'
            cases hfile'
            rw [htext] at htext'
            cases htext'
            rw [hcert] at hcert'
            cases hcert'
            rw [hdeclared] at hdeclared'
            cases hdeclared'
            exact hfp hfp'
        · rename_i hnone
          cases h
          refine .inr ⟨rfl, ?_⟩
          rintro f ⟨d', certFile', text', cert', hd, hfile', htext', hcert', hfp', hdeclared'⟩
          cases hd
          rw [hfile] at hfile'
          cases hfile'
          rw [htext] at htext'
          cases htext'
          exact hnone _ _ hcert' hdeclared'
    · cases h
  · cases h

theorem loadEntries_cons {entry : Json} {entries : List Json} {peers : List (PeerConfig x)}
    (h : loadEntries x readText (entry :: entries) = .ok peers) :
    ∃ r rest, loadEntry x readText entry = .ok r ∧ loadEntries x readText entries = .ok rest ∧
      peers = r.toList ++ rest := by
  unfold loadEntries at h
  split at h
  · cases h
  · rename_i r hr
    split at h
    · cases h
    · rename_i rest hrest
      cases h
      exact ⟨r, rest, hr, hrest, rfl⟩

/-- A fingerprint is loaded exactly when an entry is accepted for it. -/
theorem mem_loadEntries {entries : List Json} {peers : List (PeerConfig x)}
    (h : loadEntries x readText entries = .ok peers) (f : Str) :
    f ∈ peers.map (·.fingerprint) ↔ ∃ entry ∈ entries, Pins x readText entry f := by
  induction entries generalizing peers with
  | nil =>
    cases h
    simp
  | cons entry entries ih =>
    obtain ⟨r, rest, hentry, hrest, rfl⟩ := loadEntries_cons h
    rw [List.map_append, List.mem_append, ih hrest, List.exists_mem_cons_iff]
    apply or_congr_left
    rcases loadEntry_cases hentry with ⟨p, rfl, hp⟩ | ⟨rfl, hnone⟩
    · simp only [Option.toList_some, List.map_cons, List.map_nil, List.mem_singleton]
      exact ⟨fun hf => hf ▸ hp, fun hf => hf.unique hp⟩
    · simp [hnone f]

/-- The fingerprints of the loaded peers are distinct exactly when no two entries are accepted for the same one. -/
theorem loadEntries_nodup_iff {entries : List Json} {peers : List (PeerConfig x)}
    (h : loadEntries x readText entries = .ok peers) :
    (peers.map (·.fingerprint)).Nodup ↔
      entries.Pairwise fun a b => ∀ f, ¬ (Pins x readText a f ∧ Pins x readText b f) := by
  induction entries generalizing peers with
  | nil =>
    cases h
    simp
  | cons entry entries ih =>
    obtain ⟨r, rest, hentry, hrest, rfl⟩ := loadEntries_cons h
    rw [List.pairwise_cons, ← ih hrest]
    rcases loadEntry_cases hentry with ⟨p, rfl, hp⟩ | ⟨rfl, hnone⟩
    · simp only [Option.toList_some, List.singleton_append, List.map_cons, List.nodup_cons]
      apply and_congr_left
      intro _
      rw [mem_loadEntries hrest]
      constructor
      · rintro h b hb f ⟨hf, hbf⟩
        exact h ⟨b, hb, hf.unique hp ▸ hbf⟩
      · rintro h ⟨b, hb, hbf⟩
        exact h b hb _ ⟨hp, hbf⟩
    · simp only [Option.toList_none, List.nil_append]
      exact ⟨fun h => ⟨fun b _ f hf => hnone f hf.1, h⟩, And.right⟩

/-- The entries of peers.json. -/
def peersEntries : Option Json → List Json
  | none => []
  | some data => ((listField data (lit "peers")).toOption).getD []

/-- The fingerprints of the loaded peers are unique keys exactly when no two entries of peers.json are accepted for
the same fingerprint. -/
theorem uniqueKeys_iff {peersFile : Option Json} {store : TrustStore x}
    (h : TrustStore.init x readText peersFile = .ok store) :
    UniqueKeys store ↔
      (peersEntries peersFile).Pairwise fun a b => ∀ f, ¬ (Pins x readText a f ∧ Pins x readText b f) := by
  have hload : loadEntries x readText (peersEntries peersFile) = .ok store.peers := by
    unfold TrustStore.init at h
    split at h
    · cases h
    · rename_i peers hpeers
      cases h
      unfold loadPeers at hpeers
      split at hpeers
      · exact hpeers
      · split at hpeers
        · cases hpeers
        · rename_i data entries hentries
          rw [peersEntries, hentries]
          exact hpeers
  rw [← loadEntries_nodup_iff hload]
  exact ⟨UniqueKeys.distinct, uniqueKeys_of_nodup⟩

/-! ## The same certificate twice -/

set_option maxRecDepth 8000 in
/-- One peer alone has its fingerprint for itself. -/
theorem onePeer_uniqueKeys :
    TrustStore.init sampleX509 (fun _ => some twoCertificates) (some onePeer) = .ok sampleStore ∧ UniqueKeys sampleStore := by
  have hload : TrustStore.init sampleX509 (fun _ => some twoCertificates) (some onePeer) = .ok sampleStore := rfl
  refine ⟨hload, (uniqueKeys_iff hload).2 ?_⟩
  exact List.pairwise_singleton _ _

/-- peers.json: one certificate under two labels. -/
def copiedPeer : Json :=
  .obj [(lit "peers", .arr
    [.obj [(lit "label", .str (lit "a")), (lit "cert_file", .str (lit "a.pem")),
      (lit "fingerprint", .str (sampleX509.relayFingerprint [97, 97]))],
     .obj [(lit "label", .str (lit "b")), (lit "cert_file", .str (lit "a.pem")),
      (lit "fingerprint", .str (sampleX509.relayFingerprint [97, 97]))]])]

/-- What a relay loads from it. -/
def copiedStore : TrustStore sampleX509 where
  peers := sampleStore.peers ++ sampleStore.peers.map fun p => { p with label := .str (lit "b") }

set_option maxRecDepth 8000 in
/-- Both entries are loaded, no label is used twice, and every message is pushed to the one identity twice. -/
theorem copiedPeer_pushed_twice :
    TrustStore.init sampleX509 (fun _ => some twoCertificates) (some copiedPeer) = .ok copiedStore ∧
      ¬ UniqueKeys copiedStore ∧ ∀ payload targetPath, ∃ pushes,
        scheduleFanout copiedStore none payload targetPath = .ok pushes ∧
        pushes.countP (fun push => push.peer.fingerprint = sampleX509.relayFingerprint [97, 97]) = 2 := by
  refine ⟨rfl, ?_, ?_⟩
  · intro h
    have hdup : copiedStore.peers.map (·.fingerprint) =
        [sampleX509.relayFingerprint [97, 97], sampleX509.relayFingerprint [97, 97]] := rfl
    have hdistinct := h.distinct
    rw [hdup] at hdistinct
    simp at hdistinct
  · intro payload targetPath
    exact ⟨_, rfl, rfl⟩

end AetherNode.Trust
