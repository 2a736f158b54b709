import AetherNode.Gossip
import AetherNode.Handlers
/-!
# A mesh of relays

Any number of honest relays on one clock. Fan-outs and served pages go into
the network, and any relay may be handed anything the network ever held, any
number of times and in any order; so every cursor, loss and duplication is
covered. For one signature a relay is open until it stores the message,
confirms its deletion, or the message expires. It never opens again, and a
message is only stored where it is open.
-/
open AetherNode.Lib AetherNode.Lib.Json AetherNode.Protocol

namespace AetherNode.Mesh

/-- What the relays of a mesh share, and the quotas of each. -/
structure Config (ι : Type) where
  verifier : Verifier
  hmac : Hmac
  minTtlSeconds : Int
  maxTtlSeconds : Int
  realText : Str → Option Str
  quotaMessages : ι → Int
  quotaBytes : ι → Int
  minTtl_pos : 0 < minTtlSeconds

/-- The configuration of relay `i`. -/
def Config.env {ι : Type} (cfg : Config ι) (i : ι) : Env where
  verifier := cfg.verifier
  hmac := cfg.hmac
  minTtlSeconds := cfg.minTtlSeconds
  maxTtlSeconds := cfg.maxTtlSeconds
  recipientQuotaMaxMessages := cfg.quotaMessages i
  recipientQuotaMaxBytes := cfg.quotaBytes i
  realText := cfg.realText

/-- What travels between relays: pushes of the two fan-outs, and the items of served pages. -/
inductive Packet where
  | publish (payload : Dict)
  | delete (payload : Dict)
  | message (payload : Dict)
  | deletion (item : Dict)

structure State (ι : Type) where
  clock : Datetime
  node : ι → Db
  network : List Packet

inductive Event (ι : Type) where
  /-- Time passes. -/
  | tick (t : Datetime)
  /-- A client publishes at relay `i`. -/
  | publish (i : ι) (payload : Dict) (gate identityGate : Bool)
  /-- A client asks relay `i` for a deletion. -/
  | delete (i : ι) (payload : Dict) (gate : Gate)
  /-- Relay `i` serves a page of messages, or of tombstones. -/
  | serveMessages (i : ι) (sinceId : Nat)
  | serveDeletions (i : ι) (sinceId : Nat)
  /-- Packet `k` of the network reaches relay `i`. -/
  | deliver (i : ι) (k : Nat) (gate identityGate : Bool)
  | sweep (i : ι)

/-- What an event shows: the operation a relay ran, and the fan-out it scheduled. -/
inductive Obs (ι : Type) where
  | quiet
  | ran (i : ι) (e : AtomicEvent) (o : AtomicObs) (fanout : List Packet)

/-- The fan-out an operation schedules. -/
def fanoutOf : AtomicEvent → AtomicObs → List Packet
  | .ingest _ p _ _ _, .ingest (.stored _) => [.publish p]
  | .delete p _ _, .delete (.replied .deleted) => [.delete p]
  | _, _ => []

/-- The operation that handles a packet. -/
def handle (now : Datetime) (gate identityGate : Bool) : Packet → AtomicEvent
  | .publish p => .ingest .gossipPublish p now gate identityGate
  | .message p => .ingest .antiEntropyPull p now gate identityGate
  | .delete p => .delete p now (if gate && identityGate then .pass else .globalRefused)
  | .deletion item => .pullDeletion item now (gate && identityGate)

variable {ι : Type}

/-- Relay `i` runs one operation. -/
def runAt [DecidableEq ι] (cfg : Config ι) (st : State ι) (i : ι) (e : AtomicEvent) : Option (State ι × Obs ι) :=
  (atomicStep (cfg.env i) (st.node i) e).map fun r =>
    (⟨st.clock, Function.update st.node i r.1, st.network ++ fanoutOf e r.2⟩, .ran i e r.2 (fanoutOf e r.2))

def step [DecidableEq ι] (cfg : Config ι) : System (State ι) (Event ι) (Obs ι)
  | st, .tick t => if st.clock ≤ t then some ({ st with clock := t }, .quiet) else none
  | st, .publish i p gate identityGate => runAt cfg st i (.ingest .publish p st.clock gate identityGate)
  | st, .delete i p gate => runAt cfg st i (.delete p st.clock gate)
  | st, .serveMessages i sinceId =>
    some ({ st with network := st.network ++
      (Gossip.messageRows (st.node i) sinceId).map fun r => .message r.2.payload }, .quiet)
  | st, .serveDeletions i sinceId =>
    some ({ st with network := st.network ++
      (Gossip.deletionRows (st.node i) sinceId).map fun r => .deletion (Gossip.deletionItem r) }, .quiet)
  | st, .deliver i k gate identityGate =>
    match st.network[k]? with
    | none => none
    | some packet => runAt cfg st i (handle st.clock gate identityGate packet)
  | st, .sweep i => runAt cfg st i (.sweep st.clock st.clock)

/-- Empty relays, an empty network. -/
def init (clock : Datetime) : State ι := ⟨clock, fun _ => .empty, []⟩

/-! ## What a tombstone promises -/

/-- `expires_at` is an `isoformat()` text in every payload that verifies. -/
def IsoExpiry (v : Verifier) : Prop :=
  ∀ p, v.verify p (lit "sender_pubkey") = true → ∃ e : Datetime, p.text (lit "expires_at") = e.isoformat

/-- A verified payload with signature `sig` expires at `e`. -/
def Expires (v : Verifier) (sig : Str) (e : Datetime) : Prop :=
  ∃ p, v.verify p (lit "sender_pubkey") = true ∧ p.text (lit "signature") = sig ∧
    p.text (lit "expires_at") = e.isoformat

theorem Expires.unique {v : Verifier} (hone : OneMessagePerSignature v) {sig : Str} {e e' : Datetime}
    (h : Expires v sig e) (h' : Expires v sig e') : e = e' := by
  obtain ⟨p, hp, rfl, he⟩ := h
  obtain ⟨q, hq, hs, he'⟩ := h'
  have := (hone p q hp hq hs.symm).2
  rw [he, he'] at this
  exact Datetime.isoformat_injective this

/-- An accepted payload: when it expires, and that this lies between now and the longest lifetime. -/
theorem validPublish_expires {cfg : Config ι} (hiso : IsoExpiry cfg.verifier) {i : ι} {now : Datetime} {p : Dict}
    (hv : ValidPublish (cfg.env i) now p) : ∃ e, Expires cfg.verifier (p.text (lit "signature")) e ∧
      p.text (lit "expires_at") = e.isoformat ∧ now < e ∧
      (e.toMicros : Int) ≤ now.toMicros + cfg.maxTtlSeconds * 1000000 := by
  obtain ⟨e, he⟩ := hiso p hv.verified
  obtain ⟨raw, e', hraw, hparse, ⟨lo, hlo, hle⟩, hi, hhi, hge⟩ := hv.expiry
  rw [Dict.text_eq hraw] at he
  rw [he, fromisoformat_isoformat] at hparse
  cases hparse
  have hlo' := Datetime.addSeconds_toMicros hlo
  have hhi' := Datetime.addSeconds_toMicros hhi
  have hpos : 0 < (cfg.env i).minTtlSeconds := cfg.minTtl_pos
  have hmax : (cfg.env i).maxTtlSeconds = cfg.maxTtlSeconds := rfl
  rw [Datetime.le_def] at hle hge
  rw [hmax] at hhi'
  refine ⟨e, ⟨p, hv.verified, rfl, by rw [Dict.text_eq hraw, he]⟩, by rw [Dict.text_eq hraw, he], ?_, ?_⟩
  · rw [Datetime.lt_def]
    omega
  · omega

/-- A confirmed row: its texts bind, and no message it names outlives its `requested_at` by more than the longest
lifetime. -/
structure Retains (cfg : Config ι) (r : DeletionRequest) : Prop where
  pubkey : encodable r.requesterPubkey = true
  recipient : encodable r.requesterRecipientId = true
  covers : ∃ t : Datetime, r.requestedAt = t.isoformat ∧ ∀ e, Expires cfg.verifier r.targetSignature e →
    (e.toMicros : Int) ≤ t.toMicros + cfg.maxTtlSeconds * 1000000

/-- What holds of the tables of every relay: stored rows expire within the longest lifetime, and confirmed rows
retain. -/
structure DbSound (cfg : Config ι) (now : Datetime) (db : Db) : Prop where
  stored : ∀ sig m, db.message sig = some m → ∃ e, Expires cfg.verifier sig e ∧ m.expiresAt = e.isoformat ∧
    (e.toMicros : Int) ≤ now.toMicros + cfg.maxTtlSeconds * 1000000
  confirmed : ∀ sig r, db.request sig = some r → r.confirmed = true → Retains cfg r

/-- An item of a page of tombstones whose row retains. -/
def HonestItem (cfg : Config ι) (item : Dict) : Prop :=
  ∃ id r, item = Gossip.deletionItem (id, r) ∧ r.confirmed = true ∧ Retains cfg r

/-- An operation at time `now`; what it pulls is an honest item. -/
def Honest (cfg : Config ι) (now : Datetime) : AtomicEvent → Prop
  | .ingest _ _ t _ _ => t = now
  | .delete _ t _ => t = now
  | .pullDeletion item t _ => t = now ∧ HonestItem cfg item
  | .sweep t t' => t = now ∧ t' = now

/-- The relay has stored the message, confirmed its deletion, or the message has expired. -/
def Closed (cfg : Config ι) (now : Datetime) (db : Db) (sig : Str) : Prop :=
  (∃ m, db.message sig = some m) ∨ db.confirmed sig = true ∨ ∀ e, Expires cfg.verifier sig e → e ≤ now

/-! ## One operation of one relay -/

section
variable {cfg : Config ι} {i : ι} {now : Datetime} {db db' : Db} {e : AtomicEvent} {o : AtomicObs}

/-- The tombstone of a message that expires within the longest lifetime from now. -/
theorem retains_now (hone : OneMessagePerSignature cfg.verifier) {sig key rid : Str} {t : Datetime}
    (hown : Owns (cfg.env i) now key rid) (ht : Expires cfg.verifier sig t)
    (hle : (t.toMicros : Int) ≤ now.toMicros + cfg.maxTtlSeconds * 1000000) :
    Retains cfg ⟨sig, key, rid, true, now.isoformat⟩ where
  pubkey := hown.encodable.1
  recipient := hown.encodable.2
  covers := ⟨now, rfl, fun t' ht' => by rw [Expires.unique hone ht' ht]; exact hle⟩

/-- Adopting an honest item copies its row. -/
theorem honest_adopts {item : Dict} {t : Str} (hi : HonestItem cfg item)
    (ht : item.get (lit "target_signature") = some (.str t)) :
    ∃ r, pulledTombstone (cfg.env i) now item t = .ok r ∧ r.targetSignature = t ∧ r.confirmed = true ∧ Retains cfg r := by
  obtain ⟨id, r, rfl, hc, hr⟩ := hi
  obtain rfl : r.targetSignature = t := by
    simpa using (show some (Json.str r.targetSignature) = some (.str t) from ht)
  obtain ⟨a, hat, -⟩ := hr.covers
  refine ⟨r, Gossip.pulledTombstone_deletionItem hr.pubkey hr.recipient ?_ ?_ hc, rfl, hc, hr⟩
  · rw [hat]
    exact a.encodable_isoformat
  · rw [hat]
    exact List.cons_ne_nil _ _

theorem bury_sound {row : DeletionRequest} (hs : DbSound cfg now db) (hr : Retains cfg row) :
    DbSound cfg now (db.bury row) where
  stored sig m hm := by
    rw [Db.message_bury] at hm
    split at hm
    · cases hm
    · exact hs.stored sig m hm
  confirmed sig r hreq hc := by
    rw [Db.request_bury] at hreq
    split at hreq
    · cases hreq
      exact hr
    · exact hs.confirmed sig r hreq hc

/-- An honest operation keeps the tables sound. -/
theorem step_sound (hone : OneMessagePerSignature cfg.verifier) (hiso : IsoExpiry cfg.verifier)
    (hs : DbSound cfg now db) (hh : Honest cfg now e) (he : AtomicEffect (cfg.env i) db e o db') :
    DbSound cfg now db' := by
  cases he with
  | same => exact hs
  | @stores _ p t _ _ _ _ hv _ _ hlook hreq =>
    obtain rfl : t = now := hh
    constructor
    · intro sig m hm
      rw [hlook] at hm
      split at hm
      · rename_i hsig
        cases hm
        obtain ⟨x, hx, hexp, -, hle⟩ := validPublish_expires hiso hv
        exact ⟨x, hsig ▸ hx, hexp, hle⟩
      · exact hs.stored sig m hm
    · intro sig r hr hc
      rw [hreq] at hr
      split at hr
      · cases hr
      · exact hs.confirmed sig r hr hc
  | drops =>
    refine ⟨hs.stored, ?_⟩
    intro sig r hr hc
    rw [Db.request_deleteRequest] at hr
    split at hr
    · cases hr
    · exact hs.confirmed sig r hr hc
  | @promotes _ p t _ _ _ hv _ hown =>
    obtain rfl : t = now := hh
    obtain ⟨x, hx, -, -, hle⟩ := validPublish_expires hiso hv
    exact bury_sound hs (retains_now hone hown hx hle)
  | @deletes p t _ m _ hm hown =>
    obtain rfl : t = now := hh
    obtain ⟨x, hx, -, hle⟩ := hs.stored _ m hm
    exact bury_sound hs (retains_now hone hown hx hle)
  | records =>
    refine ⟨hs.stored, ?_⟩
    intro sig r hr hc
    rw [Db.request_recordRequest] at hr
    split at hr
    · cases hr
      cases hc
    · exact hs.confirmed sig r hr hc
  | adopts ht _ hrow =>
    -- The item is a confirmed row of some relay, so the row copied from it promises the same.
    obtain ⟨r, hr, -, -, hret⟩ := honest_adopts hh.2 ht
    rw [hrow] at hr
    cases hr
    exact bury_sound hs hret
  | loses ht _ herr =>
    -- An honest item always binds.
    obtain ⟨r, hr, -⟩ := honest_adopts hh.2 ht
    rw [herr] at hr
    cases hr
  | sweeps _ hm hq =>
    constructor
    · intro sig m hms
      rw [hm] at hms
      exact hs.stored sig m (Option.filter_eq_some_iff.1 hms).1
    · intro sig r hr hc
      rw [hq] at hr
      exact hs.confirmed sig r (Option.filter_eq_some_iff.1 hr).1 hc

theorem bury_closed {row : DeletionRequest} {sig : Str} (hrow : row.confirmed = true) (hc : Closed cfg now db sig) :
    Closed cfg now (db.bury row) sig := by
  by_cases hsig : sig = row.targetSignature
  · exact .inr (.inl (by simp [Db.confirmed, hsig, hrow]))
  · simpa [Closed, Db.confirmed, hsig] using hc

/-- A sweep removes only what has expired, and only tombstones of what has expired. -/
theorem sweep_closed (hone : OneMessagePerSignature cfg.verifier) {cutoff : Datetime} {sig : Str}
    (hcut : now.addSeconds (-cfg.maxTtlSeconds) = some cutoff) (hs : DbSound cfg now db) (hc : Closed cfg now db sig)
    (hm : db'.message sig = (db.message sig).filter fun m => !decide (m.expiresAt ≤ now.isoformat))
    (hq : db'.request sig = (db.request sig).filter fun r => !decide (r.requestedAt ≤ cutoff.isoformat)) :
    Closed cfg now db' sig := by
  rcases hc with ⟨m, hms⟩ | hconf | hexp
  · obtain ⟨x, hx, hxe, -⟩ := hs.stored sig m hms
    by_cases hle : m.expiresAt ≤ now.isoformat
    · refine .inr (.inr ?_)
      intro x' hx'
      rw [Expires.unique hone hx' hx]
      rw [hxe, Datetime.isoformat_le_iff] at hle
      exact hle
    · exact .inl ⟨m, by simp [hm, hms, Option.filter, hle]⟩
  · obtain ⟨r, hr, hrc⟩ := Db.confirmed_iff.1 hconf
    by_cases hle : r.requestedAt ≤ cutoff.isoformat
    · -- The row is old enough to be reaped, so what it names has expired.
      refine .inr (.inr ?_)
      intro x hx
      obtain ⟨a, hat, hcov⟩ := (hs.confirmed sig r hr hrc).covers
      rw [hat, Datetime.isoformat_le_iff, Datetime.le_def] at hle
      have hx' := hcov x (by rw [Db.request_target hr]; exact hx)
      have hcut' := Datetime.addSeconds_toMicros hcut
      rw [Datetime.le_def]
      omega
    · exact .inr (.inl (Db.confirmed_iff.2 ⟨r, by simp [hq, hr, Option.filter, hle], hrc⟩))
  · exact .inr (.inr hexp)

/-- A closed signature stays closed. -/
theorem step_closed (hone : OneMessagePerSignature cfg.verifier) (hs : DbSound cfg now db) (hh : Honest cfg now e)
    (he : AtomicEffect (cfg.env i) db e o db') {sig : Str} (hc : Closed cfg now db sig) : Closed cfg now db' sig := by
  cases he with
  | same => exact hc
  | @stores _ p _ _ _ _ _ _ _ _ hlook hreq =>
    by_cases hsig : sig = p.text (lit "signature")
    · exact .inl ⟨_, by rw [hlook, if_pos hsig]⟩
    · simpa [Closed, Db.confirmed, hlook, hreq, hsig] using hc
  | drops hp =>
    rcases hc with hm | hconf | hexp
    · exact .inl hm
    · obtain ⟨r, hr, hrc⟩ := Db.confirmed_iff.1 hconf
      refine .inr (.inl (Db.confirmed_iff.2 ⟨r, ?_, hrc⟩))
      rw [Db.request_deleteRequest, if_neg, hr]
      -- The dropped row is a pending one.
      rintro rfl
      obtain ⟨r', hr', hrc', -⟩ := hp
      rw [hr] at hr'
      cases hr'
      rw [hrc] at hrc'
      cases hrc'
    · exact .inr (.inr hexp)
  | promotes => exact bury_closed rfl hc
  | deletes => exact bury_closed rfl hc
  | records =>
    rcases hc with hm | hconf | hexp
    · exact .inl hm
    · obtain ⟨r, hr, hrc⟩ := Db.confirmed_iff.1 hconf
      exact .inr (.inl (Db.confirmed_iff.2 ⟨r, by simp [hr], hrc⟩))
    · exact .inr (.inr hexp)
  | adopts _ _ hrow => exact bury_closed (bindTombstone_ok hrow).2.2.2.2 hc
  | loses ht _ herr =>
    obtain ⟨r, hr, -⟩ := honest_adopts hh.2 ht
    rw [herr] at hr
    cases hr
  | sweeps hcut hm hq =>
    obtain ⟨rfl, rfl⟩ := hh
    exact sweep_closed hone hcut hs hc (hm sig) (hq sig)

/-- A message is stored where its signature is open, and closes it. -/
theorem stores_opened (hiso : IsoExpiry cfg.verifier) (hh : Honest cfg now e)
    (he : AtomicEffect (cfg.env i) db e o db') {path : Path} {p : Dict} {t : Datetime} {gate identityGate : Bool}
    {id : Nat} (hev : e = .ingest path p t gate identityGate) (ho : o = .ingest (.stored id)) :
    ¬ Closed cfg now db (p.text (lit "signature")) ∧ ∃ m, db'.message (p.text (lit "signature")) = some m := by
  subst hev ho
  cases he with
  | same h => cases h
  | drops _ h => cases h
  | stores hv hnone hconf hlook hreq =>
    obtain rfl : t = now := hh
    refine ⟨?_, ⟨_, by rw [hlook, if_pos rfl]⟩⟩
    rintro (⟨m, hm⟩ | hc | hexp)
    · rw [hnone] at hm
      cases hm
    · rw [hconf] at hc
      cases hc
    · obtain ⟨x, hx, -, hlt, -⟩ := validPublish_expires hiso hv
      exact absurd (hexp x hx) (not_le.2 hlt)

/-- A deletion is confirmed for a stored message, and removes it. -/
theorem deletes_stored (he : AtomicEffect (cfg.env i) db e o db') {p : Dict} {t : Datetime} {gate : Gate}
    (hev : e = .delete p t gate) (ho : o = .delete (.replied .deleted)) :
    (∃ m, db.message (p.text (lit "target_signature")) = some m) ∧
      db'.message (p.text (lit "target_signature")) = none := by
  subst hev ho
  cases he with
  | same h => cases h
  | deletes _ hm => exact ⟨⟨_, hm⟩, by simp⟩

/-- Only an ingestion that stores a message adds it. -/
theorem message_new (hs : atomicStep (cfg.env i) db e = some (db', o)) {sig : Str} {m : Message}
    (hm : db'.message sig = some m) : (∃ m, db.message sig = some m) ∨
      ∃ path p t gate identityGate id, e = .ingest path p t gate identityGate ∧ o = .ingest (.stored id) ∧
        p.text (lit "signature") = sig := by
  rcases atomic_message hs hm with hold | ⟨path, p, t, gate, identityGate, id, rfl, rfl, -, hsig, -⟩
  · exact .inl ⟨m, hold⟩
  · exact .inr ⟨path, p, t, gate, identityGate, id, rfl, rfl, hsig.symm⟩

end

/-! ## Runs of the mesh -/

theorem DbSound.later {cfg : Config ι} {now now' : Datetime} {db : Db} (h : DbSound cfg now db) (hle : now ≤ now') :
    DbSound cfg now' db where
  stored sig m hm := by
    obtain ⟨x, hx, hxe, hxl⟩ := h.stored sig m hm
    rw [Datetime.le_def] at hle
    exact ⟨x, hx, hxe, by omega⟩
  confirmed := h.confirmed

theorem Closed.later {cfg : Config ι} {now now' : Datetime} {db : Db} {sig : Str} (h : Closed cfg now db sig) (hle : now ≤ now') :
    Closed cfg now' db sig := by
  rcases h with hm | hc | hexp
  · exact .inl hm
  · exact .inr (.inl hc)
  · exact .inr (.inr fun x hx => (hexp x hx).trans hle)

/-- Every relay's tables are sound, and so is every tombstone on the way. -/
structure Sound (cfg : Config ι) (st : State ι) : Prop where
  node : ∀ i, DbSound cfg st.clock (st.node i)
  network : ∀ item, .deletion item ∈ st.network → HonestItem cfg item

theorem sound_init {cfg : Config ι} (clock : Datetime) : Sound cfg (init clock) := by
  refine ⟨fun i => ⟨?_, ?_⟩, ?_⟩
  · intro sig m hm
    cases hm
  · intro sig r hr _
    cases hr
  · intro item hitem
    cases hitem

section
variable [DecidableEq ι] {cfg : Config ι} {st st' : State ι}

/-- What a step is: time, a served page, or one honest operation of one relay. -/
theorem step_kinds {e : Event ι} {o : Obs ι} (hso : Sound cfg st) (h : step cfg st e = some (st', o)) :
    (o = .quiet ∧ st.clock ≤ st'.clock ∧ st'.node = st.node ∧
        ∀ item, .deletion item ∈ st'.network → HonestItem cfg item) ∨
      ∃ i ev ob db, o = .ran i ev ob (fanoutOf ev ob) ∧ atomicStep (cfg.env i) (st.node i) ev = some (db, ob) ∧
        Honest cfg st.clock ev ∧ st' = ⟨st.clock, Function.update st.node i db, st.network ++ fanoutOf ev ob⟩ := by
  have hran : ∀ i ev, Honest cfg st.clock ev → runAt cfg st i ev = some (st', o) →
      ∃ i ev ob db, o = .ran i ev ob (fanoutOf ev ob) ∧ atomicStep (cfg.env i) (st.node i) ev = some (db, ob) ∧
        Honest cfg st.clock ev ∧ st' = ⟨st.clock, Function.update st.node i db, st.network ++ fanoutOf ev ob⟩ := by
    intro i ev hh hr
    obtain ⟨⟨db, ob⟩, hdb, hx⟩ := Option.map_eq_some_iff.1 hr
    obtain ⟨rfl, rfl⟩ := Prod.mk.inj hx
    exact ⟨i, ev, ob, db, rfl, hdb, hh, rfl⟩
  cases e with
  | tick t =>
    simp only [step] at h
    split at h
    · rename_i hle
      cases h
      exact .inl ⟨rfl, hle, rfl, hso.network⟩
    · cases h
  | publish i p gate identityGate => exact .inr (hran i (.ingest .publish p st.clock gate identityGate) rfl h)
  | delete i p gate => exact .inr (hran i (.delete p st.clock gate) rfl h)
  | serveMessages i sinceId =>
    cases h
    refine .inl ⟨rfl, le_refl _, rfl, ?_⟩
    intro item hitem
    rcases List.mem_append.1 hitem with hitem | hitem
    · exact hso.network item hitem
    · obtain ⟨r, -, hr⟩ := List.mem_map.1 hitem
      cases hr
  | serveDeletions i sinceId =>
    cases h
    refine .inl ⟨rfl, le_refl _, rfl, ?_⟩
    intro item hitem
    rcases List.mem_append.1 hitem with hitem | hitem
    · exact hso.network item hitem
    · obtain ⟨r, hr, hx⟩ := List.mem_map.1 hitem
      cases hx
      obtain ⟨hrow, -, hc⟩ := Gossip.mem_of_pageRows hr
      have hreq : (st.node i).request r.2.targetSignature = some r.2 := Table.lookup_of_mem hrow
      exact ⟨r.1, r.2, rfl, hc, (hso.node i).confirmed _ _ hreq hc⟩
  | deliver i k gate identityGate =>
    simp only [step] at h
    split at h
    · cases h
    · rename_i packet hk
      refine .inr (hran i _ ?_ h)
      cases packet with
      | publish p => rfl
      | delete p => rfl
      | message p => rfl
      | deletion item => exact ⟨rfl, hso.network item (List.mem_of_getElem? hk)⟩
  | sweep i => exact .inr (hran i (.sweep st.clock st.clock) ⟨rfl, rfl⟩ h)

theorem mesh_sound (hone : OneMessagePerSignature cfg.verifier) (hiso : IsoExpiry cfg.verifier) {e : Event ι} {o : Obs ι}
    (hso : Sound cfg st) (h : step cfg st e = some (st', o)) : Sound cfg st' := by
  rcases step_kinds hso h with ⟨-, hle, hnode, hnet⟩ | ⟨i, ev, ob, db, -, hs, hh, rfl⟩
  · refine ⟨?_, hnet⟩
    intro j
    rw [hnode]
    exact (hso.node j).later hle
  · refine ⟨?_, ?_⟩
    · intro j
      by_cases hj : j = i
      · subst hj
        simpa using step_sound hone hiso (hso.node j) hh (atomic_effect hs)
      · simpa [hj] using hso.node j
    · intro item hitem
      rcases List.mem_append.1 hitem with hitem | hitem
      · exact hso.network item hitem
      · unfold fanoutOf at hitem
        split at hitem <;> simp at hitem

theorem mesh_closed (hone : OneMessagePerSignature cfg.verifier) {e : Event ι} {o : Obs ι} (hso : Sound cfg st)
    (h : step cfg st e = some (st', o)) {j : ι} {sig : Str} (hc : Closed cfg st.clock (st.node j) sig) :
    Closed cfg st'.clock (st'.node j) sig := by
  rcases step_kinds hso h with ⟨-, hle, hnode, -⟩ | ⟨i, ev, ob, db, -, hs, hh, rfl⟩
  · rw [hnode]
    exact hc.later hle
  · by_cases hj : j = i
    · subst hj
      simpa using step_closed hone (hso.node j) hh (atomic_effect hs) hc
    · simpa [hj] using hc

/-! ## Inserts and fan-outs -/

/-- Relay `i` stores a message with signature `sig`. -/
def inserts (i : ι) (sig : Str) (x : Event ι × Obs ι) : Bool :=
  match x.2 with
  | .ran j (.ingest _ p _ _ _) (.ingest (.stored _)) _ => j = i && p.text (lit "signature") = sig
  | _ => false

/-- Relay `i` schedules the fan-out of a message with signature `sig`. -/
def publishFanouts (i : ι) (sig : Str) (x : Event ι × Obs ι) : Bool :=
  match x.2 with
  | .ran j _ _ fanout => j = i && fanout.any fun packet => match packet with
    | .publish p => p.text (lit "signature") = sig
    | _ => false
  | .quiet => false

/-- Relay `i` schedules the fan-out of a deletion of `sig`. -/
def deleteFanouts (i : ι) (sig : Str) (x : Event ι × Obs ι) : Bool :=
  match x.2 with
  | .ran j _ _ fanout => j = i && fanout.any fun packet => match packet with
    | .delete p => p.text (lit "target_signature") = sig
    | _ => false
  | .quiet => false

theorem inserts_ran {e : Event ι} {i j : ι} {ev : AtomicEvent} {ob : AtomicObs} {fanout : List Packet} {sig : Str}
    (h : inserts i sig (e, .ran j ev ob fanout) = true) : j = i ∧ ∃ path p t gate identityGate id,
      ev = .ingest path p t gate identityGate ∧ ob = .ingest (.stored id) ∧ p.text (lit "signature") = sig := by
  unfold inserts at h
  split at h
  · rename_i hx
    cases hx
    simp only [Bool.and_eq_true, decide_eq_true_eq] at h
    exact ⟨h.1, _, _, _, _, _, _, rfl, rfl, h.2⟩
  · cases h

/-- The publish fan-out goes with the insert. -/
theorem inserts_of_publishFanouts {e : Event ι} {i j : ι} {ev : AtomicEvent} {ob : AtomicObs} {sig : Str}
    (h : publishFanouts i sig (e, .ran j ev ob (fanoutOf ev ob)) = true) :
    inserts i sig (e, .ran j ev ob (fanoutOf ev ob)) = true := by
  simp only [publishFanouts, Bool.and_eq_true, decide_eq_true_eq, List.any_eq_true] at h
  obtain ⟨hj, packet, hmem, hp⟩ := h
  unfold fanoutOf at hmem
  split at hmem
  · obtain rfl := List.mem_singleton.1 hmem
    simp only [decide_eq_true_eq] at hp
    simp [inserts, hj, hp]
  · obtain rfl := List.mem_singleton.1 hmem
    cases hp
  · cases hmem

theorem deleteFanouts_ran {e : Event ι} {i j : ι} {ev : AtomicEvent} {ob : AtomicObs} {sig : Str}
    (h : deleteFanouts i sig (e, .ran j ev ob (fanoutOf ev ob)) = true) : j = i ∧ ∃ p t gate,
      ev = .delete p t gate ∧ ob = .delete (.replied .deleted) ∧ p.text (lit "target_signature") = sig := by
  simp only [deleteFanouts, Bool.and_eq_true, decide_eq_true_eq, List.any_eq_true] at h
  obtain ⟨hj, packet, hmem, hp⟩ := h
  unfold fanoutOf at hmem
  split at hmem
  · obtain rfl := List.mem_singleton.1 hmem
    cases hp
  · obtain rfl := List.mem_singleton.1 hmem
    simp only [decide_eq_true_eq] at hp
    exact ⟨hj, _, _, _, rfl, rfl, hp⟩
  · cases hmem

open Classical in
/-- One while the signature is open at relay `i`. -/
noncomputable def openness (cfg : Config ι) (i : ι) (sig : Str) (st : State ι) : Nat :=
  if Closed cfg st.clock (st.node i) sig then 0 else 1

open Classical in
/-- One while the signature is open at relay `i` or its message stored there. -/
noncomputable def liveness (cfg : Config ι) (i : ι) (sig : Str) (st : State ι) : Nat :=
  if Closed cfg st.clock (st.node i) sig ∧ (st.node i).message sig = none then 0 else 1

/-- A message that is gone from a relay where its signature is closed stays gone. -/
theorem gone_stays (hiso : IsoExpiry cfg.verifier) {e : Event ι} {o : Obs ι} (hso : Sound cfg st)
    (h : step cfg st e = some (st', o)) {i : ι} {sig : Str} (hc : Closed cfg st.clock (st.node i) sig)
    (hgone : (st.node i).message sig = none) : (st'.node i).message sig = none := by
  rcases step_kinds hso h with ⟨-, -, hnode, -⟩ | ⟨j, ev, ob, db, -, hs, hh, rfl⟩
  · rw [hnode]
    exact hgone
  · by_cases hj : i = j
    · subst hj
      -- A message that is back was stored by this step, which needs an open signature.
      by_contra hne
      obtain ⟨m, hm⟩ := Option.ne_none_iff_exists'.1 hne
      simp only [Function.update_self] at hm
      rcases message_new hs hm with ⟨m', hm'⟩ | ⟨path, p, t, gate, identityGate, id, hev, hob, rfl⟩
      · rw [hgone] at hm'
        cases hm'
      · exact (stores_opened hiso hh (atomic_effect hs) hev hob).1 hc
    · simpa [hj] using hgone

/-- An insert takes the openness of its signature away. -/
theorem openness_step (hone : OneMessagePerSignature cfg.verifier) (hiso : IsoExpiry cfg.verifier) {e : Event ι}
    {o : Obs ι} (hso : Sound cfg st) (h : step cfg st e = some (st', o)) (i : ι) (sig : Str) :
    (if inserts i sig (e, o) then 1 else 0) + openness cfg i sig st' ≤ openness cfg i sig st := by
  have hkeep : openness cfg i sig st' ≤ openness cfg i sig st := by
    unfold openness
    by_cases hc : Closed cfg st.clock (st.node i) sig
    · rw [if_pos hc, if_pos (mesh_closed hone hso h hc)]
    · rw [if_neg hc]
      split <;> omega
  split
  · rename_i hins
    rcases step_kinds hso h with ⟨rfl, -⟩ | ⟨j, ev, ob, db, rfl, hs, hh, rfl⟩
    · cases hins
    · obtain ⟨rfl, path, p, t, gate, identityGate, id, hev, hob, rfl⟩ := inserts_ran hins
      obtain ⟨hopen, m, hm⟩ := stores_opened hiso hh (atomic_effect hs) hev hob
      have hclosed : Closed cfg st.clock (Function.update st.node j db j) (p.text (lit "signature")) :=
        .inl ⟨m, by simpa using hm⟩
      unfold openness
      rw [if_pos hclosed, if_neg hopen]
  · omega

/-- A confirmed deletion takes the liveness of its signature away. -/
theorem liveness_step (hone : OneMessagePerSignature cfg.verifier) (hiso : IsoExpiry cfg.verifier) {e : Event ι}
    {o : Obs ι} (hso : Sound cfg st) (h : step cfg st e = some (st', o)) (i : ι) (sig : Str) :
    (if deleteFanouts i sig (e, o) then 1 else 0) + liveness cfg i sig st' ≤ liveness cfg i sig st := by
  have hkeep : liveness cfg i sig st' ≤ liveness cfg i sig st := by
    unfold liveness
    by_cases hc : Closed cfg st.clock (st.node i) sig ∧ (st.node i).message sig = none
    · rw [if_pos hc, if_pos ⟨mesh_closed hone hso h hc.1, gone_stays hiso hso h hc.1 hc.2⟩]
    · rw [if_neg hc]
      split <;> omega
  split
  · rename_i hdel
    rcases step_kinds hso h with ⟨rfl, -⟩ | ⟨j, ev, ob, db, rfl, hs, hh, rfl⟩
    · cases hdel
    · obtain ⟨rfl, p, t, gate, hev, hob, rfl⟩ := deleteFanouts_ran hdel
      obtain ⟨⟨m, hm⟩, hgone⟩ := deletes_stored (atomic_effect hs) hev hob
      have hclosed := step_closed hone (hso.node j) hh (atomic_effect hs) (.inl ⟨m, hm⟩)
      unfold liveness
      rw [if_pos (by simpa using ⟨hclosed, hgone⟩), if_neg (by simp [hm])]
  · omega

/-- On every relay of every run each signature is inserted at most once, its message and its deletion are fanned
out at most once, and a message that was inserted and is gone never comes back. -/
theorem inserted_at_most_once (hone : OneMessagePerSignature cfg.verifier) (hiso : IsoExpiry cfg.verifier)
    {clock : Datetime} {h : List (Event ι × Obs ι)} (hr : Run (step cfg) Any (init clock) h st) (i : ι) (sig : Str) :
    h.countP (inserts i sig) ≤ 1 ∧ h.countP (publishFanouts i sig) ≤ 1 ∧ h.countP (deleteFanouts i sig) ≤ 1 ∧
      ∀ h' st', Run (step cfg) Any st h' st' → 0 < h.countP (inserts i sig) → (st.node i).message sig = none →
        (st'.node i).message sig = none := by
  have hso : ∀ {h st}, Run (step cfg) Any (init clock) h st → Sound cfg st := fun hr =>
    hr.inv (Sound cfg) (sound_init clock) fun _ _ _ _ hso _ hs => mesh_sound hone hiso hso hs
  have hins := hr.countP_add_le (Sound cfg) (openness cfg i sig) (inserts i sig) (sound_init clock)
    fun _ _ _ _ hso _ hs => ⟨mesh_sound hone hiso hso hs, openness_step hone hiso hso hs i sig⟩
  have hdel := hr.countP_add_le (Sound cfg) (liveness cfg i sig) (deleteFanouts i sig) (sound_init clock)
    fun _ _ _ _ hso _ hs => ⟨mesh_sound hone hiso hso hs, liveness_step hone hiso hso hs i sig⟩
  have hle1 : openness cfg i sig (init clock) ≤ 1 := by
    unfold openness
    split <;> omega
  have hle2 : liveness cfg i sig (init clock) ≤ 1 := by
    unfold liveness
    split <;> omega
  have hpub : h.countP (publishFanouts i sig) ≤ h.countP (inserts i sig) := by
    apply List.countP_mono_left
    intro x hx hp
    obtain ⟨pre, post, rfl⟩ := List.append_of_mem hx
    obtain ⟨e, o⟩ := x
    obtain ⟨t, t', hpre, -, hstep, -⟩ := hr.fired rfl
    rcases step_kinds (hso hpre) hstep with ⟨rfl, -⟩ | ⟨j, ev, ob, db, rfl, -⟩
    · cases hp
    · exact inserts_of_publishFanouts hp
  refine ⟨by omega, by omega, by omega, ?_⟩
  intro h' st' hr' hpos hgone
  -- An insert has used up the openness, so from `st` on the signature is closed.
  have hclosed : Closed cfg st.clock (st.node i) sig := by
    by_contra hc
    have : openness cfg i sig st = 1 := if_neg hc
    omega
  have hinv := hr'.inv (fun st => Sound cfg st ∧ Closed cfg st.clock (st.node i) sig ∧ (st.node i).message sig = none)
    ⟨hso hr, hclosed, hgone⟩ fun s e s' o ⟨h1, h2, h3⟩ _ hs =>
      ⟨mesh_sound hone hiso h1 hs, mesh_closed hone h1 hs h2, gone_stays hiso h1 hs h2 h3⟩
  exact hinv.2.2

end

/-- Two relays. -/
def pair : Config Bool where
  verifier := Sample.verifier
  hmac := Sample.hmac
  minTtlSeconds := 60
  maxTtlSeconds := 30 * 24 * 3600
  realText := some
  quotaMessages _ := 1000
  quotaBytes _ := 50 * 1024 * 1024
  minTtl_pos := by decide

theorem pair_isoExpiry : IsoExpiry pair.verifier := by
  intro p hp
  have hne : lit "sender_pubkey" ≠ lit "recipient_pubkey" := by decide
  simp only [pair, Sample.verifier, Bool.and_eq_true, Bool.or_eq_true, decide_eq_true_eq, hne, false_or] at hp
  refine ⟨Sample.nextNoon, ?_⟩
  rw [hp.2.2]
  decide

/-- A message is published, pushed to the other relay, deleted there, and pushed to it again. -/
theorem inserted_at_most_once_pair : ∃ h st, Run (step pair) Any (init Sample.noon) h st ∧
    h.countP (inserts true (lit "c2ln")) = 1 ∧ (st.node true).message (lit "c2ln") = none ∧
    ∀ h' st', Run (step pair) Any st h' st' → (st'.node true).message (lit "c2ln") = none := by
  obtain ⟨h, st, hr, hp⟩ := exists_any_run (step pair)
    (fun st h => h.countP (inserts true (lit "c2ln")) = 1 && (st.node true).message (lit "c2ln") = none)
    (init Sample.noon)
    [.publish false (Sample.payload (lit "c2ln")) true true, .deliver true 0 true true,
      .delete true (Sample.deletePayload (lit "c2ln") Sample.ownerKey) .pass, .deliver true 0 true true]
    (by decide +kernel)
  simp only [Bool.and_eq_true, decide_eq_true_eq] at hp
  obtain ⟨hone, hgone⟩ := hp
  refine ⟨h, st, hr, hone, hgone, ?_⟩
  intro h' st' hr'
  obtain ⟨-, -, -, hstays⟩ := inserted_at_most_once Sample.oneMessagePerSignature pair_isoExpiry hr true (lit "c2ln")
  exact hstays h' st' hr' (by omega) hgone

end AetherNode.Mesh
