import AetherNode.Adoption
import AetherNode.Node
/-!
# What a relay keeps and answers

The tables of a relay hold only what it has read and verified, whatever it
has been sent: `kept_run`. From there its pages and inboxes are known, the
message that keeps one from arriving, and that all they hold verifies.
-/
open AetherNode.Lib AetherNode.Lib.Json AetherNode.Lib.JsonText AetherNode.Lib.JsonScan AetherNode.Lib.Reread
  AetherNode.Protocol AetherNode.RateLimit AetherNode.Server AetherNode.Hops AetherNode.Served AetherNode.Node

namespace AetherNode.Answers

/-! ## What the tables hold -/

/-- A stored message has been read, and has passed its validation. -/
structure Received (env : Env) (platform : Platform) (m : Message) : Prop where
  payload : Loaded platform (.obj m.payload)
  valid : ∃ now, ValidPublish env now m.payload
  signature : m.signature = m.payload.text (lit "signature")
  recipientId : m.recipientId = m.payload.text (lit "recipient_id")

structure Kept (env : Env) (platform : Platform) (db : Db) : Prop where
  messages : ∀ sig m, db.message sig = some m → Received env platform m
  tombstones : ∀ sig r, db.request sig = some r → r.confirmed = true → TextRow r

section
variable {env : Env} {platform : Platform} {db db' : Db}

theorem isText_signature {now : Datetime} {p : Dict} (h : ValidPublish env now p) : IsText (p.text (lit "signature")) := by
  obtain ⟨s, b, hs, hb⟩ := env.verifier.signature_decodes p _ h.verified
  rw [Dict.text_eq hs]
  exact isText_of_b64decode hb

/-- A key and a recipient id of its candidates are texts. -/
theorem isText_of_owns {now : Datetime} {key rid : Str} (h : Owns env now key rid) (hrid : CodePoints rid) :
    IsText key ∧ IsText rid := by
  have hencodable := h.encodable
  obtain ⟨der, -, hder, -, -⟩ := h
  exact ⟨isText_of_b64decode hder, hencodable.2, hrid⟩

/-- SQLite keeps a float as a text. -/
def KeepsText (env : Env) : Prop := ∀ f s, IsText f → env.realText f = some s → IsText s

/-- What SQLite keeps of a value that has been read is a text. -/
theorem isText_of_bindText (hreal : KeepsText env) {v : Json} {k : Nat}
    (hv : Readable platform.decoder.repr v k) {s : Str} (h : bindText env v = .ok (some s)) : IsText s := by
  cases v with
  | null => cases h
  | bool b =>
    cases h
    cases b <;> exact .of_printable (printable_of_all rfl)
  | int z =>
    simp only [bindText] at h
    split at h <;> cases h
    exact .of_printable (printable_intText z)
  | float r =>
    obtain ⟨f, rfl, -⟩ := hv
    exact hreal _ s (.of_printable (printable_float f)) (Except.ok.inj h)
  | str t =>
    simp only [bindText] at h
    split at h <;> cases h
    rename_i hencodable
    exact ⟨hencodable, hv⟩
  | arr l => cases h
  | obj p => cases h

/-- The row of a pulled item is a row of texts. -/
theorem textRow_of_pulled (hreal : KeepsText env) {now : Datetime} {item : Dict} {t : Str}
    {row : DeletionRequest} (hitem : Readable platform.decoder.repr (.obj item) platform.decoder.nesting) (ht : IsText t)
    (h : pulledTombstone env now item t = .ok row) : TextRow row := by
  obtain ⟨hkey, hrid, hat, htarget, -⟩ := bindTombstone_ok h
  have hfield : ∀ key, Readable platform.decoder.repr ((item.get key).getD (.str [])) (platform.decoder.nesting - 1) := by
    intro key
    cases hget : item.get key with
    | none => exact fun c hc => by cases hc
    | some v => exact readable_get hitem hget
  have hrequested : Readable platform.decoder.repr (getOr item (lit "requested_at") (.str now.isoformat)) (platform.decoder.nesting - 1) := by
    unfold getOr
    split
    · rename_i v hget
      split
      · exact readable_get hitem hget
      · exact (isText_isoformat now).2
    · exact (isText_isoformat now).2
  exact ⟨htarget ▸ ht, isText_of_bindText hreal (hfield _) hkey, isText_of_bindText hreal (hfield _) hrid,
    isText_of_bindText hreal hrequested hat⟩

/-- A tombstone that is adopted has a target that binds. -/
theorem adopted_encodable {now : Datetime} {gate : Bool} {item : Dict} {t : Str}
    (ht : item.get (lit "target_signature") = some (.str t))
    (hstep : atomicStep env db (.pullDeletion item now gate) = some (db', .pullDeletion .adopted)) : encodable t = true := by
  simp only [atomicStep, Option.some.injEq, Prod.mk.injEq, AtomicObs.pullDeletion.injEq] at hstep
  cases gate with
  | false =>
    rw [show syncDeletion env now false item db = (db, .rateLimited) by simp [syncDeletion, ht]] at hstep
    cases hstep.2
  | true =>
    cases hencodable : encodable t with
    | true => rfl
    | false =>
      rw [Adoption.syncDeletion_eq ht, if_pos (by simp [hencodable])] at hstep
      cases hstep.2

/-- An operation on what has been read keeps the tables as they should be. -/
theorem kept_step (hreal : KeepsText env) {e : AtomicEvent} {o : AtomicObs}
    (hkept : Kept env platform db) (he : HeardEvent platform db e) (hstep : atomicStep env db e = some (db', o)) :
    Kept env platform db' := by
  constructor
  · intro sig m hm
    rcases atomic_message hstep hm with hold | ⟨path, p, now, gate, identityGate, id, rfl, -, hv, rfl, rfl⟩
    · exact hkept.messages sig m hold
    · exact ⟨he, ⟨now, hv⟩, rfl, rfl⟩
  · intro sig r hr hconfirmed
    have hbury : ∀ row, TextRow row → (db.bury row).request sig = some r → TextRow r := by
      intro row hrow hr
      rw [Db.request_bury] at hr
      split at hr
      · cases hr
        exact hrow
      · exact hkept.tombstones sig r hr hconfirmed
    cases atomic_effect hstep with
    | same => exact hkept.tombstones sig r hr hconfirmed
    | stores _ _ _ _ hreq =>
      rw [hreq] at hr
      split at hr
      · cases hr
      · exact hkept.tombstones sig r hr hconfirmed
    | drops =>
      rw [Db.request_deleteRequest] at hr
      split at hr
      · cases hr
      · exact hkept.tombstones sig r hr hconfirmed
    | promotes hv _ hown =>
      obtain ⟨hkey, hrid⟩ := isText_of_owns hown (codePoints_text he.readable _)
      exact hbury _ ⟨isText_signature hv, hkey, hrid, isText_isoformat _⟩ hr
    | deletes _ hm hown =>
      have hreceived := hkept.messages _ _ hm
      obtain ⟨now, hvalid⟩ := hreceived.valid
      obtain ⟨hkey, hrid⟩ := isText_of_owns hown (hreceived.recipientId ▸ codePoints_text hreceived.payload.readable _)
      have htarget := isText_signature hvalid
      rw [← hreceived.signature, Table.lookup_key hm] at htarget
      exact hbury _ ⟨htarget, hkey, hrid, isText_isoformat _⟩ hr
    | records =>
      rw [Db.request_recordRequest] at hr
      split at hr
      · cases hr
        cases hconfirmed
      · exact hkept.tombstones sig r hr hconfirmed
    | adopts ht _ hrow =>
      have hcode : CodePoints _ := readable_get he.readable ht
      exact hbury _ (textRow_of_pulled hreal he.readable ⟨adopted_encodable ht hstep, hcode⟩ hrow) hr
    | loses => exact hkept.tombstones sig r (by simpa using hr) hconfirmed
    | sweeps _ _ hreq =>
      rw [hreq] at hr
      exact hkept.tombstones sig r (Option.filter_eq_some_iff.1 hr).1 hconfirmed

theorem kept_run (hreal : KeepsText env) {h : List (AtomicEvent × AtomicObs)}
    (hrun : Run (atomicStep env) (HeardEvent platform) .empty h db) : Kept env platform db :=
  hrun.inv (Kept env platform) ⟨by simp, by simp⟩ fun _ _ _ _ hkept he hstep => kept_step hreal hkept he hstep

theorem Kept.heard (h : Kept env platform db) : Heard platform (db.messages.rows.map Prod.snd) :=
  List.forall_mem_map.2 fun _ hr => (h.messages _ _ (Table.lookup_of_mem hr)).payload.readable

theorem Kept.texts (h : Kept env platform db) : ∀ r ∈ db.deletionRequests.rows, r.2.confirmed = true → TextRow r.2 :=
  fun _ hr => h.tombstones _ _ (Table.lookup_of_mem hr)

end

/-! ## What arrives -/

/-- The interpreter reads floats as it has printed them, decodes bytes to characters and ASCII to itself, and nests
deeper than a page. -/
structure Reads (platform : Platform) : Prop where
  stable : Stable platform.decoder.repr
  decodes : ∀ raw t, platform.decoder.decode raw = some t → CodePoints t
  ascii : ReadsAscii platform.decoder
  nesting : 2 < platform.decoder.nesting
  encoderNesting : 2 < platform.encoderNesting

theorem reads_usual : Reads .usual where
  stable := stable_usual
  decodes := decodes_usual
  ascii s hs := by
    refine if_pos (List.all_eq_true.2 fun c hc => ?_)
    have := hs c hc
    exact decide_eq_true (by omega)
  nesting := Nat.le_of_ble_eq_true rfl
  encoderNesting := Nat.le_of_ble_eq_true rfl

theorem keepsText_config : KeepsText Sample.config := by
  intro f s hf h
  cases h
  exact hf

theorem sample_seq : sampleNode.server.db.messages.seq < 2 ^ 63 ∧ sampleNode.server.db.deletionRequests.seq < 2 ^ 63 := by
  decide +kernel

/-- The sample relay has one message, and that is flat. -/
theorem sample_rows : sampleNode.server.db.messages.rows.map (fun r => nest (.obj (hop r.2.payload))) = [1] := by
  decide +kernel

theorem spares_sample {levels : Nat} (hlevels : levels ≤ 999) : ∀ r ∈ sampleNode.server.db.messages.rows,
    Spares .usual levels r.2.payload := by
  intro r hr
  have hnest : nest (.obj (hop r.2.payload)) = 1 := by
    have hmem : nest (.obj (hop r.2.payload)) ∈ [1] := sample_rows ▸ List.mem_map_of_mem hr
    exact List.mem_singleton.1 hmem
  have hsum : 1 + levels ≤ 1000 := by omega
  rw [Spares, hnest]
  exact ⟨hsum, hsum⟩

section
variable {env : Env} {interpreter : Interpreter} {client push pull : Limits} {time : ℚ} {h : List (Node.Event × Node.Obs)} {n : Process}

/-- What its operations keep an event keeps, of the tables and of the file. -/
theorem event_inv (hreads : Reads interpreter.toPlatform) {P : Db → Prop} {e : Node.Event} {o : Node.Obs} {n' : Process}
    (hkeeps : ∀ db a db' o, P db → HeardEvent interpreter.toPlatform db a → e.performs interpreter a →
      atomicStep env db a = some (db', o) → P db')
    (hp : P n.server.db ∧ P n.committed) (hstep : Node.step env interpreter n e = some (n', o)) :
    P n'.server.db ∧ P n'.committed := by
  have hdoes : ∀ {db}, Does env interpreter.toPlatform (e.performs interpreter) n.server.db db → P db := by
    rintro db ⟨l, hl⟩
    exact hl.inv P hp.1 fun db a db' o hp ha hstep => hkeeps db a db' o hp ha.1 ha.2 hstep
  cases hrestarts : e.restarts with
  | true =>
    obtain ⟨hdb, hfile⟩ := step_restarts hrestarts hstep
    rw [hdb, hfile]
    exact ⟨hp.2, hp.2⟩
  | false =>
    have hmoves := step_moves hreads.stable hreads.decodes hrestarts hstep
    refine ⟨hdoes hmoves.server, ?_⟩
    rcases hmoves.committed with hsame | hfile
    · rw [hsame]
      exact hp.2
    · exact hdoes hfile

theorem kept_node (hreads : Reads interpreter.toPlatform) (hreal : KeepsText env)
    (hrun : NodeRun env interpreter client push pull time h n) : Kept env interpreter.toPlatform n.server.db := by
  obtain ⟨⟨h', hrun'⟩, -⟩ := node_does hreads.stable hreads.decodes hrun
  exact kept_run hreal (hrun'.mono fun _ _ ha => ha.1)

/-- The page is no longer than a puller reads. -/
def Short (body : Json) : Prop := (encode (dumpsDefault body)).length ≤ maxBodyBytes

/-- A response with this body is sent, and a puller reads it back as the body. -/
def ReadBack (platform : Platform) (e : Ended) (body : Json) : Prop :=
  e = ⟨[⟨200, body⟩], none⟩ ∧ ∃ raw, AntiEntropy.readBoundedResponse (AntiEntropy.sendJson (dumpsDefault body)) maxBodyBytes = .ok raw ∧
    loads platform.decoder raw = .ok body

/-- A page that is read whole. -/
theorem readBoundedResponse_short {body : Json} (h : Short body) :
    AntiEntropy.readBoundedResponse (AntiEntropy.sendJson (dumpsDefault body)) maxBodyBytes = .ok (encode (dumpsDefault body)) := by
  have hlength : ¬ ((maxBodyBytes : Int) < ((encode (dumpsDefault body)).length : Int)) := by
    have := h
    unfold Short at this
    omega
  have htake : (encode (dumpsDefault body)).take (maxBodyBytes + 1) = encode (dumpsDefault body) :=
    List.take_of_length_le (Nat.le_succ_of_le h)
  simp only [AntiEntropy.readBoundedResponse, AntiEntropy.sendJson, Option.any_some, decide_eq_true_eq, if_neg hlength, htake,
    if_neg (Nat.not_lt.2 h)]

theorem readBoundedResponse_long {body : Json} (h : ¬ Short body) :
    ∃ e, AntiEntropy.readBoundedResponse (AntiEntropy.sendJson (dumpsDefault body)) maxBodyBytes = .error e :=
  AntiEntropy.readBoundedResponse_error (Nat.not_le.1 h)

theorem readBack_iff {platform : Platform} {e : Ended} {body : Json} : ReadBack platform e body ↔ Short body ∧ Arrives platform e body := by
  by_cases hshort : Short body
  · simp [ReadBack, Arrives, readBoundedResponse_short hshort, hshort]
  · obtain ⟨error, herror⟩ := readBoundedResponse_long hshort
    simp [ReadBack, herror, hshort]

/-- How long a page of tombstones is. -/
theorem short_deletionsPage_iff (s : State) (sinceId : Nat) : Short (deletionsPage s sinceId) ↔
    Gossip.pageBytes (lit "deletions") ((Gossip.deletionRows s.db sinceId).map Gossip.deletionBytes) ≤ maxBodyBytes := by
  rw [Short, dumps_deletionsPage, Gossip.length_deletionsBody]

/-- How long a page of messages is that are read as they were printed. -/
theorem short_messagesPage_iff {s : State} {sinceId : Nat}
    (h : ∀ r ∈ Gossip.messageRows s.db sinceId, hop r.2.payload = r.2.payload) : Short (messagesPage s sinceId) ↔
      Gossip.pageBytes (lit "messages") ((Gossip.messageRows s.db sinceId).map Gossip.messageBytes) ≤ maxBodyBytes := by
  rw [Short, dumps_messagesPage h, Gossip.length_messagesBody]

/-- A page of messages is answered and read back by a puller exactly when its `since_id` binds, it is no longer than the
puller reads, and each of its payloads has three levels to spare, whatever the relay has been sent. -/
theorem messages_page_arrives_iff (hreads : Reads interpreter.toPlatform) (hreal : KeepsText env)
    (hrun : NodeRun env interpreter client push pull time h n) (hseq : n.server.db.messages.seq < 2 ^ 63) (sinceId : Nat) :
    ReadBack interpreter.toPlatform (getMessages interpreter.toPlatform sinceId n.server) (messagesPage n.server sinceId) ↔
      sinceId < 2 ^ 63 ∧ Short (messagesPage n.server sinceId) ∧
        ∀ r ∈ Gossip.messageRows n.server.db sinceId, Spares interpreter.toPlatform 3 r.2.payload := by
  rw [readBack_iff, messages_arrive_iff hreads.stable hreads.ascii hreads.nesting hseq (kept_node hreads hreal hrun).heard, and_left_comm]

theorem short_sample : Short (messagesPage sampleNode.server 0) ∧ Short (deletionsPage sampleNode.server 0) := by
  unfold Short
  decide +kernel

/-- The page of the relay that has the sample message arrives. -/
theorem messages_page_arrives_sample :
    ReadBack .usual (getMessages .usual 0 sampleNode.server) (messagesPage sampleNode.server 0) := by
  refine (messages_page_arrives_iff reads_usual keepsText_config sample_run sample_seq.1 0).2 ⟨by decide, short_sample.1, ?_⟩
  exact fun r hr => spares_sample (Nat.le_of_ble_eq_true rfl) r (Gossip.mem_of_pageRows hr).1

/-- A page of tombstones is answered and read back by a puller exactly when its `since_id` binds and it is no longer than
the puller reads. -/
theorem deletions_page_arrives_iff (hreads : Reads interpreter.toPlatform) (hreal : KeepsText env)
    (hrun : NodeRun env interpreter client push pull time h n) (hseq : n.server.db.deletionRequests.seq < 2 ^ 63) (sinceId : Nat) :
    ReadBack interpreter.toPlatform (getDeletions interpreter.toPlatform sinceId n.server) (deletionsPage n.server sinceId) ↔
      sinceId < 2 ^ 63 ∧ Short (deletionsPage n.server sinceId) := by
  rw [readBack_iff, deletions_arrive_iff hreads.stable hreads.ascii hreads.nesting hreads.encoderNesting hseq
    (kept_node hreads hreal hrun).texts, and_comm]

theorem deletions_page_arrives_sample :
    ReadBack .usual (getDeletions .usual 0 sampleNode.server) (deletionsPage sampleNode.server 0) :=
  (deletions_page_arrives_iff reads_usual keepsText_config sample_run sample_seq.2 0).2 ⟨by decide, short_sample.2⟩

end

/-! ## How much clients can change -/

/-- What a request does to the limiter of its handler, and whether it has kept a token. -/
inductive Charges (r : RateLimiter) (clock : Readings) : RateLimiter → Bool → Prop
  | unasked : Charges r clock r false
  | asked {r' ok} : r.checkGlobal clock.checkGlobal = (r', ok) → Charges r clock r' ok
  | identity {key r' r'' ok} : r.checkGlobal clock.checkGlobal = (r', true) →
      r'.checkIdentity clock.checkIdentity key = (r'', ok) → Charges r clock r'' true
  | refunded {key r' r'' ok} : r.checkGlobal clock.checkGlobal = (r', true) →
      r'.checkIdentity clock.checkIdentity key = (r'', ok) → Charges r clock r''.refundGlobal false

section
variable {env : Env} {platform : Platform} {clock : Readings} {r r' : RateLimiter} {l : Limits} {now : ℚ} {s : State} {p : Dict}
  {paid : Bool}

theorem global_checkIdentity {key : Str} {t : ℚ} {ok : Bool} (h : r.checkIdentity t key = (r', ok)) : r'.global = r.global :=
  (congrArg (fun x => x.1.global) h).symm

open TokenBucket in
/-- A kept token comes off the level of the global bucket. -/
theorem Charges.pays (h : Charges r clock r' paid) (hw : r.global.Within l.globalCapacity l.globalRefillPerSecond now)
    (hle : now ≤ clock.checkGlobal) :
    r'.global.Within l.globalCapacity l.globalRefillPerSecond clock.checkGlobal ∧
      taken paid + r'.global.level clock.checkGlobal ≤ r.global.level clock.checkGlobal := by
  have htake : taken (r.checkGlobal clock.checkGlobal).2 + (r.checkGlobal clock.checkGlobal).1.global.level clock.checkGlobal =
      r.global.level clock.checkGlobal := level_tryTake l.globalCapacity_nonneg l.globalRefill_nonneg hw hle
  have hwithin : (r.checkGlobal clock.checkGlobal).1.global.Within l.globalCapacity l.globalRefillPerSecond clock.checkGlobal :=
    tryTake_within l.globalCapacity_nonneg l.globalRefill_nonneg hw hle
  cases h with
  | unasked =>
    refine ⟨hw.later hle, ?_⟩
    simp [taken]
  | asked hasked =>
    rw [hasked] at htake hwithin
    exact ⟨hwithin, htake.le⟩
  | identity hasked hidentity =>
    rw [hasked] at htake hwithin
    rw [global_checkIdentity hidentity]
    exact ⟨hwithin, htake.le⟩
  | @refunded _ r₁ r₂ _ hasked hidentity =>
    rw [hasked] at htake hwithin
    have hglobal : r₂.refundGlobal.global = r₁.global.refund := congrArg TokenBucket.refund (global_checkIdentity hidentity)
    have hrefund := level_refund_le r₁.global clock.checkGlobal
    rw [hglobal]
    refine ⟨refund_within hwithin l.globalCapacity_nonneg, ?_⟩
    simp only [taken, Bool.false_eq_true, if_false, if_true] at htake ⊢
    linarith

/-- A response with status 200 has been sent. -/
def isOk (e : Ended) : Bool := e.responses.any fun r => r.code = 200

/-- A handler keeps a token for what it answers with a 200, and changes no message for the rest. -/
structure Metes (clock : Readings) (s : State) (x : State × Ended) : Prop where
  charges : ∃ paid, Charges s.clientPublishLimiter clock x.1.clientPublishLimiter paid ∧ (isOk x.2 = true → paid = true)
  keeps : isOk x.2 = false → x.1.db.messages = s.db.messages

theorem not_isOk_error (platform : Platform) {code : Nat} (hcode : code ≠ 200) (body : Json) : isOk (sendJson platform code body) = false := by
  unfold sendJson
  split <;> simp [isOk, raises, hcode]

theorem isOk_sendJson (platform : Platform) {body : Json} (h : nest body ≤ 1) : isOk (sendJson platform 200 body) = true := by
  rw [sendJson_eq platform 200 (Nat.le_succ_of_le h)]
  rfl

/-- The outcomes that `/publish` answers with a 200. -/
theorem isOk_reply {o : Outcome} (h : isOk (RelayHandler.reply platform o) = false) :
    (∀ id, o ≠ .stored id) ∧ o ≠ .discarded := by
  constructor
  · rintro id rfl
    rw [RelayHandler.reply, isOk_sendJson platform le_rfl] at h
    cases h
  · rintro rfl
    rw [RelayHandler.reply, isOk_sendJson platform le_rfl] at h
    cases h

theorem publish_metes (env : Env) (platform : Platform) (clock : Readings) (p : Dict) (s : State) :
    Metes clock s (RelayHandler.publishObject env platform clock p s) := by
  constructor
  · unfold RelayHandler.publishObject
    rcases alreadyStored p s.db with e | (_ | _)
    · exact ⟨false, .unasked, by simp [isOk, raises]⟩
    · dsimp only
      rcases hglobal : s.clientPublishLimiter.checkGlobal clock.checkGlobal with ⟨limiter, _ | _⟩
      · exact ⟨false, .asked hglobal, by simp [not_isOk_error]⟩
      dsimp only
      rcases hasRoom env p s.db with e | (_ | _)
      · exact ⟨true, .asked hglobal, fun _ => rfl⟩
      · exact ⟨true, .asked hglobal, fun _ => rfl⟩
      rcases validatePublishPayload env clock.now p with e | (_ | error)
      · exact ⟨true, .asked hglobal, fun _ => rfl⟩
      · dsimp only
        rcases hidentity : limiter.checkIdentity clock.checkIdentity (p.text (lit "sender_pubkey")) with ⟨limiter', _ | _⟩
        · exact ⟨false, .refunded hglobal hidentity, by simp [not_isOk_error]⟩
        dsimp only
        rcases resolveDeletionRequest env clock.now (p.text (lit "signature")) (p.text (lit "recipient_id")) s.db with
          ⟨db, e | (_ | _)⟩
        · exact ⟨true, .identity hglobal hidentity, fun _ => rfl⟩
        · dsimp only
          rcases insertMessageAndMaybeGossip env p (p.text (lit "recipient_id")) clock.now db with ⟨db', e | (_ | _ | _)⟩ <;>
            exact ⟨true, .identity hglobal hidentity, fun _ => rfl⟩
        · exact ⟨true, .identity hglobal hidentity, fun _ => rfl⟩
      · exact ⟨true, .asked hglobal, fun _ => rfl⟩
    · exact ⟨false, .unasked, by simp [not_isOk_error]⟩
  · intro hno
    obtain ⟨hdb, hend⟩ := Prod.ext_iff.1 (RelayHandler.publishObject_eq env platform clock p s)
    dsimp only [Prod.map_fst, Prod.map_snd, id] at hdb hend
    rw [hend] at hno
    rw [hdb]
    obtain ⟨hstored, hdiscarded⟩ := isOk_reply hno
    have heffect := ingest_effect env .publish clock.now (s.globalGate clock) (s.identityGate clock (p.text (lit "sender_pubkey"))) p s.db
    generalize ingest env .publish clock.now (s.globalGate clock) (s.identityGate clock (p.text (lit "sender_pubkey"))) p s.db = x
      at heffect hstored hdiscarded ⊢
    obtain ⟨db, o⟩ := x
    cases heffect with
    | same => rfl
    | stores => exact absurd rfl (hstored _)
    | drops => rfl
    | promotes => exact absurd rfl hdiscarded

theorem delete_metes (env : Env) (platform : Platform) (clock : Readings) (v : Json) (s : State) :
    Metes clock s (RelayHandler.delete env platform clock v s) := by
  constructor
  · unfold RelayHandler.delete
    rcases hglobal : s.clientPublishLimiter.checkGlobal clock.checkGlobal with ⟨limiter, _ | _⟩
    · exact ⟨false, .asked hglobal, by simp [not_isOk_error]⟩
    cases v with
    | obj p =>
      simp only [RelayHandler.deleteObject]
      rcases validateDeletePayload env p with _ | error
      · rcases hidentity : limiter.checkIdentity clock.checkIdentity (Dict.text p (lit "recipient_pubkey")) with ⟨limiter', _ | _⟩
        · exact ⟨false, .refunded hglobal hidentity, by simp [not_isOk_error]⟩
        dsimp only
        rcases handleDeleteRequest env clock.now p s.db with ⟨db, e | reply⟩ <;>
          exact ⟨true, .identity hglobal hidentity, fun _ => rfl⟩
      · exact ⟨true, .asked hglobal, fun _ => rfl⟩
    | _ => exact ⟨true, .asked hglobal, fun _ => rfl⟩
  · intro hno
    by_cases hobj : ∃ p, v = .obj p
    · obtain ⟨p, rfl⟩ := hobj
      obtain ⟨hdb, hend⟩ := Prod.ext_iff.1 (RelayHandler.delete_eq env platform clock p s)
      dsimp only [Prod.map_fst, Prod.map_snd, id] at hdb hend
      rw [hend] at hno
      rw [hdb]
      have hreplied : ∀ reply, (doDelete env clock.now (s.deleteGate clock (Dict.text p (lit "recipient_pubkey"))) p s.db).2 ≠ .replied reply := by
        intro reply hreply
        rw [hreply, deleteEnd, isOk_sendJson platform (by cases reply <;> exact le_rfl)] at hno
        cases hno
      rcases doDelete_cases (Prod.mk.eta.symm : doDelete env clock.now (s.deleteGate clock (Dict.text p (lit "recipient_pubkey"))) p s.db = _)
        with ⟨hd, -⟩ | ⟨-, -, m, -, -, ho, -⟩ | ⟨-, -, -, ho, -⟩
      · rw [hd]
      · exact absurd ho (hreplied _)
      · exact absurd ho (hreplied _)
    · have hdb := Handler.run_db env platform clock (not_exists.1 hobj) .delete s
      rw [Handler.run] at hdb
      rw [hdb]

end

/-! ### Windows of time -/

/-- The requests that a token of the clients' limiter pays for. -/
def isPaid : Node.Event → Bool
  | .post .publish _ _ _ => true
  | .post .delete _ _ _ => true
  | _ => false

/-- A request to `/publish` or `/delete` that is answered with a 200. -/
def accepted : Node.Event × Node.Obs → Bool
  | (e, .post ended) => isPaid e && isOk ended
  | _ => false

section
variable {env : Env} {interpreter : Interpreter} {n n' : Process} {e : Node.Event} {o : Node.Obs} {clock : Readings}

theorem unmetered (clock : Readings) (s : State) {code : Nat} (hcode : code ≠ 200) (body : Json) :
    Metes clock s (s, sendJson interpreter.toPlatform code body) :=
  ⟨⟨false, .unasked, by simp [not_isOk_error _ hcode]⟩, fun _ => rfl⟩

/-- A request to `/publish` or `/delete`, from its bytes on. -/
theorem post_metes {h : Handler} (hh : h = .publish ∨ h = .delete) (header : Option Requests.HeaderText) (stream : Bytes) (s : State) :
    Metes clock s (doPost env interpreter.toPlatform clock h header stream s) := by
  have hcode : ∀ code error, (h.reading.run header stream).received = .answered code error → code ≠ 200 := by
    intro code error hanswered
    rw [Requests.Handler.run_eq, Requests.receive] at hanswered
    split at hanswered
    · cases hanswered
      omega
    split at hanswered
    · cases hanswered
    · cases hanswered
      omega
  unfold doPost
  split
  · rename_i code error hanswered
    exact unmetered clock s (hcode code error hanswered) _
  split
  · rename_i payload _
    rcases hh with rfl | rfl
    · cases payload with
      | obj p => exact publish_metes env interpreter.toPlatform clock p s
      | _ => exact ⟨⟨false, .unasked, by simp [Handler.run, RelayHandler.publish, isOk, raises]⟩, fun _ => rfl⟩
    · exact delete_metes env interpreter.toPlatform clock payload s
  · exact unmetered clock s (by omega) _
  · exact ⟨⟨false, .unasked, by simp [isOk, raises]⟩, fun _ => rfl⟩

theorem gossip_limiter (maxBodyBytes : Nat) (peerFingerprint : Option Str) (v : Json) (s : State) :
    ((Handler.gossipPublish maxBodyBytes peerFingerprint).run env interpreter.toPlatform clock v s).1.clientPublishLimiter =
        s.clientPublishLimiter ∧
      ((Handler.gossipDelete maxBodyBytes peerFingerprint).run env interpreter.toPlatform clock v s).1.clientPublishLimiter =
        s.clientPublishLimiter := by
  have hallow : (GossipHandler.allow clock peerFingerprint s).1.clientPublishLimiter = s.clientPublishLimiter := by
    cases peerFingerprint <;> rfl
  constructor
  · cases v with
    | obj p =>
      simp only [Handler.run, GossipHandler.publish, GossipHandler.publishObject]
      rcases alreadyStored p s.db with e | (_ | _)
      · rfl
      · dsimp only
        revert hallow
        rcases GossipHandler.allow clock peerFingerprint s with ⟨s', _ | _⟩
        · exact id
        intro hallow
        dsimp only at hallow ⊢
        rcases hasRoom env p s'.db with e | (_ | _)
        · exact hallow
        · exact hallow
        rcases validatePublishPayload env clock.now p with e | (_ | error)
        · exact hallow
        · dsimp only
          rcases resolveDeletionRequest env clock.now (Dict.text p (lit "signature")) (Dict.text p (lit "recipient_id")) s'.db with
            ⟨db, e | (_ | _)⟩
          · exact hallow
          · dsimp only
            rcases insertMessageAndMaybeGossip env p (Dict.text p (lit "recipient_id")) clock.now db with ⟨db', e | (_ | _ | _)⟩ <;>
              exact hallow
          · exact hallow
        · exact hallow
      · rfl
    | _ => rfl
  · simp only [Handler.run, GossipHandler.delete]
    revert hallow
    rcases GossipHandler.allow clock peerFingerprint s with ⟨s', _ | _⟩
    · exact id
    intro hallow
    dsimp only at hallow
    cases v with
    | obj p =>
      simp only [GossipHandler.deleteObject]
      rcases validateDeletePayload env p with _ | error
      · dsimp only
        rcases handleDeleteRequest env clock.now p s'.db with ⟨db, e | reply⟩ <;> exact hallow
      · exact hallow
    | _ => exact hallow

/-- No other event asks the limiter of the clients. -/
theorem limiter_kept (env : Env) (interpreter : Interpreter) (n : Process) (hunpaid : isPaid e = false) (hrestart : e.restarts = false) :
    (handle env interpreter n e).1.server.clientPublishLimiter = n.server.clientPublishLimiter := by
  cases e with
  | post h header stream clock =>
    simp only [handle, doPost]
    split
    · rfl
    split
    · rename_i payload _
      cases h with
      | publish | delete => cases hunpaid
      | fetch =>
        cases payload with
        | obj p =>
          simp only [Handler.run, RelayHandler.fetch]
          split <;> rfl
        | _ => rfl
      | gossipPublish maxBodyBytes peerFingerprint => exact (gossip_limiter maxBodyBytes peerFingerprint payload n.server).1
      | gossipDelete maxBodyBytes peerFingerprint => exact (gossip_limiter maxBodyBytes peerFingerprint payload n.server).2
    · rfl
    · rfl
  | syncWithPeer time fingerprint clocks reply =>
    simp only [handle, syncWithPeer]
    apply syncPage_rel (R := fun n n' => n'.server.clientPublishLimiter = n.server.clientPublishLimiter)
    · exact fun _ => rfl
    · exact fun h h' => h'.trans h
    · intro k item maxId n hsent
      unfold pullMessage
      split
      · rename_i object
        split
        · rfl
        · rename_i p hp
          obtain ⟨limiter, h | h⟩ := pullPayload_cases fingerprint object p maxId <;> rw [h] <;> rfl
        · rfl
      · rfl
    · exact fun _ _ _ h => h
  | syncDeletionsWithPeer time fingerprint clocks reply =>
    simp only [handle, syncDeletionsWithPeer]
    apply syncPage_rel (R := fun n n' => n'.server.clientPublishLimiter = n.server.clientPublishLimiter)
    · exact fun _ => rfl
    · exact fun h h' => h'.trans h
    · intro k item maxId n _
      obtain ⟨limiter, h | ⟨p, rfl, h⟩⟩ := pullDeletion_cases fingerprint item maxId <;> rw [h] <;> rfl
    · exact fun _ _ _ h => h
  | sweep => rfl
  | restart => cases hrestart

/-- What a request that has to be paid does. -/
theorem handle_metes (hpaid : isPaid e = true) (hhandle : handle env interpreter n e = (n', o)) :
    ∃ clock ended, e.time = clock.checkGlobal ∧ o = .post ended ∧ n'.clock = e.time ∧ Metes clock n.server (n'.server, ended) := by
  cases e with
  | post h header stream clock =>
    cases hhandle
    refine ⟨clock, _, rfl, rfl, rfl, post_metes ?_ header stream n.server⟩
    cases h with
    | publish => exact .inl rfl
    | delete => exact .inr rfl
    | _ => cases hpaid
  | _ => cases hpaid

/-- A relay up to its next restart. -/
def upStep (env : Env) (interpreter : Interpreter) : System Process Node.Event Node.Obs := fun n e =>
  if e.restarts then none else Node.step env interpreter n e

theorem upStep_eq (h : upStep env interpreter n e = some (n', o)) :
    e.restarts = false ∧ n.clock ≤ e.time ∧ handle env interpreter n e = (n', o) := by
  unfold upStep at h
  cases hrestart : e.restarts with
  | true =>
    rw [if_pos hrestart] at h
    cases h
  | false =>
    rw [if_neg (by simp [hrestart])] at h
    obtain ⟨hclock, hhandle⟩ := step_eq h
    exact ⟨rfl, hclock.resolve_left (by simp [hrestart]), hhandle⟩

theorem clock_handle (hhandle : handle env interpreter n e = (n', o)) : n'.clock = e.time := by
  cases e <;> cases hhandle <;> rfl

/-- The global bucket of the clients meters the accepted requests. -/
theorem accepted_metered (env : Env) (interpreter : Interpreter) (l : Limits) :
    Bucket.Metered (upStep env interpreter) Any
      (fun _ n => n.server.clientPublishLimiter.global.Within l.globalCapacity l.globalRefillPerSecond n.clock) Process.clock
      Event.time (fun n t => n.server.clientPublishLimiter.global.level t) l.globalCapacity l.globalRefillPerSecond
      fun x => TokenBucket.taken (accepted x) := by
  have hsteps : ∀ n e n' o, n.server.clientPublishLimiter.global.Within l.globalCapacity l.globalRefillPerSecond n.clock →
      upStep env interpreter n e = some (n', o) →
      n'.server.clientPublishLimiter.global.Within l.globalCapacity l.globalRefillPerSecond n'.clock ∧
        TokenBucket.taken (accepted (e, o)) + n'.server.clientPublishLimiter.global.level e.time ≤
          n.server.clientPublishLimiter.global.level e.time := by
    intro n e n' o hwithin hstep
    obtain ⟨hrestart, hle, hhandle⟩ := upStep_eq hstep
    cases hpaid : isPaid e with
    | true =>
      obtain ⟨clock, ended, htime, rfl, hclock, ⟨paid, hcharges, hok⟩, -⟩ := handle_metes hpaid hhandle
      rw [htime] at hle hclock ⊢
      obtain ⟨hwithin', hlevel⟩ := hcharges.pays hwithin hle
      refine ⟨hclock ▸ hwithin', le_trans ?_ hlevel⟩
      cases hended : isOk ended with
      | true => simp [accepted, hpaid, hended, hok hended]
      | false =>
        have hnone : TokenBucket.taken false ≤ TokenBucket.taken paid := by cases paid <;> simp [TokenBucket.taken]
        simpa [accepted, hpaid, hended] using hnone
    | false =>
      have hkept := limiter_kept env interpreter n hpaid hrestart
      rw [hhandle] at hkept
      have hno : accepted (e, o) = false := by cases o <;> simp [accepted, hpaid]
      dsimp only at hkept
      rw [hkept, clock_handle hhandle, hno]
      refine ⟨hwithin.later hle, ?_⟩
      simp [TokenBucket.taken]
  constructor
  · exact l.globalRefill_nonneg
  · intro n e n' o hstep
    obtain ⟨-, hle, hhandle⟩ := upStep_eq hstep
    exact ⟨hle, clock_handle hhandle⟩
  · exact fun _ n e n' o hwithin _ hstep => (hsteps n e n' o hwithin hstep).1
  · exact fun _ n t hwithin ht => hwithin.level_nonneg l.globalCapacity_nonneg l.globalRefill_nonneg ht
  · exact fun _ n t hwithin => hwithin.level_le
  · exact fun _ n t d hwithin hd => hwithin.level_add_le l.globalRefill_nonneg hd
  · exact fun _ n e n' o hwithin _ hstep => (hsteps n e n' o hwithin hstep).2

/-- Without a restart the steps are those of a relay that is up. -/
theorem up_run {n₀ : Process} {h : List (Node.Event × Node.Obs)}
    (hrun : Run (Node.step env interpreter) (fun _ e => e.restarts = false) n₀ h n) : Run (upStep env interpreter) Any n₀ h n := by
  induction hrun with
  | nil => exact .nil
  | snoc _ hrestart hstep ih =>
    refine ih.snoc trivial ?_
    rw [upStep, if_neg (by simp [hrestart])]
    exact hstep

theorem sum_accepted (h : List (Node.Event × Node.Obs)) :
    (h.map fun x => TokenBucket.taken (accepted x)).sum = (h.countP accepted : ℚ) := by
  induction h with
  | nil => rfl
  | cons x h ih =>
    rw [List.map_cons, List.sum_cons, ih, List.countP_cons]
    cases accepted x <;> simp [TokenBucket.taken, add_comm]

/-- Clients change the stored messages by accepted requests only, and in a window of `d` seconds of an uptime no more
of them are accepted than the limiter's capacity and what it refills, whatever else happens. -/
theorem client_changes_bounded {db : Db} {client push pull : Limits} {time : ℚ} {h : List (Node.Event × Node.Obs)}
    (hrun : Run (Node.step env interpreter) (fun _ e => e.restarts = false) (start db client push pull time) h n) (a : ℚ) {d : ℚ}
    (hd : 0 ≤ d) :
    ((Bucket.window Event.time a (a + d) h).countP accepted : ℚ) ≤ client.globalCapacity + d * client.globalRefillPerSecond ∧
      ∀ pre x post, h = pre ++ x :: post → isPaid x.1 = true → accepted x = false →
        ∃ t t', Run (Node.step env interpreter) Any (start db client push pull time) pre t ∧
          Node.step env interpreter t x.1 = some (t', x.2) ∧ t'.server.db.messages = t.server.db.messages := by
  constructor
  · have hab : a ≤ a + d := le_add_of_nonneg_right hd
    have hstart : (start db client push pull time).server.clientPublishLimiter.global.Within client.globalCapacity
        client.globalRefillPerSecond time := TokenBucket.new_within client.globalCapacity_nonneg
    have hcost := (accepted_metered env interpreter client).window_le hstart (up_run hrun) hab
    rwa [sum_accepted, add_sub_cancel_left] at hcost
  · rintro pre ⟨e, o⟩ post hsplit hpaid hno
    obtain ⟨t, t', hpre, -, hstep, -⟩ := hrun.fired hsplit
    refine ⟨t, t', hpre.any, hstep, ?_⟩
    obtain ⟨clock, ended, -, rfl, -, hmetes⟩ := handle_metes hpaid (step_eq hstep).2
    apply hmetes.keeps
    simpa [accepted, hpaid] using hno

/-- One message is accepted of a client that may publish two. -/
theorem client_changes_bounded_sample :
    ((Bucket.window Event.time 0 (0 + 60) [(samplePost, (handle Sample.config usualInterpreter sampleStart samplePost).2)]).countP
        accepted : ℚ) ≤ 2 + 60 * burst.globalRefillPerSecond :=
  (client_changes_bounded (Run.nil.snoc rfl sample_step) 0 (by norm_num)).1

end

end AetherNode.Answers
