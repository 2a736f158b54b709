import AetherNode.Adoption
import AetherNode.Lib.JsonGrammar
/-!
# Pages of arbitrary items

A peer can put any JSON object into a page. Most of them are paged past, but
some make the loop raise, and the cursor is saved only after the loop: the
next round meets the same page again. For either loop `Blocks...` lists what
raises, by the state the item meets.
-/
open AetherNode.Lib AetherNode.Lib.Json AetherNode.Lib.JsonText AetherNode.Protocol AetherNode.AntiEntropy

namespace AetherNode.Malformed

variable {env : Env} {now : Datetime} {p item : Dict} {db : Db}

/-! ## A round on a page -/

/-- A page within the size bound, whose items are objects with increasing integer ids above the cursor. -/
structure Page (dec : Decoder) (name : Str) (sinceId : Nat) where
  body : Bytes
  doc : Document
  data : Dict
  items : List (Nat × Dict)
  bounded : body.length ≤ maxBodyBytes
  text : dec.decode body = some doc.text
  value : doc.doc.value dec.repr = .obj data
  served : data.get name = some (.arr (items.map fun x => .obj x.2))
  ids : ∀ x ∈ items, x.2.get (lit "id") = some (.int x.1)
  increasing : items.Pairwise fun a b => a.1 < b.1
  above : ∀ x ∈ items, sinceId < x.1

/-- One item of the loop of `_sync_with_peer`; its id is a number. -/
def syncItem (env : Env) (round : Round) (k : Nat) (item : Dict) (db : Db) : Db × ItemEnd :=
  match item.get (lit "payload") with
  | none => (db, .raised .keyError)
  | some (.obj payload) =>
    match ingest env .antiEntropyPull round.now (round.checkGlobal k) (round.checkIdentity k) payload db with
    | (db', .rateLimited) => (db', .throttled)
    | (db', .raised e) => (db', .raised e)
    | (db', _) => (db', .seen)
  | some _ => (db, .raised .attributeError)

/-- One item of the loop of `_sync_deletions_with_peer`. -/
def syncDeletionItem (env : Env) (round : Round) (k : Nat) (item : Dict) (db : Db) : Db × ItemEnd :=
  match Adoption.pullItem env round.now (round.checkGlobal k && round.checkIdentity k) item db with
  | (db', .rateLimited) => (db', .throttled)
  | (db', .raised e) => (db', .raised e)
  | (db', _) => (db', .seen)

/-- How a round on a page ends: the new cursor is saved, `json.loads` raises, or an item does. -/
inductive PageEnd where
  | refused (e : PyError)
  | unreadable
  | saved (maxId : Nat)
  | raised (e : PyError)

/-- A round against a peer that answers with this page. -/
def syncPage {dec : Decoder} {name : Str} {sinceId : Nat} (item : Nat → Dict → Db → Db × ItemEnd)
    (page : Page dec name sinceId) (db : Db) : Db × PageEnd :=
  match readBoundedResponse ⟨some page.body.length, page.body⟩ maxBodyBytes with
  | .error e => (db, .refused e)
  | .ok _ =>
    match dec.loads page.doc with
    | none => (db, .unreadable)
    | some _ =>
      match syncRows item 0 sinceId db page.items with
      | (db', .ok maxId) => (db', .saved maxId)
      | (db', .error e) => (db', .raised e)

/-! ## A loop that no limiter stops -/

/-- The tables after these items, each taken to its end. -/
def handled (item : Dict → Db → Db × ItemEnd) (db : Db) (rows : List (Nat × Dict)) : Db :=
  rows.foldl (fun db x => (item x.2 db).1) db

/-- No item of the page raises in the tables that the items before it leave. -/
def NoneBlocks (blocks : Dict → Db → Prop) (item : Dict → Db → Db × ItemEnd) (db : Db) (rows : List (Nat × Dict)) : Prop :=
  ∀ pre x post, rows = pre ++ x :: post → ¬ blocks x.2 (handled item db pre)

theorem noneBlocks_cons {blocks : Dict → Db → Prop} {f : Dict → Db → Db × ItemEnd} {x : Nat × Dict}
    {rows : List (Nat × Dict)} : NoneBlocks blocks f db (x :: rows) ↔
      ¬ blocks x.2 db ∧ NoneBlocks blocks f (f x.2 db).1 rows := by
  constructor
  · intro h
    exact ⟨h [] x rows rfl, fun pre y post hrows => h (x :: pre) y post (by rw [hrows]; rfl)⟩
  · rintro ⟨hx, hrest⟩ pre y post hrows
    cases pre with
    | nil =>
      obtain ⟨rfl, -⟩ := List.cons.inj hrows
      exact hx
    | cons z pre =>
      obtain ⟨rfl, htail⟩ := List.cons.inj hrows
      exact hrest pre y post htail

/-- The cursor never goes back. -/
theorem syncRows_grows {f : Nat → Dict → Db → Db × ItemEnd} {rows : List (Nat × Dict)} {k c maxId : Nat} {db db' : Db}
    (h : syncRows f k c db rows = (db', .ok maxId)) : c ≤ maxId := by
  induction rows generalizing k c db with
  | nil =>
    cases h
    exact Nat.le_refl _
  | cons x rows ih =>
    rw [syncRows] at h
    split at h
    · exact Nat.le_trans (Nat.le_max_left _ _) (ih h)
    · cases h
      exact Nat.le_refl _
    · cases h

/-- The loop comes to its end exactly when no item raises, and then it has taken every item and passed every id. -/
theorem syncRows_ends_iff {f : Dict → Db → Db × ItemEnd} {blocks : Dict → Db → Prop} {rows : List (Nat × Dict)}
    (hseen : ∀ x ∈ rows, ∀ db, (f x.2 db).2 ≠ .throttled)
    (hblocks : ∀ x ∈ rows, ∀ db, (∃ e, (f x.2 db).2 = .raised e) ↔ blocks x.2 db) (k c : Nat) :
    (∃ maxId, syncRows (fun _ => f) k c db rows = (handled f db rows, .ok maxId) ∧ ∀ x ∈ rows, x.1 ≤ maxId) ↔
      NoneBlocks blocks f db rows := by
  induction rows generalizing k c db with
  | nil =>
    refine iff_of_true ⟨c, rfl, by simp⟩ ?_
    intro pre x post h
    simp at h
  | cons x rows ih =>
    have hrest : (∃ maxId, syncRows (fun _ => f) (k + 1) (max c x.1) (f x.2 db).1 rows = (handled f (f x.2 db).1 rows, .ok maxId) ∧
        ∀ y ∈ rows, y.1 ≤ maxId) ↔ NoneBlocks blocks f (f x.2 db).1 rows :=
      ih (fun y hy => hseen y (List.mem_cons_of_mem _ hy)) (fun y hy => hblocks y (List.mem_cons_of_mem _ hy)) (k + 1) (max c x.1)
    rw [noneBlocks_cons, ← hblocks x List.mem_cons_self, ← hrest]
    cases hx : f x.2 db with
    | mk db' ending =>
      cases ending with
      | seen =>
        have hstep : syncRows (fun _ => f) k c db (x :: rows) = syncRows (fun _ => f) (k + 1) (max c x.1) db' rows := by
          rw [syncRows, hx]
        have hhandled : handled f db (x :: rows) = handled f db' rows := by
          rw [handled, List.foldl_cons, hx, ← handled]
        rw [hstep, hhandled]
        simp only [reduceCtorEq, exists_false, not_false_eq_true, true_and, List.forall_mem_cons]
        constructor
        · rintro ⟨maxId, heq, -, hrest⟩
          exact ⟨maxId, heq, hrest⟩
        · rintro ⟨maxId, heq, hrest⟩
          exact ⟨maxId, heq, Nat.le_trans (Nat.le_max_right _ _) (syncRows_grows heq), hrest⟩
      | throttled =>
        have := hseen x List.mem_cons_self db
        rw [hx] at this
        exact absurd rfl this
      | raised e =>
        have hstep : syncRows (fun _ => f) k c db (x :: rows) = (db', .error e) := by rw [syncRows, hx]
        rw [hstep]
        refine iff_of_false ?_ (fun h => h.1 ⟨e, rfl⟩)
        rintro ⟨maxId, heq, -⟩
        cases heq

/-! ## What raises -/

/-- The signature is a text that is stored. -/
def Stored (p : Dict) (db : Db) : Prop := ∃ s, p.get (lit "signature") = some (.str s) ∧ (db.message s).isSome = true

/-- The recipient is a text whose inbox is full. -/
def Full (env : Env) (p : Dict) (db : Db) : Prop :=
  ∃ r, p.get (lit "recipient_id") = some (.str r) ∧ quotaReached env r db = true

/-- The payload is new, there is room for it, and it is valid. -/
structure Admitted (env : Env) (now : Datetime) (p : Dict) (db : Db) : Prop where
  unstored : ¬ Stored p db
  room : ¬ Full env p db
  valid : ValidPublish env now p

/-- The payloads that make the loop raise. -/
inductive BlocksPayload (env : Env) (now : Datetime) (p : Dict) (db : Db) : Prop
  /-- The signature does not bind. -/
  | signature {s} : p.get (lit "signature") = some (.str s) → encodable s = false → BlocksPayload env now p db
  /-- The recipient does not bind. -/
  | recipient {r} : ¬ Stored p db → p.get (lit "recipient_id") = some (.str r) → encodable r = false →
      BlocksPayload env now p db
  /-- A bound of the validation is after the last year. -/
  | clock {e} : ¬ Stored p db → ¬ Full env p db → validatePublishPayload env now p = .error e → BlocksPayload env now p db
  /-- There is a pending claim by a key whose addresses cannot be computed. -/
  | claim {key e} : Admitted env now p db → Pending db (p.text (lit "signature")) key →
      claimMatches env now key (p.text (lit "recipient_id")) = .error e → BlocksPayload env now p db
  /-- It would be stored, and its expiry does not bind. -/
  | expiry : Admitted env now p db → db.confirmed (p.text (lit "signature")) = false →
      (∀ key, Pending db (p.text (lit "signature")) key → ¬ Owns env now key (p.text (lit "recipient_id"))) →
      encodable (p.text (lit "expires_at")) = false → BlocksPayload env now p db

theorem alreadyStored_error {e : PyError} (h : alreadyStored p db = .error e) :
    ∃ s, p.get (lit "signature") = some (.str s) ∧ encodable s = false := by
  unfold alreadyStored messageExists at h
  split at h
  · rename_i s hs
    split at h
    · cases h
    · rename_i hunbound
      exact ⟨s, hs, Bool.eq_false_iff.2 hunbound⟩
  · cases h

theorem alreadyStored_ok {b : Bool} (h : alreadyStored p db = .ok b) :
    (∀ s, p.get (lit "signature") = some (.str s) → encodable s = true) ∧ (Stored p db ↔ b = true) := by
  unfold alreadyStored messageExists at h
  split at h
  · rename_i s hs
    split at h
    · rename_i hbinds
      cases h
      refine ⟨?_, ?_, fun hm => ⟨s, hs, hm⟩⟩
      · intro s' hs'
        rw [hs] at hs'
        cases hs'
        exact hbinds
      · rintro ⟨s', hs', hm⟩
        rw [hs] at hs'
        cases hs'
        exact hm
    · cases h
  · rename_i hno
    cases h
    refine ⟨fun s hs => absurd hs (hno s), ?_, fun hfalse => by cases hfalse⟩
    rintro ⟨s, hs, -⟩
    exact absurd hs (hno s)

theorem hasRoom_error {e : PyError} (h : hasRoom env p db = .error e) :
    ∃ r, p.get (lit "recipient_id") = some (.str r) ∧ encodable r = false := by
  unfold hasRoom checkRecipientQuota at h
  split at h
  · rename_i r hr
    split at h
    · cases h
    · rename_i hunbound
      exact ⟨r, hr, Bool.eq_false_iff.2 hunbound⟩
  · cases h

theorem hasRoom_ok {b : Bool} (h : hasRoom env p db = .ok b) :
    (∀ r, p.get (lit "recipient_id") = some (.str r) → encodable r = true) ∧ (Full env p db ↔ b = false) := by
  unfold hasRoom checkRecipientQuota at h
  split at h
  · rename_i r hr
    split at h
    · rename_i hbinds
      cases h
      refine ⟨?_, ?_, fun hq => ⟨r, hr, by simpa using hq⟩⟩
      · intro r' hr'
        rw [hr] at hr'
        cases hr'
        exact hbinds
      · rintro ⟨r', hr', hq⟩
        rw [hr] at hr'
        cases hr'
        simpa using hq
    · cases h
  · rename_i hno
    cases h
    refine ⟨fun r hr => absurd hr (hno r), ?_, fun hfalse => by cases hfalse⟩
    rintro ⟨r, hr, -⟩
    exact absurd hr (hno r)

/-- Inserting a valid payload there is room for raises only for its expiry. -/
theorem insert_raises_iff (hv : ValidPublish env now p) (hbinds : encodable (p.text (lit "recipient_id")) = true)
    (hroom : quotaReached env (p.text (lit "recipient_id")) db = false) :
    (∃ e, insertOutcome (insertMessageAndMaybeGossip env p (p.text (lit "recipient_id")) now db).2 = .raised e) ↔
      encodable (p.text (lit "expires_at")) = false := by
  obtain ⟨der, hder⟩ := Verifier.pubkey_text hv.verified
  have hsender : encodable (p.text (lit "sender_pubkey")) = true := encodable_of_b64decode hder
  have hrow : (messageOf p (p.text (lit "recipient_id")) now).binds = encodable (p.text (lit "expires_at")) := by
    simp [Message.binds, messageOf, hbinds, hsender, Verifier.signature_encodable hv.verified]
  unfold insertMessageAndMaybeGossip
  simp only [hbinds, hroom, hrow]
  cases encodable (p.text (lit "expires_at")) with
  | false => simp [insertOutcome]
  | true =>
    simp only [Bool.not_true, Bool.false_eq_true, if_false, reduceCtorEq, iff_false]
    split <;> simp [insertOutcome]

theorem pending_unique {sig key key' : Str} (h : Pending db sig key) (h' : Pending db sig key') : key = key' := by
  obtain ⟨r, hr, -, rfl⟩ := h
  obtain ⟨r', hr', -, rfl⟩ := h'
  rw [hr] at hr'
  cases hr'
  rfl

theorem pending_not_confirmed {sig key : Str} (h : Pending db sig key) : db.confirmed sig = false := by
  obtain ⟨r, hr, hc, -⟩ := h
  simp [Db.confirmed, hr, hc]

/-- What is left of `BlocksPayload` for a payload that is admitted and whose texts bind. -/
theorem blocks_admitted (h : Admitted env now p db) (hsig : ∀ s, p.get (lit "signature") = some (.str s) → encodable s = true)
    (hrec : ∀ r, p.get (lit "recipient_id") = some (.str r) → encodable r = true) (hb : BlocksPayload env now p db) :
    (∃ key e, Pending db (p.text (lit "signature")) key ∧ claimMatches env now key (p.text (lit "recipient_id")) = .error e) ∨
      db.confirmed (p.text (lit "signature")) = false ∧
        (∀ key, Pending db (p.text (lit "signature")) key → ¬ Owns env now key (p.text (lit "recipient_id"))) ∧
        encodable (p.text (lit "expires_at")) = false := by
  cases hb with
  | signature hs hunbound => rw [hsig _ hs] at hunbound; cases hunbound
  | recipient _ hr hunbound => rw [hrec _ hr] at hunbound; cases hunbound
  | clock _ _ herror => rw [validatePublishPayload_none.2 h.valid] at herror; cases herror
  | claim _ hp he => exact .inl ⟨_, _, hp, he⟩
  | expiry _ hc hown hunbound => exact .inr ⟨hc, hown, hunbound⟩

/-- A payload that is admitted raises in its resolution or in its insert. -/
theorem admitted_raises_iff (h : Admitted env now p db)
    (hsig : ∀ s, p.get (lit "signature") = some (.str s) → encodable s = true)
    (hrec : ∀ r, p.get (lit "recipient_id") = some (.str r) → encodable r = true) (hroom : hasRoom env p db = .ok true) :
    (∃ e, (ingest env .antiEntropyPull now true true p db).2 = .raised e) ↔ BlocksPayload env now p db := by
  obtain ⟨r, hr, -⟩ := h.valid.recipient
  obtain ⟨s, b, hs, -⟩ := env.verifier.signature_decodes p _ h.valid.verified
  have hbinds : encodable (p.text (lit "recipient_id")) = true := by rw [Dict.text_eq hr]; exact hrec r hr
  have hquota : quotaReached env (p.text (lit "recipient_id")) db = false := by
    rw [Dict.text_eq hr, Bool.eq_false_iff]
    exact fun hq => h.room ⟨r, hr, hq⟩
  have hnew : db.message (p.text (lit "signature")) = none := by
    rw [Dict.text_eq hs, ← Option.not_isSome_iff_eq_none]
    exact fun hm => h.unstored ⟨s, hs, hm⟩
  have hsigbinds := Verifier.signature_encodable h.valid.verified
  rw [ingest_admitted h.valid hnew hroom]
  cases hres : resolveDeletionRequest env now (p.text (lit "signature")) (p.text (lit "recipient_id")) db with
  | mk db' result =>
    rcases resolve_cases hsigbinds hres with ⟨hreq, rfl, rfl⟩ | ⟨hc, rfl, rfl⟩ |
      ⟨key, hp, ⟨e, he, rfl, rfl⟩ | ⟨hown, rfl, rfl⟩ | ⟨hno, rfl, rfl⟩⟩
    · -- Nothing was asked about this signature.
      have hnone : ∀ key, ¬ Pending db' (p.text (lit "signature")) key := by
        rintro key ⟨row, hrow, -⟩
        rw [hreq] at hrow
        cases hrow
      dsimp only
      rw [insert_raises_iff h.valid hbinds hquota]
      constructor
      · intro hunbound
        exact .expiry h (by simp [Db.confirmed, hreq]) (fun key hp => absurd hp (hnone key)) hunbound
      · intro hb
        rcases blocks_admitted h hsig hrec hb with ⟨key, e, hp, -⟩ | ⟨-, -, hunbound⟩
        · exact absurd hp (hnone key)
        · exact hunbound
    · refine iff_of_false (by simp) ?_
      intro hb
      rcases blocks_admitted h hsig hrec hb with ⟨key, e, hp, -⟩ | ⟨hunconfirmed, -⟩
      · rw [pending_not_confirmed hp] at hc
        cases hc
      · rw [hunconfirmed] at hc
        cases hc
    · exact iff_of_true ⟨e, rfl⟩ (.claim h hp he)
    · refine iff_of_false (by simp) ?_
      intro hb
      rcases blocks_admitted h hsig hrec hb with ⟨key', e, hp', he⟩ | ⟨-, hothers, -⟩
      · rw [pending_unique hp' hp, owns_iff.1 hown] at he
        cases he
      · exact hothers key hp hown
    · have hquota' : quotaReached env (p.text (lit "recipient_id")) (db.deleteRequest (p.text (lit "signature"))) = false :=
        hquota
      dsimp only
      rw [insert_raises_iff h.valid hbinds hquota']
      constructor
      · intro hunbound
        refine .expiry h (pending_not_confirmed hp) ?_ hunbound
        intro key' hp' hown
        rw [pending_unique hp' hp, owns_iff, hno] at hown
        cases hown
      · intro hb
        rcases blocks_admitted h hsig hrec hb with ⟨key', e, hp', he⟩ | ⟨-, -, hunbound⟩
        · rw [pending_unique hp' hp, hno] at he
          cases he
        · exact hunbound

/-! What each check leaves of `BlocksPayload`. -/

theorem BlocksPayload.unstored (h : BlocksPayload env now p db)
    (hsig : ∀ s, p.get (lit "signature") = some (.str s) → encodable s = true) : ¬ Stored p db := by
  cases h with
  | signature hs hunbound => rw [hsig _ hs] at hunbound; cases hunbound
  | recipient hun | clock hun => exact hun
  | claim h | expiry h => exact h.unstored

theorem BlocksPayload.room (h : BlocksPayload env now p db)
    (hsig : ∀ s, p.get (lit "signature") = some (.str s) → encodable s = true)
    (hrec : ∀ r, p.get (lit "recipient_id") = some (.str r) → encodable r = true) : ¬ Full env p db := by
  cases h with
  | signature hs hunbound => rw [hsig _ hs] at hunbound; cases hunbound
  | recipient _ hr hunbound => rw [hrec _ hr] at hunbound; cases hunbound
  | clock _ hfree => exact hfree
  | claim h | expiry h => exact h.room

theorem BlocksPayload.not_invalid (h : BlocksPayload env now p db)
    (hsig : ∀ s, p.get (lit "signature") = some (.str s) → encodable s = true)
    (hrec : ∀ r, p.get (lit "recipient_id") = some (.str r) → encodable r = true) (error : Str) :
    validatePublishPayload env now p ≠ .ok (some error) := by
  cases h with
  | signature hs hunbound => rw [hsig _ hs] at hunbound; cases hunbound
  | recipient _ hr hunbound => rw [hrec _ hr] at hunbound; cases hunbound
  | clock _ _ herror => rw [herror]; simp
  | claim h | expiry h => rw [validatePublishPayload_none.2 h.valid]; simp

/-- The objects that make a publish raise, by the answers of the limiters. -/
inductive PublishRaises (env : Env) (now : Datetime) (gate identityGate : Bool) (p : Dict) (db : Db) : Prop
  /-- The signature does not bind. -/
  | signature {sig} : p.get (lit "signature") = some (.str sig) → encodable sig = false →
      PublishRaises env now gate identityGate p db
  /-- The recipient does not bind. -/
  | recipient {r} : gate = true → ¬ Stored p db → p.get (lit "recipient_id") = some (.str r) →
      encodable r = false → PublishRaises env now gate identityGate p db
  /-- A bound of the validation is after the last year. -/
  | clock {e} : gate = true → ¬ Stored p db → ¬ Full env p db →
      validatePublishPayload env now p = .error e → PublishRaises env now gate identityGate p db
  /-- There is a pending claim by a key whose addresses cannot be computed. -/
  | claim {key e} : gate = true → identityGate = true → Admitted env now p db →
      Pending db (p.text (lit "signature")) key → claimMatches env now key (p.text (lit "recipient_id")) = .error e →
      PublishRaises env now gate identityGate p db
  /-- It would be stored, and its expiry does not bind. -/
  | expiry : gate = true → identityGate = true → Admitted env now p db →
      db.confirmed (p.text (lit "signature")) = false →
      (∀ key, Pending db (p.text (lit "signature")) key → ¬ Owns env now key (p.text (lit "recipient_id"))) →
      encodable (p.text (lit "expires_at")) = false → PublishRaises env now gate identityGate p db

section
variable {gate identityGate : Bool}

theorem PublishRaises.blocks (h : PublishRaises env now gate identityGate p db) : BlocksPayload env now p db := by
  cases h with
  | signature hs hunbound => exact .signature hs hunbound
  | recipient _ hstored hr hunbound => exact .recipient hstored hr hunbound
  | clock _ hstored hroom herror => exact .clock hstored hroom herror
  | claim _ _ hadmitted hp he => exact .claim hadmitted hp he
  | expiry _ _ hadmitted hc hown hunbound => exact .expiry hadmitted hc hown hunbound

/-- What the limiters let through raises exactly on what blocks the loop of a pull. -/
theorem publishRaises_iff_blocks : PublishRaises env now true true p db ↔ BlocksPayload env now p db := by
  refine ⟨PublishRaises.blocks, fun h => ?_⟩
  cases h with
  | signature hs hunbound => exact .signature hs hunbound
  | recipient hstored hr hunbound => exact .recipient rfl hstored hr hunbound
  | clock hstored hroom herror => exact .clock rfl hstored hroom herror
  | claim hadmitted hp he => exact .claim rfl rfl hadmitted hp he
  | expiry hadmitted hc hown hunbound => exact .expiry rfl rfl hadmitted hc hown hunbound

/-- Where the signature binds, what raises has passed the global limiter. -/
theorem PublishRaises.passed (h : PublishRaises env now gate identityGate p db)
    (hsig : ∀ s, p.get (lit "signature") = some (.str s) → encodable s = true) : gate = true := by
  cases h with
  | signature hs hunbound => rw [hsig _ hs] at hunbound; cases hunbound
  | recipient hgate | clock hgate | claim hgate | expiry hgate => exact hgate

/-- A valid publish whose texts bind has passed the identity limiter as well. -/
theorem PublishRaises.identified (h : PublishRaises env now gate identityGate p db)
    (hsig : ∀ s, p.get (lit "signature") = some (.str s) → encodable s = true)
    (hrec : ∀ r, p.get (lit "recipient_id") = some (.str r) → encodable r = true) (hv : ValidPublish env now p) :
    identityGate = true := by
  cases h with
  | signature hs hunbound => rw [hsig _ hs] at hunbound; cases hunbound
  | recipient _ _ hr hunbound => rw [hrec _ hr] at hunbound; cases hunbound
  | clock _ _ _ herror => rw [validatePublishPayload_none.2 hv] at herror; cases herror
  | claim _ hidentity | expiry _ hidentity => exact hidentity

/-- An ingestion raises exactly there; a gossip push has no limiter behind its validation. -/
theorem ingest_raises_iff (env : Env) (path : Path) (now : Datetime) (gate identityGate : Bool) (p : Dict) (db : Db) :
    (∃ e, (ingest env path now gate identityGate p db).2 = .raised e) ↔
      PublishRaises env now gate (identityGate || decide (path = .gossipPublish)) p db := by
  cases hstored : alreadyStored p db with
  | error e =>
    obtain ⟨s, hs, hunbound⟩ := alreadyStored_error hstored
    exact iff_of_true ⟨e, by simp [ingest, hstored]⟩ (.signature hs hunbound)
  | ok stored =>
    obtain ⟨hsig, hthere⟩ := alreadyStored_ok hstored
    cases stored with
    | true =>
      refine iff_of_false (by simp [ingest, hstored]) ?_
      exact fun h => h.blocks.unstored hsig (hthere.2 rfl)
    | false =>
      have hnew : ¬ Stored p db := by simp [hthere]
      cases gate with
      | false =>
        refine iff_of_false (by simp [ingest, hstored]) ?_
        intro h
        cases h.passed hsig
      | true =>
        cases hroom : hasRoom env p db with
        | error e =>
          obtain ⟨r, hr, hunbound⟩ := hasRoom_error hroom
          exact iff_of_true ⟨e, by simp [ingest, hstored, hroom]⟩ (.recipient rfl hnew hr hunbound)
        | ok room =>
          obtain ⟨hrec, hfull⟩ := hasRoom_ok hroom
          cases room with
          | false =>
            refine iff_of_false (by simp [ingest, hstored, hroom]) ?_
            exact fun h => h.blocks.room hsig hrec (hfull.2 rfl)
          | true =>
            have hfree : ¬ Full env p db := by simp [hfull]
            cases hval : validatePublishPayload env now p with
            | error e => exact iff_of_true ⟨e, by simp [ingest, hstored, hroom, hval]⟩ (.clock rfl hnew hfree hval)
            | ok error =>
              cases error with
              | some error =>
                refine iff_of_false (by simp [ingest, hstored, hroom, hval]) ?_
                exact fun h => h.blocks.not_invalid hsig hrec error hval
              | none =>
                by_cases hthrough : identityGate = true ∨ path = .gossipPublish
                · -- Nothing refuses it: this is the ingestion of a pull.
                  have hsame : ingest env path now true identityGate p db = ingest env .antiEntropyPull now true true p db := by
                    simp [ingest, hstored, hroom, hval, hthrough]
                  have hgate : (identityGate || decide (path = .gossipPublish)) = true := by simpa using hthrough
                  rw [hsame, hgate, publishRaises_iff_blocks]
                  exact admitted_raises_iff ⟨hnew, hfree, validatePublishPayload_none.1 hval⟩ hsig hrec hroom
                · refine iff_of_false (by simp [ingest, hstored, hroom, hval, hthrough]) ?_
                  intro h
                  have := h.identified hsig hrec (validatePublishPayload_none.1 hval)
                  exact hthrough (by simpa using this)

end

theorem payload_raises_iff (env : Env) (now : Datetime) (p : Dict) (db : Db) :
    (∃ e, (ingest env .antiEntropyPull now true true p db).2 = .raised e) ↔ BlocksPayload env now p db := by
  rw [ingest_raises_iff]
  exact publishRaises_iff_blocks

/-- The items of `/gossip/messages` that make the loop raise. -/
inductive BlocksMessage (env : Env) (now : Datetime) (item : Dict) (db : Db) : Prop
  | noPayload : item.get (lit "payload") = none → BlocksMessage env now item db
  | notObject {v} : item.get (lit "payload") = some v → (∀ p, v ≠ .obj p) → BlocksMessage env now item db
  | payload {q} : item.get (lit "payload") = some (.obj q) → BlocksPayload env now q db → BlocksMessage env now item db

/-- The items of `/gossip/deletions` that make the loop raise: a target that does not bind, or the other columns of a
tombstone that is not there yet. -/
inductive BlocksDeletion (env : Env) (now : Datetime) (item : Dict) (db : Db) : Prop
  | target {t} : item.get (lit "target_signature") = some (.str t) → encodable t = false → BlocksDeletion env now item db
  | fields {t} : item.get (lit "target_signature") = some (.str t) → db.confirmed t = false →
      ¬ Adoption.FieldsBind env now item → BlocksDeletion env now item db

theorem ingest_not_limited (env : Env) (path : Path) (now : Datetime) (p : Dict) (db : Db) :
    (ingest env path now true true p db).2 ≠ .rateLimited := by
  have hinsert : ∀ r, insertOutcome r ≠ .rateLimited := by
    intro r
    unfold insertOutcome
    split <;> simp
  have hchecked := ingest_checks env path now p db
  generalize ingest env path now true true p db = r at hchecked
  cases hchecked with
  | admitted hstored hroom hv =>
    rw [ingest_admitted hv (alreadyStored_false ⟨now, hv⟩ hstored) hroom]
    split
    · simp
    · simp
    · exact hinsert _
  | _ => simp

theorem syncItem_seen (k : Nat) (item : Dict) (db : Db) : (syncItem env (.unlimited now) k item db).2 ≠ .throttled := by
  unfold syncItem
  split
  · simp
  · rename_i p _
    have hlimited := ingest_not_limited env .antiEntropyPull now p db
    simp only [Round.unlimited]
    split <;> simp_all
  · simp

theorem message_raises_iff (k : Nat) (item : Dict) (db : Db) :
    (∃ e, (syncItem env (.unlimited now) k item db).2 = .raised e) ↔ BlocksMessage env now item db := by
  cases hp : item.get (lit "payload") with
  | none => exact iff_of_true ⟨.keyError, by simp [syncItem, hp]⟩ (.noPayload hp)
  | some v =>
    by_cases hobj : ∃ p, v = .obj p
    · obtain ⟨p, rfl⟩ := hobj
      have hraises : (∃ e, (syncItem env (.unlimited now) k item db).2 = .raised e) ↔
          ∃ e, (ingest env .antiEntropyPull now true true p db).2 = .raised e := by
        simp only [syncItem, hp, Round.unlimited]
        split <;> simp_all
      rw [hraises, payload_raises_iff]
      refine ⟨.payload hp, ?_⟩
      rintro (hnone | ⟨hv, hno⟩ | ⟨hp', hb⟩)
      · rw [hp] at hnone
        cases hnone
      · rw [hp] at hv
        cases hv
        exact absurd rfl (hno p)
      · rw [hp] at hp'
        cases hp'
        exact hb
    · refine iff_of_true ⟨.attributeError, ?_⟩ (.notObject hp fun p hv => hobj ⟨p, hv⟩)
      unfold syncItem
      rw [hp]
      split
      · simp_all
      · rename_i p hv
        exact absurd ⟨p, Option.some.inj hv⟩ hobj
      · rfl

/-- With a number as its id an item of the deletion loop does what `syncDeletion` does. -/
theorem syncDeletionItem_eq {id : Int} (hid : item.get (lit "id") = some (.int id)) (k : Nat) (db : Db) :
    syncDeletionItem env (.unlimited now) k item db =
      match syncDeletion env now true item db with
      | (db', .rateLimited) => (db', .throttled)
      | (db', .raised e) => (db', .raised e)
      | (db', _) => (db', .seen) := by
  have hnumber : Adoption.hasNumberId item = true := by simp [Adoption.hasNumberId, hid, Adoption.isNumber]
  simp only [syncDeletionItem, Round.unlimited, Bool.and_self, Adoption.pullItem_eq hnumber]

theorem syncDeletionItem_seen {id : Int} (hid : item.get (lit "id") = some (.int id)) (k : Nat) (db : Db) :
    (syncDeletionItem env (.unlimited now) k item db).2 ≠ .throttled := by
  have hlimited : (syncDeletion env now true item db).2 ≠ .rateLimited := by
    unfold syncDeletion
    split
    · split
      · split <;> simp
      · simp_all
    · simp
  rw [syncDeletionItem_eq hid]
  split <;> simp_all

theorem deletion_raises_iff {id : Int} (hid : item.get (lit "id") = some (.int id)) (k : Nat) (db : Db) :
    (∃ e, (syncDeletionItem env (.unlimited now) k item db).2 = .raised e) ↔ BlocksDeletion env now item db := by
  have hraises : (∃ e, (syncDeletionItem env (.unlimited now) k item db).2 = .raised e) ↔
      ∃ e, (syncDeletion env now true item db).2 = .raised e := by
    rw [syncDeletionItem_eq hid]
    split <;> simp_all
  rw [hraises]
  by_cases ht : ∃ t, item.get (lit "target_signature") = some (.str t)
  · obtain ⟨t, ht⟩ := ht
    rw [Adoption.syncDeletion_eq ht]
    split
    · rename_i hunbound
      exact iff_of_true ⟨_, rfl⟩ (.target ht (by simpa using hunbound))
    rename_i hbinds
    have hno : ¬ ∃ t', item.get (lit "target_signature") = some (.str t') ∧ encodable t' = false := by
      rintro ⟨t', ht', hunbound⟩
      rw [ht] at ht'
      cases ht'
      exact hbinds (by rw [hunbound]; rfl)
    split
    · rename_i hconfirmed
      refine iff_of_false (by simp) ?_
      rintro (⟨ht', hunbound⟩ | ⟨ht', hmissing, -⟩)
      · exact hno ⟨_, ht', hunbound⟩
      · rw [ht] at ht'
        cases ht'
        rw [hconfirmed] at hmissing
        cases hmissing
    rename_i hmissing
    split
    · rename_i row hrow
      refine iff_of_false (by simp) ?_
      rintro (⟨ht', hunbound⟩ | ⟨-, -, hfields⟩)
      · exact hno ⟨_, ht', hunbound⟩
      · exact hfields (Adoption.pulledTombstone_iff.1 ⟨row, hrow⟩)
    · rename_i e herror
      refine iff_of_true ⟨e, rfl⟩ (.fields ht (by simpa using hmissing) ?_)
      intro hbind
      obtain ⟨row, hrow⟩ := Adoption.pulledTombstone_iff.2 hbind
      rw [herror] at hrow
      cases hrow
  · refine iff_of_false ?_ ?_
    · unfold syncDeletion
      split
      · rename_i t ht'
        exact absurd ⟨t, ht'⟩ ht
      · simp
    · rintro (⟨ht', -⟩ | ⟨ht', -, -⟩) <;> exact ht ⟨_, ht'⟩

/-! ## Which pages a round finishes -/

variable {dec : Decoder} {name : Str} {sinceId : Nat}

/-- The round has taken every item of the page and saves a cursor at or above its last id. -/
structure Finishes (f : Dict → Db → Db × ItemEnd) (page : Page dec name sinceId) (db : Db) (r : Db × PageEnd) : Prop where
  tables : r.1 = handled f db page.items
  saved : ∃ maxId, r.2 = .saved maxId ∧ ∀ x ∈ page.items, x.1 ≤ maxId

/-- A page within the bound is read. -/
theorem page_read (page : Page dec name sinceId) :
    readBoundedResponse ⟨some page.body.length, page.body⟩ maxBodyBytes = .ok (page.body.take (maxBodyBytes + 1)) := by
  have hbounded := page.bounded
  unfold readBoundedResponse
  simp only [Option.any_some, decide_eq_true_eq, List.length_take]
  rw [if_neg (by omega), if_neg (by omega)]

/-- A round finishes a page exactly when the page can be read and none of its items raises. -/
theorem finishes_iff {f : Dict → Db → Db × ItemEnd} {blocks : Dict → Db → Prop} (page : Page dec name sinceId) (db : Db)
    (hseen : ∀ x ∈ page.items, ∀ db, (f x.2 db).2 ≠ .throttled)
    (hblocks : ∀ x ∈ page.items, ∀ db, (∃ e, (f x.2 db).2 = .raised e) ↔ blocks x.2 db) :
    Finishes f page db (syncPage (fun _ => f) page db) ↔
      page.doc.doc.readable dec.nesting = true ∧ NoneBlocks blocks f db page.items := by
  rw [← syncRows_ends_iff hseen hblocks 0 sinceId]
  unfold syncPage
  rw [page_read]
  cases hread : page.doc.doc.readable dec.nesting with
  | false =>
    refine iff_of_false ?_ (by simp)
    rintro ⟨-, maxId, hsaved, -⟩
    simp [Decoder.loads, hread] at hsaved
  | true =>
    simp only [Decoder.loads, hread, if_true, true_and]
    cases hrows : syncRows (fun _ => f) 0 sinceId db page.items with
    | mk db' result =>
      cases result with
      | error e =>
        refine iff_of_false ?_ (by simp)
        rintro ⟨-, maxId, hsaved, -⟩
        cases hsaved
      | ok maxId =>
        constructor
        · rintro ⟨htables, maxId', hsaved, hids⟩
          cases hsaved
          exact ⟨maxId, by rw [← htables], hids⟩
        · rintro ⟨maxId', heq, hids⟩
          cases heq
          exact ⟨rfl, maxId, rfl, hids⟩

/-- A round over a page of `/gossip/messages`, and one over a page of `/gossip/deletions`, takes every item and saves
its cursor exactly when `json.loads` reads the page and no item blocks the loop in the state it meets. -/
theorem rounds_finish_iff (env : Env) (dec : Decoder) (now : Datetime) (sinceId : Nat) (db : Db) :
    (∀ page : Page dec (lit "messages") sinceId,
      Finishes (syncItem env (.unlimited now) 0) page db (syncPage (syncItem env (.unlimited now)) page db) ↔
        page.doc.doc.readable dec.nesting = true ∧
          NoneBlocks (BlocksMessage env now) (syncItem env (.unlimited now) 0) db page.items) ∧
    ∀ page : Page dec (lit "deletions") sinceId,
      Finishes (syncDeletionItem env (.unlimited now) 0) page db (syncPage (syncDeletionItem env (.unlimited now)) page db) ↔
        page.doc.doc.readable dec.nesting = true ∧
          NoneBlocks (BlocksDeletion env now) (syncDeletionItem env (.unlimited now) 0) db page.items := by
  refine ⟨fun page => ?_, fun page => ?_⟩
  · exact finishes_iff page db (fun x _ => syncItem_seen 0 x.2) fun x _ => message_raises_iff 0 x.2
  · exact finishes_iff page db (fun x hx => syncDeletionItem_seen (page.ids x hx) 0)
      fun x hx => deletion_raises_iff (page.ids x hx) 0

/-! ## Two items that block -/

/-- A text as a string spells it. -/
def spell (s : Str) : List Piece := s.map plain

/-- `{"<name>":[{"id":1,...}]}`, for the further members of the item. -/
def oneItemDoc (name : Str) (fields : Members) : Document :=
  ⟨.nothing, .obj .nothing (.cons .nothing (spell name) .nothing .nothing (.arr .nothing
    (.cons .nothing (.obj .nothing (.cons .nothing (spell (lit "id")) .nothing .nothing (.int false 1) .nothing fields))
      .nothing .nil)) .nothing .nil), .nothing⟩

/-- The members of a tombstone without a key. -/
def keylessMembers : Members :=
  .cons .nothing (spell (lit "target_signature")) .nothing .nothing (.str (spell (lit "c2ln"))) .nothing
    (.cons .nothing (spell (lit "requester_pubkey")) .nothing .nothing .null .nothing .nil)

theorem raised_not_finishes {f : Dict → Db → Db × ItemEnd} {page : Page dec name sinceId} {r : Db × PageEnd} {e : PyError}
    (h : r.2 = .raised e) : ¬ Finishes f page db r := by
  rintro ⟨-, maxId, hsaved, -⟩
  rw [h] at hsaved
  cases hsaved

/-- A page of one item whose loop raises. -/
theorem syncPage_one {f : Nat → Dict → Db → Db × ItemEnd} {page : Page dec name sinceId} {id : Nat} {db' : Db} {e : PyError}
    (hread : page.doc.doc.readable dec.nesting = true) (hitems : page.items = [(id, item)])
    (hraises : f 0 item db = (db', .raised e)) : (syncPage f page db).2 = .raised e := by
  simp only [syncPage, page_read, Decoder.loads, hread, if_true, hitems, syncRows, hraises]

/-- A tombstone without a key. -/
def keyless : Dict :=
  [(lit "id", .int 1), (lit "target_signature", .str (lit "c2ln")), (lit "requester_pubkey", .null)]

theorem keyless_raises (hmissing : db.confirmed (lit "c2ln") = false) :
    syncDeletionItem env (.unlimited now) 0 keyless db = (db.deleteMessage (lit "c2ln"), .raised .integrityError) := by
  have hat : bindText env (getOr keyless (lit "requested_at") (.str now.isoformat)) = .ok (some now.isoformat) :=
    bindText_str now.encodable_isoformat
  have hrow : pulledTombstone env now keyless (lit "c2ln") = .error .integrityError := by
    simp only [pulledTombstone, bindTombstone, hat]
    rfl
  have hbinds : encodable (lit "c2ln") = true := by decide
  have hitem : syncDeletion env now true keyless db = (db.deleteMessage (lit "c2ln"), .raised .integrityError) := by
    rw [Adoption.syncDeletion_eq (t := lit "c2ln") rfl]
    simp only [hbinds, hmissing, hrow, Bool.not_true, Bool.false_eq_true, if_false]
  have hid : keyless.get (lit "id") = some (.int 1) := rfl
  rw [syncDeletionItem_eq hid, hitem]

theorem exists_messages_page : ∃ page : Page Decoder.ascii (lit "messages") 0,
    page.body = lit "\x7b\"messages\":[\x7b\"id\":1\x7d]\x7d" ∧ page.items = [(1, [(lit "id", .int 1)])] ∧
      page.doc.doc.readable Decoder.ascii.nesting = true := by
  refine ⟨⟨_, oneItemDoc (lit "messages") .nil, _, [(1, [(lit "id", .int 1)])], by decide +kernel, by decide +kernel,
    rfl, rfl, ?_, by simp, by simp⟩, rfl, rfl, ?_⟩
  · simp only [List.mem_singleton]
    rintro x rfl
    rfl
  · decide +kernel

theorem exists_deletions_page : ∃ page : Page Decoder.ascii (lit "deletions") 0,
    page.body = lit "\x7b\"deletions\":[\x7b\"id\":1,\"target_signature\":\"c2ln\",\"requester_pubkey\":null\x7d]\x7d" ∧
      page.items = [(1, keyless)] ∧ page.doc.doc.readable Decoder.ascii.nesting = true := by
  refine ⟨⟨_, oneItemDoc (lit "deletions") keylessMembers, _, [(1, keyless)], by decide +kernel, by decide +kernel,
    rfl, rfl, ?_, by simp, by simp⟩, rfl, rfl, ?_⟩
  · simp only [List.mem_singleton]
    rintro x rfl
    rfl
  · decide +kernel

/-- An item without a payload, and a tombstone with a null key, raise in every round that meets them: the cursor stays
where it is, and the next round meets them again. -/
theorem items_block :
    (∃ page : Page Decoder.ascii (lit "messages") 0, page.body = lit "\x7b\"messages\":[\x7b\"id\":1\x7d]\x7d" ∧
      ∀ env now db, (syncPage (syncItem env (.unlimited now)) page db).2 = .raised .keyError ∧
        ¬ Finishes (syncItem env (.unlimited now) 0) page db (syncPage (syncItem env (.unlimited now)) page db)) ∧
    ∃ page : Page Decoder.ascii (lit "deletions") 0,
      page.body = lit "\x7b\"deletions\":[\x7b\"id\":1,\"target_signature\":\"c2ln\",\"requester_pubkey\":null\x7d]\x7d" ∧
      ∀ env now db, db.confirmed (lit "c2ln") = false →
        (syncPage (syncDeletionItem env (.unlimited now)) page db).2 = .raised .integrityError ∧
        ¬ Finishes (syncDeletionItem env (.unlimited now) 0) page db
          (syncPage (syncDeletionItem env (.unlimited now)) page db) := by
  constructor
  · obtain ⟨page, hbody, hitems, hread⟩ := exists_messages_page
    refine ⟨page, hbody, ?_⟩
    intro env now db
    have hitem : syncItem env (.unlimited now) 0 [(lit "id", .int 1)] db = (db, .raised .keyError) := rfl
    have hraised := syncPage_one hread hitems hitem
    exact ⟨hraised, raised_not_finishes hraised⟩
  · obtain ⟨page, hbody, hitems, hread⟩ := exists_deletions_page
    refine ⟨page, hbody, ?_⟩
    intro env now db hmissing
    have hitem : syncDeletionItem env (.unlimited now) 0 keyless db = (db.deleteMessage (lit "c2ln"), .raised .integrityError) :=
      keyless_raises hmissing
    have hraised := syncPage_one hread hitems hitem
    exact ⟨hraised, raised_not_finishes hraised⟩

end AetherNode.Malformed
