import AetherNode.Handlers
/-!
# What a delete request tells

`handle_delete_request` answers alike for a signature that is not stored and
for one that is stored for somebody else. Two stores with the same messages
for the requesters' own addresses answer every sequence of requests alike,
whatever else they hold.
-/
open AetherNode.Lib AetherNode.Lib.Json AetherNode.Protocol

namespace AetherNode.Oracle

variable {env : Env}

/-! ## Sequences of requests -/

/-- A validated delete request, and the clock when it is handled. -/
structure Request (env : Env) where
  now : Datetime
  payload : Dict
  valid : ValidDelete env payload

def Request.key (r : Request env) : Str := r.payload.text (lit "recipient_pubkey")

def Request.target (r : Request env) : Str := r.payload.text (lit "target_signature")

/-- The response and `did_confirm`. -/
def returned : DeleteReply → Dict × Bool
  | .deleted => ([(lit "status", .str (lit "deleted")), (lit "propagation", .str (lit "async"))], true)
  | .deleteRequested => ([(lit "status", .str (lit "delete_requested"))], false)

/-- What `handle_delete_request` returns to a sequence of requests. -/
def returns (env : Env) : List (Request env) → Db → List (Except PyError (Dict × Bool))
  | [], _ => []
  | r :: rest, db =>
    let result := handleDeleteRequest env r.now r.payload db
    result.2.map returned :: returns env rest result.1

/-- At one of the times the address is a candidate recipient id of one of the keys. -/
def Candidate (env : Env) (keys : Set Str) (times : List Datetime) (recipientId : Str) : Prop :=
  ∃ key ∈ keys, ∃ t ∈ times, Owns env t key recipientId

/-- The stores differ in `messages` only on rows for other addresses. -/
def DifferElsewhere (mine : Str → Prop) (db db' : Db) : Prop :=
  ∀ m : Message, mine m.recipientId → ((∃ id, (id, m) ∈ db.messages.rows) ↔ ∃ id, (id, m) ∈ db'.messages.rows)

theorem differElsewhere_iff {mine : Str → Prop} {db db' : Db} : DifferElsewhere mine db db' ↔
    ∀ s m, mine m.recipientId → (db.message s = some m ↔ db'.message s = some m) := by
  constructor
  · intro h s m hm
    rw [Db.message, Db.message, Table.lookup_eq_some, Table.lookup_eq_some, h m hm]
  · intro h m hm
    have hlookup := h m.signature m hm
    rw [Db.message, Db.message, Table.lookup_eq_some, Table.lookup_eq_some] at hlookup
    simpa using hlookup

theorem DifferElsewhere.symm {mine : Str → Prop} {db db' : Db} (h : DifferElsewhere mine db db') :
    DifferElsewhere mine db' db :=
  fun m hm => (h m hm).symm

/-! ## One request -/

/-- What a request of `key` for `t` at `now` does in a store: it confirms the deletion of a message of its own, or it
leaves the messages as they are, with one answer for all other cases. -/
inductive Handles (env : Env) (now : Datetime) (key t : Str) (db : Db) : Db × Except PyError DeleteReply → Prop
  | confirms {m row} : db.message t = some m → Owns env now key m.recipientId → row.targetSignature = t →
      Handles env now key t db (db.bury row, .ok .deleted)
  | declines {db'} : (∀ m, db.message t = some m → ¬ Owns env now key m.recipientId) →
      (∀ s, db'.message s = db.message s) → Handles env now key t db (db', .ok .deleteRequested)

/-- A request raises in every store, before it reads it, or in none. -/
theorem handleDeleteRequest_handles (env : Env) (now : Datetime) (p : Dict) :
    (∃ e, ∀ db, handleDeleteRequest env now p db = (db, .error e)) ∨
      ∀ db, Handles env now (p.text (lit "recipient_pubkey")) (p.text (lit "target_signature")) db
        (handleDeleteRequest env now p db) := by
  cases hder : b64decode (p.text (lit "recipient_pubkey")) with
  | none => exact .inl ⟨.binasciiError, fun db => by simp [handleDeleteRequest, hder]⟩
  | some der =>
    cases hids : candidateRecipientIds env.hmac now env.maxTtlSeconds der with
    | none => exact .inl ⟨.overflowError, fun db => by simp [handleDeleteRequest, hder, hids]⟩
    | some ids =>
      cases ht : encodable (p.text (lit "target_signature")) with
      | false => exact .inl ⟨.unicodeEncodeError, fun db => by simp [handleDeleteRequest, hder, hids, ht]⟩
      | true =>
        refine .inr fun db => ?_
        have howns : ∀ rid, Owns env now (p.text (lit "recipient_pubkey")) rid ↔ rid ∈ ids := by
          intro rid
          simp [owns_iff, claimMatches, hder, hids]
        cases hm : db.message (p.text (lit "target_signature")) with
        | none =>
          have hdone : handleDeleteRequest env now p db = (db.recordRequest ⟨p.text (lit "target_signature"),
              p.text (lit "recipient_pubkey"), [], false, now.isoformat⟩, .ok .deleteRequested) := by
            simp [handleDeleteRequest, hder, hids, ht, hm]
          rw [hdone]
          exact .declines (by simp [hm]) (by simp)
        | some m =>
          by_cases hown : m.recipientId ∈ ids
          · rw [handleDeleteRequest_owner ht hm ((howns _).2 hown)]
            exact .confirms hm ((howns _).2 hown) rfl
          · have hdone : handleDeleteRequest env now p db = (db, .ok .deleteRequested) := by
              simp [handleDeleteRequest, hder, hids, ht, hm, hown]
            rw [hdone]
            refine .declines ?_ fun s => rfl
            rintro m' hm' hown'
            rw [hm] at hm'
            cases hm'
            exact hown ((howns _).1 hown')

section
variable {mine : Str → Prop} {db db' : Db} {now : Datetime} {key t : Str}

/-- A message of its own that one store confirms is in the other one. -/
theorem DifferElsewhere.message (h : DifferElsewhere mine db db') {m : Message} (hmine : mine m.recipientId)
    (hm : db.message t = some m) : db'.message t = some m :=
  (differElsewhere_iff.1 h t m hmine).1 hm

/-- One request is answered alike, and what is left differs on the same rows. -/
theorem handles_alike (h : DifferElsewhere mine db db') (hmine : ∀ rid, Owns env now key rid → mine rid)
    {r r' : Db × Except PyError DeleteReply} (hr : Handles env now key t db r) (hr' : Handles env now key t db' r') :
    r.2 = r'.2 ∧ DifferElsewhere mine r.1 r'.1 := by
  rw [differElsewhere_iff]
  have hsame := differElsewhere_iff.1 h
  cases hr with
  | confirms hm hown hrow =>
    cases hr' with
    | confirms _ _ hrow' =>
      refine ⟨rfl, ?_⟩
      intro s x hx
      rw [Db.message_bury, Db.message_bury, hrow, hrow']
      split
      · simp
      · exact hsame s x hx
    | declines hnot => exact absurd hown (hnot _ (h.message (hmine _ hown) hm))
  | declines hnot hleft =>
    cases hr' with
    | confirms hm hown => exact absurd hown (hnot _ (h.symm.message (hmine _ hown) hm))
    | declines _ hleft' =>
      refine ⟨rfl, ?_⟩
      intro s x hx
      rw [hleft, hleft']
      exact hsame s x hx

end

/-! ## Every sequence -/

/-- Delete requests tell nothing about messages for other addresses, nor about `deletion_requests`: two stores that
differ only there return the same to every sequence. -/
theorem no_existence_oracle {keys : Set Str} {requests : List (Request env)} (hkeys : ∀ r ∈ requests, r.key ∈ keys)
    {db db' : Db} (h : DifferElsewhere (Candidate env keys (requests.map (·.now))) db db') :
    returns env requests db = returns env requests db' := by
  -- The addresses are those of all request times, so they stay the same while the sequence is worked off.
  have hmain : ∀ (mine : Str → Prop) (rest : List (Request env)),
      (∀ r ∈ rest, ∀ rid, Owns env r.now r.key rid → mine rid) → ∀ db db', DifferElsewhere mine db db' →
      returns env rest db = returns env rest db' := by
    intro mine rest
    induction rest with
    | nil => intro _ db db' _; rfl
    | cons r rest ih =>
      intro hmine db db' h
      have hrest := ih fun x hx => hmine x (List.mem_cons_of_mem _ hx)
      simp only [returns]
      rcases handleDeleteRequest_handles env r.now r.payload with ⟨e, he⟩ | hhandles
      · rw [he, he, hrest db db' h]
      · obtain ⟨hreply, hleft⟩ := handles_alike h (hmine r List.mem_cons_self) (hhandles db) (hhandles db')
        rw [hreply, hrest _ _ hleft]
  exact hmain _ requests (fun r hr rid hown => ⟨r.key, hkeys r hr, r.now, List.mem_map_of_mem hr, hown⟩) db db' h

/-- Two probes by a stranger, a day apart. -/
def probe (now : Datetime) : Request Sample.config where
  now := now
  payload := Sample.deletePayload (lit "c2ln") Sample.otherKey
  valid := validateDeletePayload_none.1 rfl

/-- A stranger who probes for a stored message gets what an empty store answers. -/
theorem no_existence_oracle_stranger : (Sample.holding.message (lit "c2ln")).isSome = true ∧
    returns Sample.config [probe Sample.noon, probe Sample.nextNoon] Sample.holding =
      returns Sample.config [probe Sample.noon, probe Sample.nextNoon] .empty := by
  have hrows : Sample.holding.messages.rows = [(1, messageOf (Sample.payload (lit "c2ln")) Sample.recipientId Sample.noon)] := by
    rfl
  have hother : ∀ t ∈ [Sample.noon, Sample.nextNoon], ¬ Owns Sample.config t Sample.otherKey Sample.recipientId := by
    simp only [owns_iff]
    decide +kernel
  have hkeys : ∀ r ∈ [probe Sample.noon, probe Sample.nextNoon], r.key ∈ ({Sample.otherKey} : Set Str) := by
    intro r hr
    simp only [List.mem_cons, List.not_mem_nil, or_false] at hr
    rcases hr with rfl | rfl <;> rfl
  constructor
  · decide +kernel
  · apply no_existence_oracle hkeys
    rintro m ⟨key, rfl, t, ht, hown⟩
    rw [hrows]
    have hne : ∀ id, (id, m) ∉ [(1, messageOf (Sample.payload (lit "c2ln")) Sample.recipientId Sample.noon)] := by
      intro id hmem
      obtain ⟨-, rfl⟩ := Prod.mk.inj (List.mem_singleton.1 hmem)
      exact hother t ht hown
    simp [hne, Db.empty, Table.empty]

end AetherNode.Oracle
