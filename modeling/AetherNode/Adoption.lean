import AetherNode.AntiEntropy
/-!
# Adopting a pulled tombstone

An item of `/gossip/deletions` is whatever a peer sends. Its message is
deleted before its tombstone is written, and nothing rolls back: where the
tombstone does not bind, the message is gone and there is no tombstone.
-/
open AetherNode.Lib AetherNode.Lib.Json AetherNode.Protocol

namespace AetherNode.Adoption

variable {env : Env} {now : Datetime} {gate : Bool} {item : Dict} {t : Str} {db : Db}

/-! ## One item, whatever it holds -/

/-- What `max` compares with a number; everything else raises a TypeError. -/
def isNumber : Json → Bool
  | .bool _ => true
  | .int _ => true
  | .float _ => true
  | _ => false

/-- `max(max_id, item.get("id", max_id))` does not raise. -/
def hasNumberId (item : Dict) : Bool := (item.get (lit "id")).all isNumber

/-- One item of the loop of `_sync_deletions_with_peer`, with the answer of the limiters. -/
def pullItem (env : Env) (now : Datetime) (gate : Bool) (item : Dict) (db : Db) : Db × PullOutcome :=
  match item.get (lit "target_signature") with
  | some (.str _) =>
    if !gate then (db, .rateLimited)
    else if hasNumberId item then syncDeletion env now true item db
    else (db, .raised .typeError)
  | _ => (db, if hasNumberId item then .skipped else .raised .typeError)

/-- With a number as its id an item is handled as `syncDeletion` does. -/
theorem pullItem_eq (hid : hasNumberId item = true) : pullItem env now gate item db = syncDeletion env now gate item db := by
  unfold pullItem syncDeletion
  cases item.get (lit "target_signature") with
  | none => simp [hid]
  | some v => cases v <;> cases gate <;> simp [hid]

/-- What an admitted item with a target comes to. -/
theorem syncDeletion_eq (ht : item.get (lit "target_signature") = some (.str t)) : syncDeletion env now true item db =
    if !encodable t then (db, .raised .unicodeEncodeError)
    else if db.confirmed t then (db, .alreadyConfirmed)
    else
      match pulledTombstone env now item t with
      | .ok row => (db.bury row, .adopted)
      | .error e => (db.deleteMessage t, .raised e) := by
  cases het : encodable t with
  | false => simp [syncDeletion, ht, applyPulledDeletion, het]
  | true =>
    cases hc : db.confirmed t with
    | true => simp [syncDeletion, ht, applyPulledDeletion, het, hc]
    | false =>
      simp only [syncDeletion, ht, applyPulledDeletion, applyConfirmedDeletion, pulledTombstone, het, hc]
      cases bindTombstone env t ((item.get (lit "requester_pubkey")).getD (.str []))
        ((item.get (lit "requester_recipient_id")).getD (.str []))
        (getOr item (lit "requested_at") (.str now.isoformat)) <;> rfl

/-! ## What binds -/

/-- SQLite binds the value to a text that is not NULL. -/
def Binds (env : Env) (v : Json) : Prop := ∃ s, bindText env v = .ok (some s)

theorem bindTombstone_iff {a b c : Json} :
    (∃ row, bindTombstone env t a b c = .ok row) ↔ Binds env a ∧ Binds env b ∧ Binds env c := by
  constructor
  · rintro ⟨row, hrow⟩
    obtain ⟨ha, hb, hc, -, -⟩ := bindTombstone_ok hrow
    exact ⟨⟨_, ha⟩, ⟨_, hb⟩, ⟨_, hc⟩⟩
  · rintro ⟨⟨x, ha⟩, ⟨y, hb⟩, ⟨z, hc⟩⟩
    exact ⟨⟨t, x, y, true, z⟩, by simp [bindTombstone, ha, hb, hc, bind, Except.bind, pure, Except.pure]⟩

/-- The columns of the tombstone bind: the item's own values, or their defaults. -/
structure FieldsBind (env : Env) (now : Datetime) (item : Dict) : Prop where
  requesterPubkey : Binds env ((item.get (lit "requester_pubkey")).getD (.str []))
  requesterRecipientId : Binds env ((item.get (lit "requester_recipient_id")).getD (.str []))
  requestedAt : Binds env (getOr item (lit "requested_at") (.str now.isoformat))

theorem pulledTombstone_iff : (∃ row, pulledTombstone env now item t = .ok row) ↔ FieldsBind env now item := by
  unfold pulledTombstone
  rw [bindTombstone_iff]
  exact ⟨fun ⟨ha, hb, hc⟩ => ⟨ha, hb, hc⟩, fun ⟨ha, hb, hc⟩ => ⟨ha, hb, hc⟩⟩

/-- The item comes to `_apply_confirmed_deletion`: a limiter lets it through, its id is a number, its target binds, and
there is no confirmed tombstone yet. -/
structure Applied (gate : Bool) (item : Dict) (t : Str) (db : Db) : Prop where
  admitted : gate = true
  number : hasNumberId item = true
  binds : encodable t = true
  missing : db.confirmed t = false

/-- An item with a target does nothing, or what its tombstone comes to. -/
inductive Pulls (env : Env) (now : Datetime) (gate : Bool) (item : Dict) (t : Str) (db : Db) : Db × PullOutcome → Prop
  | leaves {o} : ¬ Applied gate item t db → Pulls env now gate item t db (db, o)
  | adopts {row} : Applied gate item t db → pulledTombstone env now item t = .ok row →
      Pulls env now gate item t db (db.bury row, .adopted)
  | loses {e} : Applied gate item t db → pulledTombstone env now item t = .error e →
      Pulls env now gate item t db (db.deleteMessage t, .raised e)

theorem pullItem_pulls (ht : item.get (lit "target_signature") = some (.str t)) :
    Pulls env now gate item t db (pullItem env now gate item db) := by
  cases gate with
  | false =>
    have hend : pullItem env now false item db = (db, .rateLimited) := by simp [pullItem, ht]
    rw [hend]
    refine .leaves ?_
    rintro ⟨hgate, -, -, -⟩
    cases hgate
  | true =>
    cases hid : hasNumberId item with
    | false =>
      have hend : pullItem env now true item db = (db, .raised .typeError) := by simp [pullItem, ht, hid]
      rw [hend]
      refine .leaves ?_
      rintro ⟨-, hnumber, -, -⟩
      rw [hid] at hnumber
      cases hnumber
    | true =>
      rw [pullItem_eq hid, syncDeletion_eq ht]
      split
      · rename_i hunbound
        refine .leaves ?_
        rintro ⟨-, -, hbinds, -⟩
        rw [hbinds] at hunbound
        cases hunbound
      rename_i hbinds
      split
      · rename_i hconfirmed
        refine .leaves ?_
        rintro ⟨-, -, -, hmissing⟩
        rw [hconfirmed] at hmissing
        cases hmissing
      rename_i hmissing
      have happlied : Applied true item t db := ⟨rfl, hid, by simpa using hbinds, by simpa using hmissing⟩
      split
      · exact .adopts happlied ‹_›
      · exact .loses happlied ‹_›

/-! ## All or nothing -/

/-- The item removes a message only with its tombstone, and changes neither table when it raises. -/
structure AllOrNothing (t : Str) (db : Db) (r : Db × PullOutcome) : Prop where
  removes : ∀ m, db.message t = some m → r.1.message t = none → r.1.confirmed t = true
  raises : ∀ e, r.2 = .raised e → r.1 = db

/-- Processing an item is all or nothing exactly when its tombstone binds in case it is applied to a stored message. -/
theorem all_or_nothing_iff (env : Env) (now : Datetime) (gate : Bool) {item : Dict} {t : Str}
    (ht : item.get (lit "target_signature") = some (.str t)) (db : Db) :
    AllOrNothing t db (pullItem env now gate item db) ↔
      (Applied gate item t db → (db.message t).isSome = true → FieldsBind env now item) := by
  have hpulls : Pulls env now gate item t db (pullItem env now gate item db) := pullItem_pulls ht
  generalize pullItem env now gate item db = r at hpulls
  cases hpulls with
  | leaves hnot =>
    refine iff_of_true ⟨?_, fun _ _ => rfl⟩ fun happlied => absurd happlied hnot
    intro m hm hgone
    rw [hm] at hgone
    cases hgone
  | adopts happlied hrow =>
    obtain ⟨-, -, -, htarget, hconfirmed⟩ := bindTombstone_ok hrow
    refine iff_of_true ⟨?_, by simp⟩ fun _ _ => pulledTombstone_iff.1 ⟨_, hrow⟩
    intro m _ _
    simp [Db.confirmed, htarget, hconfirmed]
  | loses happlied herror =>
    have hunbound : ¬ FieldsBind env now item := by
      intro hbind
      obtain ⟨row, hrow⟩ := pulledTombstone_iff.2 hbind
      rw [herror] at hrow
      cases hrow
    constructor
    · -- The message has gone without a tombstone.
      rintro ⟨hremoves, -⟩ - hstored
      obtain ⟨m, hm⟩ := Option.isSome_iff_exists.1 hstored
      have hconfirmed := hremoves m hm (by simp)
      rw [Db.confirmed, Db.request_deleteMessage] at hconfirmed
      exact absurd hconfirmed (by simpa [Db.confirmed] using happlied.missing)
    · intro hbind
      have hnone : db.message t = none := by
        by_contra hsome
        exact hunbound (hbind happlied (Option.isSome_iff_ne_none.2 hsome))
      have hsame : db.deleteMessage t = db := by
        simp only [Db.deleteMessage]
        rw [Table.deleteKey_absent hnone]
      refine ⟨?_, fun _ _ => hsame⟩
      intro m hm
      rw [hnone] at hm
      cases hm

/-- An item for the sample message, with these further fields. -/
def sampleItem (fields : Dict) : Dict :=
  (lit "id", .int 1) :: (lit "target_signature", .str (lit "c2ln")) :: fields

/-- With the defaults for all its columns it is adopted. -/
theorem all_or_nothing_defaults :
    AllOrNothing (lit "c2ln") Sample.holding (pullItem Sample.config Sample.noon true (sampleItem []) Sample.holding) := by
  refine (all_or_nothing_iff Sample.config Sample.noon true rfl Sample.holding).2 fun _ _ => ⟨⟨[], rfl⟩, ⟨[], rfl⟩, ?_⟩
  exact ⟨Sample.noon.isoformat, bindText_str Sample.noon.encodable_isoformat⟩

/-- With a null key it raises when the message has already gone. -/
theorem half_adopted : ∃ item, item.get (lit "target_signature") = some (.str (lit "c2ln")) ∧
    (Sample.holding.message (lit "c2ln")).isSome = true ∧
    (pullItem Sample.config Sample.noon true item Sample.holding).2 = .raised .integrityError ∧
    (pullItem Sample.config Sample.noon true item Sample.holding).1.message (lit "c2ln") = none ∧
    (pullItem Sample.config Sample.noon true item Sample.holding).1.confirmed (lit "c2ln") = false ∧
    ¬ AllOrNothing (lit "c2ln") Sample.holding (pullItem Sample.config Sample.noon true item Sample.holding) := by
  have hstored : (Sample.holding.message (lit "c2ln")).isSome = true := by decide +kernel
  have hgone : (pullItem Sample.config Sample.noon true (sampleItem [(lit "requester_pubkey", .null)])
      Sample.holding).1.message (lit "c2ln") = none := by decide +kernel
  have hpending : (pullItem Sample.config Sample.noon true (sampleItem [(lit "requester_pubkey", .null)])
      Sample.holding).1.confirmed (lit "c2ln") = false := by decide +kernel
  refine ⟨_, rfl, hstored, by decide +kernel, hgone, hpending, ?_⟩
  intro hall
  obtain ⟨m, hm⟩ := Option.isSome_iff_exists.1 hstored
  rw [hall.removes m hm hgone] at hpending
  cases hpending

end AetherNode.Adoption
