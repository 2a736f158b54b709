import AetherNode.Lib.PyInt
import AetherNode.Lib.Reencode
import AetherNode.Lib.Resume
import AetherNode.Malformed
import AetherNode.Pipeline
import Mathlib.Algebra.Order.BigOperators.Group.List
/-!
# Throttled pulls

A limiter ends the round of a pull at any item, and the next round asks again
from there. What an item has come to is settled in all later tables, so rounds
that reach an empty page have taken every row once, and in order. A round that
no limiter ends takes a whole page; so without a refusal the pull does the
same exactly when its pages, one after another, are small enough to be read.
-/
open AetherNode.Lib AetherNode.Lib.Json AetherNode.Lib.Resume AetherNode.Protocol AetherNode.AntiEntropy

namespace AetherNode.Throttle

open Malformed (hasRoom_ok)

variable {env : Env} {now : Datetime} {p : Dict} {db db' : Db}

/-! ## What a pull comes to, item by item -/

/-- What an item comes to where no limiter refuses it. -/
def settle (env : Env) (now : Datetime) (x : Nat × Message) (db : Db) : Db × Outcome :=
  ingest env .antiEntropyPull now true true x.2.payload db

def Raises (o : Outcome) : Prop := ∃ e, o = .raised e

/-! ## Settled items -/

/-- Tables a pull can lead to: it deletes no message and no tombstone. -/
structure Later (db db' : Db) : Prop where
  stored : ∀ s, (db.message s).isSome = true → (db'.message s).isSome = true
  confirmed : ∀ s, db.confirmed s = true → db'.confirmed s = true
  inbox : ∀ rid, (db.inbox rid).Sublist (db'.inbox rid)

theorem Later.refl (db : Db) : Later db db := ⟨fun _ h => h, fun _ h => h, fun _ => .refl _⟩

theorem Later.trans {db'' : Db} (h : Later db db') (h' : Later db' db'') : Later db db'' :=
  ⟨fun s hs => h'.stored s (h.stored s hs), fun s hs => h'.confirmed s (h.confirmed s hs),
    fun rid => (h.inbox rid).trans (h'.inbox rid)⟩

/-- What leaves the messages alone and keeps the tombstones. -/
theorem later_of_messages (hmessages : db'.messages = db.messages)
    (h : ∀ s, db.confirmed s = true → db'.confirmed s = true) : Later db db' := by
  refine ⟨?_, h, ?_⟩
  · intro s hs
    rwa [Db.message, hmessages]
  · intro rid
    rw [Db.inbox, Db.inbox, hmessages]

/-- A full inbox stays full. -/
theorem Later.full {rid : Str} (h : Later db db') (hfull : quotaReached env rid db = true) :
    quotaReached env rid db' = true := by
  have hlength := (h.inbox rid).length_le
  have hbytes : ((db.inbox rid).map Message.payloadLength).sum ≤ ((db'.inbox rid).map Message.payloadLength).sum :=
    ((h.inbox rid).map _).sum_le_sum fun _ _ => Nat.zero_le _
  unfold quotaReached at hfull ⊢
  rw [decide_eq_true_iff] at hfull ⊢
  omega

/-- Nothing is left to do for a payload. -/
inductive Settled (env : Env) (now : Datetime) (p : Dict) (db : Db) : Prop
  | stored : alreadyStored p db = .ok true → Settled env now p db
  | full {b} : alreadyStored p db = .ok b → hasRoom env p db = .ok false → Settled env now p db
  | invalid {b room error} : alreadyStored p db = .ok b → hasRoom env p db = .ok room →
      validatePublishPayload env now p = .ok (some error) → Settled env now p db
  | deleted {b room} : alreadyStored p db = .ok b → hasRoom env p db = .ok room → ValidPublish env now p →
      db.confirmed (p.text (lit "signature")) = true → Settled env now p db

/-- What the checks say in later tables. -/
theorem Later.alreadyStored {b : Bool} (h : Later db db') (hb : alreadyStored p db = .ok b) :
    ∃ b', AetherNode.alreadyStored p db' = .ok b' ∧ (b = true → b' = true) := by
  unfold AetherNode.alreadyStored messageExists at hb ⊢
  split at hb
  · split at hb
    · rename_i s hs hbinds
      cases hb
      exact ⟨_, by rw [if_pos hbinds], h.stored s⟩
    · cases hb
  · exact ⟨false, rfl, fun hb' => by rw [hb'] at hb; cases hb⟩

theorem Later.hasRoom {b : Bool} (h : Later db db') (hb : hasRoom env p db = .ok b) :
    ∃ b', AetherNode.hasRoom env p db' = .ok b' ∧ (b = false → b' = false) := by
  unfold AetherNode.hasRoom checkRecipientQuota at hb ⊢
  split at hb
  · split at hb
    · rename_i r hr hbinds
      cases hb
      refine ⟨_, by rw [if_pos hbinds], ?_⟩
      intro hfull
      rw [Bool.not_eq_false'] at hfull ⊢
      exact h.full hfull
    · cases hb
  · exact ⟨true, rfl, fun hb' => by rw [hb'] at hb; cases hb⟩

theorem Settled.later (hs : Settled env now p db) (h : Later db db') : Settled env now p db' := by
  cases hs with
  | stored hstored =>
    obtain ⟨b, hb, hthere⟩ := h.alreadyStored hstored
    obtain rfl := hthere rfl
    exact .stored hb
  | full hstored hroom =>
    obtain ⟨b, hb, -⟩ := h.alreadyStored hstored
    obtain ⟨room, hr, hfull⟩ := h.hasRoom hroom
    obtain rfl := hfull rfl
    exact .full hb hr
  | invalid hstored hroom hval =>
    obtain ⟨b, hb, -⟩ := h.alreadyStored hstored
    obtain ⟨room, hr, -⟩ := h.hasRoom hroom
    exact .invalid hb hr hval
  | deleted hstored hroom hv hc =>
    obtain ⟨b, hb, -⟩ := h.alreadyStored hstored
    obtain ⟨room, hr, -⟩ := h.hasRoom hroom
    exact .deleted hb hr hv (h.confirmed _ hc)

/-- A settled payload changes nothing and does not raise. -/
theorem Settled.idle (hs : Settled env now p db) :
    (ingest env .antiEntropyPull now true true p db).1 = db ∧ ¬ Raises (ingest env .antiEntropyPull now true true p db).2 := by
  have hends : ∀ {b room : Bool} {o : Outcome}, alreadyStored p db = .ok b → hasRoom env p db = .ok room → ¬ Raises o →
      (b = false → room = true → ingest env .antiEntropyPull now true true p db = (db, o)) →
      (ingest env .antiEntropyPull now true true p db).1 = db ∧
        ¬ Raises (ingest env .antiEntropyPull now true true p db).2 := by
    intro b room o hstored hroom ho hrest
    cases b with
    | true => simp [ingest, hstored, Raises]
    | false =>
      cases room with
      | false => simp [ingest, hstored, hroom, Raises]
      | true => rw [hrest rfl rfl]; exact ⟨rfl, ho⟩
  cases hs with
  | stored hstored => simp [ingest, hstored, Raises]
  | @full b hstored hroom => exact hends (o := .quotaExceeded) hstored hroom (by simp [Raises]) fun _ h => by cases h
  | @invalid b room error hstored hroom hval =>
    apply hends (o := .invalid error) hstored hroom (by simp [Raises])
    rintro rfl rfl
    simp [ingest, hstored, hroom, hval]
  | @deleted b room hstored hroom hv hc =>
    apply hends (o := .discarded) hstored hroom (by simp [Raises])
    rintro rfl rfl
    obtain ⟨r, hr, hconfirmed⟩ := Db.confirmed_iff.1 hc
    rw [ingest_admitted hv (alreadyStored_false ⟨now, hv⟩ hstored) hroom]
    simp [resolveDeletionRequest, readDeletionRequest, Verifier.signature_encodable hv.verified, hr, hconfirmed]

/-! ## What an ingestion leaves -/

/-- How an ingestion that no limiter refuses ends: the payload is settled, or the same happens again. -/
inductive Comes (env : Env) (now : Datetime) (p : Dict) (db : Db) : Db × Outcome → Prop
  | settled {o} : Settled env now p db → Comes env now p db (db, o)
  | changes {db' o} : Later db db' → Settled env now p db' → ¬ Raises o → Comes env now p db (db', o)
  | raises {e} : Comes env now p db (db, .raised e)
  /-- A claim is dropped, and the insert raises. -/
  | drops {db' e} : Later db db' → ingest env .antiEntropyPull now true true p db' = (db', .raised e) →
      Comes env now p db (db', .raised e)

theorem later_append {m : Message} (hnew : ∀ r ∈ db.messages.rows, r.2.signature ≠ m.signature) :
    Later db { db with messages := db.messages.append m hnew } := by
  refine ⟨?_, fun _ h => h, ?_⟩
  · intro s hs
    rw [Db.message, Table.lookup_append]
    split
    · rfl
    · exact hs
  · intro rid
    have hrows : (⟨db.messages.append m hnew, db.deletionRequests⟩ : Db).messages.rows =
        db.messages.rows ++ [(db.messages.seq + 1, m)] := rfl
    rw [Db.inbox_append hrows]
    exact List.sublist_append_left _ _

/-- An admitted payload after its resolution: stored, or its insert raises. -/
theorem insert_admitted (hv : ValidPublish env now p) (hnone : db.message (p.text (lit "signature")) = none)
    (hroom : hasRoom env p db = .ok true) : ∃ db' r, insertMessageAndMaybeGossip env p (p.text (lit "recipient_id")) now db =
      (db', r) ∧ ((∃ e, db' = db ∧ r = .error e) ∨
        ∃ id, r = .ok (.stored id) ∧ Later db db' ∧ alreadyStored p db' = .ok true) := by
  obtain ⟨rid, hrid, -⟩ := hv.recipient
  obtain ⟨s, b, hs, hb⟩ := env.verifier.signature_decodes p _ hv.verified
  obtain ⟨hbinds, hfull⟩ := hasRoom_ok hroom
  have hquota : quotaReached env (p.text (lit "recipient_id")) db = false := by
    rw [Dict.text_eq hrid, Bool.eq_false_iff]
    exact fun hq => by cases hfull.1 ⟨rid, hrid, hq⟩
  have hnew : ∀ r ∈ db.messages.rows, r.2.signature ≠ (messageOf p (p.text (lit "recipient_id")) now).signature :=
    Table.fresh_iff.2 hnone
  have hrecipient : encodable (p.text (lit "recipient_id")) = true := by rw [Dict.text_eq hrid]; exact hbinds rid hrid
  rw [insert_eq hnew, hrecipient, hquota]
  simp only [Bool.not_true, Bool.false_eq_true, if_false]
  split
  · exact ⟨_, _, rfl, .inl ⟨_, rfl, rfl⟩⟩
  · refine ⟨_, _, rfl, .inr ⟨_, rfl, later_append hnew, ?_⟩⟩
    have hsignature : (messageOf p (p.text (lit "recipient_id")) now).signature = s := Dict.text_eq hs
    have hstored : (db.messages.append (messageOf p (p.text (lit "recipient_id")) now) hnew).lookup s =
        some (messageOf p (p.text (lit "recipient_id")) now) := by
      rw [Table.lookup_append, if_pos hsignature.symm]
    simp [alreadyStored, hs, messageExists, encodable_of_b64decode hb, Db.message, hstored]

/-- The same after the resolution of its signature. -/
theorem admitted_comes (hv : ValidPublish env now p) (hstored : alreadyStored p db = .ok false)
    (hroom : hasRoom env p db = .ok true) : Comes env now p db (ingest env .antiEntropyPull now true true p db) := by
  have hnone := alreadyStored_false ⟨now, hv⟩ hstored
  have hsig := Verifier.signature_encodable hv.verified
  rw [ingest_admitted hv hnone hroom]
  cases hres : resolveDeletionRequest env now (p.text (lit "signature")) (p.text (lit "recipient_id")) db with
  | mk db' result =>
    rcases resolve_cases hsig hres with ⟨hreq, rfl, rfl⟩ | ⟨hc, rfl, rfl⟩ |
      ⟨key, hp, ⟨e, he, rfl, rfl⟩ | ⟨hown, rfl, rfl⟩ | ⟨hno, rfl, rfl⟩⟩
    · obtain ⟨db₂, r, hins, ⟨e, rfl, rfl⟩ | ⟨id, rfl, hlater, hnow⟩⟩ := insert_admitted hv hnone hroom
      · simp only [hins]
        exact .raises
      · simp only [hins]
        exact .changes hlater (.stored hnow) (by simp [Raises, insertOutcome])
    · exact .settled (.deleted hstored hroom hv hc)
    · exact .raises
    · have hlater : Later db (db.bury ⟨p.text (lit "signature"), key, p.text (lit "recipient_id"), true, now.isoformat⟩) := by
        apply later_of_messages (Pipeline.resolve_messages hsig hnone hres)
        intro s hs
        simp only [Db.confirmed, Db.request_bury]
        split
        · rfl
        · exact hs
      obtain ⟨b, hb, -⟩ := hlater.alreadyStored hstored
      obtain ⟨room, hr, -⟩ := hlater.hasRoom hroom
      exact .changes hlater (.deleted hb hr hv (by simp [Db.confirmed])) (by simp [Raises])
    · have hlater : Later db (db.deleteRequest (p.text (lit "signature"))) := by
        refine later_of_messages rfl ?_
        intro s hs
        simp only [Db.confirmed, Db.request_deleteRequest]
        split
        · rename_i heq
          rw [heq, Malformed.pending_not_confirmed hp] at hs
          cases hs
        · exact hs
      have hnone' : (db.deleteRequest (p.text (lit "signature"))).message (p.text (lit "signature")) = none := hnone
      have hroom' : hasRoom env p (db.deleteRequest (p.text (lit "signature"))) = .ok true := hroom
      obtain ⟨db₂, r, hins, ⟨e, rfl, rfl⟩ | ⟨id, rfl, hstores, hnow⟩⟩ := insert_admitted hv hnone' hroom'
      · simp only [hins]
        -- The next time there is no claim to drop.
        refine .drops hlater ?_
        have hread : readDeletionRequest (p.text (lit "signature")) (db.deleteRequest (p.text (lit "signature"))) =
            .ok .noRequest := by
          simp [readDeletionRequest, hsig]
        rw [ingest_admitted hv hnone' hroom']
        simp only [resolveDeletionRequest, hread, hins]
        rfl
      · simp only [hins]
        exact .changes (hlater.trans hstores) (.stored hnow) (by simp [Raises, insertOutcome])

theorem ingest_comes (env : Env) (now : Datetime) (p : Dict) (db : Db) :
    Comes env now p db (ingest env .antiEntropyPull now true true p db) := by
  have hchecked := ingest_checks env .antiEntropyPull now p db
  generalize ingest env .antiEntropyPull now true true p db = r at hchecked
  cases hchecked with
  | unbound | unboundRecipient | clock => exact .raises
  | duplicate hstored => exact .settled (.stored hstored)
  | full hstored hroom => exact .settled (.full hstored hroom)
  | invalid hstored hroom hval => exact .settled (.invalid hstored hroom hval)
  | admitted hstored hroom hv => exact admitted_comes hv hstored hroom

/-- Taking an item settles it, and one that raises raises again. -/
theorem settles (env : Env) (now : Datetime) : Settles (settle env now) Raises Later where
  refl := Later.refl
  trans := Later.trans
  step x db := by
    have hcomes := ingest_comes env now x.2.payload db
    unfold settle
    generalize ingest env .antiEntropyPull now true true x.2.payload db = r at hcomes
    cases hcomes with
    | settled | raises => exact .refl db
    | changes hlater | drops hlater => exact hlater
  settled := by
    intro x db db' hok hlater
    have hcomes := ingest_comes env now x.2.payload db
    unfold settle at hok hlater ⊢
    generalize ingest env .antiEntropyPull now true true x.2.payload db = r at hcomes hok hlater
    cases hcomes with
    | settled hs => exact (hs.later hlater).idle
    | changes _ hs => exact (hs.later hlater).idle
    | raises => exact absurd ⟨_, rfl⟩ hok
    | drops => exact absurd ⟨_, rfl⟩ hok
  failed := by
    intro x db hfails
    have hcomes := ingest_comes env now x.2.payload db
    unfold settle at hfails ⊢
    cases hr : ingest env .antiEntropyPull now true true x.2.payload db with
    | mk db' o =>
      rw [hr] at hcomes hfails
      cases hcomes with
      | settled | raises => rw [hr]; exact ⟨rfl, hfails⟩
      | changes _ _ hok => exact absurd hfails hok
      | drops _ hagain => rw [hagain]; exact ⟨rfl, _, rfl⟩

/-! ## A round takes items from the front -/

/-- The cursor after these items. -/
def lastId (c : Nat) (rows : List (Nat × Message)) : Nat := rows.foldl (fun m x => max m x.1) c

/-- How the loop of a round over these rows can end, with the final outcomes and what it leaves: after some items from
the front, or with the exception of the next one. -/
inductive LoopEnds (env : Env) (now : Datetime) (c : Nat) (db : Db) : List (Nat × Message) →
    List ((Nat × Message) × Outcome) → Db × Except PyError Nat → Prop
  | stops {pre post} : Clean (settle env now) Raises db pre →
      LoopEnds env now c db (pre ++ post) (process (settle env now) db pre).2
        ((process (settle env now) db pre).1, .ok (lastId c pre))
  | raises {pre x post e} : Clean (settle env now) Raises db pre →
      Raises (settle env now x (process (settle env now) db pre).1).2 →
      LoopEnds env now c db (pre ++ x :: post) (process (settle env now) db pre).2
        ((settle env now x (process (settle env now) db pre).1).1, .error e)

/-- One more item in front. -/
theorem LoopEnds.cons {c : Nat} {x : Nat × Message} {o : Outcome} {rows : List (Nat × Message)}
    {t : List ((Nat × Message) × Outcome)} {r : Db × Except PyError Nat} (hx : settle env now x db = (db', o))
    (hok : ¬ Raises o) (h : LoopEnds env now (max c x.1) db' rows t r) :
    LoopEnds env now c db (x :: rows) ((x, o) :: t) r := by
  have hprocess : ∀ pre, process (settle env now) db (x :: pre) =
      ((process (settle env now) db' pre).1, (x, o) :: (process (settle env now) db' pre).2) := by
    intro pre
    rw [process, hx]
  have hclean : ∀ {pre}, Clean (settle env now) Raises db' pre → Clean (settle env now) Raises db (x :: pre) := by
    intro pre hpre
    rw [clean_cons, hx]
    exact ⟨hok, hpre⟩
  cases h with
  | @stops pre post hpre =>
    have hend : LoopEnds env now c db (x :: pre ++ post) _ _ := stops (hclean hpre)
    rw [hprocess] at hend
    exact hend
  | @raises pre y post e hpre hy =>
    have hy' : Raises (settle env now y (process (settle env now) db (x :: pre)).1).2 := by
      rw [hprocess]
      exact hy
    have hend : LoopEnds env now c db (x :: pre ++ y :: post) _ _ := raises (e := e) (hclean hpre) hy'
    rw [hprocess] at hend
    exact hend

/-- The rows above a cursor. -/
def above (source : Db) (c : Nat) : List (Nat × Message) := source.messages.rows.filter fun r => decide (c < r.1)

variable {source : Db} {q : Puller}

/-- A message whose ciphertext has `n` characters. -/
def letter (recipientId expiresAt : Str) (n : Nat) (signature : Str) : Dict :=
  [(lit "version", .str (lit "1.0")), (lit "sender_pubkey", .str (lit "YWE=")), (lit "recipient_id", .str recipientId),
    (lit "expires_at", .str expiresAt), (lit "encrypted_key", .str []), (lit "nonce", .str []),
    (lit "ciphertext", .str (List.replicate n 65)), (lit "timestamp", .str []), (lit "signature", .str signature)]

/-- Noon of the day before. -/
def past : Str := lit "2026-01-01T12:00:00+00:00"

def long : Nat × Message := (502, messageOf (letter (lit "b") Sample.expiresAt 120000 (lit "1501")) (lit "b") Sample.noon)

end AetherNode.Throttle
