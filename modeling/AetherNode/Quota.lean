import AetherNode.Relay
import Mathlib.Algebra.Order.BigOperators.Group.List
/-!
# The ceilings of an inbox

The section that inserts counts the rows and the bytes of the recipient
again, so whatever ran since `check_recipient_quota`, no inbox holds more
messages than the limit. The bytes it compares are those stored before the
insert: the last message may be of any length.
-/
open AetherNode.Lib AetherNode.Lib.Json AetherNode.Protocol

namespace AetherNode

variable {env : Env}

/-- `SUM(LENGTH(payload))` over the rows of a recipient. -/
def Db.bytes (db : Db) (recipientId : Str) : Nat := ((db.inbox recipientId).map Message.payloadLength).sum

namespace Quota

/-! ## An inbox after a step -/

theorem inbox_sheds {db db' : Db} (h : db.messages.Sheds db'.messages) (rid : Str) :
    (db'.inbox rid).Sublist (db.inbox rid) :=
  (h.rows.map _).filter _

theorem inbox_gains {p : Dict} {now : Datetime} {id : Nat} {db db' : Db} (h : Gains env p now id db db') (rid : Str) :
    db'.inbox rid = db.inbox rid ++
      if p.text (lit "recipient_id") = rid then [messageOf p (p.text (lit "recipient_id")) now] else [] :=
  Db.inbox_append h.rows rid

theorem bytes_sheds {db db' : Db} (h : db.messages.Sheds db'.messages) (rid : Str) : db'.bytes rid ≤ db.bytes rid :=
  ((inbox_sheds h rid).map _).sum_le_sum fun _ _ => Nat.zero_le _

/-- What passes the check has room under both limits. -/
theorem room_iff {rid : Str} {db : Db} : quotaReached env rid db = false ↔
    ((db.inbox rid).length : Int) < env.recipientQuotaMaxMessages ∧ (db.bytes rid : Int) < env.recipientQuotaMaxBytes := by
  unfold quotaReached Db.bytes
  simp only [decide_eq_false_iff_not, not_or, not_le]

/-! ## The cap on messages -/

/-- No inbox holds more rows than the limit; with a limit below zero it holds none. -/
def WithinMessages (env : Env) (db : Db) : Prop :=
  ∀ rid, ((db.inbox rid).length : Int) ≤ max env.recipientQuotaMaxMessages 0

theorem step_withinMessages {s s' : Relay env} {e : Event} {o : Obs} (hs : WithinMessages env s.db)
    (h : step env s e = some (s', o)) : WithinMessages env s'.db := by
  intro rid
  rcases step_messages h with hsheds | ⟨i, now, gate, g, hv, id, -, -, -, -, hgains⟩
  · have := (inbox_sheds hsheds rid).length_le
    have := hs rid
    omega
  · have hroom := (room_iff.1 hgains.room).1
    rw [inbox_gains hgains, List.length_append]
    split
    · rename_i hrid
      rw [hrid] at hroom
      rw [List.length_singleton]
      omega
    · exact hs rid

/-- Every reachable state of a relay keeps to the limit on messages, however its sections interleave. -/
theorem message_cap {h : List (Event × Obs)} {s : Relay env} (hr : RelayRun env Any h s) (rid : Str) :
    ((s.db.inbox rid).length : Int) ≤ max env.recipientQuotaMaxMessages 0 := by
  refine hr.inv (fun s => WithinMessages env s.db) ?_ (fun _ _ _ _ hs _ ht => step_withinMessages hs ht) rid
  intro rid
  exact le_max_right _ _

/-- How an ingestion ended, if the event ended one. -/
def Obs.outcome : Obs → Option Outcome
  | .ended _ o => some o
  | _ => none

/-- Room for one message in each inbox. -/
def single : Env := { Sample.config with recipientQuotaMaxMessages := 1 }

/-- Two requests have both passed `check_recipient_quota`; one of them is stored. -/
theorem message_cap_single : ∃ h s, RelayRun single Any h s ∧
    h.map (fun x => Obs.outcome x.2) = List.replicate 8 none ++ [some (.stored 1), some .quotaExceeded] ∧
    ((s.db.inbox Sample.recipientId).length : Int) ≤ max single.recipientQuotaMaxMessages 0 := by
  obtain ⟨h, s, hr, hp⟩ := exists_any_run (step single)
    (fun _ h => decide (h.map (fun x => Obs.outcome x.2) =
      List.replicate 8 none ++ [some (.stored 1), some .quotaExceeded])) Relay.init
    ([.arrive .publish (Sample.payload (lit "c2ln")), .arrive .gossipPublish (Sample.payload (lit "ZGVs"))] ++
      Sample.sections 0 3 ++ Sample.sections 1 3 ++ Sample.sections 0 1 ++ Sample.sections 1 1) (by decide +kernel)
  exact ⟨h, s, hr, of_decide_eq_true hp, message_cap hr Sample.recipientId⟩

/-! ## The cap on bytes -/

/-- No inbox holds more bytes than the limit. -/
def WithinBytes (env : Env) (db : Db) : Prop := ∀ rid, (db.bytes rid : Int) ≤ max env.recipientQuotaMaxBytes 0

/-- An insert that passes the section's check puts in no more than the bytes that are left. -/
def Fits (env : Env) (s : Relay env) (e : Event) : Prop :=
  ∀ i now gate g hv, e = .advance i now gate → s.ingests[i]? = some g → g.phase = .insert hv →
    s.db.message (g.payload.text (lit "signature")) = none →
    quotaReached env (g.payload.text (lit "recipient_id")) s.db = false →
    (messageOf g.payload (g.payload.text (lit "recipient_id")) now).binds = true →
    (s.db.bytes (g.payload.text (lit "recipient_id")) : Int) +
      (messageOf g.payload (g.payload.text (lit "recipient_id")) now).payloadLength ≤ env.recipientQuotaMaxBytes

theorem bytes_gains {p : Dict} {now : Datetime} {id : Nat} {db db' : Db} (h : Gains env p now id db db') (rid : Str) :
    db'.bytes rid = db.bytes rid + if p.text (lit "recipient_id") = rid
      then (messageOf p (p.text (lit "recipient_id")) now).payloadLength else 0 := by
  unfold Db.bytes
  rw [inbox_gains h, List.map_append, List.sum_append]
  split <;> simp

theorem step_withinBytes {s s' : Relay env} {e : Event} {o : Obs} (hs : WithinBytes env s.db) (hfits : Fits env s e)
    (h : step env s e = some (s', o)) : WithinBytes env s'.db := by
  intro rid
  rcases step_messages h with hsheds | ⟨i, now, gate, g, hv, id, he, hg, hph, -, hgains⟩
  · have := bytes_sheds hsheds rid
    have := hs rid
    omega
  · have hroom := hfits i now gate g hv he hg hph hgains.fresh hgains.room hgains.binds
    rw [bytes_gains hgains]
    split
    · rename_i hrid
      subst hrid
      omega
    · exact hs rid

theorem withinBytes_empty : WithinBytes env .empty := by
  intro rid
  have hempty : Db.empty.bytes rid = 0 := rfl
  rw [hempty]
  exact le_max_right _ _

/-- Inserts that fit keep every inbox within the bytes. -/
theorem run_withinBytes {h : List (Event × Obs)} {s : Relay env} (hr : RelayRun env (Fits env) h s) :
    WithinBytes env s.db := by
  induction hr with
  | nil => exact withinBytes_empty
  | snoc _ hfits hstep ih => exact step_withinBytes ih hfits hstep

/-- An insert that has room, for a new signature and with texts that bind, stores its message. -/
theorem insert_gains {s s' : Relay env} {i : Nat} {now : Datetime} {gate : Bool} {g : Ingest env}
    {hv : Validated env g.payload} {o : Obs} (hg : s.ingests[i]? = some g) (hph : g.phase = .insert hv)
    (hnew : s.db.message (g.payload.text (lit "signature")) = none)
    (hroom : quotaReached env (g.payload.text (lit "recipient_id")) s.db = false)
    (hbinds : (messageOf g.payload (g.payload.text (lit "recipient_id")) now).binds = true)
    (h : step env s (.advance i now gate) = some (s', o)) :
    ∃ id, Gains env g.payload now id s.db s'.db := by
  have hfresh : ∀ r ∈ s.db.messages.rows,
      r.2.signature ≠ (messageOf g.payload (g.payload.text (lit "recipient_id")) now).signature :=
    Table.fresh_iff.2 hnew
  have hencodable : encodable (g.payload.text (lit "recipient_id")) = true := by
    simp only [Message.binds, messageOf, Bool.and_eq_true] at hbinds
    exact hbinds.1.1.1
  have hdb : s'.db =
      (insertMessageAndMaybeGossip env g.payload (g.payload.text (lit "recipient_id")) now s.db).1 := by
    simp only [step, hg, hph, Phase.isDone, Bool.false_eq_true, if_false, Option.some.injEq, Prod.mk.injEq] at h
    obtain ⟨rfl, -⟩ := h
    simp only [Relay.setPhase, advance, hph]
  rw [insert_eq hfresh] at hdb
  simp only [hencodable, hroom, hbinds, Bool.not_true, Bool.false_eq_true, if_false] at hdb
  refine ⟨s.db.messages.seq + 1, hroom, hbinds, hnew, Nat.lt_succ_self _, ?_, ?_⟩ <;> rw [hdb] <;> rfl

/-- An inbox goes over the limit at the first insert that is longer than what is left. -/
theorem fits_of_withinBytes {s s' : Relay env} {e : Event} {o : Obs} (h : step env s e = some (s', o))
    (hs : WithinBytes env s'.db) : Fits env s e := by
  rintro i now gate g hv rfl hg hph hnew hroom hbinds
  obtain ⟨id, hgains⟩ := insert_gains hg hph hnew hroom hbinds h
  have hbytes := hs (g.payload.text (lit "recipient_id"))
  rw [bytes_gains hgains, if_pos rfl] at hbytes
  have := (room_iff.1 hroom).2
  omega

/-- A run keeps every inbox within the bytes in all its states exactly when no insert that passed the check was longer
than what was left. -/
theorem byte_cap_iff {h : List (Event × Obs)} {s : Relay env} (hr : RelayRun env Any h s) :
    RelayRun env (Fits env) h s ↔ ∀ pre post t, h = pre ++ post → RelayRun env Any pre t → WithinBytes env t.db :=
  Run.iff_always (fun s => WithinBytes env s.db) run_withinBytes fits_of_withinBytes hr

/-- Room for a hundred bytes in each inbox. -/
def hundred : Env := { Sample.config with recipientQuotaMaxBytes := 100 }

/-- The first message of an inbox with room for a hundred bytes is longer than that, and stored. -/
theorem byte_cap_exceeded : ∃ h s, RelayRun hundred Any h s ∧
    hundred.recipientQuotaMaxBytes < (s.db.bytes Sample.recipientId : Nat) := by
  obtain ⟨h, s, hr, hp⟩ := exists_any_run (step hundred)
    (fun s _ => decide (hundred.recipientQuotaMaxBytes < (s.db.bytes Sample.recipientId : Nat))) Relay.init
    ([.arrive .publish (Sample.payload (lit "c2ln"))] ++ Sample.sections 0 4) (by decide +kernel)
  exact ⟨h, s, hr, of_decide_eq_true hp⟩

/-- With the default limit the same publish fits. -/
theorem byte_cap_iff_default : ∃ h s, RelayRun Sample.config Any h s ∧ 0 < s.db.bytes Sample.recipientId ∧
    (RelayRun Sample.config (Fits Sample.config) h s ↔
      ∀ pre post t, h = pre ++ post → RelayRun Sample.config Any pre t → WithinBytes Sample.config t.db) := by
  obtain ⟨h, s, hr, hp⟩ := exists_any_run (step Sample.config)
    (fun s _ => decide (0 < s.db.bytes Sample.recipientId)) Relay.init
    ([.arrive .publish (Sample.payload (lit "c2ln"))] ++ Sample.sections 0 4) (by decide +kernel)
  exact ⟨h, s, hr, of_decide_eq_true hp, byte_cap_iff hr⟩

end Quota

end AetherNode
