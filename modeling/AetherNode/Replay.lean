import AetherNode.Handlers
/-!
# Replays by signed content

Verification looks at the decoded signature bytes, duplicate detection and
tombstones at the text. `b64decode` skips characters outside the alphabet, so
one signature has many texts, and each of them is a new message to the relay.
As long as only one text is ever submitted for a content and its bytes, at
most one row carries them and a kept tombstone refuses them.
-/
open AetherNode.Lib AetherNode.Lib.Json AetherNode.Protocol

namespace AetherNode.Replay

variable {env : Env}

/-- The canonical text that is signed. -/
def content (p : Dict) : Str := canonical (.obj (signedContent p))

/-- The payload has signed content `c` and signature bytes `b`. -/
def Carries (p : Dict) (c : Str) (b : Bytes) : Prop := content p = c ∧ decodeField p (lit "signature") = some b

instance (p : Dict) (c : Str) (b : Bytes) : Decidable (Carries p c b) := inferInstanceAs (Decidable (_ ∧ _))

/-- The owner's request for `τ` has deleted a stored message that carried `(c, b)`, or one that arrived was
discarded. -/
inductive OwnerDeleted (env : Env) (h : List (AtomicEvent × AtomicObs)) (τ c : Str) (b : Bytes) : Prop where
  | deleted {pre post : List (AtomicEvent × AtomicObs)} {q : Dict} {now : Datetime} {gate : Gate} {db : Db}
      {m : Message} (split : h = pre ++ (.delete q now gate, .delete (.replied .deleted)) :: post)
      (target : q.text (lit "target_signature") = τ) (run : AtomicRun env pre db) (stored : db.message τ = some m)
      (carries : Carries m.payload c b)
  | discarded {path : Path} {q : Dict} {now : Datetime} {gate identityGate : Bool}
      (arrived : (.ingest path q now gate identityGate, .ingest .discarded) ∈ h)
      (target : q.text (lit "signature") = τ) (carries : Carries q c b)

/-- A submission that carries `(c, b)` spells the signature `σ`. -/
def Spells (c : Str) (b : Bytes) (σ : Str) : AtomicEvent → Prop
  | .ingest _ p _ _ _ => Carries p c b → p.text (lit "signature") = σ
  | _ => True

instance (c : Str) (b : Bytes) (σ : Str) (e : AtomicEvent) : Decidable (Spells c b σ e) :=
  match e with
  | .ingest _ p _ _ _ => inferInstanceAs (Decidable (Carries p c b → p.text (lit "signature") = σ))
  | .delete .. => isTrue trivial
  | .pullDeletion .. => isTrue trivial
  | .sweep .. => isTrue trivial

/-- Every submitted payload that carries `(c, b)` spells the signature `σ`. -/
def OneSpelling (c : Str) (b : Bytes) (σ : Str) (h : List (AtomicEvent × AtomicObs)) : Prop :=
  ∀ x ∈ h, Spells c b σ x.1

instance (c : Str) (b : Bytes) (σ : Str) (h : List (AtomicEvent × AtomicObs)) : Decidable (OneSpelling c b σ h) :=
  inferInstanceAs (Decidable (∀ x ∈ h, Spells c b σ x.1))

/-- Every stored message has been submitted, and is filed under its signature text. -/
theorem stored_submitted {h : List (AtomicEvent × AtomicObs)} {db : Db} (hr : AtomicRun env h db) {sig : Str}
    {m : Message} (hm : db.message sig = some m) :
    m.payload.text (lit "signature") = sig ∧
      ∃ path now gate identityGate o, (AtomicEvent.ingest path m.payload now gate identityGate, o) ∈ h := by
  induction hr generalizing sig m with
  | nil => cases hm
  | @snoc h db e o db' hr _ hs ih =>
    rcases atomic_message hs hm with hold | ⟨path, p, now, gate, identityGate, id, rfl, rfl, -, rfl, rfl⟩
    · obtain ⟨hsig, path, now, gate, identityGate, o', hmem⟩ := ih hold
      exact ⟨hsig, path, now, gate, identityGate, o', List.mem_append_left _ hmem⟩
    · exact ⟨rfl, path, now, gate, identityGate, _, List.mem_append_right h (List.mem_singleton.2 rfl)⟩

theorem OneSpelling.left {c : Str} {b : Bytes} {σ : Str} {h h' : List (AtomicEvent × AtomicObs)}
    (hs : OneSpelling c b σ (h ++ h')) : OneSpelling c b σ h :=
  fun x hx => hs x (List.mem_append_left _ hx)

/-- A stored message that carries `(c, b)` is filed under the one spelling. -/
theorem carried_signature {h : List (AtomicEvent × AtomicObs)} {db : Db} (hr : AtomicRun env h db) {c σ : Str}
    {b : Bytes} (hone : OneSpelling c b σ h) {sig : Str} {m : Message} (hm : db.message sig = some m)
    (hc : Carries m.payload c b) : sig = σ := by
  obtain ⟨rfl, path, now, gate, identityGate, o, hmem⟩ := stored_submitted hr hm
  exact hone _ hmem hc

/-- What a relay promises about the replay of `(c, b)`, for the storing of a payload that carries them: no stored
row carries them, and no tombstone of a row that did is kept. -/
def Fresh (env : Env) (h : List (AtomicEvent × AtomicObs)) (db : Db) (c : Str) (b : Bytes) : Prop :=
  (∀ r ∈ db.messages.rows, ¬ Carries r.2.payload c b) ∧
    ∀ τ, OwnerDeleted env h τ c b → db.confirmed τ = false

/-- With one spelling, whatever is stored is fresh. -/
theorem stored_fresh {h : List (AtomicEvent × AtomicObs)} {db db' : Db} {c σ : Str} {b : Bytes} {path : Path}
    {p : Dict} {now : Datetime} {gate identityGate : Bool} {id : Nat} (hr : AtomicRun env h db)
    (hs : atomicStep env db (.ingest path p now gate identityGate) = some (db', .ingest (.stored id)))
    (hc : Carries p c b)
    (hone : OneSpelling c b σ (h ++ [(.ingest path p now gate identityGate, .ingest (.stored id))])) :
    Fresh env h db c b := by
  have hp : p.text (lit "signature") = σ :=
    hone _ (List.mem_append_right h (List.mem_singleton.2 rfl)) hc
  simp only [atomicStep, Option.some.injEq, Prod.mk.injEq, AtomicObs.ingest.injEq] at hs
  cases hi : ingest env path now gate identityGate p db with | mk db'' o =>
  obtain rfl : o = .stored id := by simpa [hi] using hs.2
  cases ingest_cases hi with
  | same hn => exact absurd rfl (hn id)
  | drops _ _ hn => exact absurd rfl (hn id)
  | stores _ hnone hfree =>
    rw [hp] at hnone hfree
    constructor
    · intro r hrow hcr
      have hm : db.message r.2.signature = some r.2 := Table.lookup_of_mem hrow
      rw [carried_signature hr hone.left hm hcr, hnone] at hm
      cases hm
    · rintro τ (⟨rfl, -, hpre, hm, hcm⟩ | ⟨hmem, rfl, hcq⟩)
      -- The deleted row, or the discarded arrival, was under the same spelling.
      · rw [carried_signature hpre hone.left.left hm hcm]
        exact hfree
      · have hq := hone.left _ hmem hcq
        rw [hq]
        exact hfree

/-- After a message has been stored and its owner has deleted it, the same content is stored under another
signature. -/
theorem stored_fresh_resigned : ∃ h db db' id,
    atomicStep Sample.keyed db (.ingest .publish (Sample.payload (lit "ZGVs")) Sample.noon true true) =
      some (db', .ingest (.stored id)) ∧
    Fresh Sample.keyed h db (content (Sample.payload (lit "ZGVs"))) [100, 101, 108] := by
  let e : AtomicEvent := .ingest .publish (Sample.payload (lit "ZGVs")) Sample.noon true true
  obtain ⟨h, db, hr, hp⟩ := exists_any_run (atomicStep Sample.keyed)
    (fun db h => decide (OneSpelling (content (Sample.payload (lit "ZGVs"))) [100, 101, 108] (lit "ZGVs")
      (h ++ [(e, .ingest (.stored 2))])) &&
      (ingest Sample.keyed .publish Sample.noon true true (Sample.payload (lit "ZGVs")) db).2 = .stored 2) Db.empty
    [.ingest .publish (Sample.payload (lit "c2ln")) Sample.noon true true,
      .delete (Sample.deletePayload (lit "c2ln") Sample.ownerKey) Sample.noon .pass] (by decide +kernel)
  simp only [Bool.and_eq_true, decide_eq_true_eq] at hp
  obtain ⟨hone, ho⟩ := hp
  have hs : atomicStep Sample.keyed db e =
      some ((ingest Sample.keyed .publish Sample.noon true true (Sample.payload (lit "ZGVs")) db).1, .ingest (.stored 2)) := by
    simp only [e, atomicStep, ho]
  exact ⟨h, db, _, 2, hs, stored_fresh hr hs ⟨rfl, by decide⟩ hone⟩

/-- The same message with a character outside the alphabet in its signature text is stored a second time. -/
theorem stored_respelled : ∃ h db db' id p q, AtomicRun Sample.keyed h db ∧
    atomicStep Sample.keyed db (.ingest .publish q Sample.noon true true) = some (db', .ingest (.stored id)) ∧
    Carries p (content p) [115, 105, 103] ∧ Carries q (content p) [115, 105, 103] ∧
    Sample.keyed.verifier.verify p (lit "sender_pubkey") = true ∧ ¬ Fresh Sample.keyed h db (content p) [115, 105, 103] := by
  let p := Sample.payload (lit "c2ln")
  let q := Sample.payload (lit "c2-ln")
  obtain ⟨h, db, hr, hp⟩ := exists_any_run (atomicStep Sample.keyed)
    (fun db _ => (db.messages.rows.any fun r => decide (Carries r.2.payload (content p) [115, 105, 103])) &&
      (ingest Sample.keyed .publish Sample.noon true true q db).2 = .stored 2) Db.empty
    [.ingest .publish p Sample.noon true true] (by decide +kernel)
  simp only [Bool.and_eq_true, List.any_eq_true, decide_eq_true_eq] at hp
  obtain ⟨⟨r, hrow, hc⟩, ho⟩ := hp
  refine ⟨h, db, (ingest Sample.keyed .publish Sample.noon true true q db).1, 2, p, q, hr, ?_, ⟨rfl, by decide⟩,
    ⟨by decide +kernel, by decide⟩, by decide +kernel, fun hf => hf.1 r hrow hc⟩
  simp only [atomicStep, ho]

end AetherNode.Replay
