import AetherNode.Relay
/-!
# Only the owner can delete

A delete request is authorized in two phases: a claim on a signature with no
message is pending until the message arrives. The invariant follows both over
the history: a pending row comes from a validated request by its key, and a
confirmed row from a peer's tombstone or from a request whose key owns every
message with that signature. A pulled item can take a message away without
leaving a tombstone, when its values do not bind; without such items every
removal and every discard is justified.
-/
open AetherNode.Lib AetherNode.Lib.Json AetherNode.Protocol

namespace AetherNode.Ownership

variable {env : Env}

/-- A delete request for `sig` by `key` has passed its validation and been handled. -/
def Asked (env : Env) (h : List (Event × Obs)) (sig key : Str) : Prop :=
  ∃ p now o, (Event.delete p now .pass, o) ∈ h ∧ ValidDelete env p ∧ p.text (lit "target_signature") = sig ∧
    p.text (lit "recipient_pubkey") = key

/-- The clock reading of an event that decides about a deletion. -/
def decisionTime : Event → Option Datetime
  | .advance _ now _ => some now
  | .delete _ now _ => some now
  | _ => none

/-- At some decision, a key that had asked by then owned messages to `rid`. -/
def OwnerDecided (env : Env) (h : List (Event × Obs)) (sig rid : Str) : Prop :=
  ∃ pre e o post now key, h = pre ++ (e, o) :: post ∧ decisionTime e = some now ∧
    Asked env (pre ++ [(e, o)]) sig key ∧ Owns env now key rid

/-- A tombstone for `sig` has been adopted from a peer. -/
def Adopted (h : List (Event × Obs)) (sig : Str) : Prop :=
  ∃ item now, (Event.pullDeletion item now true, Obs.pullDeletion .adopted) ∈ h ∧
    item.get (lit "target_signature") = some (.str sig)

/-- What may remove or discard a message with signature `sig` to `rid`. -/
def Justified (env : Env) (h : List (Event × Obs)) (sig rid : Str) : Prop := Adopted h sig ∨ OwnerDecided env h sig rid

theorem Asked.append {h h' : List (Event × Obs)} {sig key : Str} (ha : Asked env h sig key) :
    Asked env (h ++ h') sig key := by
  obtain ⟨p, now, o, hm, hv⟩ := ha
  exact ⟨p, now, o, List.mem_append_left _ hm, hv⟩

theorem OwnerDecided.append {h h' : List (Event × Obs)} {sig rid : Str} (ho : OwnerDecided env h sig rid) :
    OwnerDecided env (h ++ h') sig rid := by
  obtain ⟨pre, e, o, post, now, key, rfl, hrest⟩ := ho
  exact ⟨pre, e, o, post ++ h', now, key, by simp, hrest⟩

theorem Adopted.append {h h' : List (Event × Obs)} {sig : Str} (ha : Adopted h sig) : Adopted (h ++ h') sig := by
  obtain ⟨item, now, hm, ht⟩ := ha
  exact ⟨item, now, List.mem_append_left _ hm, ht⟩

theorem Justified.append {h h' : List (Event × Obs)} {sig rid : Str} (hj : Justified env h sig rid) :
    Justified env (h ++ h') sig rid := by
  rcases hj with ha | ho
  · exact .inl ha.append
  · exact .inr ho.append

/-- Some verified message has this signature and this recipient. -/
def Names (env : Env) (sig rid : Str) : Prop :=
  ∃ p, env.verifier.verify p (lit "sender_pubkey") = true ∧ p.text (lit "signature") = sig ∧
    p.text (lit "recipient_id") = rid

theorem names_of_validated {p : Dict} (hv : Validated env p) :
    Names env (p.text (lit "signature")) (p.text (lit "recipient_id")) := by
  obtain ⟨t, hv⟩ := hv
  exact ⟨p, hv.verified, rfl, rfl⟩

theorem Names.unique (hone : OneMessagePerSignature env.verifier) {sig r r' : Str} (h : Names env sig r)
    (h' : Names env sig r') : r = r' := by
  obtain ⟨p, hp, rfl, rfl⟩ := h
  obtain ⟨q, hq, hs, rfl⟩ := h'
  exact (hone p q hp hq hs.symm).1

/-! ## The invariant -/

/-- Where rows and matched claims come from. -/
structure Traced (env : Env) (h : List (Event × Obs)) (s : Relay env) : Prop where
  messages : ∀ sig m, s.db.message sig = some m → Names env sig m.recipientId
  pending : ∀ sig r, s.db.request sig = some r → r.confirmed = false → Asked env h sig r.requesterPubkey
  confirmed : ∀ sig rid, s.db.confirmed sig = true → Names env sig rid → Justified env h sig rid
  matched : ∀ g ∈ s.ingests, ∀ hv key hm, g.phase = .resolveWrite hv key true hm →
    OwnerDecided env h (g.payload.text (lit "signature")) (g.payload.text (lit "recipient_id"))

/-- The item of a pull does not take a stored message away without leaving its tombstone. -/
def pulledItemBinds (s : Relay env) : Event → Bool
  | .pullDeletion item now true =>
    match item.get (lit "target_signature") with
    | some (.str t) =>
      s.db.confirmed t || (s.db.message t).isNone ||
        match pulledTombstone env now item t with
        | .ok _ => true
        | .error _ => false
    | _ => true
  | _ => true

/-- A key that asked in this very step, or before, and owns `rid` now. -/
theorem ownerDecided_now {h : List (Event × Obs)} {e : Event} {o : Obs} {now : Datetime} {sig rid key : Str}
    (he : decisionTime e = some now) (ha : Asked env (h ++ [(e, o)]) sig key) (hown : Owns env now key rid) :
    OwnerDecided env (h ++ [(e, o)]) sig rid :=
  ⟨h, e, o, [], now, key, rfl, he, ha, hown⟩

/-- Every effect on the tables is justified: what it stores, what it records and what it removes. -/
structure Accounted (env : Env) (h : List (Event × Obs)) (s : Relay env) (e : Event) (db : Db) : Prop where
  messages : ∀ sig m, db.message sig = some m → s.db.message sig = some m ∨ Names env sig m.recipientId
  requests : ∀ sig row, db.request sig = some row → s.db.request sig = some row ∨
    (row.confirmed = true ∧ ∀ rid, Names env sig rid → Justified env h sig rid) ∨
    (row.confirmed = false ∧ Asked env h sig row.requesterPubkey)
  removed : ∀ sig m, s.db.message sig = some m → db.message sig = none →
    (∃ now cutoffNow, e = .sweep now cutoffNow) ∨ Justified env h sig m.recipientId

/-- Burying is accounted for when it is justified for every message with the signature. -/
theorem bury_accounted {h : List (Event × Obs)} {s : Relay env} {e : Event} {row : DeletionRequest}
    (hrow : row.confirmed = true) (hm : ∀ sig m, s.db.message sig = some m → Names env sig m.recipientId)
    (hj : ∀ rid, Names env row.targetSignature rid → Justified env h row.targetSignature rid) :
    Accounted env h s e (s.db.bury row) where
  messages sig m hs := by
    rw [Db.message_bury] at hs
    split at hs
    · cases hs
    · exact .inl hs
  requests sig r hr := by
    rw [Db.request_bury] at hr
    split at hr
    · rename_i hsig
      cases hr
      exact .inr (.inl ⟨hrow, hsig ▸ hj⟩)
    · exact .inl hr
  removed sig m hs hnone := by
    rw [Db.message_bury] at hnone
    split at hnone
    · rename_i hsig
      exact .inr (hsig ▸ hj _ (hsig ▸ hm sig m hs))
    · rw [hs] at hnone
      cases hnone

/-- An event that leaves the messages as they are has only its requests to account for. -/
theorem kept_accounted {h : List (Event × Obs)} {s : Relay env} {e : Event} {db : Db}
    (hm : ∀ sig, db.message sig = s.db.message sig)
    (hr : ∀ sig row, db.request sig = some row → s.db.request sig = some row ∨
      (row.confirmed = true ∧ ∀ rid, Names env sig rid → Justified env h sig rid) ∨
      (row.confirmed = false ∧ Asked env h sig row.requesterPubkey)) : Accounted env h s e db where
  messages sig m hs := .inl ((hm sig).symm.trans hs)
  requests := hr
  removed sig m hs hnone := by
    rw [hm, hs] at hnone
    cases hnone

/-- What each effect stores, records and removes. -/
theorem effect_accounted (hone : OneMessagePerSignature env.verifier) {h : List (Event × Obs)} {s : Relay env}
    {e : Event} {o : Obs} {db : Db} (ht : Traced env h s) (hok : pulledItemBinds s e = true) (he : Effect env s e o db) :
    Accounted env (h ++ [(e, o)]) s e db := by
  cases he with
  | same => exact kept_accounted (fun _ => rfl) fun sig row hr => .inl hr
  | @stores i now gate g hv id _ hg hph hnone hq hb hlook hreq =>
    refine ⟨?_, ?_, ?_⟩
    · intro sig m hm
      rw [hlook] at hm
      split at hm
      · rename_i hs
        cases hm
        exact .inr (hs ▸ names_of_validated hv)
      · exact .inl hm
    · intro sig row hr
      exact .inl (by simpa only [Db.request, hreq] using hr)
    · intro sig m hm hgone
      rw [hlook] at hgone
      split at hgone
      · cases hgone
      · rw [hm] at hgone
        cases hgone
  | @drops i now gate g hv key _ hg hph =>
    apply kept_accounted (Db.message_deleteRequest s.db _)
    intro sig row hr
    rw [Db.request_deleteRequest] at hr
    split at hr
    · cases hr
    · exact .inl hr
  | @promotes i now gate g hv key hm hg hph =>
    -- The claim matched when it was read, in an earlier section; the invariant remembers that.
    have hown := ht.matched g (List.mem_of_getElem? hg) hv key hm hph
    apply bury_accounted rfl ht.messages
    intro rid hn
    rw [Names.unique hone hn (names_of_validated hv)]
    exact .inr hown.append
  | @deletes p now m hv hm hown =>
    have hasked : Asked env (h ++ [(Event.delete p now .pass, Obs.delete (.replied .deleted))])
        (p.text (lit "target_signature")) (p.text (lit "recipient_pubkey")) :=
      ⟨p, now, _, List.mem_append_right h (List.mem_singleton.2 rfl), hv, rfl, rfl⟩
    apply bury_accounted rfl ht.messages
    intro rid hn
    rw [Names.unique hone hn (ht.messages _ m hm)]
    exact .inr (ownerDecided_now rfl hasked hown)
  | @records p now hv hnone =>
    apply kept_accounted (Db.message_recordRequest s.db _)
    intro sig row hr
    rw [Db.request_recordRequest] at hr
    split at hr
    · rename_i hs
      cases hr
      exact .inr (.inr ⟨rfl, p, now, _, List.mem_append_right h (List.mem_singleton.2 rfl), hv, hs.1.symm, rfl⟩)
    · exact .inl hr
  | @adopts item now t row htgt hc hrow =>
    obtain ⟨-, -, -, rfl, hconf⟩ := bindTombstone_ok hrow
    refine bury_accounted hconf ht.messages fun rid _ => .inl ?_
    exact ⟨item, now, List.mem_append_right h (List.mem_singleton.2 rfl), htgt⟩
  | @loses item now t err htgt hc herr =>
    -- The item does not bind, so by `hok` its target was not stored.
    have hnone : s.db.message t = none := by simpa [pulledItemBinds, htgt, hc, herr] using hok
    refine ⟨?_, fun sig row hr => .inl hr, ?_⟩
    · intro sig m hm
      rw [Db.message_deleteMessage] at hm
      split at hm
      · cases hm
      · exact .inl hm
    · intro sig m hm hgone
      rw [Db.message_deleteMessage] at hgone
      split at hgone
      · rename_i hsig
        rw [hsig, hnone] at hm
        cases hm
      · rw [hm] at hgone
        cases hgone
  | @sweeps now cutoffNow cutoff _ _ hcut hm hq =>
    refine ⟨fun sig m hs => .inl ?_, fun sig row hr => .inl ?_, fun sig m _ _ => .inl ⟨now, cutoffNow, rfl⟩⟩
    · rw [hm] at hs
      exact (Option.filter_eq_some_iff.1 hs).1
    · rw [hq] at hr
      exact (Option.filter_eq_some_iff.1 hr).1

theorem traced_init : Traced env [] (Relay.init : Relay env) where
  messages sig m hm := by cases hm
  pending sig r hr := by cases hr
  confirmed sig rid hc := by cases hc
  matched g hg := by cases hg

theorem step_traced (hone : OneMessagePerSignature env.verifier) {h : List (Event × Obs)} {s s' : Relay env} {e : Event}
    {o : Obs} (ht : Traced env h s) (hok : pulledItemBinds s e = true) (hs : step env s e = some (s', o)) :
    Traced env (h ++ [(e, o)]) s' := by
  have hacc := effect_accounted hone ht hok (step_effect hs)
  constructor
  · intro sig m hm
    rcases hacc.messages sig m hm with hold | hnew
    · exact ht.messages sig m hold
    · exact hnew
  · intro sig r hr hc
    rcases hacc.requests sig r hr with hold | ⟨hc', -⟩ | ⟨-, ha⟩
    · exact (ht.pending sig r hold hc).append
    · rw [hc] at hc'
      cases hc'
    · exact ha
  · intro sig rid hc hn
    obtain ⟨r, hr, hrc⟩ := Db.confirmed_iff.1 hc
    rcases hacc.requests sig r hr with hold | ⟨-, hj⟩ | ⟨hc', -⟩
    · exact (ht.confirmed sig rid (Db.confirmed_iff.2 ⟨r, hold, hrc⟩) hn).append
    · exact hj rid hn
    · rw [hrc] at hc'
      cases hc'
  · intro g' hg' hv key hm hph
    rcases step_ingests hs hg' with hold | ⟨path, p, -, rfl⟩ | ⟨i, now, gate, g, rfl, hg, rfl⟩
    · exact (ht.matched g' hold hv key hm hph).append
    · cases hph
    · -- This step has matched the claim of a pending row, whose key had asked.
      obtain ⟨r, hr, hc, rfl, hclaim⟩ := advance_resolveWrite hph
      exact ownerDecided_now rfl (ht.pending _ r hr hc).append (owns_iff.2 hclaim)

theorem run_traced (hone : OneMessagePerSignature env.verifier) {h : List (Event × Obs)} {s : Relay env}
    (hr : RelayRun env (fun s e => pulledItemBinds s e = true) h s) : Traced env h s :=
  hr.inv_hist (Traced env) traced_init fun _ _ _ _ _ ht hok hs => step_traced hone ht hok hs

/-! ## Removals and discards -/

/-- After any run whose pulled items bind, every further step of that kind is justified: a row that leaves
`messages` other than in a sweep, and an ingestion that ends as discarded. -/
theorem removed_or_discarded_justified (hone : OneMessagePerSignature env.verifier) {h : List (Event × Obs)}
    {s s' : Relay env} {e : Event} {o : Obs} (hr : RelayRun env (fun s e => pulledItemBinds s e = true) h s)
    (hok : pulledItemBinds s e = true) (hs : step env s e = some (s', o)) :
    (∀ sig m, s.db.message sig = some m → s'.db.message sig = none →
      (∃ now cutoffNow, e = .sweep now cutoffNow) ∨ Justified env (h ++ [(e, o)]) sig m.recipientId) ∧
    (∀ p, o = .ended p .discarded →
      Justified env (h ++ [(e, o)]) (p.text (lit "signature")) (p.text (lit "recipient_id"))) := by
  have ht := run_traced hone hr
  refine ⟨(effect_accounted hone ht hok (step_effect hs)).removed, ?_⟩
  rintro p rfl
  cases e with
  | advance i now gate =>
    -- A discard comes from a confirmed row or from a claim that has matched.
    simp only [step] at hs
    split at hs
    · cases hs
    · rename_i g hg
      split at hs
      · cases hs
      · rename_i hnd
        simp only [Option.some.injEq, Prod.mk.injEq] at hs
        obtain ⟨rfl, ⟨⟨hv, -⟩, hc⟩ | ⟨hv, key, hm, hph⟩ | hph⟩ := advance_discarded hs.2
        · exact (ht.confirmed _ _ hc (names_of_validated hv)).append
        · exact .inr (ht.matched g (List.mem_of_getElem? hg) hv key hm hph).append
        · simp [hph, Phase.isDone] at hnd
  | arrive path p => simp [step] at hs
  | delete p now gate => simp [step] at hs
  | pullDeletion item now gate => simp [step] at hs
  | sweep now cutoffNow => simp [step] at hs

/-- The owner's delete of a stored message, which is justified. -/
theorem removed_or_discarded_justified_owner : ∃ h s e o s', step Sample.config s e = some (s', o) ∧
    (s.db.message (lit "c2ln")).isSome = true ∧ s'.db.message (lit "c2ln") = none ∧
    ∀ m, s.db.message (lit "c2ln") = some m → (∃ now cutoffNow, e = .sweep now cutoffNow) ∨
      Justified Sample.config (h ++ [(e, o)]) (lit "c2ln") m.recipientId := by
  let e : Event := .delete (Sample.deletePayload (lit "c2ln") Sample.ownerKey) Sample.noon .pass
  obtain ⟨h, s, hr, hp⟩ := exists_run (step Sample.config) pulledItemBinds
    (fun s _ => (s.db.message (lit "c2ln")).isSome && pulledItemBinds s e &&
      (step Sample.config s e).any fun r => (r.1.db.message (lit "c2ln")).isNone) Relay.init
    ([.arrive .publish (Sample.payload (lit "c2ln"))] ++ Sample.sections 0 4) (by decide +kernel)
  simp only [Bool.and_eq_true, Option.any_eq_true, Option.isNone_iff_eq_none] at hp
  obtain ⟨⟨hsome, hok⟩, ⟨s', o⟩, hs, hgone⟩ := hp
  exact ⟨h, s, e, o, s', hs, hsome, hgone, fun m hm =>
    (removed_or_discarded_justified Sample.oneMessagePerSignature hr hok hs).1 _ m hm hgone⟩

/-- No delete request and no pull has happened. -/
def quiet (h : List (Event × Obs)) : Bool :=
  h.all fun x => match x.1 with
    | .delete .. => false
    | .pullDeletion .. => false
    | _ => true

theorem not_justified_of_quiet {h : List (Event × Obs)} (hq : quiet h = true) {item : Dict} {now : Datetime}
    {err : PyError} {sig rid : Str} :
    ¬ Justified env (h ++ [(.pullDeletion item now true, .pullDeletion (.raised err))]) sig rid := by
  have hcalm := List.all_eq_true.1 hq
  rintro (⟨item', now', hm, -⟩ | ⟨pre, e, o, post, t, key, heq, -, ⟨p, now', o', hm, -⟩, -⟩)
  · rcases List.mem_append.1 hm with hm | hm
    · exact absurd (hcalm _ hm) (by simp)
    · simp at hm
  · have hin : (Event.delete p now' .pass, o') ∈ h ++ [(Event.pullDeletion item now true,
        Obs.pullDeletion (.raised err))] := by
      rw [heq, List.append_cons]
      exact List.mem_append_left _ hm
    rcases List.mem_append.1 hin with hin | hin
    · exact absurd (hcalm _ hin) (by simp)
    · simp at hin

/-- A pulled item whose `requester_pubkey` is null takes the message away and leaves no tombstone. -/
theorem removed_unjustified : OneMessagePerSignature Sample.config.verifier ∧ ∃ h s e o s' m,
    RelayRun Sample.config Any h s ∧ step Sample.config s e = some (s', o) ∧
    s.db.message (lit "c2ln") = some m ∧ s'.db.message (lit "c2ln") = none ∧
    (∀ now cutoffNow, e ≠ .sweep now cutoffNow) ∧
    ¬ Justified Sample.config (h ++ [(e, o)]) (lit "c2ln") m.recipientId := by
  refine ⟨Sample.oneMessagePerSignature, ?_⟩
  let item : Dict := [(lit "id", .int 1), (lit "target_signature", .str (lit "c2ln")), (lit "requester_pubkey", .null)]
  obtain ⟨h, s, hr, hp⟩ := exists_any_run (step Sample.config)
    (fun s h => quiet h && (s.db.message (lit "c2ln")).isSome &&
      (syncDeletion Sample.config Sample.noon true item s.db).2 = .raised .integrityError &&
      ((syncDeletion Sample.config Sample.noon true item s.db).1.message (lit "c2ln")).isNone) Relay.init
    ([.arrive .publish (Sample.payload (lit "c2ln"))] ++ Sample.sections 0 4) (by decide +kernel)
  simp only [Bool.and_eq_true, decide_eq_true_eq, Option.isNone_iff_eq_none, Option.isSome_iff_exists] at hp
  obtain ⟨⟨⟨hq, m, hm⟩, ho⟩, hgone⟩ := hp
  refine ⟨h, s, .pullDeletion item Sample.noon true, _, _, m, hr, rfl, hm, hgone, by simp, ?_⟩
  rw [ho]
  exact not_justified_of_quiet hq

end AetherNode.Ownership
