import AetherNode.AntiEntropy
import AetherNode.Finality
/-!
# Tombstones converge

Relays that pull each other's tombstones, page by page, while every relay goes
on with its own operations. An id that a cursor has passed may belong to a
pending request; its confirmation takes a new id, above all cursors. So a pull
that has got an empty page has fetched every tombstone of the peer, and the
tombstone of a deletion reaches every relay along a path of such pulls.
`round_alone` is the link to the round that nothing interrupts.
-/
open AetherNode.Lib AetherNode.Lib.Json AetherNode.Protocol

namespace AetherNode.Convergence

/-! ## The relays and their pulls -/

/-- What `_sync_deletions_with_peer` holds for one peer: the cursor, and the page of a round under way. -/
structure Pull where
  lastSeenDeletionId : Nat
  page : Option (Cursor.Page DeletionRequest)

/-- Every relay's tables, and its pulls by peer. -/
structure State (ι : Type) where
  node : ι → Db
  pull : ι → ι → Pull

inductive Event (ι : Type) where
  /-- An operation of relay `i` that is no part of a pull under way. -/
  | op (i : ι) (e : AtomicEvent)
  /-- A round of relay `j` asks peer `i` for its page. -/
  | request (j i : ι)
  /-- The round handles the next item. -/
  | item (j i : ι) (now : Datetime) (gate : Bool)
  /-- The round saves its cursor. -/
  | save (j i : ι)

inductive Obs where
  | op (o : AtomicObs)
  | refused
  | page (rows : List (Nat × DeletionRequest))
  | item (o : PullOutcome)
  | saved

variable {ι : Type}

/-- The page after an item: an exception loses the round, and a limiter ends the loop. -/
def pageAfter (maxId : Nat) (row : Nat × DeletionRequest) (rest : List (Nat × DeletionRequest)) :
    PullOutcome → Option (Cursor.Page DeletionRequest)
  | .raised _ => none
  | .rateLimited => some ⟨maxId, []⟩
  | _ => some ⟨max maxId row.1, rest⟩

variable [DecidableEq ι]

def State.setNode (s : State ι) (i : ι) (db : Db) : State ι := { s with node := Function.update s.node i db }

def State.setPull (s : State ι) (j i : ι) (p : Pull) : State ι :=
  { s with pull := Function.update s.pull j (Function.update (s.pull j) i p) }

/-- One event; a relay only pulls from a peer it trusts. -/
def step (env : ι → Env) (trusts : ι → ι → Bool) : System (State ι) (Event ι) Obs
  | s, .op i e => (atomicStep (env i) (s.node i) e).map fun r => (s.setNode i r.1, .op r.2)
  | s, .request j i =>
    if trusts j i && (s.pull j i).page.isNone then
      let sinceId := (s.pull j i).lastSeenDeletionId
      match AntiEntropy.readBoundedResponse
          (AntiEntropy.sendJson (Gossip.deletionsBody (s.node i) sinceId)) maxBodyBytes with
      | .error _ => some (s, .refused)
      | .ok _ =>
        let rows := Gossip.deletionRows (s.node i) sinceId
        some (s.setPull j i ⟨sinceId, some ⟨sinceId, rows⟩⟩, .page rows)
    else none
  | s, .item j i now gate =>
    match (s.pull j i).page with
    | some ⟨maxId, row :: rest⟩ =>
      let r := syncDeletion (env j) now gate (Gossip.deletionItem row) (s.node j)
      some ((s.setNode j r.1).setPull j i ⟨(s.pull j i).lastSeenDeletionId, pageAfter maxId row rest r.2⟩, .item r.2)
    | _ => none
  | s, .save j i =>
    match (s.pull j i).page with
    | some ⟨maxId, []⟩ => some (s.setPull j i ⟨maxId, none⟩, .saved)
    | _ => none

/-- Empty relays that have pulled nothing. -/
def init : State ι := ⟨fun _ => .empty, fun _ _ => ⟨0, none⟩⟩

/-- The event is not a sweep that reaps the confirmed tombstone of the signature. -/
def Keeps (env : ι → Env) (sig : Str) (s : State ι) (e : Event ι) : Prop :=
  ∀ i now cutoffNow cutoff row, e = .op i (.sweep now cutoffNow) →
    cutoffNow.addSeconds (-(env i).maxTtlSeconds) = some cutoff → (s.node i).request sig = some row →
    row.confirmed = true → ¬ row.requestedAt ≤ cutoff.isoformat

/-- A round of `j` gets an empty page from `i`. -/
def completes (j i : ι) : Event ι × Obs → Bool
  | (.request j' i', .page rows) => decide (j' = j ∧ i' = i) && rows.isEmpty
  | _ => false

/-- Paths along which the deletion spreads in a history: a relay has it confirmed after `n` steps; or, after such a
relay, another one completes a pull from it. -/
inductive Spreads (env : ι → Env) (trusts : ι → ι → Bool) (sig : Str) (h : List (Event ι × Obs)) : ι → Nat → Prop
  | confirms {i pre post s} : h = pre ++ post → Run (step env trusts) Any init pre s →
      (s.node i).confirmed sig = true → Spreads env trusts sig h i pre.length
  | pulls {i j n k x} : Spreads env trusts sig h i n → n ≤ k → h[k]? = some x → completes j i x = true →
      Spreads env trusts sig h j (k + 1)

/-! ## A round that runs alone -/

section
variable {env : ι → Env} {trusts : ι → ι → Bool} {s : State ι} {j i : ι}

/-- Relay `j` with new tables, and its pull from `i`. -/
def State.put (s : State ι) (j i : ι) (db : Db) (p : Pull) : State ι := (s.setNode j db).setPull j i p

theorem put_self (s : State ι) (j i : ι) : s.put j i (s.node j) (s.pull j i) = s := by
  simp [State.put, State.setNode, State.setPull]

theorem save_alone {c maxId : Nat} {db : Db} :
    step env trusts (s.put j i db ⟨c, some ⟨maxId, []⟩⟩) (.save j i) = some (s.put j i db ⟨maxId, none⟩, .saved) := by
  simp [step, State.put, State.setNode, State.setPull]

/-- The items of a page one after another do what `syncRows` computes. -/
theorem items_alone (round : AntiEntropy.Round) (c : Nat) (rows : List (Nat × DeletionRequest)) {db db' : Db}
    {k maxId : Nat} {last : Except PyError Nat}
    (h : AntiEntropy.syncRows (AntiEntropy.syncTombstone (env j) round) k maxId db (rows.map fun row => (row.1, row)) =
      (db', last)) :
    ∃ h, Run (step env trusts) Any (s.put j i db ⟨c, some ⟨maxId, rows⟩⟩) h
      (s.put j i db' ⟨AntiEntropy.cursorAfter c last, none⟩) := by
  induction rows generalizing db k maxId with
  | nil =>
    obtain ⟨rfl, rfl⟩ := Prod.mk.inj h
    exact ⟨_, Run.nil.snoc trivial save_alone⟩
  | cons row rest ih =>
    cases hitem : syncDeletion (env j) round.now (round.checkGlobal k && round.checkIdentity k)
        (Gossip.deletionItem row) db with
    | mk db₁ o =>
      have hstep : step env trusts (s.put j i db ⟨c, some ⟨maxId, row :: rest⟩⟩)
          (.item j i round.now (round.checkGlobal k && round.checkIdentity k)) =
            some (s.put j i db₁ ⟨c, pageAfter maxId row rest o⟩, .item o) := by
        simp [step, State.put, State.setNode, State.setPull, hitem]
      have hone : Run (step env trusts) Any _ ([] ++ [_]) _ := Run.nil.snoc trivial hstep
      simp only [List.map_cons, AntiEntropy.syncRows, AntiEntropy.syncTombstone, hitem] at h
      cases o with
      | raised e =>
        obtain ⟨rfl, rfl⟩ := Prod.mk.inj h
        exact ⟨_, hone⟩
      | rateLimited =>
        obtain ⟨rfl, rfl⟩ := Prod.mk.inj h
        exact ⟨_, hone.snoc trivial save_alone⟩
      | _ =>
        obtain ⟨h', hrest⟩ := ih h
        exact ⟨_, hone.trans hrest⟩

/-- Left alone, a round does what `_sync_deletions_with_peer` does. -/
theorem round_alone (htrust : trusts j i = true) (hidle : (s.pull j i).page = none) (round : AntiEntropy.Round)
    {p p' : AntiEntropy.Puller} {r : AntiEntropy.RoundEnd} (hdb : p.db = s.node j)
    (hcursor : p.lastSeenDeletionId = (s.pull j i).lastSeenDeletionId)
    (h : AntiEntropy.syncDeletionsWithPeer (env j) round (s.node i) p = (p', r)) :
    ∃ h, Run (step env trusts) Any s h (s.put j i p'.db ⟨p'.lastSeenDeletionId, none⟩) := by
  have hs : s.put j i p.db ⟨p.lastSeenDeletionId, none⟩ = s := by
    rw [hdb, hcursor, ← hidle]
    exact put_self s j i
  unfold AntiEntropy.syncDeletionsWithPeer at h
  rw [hcursor] at h
  generalize hread : AntiEntropy.readBoundedResponse (AntiEntropy.sendJson
    (Gossip.deletionsBody (s.node i) (s.pull j i).lastSeenDeletionId)) maxBodyBytes = read at h
  cases read with
  | error e =>
    obtain ⟨rfl, -⟩ := Prod.mk.inj h
    rw [hs]
    exact ⟨[], .nil⟩
  | ok body =>
    have hstep : step env trusts s (.request j i) = some (s.put j i p.db ⟨p.lastSeenDeletionId,
        some ⟨p.lastSeenDeletionId, Gossip.deletionRows (s.node i) p.lastSeenDeletionId⟩⟩,
          .page (Gossip.deletionRows (s.node i) p.lastSeenDeletionId)) := by
      rw [hdb, hcursor]
      simp [step, htrust, hidle, hread, State.put, State.setNode, State.setPull]
    have hone : Run (step env trusts) Any s ([] ++ [_]) _ := Run.nil.snoc trivial hstep
    dsimp only at h
    rw [← hcursor] at h
    generalize hrows : AntiEntropy.syncRows (AntiEntropy.syncTombstone (env j) round) 0 p.lastSeenDeletionId p.db
      ((Gossip.deletionRows (s.node i) p.lastSeenDeletionId).map fun row => (row.1, row)) = result at h
    obtain ⟨db', last⟩ := result
    obtain ⟨h', hitems⟩ : ∃ h', Run (step env trusts) Any (s.put j i p.db ⟨p.lastSeenDeletionId,
        some ⟨p.lastSeenDeletionId, Gossip.deletionRows (s.node i) p.lastSeenDeletionId⟩⟩) h'
          (s.put j i db' ⟨AntiEntropy.cursorAfter p.lastSeenDeletionId last, none⟩) := items_alone round _ _ hrows
    refine ⟨[] ++ [_] ++ h', hone.trans ?_⟩
    cases last with
    | error e =>
      obtain ⟨rfl, -⟩ := Prod.mk.inj h
      exact hitems
    | ok maxId =>
      obtain ⟨rfl, -⟩ := Prod.mk.inj h
      exact hitems

end

/-! ## What an operation does to the tombstones -/

section
variable {env : Env} {db db' : Db} {e : AtomicEvent} {o : AtomicObs}

/-- What the sections that write keep, an ingestion keeps. -/
theorem ingest_keeps {P : Db → Prop} {now : Datetime} {p : Dict} (h : P db)
    (hinsert : ∀ db₁, P db₁ → P (insertMessageAndMaybeGossip env p (p.text (lit "recipient_id")) now db₁).1)
    (hbury : ∀ row, P (db.bury row)) (hdrop : P (db.deleteRequest (p.text (lit "signature")))) (path : Path)
    (gate identityGate : Bool) : P (ingest env path now gate identityGate p db).1 := by
  unfold ingest
  dsimp only
  split
  · exact h
  · exact h
  split
  · exact h
  split
  · exact h
  · exact h
  split
  · exact h
  · exact h
  rename_i hval
  split
  · exact h
  have hsig := Verifier.signature_encodable (validatePublishPayload_none.1 hval).verified
  cases hres : resolveDeletionRequest env now (p.text (lit "signature")) (p.text (lit "recipient_id")) db with
  | mk db₁ r =>
    rcases resolve_cases hsig hres with ⟨-, rfl, rfl⟩ | ⟨-, rfl, rfl⟩ | ⟨key, -, ⟨e, -, rfl, rfl⟩ | ⟨-, rfl, rfl⟩ |
      ⟨-, rfl, rfl⟩⟩
    · exact hinsert _ h
    · exact h
    · exact h
    · exact hbury _
    · exact hinsert _ hdrop

/-- An ingestion gives every row it writes a new id. -/
theorem ingest_requests (env : Env) (path : Path) (now : Datetime) (gate identityGate : Bool) (p : Dict) (db : Db) :
    db.deletionRequests.Evolves (ingest env path now gate identityGate p db).1.deletionRequests := by
  refine ingest_keeps (P := fun db' => db.deletionRequests.Evolves db'.deletionRequests) (.refl _) ?_
    (fun row => Db.requests_bury db row) (Db.requests_deleteRequest db _) path gate identityGate
  intro db₁ hev
  cases hi : insertMessageAndMaybeGossip env p (p.text (lit "recipient_id")) now db₁ with
  | mk db₂ r =>
    rcases insert_cases hi with ⟨rfl, -⟩ | ⟨-, -, -, -, -, hreq⟩
    · exact hev
    · exact hreq ▸ hev

theorem ingest_messages (env : Env) (path : Path) (now : Datetime) (gate identityGate : Bool) (p : Dict) (db : Db) :
    db.messages.Evolves (ingest env path now gate identityGate p db).1.messages := by
  refine ingest_keeps (P := fun db' => db.messages.Evolves db'.messages) (.refl _) ?_
    (fun row => (Db.sheds_bury db row).evolves) (.refl _) path gate identityGate
  intro db₁ hev
  cases hi : insertMessageAndMaybeGossip env p (p.text (lit "recipient_id")) now db₁ with
  | mk db₂ r =>
    rcases insert_spec hi with ⟨rfl, -⟩ | ⟨messages, id, hinsert, -, -, rfl, -⟩
    · exact hev
    · exact hev.trans (Table.evolves_insert? hinsert)

theorem doDelete_requests (env : Env) (now : Datetime) (gate : Gate) (p : Dict) (db : Db) :
    db.deletionRequests.Evolves (doDelete env now gate p db).1.deletionRequests := by
  rcases doDelete_cases (Prod.mk.eta.symm : doDelete env now gate p db = _) with
    ⟨hd, -⟩ | ⟨-, -, m, -, -, -, hd⟩ | ⟨-, -, -, -, hd⟩ <;> rw [hd]
  · exact .refl _
  · exact Db.requests_bury _ _
  · exact Db.requests_recordRequest _ _

theorem syncDeletion_requests (env : Env) (now : Datetime) (gate : Bool) (item : Dict) (db : Db) :
    db.deletionRequests.Evolves (syncDeletion env now gate item db).1.deletionRequests := by
  rcases syncDeletion_cases (Prod.mk.eta.symm : syncDeletion env now gate item db = _) with
    ⟨hd, -⟩ | ⟨t, -, -, -, -, ⟨row, -, hd, -⟩ | ⟨e, -, hd, -⟩⟩ <;> rw [hd]
  · exact .refl _
  · exact Db.requests_bury _ _
  · exact .refl _

/-- Every row that an operation writes to `deletion_requests` has an id above all earlier ones. -/
theorem atomic_requests (h : atomicStep env db e = some (db', o)) :
    db.deletionRequests.Evolves db'.deletionRequests := by
  cases e with
  | ingest path p now gate identityGate =>
    obtain ⟨rfl, -⟩ := Prod.mk.inj (Option.some.inj h)
    exact ingest_requests env path now gate identityGate p db
  | delete p now gate =>
    obtain ⟨rfl, -⟩ := Prod.mk.inj (Option.some.inj h)
    exact doDelete_requests env now gate p db
  | pullDeletion item now gate =>
    obtain ⟨rfl, -⟩ := Prod.mk.inj (Option.some.inj h)
    exact syncDeletion_requests env now gate item db
  | sweep now cutoffNow =>
    obtain ⟨rfl, -⟩ := Prod.mk.inj (Option.some.inj h)
    exact requests_runOnce env now cutoffNow db

/-- Every row that an operation writes to `messages` has an id above all earlier ones. -/
theorem atomic_messages (h : atomicStep env db e = some (db', o)) : db.messages.Evolves db'.messages := by
  cases e with
  | ingest path p now gate identityGate =>
    obtain ⟨rfl, -⟩ := Prod.mk.inj (Option.some.inj h)
    exact ingest_messages env path now gate identityGate p db
  | delete p now gate =>
    obtain ⟨rfl, -⟩ := Prod.mk.inj (Option.some.inj h)
    rcases doDelete_cases (Prod.mk.eta.symm : doDelete env now gate p db = _) with
      ⟨hd, -⟩ | ⟨-, -, m, -, -, -, hd⟩ | ⟨-, -, -, -, hd⟩ <;> rw [hd]
    · exact .refl _
    · exact (Db.sheds_bury _ _).evolves
    · exact .refl _
  | pullDeletion item now gate =>
    obtain ⟨rfl, -⟩ := Prod.mk.inj (Option.some.inj h)
    rcases syncDeletion_cases (Prod.mk.eta.symm : syncDeletion env now gate item db = _) with
      ⟨hd, -⟩ | ⟨t, -, -, -, -, ⟨row, -, hd, -⟩ | ⟨e, -, hd, -⟩⟩ <;> rw [hd]
    · exact .refl _
    · exact (Db.sheds_bury _ _).evolves
    · exact (Db.sheds_deleteMessage _ _).evolves
  | sweep now cutoffNow =>
    obtain ⟨rfl, -⟩ := Prod.mk.inj (Option.some.inj h)
    exact (sheds_runOnce env now cutoffNow db).evolves

/-- A confirmed tombstone stays unless a sweep is due for it. -/
theorem atomic_confirmed (h : atomicStep env db e = some (db', o)) {sig : Str}
    (hkeeps : ∀ now cutoffNow cutoff row, e = .sweep now cutoffNow →
      cutoffNow.addSeconds (-env.maxTtlSeconds) = some cutoff → db.request sig = some row → row.confirmed = true →
      ¬ row.requestedAt ≤ cutoff.isoformat) (hc : db.confirmed sig = true) : db'.confirmed sig = true := by
  obtain ⟨row, hrow, hrc⟩ := Db.confirmed_iff.1 hc
  cases atomic_effect h with
  | same => exact hc
  | @stores path p now gate identityGate id _ hv hnone hfree hlook hreq =>
    have hne : sig ≠ p.text (lit "signature") := by
      rintro rfl
      rw [hfree] at hc
      cases hc
    simpa [Db.confirmed, hreq, hne] using hc
  | @drops path p now gate identityGate key _ hp =>
    obtain ⟨r, hr, hpending, -⟩ := hp
    have hne : sig ≠ p.text (lit "signature") := by
      rintro rfl
      rw [hrow] at hr
      cases hr
      rw [hrc] at hpending
      cases hpending
    simpa [Db.confirmed, hne] using hc
  | promotes => exact Finality.bury_confirmed rfl hc
  | deletes => exact Finality.bury_confirmed rfl hc
  | records => simp [Db.confirmed, hrow, hrc]
  | adopts _ _ htomb => exact Finality.bury_confirmed (bindTombstone_ok htomb).2.2.2.2 hc
  | loses => exact hc
  | @sweeps now cutoffNow cutoff r _ hcut hm hq =>
    have hnot := hkeeps now cutoffNow cutoff row rfl hcut hrow hrc
    simp [Db.confirmed, hq, hrow, hrc, hnot]

/-- A relay that handles one operation at a time never holds a message and its confirmed tombstone. -/
theorem atomic_clean (h : atomicStep env db e = some (db', o)) {sig : Str} (hc : ¬ Finality.Both db sig) :
    ¬ Finality.Both db' sig := by
  cases atomic_effect h with
  | same => exact hc
  | @stores path p now gate identityGate id _ hv hnone hfree hlook hreq =>
    rintro ⟨⟨m, hm⟩, hconf⟩
    by_cases hs : sig = p.text (lit "signature")
    · simp [Db.confirmed, hreq, hs] at hconf
    · rw [hlook, if_neg hs] at hm
      rw [Db.confirmed, hreq, if_neg hs] at hconf
      exact hc ⟨⟨m, hm⟩, hconf⟩
  | @drops path p now gate identityGate key _ hp =>
    rintro ⟨hm, hconf⟩
    refine hc ⟨hm, ?_⟩
    rw [Db.confirmed, Db.request_deleteRequest] at hconf
    split at hconf
    · cases hconf
    · exact hconf
  | promotes => exact Finality.bury_clean hc
  | deletes => exact Finality.bury_clean hc
  | @records p now gate hv hnone =>
    rintro ⟨hm, hconf⟩
    refine hc ⟨hm, ?_⟩
    rw [Db.confirmed, Db.request_recordRequest] at hconf
    split at hconf
    · cases hconf
    · exact hconf
  | adopts => exact Finality.bury_clean hc
  | loses =>
    rintro ⟨⟨m, hm⟩, hconf⟩
    rw [Db.message_deleteMessage] at hm
    split at hm
    · cases hm
    · exact hc ⟨⟨m, hm⟩, hconf⟩
  | @sweeps now cutoffNow cutoff r _ hcut hk hq =>
    rintro ⟨⟨m, hm⟩, hconf⟩
    rw [hk] at hm
    obtain ⟨row, hrow, hrc⟩ := Db.confirmed_iff.1 hconf
    rw [hq] at hrow
    obtain ⟨hm, -⟩ := Option.filter_eq_some_iff.1 hm
    obtain ⟨hrow, -⟩ := Option.filter_eq_some_iff.1 hrow
    exact hc ⟨⟨m, hm⟩, Db.confirmed_iff.2 ⟨row, hrow, hrc⟩⟩

/-- A pulled deletion that does not raise is confirmed: it was before, or it is adopted. -/
theorem applyPulledDeletion_confirmed {now : Datetime} {item : Dict} {t : Str} {fresh : Bool}
    (h : applyPulledDeletion env now item t db = (db', .ok fresh)) : db'.confirmed t = true := by
  unfold applyPulledDeletion at h
  split at h
  · cases (Prod.mk.inj h).2
  split at h
  · rename_i hc
    obtain ⟨rfl, -⟩ := Prod.mk.inj h
    exact hc
  rename_i hencodable _
  simp only [applyConfirmedDeletion, hencodable] at h
  cases htomb : pulledTombstone env now item t with
  | error e =>
    unfold pulledTombstone at htomb
    simp only [htomb] at h
    cases (Prod.mk.inj h).2
  | ok row =>
    unfold pulledTombstone at htomb
    simp only [htomb] at h
    obtain ⟨rfl, -⟩ := Prod.mk.inj h
    obtain ⟨-, -, -, rfl, hconf⟩ := bindTombstone_ok htomb
    simp [Db.confirmed, hconf]

/-- The page moves past a served tombstone only when it is confirmed here. -/
theorem syncDeletion_confirmed {now : Datetime} {gate : Bool} {row : Nat × DeletionRequest} {o : PullOutcome}
    (h : syncDeletion env now gate (Gossip.deletionItem row) db = (db', o)) :
    (∃ e, o = .raised e) ∨ o = .rateLimited ∨
      ((∀ maxId rest, pageAfter maxId row rest o = some ⟨max maxId row.1, rest⟩) ∧
        db'.confirmed row.2.targetSignature = true) := by
  have htarget : (Gossip.deletionItem row).get (lit "target_signature") = some (.str row.2.targetSignature) := rfl
  simp only [syncDeletion, htarget] at h
  cases gate with
  | false =>
    obtain ⟨-, rfl⟩ := Prod.mk.inj h
    exact .inr (.inl rfl)
  | true =>
    simp only [if_true] at h
    split at h
    · rename_i db₁ happly
      obtain ⟨rfl, rfl⟩ := Prod.mk.inj h
      exact .inr (.inr ⟨fun _ _ => rfl, applyPulledDeletion_confirmed happly⟩)
    · rename_i db₁ happly
      obtain ⟨rfl, rfl⟩ := Prod.mk.inj h
      exact .inr (.inr ⟨fun _ _ => rfl, applyPulledDeletion_confirmed happly⟩)
    · rename_i db₁ e happly
      obtain ⟨-, rfl⟩ := Prod.mk.inj h
      exact .inl ⟨e, rfl⟩

end

/-! ## What the pulls are past -/

variable {env : ι → Env} {trusts : ι → ι → Bool} {sig : Str} {s s' : State ι} {e : Event ι} {o : Obs}

/-- A relay that is past a confirmed tombstone of the signature has it confirmed. -/
def Done (sig : Str) (db : Db) (row : Nat × DeletionRequest) : Prop :=
  row.2.confirmed = true → row.2.targetSignature = sig → db.confirmed sig = true

/-- A pull by a relay with the tables `db` from one with the tombstones `source`. -/
structure Pull.Sound (sig : Str) (db : Db) (source : Table DeletionRequest.targetSignature) (p : Pull) : Prop where
  cursor : Cursor.Covered source.rows (Done sig db) p.lastSeenDeletionId
  used : p.lastSeenDeletionId ≤ source.seq
  page : ∀ page, p.page = some page → page.Sound source.rows (Done sig db) ∧ page.Within source.seq

/-- The peer writes under new ids, and the relay keeps its confirmed tombstone. -/
theorem Pull.Sound.evolve {db db' : Db} {source source' : Table DeletionRequest.targetSignature} {p : Pull}
    (h : p.Sound sig db source) (hsource : source.Evolves source')
    (hkept : db.confirmed sig = true → db'.confirmed sig = true) : p.Sound sig db' source' := by
  have hdone : ∀ row, Done sig db row → Done sig db' row := fun row hrow hc ht => hkept (hrow hc ht)
  constructor
  · refine (h.cursor.evolve fun row hrow => ?_).mono hdone
    exact (hsource.rows row hrow).imp_right (lt_of_le_of_lt h.used)
  · exact h.used.trans hsource.seq
  · intro page hpage
    obtain ⟨hsound, hwithin⟩ := h.page page hpage
    exact ⟨(hsound.evolve hwithin hsource.rows).mono hdone, hwithin.later hsource.seq⟩

/-- No relay stores the message next to its tombstone, and every pull is sound. -/
structure Sound (sig : Str) (s : State ι) : Prop where
  clean : ∀ i, ¬ Finality.Both (s.node i) sig
  pulls : ∀ j i, (s.pull j i).Sound sig (s.node j) (s.node i).deletionRequests

omit [DecidableEq ι] in
theorem sound_init : Sound sig (init : State ι) := by
  constructor
  · rintro i ⟨⟨m, hm⟩, -⟩
    cases hm
  · intro j i
    refine ⟨?_, le_rfl, by simp [init]⟩
    intro row hrow
    cases hrow

/-- One relay's tables change. -/
theorem setNode_sound (hs : Sound sig s) {i : ι} {db : Db}
    (hrequests : (s.node i).deletionRequests.Evolves db.deletionRequests)
    (hkept : (s.node i).confirmed sig = true → db.confirmed sig = true) (hclean : ¬ Finality.Both db sig) :
    Sound sig (s.setNode i db) := by
  have hnode : ∀ k, (s.node k).deletionRequests.Evolves ((s.setNode i db).node k).deletionRequests ∧
      ((s.node k).confirmed sig = true → ((s.setNode i db).node k).confirmed sig = true) ∧
      ¬ Finality.Both ((s.setNode i db).node k) sig := by
    intro k
    by_cases hk : k = i
    · subst hk
      simpa [State.setNode] using ⟨hrequests, hkept, hclean⟩
    · simpa [State.setNode, hk] using ⟨Table.Evolves.refl _, hs.clean k⟩
  constructor
  · exact fun k => (hnode k).2.2
  · exact fun j k => (hs.pulls j k).evolve (hnode k).1 (hnode j).2.1

/-- One pull changes. -/
theorem setPull_sound (hs : Sound sig s) {j i : ι} {p : Pull}
    (hp : p.Sound sig (s.node j) (s.node i).deletionRequests) : Sound sig (s.setPull j i p) := by
  refine ⟨hs.clean, ?_⟩
  intro j' i'
  by_cases hj : j' = j
  · subst hj
    by_cases hi : i' = i
    · subst hi
      simpa [State.setPull] using hp
    · simpa [State.setPull, hi] using hs.pulls j' i'
  · simpa [State.setPull, hj] using hs.pulls j' i'

/-- A relay runs an operation. -/
theorem op_sound (hs : Sound sig s) {i : ι} {e : AtomicEvent} {db : Db} {o : AtomicObs}
    (hok : Keeps env sig s (.op i e)) (h : atomicStep (env i) (s.node i) e = some (db, o)) :
    Sound sig (s.setNode i db) := by
  refine setNode_sound hs (atomic_requests h) ?_ (atomic_clean h (hs.clean i))
  refine atomic_confirmed h ?_
  rintro now cutoffNow cutoff row rfl
  exact hok i now cutoffNow cutoff row rfl

/-- The page of a round starts above the cursor. -/
theorem request_sound (hs : Sound sig s) (j i : ι) :
    Sound sig (s.setPull j i ⟨(s.pull j i).lastSeenDeletionId, some ⟨(s.pull j i).lastSeenDeletionId,
      Gossip.deletionRows (s.node i) (s.pull j i).lastSeenDeletionId⟩⟩) := by
  have hpull := hs.pulls j i
  refine setPull_sound hs ⟨hpull.cursor, hpull.used, ?_⟩
  intro page hpage
  obtain rfl := Option.some.inj hpage
  rw [Gossip.deletionRows, Gossip.pageRows_eq_window]
  constructor
  · refine Cursor.sound_window (s.node i).deletionRequests.sorted ?_ hpull.cursor
    intro row hpending hc
    rw [hpending] at hc
    cases hc
  · exact Cursor.within_window hpull.used (s.node i).deletionRequests.bounded _

/-- The next item of a page is handled. -/
theorem item_sound (hs : Sound sig s) {j i : ι} {now : Datetime} {gate : Bool} {maxId : Nat}
    {row : Nat × DeletionRequest} {rest : List (Nat × DeletionRequest)} {db : Db} {o : PullOutcome}
    (hpage : (s.pull j i).page = some ⟨maxId, row :: rest⟩)
    (h : syncDeletion (env j) now gate (Gossip.deletionItem row) (s.node j) = (db, o)) :
    Sound sig ((s.setNode j db).setPull j i ⟨(s.pull j i).lastSeenDeletionId, pageAfter maxId row rest o⟩) := by
  have hatomic : atomicStep (env j) (s.node j) (.pullDeletion (Gossip.deletionItem row) now gate) =
      some (db, .pullDeletion o) := by
    simp only [atomicStep, h]
  have hnode : Sound sig (s.setNode j db) := by
    refine setNode_sound hs (atomic_requests hatomic) ?_ (atomic_clean hatomic (hs.clean j))
    exact atomic_confirmed hatomic (by simp)
  have hpull := hnode.pulls j i
  obtain ⟨hsound, hwithin⟩ := hpull.page _ hpage
  refine setPull_sound hnode ⟨hpull.cursor, hpull.used, ?_⟩
  intro page hafter
  rcases syncDeletion_confirmed h with ⟨e, rfl⟩ | rfl | ⟨hafter', hconf⟩
  · cases hafter
  · obtain rfl := Option.some.inj hafter
    exact ⟨⟨hsound.passed, .nil, by simp⟩, ⟨hwithin.maxId, by simp⟩⟩
  · rw [hafter'] at hafter
    obtain rfl := Option.some.inj hafter
    refine ⟨hsound.pass ?_, hwithin.pass⟩
    rintro - rfl
    simpa [State.setNode] using hconf

/-- The round ends. -/
theorem save_sound (hs : Sound sig s) {j i : ι} {page : Cursor.Page DeletionRequest}
    (hpage : (s.pull j i).page = some page) : Sound sig (s.setPull j i ⟨page.maxId, none⟩) := by
  obtain ⟨hsound, hwithin⟩ := (hs.pulls j i).page page hpage
  exact setPull_sound hs ⟨hsound.passed, hwithin.maxId, by simp⟩

theorem step_sound (hs : Sound sig s) (hok : Keeps env sig s e) (h : step env trusts s e = some (s', o)) :
    Sound sig s' := by
  cases e with
  | op i e =>
    obtain ⟨⟨db, ob⟩, hr, hx⟩ := Option.map_eq_some_iff.1 h
    obtain ⟨rfl, -⟩ := Prod.mk.inj hx
    exact op_sound hs hok hr
  | request j i =>
    simp only [step] at h
    split at h
    · split at h
      · obtain ⟨rfl, -⟩ := Prod.mk.inj (Option.some.inj h)
        exact hs
      · obtain ⟨rfl, -⟩ := Prod.mk.inj (Option.some.inj h)
        exact request_sound hs j i
    · cases h
  | item j i now gate =>
    simp only [step] at h
    split at h
    · rename_i maxId row rest hpage
      obtain ⟨rfl, -⟩ := Prod.mk.inj (Option.some.inj h)
      exact item_sound hs hpage rfl
    · cases h
  | save j i =>
    simp only [step] at h
    split at h
    · rename_i maxId hpage
      obtain ⟨rfl, -⟩ := Prod.mk.inj (Option.some.inj h)
      exact save_sound hs hpage
    · cases h

theorem run_sound {h : List (Event ι × Obs)} (hr : Run (step env trusts) (Keeps env sig) init h s) : Sound sig s :=
  hr.inv (Sound sig) sound_init fun _ _ _ _ hs hok hstep => step_sound hs hok hstep

/-- A step changes the tables of a relay by an operation, and sweeps only as the event says. -/
theorem step_node (h : step env trusts s e = some (s', o)) (i : ι) :
    s'.node i = s.node i ∨ ∃ ev ob, atomicStep (env i) (s.node i) ev = some (s'.node i, ob) ∧
      ∀ now cutoffNow, ev = .sweep now cutoffNow → e = .op i ev := by
  cases e with
  | op k ev =>
    obtain ⟨⟨db, ob⟩, hr, hx⟩ := Option.map_eq_some_iff.1 h
    obtain ⟨rfl, -⟩ := Prod.mk.inj hx
    by_cases hk : i = k
    · subst hk
      exact .inr ⟨ev, ob, by simpa [State.setNode] using hr, fun _ _ _ => rfl⟩
    · exact .inl (by simp [State.setNode, hk])
  | request j k =>
    simp only [step] at h
    split at h
    · split at h
      · obtain ⟨rfl, -⟩ := Prod.mk.inj (Option.some.inj h)
        exact .inl rfl
      · obtain ⟨rfl, -⟩ := Prod.mk.inj (Option.some.inj h)
        exact .inl rfl
    · cases h
  | item j k now gate =>
    simp only [step] at h
    split at h
    · rename_i maxId row rest hpage
      obtain ⟨rfl, -⟩ := Prod.mk.inj (Option.some.inj h)
      by_cases hj : i = j
      · subst hj
        refine .inr ⟨.pullDeletion (Gossip.deletionItem row) now gate,
          .pullDeletion (syncDeletion (env i) now gate (Gossip.deletionItem row) (s.node i)).2, ?_, by simp⟩
        simp [atomicStep, State.setNode, State.setPull]
      · exact .inl (by simp [State.setNode, State.setPull, hj])
    · cases h
  | save j k =>
    simp only [step] at h
    split at h
    · obtain ⟨rfl, -⟩ := Prod.mk.inj (Option.some.inj h)
      exact .inl rfl
    · cases h

/-- A confirmed tombstone stays at its relay. -/
theorem step_confirmed (hok : Keeps env sig s e) (h : step env trusts s e = some (s', o)) {i : ι}
    (hc : (s.node i).confirmed sig = true) : (s'.node i).confirmed sig = true := by
  rcases step_node h i with hsame | ⟨ev, ob, hatomic, hsweep⟩
  · rw [hsame]
    exact hc
  · refine atomic_confirmed hatomic ?_ hc
    rintro now cutoffNow cutoff row rfl
    exact hok i now cutoffNow cutoff row (hsweep now cutoffNow rfl)

theorem run_confirmed {h : List (Event ι × Obs)} (hr : Run (step env trusts) (Keeps env sig) s h s') {i : ι}
    (hc : (s.node i).confirmed sig = true) : (s'.node i).confirmed sig = true :=
  hr.inv (fun t => (t.node i).confirmed sig = true) hc fun _ _ _ _ ht hok hstep => step_confirmed hok hstep ht

/-! ## Paths -/

/-- A completed pull has fetched the tombstone. -/
theorem pull_delivers (hs : Sound sig s) {j i : ι} (h : step env trusts s e = some (s', o))
    (hcomplete : completes j i (e, o) = true) (hc : (s.node i).confirmed sig = true) :
    (s'.node j).confirmed sig = true := by
  unfold completes at hcomplete
  split at hcomplete
  · rename_i j' i' rows hx
    obtain ⟨rfl, rfl⟩ := Prod.mk.inj hx
    simp only [Bool.and_eq_true, decide_eq_true_eq, List.isEmpty_iff] at hcomplete
    obtain ⟨⟨rfl, rfl⟩, rfl⟩ := hcomplete
    simp only [step] at h
    split at h
    · split at h
      · cases h
      · simp only [Option.some.injEq, Prod.mk.injEq, Obs.page.injEq] at h
        obtain ⟨rfl, hnil⟩ := h
        -- The confirmed row is past, so it has been handled.
        obtain ⟨row, hrow, hrc⟩ := Db.confirmed_iff.1 hc
        obtain ⟨⟨id, hmem⟩, htarget⟩ := Table.lookup_eq_some.1 hrow
        rw [Gossip.deletionRows, Gossip.pageRows_eq_window] at hnil
        have hpending : ∀ x : Nat × DeletionRequest, x.2.confirmed = false → Done sig (s.node j') x := by
          intro x hx hc
          rw [hx] at hc
          cases hc
        exact Cursor.done_of_window_nil (by decide) hpending (hs.pulls j' i').cursor hnil (id, row) hmem hrc htarget
    · cases h
  · cases hcomplete

/-- What a path reaches is confirmed from then on. -/
theorem spreads_confirmed {h : List (Event ι × Obs)} {i : ι} {n : Nat} (hp : Spreads env trusts sig h i n) :
    ∀ pre post t, h = pre ++ post → n ≤ pre.length → Run (step env trusts) (Keeps env sig) init pre t →
      (t.node i).confirmed sig = true := by
  induction hp with
  | @confirms i pre₀ post₀ t₀ hh hr₀ hc =>
    intro pre post t hpre hle hr
    obtain ⟨mid, rfl⟩ : ∃ mid, pre = pre₀ ++ mid :=
      (List.prefix_of_prefix_length_le ⟨post₀, hh.symm⟩ ⟨post, hpre.symm⟩ hle).imp fun _ h => h.symm
    obtain ⟨u, hu, hrest⟩ := hr.split
    rw [hu.unique hr₀] at hrest
    exact run_confirmed hrest hc
  | @pulls i j n k x _ hle hx hcomplete ih =>
    intro pre post t hpre hlt hr
    -- The page that ended the pull is in the history before `t`.
    have hx' : pre[k]? = some x := by
      rwa [hpre, List.getElem?_append_left hlt] at hx
    obtain ⟨hk, hget⟩ := List.getElem?_eq_some_iff.1 hx'
    have hsplit : pre = pre.take k ++ (x.1, x.2) :: pre.drop (k + 1) := by
      rw [← hget]
      exact (List.take_append_drop k pre).symm.trans (by rw [List.drop_eq_getElem_cons hk])
    obtain ⟨u, u', hu, -, hstep, hrest⟩ := hr.fired hsplit
    have hi : (u.node i).confirmed sig = true := by
      refine ih (pre.take k) (pre.drop k ++ post) u ?_ ?_ hu
      · rw [← List.append_assoc, List.take_append_drop, hpre]
      · rw [List.length_take]
        omega
    exact run_confirmed hrest (pull_delivers (run_sound hu) hstep hcomplete hi)

theorem Spreads.le_length {h : List (Event ι × Obs)} {i : ι} {n : Nat} (hp : Spreads env trusts sig h i n) :
    n ≤ h.length := by
  cases hp with
  | confirms hh =>
    rw [hh, List.length_append]
    exact Nat.le_add_right _ _
  | pulls _ _ hx => exact (List.getElem?_eq_some_iff.1 hx).1

/-- Every relay that the deletion spreads to, along any path and in any run that does not reap its tombstones, ends
with a confirmed tombstone and without the message. -/
theorem tombstones_converge {h : List (Event ι × Obs)} (hr : Run (step env trusts) (Keeps env sig) init h s) {i : ι}
    {n : Nat} (hp : Spreads env trusts sig h i n) :
    (s.node i).confirmed sig = true ∧ (s.node i).message sig = none := by
  have hc := spreads_confirmed hp h [] s (by simp) hp.le_length hr
  refine ⟨hc, ?_⟩
  by_contra hm
  exact (run_sound hr).clean i ⟨Option.ne_none_iff_exists'.1 hm, hc⟩

/-! ## A pending request that a cursor has passed -/

/-- Relay 1 pulls from relay 0, and relay 2 from relay 1. -/
def chain : System (State (Fin 3)) (Event (Fin 3)) Obs :=
  step (fun _ => Sample.config) fun j i => decide (j.val = i.val + 1)

/-- No sweep. -/
def noSweep (_ : State (Fin 3)) : Event (Fin 3) → Bool
  | .op _ (.sweep _ _) => false
  | _ => true

theorem noSweep_keeps (s : State (Fin 3)) (e : Event (Fin 3)) (h : noSweep s e = true) (sig : Str) :
    Keeps (fun _ => Sample.config) sig s e := by
  rintro i now cutoffNow cutoff row rfl
  cases h

/-- Relay `j` handles `n` items of relay `i`, until a round gets an empty page. -/
def pullAll (j i : Fin 3) (n : Nat) : List (Event (Fin 3)) :=
  [.request j i] ++ List.replicate n (.item j i Sample.noon true) ++ [.save j i, .request j i, .save j i]

/-- A request for a message that is not there yet is pending at relay 0 when relay 1 pulls a later tombstone. -/
def passing : List (Event (Fin 3)) :=
  [.op 0 (.delete (Sample.deletePayload (lit "c2ln") Sample.ownerKey) Sample.noon .pass),
    .op 0 (.ingest .publish (Sample.payload (lit "ZGVs")) Sample.noon true true),
    .op 0 (.delete (Sample.deletePayload (lit "ZGVs") Sample.ownerKey) Sample.noon .pass)] ++ pullAll 1 0 1

/-- The pending row has an id up to the cursor of relay 1. -/
def passed (s : State (Fin 3)) : Bool :=
  (s.node 0).deletionRequests.rows.any fun r => decide (r.2.targetSignature = lit "c2ln") && !r.2.confirmed &&
    decide (r.1 ≤ (s.pull 1 0).lastSeenDeletionId)

/-- The message arrives, so that the request is confirmed. -/
def arrival : List (Event (Fin 3)) :=
  [.op 0 (.ingest .gossipPublish (Sample.payload (lit "c2ln")) Sample.noon true true)]

/-- Both pulls complete. -/
def pullsComplete (h : List (Event (Fin 3) × Obs)) : Bool := h[3]?.any (completes 1 0) && h[9]?.any (completes 2 1)

/-- From the confirmation on, relays 1 and 2 pull. -/
def arrives (s : State (Fin 3)) : Bool :=
  (s.node 0).confirmed (lit "c2ln") &&
    (exec chain noSweep s (pullAll 1 0 1 ++ pullAll 2 1 2)).any fun r => pullsComplete r.2

/-- The message arrives, the pending request is confirmed, and its tombstone reaches relay 2. -/
theorem tombstones_converge_pending : ∃ h₀ t h s, Run chain (Keeps (fun _ => Sample.config) (lit "c2ln")) init h₀ t ∧
    passed t = true ∧ Run chain (Keeps (fun _ => Sample.config) (lit "c2ln")) t h s ∧
    (s.node 2).confirmed (lit "c2ln") = true ∧ (s.node 2).message (lit "c2ln") = none := by
  have hkeeps := fun s e h => noSweep_keeps s e h (lit "c2ln")
  obtain ⟨h₀, t, ht, hp⟩ := exists_run chain noSweep
    (fun s _ => passed s && (exec chain noSweep s arrival).any fun r => arrives r.1) init passing (by decide +kernel)
  obtain ⟨hpassed, harrival⟩ := Bool.and_eq_true_iff.1 hp
  obtain ⟨⟨u, h₁⟩, hu, harrives⟩ := (Option.any_eq_true _ _).1 harrival
  obtain ⟨hconfirmed, hpulls⟩ := Bool.and_eq_true_iff.1 harrives
  obtain ⟨⟨s, h₂⟩, hs, hcomplete⟩ := (Option.any_eq_true _ _).1 hpulls
  obtain ⟨hfirst, hsecond⟩ := Bool.and_eq_true_iff.1 hcomplete
  obtain ⟨x, hx, hx'⟩ := (Option.any_eq_true _ _).1 hfirst
  obtain ⟨y, hy, hy'⟩ := (Option.any_eq_true _ _).1 hsecond
  have hu' := ht.trans (exec_run hu)
  have hr := (hu'.trans (exec_run hs)).mono hkeeps
  have hpath : Spreads (fun _ => Sample.config) (fun j i => decide (j.val = i.val + 1)) (lit "c2ln")
      (h₀ ++ h₁ ++ h₂) 2 ((h₀ ++ h₁).length + 9 + 1) := by
    refine .pulls (.pulls (.confirms rfl hu'.any hconfirmed) (Nat.le_add_right _ 3) ?_ hx') (by omega) ?_ hy'
    · rw [List.getElem?_append_right (by omega), Nat.add_sub_cancel_left]
      exact hx
    · rw [List.getElem?_append_right (by omega), Nat.add_sub_cancel_left]
      exact hy
  exact ⟨h₀, t, h₁ ++ h₂, s, ht.mono hkeeps, hpassed, ((exec_run hu).trans (exec_run hs)).mono hkeeps,
    tombstones_converge hr hpath⟩

end AetherNode.Convergence
