import AetherNode.Quota
/-!
# Inboxes do not share their quotas

Calls on the tables of one relay, each in its own critical section. What an
inbox holds, and whether it takes another message, depends on the calls for
that recipient alone: a run seen by one recipient is the run of the calls
that concern it.
-/
open AetherNode.Lib AetherNode.Lib.Json AetherNode.Protocol

namespace AetherNode.Isolation

variable {env : Env}

inductive Call where
  | insertMessageAndMaybeGossip (payload : Dict) (recipientId : Str) (receivedAt : Datetime)
  | applyConfirmedDeletion (targetSignature : Str) (requesterPubkey requesterRecipientId requestedAt : Json)
  | runOnce (now cutoffNow : Datetime)

inductive Answer where
  | insert (r : Except PyError InsertResult)
  | deletion (r : Except PyError Unit)
  | sweep (r : Except PyError Unit)

def step (env : Env) : System Db Call Answer
  | db, .insertMessageAndMaybeGossip p rid t =>
    let r := insertMessageAndMaybeGossip env p rid t db
    some (r.1, .insert r.2)
  | db, .applyConfirmedDeletion target key rid requestedAt =>
    let r := applyConfirmedDeletion env target key rid requestedAt db
    some (r.1, .deletion r.2)
  | db, .runOnce now cutoffNow =>
    let r := runOnce env now cutoffNow db
    some (r.1, .sweep r.2)

/-- The answer with the id of a stored row forgotten. -/
def Answer.outcome : Answer → Answer
  | .insert (.ok (.stored _)) => .insert (.ok (.stored 0))
  | r => r

/-- The signature and the recipient of an insert. -/
def Call.inserted : Call → Option (Str × Str)
  | .insertMessageAndMaybeGossip p rid _ => some (p.text (lit "signature"), rid)
  | _ => none

/-- The calls are not inserts of one signature. -/
def Differ (x y : Call × Answer) : Prop :=
  x.1.inserted.map Prod.fst = none ∨ x.1.inserted.map Prod.fst ≠ y.1.inserted.map Prod.fst

instance (x y : Call × Answer) : Decidable (Differ x y) := inferInstanceAs (Decidable (_ ∨ _))

theorem Differ.ne {x y : Call × Answer} (h : Differ x y) {s rid rid' : Str} (hx : x.1.inserted = some (s, rid)) :
    y.1.inserted ≠ some (s, rid') := by
  intro hy
  unfold Differ at h
  rw [hx, hy] at h
  simp at h

instance : Std.Symm Differ := by
  constructor
  intro x y h
  rcases h with hx | hne
  · by_cases hy : y.1.inserted.map Prod.fst = none
    · exact .inl hy
    · exact .inr (hx ▸ hy)
  · exact .inr hne.symm

/-- No two inserts are of one signature. -/
def DistinctSignatures (h : List (Call × Answer)) : Prop := h.Pairwise Differ

/-- The call concerns no other recipient: it is not an insert for one, nor the deletion of what is inserted for one. -/
def concerns (h : List (Call × Answer)) (recipientId : Str) (x : Call × Answer) : Bool :=
  match x.1 with
  | .insertMessageAndMaybeGossip _ rid _ => rid = recipientId
  | .applyConfirmedDeletion target _ _ _ =>
    !h.any fun y => y.1.inserted.any fun i => i.1 = target ∧ i.2 ≠ recipientId
  | .runOnce _ _ => true

/-! ## Where the rows come from -/

/-- Every row was put in by one of the calls. -/
def CameFrom (cs : List Call) (db : Db) : Prop :=
  ∀ r ∈ db.messages.rows, ∃ c ∈ cs, c.inserted = some (r.2.signature, r.2.recipientId)

section
variable {cs : List Call} {db db' : Db} {c : Call} {o : Answer}

theorem CameFrom.mono {cs' : List Call} (h : CameFrom cs db) (hsub : cs ⊆ cs') : CameFrom cs' db := by
  intro r hr
  obtain ⟨c, hc, hrow⟩ := h r hr
  exact ⟨c, hsub hc, hrow⟩

theorem CameFrom.sheds (h : CameFrom cs db) (hsheds : db.messages.Sheds db'.messages) : CameFrom cs db' :=
  fun r hr => h r (hsheds.rows.subset hr)

theorem sheds_deletion (target : Str) (key rid requestedAt : Json) (db : Db) :
    db.messages.Sheds (applyConfirmedDeletion env target key rid requestedAt db).1.messages := by
  unfold applyConfirmedDeletion
  split
  · exact .refl _
  · split
    · exact Db.sheds_deleteMessage _ _
    · exact Db.sheds_bury _ _

theorem step_cameFrom (h : CameFrom cs db) (hs : step env db c = some (db', o)) : CameFrom (cs ++ [c]) db' := by
  have hmono := h.mono (List.subset_append_left cs [c])
  cases c with
  | insertMessageAndMaybeGossip p rid t =>
    cases hi : insertMessageAndMaybeGossip env p rid t db with
    | mk db'' r =>
      simp only [step, hi, Option.some.injEq, Prod.mk.injEq] at hs
      obtain ⟨rfl, -⟩ := hs
      rcases insert_spec hi with ⟨rfl, -⟩ | ⟨messages, id, hins, -, -, rfl, -⟩
      · exact hmono
      · intro r hr
        rw [(Table.insert?_rows hins).1] at hr
        rcases List.mem_append.1 hr with hr | hr
        · exact hmono r hr
        · rw [List.mem_singleton.1 hr]
          exact ⟨_, List.mem_append_right _ (List.mem_singleton.2 rfl), rfl⟩
  | applyConfirmedDeletion target key rid requestedAt =>
    simp only [step, Option.some.injEq, Prod.mk.injEq] at hs
    obtain ⟨rfl, -⟩ := hs
    exact hmono.sheds (sheds_deletion target key rid requestedAt db)
  | runOnce now cutoffNow =>
    simp only [step, Option.some.injEq, Prod.mk.injEq] at hs
    obtain ⟨rfl, -⟩ := hs
    exact hmono.sheds (sheds_runOnce env now cutoffNow db)

/-- A signature that no call has inserted is not stored. -/
theorem CameFrom.fresh (h : CameFrom cs db) {s : Str} (hnew : ∀ c ∈ cs, ∀ rid, c.inserted ≠ some (s, rid)) :
    ∀ r ∈ db.messages.rows, r.2.signature ≠ s := by
  rintro r hr rfl
  obtain ⟨c, hc, hrow⟩ := h r hr
  exact hnew c hc _ hrow

end

/-! ## What a call does to one inbox -/

section
variable {db db' : Db} {R : Str}

/-- For a new signature the section decides by the inbox of its recipient. -/
theorem insert_alike {p : Dict} {t : Datetime} (hinbox : db'.inbox R = db.inbox R)
    (hnew : ∀ r ∈ db.messages.rows, r.2.signature ≠ p.text (lit "signature"))
    (hnew' : ∀ r ∈ db'.messages.rows, r.2.signature ≠ p.text (lit "signature")) :
    (Answer.insert (insertMessageAndMaybeGossip env p R t db').2).outcome =
        (Answer.insert (insertMessageAndMaybeGossip env p R t db).2).outcome ∧
      (insertMessageAndMaybeGossip env p R t db').1.inbox R = (insertMessageAndMaybeGossip env p R t db).1.inbox R := by
  have hquota : quotaReached env R db' = quotaReached env R db := by
    unfold quotaReached
    rw [hinbox]
  have heq : insertMessageAndMaybeGossip env p R t db = _ := insert_eq hnew
  have heq' : insertMessageAndMaybeGossip env p R t db' = _ := insert_eq hnew'
  rw [heq, heq', hquota]
  split
  · exact ⟨rfl, hinbox⟩
  split
  · exact ⟨rfl, hinbox⟩
  split
  · exact ⟨rfl, hinbox⟩
  · refine ⟨rfl, ?_⟩
    have happend : ∀ q r : Db, r.messages.rows = q.messages.rows ++ [(q.messages.seq + 1, messageOf p R t)] →
        r.inbox R = q.inbox R ++ [messageOf p R t] := by
      intro q r hrows
      rw [Db.inbox_append hrows]
      exact congrArg _ (if_pos rfl)
    refine (happend db' _ rfl).trans ?_
    rw [hinbox]
    exact (happend db _ rfl).symm

theorem deletion_alike {target : Str} {key rid requestedAt : Json} (hinbox : db'.inbox R = db.inbox R) :
    (applyConfirmedDeletion env target key rid requestedAt db').2 =
        (applyConfirmedDeletion env target key rid requestedAt db).2 ∧
      (applyConfirmedDeletion env target key rid requestedAt db').1.inbox R =
        (applyConfirmedDeletion env target key rid requestedAt db).1.inbox R := by
  constructor
  · unfold applyConfirmedDeletion
    split
    · rfl
    · cases bindTombstone env target key rid requestedAt <;> rfl
  · rw [inbox_applyConfirmedDeletion, inbox_applyConfirmedDeletion, hinbox]

theorem runOnce_alike {now cutoffNow : Datetime} (hinbox : db'.inbox R = db.inbox R) :
    (runOnce env now cutoffNow db').2 = (runOnce env now cutoffNow db).2 ∧
      (runOnce env now cutoffNow db').1.inbox R = (runOnce env now cutoffNow db).1.inbox R := by
  constructor
  · unfold runOnce
    cases cutoffNow.addSeconds (-env.maxTtlSeconds) <;> rfl
  · rw [inbox_runOnce, inbox_runOnce, hinbox]

/-- An insert for another recipient is not seen. -/
theorem insert_other {p : Dict} {rid : Str} {t : Datetime} (hrid : rid ≠ R) :
    (insertMessageAndMaybeGossip env p rid t db).1.inbox R = db.inbox R := by
  cases hi : insertMessageAndMaybeGossip env p rid t db with
  | mk db' r =>
    rcases insert_spec hi with ⟨rfl, -⟩ | ⟨messages, id, hins, -, -, rfl, -⟩
    · rfl
    · have hrows : Db.inbox { db with messages := messages } R = _ := Db.inbox_append (Table.insert?_rows hins).1 R
      have hout : (messageOf p rid t).recipientId ≠ R := hrid
      rw [hrows, if_neg hout, List.append_nil]

/-- Nor is the deletion of what is not in the inbox. -/
theorem deletion_other {target : Str} {key rid requestedAt : Json} (hout : ∀ m ∈ db.inbox R, m.signature ≠ target) :
    (applyConfirmedDeletion env target key rid requestedAt db).1.inbox R = db.inbox R := by
  rw [inbox_applyConfirmedDeletion]
  split
  · apply List.filter_eq_self.2
    intro m hm
    simpa using hout m hm
  · rfl

end

/-! ## The run one recipient sees -/

/-- Both tables come from the calls so far and hold the same for `R`. -/
structure Alike (R : Str) (h : List (Call × Answer)) (db db' : Db) : Prop where
  cameFrom : CameFrom (h.map Prod.fst) db
  cameFrom' : CameFrom (h.map Prod.fst) db'
  inbox : db'.inbox R = db.inbox R

section
variable {R : Str} {h pre post : List (Call × Answer)} {c : Call} {o : Answer} {db db₁ db' : Db}

/-- What a call inserts has not been inserted before. -/
theorem inserted_new (hd : DistinctSignatures (pre ++ (c, o) :: post)) {s rid : Str} (hc : c.inserted = some (s, rid)) :
    ∀ c' ∈ pre.map Prod.fst, ∀ rid', c'.inserted ≠ some (s, rid') := by
  intro c' hc' rid' heq
  obtain ⟨x, hx, rfl⟩ := List.mem_map.1 hc'
  exact (List.pairwise_append.1 hd).2.2 x hx (c, o) List.mem_cons_self |>.ne heq hc

/-- A call that concerns the recipient is answered alike. -/
theorem Alike.keeps (ha : Alike R pre db db') (hd : DistinctSignatures (pre ++ (c, o) :: post))
    (hstep : step env db c = some (db₁, o)) (hc : concerns h R (c, o) = true) :
    ∃ db₁' o', step env db' c = some (db₁', o') ∧ o'.outcome = o.outcome ∧ Alike R (pre ++ [(c, o)]) db₁ db₁' := by
  have hfrom : ∀ {q q' a}, CameFrom (pre.map Prod.fst) q → step env q c = some (q', a) →
      CameFrom ((pre ++ [(c, o)]).map Prod.fst) q' := by
    intro q q' a hq hs
    rw [List.map_append]
    exact step_cameFrom hq hs
  cases c with
  | insertMessageAndMaybeGossip p rid t =>
    obtain rfl : rid = R := by simpa [concerns] using hc
    have hnew := inserted_new hd rfl
    simp only [step, Option.some.injEq, Prod.mk.injEq] at hstep
    obtain ⟨rfl, rfl⟩ := hstep
    obtain ⟨houtcome, hinbox⟩ := insert_alike (t := t) ha.inbox (ha.cameFrom.fresh hnew) (ha.cameFrom'.fresh hnew)
    exact ⟨_, _, rfl, houtcome, hfrom ha.cameFrom rfl, hfrom ha.cameFrom' rfl, hinbox⟩
  | applyConfirmedDeletion target key rid requestedAt =>
    simp only [step, Option.some.injEq, Prod.mk.injEq] at hstep
    obtain ⟨rfl, rfl⟩ := hstep
    obtain ⟨hanswer, hinbox⟩ := deletion_alike ha.inbox
    exact ⟨_, _, rfl, congrArg (fun r => Answer.outcome (.deletion r)) hanswer, hfrom ha.cameFrom rfl,
      hfrom ha.cameFrom' rfl, hinbox⟩
  | runOnce now cutoffNow =>
    simp only [step, Option.some.injEq, Prod.mk.injEq] at hstep
    obtain ⟨rfl, rfl⟩ := hstep
    obtain ⟨hanswer, hinbox⟩ := runOnce_alike ha.inbox
    exact ⟨_, _, rfl, congrArg (fun r => Answer.outcome (.sweep r)) hanswer, hfrom ha.cameFrom rfl,
      hfrom ha.cameFrom' rfl, hinbox⟩

/-- A call that concerns someone else is not seen. -/
theorem Alike.drops (ha : Alike R pre db db') (hd : DistinctSignatures h) (hh : h = pre ++ (c, o) :: post)
    (hstep : step env db c = some (db₁, o)) (hc : concerns h R (c, o) = false) :
    Alike R (pre ++ [(c, o)]) db₁ db' := by
  have hfrom : CameFrom ((pre ++ [(c, o)]).map Prod.fst) db₁ := by
    rw [List.map_append]
    exact step_cameFrom ha.cameFrom hstep
  have hfrom' : CameFrom ((pre ++ [(c, o)]).map Prod.fst) db' := by
    rw [List.map_append]
    exact ha.cameFrom'.mono (List.subset_append_left _ _)
  refine ⟨hfrom, hfrom', ?_⟩
  rw [ha.inbox]
  cases c with
  | insertMessageAndMaybeGossip p rid t =>
    have hrid : rid ≠ R := by simpa [concerns] using hc
    simp only [step, Option.some.injEq, Prod.mk.injEq] at hstep
    obtain ⟨rfl, -⟩ := hstep
    exact (insert_other hrid).symm
  | applyConfirmedDeletion target key rid requestedAt =>
    simp only [step, Option.some.injEq, Prod.mk.injEq] at hstep
    obtain ⟨rfl, -⟩ := hstep
    refine (deletion_other ?_).symm
    -- A message of this inbox with the target's signature would be inserted twice, for two recipients.
    rintro m hm rfl
    obtain ⟨y, hy, i, hi, hsig, hrid⟩ : ∃ y ∈ h, ∃ i, y.1.inserted = some i ∧ i.1 = m.signature ∧ i.2 ≠ R := by
      simpa [concerns, Option.any_eq_true] using hc
    obtain ⟨r, hr, rfl⟩ := List.mem_map.1 (List.mem_filter.1 hm).1
    have hR : r.2.recipientId = R := by simpa using (List.mem_filter.1 hm).2
    obtain ⟨c', hc', hrow⟩ := ha.cameFrom r hr
    obtain ⟨x, hx, rfl⟩ := List.mem_map.1 hc'
    have hxh : x ∈ h := hh ▸ List.mem_append_left _ hx
    have hxy : x ≠ y := by
      rintro rfl
      rw [hrow] at hi
      cases hi
      exact hrid hR
    exact (hd.forall hxh hy hxy).ne hrow (hi.trans (congrArg some (Prod.ext hsig rfl)))
  | runOnce now cutoffNow => cases hc

/-- One recipient cannot tell a run from the run of the calls that concern it: its inbox is the same, and so is the
outcome of every call that is left. -/
theorem quotas_isolated (hr : Run (step env) Any Db.empty h db) (hd : DistinctSignatures h) (R : Str) :
    ∃ h' db', Run (step env) Any Db.empty h' db' ∧ db'.inbox R = db.inbox R ∧
      h'.map (fun x => (x.1, x.2.outcome)) = (h.filter (concerns h R)).map fun x => (x.1, x.2.outcome) := by
  have hstart : Alike R [] Db.empty Db.empty := by
    refine ⟨?_, ?_, rfl⟩ <;>
    · intro r hr
      cases hr
  obtain ⟨h', db', hrun, halike, hview⟩ := hr.project Any (Alike R) (concerns h R) Answer.outcome Answer.outcome hstart
    (by
      intro pre c o post db db₁ db' hh _ hstep ha hc
      obtain ⟨db₁', o', hstep', houtcome, hnext⟩ := ha.keeps (hh ▸ hd) hstep hc
      exact ⟨db₁', o', trivial, hstep', houtcome, hnext⟩)
    (by
      intro pre c o post db db₁ db' hh _ hstep ha hc
      exact ha.drops hd hh hstep hc)
  exact ⟨h', db', hrun, halike.inbox, hview⟩

end

/-- Another recipient. -/
def stranger : Str := lit "00ff"

/-- Each inbox has room for one message: a stranger's is filled, and the second of two inserts for the owner is refused,
with and without it. -/
theorem quotas_isolated_single : ∃ h db, Run (step Quota.single) Any Db.empty h db ∧
    (db.inbox Sample.recipientId).length = 1 ∧ (db.inbox stranger).length = 1 ∧
    ∃ h' db', Run (step Quota.single) Any Db.empty h' db' ∧
      db'.inbox Sample.recipientId = db.inbox Sample.recipientId ∧
      h'.map (fun x => (x.1, x.2.outcome)) =
        (h.filter (concerns h Sample.recipientId)).map fun x => (x.1, x.2.outcome) := by
  obtain ⟨h, db, hr, hp⟩ := exists_any_run (step Quota.single)
    (fun db h => decide (h.Pairwise Differ ∧ (db.inbox Sample.recipientId).length = 1 ∧
      (db.inbox stranger).length = 1)) Db.empty
    [.insertMessageAndMaybeGossip (Sample.payload (lit "YWFh")) stranger Sample.noon,
      .insertMessageAndMaybeGossip (Sample.payload (lit "YmJi")) stranger Sample.noon,
      .insertMessageAndMaybeGossip (Sample.payload (lit "c2ln")) Sample.recipientId Sample.noon,
      .insertMessageAndMaybeGossip (Sample.payload (lit "ZGVs")) Sample.recipientId Sample.noon] (by decide +kernel)
  obtain ⟨hd, howner, hstranger⟩ := of_decide_eq_true hp
  exact ⟨h, db, hr, howner, hstranger, quotas_isolated hr hd Sample.recipientId⟩

end AetherNode.Isolation
