import AetherNode.Relay
/-!
# Confirmed deletions against everything else

The tombstone check and the insert of one ingestion are separate sections, and
so are the read and the write of a resolution. Each gap has one step that goes
wrong in it: an insert that finds a confirmed row of its signature, and the
drop of a claim that was confirmed in between. In every run without the first
no signature is both stored and confirmed deleted, and in every run without
the second a confirmed row stays until a sweep is due to reap it.
-/
open AetherNode.Lib AetherNode.Lib.Json AetherNode.Protocol

namespace AetherNode.Finality

variable {env : Env}

/-! ## What a deletion keeps -/

/-- The signature is stored, and confirmed deleted. -/
def Both (db : Db) (signature : Str) : Prop := (∃ m, db.message signature = some m) ∧ db.confirmed signature = true

/-- Burying keeps every confirmed row, or replaces it by a confirmed one. -/
theorem bury_confirmed {db : Db} {row : DeletionRequest} (hrow : row.confirmed = true) {sig : Str}
    (hc : db.confirmed sig = true) : (db.bury row).confirmed sig = true := by
  by_cases hs : sig = row.targetSignature
  · simp [Db.confirmed, hs, hrow]
  · simpa [Db.confirmed, hs] using hc

/-- Burying leaves no signature both stored and confirmed where there was none. -/
theorem bury_clean {db : Db} {row : DeletionRequest} {sig : Str} (hc : ¬ Both db sig) : ¬ Both (db.bury row) sig := by
  rintro ⟨⟨m, hm⟩, hconf⟩
  by_cases hs : sig = row.targetSignature
  · simp [hs] at hm
  · exact hc ⟨⟨m, by simpa [hs] using hm⟩, by simpa [Db.confirmed, hs] using hconf⟩

/-! ## Stored and confirmed at once -/

/-- The event is not the insert of a message the quota and SQLite admit whose signature is confirmed deleted. -/
def insertMeetsNoTombstone (s : Relay env) : Event → Bool
  | .advance i now _ =>
    match s.ingests[i]? with
    | none => true
    | some g =>
      match g.phase with
      | .insert _ =>
        quotaReached env (g.payload.text (lit "recipient_id")) s.db ||
          !(messageOf g.payload (g.payload.text (lit "recipient_id")) now).binds ||
          !s.db.confirmed (g.payload.text (lit "signature"))
      | _ => true
  | _ => true

theorem step_clean {s s' : Relay env} {e : Event} {o : Obs} (hc : ∀ sig, ¬ Both s.db sig)
    (hok : insertMeetsNoTombstone s e = true) (h : step env s e = some (s', o)) (sig : Str) : ¬ Both s'.db sig := by
  have he := step_effect h
  generalize s'.db = db' at he ⊢
  cases he with
  | same => exact hc sig
  | @stores i now gate g hv id _ hg hph hnone hq hb hlook hreq =>
    -- The one step that could store next to a tombstone.
    have hfree : s.db.confirmed (g.payload.text (lit "signature")) = false := by
      simpa [insertMeetsNoTombstone, hg, hph, hq, hb] using hok
    rintro ⟨⟨m, hm⟩, hconf⟩
    have hconf' : s.db.confirmed sig = true := by simpa only [Db.confirmed, Db.request, hreq] using hconf
    rw [hlook] at hm
    split at hm
    · rename_i hs
      rw [hs, hfree] at hconf'
      cases hconf'
    · exact hc sig ⟨⟨m, hm⟩, hconf'⟩
  | @drops i now gate g hv key hm hg hph =>
    rintro ⟨⟨m, hm⟩, hconf⟩
    refine hc sig ⟨⟨m, hm⟩, ?_⟩
    obtain ⟨r, hr, hrc⟩ := Db.confirmed_iff.1 hconf
    rw [Db.request_deleteRequest] at hr
    split at hr
    · cases hr
    · exact Db.confirmed_iff.2 ⟨r, hr, hrc⟩
  | promotes => exact bury_clean (hc sig)
  | deletes => exact bury_clean (hc sig)
  | records hv hm =>
    rintro ⟨⟨m, hm'⟩, hconf⟩
    refine hc sig ⟨⟨m, hm'⟩, ?_⟩
    obtain ⟨r, hr, hrc⟩ := Db.confirmed_iff.1 hconf
    rw [Db.request_recordRequest] at hr
    split at hr
    · cases hr
      cases hrc
    · exact Db.confirmed_iff.2 ⟨r, hr, hrc⟩
  | adopts => exact bury_clean (hc sig)
  | @loses item now t _ _ _ _ =>
    rintro ⟨⟨m, hm⟩, hconf⟩
    by_cases hs : sig = t
    · simp [hs] at hm
    · exact hc sig ⟨⟨m, by simpa [hs] using hm⟩, hconf⟩
  | @sweeps now cutoffNow cutoff _ _ hcut hm hq =>
    rintro ⟨⟨m, hm'⟩, hconf⟩
    obtain ⟨r, hr, hrc⟩ := Db.confirmed_iff.1 hconf
    rw [hm] at hm'
    rw [hq] at hr
    exact hc sig ⟨⟨m, (Option.filter_eq_some_iff.1 hm').1⟩,
      Db.confirmed_iff.2 ⟨r, (Option.filter_eq_some_iff.1 hr).1, hrc⟩⟩

/-- In every run whose inserts meet no tombstone, nothing is stored and confirmed deleted at once. -/
theorem confirmed_not_stored {h : List (Event × Obs)} {s : Relay env}
    (hr : RelayRun env (fun s e => insertMeetsNoTombstone s e = true) h s) (sig : Str) : ¬ Both s.db sig := by
  refine hr.inv (fun s => ∀ sig, ¬ Both s.db sig) ?_ ?_ sig
  · rintro sig ⟨⟨m, hm⟩, -⟩
    cases hm
  · intro s e s' o hc hok hs
    exact step_clean hc hok hs

/-- A message is stored, its owner deletes it, and a second copy of it is then discarded. -/
theorem confirmed_not_stored_replay : ∃ h s, RelayRun Sample.config (fun s e => insertMeetsNoTombstone s e = true) h s ∧
    s.db.confirmed (lit "c2ln") = true ∧ ¬ Both s.db (lit "c2ln") := by
  obtain ⟨h, s, hr, hp⟩ := exists_run (step Sample.config) insertMeetsNoTombstone
    (fun s _ => s.db.confirmed (lit "c2ln")) Relay.init
    ([.arrive .publish (Sample.payload (lit "c2ln"))] ++ Sample.sections 0 4 ++
      [.delete (Sample.deletePayload (lit "c2ln") Sample.ownerKey) Sample.noon .pass,
        .arrive .gossipPublish (Sample.payload (lit "c2ln"))] ++ Sample.sections 1 3) (by decide +kernel)
  exact ⟨h, s, hr, hp, confirmed_not_stored hr (lit "c2ln")⟩

/-- A publish passes the tombstone check and waits; a gossip push of the same message stores it, its owner
deletes it, and then the publish inserts it again. -/
theorem stored_and_confirmed : ∃ h s, RelayRun Sample.config Any h s ∧ Both s.db (lit "c2ln") := by
  obtain ⟨h, s, hr, hp⟩ := exists_any_run (step Sample.config)
    (fun s _ => (s.db.message (lit "c2ln")).isSome && s.db.confirmed (lit "c2ln")) Relay.init
    ([.arrive .publish (Sample.payload (lit "c2ln"))] ++ Sample.sections 0 3 ++
      [.arrive .gossipPublish (Sample.payload (lit "c2ln"))] ++ Sample.sections 1 4 ++
      [.delete (Sample.deletePayload (lit "c2ln") Sample.ownerKey) Sample.noon .pass] ++ Sample.sections 0 1)
    (by decide +kernel)
  simp only [Bool.and_eq_true, Option.isSome_iff_exists] at hp
  exact ⟨h, s, hr, hp⟩

/-! ## A confirmed row until its retention is over -/

/-- The event is not the drop of a claim whose row has been confirmed in the meantime. -/
def dropMeetsNoTombstone (s : Relay env) : Event → Bool
  | .advance i _ _ =>
    match s.ingests[i]? with
    | none => true
    | some g =>
      match g.phase with
      | .resolveWrite _ _ false _ => !s.db.confirmed (g.payload.text (lit "signature"))
      | _ => true
  | _ => true

/-- The event is a sweep whose cutoff has reached the `requested_at` of the row for `sig`. -/
def Reaps (env : Env) (sig : Str) (s : Relay env) (e : Event) : Prop :=
  ∃ now cutoffNow cutoff r, e = .sweep now cutoffNow ∧ cutoffNow.addSeconds (-env.maxTtlSeconds) = some cutoff ∧
    s.db.request sig = some r ∧ r.requestedAt ≤ cutoff.isoformat

theorem step_confirmed {s s' : Relay env} {e : Event} {o : Obs} {sig : Str} (hc : s.db.confirmed sig = true)
    (hok : dropMeetsNoTombstone s e = true) (h : step env s e = some (s', o)) :
    s'.db.confirmed sig = true ∨ Reaps env sig s e := by
  have he := step_effect h
  generalize s'.db = db' at he ⊢
  cases he with
  | same => exact .inl hc
  | stores _ _ _ _ _ _ hreq => exact .inl (by simpa only [Db.confirmed, Db.request, hreq] using hc)
  | @drops i now gate g hv key hm hg hph =>
    -- The drop looks at the signature only, so `hok` has to say that the row is still pending.
    have hfree : s.db.confirmed (g.payload.text (lit "signature")) = false := by
      simpa [dropMeetsNoTombstone, hg, hph] using hok
    have hs : sig ≠ g.payload.text (lit "signature") := by
      rintro rfl
      rw [hfree] at hc
      cases hc
    exact .inl (by simpa [Db.confirmed, hs] using hc)
  | promotes => exact .inl (bury_confirmed rfl hc)
  | deletes => exact .inl (bury_confirmed rfl hc)
  | records =>
    obtain ⟨r, hr, hrc⟩ := Db.confirmed_iff.1 hc
    exact .inl (Db.confirmed_iff.2 ⟨r, by simp [hr], hrc⟩)
  | adopts _ _ hrow => exact .inl (bury_confirmed (bindTombstone_ok hrow).2.2.2.2 hc)
  | loses => exact .inl hc
  | @sweeps now cutoffNow cutoff _ _ hcut hm hq =>
    obtain ⟨r, hr, hrc⟩ := Db.confirmed_iff.1 hc
    by_cases hle : r.requestedAt ≤ cutoff.isoformat
    · exact .inr ⟨now, cutoffNow, cutoff, r, rfl, hcut, hr, hle⟩
    · exact .inl (Db.confirmed_iff.2 ⟨r, by simp [hq, hr, Option.filter, hle], hrc⟩)

/-- In every run without such a drop, from any state with a confirmed row for `sig`, there still is one at the
end, or some sweep of the run was due to reap it. -/
theorem confirmed_until_reaped {t s : Relay env} {h : List (Event × Obs)} {sig : Str}
    (hr : Run (step env) (fun s e => dropMeetsNoTombstone s e = true) t h s) (hc : t.db.confirmed sig = true) :
    s.db.confirmed sig = true ∨ ∃ pre e o post u, h = pre ++ (e, o) :: post ∧
      Run (step env) (fun s e => dropMeetsNoTombstone s e = true) t pre u ∧ u.db.confirmed sig = true ∧
      Reaps env sig u e := by
  induction hr with
  | nil => exact .inl hc
  | @snoc h u e o s' hr ho hs ih =>
    rcases ih with hconf | ⟨pre, e', o', post, u', rfl, hpre, hconf, hreap⟩
    · rcases step_confirmed hconf ho hs with hconf' | hreap
      · exact .inl hconf'
      · exact .inr ⟨h, e, o, [], u, rfl, hr, hconf, hreap⟩
    · exact .inr ⟨pre, e', o', post ++ [(e, o)], u', by simp, hpre, hconf, hreap⟩

/-- After the owner's deletion, a replay of the message leaves the confirmed row. -/
theorem confirmed_until_reaped_replay : ∃ t h s, t.db.confirmed (lit "c2ln") = true ∧
    Run (step Sample.config) (fun s e => dropMeetsNoTombstone s e = true) t h s ∧
    (s.db.confirmed (lit "c2ln") = true ∨ ∃ pre e o post u, h = pre ++ (e, o) :: post ∧
      Run (step Sample.config) (fun s e => dropMeetsNoTombstone s e = true) t pre u ∧
      u.db.confirmed (lit "c2ln") = true ∧ Reaps Sample.config (lit "c2ln") u e) := by
  obtain ⟨h₀, t, -, ht⟩ := exists_any_run (step Sample.config)
    (fun s _ => s.db.confirmed (lit "c2ln") && (exec (step Sample.config) dropMeetsNoTombstone s
      ([.arrive .gossipPublish (Sample.payload (lit "c2ln"))] ++ Sample.sections 1 3)).isSome) Relay.init
    ([.arrive .publish (Sample.payload (lit "c2ln"))] ++ Sample.sections 0 4 ++
      [.delete (Sample.deletePayload (lit "c2ln") Sample.ownerKey) Sample.noon .pass]) (by decide +kernel)
  simp only [Bool.and_eq_true, Option.isSome_iff_exists] at ht
  obtain ⟨hc, r, hx⟩ := ht
  exact ⟨t, r.2, r.1, hc, exec_run hx, confirmed_until_reaped (exec_run hx) hc⟩

/-- A stranger's claim on the signature is pending. A publish reads it as a mismatch and waits; a gossip push
of the same message drops the claim and stores the message, its owner deletes it, and then the publish drops
the owner's confirmed row. -/
theorem confirmed_dropped : ∃ h t e o s, RelayRun Sample.config Any h t ∧ t.db.confirmed (lit "c2ln") = true ∧
    step Sample.config t e = some (s, o) ∧ (∀ now cutoffNow, e ≠ .sweep now cutoffNow) ∧
    s.db.confirmed (lit "c2ln") = false := by
  obtain ⟨h, t, hr, hp⟩ := exists_any_run (step Sample.config)
    (fun s _ => s.db.confirmed (lit "c2ln") &&
      (step Sample.config s (.advance 0 Sample.noon true)).any fun r => !r.1.db.confirmed (lit "c2ln")) Relay.init
    ([.delete (Sample.deletePayload (lit "c2ln") Sample.otherKey) Sample.noon .pass,
        .arrive .publish (Sample.payload (lit "c2ln"))] ++ Sample.sections 0 3 ++
      [.arrive .gossipPublish (Sample.payload (lit "c2ln"))] ++ Sample.sections 1 5 ++
      [.delete (Sample.deletePayload (lit "c2ln") Sample.ownerKey) Sample.noon .pass]) (by decide +kernel)
  simp only [Bool.and_eq_true, Option.any_eq_true, Bool.not_eq_true'] at hp
  obtain ⟨hc, ⟨s, o⟩, hs, hd⟩ := hp
  exact ⟨h, t, _, o, s, hr, hc, hs, by simp, hd⟩

end AetherNode.Finality
