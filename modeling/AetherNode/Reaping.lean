import AetherNode.Convergence
/-!
# Reaped tombstones

Relays on one clock that delete, pull each other's tombstones, sweep and
restart. A pulled tombstone keeps its `requested_at` and is not held against
the retention window again: a relay that has swept one adopts it anew from a
peer that has not. Where no relay writes a tombstone that its last sweep would
have reaped, what every relay has reaped stays gone.
-/
open AetherNode.Lib AetherNode.Lib.Json AetherNode.Protocol

namespace AetherNode.Reaping

open Convergence (Pull)

/-! ## Relays on one clock -/

structure State (ι : Type) where
  clock : Datetime
  relays : Convergence.State ι
  /-- When each relay last completed a sweep. -/
  lastSweep : ι → Option Datetime

inductive Event (ι : Type) where
  /-- Time passes. -/
  | tick (t : Datetime)
  | ingest (i : ι) (path : Path) (payload : Dict) (gate identityGate : Bool)
  | delete (i : ι) (payload : Dict) (gate : Gate)
  /-- A sweep that has read the clock for the messages at `now`. -/
  | sweep (i : ι) (now : Datetime)
  /-- The pull of relay `j` from `i`: it asks for a page, handles the next item, saves its cursor. -/
  | request (j i : ι)
  | item (j i : ι) (gate : Bool)
  | save (j i : ι)
  /-- Relay `i` restarts with its database: its cursors are lost, and the rounds under way. A `DELETE` in sqlite3's open
  transaction is not taken back; a tombstone that binds leaves none. -/
  | restart (i : ι)

inductive Obs where
  | quiet
  | relays (o : Convergence.Obs)

variable {ι : Type}

/-- The event as one of the relays, at the time of the clock. -/
def Event.atClock (clock : Datetime) : Event ι → Option (Convergence.Event ι)
  | .tick _ => none
  | .ingest i path p gate identityGate => some (.op i (.ingest path p clock gate identityGate))
  | .delete i p gate => some (.op i (.delete p clock gate))
  | .sweep i now => if now ≤ clock then some (.op i (.sweep now clock)) else none
  | .request j i => some (.request j i)
  | .item j i gate => some (.item j i clock gate)
  | .save j i => some (.save j i)
  | .restart _ => none

variable [DecidableEq ι]

/-- `lastSweep` after an event: a sweep that raises is not completed. -/
def State.swept (s : State ι) : Event ι → Convergence.Obs → ι → Option Datetime
  | .sweep i _, .op (.sweep (.ok ())) => Function.update s.lastSweep i (some s.clock)
  | _, _ => s.lastSweep

def State.restart (s : Convergence.State ι) (i : ι) : Convergence.State ι :=
  { s with pull := Function.update s.pull i fun _ => ⟨0, none⟩ }

/-- One event. The clock never goes back. -/
def step (env : ι → Env) (trusts : ι → ι → Bool) : System (State ι) (Event ι) Obs
  | s, .tick t => if s.clock ≤ t then some ({ s with clock := t }, .quiet) else none
  | s, .restart i => some ({ s with relays := State.restart s.relays i }, .quiet)
  | s, e =>
    match e.atClock s.clock with
    | none => none
    | some e' =>
      (Convergence.step env trusts s.relays e').map fun r => (⟨s.clock, r.1, s.swept e r.2⟩, .relays r.2)

/-- Empty relays that have pulled nothing and never swept. -/
def init (clock : Datetime) : State ι := ⟨clock, Convergence.init, fun _ => none⟩

/-- Relay `i` has completed a sweep later than `t` and the retention window. -/
def Expired (ttl : Int) (s : State ι) (i : ι) (t : Datetime) : Prop :=
  ∃ T, s.lastSweep i = some T ∧ (t.toMicros : Int) + ttl * 1000000 < T.toMicros

/-- The event does not write a tombstone that the relay's last sweep would have reaped: none is adopted from a page
that was requested so early, and, what a window below zero makes possible, none is made now. -/
def WritesNothingExpired (ttl : Int) (s : State ι) : Event ι → Prop
  | .item j i gate => ∀ maxId row rest t, (s.relays.pull j i).page = some ⟨maxId, row :: rest⟩ → gate = true →
      (s.relays.node j).confirmed row.2.targetSignature = false → row.2.requestedAt = t.isoformat → ¬ Expired ttl s j t
  | .ingest i _ _ _ _ | .delete i _ _ => ¬ Expired ttl s i s.clock
  | _ => True

/-! ## What a step writes -/

section
variable {env : Env} {db db' : Db} {o : AtomicObs}

/-- An operation at `now` leaves the rows that were there, or a row requested at `now`. -/
theorem request_after {e : AtomicEvent} {now : Datetime}
    (he : (∃ path p gate identityGate, e = .ingest path p now gate identityGate) ∨ ∃ p gate, e = .delete p now gate)
    (h : atomicStep env db e = some (db', o)) {sig : Str} {row : DeletionRequest} (hrow : db'.request sig = some row) :
    db.request sig = some row ∨ row.requestedAt = now.isoformat := by
  have hbury : ∀ new : DeletionRequest, (db.bury new).request sig = some row →
      db.request sig = some row ∨ row = new := by
    intro new hnew
    rw [Db.request_bury] at hnew
    split at hnew
    · exact .inr (Option.some.inj hnew).symm
    · exact .inl hnew
  have htime : ∀ {now' : Datetime}, (∃ path p gate identityGate, e = .ingest path p now' gate identityGate) ∨
      (∃ p gate, e = .delete p now' gate) → now' = now := by
    rintro now' (⟨_, _, _, _, rfl⟩ | ⟨_, _, rfl⟩) <;> rcases he with ⟨_, _, _, _, he⟩ | ⟨_, _, he⟩ <;> cases he <;> rfl
  cases atomic_effect h with
  | same => exact .inl hrow
  | stores _ _ _ _ hreq =>
    rw [hreq] at hrow
    split at hrow
    · cases hrow
    · exact .inl hrow
  | drops =>
    rw [Db.request_deleteRequest] at hrow
    split at hrow
    · cases hrow
    · exact .inl hrow
  | promotes =>
    refine (hbury _ hrow).imp_right ?_
    rintro rfl
    rw [htime (.inl ⟨_, _, _, _, rfl⟩)]
  | deletes =>
    refine (hbury _ hrow).imp_right ?_
    rintro rfl
    rw [htime (.inr ⟨_, _, rfl⟩)]
  | records =>
    rw [Db.request_recordRequest] at hrow
    split at hrow
    · cases hrow
      exact .inr (by rw [htime (.inr ⟨_, _, rfl⟩)])
    · exact .inl hrow
  | adopts => rcases he with ⟨_, _, _, _, he⟩ | ⟨_, _, he⟩ <;> cases he
  | loses => rcases he with ⟨_, _, _, _, he⟩ | ⟨_, _, he⟩ <;> cases he
  | sweeps => rcases he with ⟨_, _, _, _, he⟩ | ⟨_, _, he⟩ <;> cases he

/-- A pulled tombstone that is adopted keeps its `requested_at`. -/
theorem adopted_requestedAt {now : Datetime} {item : Nat × DeletionRequest} {row : DeletionRequest} {t : Datetime}
    {sig : Str} (hat : item.2.requestedAt = t.isoformat)
    (h : pulledTombstone env now (Gossip.deletionItem item) sig = .ok row) : row.requestedAt = t.isoformat := by
  obtain ⟨-, -, hbound, -, -⟩ := bindTombstone_ok h
  have hget : (Gossip.deletionItem item).get (lit "requested_at") = some (.str item.2.requestedAt) := rfl
  have htruthy : (Json.str t.isoformat).truthy = true := by
    have hsuffix : lit "+00:00" ≠ [] := by decide
    simp [truthy, Datetime.isoformat, hsuffix]
  rw [getOr, hget, hat] at hbound
  simp only [htruthy, if_true, bindText_str t.encodable_isoformat, Except.ok.injEq, Option.some.injEq] at hbound
  exact hbound.symm

end

/-! ## What every state keeps -/

section
variable {env : ι → Env} {trusts : ι → ι → Bool} {ttl : Int} {s s' : State ι} {e : Event ι} {o : Obs}

/-- Every tombstone is dated, and no relay holds one that its last sweep would have reaped. -/
structure Inv (ttl : Int) (s : State ι) : Prop where
  rows : ∀ i sig row, (s.relays.node i).request sig = some row → ∃ t, row.requestedAt = t.isoformat ∧ ¬ Expired ttl s i t
  pages : ∀ j i maxId rows, (s.relays.pull j i).page = some ⟨maxId, rows⟩ → ∀ r ∈ rows, ∃ t : Datetime,
    r.2.requestedAt = t.isoformat
  past : ∀ i T, s.lastSweep i = some T → T ≤ s.clock

omit [DecidableEq ι] in
theorem inv_init (ttl : Int) (clock : Datetime) : Inv ttl (init clock : State ι) := by
  refine ⟨?_, ?_, ?_⟩
  · intro i sig row h
    cases h
  · intro j i maxId rows h
    cases h
  · intro i T h
    cases h

/-- The relays as after `setNode`: a new row of relay `i` is dated and not expired. -/
theorem Inv.setNode (h : Inv ttl s) (i : ι) {db : Db}
    (hrows : ∀ sig row, db.request sig = some row → ∃ t, row.requestedAt = t.isoformat ∧ ¬ Expired ttl s i t) :
    Inv ttl { s with relays := s.relays.setNode i db } := by
  refine ⟨?_, h.pages, h.past⟩
  intro k sig row hrow
  simp only [Convergence.State.setNode] at hrow
  by_cases hk : k = i
  · subst hk
    rw [Function.update_self] at hrow
    exact hrows sig row hrow
  · rw [Function.update_of_ne hk] at hrow
    exact h.rows k sig row hrow

/-- The same for a pull with other rows in its page. -/
theorem Inv.setPull (h : Inv ttl s) (j i : ι) {p : Pull}
    (hpage : ∀ maxId rows, p.page = some ⟨maxId, rows⟩ → ∀ r ∈ rows, ∃ t : Datetime, r.2.requestedAt = t.isoformat) :
    Inv ttl { s with relays := s.relays.setPull j i p } := by
  refine ⟨h.rows, ?_, h.past⟩
  intro j' i' maxId rows hrows
  simp only [Convergence.State.setPull] at hrows
  by_cases hj : j' = j
  · subst hj
    rw [Function.update_self] at hrows
    by_cases hi : i' = i
    · subst hi
      rw [Function.update_self] at hrows
      exact hpage maxId rows hrows
    · rw [Function.update_of_ne hi] at hrows
      exact h.pages j' i' maxId rows hrows
  · rw [Function.update_of_ne hj] at hrows
    exact h.pages j' i' maxId rows hrows

/-- An operation that makes a tombstone makes it at the time of the clock. -/
theorem inv_op {i : ι} {a : AtomicEvent} {db' : Db} {ao : AtomicObs} (h : Inv ttl s)
    (ha : (∃ path p gate identityGate, a = .ingest path p s.clock gate identityGate) ∨ ∃ p gate, a = .delete p s.clock gate)
    (hok : ¬ Expired ttl s i s.clock) (hstep : atomicStep (env i) (s.relays.node i) a = some (db', ao)) :
    Inv ttl { s with relays := s.relays.setNode i db' } := by
  apply h.setNode i
  intro sig row hrow
  rcases request_after ha hstep hrow with hold | hnew
  · exact h.rows i sig row hold
  · exact ⟨s.clock, hnew, hok⟩

/-- A completed sweep leaves nothing that is expired by then. -/
theorem inv_sweep (hsame : ∀ i, (env i).maxTtlSeconds = ttl) {i : ι} {now : Datetime} {db' : Db} {r : Except PyError Unit}
    (h : Inv ttl s) (hrun : runOnce (env i) now s.clock (s.relays.node i) = (db', r)) :
    Inv ttl ⟨s.clock, s.relays.setNode i db', s.swept (.sweep i now) (.op (.sweep r))⟩ := by
  rcases runOnce_cases hrun with ⟨hnone, rfl⟩ | ⟨cutoff, hcut, -, hreq⟩
  · have hr : r = .error .overflowError := by
      unfold runOnce at hrun
      rw [hnone] at hrun
      exact (Prod.mk.inj hrun).2.symm
    subst hr
    exact h.setNode i (h.rows i)
  · have hr : r = .ok () := by
      unfold runOnce at hrun
      rw [hcut] at hrun
      exact (Prod.mk.inj hrun).2.symm
    subst hr
    have hswept : s.swept (.sweep i now) (.op (.sweep (.ok ()))) = Function.update s.lastSweep i (some s.clock) := rfl
    rw [hswept]
    refine ⟨?_, h.pages, ?_⟩
    · intro k sig row hrow
      simp only [Convergence.State.setNode] at hrow
      by_cases hk : k = i
      · subst hk
        rw [Function.update_self, hreq] at hrow
        obtain ⟨hold, hkept⟩ := Option.filter_eq_some_iff.1 hrow
        obtain ⟨t, hat, -⟩ := h.rows k sig row hold
        refine ⟨t, hat, ?_⟩
        rintro ⟨T, hT, hlate⟩
        obtain rfl : s.clock = T := by simpa using hT
        -- What the cutoff has reached is gone.
        have hcutoff := Datetime.addSeconds_eq_some.1 hcut
        rw [hsame] at hcutoff
        have hle : t ≤ cutoff := Datetime.le_def.2 (by omega)
        rw [hat] at hkept
        simp [Datetime.isoformat_le_iff.2 hle] at hkept
      · rw [Function.update_of_ne hk] at hrow
        obtain ⟨t, hat, hfresh⟩ := h.rows k sig row hrow
        refine ⟨t, hat, ?_⟩
        rintro ⟨T, hT, hlate⟩
        exact hfresh ⟨T, by simpa [hk] using hT, hlate⟩
    · intro k T hT
      by_cases hk : k = i
      · subst hk
        obtain rfl : s.clock = T := by simpa using hT
        exact le_refl _
      · exact h.past k T (by simpa [hk] using hT)

/-- An item of a page: the tombstone it brings is as old as the page says. -/
theorem inv_item {j i : ι} {gate : Bool} {maxId : Nat} {row : Nat × DeletionRequest} {rest : List (Nat × DeletionRequest)}
    {db' : Db} {po : PullOutcome} (h : Inv ttl s) (hok : WritesNothingExpired ttl s (.item j i gate))
    (hpage : (s.relays.pull j i).page = some ⟨maxId, row :: rest⟩)
    (hsync : syncDeletion (env j) s.clock gate (Gossip.deletionItem row) (s.relays.node j) = (db', po)) :
    Inv ttl { s with relays := s.relays.setNode j db' } := by
  rcases syncDeletion_cases hsync with ⟨rfl, -⟩ | ⟨t, ht, rfl, -, hmissing, ⟨new, hnew, rfl, -⟩ | ⟨err, -, rfl, -⟩⟩
  · exact h.setNode j (h.rows j)
  · obtain rfl : row.2.targetSignature = t := by
      have hget : (Gossip.deletionItem row).get (lit "target_signature") = some (.str row.2.targetSignature) := rfl
      rw [hget] at ht
      cases ht
      rfl
    apply h.setNode j
    intro sig row' hrow'
    rw [Db.request_bury] at hrow'
    split at hrow'
    · cases hrow'
      obtain ⟨t, hat⟩ := h.pages j i maxId _ hpage row List.mem_cons_self
      exact ⟨t, adopted_requestedAt hat hnew, hok maxId row rest t hpage rfl hmissing hat⟩
    · exact h.rows j sig row' hrow'
  · exact h.setNode j (h.rows j)

omit [DecidableEq ι] in
/-- A served page is dated. -/
theorem dated_page (h : Inv ttl s) (i : ι) (sinceId : Nat) :
    ∀ r ∈ Gossip.deletionRows (s.relays.node i) sinceId, ∃ t : Datetime, r.2.requestedAt = t.isoformat := by
  intro r hr
  obtain ⟨hmem, -, -⟩ := Gossip.mem_of_pageRows hr
  obtain ⟨t, hat, -⟩ := h.rows i r.2.targetSignature r.2 (Table.lookup_of_mem hmem)
  exact ⟨t, hat⟩

/-- An operation of relay `i` at the time of the clock. -/
theorem step_op {i : ι} {a : AtomicEvent} (he : e.atClock s.clock = some (.op i a))
    (hstep : step env trusts s e = some (s', o)) : ∃ db' ao, atomicStep (env i) (s.relays.node i) a = some (db', ao) ∧
      s' = ⟨s.clock, s.relays.setNode i db', s.swept e (.op ao)⟩ := by
  unfold step at hstep
  split at hstep
  · cases he
  · cases he
  · simp only [he, Convergence.step, Option.map_map] at hstep
    obtain ⟨⟨db', ao⟩, ha, hs⟩ := Option.map_eq_some_iff.1 hstep
    exact ⟨db', ao, ha, (Prod.mk.inj hs).1.symm⟩

/-- Only time and restarts are no event of the relays. -/
theorem step_none (he : e.atClock s.clock = none) (hstep : step env trusts s e = some (s', o)) :
    (∃ t, e = .tick t) ∨ ∃ i, e = .restart i := by
  unfold step at hstep
  split at hstep
  · exact .inl ⟨_, rfl⟩
  · exact .inr ⟨_, rfl⟩
  · rw [he] at hstep
    cases hstep

theorem inv_step (hsame : ∀ i, (env i).maxTtlSeconds = ttl) (h : Inv ttl s) (hok : WritesNothingExpired ttl s e)
    (hstep : step env trusts s e = some (s', o)) : Inv ttl s' := by
  cases e with
  | tick t =>
    simp only [step, Option.ite_none_right_eq_some, Option.some.injEq, Prod.mk.injEq] at hstep
    obtain ⟨hle, rfl, -⟩ := hstep
    exact ⟨h.rows, h.pages, fun i T hT => le_trans (h.past i T hT) hle⟩
  | restart i =>
    simp only [step, Option.some.injEq, Prod.mk.injEq] at hstep
    obtain ⟨rfl, -⟩ := hstep
    refine ⟨h.rows, ?_, h.past⟩
    intro j' i' maxId rows hrows
    simp only [State.restart] at hrows
    by_cases hj : j' = i
    · subst hj
      rw [Function.update_self] at hrows
      cases hrows
    · rw [Function.update_of_ne hj] at hrows
      exact h.pages j' i' maxId rows hrows
  | ingest i path p gate identityGate =>
    obtain ⟨db', ao, ha, rfl⟩ := step_op rfl hstep
    exact inv_op h (.inl ⟨path, p, gate, identityGate, rfl⟩) hok ha
  | delete i p gate =>
    obtain ⟨db', ao, ha, rfl⟩ := step_op rfl hstep
    exact inv_op h (.inr ⟨p, gate, rfl⟩) hok ha
  | sweep i now =>
    by_cases hle : now ≤ s.clock
    · have hat : (Event.sweep i now).atClock s.clock = some (.op i (.sweep now s.clock)) := by
        rw [Event.atClock, if_pos hle]
      obtain ⟨db', ao, ha, rfl⟩ := step_op hat hstep
      cases hrun : runOnce (env i) now s.clock (s.relays.node i) with
      | mk db₁ r =>
        simp only [atomicStep, hrun, Option.some.injEq, Prod.mk.injEq] at ha
        obtain ⟨rfl, rfl⟩ := ha
        exact inv_sweep hsame h hrun
    · have hnone : (Event.sweep i now).atClock s.clock = none := if_neg hle
      rcases step_none hnone hstep with ⟨_, he⟩ | ⟨_, he⟩ <;> cases he
  | request j i =>
    simp only [step, Event.atClock, Convergence.step] at hstep
    split at hstep
    · split at hstep
      · simp only [Option.map_some, Option.some.injEq, Prod.mk.injEq] at hstep
        obtain ⟨rfl, -⟩ := hstep
        exact ⟨h.rows, h.pages, h.past⟩
      · simp only [Option.map_some, Option.some.injEq, Prod.mk.injEq] at hstep
        obtain ⟨rfl, -⟩ := hstep
        apply h.setPull j i
        intro maxId rows hpage
        cases hpage
        exact dated_page h i _
    · cases hstep
  | item j i gate =>
    simp only [step, Event.atClock, Convergence.step] at hstep
    split at hstep
    · rename_i maxId row rest hpage
      simp only [Option.map_some, Option.some.injEq, Prod.mk.injEq] at hstep
      obtain ⟨rfl, -⟩ := hstep
      refine (inv_item h hok hpage rfl).setPull j i ?_
      intro maxId' rows hrows
      have hdated := h.pages j i maxId _ hpage
      unfold Convergence.pageAfter at hrows
      split at hrows
      · cases hrows
      · cases hrows
        simp
      · cases hrows
        exact fun r hr => hdated r (List.mem_cons_of_mem _ hr)
    · cases hstep
  | save j i =>
    simp only [step, Event.atClock, Convergence.step] at hstep
    split at hstep
    · simp only [Option.map_some, Option.some.injEq, Prod.mk.injEq] at hstep
      obtain ⟨rfl, -⟩ := hstep
      apply h.setPull j i
      intro maxId rows hrows
      cases hrows
    · cases hstep

/-- Once a relay has completed a sweep later than `t` and the window, it has done so. -/
theorem expired_step {t : Datetime} {i : ι} (h : Inv ttl s) (hexp : Expired ttl s i t)
    (hstep : step env trusts s e = some (s', o)) : Expired ttl s' i t := by
  obtain ⟨T, hT, hlate⟩ := hexp
  have hpast := Datetime.le_def.1 (h.past i T hT)
  have hkeeps : s'.lastSweep = s.lastSweep ∨ ∃ k, s'.lastSweep = Function.update s.lastSweep k (some s.clock) := by
    unfold step at hstep
    split at hstep
    · simp only [Option.ite_none_right_eq_some, Option.some.injEq, Prod.mk.injEq] at hstep
      obtain ⟨-, rfl, -⟩ := hstep
      exact .inl rfl
    · simp only [Option.some.injEq, Prod.mk.injEq] at hstep
      obtain ⟨rfl, -⟩ := hstep
      exact .inl rfl
    · split at hstep
      · cases hstep
      · obtain ⟨r, -, hs⟩ := Option.map_eq_some_iff.1 hstep
        cases hs
        simp only
        unfold State.swept
        split
        · exact .inr ⟨_, rfl⟩
        · exact .inl rfl
  rcases hkeeps with heq | ⟨k, heq⟩
  · exact ⟨T, by rw [heq]; exact hT, hlate⟩
  · by_cases hk : i = k
    · subst hk
      exact ⟨s.clock, by rw [heq, Function.update_self], by omega⟩
    · exact ⟨T, by rw [heq, Function.update_of_ne hk]; exact hT, hlate⟩

/-- Once every relay has completed a sweep later than `r` and the window, no relay holds a tombstone requested at `r`
again, in every run that writes no expired tombstone. -/
theorem reaped_stays_gone (hsame : ∀ i, (env i).maxTtlSeconds = ttl) {clock : Datetime} {h h' : List (Event ι × Obs)}
    (hr : Run (step env trusts) (WritesNothingExpired ttl) (init clock) h s)
    (hr' : Run (step env trusts) (WritesNothingExpired ttl) s h' s') {r : Datetime} (hswept : ∀ i, Expired ttl s i r)
    (i : ι) (sig : Str) {row : DeletionRequest} (hrow : (s'.relays.node i).request sig = some row) :
    row.requestedAt ≠ r.isoformat := by
  have hinv : Inv ttl s := hr.inv (Inv ttl) (inv_init ttl clock) fun _ _ _ _ h hok hstep => inv_step hsame h hok hstep
  have hboth : Inv ttl s' ∧ Expired ttl s' i r := by
    refine hr'.inv (fun s => Inv ttl s ∧ Expired ttl s i r) ⟨hinv, hswept i⟩ ?_
    rintro s₁ e₁ s₂ o₁ ⟨h₁, hexp⟩ hok hstep
    exact ⟨inv_step hsame h₁ hok hstep, expired_step h₁ hexp hstep⟩
  obtain ⟨t, hat, hfresh⟩ := hboth.1.rows i sig row hrow
  rw [hat]
  intro heq
  rw [Datetime.isoformat_injective heq] at hfresh
  exact hfresh hboth.2

end

/-! ## Two relays that pull from each other -/

def mesh : System (State Bool) (Event Bool) Obs := step (fun _ => Sample.config) fun _ _ => true

/-- Thirty-one days after noon of 2 January. -/
def afterTtl : Datetime := .ofFields 2026 2 2 12 0 0 0 (by decide)

/-- Relay `i` holds a tombstone of the message, requested at noon of 2 January. -/
def holds (s : State Bool) (i : Bool) : Bool :=
  ((s.relays.node i).request (lit "c2ln")).any fun row => row.requestedAt = Sample.noon.isoformat

/-- Relay `i` has swept later than the window after that. -/
def reaped (s : State Bool) (i : Bool) : Bool :=
  (s.lastSweep i).any fun t => (Sample.noon.toMicros : Int) + 2592000 * 1000000 < t.toMicros

/-- The relay that would write a tombstone has not swept. -/
def writesBeforeSweep (s : State Bool) : Event Bool → Bool
  | .item j _ _ => (s.lastSweep j).isNone
  | .ingest i _ _ _ _ | .delete i _ _ => (s.lastSweep i).isNone
  | _ => true

theorem expired_of_reaped {s : State Bool} {i : Bool} (h : reaped s i = true) : Expired 2592000 s i Sample.noon := by
  obtain ⟨t, ht, hlate⟩ := (Option.any_eq_true _ _).1 h
  exact ⟨t, ht, of_decide_eq_true hlate⟩

theorem writesBeforeSweep_ok (s : State Bool) (e : Event Bool) (h : writesBeforeSweep s e = true) :
    WritesNothingExpired 2592000 s e := by
  have hnone : ∀ {i : Bool} {t : Datetime}, (s.lastSweep i).isNone = true → ¬ Expired 2592000 s i t := by
    rintro i t hi ⟨T, hT, -⟩
    rw [hT] at hi
    cases hi
  cases e with
  | item j i gate => exact fun _ _ _ _ _ _ _ _ => hnone h
  | ingest i path p gate identityGate => exact hnone h
  | delete i p gate => exact hnone h
  | tick t => trivial
  | sweep i now => trivial
  | request j i => trivial
  | save j i => trivial
  | restart i => trivial

/-- Relay `true` deletes a message at noon. -/
def deleting : List (Event Bool) :=
  [.ingest true .publish (Sample.payload (lit "c2ln")) true true,
    .delete true (Sample.deletePayload (lit "c2ln") Sample.ownerKey) .pass]

/-- Relay `j` pulls from the other `n` items. -/
def pulling (j : Bool) (n : Nat) : List (Event Bool) :=
  [.request j !j] ++ List.replicate n (.item j (!j) true) ++ [.save j !j]

/-- A tombstone that both relays hold is reaped by both, and no pull brings it back. -/
theorem reaped_stays_gone_pulled : ∃ h t h₁ s h₂ s', Run mesh (WritesNothingExpired 2592000) (init Sample.noon) h t ∧
    holds t true = true ∧ holds t false = true ∧ Run mesh (WritesNothingExpired 2592000) t h₁ s ∧
    (∀ i, Expired 2592000 s i Sample.noon) ∧ Run mesh (WritesNothingExpired 2592000) s h₂ s' ∧
    ∀ i sig row, (s'.relays.node i).request sig = some row → row.requestedAt ≠ Sample.noon.isoformat := by
  let sweeps : List (Event Bool) := [.tick afterTtl, .sweep true afterTtl, .sweep false afterTtl]
  let pulls : List (Event Bool) := [.restart true] ++ pulling true 0
  obtain ⟨h, t, ht, hp⟩ := exists_run mesh writesBeforeSweep
    (fun t _ => holds t true && holds t false && (exec mesh writesBeforeSweep t sweeps).any fun r =>
      reaped r.1 true && reaped r.1 false && (exec mesh writesBeforeSweep r.1 pulls).isSome)
    (init Sample.noon) (deleting ++ pulling false 1) (by decide +kernel)
  simp only [Bool.and_eq_true, Option.any_eq_true, Option.isSome_iff_exists] at hp
  obtain ⟨⟨hheld, hheld'⟩, ⟨s, h₁⟩, hsweeps, ⟨htrue, hfalse⟩, ⟨s', h₂⟩, hpulls⟩ := hp
  have hfirst := ht.mono writesBeforeSweep_ok
  have hsecond := (exec_run hsweeps).mono writesBeforeSweep_ok
  have hthird := (exec_run hpulls).mono writesBeforeSweep_ok
  have hswept : ∀ i, Expired 2592000 s i Sample.noon := by
    intro i
    cases i with
    | true => exact expired_of_reaped htrue
    | false => exact expired_of_reaped hfalse
  exact ⟨h, t, h₁, s, h₂, s', hfirst, hheld, hheld', hsecond, hswept, hthird, fun i sig row hrow =>
    reaped_stays_gone (fun _ => rfl) (hfirst.trans hsecond) hthird hswept i sig hrow⟩

/-- Relay `false` sweeps, adopts the expired tombstone from relay `true`, which then sweeps: both have swept later than
the window, and relay `false` holds it. -/
theorem reaped_comes_back : ∃ h s, Run mesh Any (init Sample.noon) h s ∧
    (∀ i, Expired 2592000 s i Sample.noon) ∧ holds s false = true := by
  obtain ⟨h, s, hr, hp⟩ := exists_any_run mesh (fun s _ => reaped s true && reaped s false && holds s false)
    (init Sample.noon) (deleting ++ [.tick afterTtl, .sweep false afterTtl] ++ pulling false 1 ++ [.sweep true afterTtl])
    (by decide +kernel)
  simp only [Bool.and_eq_true] at hp
  obtain ⟨⟨htrue, hfalse⟩, hholds⟩ := hp
  refine ⟨h, s, hr, ?_, hholds⟩
  intro i
  cases i with
  | true => exact expired_of_reaped htrue
  | false => exact expired_of_reaped hfalse

end AetherNode.Reaping
