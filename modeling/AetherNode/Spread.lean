import AetherNode.Convergence
import AetherNode.Erasure
import AetherNode.Routes
/-!
# Deletions between two relays, byte by byte

A relay is sent anything at all; another is too, and pulls the tombstones of
the first in rounds of its own, at any time and through its limiter. What its
cursor has passed is erased there (`deletions_spread`): no order of requests,
sweeps, restarts and rounds makes the cursor pass over a tombstone.
-/
open AetherNode.Lib AetherNode.Lib.Json AetherNode.Lib.JsonText AetherNode.Lib.JsonScan AetherNode.Lib.Reread
  AetherNode.Protocol AetherNode.RateLimit AetherNode.Server AetherNode.Hops AetherNode.Served AetherNode.Node AetherNode.Answers
  AetherNode.Deletable AetherNode.Client AetherNode.Delivery AetherNode.Routes AetherNode.Erasure

namespace AetherNode.Spread

/-! ## One tombstone -/

/-- The signature is erased. -/
def Gone (sig : Str) (db : Db) : Prop := ∃ row, row.targetSignature = sig ∧ Erased row db

/-- What is erased stays so, and nothing is stored under a tombstone. -/
structure Grows (db db' : Db) : Prop where
  erased : ∀ row, Erased row db → Erased row db'
  clean : Clean db'

section
variable {env : Env} {db db' db'' : Db} {r : Nat × DeletionRequest}

theorem Grows.trans (h : Grows db db') (h' : Grows db' db'') : Grows db db'' :=
  ⟨fun row hrow => h'.erased row (h.erased row hrow), h'.clean⟩

theorem Gone.grows {sig : Str} (h : Gone sig db) (hgrows : Grows db db') : Gone sig db' := by
  obtain ⟨row, hsig, herased⟩ := h
  exact ⟨row, hsig, hgrows.erased row herased⟩

theorem gone_of_confirmed {sig : Str} (hclean : Clean db) (hconfirmed : db.confirmed sig = true) : Gone sig db := by
  obtain ⟨row, hrow, hrc⟩ := Db.confirmed_iff.1 hconfirmed
  have hkey : row.targetSignature = sig := Table.lookup_key hrow
  subst hkey
  refine ⟨row, rfl, ?_, hrow, hrc⟩
  cases hm : db.message row.targetSignature with
  | none => rfl
  | some m => exact absurd ⟨⟨m, hm⟩, hconfirmed⟩ (hclean row.targetSignature)

/-- The columns of a served tombstone bind where it is pulled. -/
theorem served_binds (env : Env) (htext : TextRow r.2) (now : Datetime) :
    ∃ row, pulledTombstone env now (Gossip.deletionItem r) r.2.targetSignature = .ok row := by
  refine Adoption.pulledTombstone_iff.2 ⟨⟨_, bindText_str htext.requesterPubkey.1⟩, ⟨_, bindText_str htext.requesterRecipientId.1⟩, ?_⟩
  have hget : (Gossip.deletionItem r).get (lit "requested_at") = some (.str r.2.requestedAt) := rfl
  rw [getOr, hget]
  dsimp only
  split
  · exact ⟨_, bindText_str htext.requestedAt.1⟩
  · exact ⟨_, bindText_str (isText_isoformat now).1⟩

/-- It is applied where it is pulled, if it is not there already. -/
theorem applyPulledDeletion_served (env : Env) (htext : TextRow r.2) (hclean : Clean db) (now : Datetime) :
    ∃ db' new, applyPulledDeletion env now (Gossip.deletionItem r) r.2.targetSignature db = (db', .ok new) ∧
      Gone r.2.targetSignature db' ∧ Grows db db' := by
  cases hconfirmed : db.confirmed r.2.targetSignature with
  | true =>
    refine ⟨db, false, ?_, gone_of_confirmed hclean hconfirmed, fun _ h => h, hclean⟩
    simp [applyPulledDeletion, htext.targetSignature.1, hconfirmed]
  | false =>
    obtain ⟨row, hrow⟩ := served_binds env htext now
    obtain ⟨-, -, -, htarget, hrc⟩ := bindTombstone_ok hrow
    refine ⟨db.bury row, true, ?_, ⟨row, htarget, ?_, ?_, hrc⟩, fun row' hrow' => hrow'.bury_other ?_, fun sig => ?_⟩
    · rw [pulledTombstone] at hrow
      simp [applyPulledDeletion, applyConfirmedDeletion, htext.targetSignature.1, hconfirmed, hrow]
    · exact (Db.message_bury _ _ _).trans (if_pos rfl)
    · exact (Db.request_bury _ _ _).trans (if_pos rfl)
    · intro hsame
      have hconfirmed' := hrow'.db_confirmed
      rw [hsame, htarget, hconfirmed] at hconfirmed'
      cases hconfirmed'
    · exact Finality.bury_clean (hclean sig)

end

/-! ## One round -/

/-- `>` compares integers as numbers. -/
def ComparesInts (interpreter : Interpreter) : Prop := ∀ a b : Int, interpreter.gt (.int a) (.int b) = decide (b < a)

/-- The limiter lets an item of the peer through. -/
def Admits (fingerprint : Str) (clock : Readings) (limiter : RateLimiter) : Prop :=
  (limiter.checkGlobal clock.checkGlobal).2 = true ∧
    ((limiter.checkGlobal clock.checkGlobal).1.checkIdentity clock.checkIdentity fingerprint).2 = true

/-- The tombstone is erased at the puller, if it is confirmed. -/
def Done (db : Db) (x : Nat × DeletionRequest) : Prop := x.2.confirmed = true → Gone x.2.targetSignature db

section
variable {env : Env} {interpreter : Interpreter} {n source : Process} {fingerprint : Str} {clock : Readings}
  {clocks : Nat → Readings} {rows rest : List (Nat × DeletionRequest)} {c m : Nat}

theorem Done.grows {db db' : Db} (hgrows : Grows db db') (x : Nat × DeletionRequest) (h : Done db x) : Done db' x :=
  fun hx => (h hx).grows hgrows

/-- An item of a served page stops the round at the limiter, or is passed. -/
theorem pullDeletion_served (env : Env) (fingerprint : Str) (hgt : ComparesInts interpreter) {r : Nat × DeletionRequest}
    (htext : TextRow r.2) (hclean : Clean n.server.db) (clock : Readings) (c : Nat) :
    (¬ Admits fingerprint clock n.gossipPullLimiter ∧ ∃ n',
      pullDeletion env interpreter fingerprint clock (.obj (Gossip.deletionItem r)) (.int c) n = (n', .stop) ∧ n'.server = n.server) ∨
    ∃ n', pullDeletion env interpreter fingerprint clock (.obj (Gossip.deletionItem r)) (.int c) n = (n', .seen (.int (max c r.1 : Nat))) ∧
      Gone r.2.targetSignature n'.server.db ∧ Grows n.server.db n'.server.db := by
  have htarget : Dict.get (Gossip.deletionItem r) (lit "target_signature") = some (.str r.2.targetSignature) := rfl
  have hid : Dict.get (Gossip.deletionItem r) (lit "id") = some (.int r.1) := rfl
  have hmax : maxOf interpreter (.int c) (.int r.1) = .seen (.int (max c r.1 : Nat)) := by
    have hcompare : interpreter.gt (.int r.1) (.int c) = decide (c < r.1) := by simp [hgt r.1 c]
    simp only [maxOf, Adoption.isNumber, if_true, hcompare]
    by_cases hlt : c < r.1
    · rw [if_pos (decide_eq_true hlt), Nat.max_eq_right (Nat.le_of_lt hlt)]
    · rw [if_neg (by simpa using hlt), Nat.max_eq_left (Nat.le_of_not_lt hlt)]
  obtain ⟨db', new, happly, hgone, hgrows⟩ := applyPulledDeletion_served env htext hclean clock.now
  unfold pullDeletion Admits
  simp only [htarget, hid, Option.getD_some, hmax]
  rcases n.gossipPullLimiter.checkGlobal clock.checkGlobal with ⟨limiter, _ | _⟩
  · exact .inl ⟨by simp, _, rfl, rfl⟩
  dsimp only
  rcases limiter.checkIdentity clock.checkIdentity fingerprint with ⟨limiter', _ | _⟩
  · exact .inl ⟨by simp, _, rfl, rfl⟩
  refine .inr ?_
  simp only [happly]
  exact ⟨_, rfl, hgone, hgrows⟩

/-- What a round from the cursor `c` to `c'` leaves. -/
structure Passed (rows : List (Nat × DeletionRequest)) (n n' : Process) (c c' : Nat) : Prop where
  le : c ≤ c'
  covered : Cursor.Covered rows (Done n'.server.db) c'
  grows : Grows n.server.db n'.server.db

/-- The loop over a served page ends without an exception, and all up to its cursor is erased. -/
theorem pullItems_served (env : Env) (fingerprint : Str) (clocks : Nat → Readings) (hgt : ComparesInts interpreter) (hsound : Cursor.Page.Sound rows (Done n.server.db) ⟨c, rest⟩)
    (hwithin : Cursor.Page.Within m ⟨c, rest⟩) (htexts : ∀ r ∈ rest, TextRow r.2) (hclean : Clean n.server.db) (k : Nat) :
    ∃ n' c', pullItems (pullDeletion env interpreter fingerprint) clocks k (.int c)
        (rest.map fun r => .obj (Gossip.deletionItem r)) n = (n', .ok (.int (c' : Nat))) ∧
      Passed rows n n' c c' ∧ c' ≤ m ∧
      ∀ r ∈ rest.head?, Admits fingerprint (clocks k) n.gossipPullLimiter → r.1 ≤ c' := by
  induction rest generalizing k c n with
  | nil => exact ⟨n, c, rfl, ⟨le_rfl, hsound.passed, fun _ h => h, hclean⟩, hwithin.maxId, by simp⟩
  | cons r rest ih =>
    obtain ⟨htext, hrest⟩ := List.forall_mem_cons.1 htexts
    rw [List.map_cons, pullItems]
    rcases pullDeletion_served env fingerprint hgt htext hclean (clocks k) c with
      ⟨hrefused, n', hstop, hserver⟩ | ⟨n', hseen, hgone, hgrows⟩
    · rw [hstop]
      refine ⟨_, c, rfl, ⟨le_rfl, ?_, ?_⟩, hwithin.maxId, ?_⟩
      · rw [Process.settle_server, hserver]
        exact hsound.passed
      · rw [Process.settle_server, hserver]
        exact ⟨fun _ h => h, hclean⟩
      · exact fun _ _ hadmits => absurd hadmits hrefused
    · rw [hseen]
      have hsound' := (hsound.mono (Done.grows hgrows)).pass fun _ => hgone
      -- The commit leaves the tables as they are.
      obtain ⟨n'', c', hloop, hpassed, hle, -⟩ :=
        ih (n := n'.settle (commits n.server.db n'.server.db)) hsound' hwithin.pass hrest hgrows.clean (k + 1)
      have hfirst := hpassed.le
      refine ⟨n'', c', hloop, ⟨by omega, hpassed.covered, hgrows.trans hpassed.grows⟩, hle, ?_⟩
      simp only [List.head?_cons, Option.mem_some_iff]
      rintro _ rfl -
      omega

/-- A page of tombstones has texts for its columns. -/
theorem texts_of_page (hkept : Kept env interpreter.toPlatform source.server.db) (c : Nat) :
    ∀ r ∈ Gossip.deletionRows source.server.db c, TextRow r.2 := by
  intro r hr
  obtain ⟨hrow, -, hconfirmed⟩ := Gossip.mem_of_pageRows hr
  exact hkept.texts r hrow hconfirmed

/-- A round against a relay: where the page is too long for a body, the puller is as it was; otherwise the round is saved,
under a cursor up to which every tombstone is erased, and which has moved if the limiter lets the first one through. -/
theorem round_served (hreads : Reads interpreter.toPlatform) (hgt : ComparesInts interpreter)
    (hkept : Kept env interpreter.toPlatform source.server.db) (hseq : source.server.db.deletionRequests.seq < 2 ^ 63)
    (hcursor : n.lastSeenDeletionId fingerprint = .int c) (hle : c ≤ source.server.db.deletionRequests.seq)
    (hcovered : Cursor.Covered source.server.db.deletionRequests.rows (Done n.server.db) c) (hclean : Clean n.server.db)
    (env' : Env) (clocks : Nat → Readings) :
    let r := syncDeletionsWithPeer env' interpreter fingerprint clocks (delivered (getDeletions interpreter.toPlatform c source.server)) n
    (¬ Short (deletionsPage source.server c) ∧ r.1 = n) ∨
      r.2 = .saved ∧ ∃ c' : Nat, r.1.lastSeenDeletionId fingerprint = .int c' ∧
        Passed source.server.db.deletionRequests.rows n r.1 c c' ∧ c' ≤ source.server.db.deletionRequests.seq ∧
        ∀ x ∈ (Gossip.deletionRows source.server.db c).head?, Admits fingerprint (clocks 0) n.gossipPullLimiter → c < c' := by
  obtain ⟨hshort, hlong⟩ := deletions_round env' hreads hkept hseq hcursor clocks
  dsimp only
  have hbinds : c < 2 ^ 63 := Nat.lt_of_le_of_lt hle hseq
  by_cases hfits : Short (deletionsPage source.server c)
  · refine .inr ?_
    rw [hshort ⟨hbinds, hfits⟩]
    have hsound : Cursor.Page.Sound source.server.db.deletionRequests.rows (Done n.server.db)
        ⟨c, Gossip.deletionRows source.server.db c⟩ := by
      rw [Gossip.deletionRows, Gossip.pageRows_eq_window]
      refine Cursor.sound_window source.server.db.deletionRequests.sorted ?_ hcovered
      intro x hx hconfirmed
      rw [hx] at hconfirmed
      cases hconfirmed
    have hwithin : Cursor.Page.Within source.server.db.deletionRequests.seq ⟨c, Gossip.deletionRows source.server.db c⟩ := by
      rw [Gossip.deletionRows, Gossip.pageRows_eq_window]
      exact Cursor.within_window hle source.server.db.deletionRequests.bounded _
    obtain ⟨n', c', hloop, hpassed, hbound, hfirst⟩ :=
      pullItems_served env' fingerprint clocks hgt hsound hwithin (texts_of_page hkept c) hclean 0
    rw [takeItems, hloop]
    refine ⟨rfl, c', if_pos rfl, ⟨hpassed.le, hpassed.covered, hpassed.grows⟩, hbound, fun x hx hadmits => ?_⟩
    have habove := (Gossip.mem_of_pageRows (List.mem_of_mem_head? hx)).2.1
    exact Nat.lt_of_lt_of_le habove (hfirst x hx hadmits)
  · exact .inl ⟨hfits, (hlong fun h => hfits h.2).1⟩

end

/-! ## The two relays -/

/-- A relay, and one that pulls its deletions. -/
structure Pair where
  source : Process
  puller : Process

/-- Any event at either relay, or a round of `_sync_deletions_with_peer` at the puller against the source. -/
inductive Event
  | source (e : Node.Event)
  | puller (e : Node.Event)
  | round (time : ℚ) (clocks : Nat → Readings)

/-- The puller knows the source by this fingerprint. -/
def step (sourceEnv env : Env) (interpreter : Interpreter) (fingerprint : Str) : System Pair Event Node.Obs := fun s e =>
  match e with
  | .source e => (Node.step sourceEnv interpreter s.source e).map fun r => (⟨r.1, s.puller⟩, r.2)
  | .puller e => (Node.step env interpreter s.puller e).map fun r => (⟨s.source, r.1⟩, r.2)
  | .round time clocks =>
    match s.puller.lastSeenDeletionId fingerprint with
    | .int sinceId =>
      let reply := delivered (getDeletions interpreter.toPlatform sinceId.toNat s.source.server)
      (Node.step env interpreter s.puller (.syncDeletionsWithPeer time fingerprint clocks reply)).map fun r => (⟨s.source, r.1⟩, r.2)
    | _ => none

/-- Under the fingerprint the puller hears from the source only, no sweep of the puller reaps a tombstone, and the source
has not run out of ids. -/
def Heeds (env : Env) (interpreter : Interpreter) (fingerprint : Str) (s : Pair) : Event → Prop
  | .source _ => True
  | .puller e => (∀ time clocks reply, e ≠ .syncDeletionsWithPeer time fingerprint clocks reply) ∧
    ∀ row, Erased row s.puller.server.db → Outlasts env interpreter row.requestedAt s.puller e
  | .round _ _ => s.source.server.db.deletionRequests.seq < 2 ^ 63

/-- Two relays with empty tables. -/
def begin (sourceLimits pullerLimits : Limits × Limits × Limits) (time : ℚ) : Pair :=
  ⟨start .empty sourceLimits.1 sourceLimits.2.1 sourceLimits.2.2 time, start .empty pullerLimits.1 pullerLimits.2.1 pullerLimits.2.2 time⟩

/-- A history that leads from empty tables to the relay. -/
def Reached (env : Env) (interpreter : Interpreter) (limits : Limits × Limits × Limits) (time : ℚ) (n : Process) : Prop :=
  ∃ h, NodeRun env interpreter limits.1 limits.2.1 limits.2.2 time h n

/-- Each relay has a history of its own, and what the cursor of the puller has passed is erased there. -/
structure Sound (sourceEnv env : Env) (interpreter : Interpreter) (fingerprint : Str) (sourceLimits pullerLimits : Limits × Limits × Limits)
    (time : ℚ) (s : Pair) : Prop where
  source : Reached sourceEnv interpreter sourceLimits time s.source
  puller : Reached env interpreter pullerLimits time s.puller
  cursor : ∃ c : Nat, s.puller.lastSeenDeletionId fingerprint = .int c ∧ c ≤ s.source.server.db.deletionRequests.seq ∧
    Cursor.Covered s.source.server.db.deletionRequests.rows (Done s.puller.server.db) c

/-! ### What an event leaves -/

section
variable {env : Env} {interpreter : Interpreter} {n n' : Process} {fingerprint : Str} {clock : Readings} {e : Node.Event} {o : Node.Obs}

theorem pullMessage_cursor (item maxId : Json) :
    (pullMessage env interpreter fingerprint clock item maxId n).1.lastSeenDeletionId = n.lastSeenDeletionId := by
  unfold pullMessage
  split
  · rename_i item
    split
    · rfl
    · rename_i p hp
      rcases pullPayload_cases fingerprint item p maxId with ⟨limiter, h | h⟩ <;> rw [h]
    · rfl
  · rfl

theorem pullDeletion_cursor (item maxId : Json) :
    (pullDeletion env interpreter fingerprint clock item maxId n).1.lastSeenDeletionId = n.lastSeenDeletionId := by
  obtain ⟨limiter, h | ⟨p, -, h⟩⟩ := pullDeletion_cases fingerprint item maxId <;> rw [h]

/-- A round leaves the cursor of another peer. -/
theorem syncPage_cursor {name : Str} {pull : Readings → Json → Json → Process → Process × Pulled} {save : Json → Process → Process}
    {clocks : Nat → Readings} (hpull : ∀ clock item maxId n, (pull clock item maxId n).1.lastSeenDeletionId = n.lastSeenDeletionId)
    (hsave : ∀ maxId n, (save maxId n).lastSeenDeletionId fingerprint = n.lastSeenDeletionId fingerprint) (sinceId : Json)
    (reply : Reply) (n : Process) :
    (syncPage interpreter name pull save clocks sinceId reply n).1.lastSeenDeletionId fingerprint =
      n.lastSeenDeletionId fingerprint :=
  syncPage_rel (R := fun n n' => n'.lastSeenDeletionId fingerprint = n.lastSeenDeletionId fingerprint) (fun _ => rfl)
    (fun h h' => h'.trans h) (fun k item maxId n _ => congrFun (hpull (clocks k) item maxId n) fingerprint)
    (fun maxId _ n' h => (hsave maxId n').trans h) sinceId n

/-- Whatever is not a round of the source leaves the cursor, or takes it back to the start. -/
theorem step_cursor (hother : ∀ time clocks reply, e ≠ .syncDeletionsWithPeer time fingerprint clocks reply)
    (hstep : Node.step env interpreter n e = some (n', o)) :
    n'.lastSeenDeletionId fingerprint = n.lastSeenDeletionId fingerprint ∨ n'.lastSeenDeletionId fingerprint = .int 0 := by
  have hhandle := (step_eq hstep).2
  cases e with
  | post h header stream clock =>
    obtain ⟨rfl, -⟩ := Prod.mk.inj hhandle
    exact .inl rfl
  | syncWithPeer time fingerprint' clocks reply =>
    obtain ⟨rfl, -⟩ := Prod.mk.inj hhandle
    refine .inl (syncPage_cursor ?_ ?_ _ reply n)
    · exact fun _ item maxId _ => pullMessage_cursor item maxId
    · exact fun _ _ => rfl
  | syncDeletionsWithPeer time fingerprint' clocks reply =>
    obtain ⟨rfl, -⟩ := Prod.mk.inj hhandle
    have hne : fingerprint ≠ fingerprint' := by
      rintro rfl
      exact hother _ _ _ rfl
    refine .inl (syncPage_cursor ?_ ?_ _ reply n)
    · exact fun _ item maxId _ => pullDeletion_cursor item maxId
    · exact fun _ _ => if_neg hne
  | sweep time now cutoffNow =>
    obtain ⟨rfl, -⟩ := Prod.mk.inj hhandle
    exact .inl rfl
  | restart time client push pull =>
    obtain ⟨rfl, -⟩ := Prod.mk.inj hhandle
    exact .inr rfl

/-- The tombstones of a relay evolve, across a restart too: they are committed. -/
theorem step_evolves (hreads : Reads interpreter.toPlatform) {limits : Limits × Limits × Limits} {time : ℚ}
    (hreached : Reached env interpreter limits time n) (hstep : Node.step env interpreter n e = some (n', o)) :
    n.server.db.deletionRequests.Evolves n'.server.db.deletionRequests := by
  obtain ⟨h, hrun⟩ := hreached
  have hrequests := (node_behind hreads.stable hreads.decodes hrun).deletionRequests
  have hboth : n.server.db.deletionRequests.Evolves n.server.db.deletionRequests ∧
      n.server.db.deletionRequests.Evolves n.committed.deletionRequests := by
    rw [hrequests]
    exact ⟨.refl _, .refl _⟩
  refine (event_inv (P := fun db => n.server.db.deletionRequests.Evolves db.deletionRequests) hreads ?_ hboth hstep).1
  exact fun _ _ _ _ hevolves _ _ hstep => hevolves.trans (Convergence.atomic_requests hstep)

theorem Reached.step {limits : Limits × Limits × Limits} {time : ℚ} (hreached : Reached env interpreter limits time n)
    (hstep : Node.step env interpreter n e = some (n', o)) : Reached env interpreter limits time n' := by
  obtain ⟨h, hrun⟩ := hreached
  exact ⟨_, hrun.snoc trivial hstep⟩

theorem Reached.clean (hreads : Reads interpreter.toPlatform) {limits : Limits × Limits × Limits} {time : ℚ}
    (hreached : Reached env interpreter limits time n) : Clean n.server.db := by
  obtain ⟨h, hrun⟩ := hreached
  exact (clean_node hreads hrun).1

theorem Reached.kept (hreads : Reads interpreter.toPlatform) (hreal : KeepsText env) {limits : Limits × Limits × Limits} {time : ℚ}
    (hreached : Reached env interpreter limits time n) : Kept env interpreter.toPlatform n.server.db := by
  obtain ⟨h, hrun⟩ := hreached
  exact kept_node hreads hreal hrun

/-- An event that reaps no tombstone lets the tables grow. -/
theorem Reached.grows (hreads : Reads interpreter.toPlatform) {limits : Limits × Limits × Limits} {time : ℚ}
    (hreached : Reached env interpreter limits time n)
    (houtlasts : ∀ row, Erased row n.server.db → Outlasts env interpreter row.requestedAt n e)
    (hstep : Node.step env interpreter n e = some (n', o)) : Grows n.server.db n'.server.db := by
  refine ⟨fun row hrow => ?_, (hreached.step hstep).clean hreads⟩
  obtain ⟨h, hrun⟩ := hreached
  exact (erased_event hreads ⟨hrow, hrow.committed hreads hrun⟩ (houtlasts row hrow) hstep).1

end

/-! ### Runs -/

section
variable {sourceEnv env : Env} {interpreter : Interpreter} {fingerprint : Str} {s s' : Pair} {e : Event} {o : Node.Obs} {time : ℚ}
  {clocks : Nat → Readings} {c : Nat} {sourceLimits pullerLimits : Limits × Limits × Limits} {start : ℚ}

theorem step_source {e : Node.Event} {n : Process} (h : Node.step sourceEnv interpreter s.source e = some (n, o)) :
    step sourceEnv env interpreter fingerprint s (.source e) = some (⟨n, s.puller⟩, o) := by
  simp only [step, h, Option.map_some]

theorem step_pulls {n : Process} (hcursor : s.puller.lastSeenDeletionId fingerprint = .int c)
    (h : Node.step env interpreter s.puller (.syncDeletionsWithPeer time fingerprint clocks
      (delivered (getDeletions interpreter.toPlatform c s.source.server))) = some (n, o)) :
    step sourceEnv env interpreter fingerprint s (.round time clocks) = some (⟨s.source, n⟩, o) := by
  simp only [step, hcursor, Int.toNat_natCast, h, Option.map_some]

/-- A round of the pair is one against the source. -/
theorem step_round (hreads : Reads interpreter.toPlatform) (hgt : ComparesInts interpreter)
    (hkept : Kept sourceEnv interpreter.toPlatform s.source.server.db) (hclean : Clean s.puller.server.db)
    (hseq : s.source.server.db.deletionRequests.seq < 2 ^ 63) (hcursor : s.puller.lastSeenDeletionId fingerprint = .int c)
    (hle : c ≤ s.source.server.db.deletionRequests.seq)
    (hcovered : Cursor.Covered s.source.server.db.deletionRequests.rows (Done s.puller.server.db) c)
    (hstep : step sourceEnv env interpreter fingerprint s (.round time clocks) = some (s', o)) :
    s'.source = s.source ∧
      ((¬ Short (deletionsPage s.source.server c) ∧ s'.puller.lastSeenDeletionId = s.puller.lastSeenDeletionId ∧
          s'.puller.server = s.puller.server) ∨
        ∃ c' : Nat, s'.puller.lastSeenDeletionId fingerprint = .int c' ∧
          Passed s.source.server.db.deletionRequests.rows s.puller s'.puller c c' ∧ c' ≤ s.source.server.db.deletionRequests.seq ∧
          ∀ x ∈ (Gossip.deletionRows s.source.server.db c).head?, Admits fingerprint (clocks 0) s.puller.gossipPullLimiter → c < c') := by
  simp only [step, hcursor, Int.toNat_natCast] at hstep
  obtain ⟨⟨n', o'⟩, hnode, heq⟩ := Option.map_eq_some_iff.1 hstep
  cases heq
  obtain ⟨rfl, -⟩ := Prod.mk.inj (step_eq hnode).2
  refine ⟨rfl, ?_⟩
  rcases round_served hreads hgt hkept hseq hcursor hle hcovered hclean env clocks with ⟨hlong, hsame⟩ | ⟨-, c', hsaved, hpassed, hbound, hmoves⟩
  · have hcursor' := congrArg Process.lastSeenDeletionId hsame
    have hserver := congrArg Process.server hsame
    exact .inl ⟨hlong, hcursor', hserver⟩
  · exact .inr ⟨c', hsaved, ⟨hpassed.le, hpassed.covered, hpassed.grows⟩, hbound, hmoves⟩

theorem sound_step (hreads : Reads interpreter.toPlatform) (hreal : KeepsText sourceEnv) (hgt : ComparesInts interpreter)
    (hs : Sound sourceEnv env interpreter fingerprint sourceLimits pullerLimits start s)
    (hok : Heeds env interpreter fingerprint s e) (hstep : step sourceEnv env interpreter fingerprint s e = some (s', o)) :
    Sound sourceEnv env interpreter fingerprint sourceLimits pullerLimits start s' := by
  obtain ⟨c, hcursor, hle, hcovered⟩ := hs.cursor
  cases e with
  | source e =>
    obtain ⟨⟨n', o'⟩, hnode, heq⟩ := Option.map_eq_some_iff.1 hstep
    cases heq
    have hevolves := step_evolves hreads hs.source hnode
    refine ⟨hs.source.step hnode, hs.puller, c, hcursor, hle.trans hevolves.seq, hcovered.evolve fun x hx => ?_⟩
    exact (hevolves.rows x hx).imp_right (Nat.lt_of_le_of_lt hle)
  | puller e =>
    obtain ⟨⟨n', o'⟩, hnode, heq⟩ := Option.map_eq_some_iff.1 hstep
    cases heq
    have hgrows := hs.puller.grows hreads hok.2 hnode
    refine ⟨hs.source, hs.puller.step hnode, ?_⟩
    rcases step_cursor hok.1 hnode with hsame | hzero
    · exact ⟨c, hsame.trans hcursor, hle, hcovered.mono (Done.grows hgrows)⟩
    · -- After a restart the puller begins again.
      refine ⟨0, hzero, Nat.zero_le _, fun x hx hx0 => ?_⟩
      have hpos := s.source.server.db.deletionRequests.positive x hx
      omega
  | round time clocks =>
    have hpuller : Reached env interpreter pullerLimits start s'.puller := by
      have hround := hstep
      simp only [step, hcursor] at hround
      obtain ⟨⟨n', o'⟩, hnode, heq⟩ := Option.map_eq_some_iff.1 hround
      cases heq
      exact hs.puller.step hnode
    obtain ⟨hsource, ⟨-, hsame, hserver⟩ | ⟨c', hsaved, hpassed, hbound, -⟩⟩ :=
      step_round hreads hgt (hs.source.kept hreads hreal) (hs.puller.clean hreads) hok hcursor hle hcovered hstep
    · refine ⟨hsource ▸ hs.source, hpuller, c, ?_, hsource ▸ hle, ?_⟩
      · rw [hsame, hcursor]
      · rw [hsource, hserver]
        exact hcovered
    · refine ⟨hsource ▸ hs.source, hpuller, c', hsaved, hsource ▸ hbound, ?_⟩
      rw [hsource]
      exact hpassed.covered

theorem sound_begin (sourceLimits pullerLimits : Limits × Limits × Limits) (time : ℚ) :
    Sound sourceEnv env interpreter fingerprint sourceLimits pullerLimits time (begin sourceLimits pullerLimits time) where
  source := ⟨[], .nil⟩
  puller := ⟨[], .nil⟩
  cursor := ⟨0, rfl, le_rfl, fun _ hx => by cases hx⟩

/-- Whatever is sent to two relays, and however the rounds come in between, what the cursor
of the puller has passed is erased there; where the page above the cursor is empty, that is every confirmed tombstone of
the source. And a round against a page that fits moves the cursor, if the limiter lets one item through. -/
theorem deletions_spread (hreads : Reads interpreter.toPlatform) (hreal : KeepsText sourceEnv) (hgt : ComparesInts interpreter)
    {sourceLimits pullerLimits : Limits × Limits × Limits} {h : List (Event × Node.Obs)}
    (hrun : Run (step sourceEnv env interpreter fingerprint) (Heeds env interpreter fingerprint)
      (begin sourceLimits pullerLimits time) h s) :
    ∃ c : Nat, s.puller.lastSeenDeletionId fingerprint = .int c ∧
      (∀ x ∈ s.source.server.db.deletionRequests.rows, x.2.confirmed = true →
        x.1 ≤ c ∨ Gossip.deletionRows s.source.server.db c = [] →
          s.puller.server.db.message x.2.targetSignature = none ∧ s.puller.server.db.confirmed x.2.targetSignature = true) ∧
      ∀ time clocks s' o, step sourceEnv env interpreter fingerprint s (.round time clocks) = some (s', o) →
        s.source.server.db.deletionRequests.seq < 2 ^ 63 → Short (deletionsPage s.source.server c) →
        Gossip.deletionRows s.source.server.db c ≠ [] → Admits fingerprint (clocks 0) s.puller.gossipPullLimiter →
          ∃ c' : Nat, s'.puller.lastSeenDeletionId fingerprint = .int c' ∧ c < c' := by
  have hs : Sound sourceEnv env interpreter fingerprint sourceLimits pullerLimits time s :=
    hrun.inv _ (sound_begin sourceLimits pullerLimits time) fun _ _ _ _ hs hok hstep => sound_step hreads hreal hgt hs hok hstep
  obtain ⟨c, hcursor, hle, hcovered⟩ := hs.cursor
  refine ⟨c, hcursor, fun x hx hconfirmed hpast => ?_, ?_⟩
  · have hdone : Done s.puller.server.db x := by
      rcases hpast with hpast | hnil
      · exact hcovered x hx hpast
      · rw [Gossip.deletionRows, Gossip.pageRows_eq_window] at hnil
        refine Cursor.done_of_window_nil (by decide) ?_ hcovered hnil x hx
        intro y hy hyc
        rw [hy] at hyc
        cases hyc
    obtain ⟨row, hsig, herased⟩ := hdone hconfirmed
    rw [← hsig]
    exact ⟨herased.gone, herased.db_confirmed⟩
  · intro time clocks s' o hstep hseq hshort hne hadmits
    obtain ⟨-, ⟨hlong, -⟩ | ⟨c', hsaved, -, -, hmoves⟩⟩ :=
      step_round hreads hgt (hs.source.kept hreads hreal) (hs.puller.clean hreads) hseq hcursor hle hcovered hstep
    · exact absurd hshort hlong
    · exact ⟨c', hsaved, hmoves _ (List.head?_eq_some_head hne) hadmits⟩

/-! ### A sample pair -/

/-- Numbers that are integers are compared. -/
def pairInterpreter : Interpreter where
  toPlatform := .usual
  gt a b :=
    match a, b with
    | .int a, .int b => decide (b < a)
    | _, _ => false

def sampleErased : Process := (handle sampleEnv pairInterpreter samplePosted sampleDeletes).1

def sampleTombstone : DeletionRequest :=
  ⟨sampleSent.text (lit "signature"), pubkeyToB64 sampleRecipient.toPrivateKey, sampleSent.text (lit "recipient_id"), true,
    noonReadings.now.isoformat⟩

theorem sampleErased_step :
    Node.step sampleEnv pairInterpreter samplePosted sampleDeletes = some (sampleErased, .post sampleDeleted) := by
  have hallowed : sampleDeletes.restarts = true ∨ samplePosted.clock ≤ sampleDeletes.time := .inr (le_of_eq samplePosted_server.1)
  rw [step_of hallowed, sampleErased, sampleDeletes, deletes, handle_posting, sampleDeleted]
  rfl

theorem sampleErased_db : sampleErased.server.db = sampleIngest.1.bury sampleTombstone := by
  have hv : sampleEnv.verifier = rsaVerifier fun _ _ _ => true := rfl
  have hkey : sampleRecipient.toPrivateKey.Accepted fun _ _ _ => true := fun _ _ => rfl
  obtain ⟨htarget, hlength⟩ := posted_signature sample_sizes sampleSent_eq
  have howns := posted_owned (b64decode_b64encode sampleRecipient.publicDer_bytes) sampleSent_eq (by decide) le_rfl sample_live
    sampleIds_eq
  have hpassed : doDelete sampleEnv Sample.noon .pass
      (buildDeletePayload sampleRecipient.toPrivateKey (sampleSent.text (lit "signature")) Sample.noon []) samplePosted.server.db = _ :=
    doDelete_owner hv hkey htarget.isText hlength samplePosted_holds.1 howns
  have hfits : (body sampleRecipient.toPrivateKey (sampleSent.text (lit "signature")) Sample.noon []).length ≤ maxBodyBytes :=
    body_fits sample_large htarget hlength.2
  have hanswer := postDelete_eq sampleEnv reads_usual htarget.isText hfits noonReadings samplePosted.server
  have hnow : noonReadings.now = Sample.noon := rfl
  rw [samplePosted_gate, hnow, hpassed] at hanswer
  obtain ⟨hdb, -⟩ := Prod.mk.inj hanswer
  have hserver : sampleErased.server = (postDelete sampleEnv .usual noonReadings
      (body sampleRecipient.toPrivateKey (sampleSent.text (lit "signature")) Sample.noon []) samplePosted.server).1 :=
    (deletes_eq sampleErased_step).1
  have hbury : samplePosted.server.db.bury sampleTombstone = sampleIngest.1.bury sampleTombstone := by rw [samplePosted_eq.1]
  rw [hserver, hdb]
  exact hbury

theorem sampleErased_seq : sampleErased.server.db.deletionRequests.seq = 1 := by
  rw [sampleErased_db]
  decide +kernel

theorem sampleErased_page : Short (deletionsPage sampleErased.server 0) ∧ Gossip.deletionRows sampleErased.server.db 0 ≠ [] := by
  unfold Short deletionsPage
  rw [sampleErased_db]
  decide +kernel

/-- A round against the relay that has erased the sample message. -/
def sampleRound : Node.Event :=
  .syncDeletionsWithPeer 0 (lit "peer") (fun _ => noonReadings) (delivered (getDeletions .usual 0 sampleErased.server))

def samplePair : Pair := ⟨sampleErased, (handle sampleEnv pairInterpreter sampleStart sampleRound).1⟩

theorem samplePair_step : step sampleEnv sampleEnv pairInterpreter (lit "peer") ⟨sampleErased, sampleStart⟩
    (.round 0 fun _ => noonReadings) = some (samplePair, (handle sampleEnv pairInterpreter sampleStart sampleRound).2) := by
  have hallowed : sampleRound.restarts = true ∨ sampleStart.clock ≤ sampleRound.time := .inr le_rfl
  have hcursor : sampleStart.lastSeenDeletionId (lit "peer") = .int (0 : Nat) := rfl
  have hnode : Node.step sampleEnv pairInterpreter sampleStart sampleRound =
      some (samplePair.puller, (handle sampleEnv pairInterpreter sampleStart sampleRound).2) := by
    rw [step_of hallowed, samplePair]
  exact step_pulls hcursor hnode

theorem samplePosted_step : Node.step sampleEnv pairInterpreter sampleStart samplePosting =
    some (samplePosted, .post ⟨[⟨200, storedBody 1⟩], none⟩) := by
  have hallowed : samplePosting.restarts = true ∨ sampleStart.clock ≤ samplePosting.time := .inr le_rfl
  have hplatform : pairInterpreter.toPlatform = usualInterpreter.toPlatform := rfl
  refine Eq.trans ?_ samplePosted_eq.2
  rw [step_of hallowed, step_of hallowed, samplePosting, handle_posting, handle_posting, hplatform]

/-- The two posts at the source. -/
theorem sampleErased_run : ∃ h, Run (step sampleEnv sampleEnv pairInterpreter (lit "peer"))
    (Heeds sampleEnv pairInterpreter (lit "peer")) (begin (burst, burst, burst) (burst, burst, burst) 0) h
      ⟨sampleErased, sampleStart⟩ := by
  have hpublished : step sampleEnv sampleEnv pairInterpreter (lit "peer") ⟨sampleStart, sampleStart⟩ (.source samplePosting) =
      some (⟨samplePosted, sampleStart⟩, _) := step_source samplePosted_step
  have hdeleted : step sampleEnv sampleEnv pairInterpreter (lit "peer") ⟨samplePosted, sampleStart⟩ (.source sampleDeletes) =
      some (⟨sampleErased, sampleStart⟩, _) := step_source sampleErased_step
  have hheeds : ∀ s e, Heeds sampleEnv pairInterpreter (lit "peer") s (.source e) := fun _ _ => trivial
  exact ⟨_, (Run.nil.snoc (hheeds _ _) hpublished).snoc (hheeds _ _) hdeleted⟩

/-- The sample message is published at the one relay and deleted there, and one round takes its deletion to the other. -/
theorem deletions_spread_sample :
    ∃ h, Run (step sampleEnv sampleEnv pairInterpreter (lit "peer")) (Heeds sampleEnv pairInterpreter (lit "peer"))
        (begin (burst, burst, burst) (burst, burst, burst) 0) h samplePair ∧
      samplePair.puller.server.db.confirmed (sampleSent.text (lit "signature")) = true := by
  have hcompares : ComparesInts pairInterpreter := fun _ _ => rfl
  have hreads : Reads pairInterpreter.toPlatform := reads_usual
  obtain ⟨h, hrun⟩ := sampleErased_run
  have hseq : sampleErased.server.db.deletionRequests.seq < 2 ^ 63 := by
    rw [sampleErased_seq]
    decide
  -- Before the round the cursor is at the start, and the round moves it past the only tombstone.
  obtain ⟨c, hcursor, -, hmoves⟩ := deletions_spread hreads keepsText_sampleEnv hcompares hrun
  obtain rfl : c = 0 := by
    have hzero : (Json.int 0) = .int c := hcursor
    exact_mod_cast (Json.int.inj hzero).symm
  have hadmits : Admits (lit "peer") noonReadings (RateLimiter.new burst 0) := by
    unfold Admits
    decide +kernel
  have hmoved := hmoves _ _ _ _ samplePair_step
  dsimp only at hmoved
  obtain ⟨c', hsaved, hlt⟩ := hmoved hseq sampleErased_page.1 sampleErased_page.2 hadmits
  have hheeds : Heeds sampleEnv pairInterpreter (lit "peer") ⟨sampleErased, sampleStart⟩ (.round 0 fun _ => noonReadings) := by
    unfold Heeds
    dsimp only
    exact hseq
  have hrun' := hrun.snoc hheeds samplePair_step
  obtain ⟨c'', hcursor', hpassed, -⟩ := deletions_spread hreads keepsText_sampleEnv hcompares hrun'
  obtain rfl : c'' = c' := by exact_mod_cast Json.int.inj (hcursor'.symm.trans hsaved)
  have hrequest : sampleErased.server.db.request (sampleSent.text (lit "signature")) = some sampleTombstone := by
    rw [sampleErased_db]
    exact (Db.request_bury _ _ _).trans (if_pos rfl)
  obtain ⟨⟨id, hrow⟩, -⟩ := Table.lookup_eq_some.1 hrequest
  have hid := sampleErased.server.db.deletionRequests.bounded _ hrow
  rw [sampleErased_seq] at hid
  have hsource : samplePair.source = sampleErased := rfl
  rw [hsource] at hpassed
  have hpast : id ≤ c'' := Nat.le_trans hid (Nat.succ_le_of_lt (Nat.lt_of_le_of_lt (Nat.zero_le _) hlt))
  exact ⟨_, hrun', (hpassed _ hrow rfl (.inl hpast)).2⟩

end

end AetherNode.Spread
