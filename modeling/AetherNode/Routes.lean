import AetherNode.Answers
/-!
# From relay to relay

What a peer gets of a page that a relay serves, and of a body that a relay
pushes. A round against an honest relay goes through exactly when its page is
short enough and no payload in it is too deep. Over any number of legs a
payload arrives as after the first, and a relay that gets everything over
such routes does what the relay does that gets the originals.
-/
open AetherNode.Lib AetherNode.Lib.Json AetherNode.Lib.JsonText AetherNode.Lib.JsonScan AetherNode.Lib.Reread
  AetherNode.Protocol AetherNode.RateLimit AetherNode.Server AetherNode.Hops AetherNode.Served AetherNode.Node AetherNode.Answers

namespace AetherNode.Routes

/-! ## Rounds against a relay -/

/-- What comes of a request that a relay has handled; one that raises closes the connection. -/
def delivered : Ended → Reply
  | ⟨[r], none⟩ => .answered r.code (AntiEntropy.sendJson (dumpsDefault r.body))
  | _ => .failed

/-- The rest of a round on these items. -/
def takeItems (pull : Readings → Json → Json → Process → Process × Pulled) (save : Json → Process → Process) (clocks : Nat → Readings)
    (sinceId : Json) (items : List Json) (n : Process) : Process × RoundEnd :=
  match pullItems pull clocks 0 sinceId items n with
  | (n, .ok maxId) => (save maxId n, .saved)
  | (n, .error e) => (n, .raised e)

section
variable {interpreter : Interpreter} {pull : Readings → Json → Json → Process → Process × Pulled} {save : Json → Process → Process}
  {clocks : Nat → Readings} {sinceId : Json} {n : Process} {name : Str} {items : List Json}

/-- A page that arrives and is short enough is worked on item by item. -/
theorem syncPage_arrives {e : Ended} (hshort : Short (page name items)) (harrives : Arrives interpreter.toPlatform e (page name items)) :
    syncPage interpreter name pull save clocks sinceId (delivered e) n = takeItems pull save clocks sinceId items n := by
  obtain ⟨rfl, hloads⟩ := harrives
  have hitems : iterate ((Dict.get [(name, .arr items), (lit "count", .int items.length)] name).getD (.arr [])) = .ok items := by
    simp [Dict.get, iterate]
  simp only [syncPage, delivered, readBoundedResponse_short hshort, ne_eq, not_true_eq_false, if_false, hloads]
  rw [page]
  dsimp only
  rw [hitems]
  rfl

/-- A page that does not arrive, or is too long, leaves the puller as it was, and so does a handler that raises. -/
theorem syncPage_lost {e : Ended}
    (hsends : e = sendJson interpreter.toPlatform 200 (page name items) ∨ ∃ error, e = raises error)
    (hone : ∀ v, loads interpreter.decoder (encode (dumpsDefault (page name items))) = .ok v → v = page name items)
    (hlost : ¬ (Short (page name items) ∧ Arrives interpreter.toPlatform e (page name items))) :
    (syncPage interpreter name pull save clocks sinceId (delivered e) n).1 = n ∧
      (syncPage interpreter name pull save clocks sinceId (delivered e) n).2 ≠ .saved := by
  rcases hsends with rfl | ⟨error, rfl⟩
  swap
  · exact ⟨rfl, fun h => by cases h⟩
  unfold sendJson at hlost ⊢
  by_cases hdeep : nest (page name items) ≤ interpreter.encoderNesting
  · rw [if_pos hdeep] at hlost ⊢
    by_cases hshort : Short (page name items)
    · cases hloads : loads interpreter.decoder (encode (dumpsDefault (page name items))) with
      | ok v =>
        rw [hone v hloads] at hloads
        exact absurd ⟨hshort, rfl, hloads⟩ hlost
      | error e =>
        simp only [syncPage, delivered, readBoundedResponse_short hshort, ne_eq, not_true_eq_false, if_false, hloads]
        exact ⟨trivial, by simp⟩
    · obtain ⟨e, he⟩ := readBoundedResponse_long hshort
      simp only [syncPage, delivered, he]
      exact ⟨trivial, by simp⟩
  · rw [if_neg hdeep]
    exact ⟨rfl, fun h => by cases h⟩

end

section
variable {env env' : Env} {interpreter : Interpreter} {client push pull : Limits} {time : ℚ} {h : List (Node.Event × Node.Obs)}
  {source n : Process} {fingerprint : Str} {clocks : Nat → Readings} {c : Nat}

/-- `_sync_with_peer` against a relay, from the cursor `c`: where the cursor binds, the page is short and each of its
payloads has three levels to spare, the round works on what `hop` makes of the rows; everywhere else it leaves the puller
as it was. -/
theorem messages_round (hreads : Reads interpreter.toPlatform) (hreal : KeepsText env)
    (hrun : NodeRun env interpreter client push pull time h source) (hseq : source.server.db.messages.seq < 2 ^ 63)
    (hcursor : n.lastSeenId fingerprint = .int c) (clocks : Nat → Readings) :
    (c < 2 ^ 63 ∧ Short (messagesPage source.server c) ∧
        (∀ r ∈ Gossip.messageRows source.server.db c, Spares interpreter.toPlatform 3 r.2.payload) →
      syncWithPeer env' interpreter fingerprint clocks (delivered (getMessages interpreter.toPlatform c source.server)) n =
        takeItems (pullMessage env' interpreter fingerprint)
          (fun maxId n => { n with lastSeenId := fun f => if f = fingerprint then maxId else n.lastSeenId f }) clocks (.int c)
          ((Gossip.messageRows source.server.db c).map fun r => .obj (hopItem r)) n) ∧
    (¬ (c < 2 ^ 63 ∧ Short (messagesPage source.server c) ∧
        ∀ r ∈ Gossip.messageRows source.server.db c, Spares interpreter.toPlatform 3 r.2.payload) →
      (syncWithPeer env' interpreter fingerprint clocks (delivered (getMessages interpreter.toPlatform c source.server)) n).1 = n ∧
      (syncWithPeer env' interpreter fingerprint clocks (delivered (getMessages interpreter.toPlatform c source.server)) n).2 ≠ .saved) := by
  have hheard := (kept_node hreads hreal hrun).heard
  have harrives := messages_arrive_iff hreads.stable hreads.ascii hreads.nesting hseq hheard c
  rw [syncWithPeer, hcursor]
  constructor
  · rintro ⟨hbinds, hshort, hspares⟩
    exact syncPage_arrives hshort (harrives.2 ⟨hbinds, hspares⟩)
  · intro hlost
    apply syncPage_lost
    · by_cases hbinds : c < 2 ^ 63
      · exact .inl (getMessages_eq hheard hbinds)
      · exact .inr ⟨_, getMessages_unbound hbinds⟩
    · exact fun v hv => eq_messagesPage hreads.stable hreads.ascii hseq hheard hv
    · exact fun h => hlost ⟨(harrives.1 h.2).1, h.1, (harrives.1 h.2).2⟩

/-- A relay without rows pulls the message of the sample relay. -/
theorem messages_round_sample :
    syncWithPeer Sample.config usualInterpreter (lit "peer") (fun _ => noonReadings)
        (delivered (getMessages usualInterpreter.toPlatform 0 sampleNode.server)) sampleStart =
      takeItems (pullMessage Sample.config usualInterpreter (lit "peer"))
        (fun maxId n => { n with lastSeenId := fun f => if f = lit "peer" then maxId else n.lastSeenId f }) (fun _ => noonReadings)
        (.int 0) ((Gossip.messageRows sampleNode.server.db 0).map fun r => .obj (hopItem r)) sampleStart := by
  have hspares : ∀ r ∈ Gossip.messageRows sampleNode.server.db 0, Spares Platform.usual 3 r.2.payload := fun r hr =>
    spares_sample (Nat.le_of_ble_eq_true rfl) r (Gossip.mem_of_pageRows hr).1
  have hcursor : sampleStart.lastSeenId (lit "peer") = .int (0 : Nat) := rfl
  exact (messages_round reads_usual keepsText_config sample_run sample_seq.1 hcursor fun _ => noonReadings).1
    ⟨by decide, short_sample.1, hspares⟩

/-- `_sync_deletions_with_peer` against a relay works on every page that is short, if the cursor binds. -/
theorem deletions_round (env' : Env) (hreads : Reads interpreter.toPlatform) (hkept : Kept env interpreter.toPlatform source.server.db)
    (hseq : source.server.db.deletionRequests.seq < 2 ^ 63)
    (hcursor : n.lastSeenDeletionId fingerprint = .int c) (clocks : Nat → Readings) :
    (c < 2 ^ 63 ∧ Short (deletionsPage source.server c) →
      syncDeletionsWithPeer env' interpreter fingerprint clocks (delivered (getDeletions interpreter.toPlatform c source.server)) n =
        takeItems (pullDeletion env' interpreter fingerprint)
          (fun maxId n => { n with lastSeenDeletionId := fun f => if f = fingerprint then maxId else n.lastSeenDeletionId f }) clocks
          (.int c) ((Gossip.deletionRows source.server.db c).map fun r => .obj (Gossip.deletionItem r)) n) ∧
    (¬ (c < 2 ^ 63 ∧ Short (deletionsPage source.server c)) →
      (syncDeletionsWithPeer env' interpreter fingerprint clocks (delivered (getDeletions interpreter.toPlatform c source.server)) n).1 = n ∧
      (syncDeletionsWithPeer env' interpreter fingerprint clocks
        (delivered (getDeletions interpreter.toPlatform c source.server)) n).2 ≠ .saved) := by
  have harrives := deletions_arrive_iff hreads.stable hreads.ascii hreads.nesting hreads.encoderNesting hseq hkept.texts c
  rw [syncDeletionsWithPeer, hcursor]
  constructor
  · exact fun h => syncPage_arrives h.2 (harrives.2 h.1)
  · intro hlost
    by_cases hbinds : c < 2 ^ 63
    · apply syncPage_lost (.inl (getDeletions_eq hbinds))
      · exact fun v hv => Except.ok.inj (hv.symm.trans (harrives.2 hbinds).2)
      · exact fun h => hlost ⟨hbinds, h.1⟩
    · rw [getDeletions_unbound hbinds]
      exact ⟨rfl, fun h => by cases h⟩

/-! ## Legs -/

/-- What a payload is for the relay that it comes to next: the body of a push, or the item of its row in a page that is
answered. -/
inductive Leg (platform : Platform) (p : Dict) : Dict → Prop
  | pushed {q} : loads platform.decoder (Forward.fanoutBody p) = .ok (.obj q) → Leg platform p q
  | pulled {s : State} {sinceId id : Nat} {m : Message} {body : Json} {data item q : Dict} {items : List Json} :
      Heard platform (s.db.messages.rows.map Prod.snd) → s.db.messages.seq < 2 ^ 63 →
      getMessages platform sinceId s = ⟨[⟨200, body⟩], none⟩ →
      loads platform.decoder (encode (dumpsDefault body)) = .ok (.obj data) → data.get (lit "messages") = some (.arr items) →
      .obj item ∈ items → item.get (lit "id") = some (.int id) → (id, m) ∈ s.db.messages.rows → m.payload = p →
      item.get (lit "payload") = some (.obj q) → Leg platform p q

/-- Any number of legs. -/
abbrev Travels (platform : Platform) : Dict → Dict → Prop := Relation.ReflTransGen (Leg platform)

theorem leg_eq {platform : Platform} (hrepr : Stable platform.decoder.repr) (hascii : ReadsAscii platform.decoder) {p q : Dict} {k : Nat}
    (hp : Readable platform.decoder.repr (.obj p) k) (h : Leg platform p q) : q = hop p := by
  cases h with
  | pushed hloads =>
    rw [Forward.fanoutBody, loads_encode_dumps hascii hp] at hloads
    exact Json.obj.inj (eq_reread_of_loadsText hp hloads)
  | @pulled s sinceId id m body data item _ items hheard hseq hsent hloads hitems hitem hid hrow hpayload hq =>
    have hbody : body = messagesPage s sinceId := by
      have hbinds : sinceId < 2 ^ 63 := by
        by_contra hunbound
        rw [getMessages_unbound hunbound] at hsent
        cases hsent
      rw [getMessages_eq hheard hbinds, sendJson] at hsent
      split at hsent
      · simp only [Ended.mk.injEq, List.cons.injEq, Response.mk.injEq, and_true, true_and] at hsent
        exact hsent.symm
      · cases hsent
    subst hbody
    have hdata := eq_messagesPage hrepr hascii hseq hheard hloads
    cases hdata
    have hall : items = (Gossip.messageRows s.db sinceId).map fun r => .obj (hopItem r) := by
      simpa [Dict.get, eq_comm] using hitems
    subst hall
    obtain ⟨r, hr, hitem⟩ := List.mem_map.1 hitem
    cases hitem
    simp only [hopItem, Dict.get, List.find?_cons_of_pos, decide_true, Option.map_some, Option.some.injEq, Json.int.injEq,
      Int.natCast_inj] at hid
    -- Rowids are unique.
    have hsame : r = (id, m) := by
      have hnodup : (s.db.messages.rows.map Prod.fst).Nodup :=
        List.pairwise_map.2 (s.db.messages.sorted.imp fun h => Nat.ne_of_lt h)
      exact List.inj_on_of_nodup_map hnodup (Gossip.mem_of_pageRows hr).1 hrow hid
    subst hsame
    have hpayload' : Dict.get (hopItem (id, m)) (lit "payload") = some (.obj (hop m.payload)) := by
      simp [hopItem, Dict.get, lit]
    rw [hpayload'] at hq
    rw [← hpayload]
    exact (Json.obj.inj (Option.some.inj hq)).symm

/-- Over any number of legs a payload arrives as it was, or as after the first. -/
theorem travels_cases {platform : Platform} (hrepr : Stable platform.decoder.repr) (hascii : ReadsAscii platform.decoder) {p q : Dict}
    {k : Nat} (hp : Readable platform.decoder.repr (.obj p) k) (h : Travels platform p q) : q = p ∨ q = hop p := by
  induction h with
  | refl => exact .inl rfl
  | tail _ hleg ih =>
    rcases ih with rfl | rfl
    · exact .inr (leg_eq hrepr hascii hp hleg)
    · have hread : Readable platform.decoder.repr (.obj (hop p)) k := readable_reread hrepr hp
      rw [leg_eq hrepr hascii hread hleg, hop_hop]
      exact .inr rfl

/-! ## Relays at the end of routes -/

/-- The payloads that routes keep: they have been read, no key is read as another, and their columns bind. -/
structure Routable (platform : Platform) (p : Dict) : Prop where
  readable : ∃ k, Readable platform.decoder.repr (.obj p) k
  keys : KeysKept (.obj p)

/-- The same operation, on a payload that has travelled. -/
inductive Relayed (platform : Platform) : AtomicEvent → AtomicEvent → Prop
  | ingest {p q} (path now gate identityGate) : Routable platform p → Binds p → Travels platform p q →
      Relayed platform (.ingest path p now gate identityGate) (.ingest path q now gate identityGate)
  | delete {p q} (now gate) : Routable platform p → encodable (p.text (lit "target_signature")) = true →
      encodable (p.text (lit "recipient_pubkey")) = true → Travels platform p q →
      Relayed platform (.delete p now gate) (.delete q now gate)
  | pullDeletion (item now gate) : Relayed platform (.pullDeletion item now gate) (.pullDeletion item now gate)
  | sweep (now cutoffNow) : Relayed platform (.sweep now cutoffNow) (.sweep now cutoffNow)

section
variable {platform : Platform} {rsaPss : Bytes → Bytes → Str → Bool}

theorem relayed_copies (hreads : Reads platform) (henv : env.verifier = rsaVerifier rsaPss) {e e' : AtomicEvent}
    (h : Relayed platform e e') : EventCopies env e e' := by
  cases h with
  | ingest path now gate identityGate hp hbinds htravels =>
    obtain ⟨k, hread⟩ := hp.readable
    refine .ingest path now gate identityGate ?_
    rcases travels_cases hreads.stable hreads.ascii hread htravels with rfl | rfl
    · exact .refl env _
    · exact copies_hop henv hp.keys hbinds
  | delete now gate hp htarget hkey htravels =>
    obtain ⟨k, hread⟩ := hp.readable
    refine .delete now gate ?_
    rcases travels_cases hreads.stable hreads.ascii hread htravels with rfl | rfl
    · exact .refl env _
    · exact deleteCopies_hop henv hp.keys htarget hkey
  | pullDeletion item now gate => exact .pullDeletion item now gate
  | sweep now cutoffNow => exact .sweep now cutoffNow

/-- Whatever a relay does over a whole run, a relay does that gets every payload over other relays: it shows the same
and ends with the same rows. -/
theorem relayed_run (hreads : Reads platform) (henv : env.verifier = rsaVerifier rsaPss) {h : List (AtomicEvent × AtomicObs)}
    {db : Db} (hrun : AtomicRun env h db) {es : List AtomicEvent} (hes : List.Forall₂ (Relayed platform) (h.map Prod.fst) es) :
    ∃ h' db', AtomicRun env h' db' ∧ h'.map Prod.fst = es ∧ h'.map Prod.snd = h.map Prod.snd ∧ Alike db db' :=
  alike_run hrun (hes.imp fun _ _ => relayed_copies hreads henv)

end

end

/-! ### A message that changes on its way -/

/-- An object of texts whose keys are texts. -/
def isFlat (p : Dict) : Bool :=
  p.all fun kv => match kv.2 with
    | .str s => (kv.1 ++ s).all (Nat.blt · 0x110000) && encodable kv.1
    | _ => false

theorem isFlat_iff {p : Dict} : isFlat p = true ↔ ∀ kv ∈ p, IsText kv.1 ∧ ∃ s, kv.2 = .str s ∧ CodePoints s := by
  rw [isFlat, List.all_eq_true]
  refine forall₂_congr fun kv _ => ?_
  obtain ⟨k, v⟩ := kv
  cases v with
  | str s =>
    simp only [Bool.and_eq_true, List.all_append, List.all_eq_true, Nat.blt_eq, IsText, CodePoints, Json.str.injEq,
      exists_eq_left']
    tauto
  | _ => simp

theorem routable_of_isFlat {platform : Platform} {p : Dict} (h : isFlat p = true) (hkeys : (p.map Prod.fst).Nodup) :
    Routable platform p ∧ Readable platform.decoder.repr (.obj p) 1 := by
  have hflat := isFlat_iff.1 h
  have hread : Readable platform.decoder.repr (.obj p) 1 := by
    refine ⟨Nat.one_pos, readableItems_iff.2 fun kv hkv => ?_⟩
    obtain ⟨hkey, s, hs, hpoints⟩ := hflat kv hkv
    rw [hs]
    exact ⟨hkey.2, hpoints⟩
  refine ⟨⟨⟨1, hread⟩, hkeys, keysKeptItems_iff.2 fun kv hkv => ?_⟩, hread⟩
  obtain ⟨hkey, s, hs, -⟩ := hflat kv hkv
  rw [hs]
  exact ⟨rejoin_of_joined (joined_of_encodable hkey.1), trivial⟩

/-- A push of what can be read. -/
theorem leg_pushed {platform : Platform} (hreads : Reads platform) {p : Dict}
    (h : Readable platform.decoder.repr (.obj p) platform.decoder.nesting) : Leg platform p (hop p) := by
  apply Leg.pushed
  rw [Forward.fanoutBody, loads_encode_dumps hreads.ascii h, loads_dumps h]
  rfl

/-- The sample message with a field of two surrogates. -/
def surrogates : Dict := Sample.payload (lit "c2ln") ++ [(lit "note", .str [0xD83D, 0xDE00])]

theorem surrogates_routable : Routable .usual surrogates ∧ Readable Platform.usual.decoder.repr (.obj surrogates) 1 :=
  routable_of_isFlat (by decide +kernel) (by decide +kernel)

theorem surrogates_binds : Binds surrogates :=
  ⟨by decide +kernel, by decide +kernel, by decide +kernel, by decide +kernel⟩

/-- A relay ingests it, and another one what is read of it after two pushes. -/
theorem relayed_run_surrogates : ∃ h' db', AtomicRun Sample.lenient h' db' ∧
    h'.map Prod.fst = [.ingest .gossipPublish (hop surrogates) Sample.noon true true] ∧
    h'.map Prod.snd = [.ingest (ingest Sample.lenient .gossipPublish Sample.noon true true surrogates .empty).2] ∧
    Alike (ingest Sample.lenient .gossipPublish Sample.noon true true surrogates .empty).1 db' := by
  obtain ⟨hroutable, hread⟩ := surrogates_routable
  have htwice : Travels .usual surrogates (hop surrogates) := by
    have hfirst : Leg .usual surrogates (hop surrogates) := leg_pushed reads_usual (.mono _ (Nat.le_of_ble_eq_true rfl) hread)
    have hsecond : Leg .usual (hop surrogates) (hop (hop surrogates)) :=
      leg_pushed reads_usual (readable_reread reads_usual.stable (.mono _ (Nat.le_of_ble_eq_true rfl) hread))
    rw [hop_hop] at hsecond
    exact .tail (.single hfirst) hsecond
  have hrelayed : Relayed .usual (.ingest .gossipPublish surrogates Sample.noon true true)
      (.ingest .gossipPublish (hop surrogates) Sample.noon true true) :=
    .ingest _ _ _ _ hroutable surrogates_binds htwice
  exact relayed_run reads_usual (rfl : Sample.lenient.verifier = _) (Run.nil.snoc trivial rfl) (.cons hrelayed .nil)

end AetherNode.Routes
