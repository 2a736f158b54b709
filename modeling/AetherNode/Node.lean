import AetherNode.Convergence
import AetherNode.Served
/-!
# A whole relay, byte by byte

A relay as its clients and its peers see it: requests with any header and any
bytes, and pulls that a peer answers with anything at all. `node_refines`
takes its runs down to runs of single operations on payloads that have been
read, so what holds of those holds of the relay, whatever is sent to it.
-/
open AetherNode.Lib AetherNode.Lib.Json AetherNode.Lib.JsonText AetherNode.Lib.JsonScan AetherNode.Lib.Reread
  AetherNode.Protocol AetherNode.RateLimit AetherNode.Server AetherNode.Hops AetherNode.Served

namespace AetherNode.Node

/-! ## Pulling from a peer that answers anything -/

/-- The tables and limiters behind the handlers, and what anti-entropy keeps: its limiter and, for every fingerprint, the
two cursors. `committed` is what the database file holds: the tables of the handlers may be ahead of it by an open
transaction. `clock` is the last reading for the limiters of the handlers. -/
structure Process where
  server : State
  committed : Db
  gossipPullLimiter : RateLimiter
  lastSeenId : Str → Json
  lastSeenDeletionId : Str → Json
  clock : ℚ

/-- `commit()`, as the tables show it: it comes after every insertion and after every claim that is dropped. The `DELETE`
of `_apply_confirmed_deletion` whose `INSERT` raises is left in the open transaction. -/
def commits (db db' : Db) : Bool :=
  decide (db.messages.seq ≠ db'.messages.seq) || decide (db.deletionRequests.seq ≠ db'.deletionRequests.seq) ||
    decide (db.deletionRequests.rows ≠ db'.deletionRequests.rows)

/-- A commit takes all that is in the open transaction to the file. -/
def Process.settle (n : Process) (commits : Bool) : Process :=
  { n with committed := if commits then n.server.db else n.committed }

/-- The request gets to the `INSERT OR IGNORE` of `handle_delete_request`. -/
def recordsRequest (env : Env) (now : Datetime) (gate : Gate) (p : Dict) (db : Db) : Bool :=
  decide ((doDelete env now gate p db).2 = .replied .deleteRequested) && (db.message (p.text (lit "target_signature"))).isNone

def Handler.recordsRequest (env : Env) (clock : Readings) : Handler → Dict → State → Bool
  | .delete, p, s => Node.recordsRequest env clock.now (s.deleteGate clock (p.text (lit "recipient_pubkey"))) p s.db
  | .gossipDelete _ peerFingerprint, p, s =>
    Node.recordsRequest env clock.now (s.gossipDeleteGate clock peerFingerprint) p s.db
  | _, _, _ => false

/-- The request commits: also where `INSERT OR IGNORE` finds a row, and leaves the tables as they are. -/
def postCommits (env : Env) (platform : Platform) (clock : Readings) (h : Handler) (header : Option Requests.HeaderText)
    (stream : Bytes) (s : State) : Bool :=
  commits s.db (doPost env platform clock h header stream s).1.db ||
    match (h.reading.run header stream).received with
    | .answered _ _ => false
    | .body raw =>
      match loads platform.decoder raw with
      | .ok (.obj p) => Handler.recordsRequest env clock h p s
      | _ => false

theorem commits_of_not_postCommits {env : Env} {platform : Platform} {clock : Readings} {h : Handler}
    {header : Option Requests.HeaderText} {stream : Bytes} {s : State}
    (hno : postCommits env platform clock h header stream s = false) :
    commits s.db (doPost env platform clock h header stream s).1.db = false :=
  (Bool.or_eq_false_iff.1 hno).1

@[simp] theorem Process.settle_server (n : Process) (commits : Bool) : (n.settle commits).server = n.server := rfl

/-- What a relay is run on: `gt` compares numbers. -/
structure Interpreter extends Platform where
  gt : Json → Json → Bool

/-- How one item of a page ends: with a new `max_id`, in a `break`, or with an exception. -/
inductive Pulled where
  | seen (maxId : Json)
  | stop
  | raised (e : PyError)

/-- How a round ends: the cursor is saved, `_sync_with_peer` returns without saving it, or an exception gets to `_loop`. -/
inductive RoundEnd where
  | saved
  | ignored
  | failed
  | unreadable (e : LoadsError)
  | raised (e : PyError)

/-- What comes of the connection to a peer: nothing, or a status, headers and a body. -/
inductive Reply where
  | failed
  | answered (status : Nat) (response : AntiEntropy.Response)

section
variable (env : Env) (interpreter : Interpreter)

/-- `max(max_id, id)`. -/
def maxOf (maxId id : Json) : Pulled :=
  if Adoption.isNumber id then .seen (if interpreter.gt id maxId then id else maxId) else .raised .typeError

/-- `max_id = max(max_id, item["id"])`. -/
def pagePast (item : Dict) (maxId : Json) : Pulled :=
  match item.get (lit "id") with
  | none => .raised .keyError
  | some id => maxOf interpreter maxId id

/-- One item of the loop of `_sync_with_peer`, from its payload on. -/
def pullPayload (fingerprint : Str) (clock : Readings) (item p : Dict) (maxId : Json) (n : Process) : Process × Pulled :=
  match alreadyStored p n.server.db with
  | .error e => (n, .raised e)
  | .ok true => (n, pagePast interpreter item maxId)
  | .ok false =>
    let (limiter, ok) := n.gossipPullLimiter.checkGlobal clock.checkGlobal
    let n := { n with gossipPullLimiter := limiter }
    if !ok then (n, .stop)
    else
      match hasRoom env p n.server.db with
      | .error e => (n, .raised e)
      | .ok false => (n, pagePast interpreter item maxId)
      | .ok true =>
        match validatePublishPayload env clock.now p with
        | .error e => (n, .raised e)
        | .ok (some _) => (n, pagePast interpreter item maxId)
        | .ok none =>
          let (limiter, ok) := n.gossipPullLimiter.checkIdentity clock.checkIdentity fingerprint
          let n := { n with gossipPullLimiter := limiter }
          if !ok then ({ n with gossipPullLimiter := n.gossipPullLimiter.refundGlobal }, .stop)
          else
            match pagePast interpreter item maxId with
            | .seen maxId =>
              match resolveDeletionRequest env clock.now (p.text (lit "signature")) (p.text (lit "recipient_id")) n.server.db with
              | (db, .error e) => ({ n with server := { n.server with db := db } }, .raised e)
              | (db, .ok true) => ({ n with server := { n.server with db := db } }, .seen maxId)
              | (db, .ok false) =>
                match insertMessageAndMaybeGossip env p (p.text (lit "recipient_id")) clock.now db with
                | (db, .error e) => ({ n with server := { n.server with db := db } }, .raised e)
                | (db, .ok _) => ({ n with server := { n.server with db := db } }, .seen maxId)
            | ending => (n, ending)

/-- One item of the loop of `_sync_with_peer`: `item["payload"]`, and then `payload.get`. -/
def pullMessage (fingerprint : Str) (clock : Readings) (item maxId : Json) (n : Process) : Process × Pulled :=
  match item with
  | .obj item =>
    match Dict.get item (lit "payload") with
    | none => (n, .raised .keyError)
    | some (.obj p) => pullPayload env interpreter fingerprint clock item p maxId n
    | some _ => (n, .raised .attributeError)
  | _ => (n, .raised .typeError)

/-- One item of the loop of `_sync_deletions_with_peer`. -/
def pullDeletion (fingerprint : Str) (clock : Readings) (item maxId : Json) (n : Process) : Process × Pulled :=
  match item with
  | .obj item =>
    let itemId := (Dict.get item (lit "id")).getD maxId
    match Dict.get item (lit "target_signature") with
    | some (.str target) =>
      let (limiter, ok) := n.gossipPullLimiter.checkGlobal clock.checkGlobal
      let n := { n with gossipPullLimiter := limiter }
      if !ok then (n, .stop)
      else
        let (limiter, ok) := n.gossipPullLimiter.checkIdentity clock.checkIdentity fingerprint
        let n := { n with gossipPullLimiter := limiter }
        if !ok then ({ n with gossipPullLimiter := n.gossipPullLimiter.refundGlobal }, .stop)
        else
          match maxOf interpreter maxId itemId with
          | .seen maxId =>
            match applyPulledDeletion env clock.now item target n.server.db with
            | (db, .ok _) => ({ n with server := { n.server with db := db } }, .seen maxId)
            | (db, .error e) => ({ n with server := { n.server with db := db } }, .raised e)
          | ending => (n, ending)
    | _ => (n, maxOf interpreter maxId itemId)
  | _ => (n, .raised .attributeError)

/-- The loop over the items of a page; each commits what it has written. -/
def pullItems (pull : Readings → Json → Json → Process → Process × Pulled) (clocks : Nat → Readings) :
    Nat → Json → List Json → Process → Process × Except PyError Json
  | _, maxId, [], n => (n, .ok maxId)
  | k, maxId, item :: items, n =>
    let r := pull (clocks k) item maxId n
    let n' := r.1.settle (commits n.server.db r.1.server.db)
    match r.2 with
    | .seen maxId => pullItems pull clocks (k + 1) maxId items n'
    | .stop => (n', .ok maxId)
    | .raised e => (n', .error e)

/-- `for item in value`: the elements of a list, the characters of a text, the keys of a dictionary. -/
def iterate : Json → Except PyError (List Json)
  | .arr l => .ok l
  | .str s => .ok (s.map fun c => .str [c])
  | .obj p => .ok (p.map fun kv => .str kv.1)
  | _ => .error .typeError

/-- A round from its response on, under the cursor that it saves at the end. -/
def syncPage (name : Str) (pull : Readings → Json → Json → Process → Process × Pulled) (save : Json → Process → Process)
    (clocks : Nat → Readings) (sinceId : Json) (reply : Reply) (n : Process) : Process × RoundEnd :=
  match reply with
  | .failed => (n, .failed)
  | .answered status response =>
    match AntiEntropy.readBoundedResponse response maxBodyBytes with
    | .error e => (n, .raised e)
    | .ok body =>
      if status ≠ 200 then (n, .ignored)
      else
        match loads interpreter.decoder body with
        | .error e => (n, .unreadable e)
        | .ok (.obj data) =>
          match iterate ((Dict.get data name).getD (.arr [])) with
          | .error e => (n, .raised e)
          | .ok items =>
            match pullItems pull clocks 0 sinceId items n with
            | (n, .ok maxId) => (save maxId n, .saved)
            | (n, .error e) => (n, .raised e)
        | .ok _ => (n, .raised .attributeError)

/-- `_sync_with_peer`, of the peer with this fingerprint. -/
def syncWithPeer (fingerprint : Str) (clocks : Nat → Readings) (reply : Reply) (n : Process) : Process × RoundEnd :=
  syncPage interpreter (lit "messages") (pullMessage env interpreter fingerprint)
    (fun maxId n => { n with lastSeenId := fun f => if f = fingerprint then maxId else n.lastSeenId f }) clocks
    (n.lastSeenId fingerprint) reply n

/-- `_sync_deletions_with_peer`. -/
def syncDeletionsWithPeer (fingerprint : Str) (clocks : Nat → Readings) (reply : Reply) (n : Process) : Process × RoundEnd :=
  syncPage interpreter (lit "deletions") (pullDeletion env interpreter fingerprint)
    (fun maxId n => { n with lastSeenDeletionId := fun f => if f = fingerprint then maxId else n.lastSeenDeletionId f }) clocks
    (n.lastSeenDeletionId fingerprint) reply n

end

/-! ## The system -/

/-- A request, a round of anti-entropy with the response it gets, a sweep, or a restart on the same database file, one at
a time; a round and a sweep with a reading of the clock when they begin. -/
inductive Event where
  | post (h : Handler) (header : Option Requests.HeaderText) (stream : Bytes) (clock : Readings)
  | syncWithPeer (time : ℚ) (fingerprint : Str) (clocks : Nat → Readings) (reply : Reply)
  | syncDeletionsWithPeer (time : ℚ) (fingerprint : Str) (clocks : Nat → Readings) (reply : Reply)
  | sweep (time : ℚ) (now cutoffNow : Datetime)
  | restart (time : ℚ) (client push pull : Limits)

inductive Obs where
  | post (e : Ended)
  | round (e : RoundEnd)
  | sweep (r : Except PyError Unit)
  | started

/-- `time.monotonic()` at the event. -/
def Event.time : Event → ℚ
  | .post _ _ _ clock => clock.checkGlobal
  | .syncWithPeer time _ _ _ => time
  | .syncDeletionsWithPeer time _ _ _ => time
  | .sweep time _ _ => time
  | .restart time _ _ _ => time

def Event.restarts : Event → Bool
  | .restart _ _ _ _ => true
  | _ => false

/-- A relay that starts on these tables. -/
def start (db : Db) (client push pull : Limits) (time : ℚ) : Process :=
  ⟨⟨db, .new client time, .new push time⟩, db, .new pull time, fun _ => .int 0, fun _ => .int 0, time⟩

/-- What an event does to a relay. A restart rolls back what was not committed. -/
def handle (env : Env) (interpreter : Interpreter) (n : Process) : Event → Process × Obs
  | .post h header stream clock =>
    let r := doPost env interpreter.toPlatform clock h header stream n.server
    (Process.settle { n with server := r.1, clock := clock.checkGlobal }
      (postCommits env interpreter.toPlatform clock h header stream n.server), .post r.2)
  | .syncWithPeer time fingerprint clocks reply =>
    let r := syncWithPeer env interpreter fingerprint clocks reply n
    ({ r.1 with clock := time }, .round r.2)
  | .syncDeletionsWithPeer time fingerprint clocks reply =>
    let r := syncDeletionsWithPeer env interpreter fingerprint clocks reply n
    ({ r.1 with clock := time }, .round r.2)
  | .sweep time now cutoffNow =>
    let r := runOnce env now cutoffNow n.server.db
    (Process.settle { n with server := { n.server with db := r.1 }, clock := time } r.2.isOk, .sweep r.2)
  | .restart time client push pull => (start n.committed client push pull time, .started)

/-- The clock does not go back before the next restart. -/
def step (env : Env) (interpreter : Interpreter) : System Process Event Obs := fun n e =>
  if e.restarts ∨ n.clock ≤ e.time then some (handle env interpreter n e) else none

/-- Histories of a relay that starts with empty tables. -/
abbrev NodeRun (env : Env) (interpreter : Interpreter) (client push pull : Limits) (time : ℚ) :
    List (Event × Obs) → Process → Prop :=
  Run (step env interpreter) Any (start .empty client push pull time)

theorem step_eq {env : Env} {interpreter : Interpreter} {n n' : Process} {e : Event} {o : Obs}
    (h : step env interpreter n e = some (n', o)) :
    (e.restarts = true ∨ n.clock ≤ e.time) ∧ handle env interpreter n e = (n', o) := by
  unfold step at h
  split at h
  · rename_i hclock
    exact ⟨hclock, Option.some.inj h⟩
  · cases h

theorem step_of {env : Env} {interpreter : Interpreter} {n : Process} {e : Event} (h : e.restarts = true ∨ n.clock ≤ e.time) :
    step env interpreter n e = some (handle env interpreter n e) := if_pos h

/-! ### A sample relay -/

def usualInterpreter : Interpreter := ⟨.usual, fun _ _ => false⟩

theorem stable_usual : Stable Platform.usual.decoder.repr := fun f => ⟨f, rfl, rfl⟩

theorem decodes_usual (raw : Bytes) (t : Str) (h : Platform.usual.decoder.decode raw = some t) : CodePoints t := by
  simp only [Platform.usual, Decoder.ascii] at h
  split at h <;> cases h
  rename_i hall
  intro c hc
  have := of_decide_eq_true (List.all_eq_true.1 hall c hc)
  omega

/-- A client publishes the sample message. -/
def samplePost : Event :=
  let raw := encode (dumpsDefault (.obj (Sample.payload (lit "c2ln"))))
  .post .publish (some (Requests.lengthHeader raw)) raw noonReadings

def sampleStart : Process := start .empty burst burst burst 0

/-- The relay that has it. -/
def sampleNode : Process := (handle Sample.config usualInterpreter sampleStart samplePost).1

theorem sample_step : step Sample.config usualInterpreter sampleStart samplePost =
    some (sampleNode, (handle Sample.config usualInterpreter sampleStart samplePost).2) := by
  have hallowed : samplePost.restarts = true ∨ sampleStart.clock ≤ samplePost.time := .inr le_rfl
  rw [step_of hallowed, sampleNode]

theorem sample_run : NodeRun Sample.config usualInterpreter burst burst burst 0
    [(samplePost, (handle Sample.config usualInterpreter sampleStart samplePost).2)] sampleNode :=
  Run.nil.snoc trivial sample_step

/-! ## Every event is a run of single operations -/

/-- A value that has been read: it can be read again, and no object in it has a key twice. -/
structure Loaded (platform : Platform) (v : Json) : Prop where
  readable : Readable platform.decoder.repr v platform.decoder.nesting
  distinct : Distinct v

/-- What the operation works on has been read. -/
def HeardEvent (platform : Platform) (_ : Db) : AtomicEvent → Prop
  | .ingest _ p _ _ _ => Loaded platform (.obj p)
  | .delete p _ _ => Loaded platform (.obj p)
  | .pullDeletion item _ _ => Loaded platform (.obj item)
  | .sweep _ _ => True

/-- The object in the body of a request. -/
def Carries (interpreter : Interpreter) (h : Handler) (header : Option Requests.HeaderText) (stream : Bytes) (p : Dict) : Prop :=
  ∃ raw, (h.reading.run header stream).received = .body raw ∧ loads interpreter.decoder raw = .ok (.obj p)

/-- An item of a page that a peer has answered. -/
def Sent (interpreter : Interpreter) (name : Str) (reply : Reply) (item : Json) : Prop :=
  ∃ status response body data items, reply = .answered status response ∧
    AntiEntropy.readBoundedResponse response maxBodyBytes = .ok body ∧ loads interpreter.decoder body = .ok (.obj data) ∧
    iterate ((Dict.get data name).getD (.arr [])) = .ok items ∧ item ∈ items

/-- The operations that an event comes down to. -/
def Event.performs (interpreter : Interpreter) : Event → AtomicEvent → Prop
  | .post h header stream clock, .ingest _ p now _ _ => now = clock.now ∧ Carries interpreter h header stream p
  | .post h header stream clock, .delete p now _ => now = clock.now ∧ Carries interpreter h header stream p
  | .syncWithPeer _ _ clocks reply, .ingest _ p now _ _ => (∃ k, now = (clocks k).now) ∧
    ∃ item : Dict, Sent interpreter (lit "messages") reply (.obj item) ∧ item.get (lit "payload") = some (.obj p)
  | .syncDeletionsWithPeer _ _ clocks reply, .pullDeletion item now _ => (∃ k, now = (clocks k).now) ∧
    Sent interpreter (lit "deletions") reply (.obj item)
  | .sweep _ now cutoffNow, .sweep now' cutoffNow' => now' = now ∧ cutoffNow' = cutoffNow
  | _, _ => False

/-- These operations, on what has been read, lead from the one database to the other. -/
def Does (env : Env) (platform : Platform) (performs : AtomicEvent → Prop) (db db' : Db) : Prop :=
  ∃ h, Run (atomicStep env) (fun db e => HeardEvent platform db e ∧ performs e) db h db'

section
variable {env : Env} {platform : Platform} {performs : AtomicEvent → Prop} {db db' db'' : Db}

theorem Does.refl (db : Db) : Does env platform performs db db := ⟨[], .nil⟩

theorem Does.trans (h : Does env platform performs db db') (h' : Does env platform performs db' db'') :
    Does env platform performs db db'' := by
  obtain ⟨l, hrun⟩ := h
  obtain ⟨l', hrun'⟩ := h'
  exact ⟨l ++ l', hrun.trans hrun'⟩

theorem Does.one {e : AtomicEvent} {o : AtomicObs} (he : HeardEvent platform db e) (hperforms : performs e)
    (hstep : atomicStep env db e = some (db', o)) : Does env platform performs db db' :=
  ⟨_, Run.nil.snoc ⟨he, hperforms⟩ hstep⟩

theorem Does.ingest {p : Dict} (hp : Loaded platform (.obj p)) {path : Path} {now : Datetime} {gate identityGate : Bool}
    (hperforms : performs (.ingest path p now gate identityGate)) :
    Does env platform performs db (ingest env path now gate identityGate p db).1 :=
  .one (e := .ingest path p now gate identityGate) hp hperforms rfl

theorem Does.delete {p : Dict} (hp : Loaded platform (.obj p)) {now : Datetime} {gate : Gate} (hperforms : performs (.delete p now gate)) :
    Does env platform performs db (doDelete env now gate p db).1 :=
  .one (e := .delete p now gate) hp hperforms rfl

theorem Does.pull {item : Dict} (hitem : Loaded platform (.obj item)) {now : Datetime} {gate : Bool}
    (hperforms : performs (.pullDeletion item now gate)) : Does env platform performs db (syncDeletion env now gate item db).1 :=
  .one (e := .pullDeletion item now gate) hitem hperforms rfl

theorem Does.mono {performs' : AtomicEvent → Prop} (h : Does env platform performs db db') (hsub : ∀ a, performs a → performs' a) :
    Does env platform performs' db db' := by
  obtain ⟨l, hrun⟩ := h
  exact ⟨l, hrun.mono fun _ a ha => ⟨ha.1, hsub a ha.2⟩⟩

theorem Does.messages (h : Does env platform performs db db') : db.messages.Evolves db'.messages := by
  obtain ⟨l, hrun⟩ := h
  exact hrun.inv (fun db' => db.messages.Evolves db'.messages) (.refl _) fun _ _ _ _ hev _ hstep =>
    hev.trans (Convergence.atomic_messages hstep)

/-- What a database is compared with the file it was opened on: no more than messages have gone since the last commit. -/
structure Behind (db committed : Db) : Prop where
  message : ∀ s m, db.message s = some m → committed.message s = some m
  deletionRequests : committed.deletionRequests = db.deletionRequests

theorem Behind.refl (db : Db) : Behind db db := ⟨fun _ _ h => h, rfl⟩

/-- What is not committed adds no row. -/
theorem Behind.of_does {committed : Db} (h : Behind db committed) (hdoes : Does env platform performs db db')
    (hcommits : commits db db' = false) : Behind db' committed := by
  simp only [commits, Bool.or_eq_false_iff, decide_eq_false_iff_not, not_not] at hcommits
  obtain ⟨⟨hmessages, hseq⟩, hrows⟩ := hcommits
  refine ⟨fun s m hm => h.message s m ?_, h.deletionRequests.trans (Table.eq_of_rows hrows hseq)⟩
  obtain ⟨⟨id, hrow⟩, hkey⟩ := Table.lookup_eq_some.1 hm
  rcases hdoes.messages.rows _ hrow with hold | hnew
  · exact Table.lookup_eq_some.2 ⟨⟨id, hold⟩, hkey⟩
  · -- Its id would be above the sequence.
    have hbound := db'.messages.bounded _ hrow
    omega

/-- What operations do to a relay: they lead to its tables, and the file stays or gets what one of them has left. -/
structure Moves (env : Env) (platform : Platform) (performs : AtomicEvent → Prop) (n n' : Process) : Prop where
  server : Does env platform performs n.server.db n'.server.db
  committed : n'.committed = n.committed ∨ Does env platform performs n.server.db n'.committed
  behind : Behind n.server.db n.committed → Behind n'.server.db n'.committed

theorem Moves.refl (n : Process) : Moves env platform performs n n := ⟨.refl _, .inl rfl, id⟩

theorem Moves.trans {n n' n'' : Process} (h : Moves env platform performs n n') (h' : Moves env platform performs n' n'') :
    Moves env platform performs n n'' := by
  refine ⟨h.server.trans h'.server, ?_, h'.behind ∘ h.behind⟩
  rcases h'.committed with hsame | hdoes
  · rw [hsame]
    exact h.committed
  · exact .inr (h.server.trans hdoes)

/-- Operations, and the commit that comes after them where the tables show it, or another one. -/
theorem Moves.settle_of {n n' : Process} (h : Does env platform performs n.server.db n'.server.db)
    (hcommitted : n'.committed = n.committed) {c : Bool} (hc : c = false → commits n.server.db n'.server.db = false) :
    Moves env platform performs n (n'.settle c) := by
  cases c with
  | true => exact ⟨h, .inr h, fun _ => .refl _⟩
  | false =>
    refine ⟨h, .inl hcommitted, fun hbehind => ?_⟩
    show Behind n'.server.db n'.committed
    rw [hcommitted]
    exact hbehind.of_does h (hc rfl)

theorem Moves.settle {n n' : Process} (h : Does env platform performs n.server.db n'.server.db)
    (hcommitted : n'.committed = n.committed) : Moves env platform performs n (n'.settle (commits n.server.db n'.server.db)) :=
  .settle_of h hcommitted id

end

section
variable {env : Env} {interpreter : Interpreter} {clock : Readings} {n : Process} {performs : AtomicEvent → Prop}

/-- A request with an object as its body is one operation on it, or none. -/
theorem post_does {p : Dict} (hp : Loaded interpreter.toPlatform (.obj p))
    (hingest : ∀ path gate identityGate, performs (.ingest path p clock.now gate identityGate))
    (hdelete : ∀ gate, performs (.delete p clock.now gate)) (h : Handler) (s : State) :
    Does env interpreter.toPlatform performs s.db (h.run env interpreter.toPlatform clock (.obj p) s).1.db := by
  cases h with
  | publish =>
    obtain ⟨heq, -⟩ := Prod.ext_iff.1 (RelayHandler.publishObject_eq env interpreter.toPlatform clock p s)
    dsimp only [Prod.map_fst, id] at heq
    rw [Handler.run, RelayHandler.publish, heq]
    exact .ingest hp (hingest _ _ _)
  | fetch =>
    rw [Handler.run, RelayHandler.fetch]
    split <;> exact .refl _
  | delete =>
    obtain ⟨heq, -⟩ := Prod.ext_iff.1 (RelayHandler.delete_eq env interpreter.toPlatform clock p s)
    dsimp only [Prod.map_fst, id] at heq
    rw [Handler.run, heq]
    exact .delete hp (hdelete _)
  | gossipPublish maxBodyBytes peerFingerprint =>
    obtain ⟨heq, -⟩ := Prod.ext_iff.1 (GossipHandler.publishObject_eq env interpreter.toPlatform clock peerFingerprint p s)
    dsimp only [Prod.map_fst, id] at heq
    rw [Handler.run, GossipHandler.publish, heq]
    exact .ingest hp (hingest _ _ _)
  | gossipDelete maxBodyBytes peerFingerprint =>
    obtain ⟨heq, -⟩ := Prod.ext_iff.1 (GossipHandler.delete_eq env interpreter.toPlatform clock peerFingerprint p s)
    dsimp only [Prod.map_fst, id] at heq
    rw [Handler.run, heq]
    exact .delete hp (hdelete _)

/-- Nothing but an object changes the tables. -/
theorem Handler.run_db (env : Env) (platform : Platform) (clock : Readings) {v : Json} (hv : ∀ p, v ≠ .obj p) (h : Handler)
    (s : State) : (h.run env platform clock v s).1.db = s.db := by
  cases v with
  | obj p => exact absurd rfl (hv p)
  | _ =>
    cases h with
    | publish | fetch | gossipPublish => rfl
    | delete =>
      rw [Handler.run, RelayHandler.delete]
      rcases s.clientPublishLimiter.checkGlobal clock.checkGlobal with ⟨limiter, _ | _⟩ <;> rfl
    | gossipDelete maxBodyBytes peerFingerprint =>
      have hdb := GossipHandler.allow_db clock peerFingerprint s
      rw [Handler.run, GossipHandler.delete]
      revert hdb
      rcases GossipHandler.allow clock peerFingerprint s with ⟨s', _ | _⟩ <;> exact id

/-- A payload that is pulled is ingested, unless its item has no number as its id. -/
theorem pullPayload_cases (fingerprint : Str) (item p : Dict) (maxId : Json) : ∃ limiter,
    (pullPayload env interpreter fingerprint clock item p maxId n).1 = { n with gossipPullLimiter := limiter } ∨
      (pullPayload env interpreter fingerprint clock item p maxId n).1 =
        { n with
          gossipPullLimiter := limiter
          server := { n.server with db := (ingest env .antiEntropyPull clock.now true true p n.server.db).1 } } := by
  unfold pullPayload
  cases hstored : alreadyStored p n.server.db with
  | error e => exact ⟨_, .inl rfl⟩
  | ok stored =>
    cases stored with
    | true => exact ⟨_, .inl rfl⟩
    | false =>
      rcases hglobal : n.gossipPullLimiter.checkGlobal clock.checkGlobal with ⟨limiter, _ | _⟩
      · exact ⟨_, .inl rfl⟩
      dsimp only
      cases hroom : hasRoom env p n.server.db with
      | error e => exact ⟨_, .inl rfl⟩
      | ok room =>
        cases room with
        | false => exact ⟨_, .inl rfl⟩
        | true =>
          cases hval : validatePublishPayload env clock.now p with
          | error e => exact ⟨_, .inl rfl⟩
          | ok result =>
            cases result with
            | some error => exact ⟨_, .inl rfl⟩
            | none =>
              dsimp only
              rcases limiter.checkIdentity clock.checkIdentity fingerprint with ⟨limiter', _ | _⟩
              · exact ⟨_, .inl rfl⟩
              dsimp only
              cases pagePast interpreter item maxId with
              | stop => exact ⟨_, .inl rfl⟩
              | raised e => exact ⟨_, .inl rfl⟩
              | seen maxId =>
                refine ⟨limiter', .inr ?_⟩
                simp only [ingest, hstored, hroom, hval]
                rcases resolveDeletionRequest env clock.now (p.text (lit "signature")) (p.text (lit "recipient_id")) n.server.db with
                  ⟨db, e | (_ | _)⟩
                · rfl
                · dsimp only
                  rcases insertMessageAndMaybeGossip env p (p.text (lit "recipient_id")) clock.now db with ⟨db', e | r⟩ <;> rfl
                · rfl

/-- A tombstone that is pulled is applied as `syncDeletion` does, or not at all. -/
theorem pullDeletion_cases (fingerprint : Str) (item maxId : Json) : ∃ limiter,
    (pullDeletion env interpreter fingerprint clock item maxId n).1 = { n with gossipPullLimiter := limiter } ∨
      ∃ p, item = .obj p ∧ (pullDeletion env interpreter fingerprint clock item maxId n).1 =
        { n with
          gossipPullLimiter := limiter
          server := { n.server with db := (syncDeletion env clock.now true p n.server.db).1 } } := by
  cases item with
  | obj p =>
    unfold pullDeletion
    dsimp only
    split
    · rename_i target htarget
      rcases n.gossipPullLimiter.checkGlobal clock.checkGlobal with ⟨limiter, _ | _⟩
      · exact ⟨_, .inl rfl⟩
      dsimp only
      rcases limiter.checkIdentity clock.checkIdentity fingerprint with ⟨limiter', _ | _⟩
      · exact ⟨_, .inl rfl⟩
      dsimp only
      cases maxOf interpreter maxId ((Dict.get p (lit "id")).getD maxId) with
      | stop => exact ⟨_, .inl rfl⟩
      | raised e => exact ⟨_, .inl rfl⟩
      | seen maxId =>
        refine ⟨limiter', .inr ⟨p, rfl, ?_⟩⟩
        simp only [syncDeletion, htarget]
        rcases applyPulledDeletion env clock.now p target n.server.db with ⟨db, e | (_ | _)⟩ <;> rfl
    · exact ⟨_, .inl rfl⟩
  | _ => exact ⟨_, .inl rfl⟩

section
variable {pull : Readings → Json → Json → Process → Process × Pulled} {R : Process → Process → Prop}

/-- What holds across every item, with its commit, holds across the loop. -/
theorem pullItems_rel (hrefl : ∀ n, R n n) (htrans : ∀ {n n' n''}, R n n' → R n' n'' → R n n'') {items : List Json}
    {clocks : Nat → Readings}
    (hpull : ∀ k item maxId n, item ∈ items →
      R n ((pull (clocks k) item maxId n).1.settle (commits n.server.db (pull (clocks k) item maxId n).1.server.db)))
    (k : Nat) (maxId : Json) (n : Process) : R n (pullItems pull clocks k maxId items n).1 := by
  induction items generalizing k maxId n with
  | nil => exact hrefl _
  | cons item items ih =>
    have hone := hpull k item maxId n List.mem_cons_self
    rw [pullItems]
    generalize pull (clocks k) item maxId n = r at hone ⊢
    obtain ⟨n', ending⟩ := r
    cases ending with
    | seen maxId =>
      exact htrans hone (ih (fun k item maxId n hitem => hpull k item maxId n (.tail _ hitem)) (k + 1) maxId _)
    | stop | raised => exact hone

/-- What holds across every item that is sent, and is kept by saving the cursor, holds across a round. -/
theorem syncPage_rel (hrefl : ∀ n, R n n) (htrans : ∀ {n n' n''}, R n n' → R n' n'' → R n n'') {name : Str} {reply : Reply}
    {clocks : Nat → Readings}
    (hpull : ∀ k item maxId n, Sent interpreter name reply item →
      R n ((pull (clocks k) item maxId n).1.settle (commits n.server.db (pull (clocks k) item maxId n).1.server.db)))
    {save : Json → Process → Process} (hsave : ∀ maxId n n', R n n' → R n (save maxId n')) (sinceId : Json) (n : Process) :
    R n (syncPage interpreter name pull save clocks sinceId reply n).1 := by
  unfold syncPage
  split
  · exact hrefl _
  rename_i status response
  split
  · exact hrefl _
  rename_i body hbody
  split
  · exact hrefl _
  split
  · exact hrefl _
  · rename_i data hdata
    split
    · exact hrefl _
    · rename_i items hitems
      have hall := pullItems_rel hrefl htrans (fun k item maxId n hitem =>
        hpull k item maxId n ⟨status, response, body, data, items, rfl, hbody, hdata, hitems, hitem⟩) 0 sinceId n
      generalize pullItems pull clocks 0 sinceId items n = r at hall ⊢
      obtain ⟨n', maxId | e⟩ := r
      · exact hall
      · exact hsave _ _ _ hall
  · exact hrefl _

end

theorem Loaded.get {platform : Platform} {d : Dict} {key : Str} {v : Json} (h : Loaded platform (.obj d))
    (hget : d.get key = some v) : Loaded platform v :=
  ⟨.mono v (Nat.sub_le _ 1) (readable_get h.readable hget), distinct_get h.distinct hget⟩

/-- What is iterated over has been read where the value has. -/
theorem Loaded.iterate {platform : Platform} {v : Json} (hv : Loaded platform v) {items : List Json}
    (h : Node.iterate v = .ok items) : ∀ item ∈ items, Loaded platform item := by
  obtain ⟨hread, hdistinct⟩ := hv
  cases v with
  | arr l =>
    cases h
    exact fun item hitem =>
      ⟨.mono item (Nat.sub_le _ 1) (readableAll_iff.1 hread.2 item hitem), distinctAll_iff.1 hdistinct item hitem⟩
  | str s =>
    cases h
    exact List.forall_mem_map.2 fun c hc => ⟨show CodePoints [c] from List.forall_mem_singleton.2 (hread c hc), trivial⟩
  | obj p =>
    cases h
    exact List.forall_mem_map.2 fun kv hkv => ⟨(readableItems_iff.1 hread.2 kv hkv).1, trivial⟩
  | _ => cases h

section
variable (hrepr : Stable interpreter.decoder.repr) (hdecode : ∀ raw t, interpreter.decoder.decode raw = some t → CodePoints t)
include hrepr hdecode

theorem loaded_of_loads {raw : Bytes} {v : Json} (h : loads interpreter.decoder raw = .ok v) : Loaded interpreter.toPlatform v :=
  ⟨readable_of_loads hrepr (hdecode raw) h, distinct_of_loads (hdecode raw) h⟩

theorem loaded_sent {name : Str} {reply : Reply} {item : Json} (h : Sent interpreter name reply item) :
    Loaded interpreter.toPlatform item := by
  obtain ⟨-, -, body, data, items, -, -, hdata, hitems, hitem⟩ := h
  have hloaded := loaded_of_loads hrepr hdecode hdata
  refine Loaded.iterate ?_ hitems item hitem
  cases hget : Dict.get data name with
  | none => exact ⟨⟨hloaded.readable.1, trivial⟩, trivial⟩
  | some v => exact hloaded.get hget

theorem pullMessage_moves (fingerprint : Str) {reply : Reply} {item : Json} (hsent : Sent interpreter (lit "messages") reply item)
    (hperforms : ∀ (item p : Dict) path gate identityGate, Sent interpreter (lit "messages") reply (.obj item) →
      item.get (lit "payload") = some (.obj p) → performs (.ingest path p clock.now gate identityGate)) (maxId : Json) :
    Moves env interpreter.toPlatform performs n ((pullMessage env interpreter fingerprint clock item maxId n).1.settle
      (commits n.server.db (pullMessage env interpreter fingerprint clock item maxId n).1.server.db)) := by
  have hitem := loaded_sent hrepr hdecode hsent
  unfold pullMessage
  split
  · rename_i item
    split
    · exact .settle (.refl _) rfl
    · rename_i p hp
      obtain ⟨limiter, h | h⟩ := pullPayload_cases fingerprint item p maxId
      · rw [h]
        exact .settle (.refl _) rfl
      · rw [h]
        exact .settle (.ingest (hitem.get hp) (hperforms item p _ _ _ hsent hp)) rfl
    · exact .settle (.refl _) rfl
  · exact .settle (.refl _) rfl

theorem pullDeletion_moves (fingerprint : Str) {reply : Reply} {item : Json} (hsent : Sent interpreter (lit "deletions") reply item)
    (hperforms : ∀ item gate, Sent interpreter (lit "deletions") reply (.obj item) → performs (.pullDeletion item clock.now gate))
    (maxId : Json) :
    Moves env interpreter.toPlatform performs n ((pullDeletion env interpreter fingerprint clock item maxId n).1.settle
      (commits n.server.db (pullDeletion env interpreter fingerprint clock item maxId n).1.server.db)) := by
  have hitem := loaded_sent hrepr hdecode hsent
  obtain ⟨limiter, h | ⟨p, rfl, h⟩⟩ := pullDeletion_cases fingerprint item maxId
  · rw [h]
    exact .settle (.refl _) rfl
  · rw [h]
    exact .settle (.pull hitem (hperforms p _ hsent)) rfl

/-- Every event but a restart comes down to its operations, on what has been read. -/
theorem handle_moves {e : Event} (hup : e.restarts = false) :
    Moves env interpreter.toPlatform (e.performs interpreter) n (handle env interpreter n e).1 := by
  cases e with
  | post h header stream clock =>
    have hdoes : Does env interpreter.toPlatform (Event.performs interpreter (.post h header stream clock)) n.server.db
        (doPost env interpreter.toPlatform clock h header stream n.server).1.db := by
      unfold doPost
      split
      · exact .refl _
      rename_i raw hreceived
      split
      · rename_i payload hloads
        by_cases hobj : ∃ p, payload = .obj p
        · obtain ⟨p, rfl⟩ := hobj
          have hcarries : Carries interpreter h header stream p := ⟨raw, hreceived, hloads⟩
          exact post_does (loaded_of_loads hrepr hdecode hloads) (fun _ _ _ => ⟨rfl, hcarries⟩) (fun _ => ⟨rfl, hcarries⟩) h n.server
        · rw [Handler.run_db env interpreter.toPlatform clock (not_exists.1 hobj)]
          exact .refl _
      · exact .refl _
      · exact .refl _
    apply Moves.settle_of
    · exact hdoes
    · rfl
    · exact commits_of_not_postCommits
  | syncWithPeer time fingerprint clocks reply =>
    have hround : Moves env interpreter.toPlatform (Event.performs interpreter (.syncWithPeer time fingerprint clocks reply)) n
        (syncWithPeer env interpreter fingerprint clocks reply n).1 := by
      apply syncPage_rel .refl .trans
      · exact fun k _ maxId _ hsent =>
          pullMessage_moves hrepr hdecode fingerprint hsent (fun item _ _ _ _ hitem hp => ⟨⟨k, rfl⟩, item, hitem, hp⟩) maxId
      · exact fun _ _ _ h => ⟨h.server, h.committed, h.behind⟩
    exact ⟨hround.server, hround.committed, hround.behind⟩
  | syncDeletionsWithPeer time fingerprint clocks reply =>
    have hround : Moves env interpreter.toPlatform
        (Event.performs interpreter (.syncDeletionsWithPeer time fingerprint clocks reply)) n
        (syncDeletionsWithPeer env interpreter fingerprint clocks reply n).1 := by
      apply syncPage_rel .refl .trans
      · exact fun k _ maxId _ hsent =>
          pullDeletion_moves hrepr hdecode fingerprint hsent (fun _ _ hitem => ⟨⟨k, rfl⟩, hitem⟩) maxId
      · exact fun _ _ _ h => ⟨h.server, h.committed, h.behind⟩
    exact ⟨hround.server, hround.committed, hround.behind⟩
  | sweep time now cutoffNow =>
    have hdoes : Does env interpreter.toPlatform (Event.performs interpreter (.sweep time now cutoffNow)) n.server.db
        (runOnce env now cutoffNow n.server.db).1 := .one (e := .sweep now cutoffNow) trivial ⟨rfl, rfl⟩ rfl
    revert hdoes
    simp only [handle, runOnce]
    cases cutoffNow.addSeconds (-env.maxTtlSeconds) with
    | none => exact fun hdoes => ⟨hdoes, .inl rfl, id⟩
    | some cutoff => exact fun hdoes => ⟨hdoes, .inr hdoes, fun _ => .refl _⟩
  | restart => cases hup

theorem step_moves {e : Event} {o : Obs} {n' : Process} (hup : e.restarts = false)
    (hstep : step env interpreter n e = some (n', o)) : Moves env interpreter.toPlatform (e.performs interpreter) n n' := by
  have hmoves : Moves env interpreter.toPlatform (e.performs interpreter) n (handle env interpreter n e).1 :=
    handle_moves hrepr hdecode hup
  rwa [(step_eq hstep).2] at hmoves

end

/-- A restart takes the tables from the file. -/
theorem step_restarts {e : Event} {o : Obs} {n' : Process} (hrestarts : e.restarts = true)
    (hstep : step env interpreter n e = some (n', o)) : n'.server.db = n.committed ∧ n'.committed = n.committed := by
  cases e with
  | restart time client push pull =>
    obtain ⟨rfl, -⟩ := Prod.mk.inj (step_eq hstep).2
    exact ⟨rfl, rfl⟩
  | _ => cases hrestarts

/-- The operations that the events of a history come down to. -/
def Performed (interpreter : Interpreter) (h : List (Event × Obs)) (a : AtomicEvent) : Prop :=
  ∃ x ∈ h, x.1.performs interpreter a

section
variable (hrepr : Stable interpreter.decoder.repr) (hdecode : ∀ raw t, interpreter.decoder.decode raw = some t → CodePoints t)
include hrepr hdecode

/-- The tables of a relay and its file come from operations of its events on what has been read; those a restart has rolled
back are left out. -/
theorem node_does {client push pull : Limits} {time : ℚ} {h : List (Event × Obs)}
    (hrun : NodeRun env interpreter client push pull time h n) :
    Does env interpreter.toPlatform (Performed interpreter h) .empty n.server.db ∧
      Does env interpreter.toPlatform (Performed interpreter h) .empty n.committed := by
  induction hrun with
  | nil => exact ⟨.refl _, .refl _⟩
  | @snoc h n e o n' _ _ hstep ih =>
    have hpast : ∀ a, Performed interpreter h a → Performed interpreter (h ++ [(e, o)]) a := by
      rintro a ⟨x, hx, hperforms⟩
      exact ⟨x, List.mem_append_left _ hx, hperforms⟩
    have hnow : ∀ a, e.performs interpreter a → Performed interpreter (h ++ [(e, o)]) a := fun a ha =>
      ⟨(e, o), List.mem_append_right _ (List.mem_singleton.2 rfl), ha⟩
    have hserver := ih.1.mono hpast
    have hcommitted := ih.2.mono hpast
    cases hrestarts : e.restarts with
    | true =>
      obtain ⟨hdb, hfile⟩ := step_restarts hrestarts hstep
      rw [hdb, hfile]
      exact ⟨hcommitted, hcommitted⟩
    | false =>
      have hmoves := step_moves hrepr hdecode hrestarts hstep
      refine ⟨hserver.trans (hmoves.server.mono hnow), ?_⟩
      rcases hmoves.committed with hsame | hdoes
      · rw [hsame]
        exact hcommitted
      · exact hserver.trans (hdoes.mono hnow)

theorem step_behind {e : Event} {o : Obs} {n' : Process} (hbehind : Behind n.server.db n.committed)
    (hstep : step env interpreter n e = some (n', o)) : Behind n'.server.db n'.committed := by
  cases hrestarts : e.restarts with
  | true =>
    obtain ⟨hdb, hfile⟩ := step_restarts hrestarts hstep
    rw [hdb, hfile]
    exact .refl _
  | false => exact (step_moves hrepr hdecode hrestarts hstep).behind hbehind

/-- The file is behind the tables by messages that have gone, in every state of a relay. -/
theorem node_behind {client push pull : Limits} {time : ℚ} {h : List (Event × Obs)}
    (hrun : NodeRun env interpreter client push pull time h n) : Behind n.server.db n.committed :=
  hrun.inv (fun n => Behind n.server.db n.committed) (.refl _) fun _ _ _ _ hbehind _ hstep =>
    step_behind hrepr hdecode hbehind hstep

end

end

/-! ### Down to the sections -/

/-- A run of single operations is a schedule of the relay that handles them section by section. -/
theorem atomic_scheduled {env : Env} {h : List (AtomicEvent × AtomicObs)} {db : Db} {ok : Db → AtomicEvent → Prop}
    (hrun : Run (atomicStep env) ok .empty h db) : ∃ h' s, RelayRun env Any h' s ∧ s.db = db := by
  induction hrun with
  | nil => exact ⟨[], .init, .nil, rfl⟩
  | @snoc h db e o db' _ _ hstep ih =>
    obtain ⟨l, s, hs, rfl⟩ := ih
    cases e with
    | ingest path p now gate identityGate =>
      cases hstep
      -- The ingestion arrives, and then takes all its sections before anything else happens.
      have harrive : RelayRun env Any (l ++ [(.arrive path p, .arrived)]) { s with ingests := s.ingests ++ [⟨path, p, .messageExists⟩] } :=
        hs.snoc trivial rfl
      have hnew : ({ s with ingests := s.ingests ++ [⟨path, p, .messageExists⟩] } : Relay env).ingests[s.ingests.length]? =
          some ⟨path, p, .messageExists⟩ := by simp
      obtain ⟨l', hl'⟩ := ingest_schedule now gate identityGate hnew
      exact ⟨_, _, harrive.trans hl'.any, rfl⟩
    | delete p now gate =>
      cases hstep
      exact ⟨_, _, hs.snoc (e := .delete p now gate) trivial rfl, rfl⟩
    | pullDeletion item now gate =>
      cases hstep
      exact ⟨_, _, hs.snoc (e := .pullDeletion item now gate) trivial rfl, rfl⟩
    | sweep now cutoffNow =>
      cases hstep
      exact ⟨_, _, hs.snoc (e := .sweep now cutoffNow) trivial rfl, rfl⟩

/-- Whatever is sent to a relay, and whatever its peers answer: its tables are those of a run of operations of its events
on what has been read, and of a schedule of their sections. -/
theorem node_refines {env : Env} {interpreter : Interpreter} (hrepr : Stable interpreter.decoder.repr)
    (hdecode : ∀ raw t, interpreter.decoder.decode raw = some t → CodePoints t) {client push pull : Limits} {time : ℚ}
    {h : List (Event × Obs)} {n : Process} (hrun : NodeRun env interpreter client push pull time h n) :
    (∃ h', Run (atomicStep env) (fun db a => HeardEvent interpreter.toPlatform db a ∧ Performed interpreter h a) .empty h'
        n.server.db) ∧
      ∃ h' s, RelayRun env Any h' s ∧ s.db = n.server.db := by
  obtain ⟨⟨h', hrun'⟩, -⟩ := node_does hrepr hdecode hrun
  exact ⟨⟨h', hrun'⟩, atomic_scheduled hrun'⟩

/-- The sample relay has the tables of a run on what it has read. -/
theorem node_refines_sample : ∃ h', Run (atomicStep Sample.config) (fun db a => HeardEvent .usual db a ∧
    Performed usualInterpreter [(samplePost, (handle Sample.config usualInterpreter sampleStart samplePost).2)] a) .empty h'
      sampleNode.server.db :=
  (node_refines stable_usual decodes_usual sample_run).1

end AetherNode.Node
