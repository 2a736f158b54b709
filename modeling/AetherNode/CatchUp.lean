import AetherNode.AntiEntropy
import AetherNode.Lib.Cursor
/-!
# Catching up

A puller that stays up pulls the messages of one source, round after round,
while both serve their own requests and the source restarts: from its
database, or, if that is `:memory:`, from an empty one whose ids begin anew.
All the puller knows of the source is the largest id it has been through. It
leaves no row behind unless the source stores one under an id that is not
above it. `round_alone` is the link to the round that nothing interrupts.
-/
open AetherNode.Lib AetherNode.Lib.Json AetherNode.Protocol

namespace AetherNode.CatchUp

/-! ## The source and the puller -/

/-- A round under way: its page, the life of the source that served it, and the ingestion of the first row of the
page once that has begun. -/
structure Pull where
  page : Cursor.Page Message
  life : Nat
  current : Option Nat

/-- The two relays, and what `_sync_with_peer` holds. A life of the source begins with an empty database. -/
structure State (sourceEnv env : Env) where
  source : Relay sourceEnv
  life : Nat
  puller : Relay env
  lastSeenId : Nat
  pull : Option Pull

inductive Event where
  /-- A request, a section or a sweep at either relay. -/
  | source (e : AetherNode.Event)
  | puller (e : AetherNode.Event)
  /-- The source restarts, and its requests under way are gone. A `DELETE` that a pulled tombstone has left in sqlite3's
  open transaction is not taken back. -/
  | restart (ephemeral : Bool)
  /-- A round asks for its page. -/
  | request
  /-- The first row of the page begins, and ends. -/
  | begin
  | finish
  /-- The round saves its cursor. -/
  | save

inductive Obs where
  | source (o : AetherNode.Obs)
  | puller (o : AetherNode.Obs)
  | restarted
  | refused
  | page (rows : List (Nat × Message))
  | begun
  | handled (life : Nat) (row : Nat × Message) (o : Outcome)
  | throttled
  | aborted
  | saved

variable {sourceEnv env : Env}

/-- The loop over the page, on the end of its first row: an exception loses the round, and a limiter ends the loop. -/
def finishRow (s : State sourceEnv env) (maxId life : Nat) (row : Nat × Message) (rest : List (Nat × Message)) :
    Outcome → State sourceEnv env × Obs
  | .raised _ => ({ s with pull := none }, .aborted)
  | .rateLimited => ({ s with pull := some ⟨⟨maxId, []⟩, life, none⟩ }, .throttled)
  | o => ({ s with pull := some ⟨⟨max maxId row.1, rest⟩, life, none⟩ }, .handled life row o)

def step (sourceEnv env : Env) : System (State sourceEnv env) Event Obs
  | s, .source e => (AetherNode.step sourceEnv s.source e).map fun r => ({ s with source := r.1 }, .source r.2)
  | s, .puller e => (AetherNode.step env s.puller e).map fun r => ({ s with puller := r.1 }, .puller r.2)
  | s, .restart true => some ({ s with source := .init, life := s.life + 1 }, .restarted)
  | s, .restart false => some ({ s with source := ⟨s.source.db, []⟩ }, .restarted)
  | s, .request =>
    if s.pull.isSome then none
    else
      match AntiEntropy.readBoundedResponse
          (AntiEntropy.sendJson (Gossip.messagesBody s.source.db s.lastSeenId)) maxBodyBytes with
      | .error _ => some (s, .refused)
      | .ok _ =>
        let rows := Gossip.messageRows s.source.db s.lastSeenId
        some ({ s with pull := some ⟨⟨s.lastSeenId, rows⟩, s.life, none⟩ }, .page rows)
  | s, .begin =>
    match s.pull with
    | some ⟨⟨maxId, row :: rest⟩, life, none⟩ =>
      some ({ s with
        puller := ⟨s.puller.db, s.puller.ingests ++ [⟨.antiEntropyPull, row.2.payload, .messageExists⟩]⟩
        pull := some ⟨⟨maxId, row :: rest⟩, life, some s.puller.ingests.length⟩ }, .begun)
    | _ => none
  | s, .finish =>
    match s.pull with
    | some ⟨⟨maxId, row :: rest⟩, life, some i⟩ =>
      match s.puller.ingests[i]? with
      | some ⟨_, _, .done o⟩ => some (finishRow s maxId life row rest o)
      | _ => none
    | _ => none
  | s, .save =>
    match s.pull with
    | some ⟨⟨maxId, []⟩, _, none⟩ => some ({ s with lastSeenId := maxId, pull := none }, .saved)
    | _ => none

/-- Both relays are new. -/
def init : State sourceEnv env := ⟨.init, 0, .init, 0, none⟩

/-! ## A round that runs alone -/

section
variable {s : State sourceEnv env}

/-- The puller's own steps are steps of both. -/
theorem puller_run {ok : Relay env → AetherNode.Event → Prop} {puller puller' : Relay env}
    {h : List (AetherNode.Event × AetherNode.Obs)} (hr : Run (AetherNode.step env) ok puller h puller') :
    Run (step sourceEnv env) Any { s with puller := puller } (h.map fun x => (.puller x.1, .puller x.2))
      { s with puller := puller' } := by
  induction hr with
  | nil => exact .nil
  | snoc _ _ hstep ih =>
    rw [List.map_append]
    refine ih.snoc trivial ?_
    simp [step, hstep]

/-- The first row of a page, handled alone. -/
theorem row_alone (s : State sourceEnv env) (now : Datetime) (gate identityGate : Bool) (maxId life : Nat)
    (row : Nat × Message) (rest : List (Nat × Message)) {db db' : Db} {o : Outcome}
    (h : ingest env .antiEntropyPull now gate identityGate row.2.payload db = (db', o)) (ingests : List (Ingest env)) :
    ∃ h ingests', Run (step sourceEnv env) Any
      { s with puller := ⟨db, ingests⟩, pull := some ⟨⟨maxId, row :: rest⟩, life, none⟩ } h
      (finishRow { s with puller := ⟨db', ingests'⟩ } maxId life row rest o).1 := by
  let first : Ingest env := ⟨.antiEntropyPull, row.2.payload, .messageExists⟩
  let ended : Ingest env := ⟨.antiEntropyPull, row.2.payload, .done o⟩
  let t : State sourceEnv env := { s with pull := some ⟨⟨maxId, row :: rest⟩, life, some ingests.length⟩ }
  have hbegin : step sourceEnv env
      { s with puller := ⟨db, ingests⟩, pull := some ⟨⟨maxId, row :: rest⟩, life, none⟩ } .begin =
        some ({ t with puller := ⟨db, ingests ++ [first]⟩ }, .begun) := rfl
  -- The sections of the ingestion, with nothing in between.
  have hfinishes : Finishes (⟨db, ingests ++ [first]⟩ : Relay env) ingests.length .antiEntropyPull row.2.payload
      (ingest env .antiEntropyPull now gate identityGate row.2.payload db) :=
    ingest_schedule now gate identityGate (by simp [first])
  rw [h] at hfinishes
  obtain ⟨hsections, hrun⟩ : ∃ h, Run (AetherNode.step env) _ ⟨db, ingests ++ [first]⟩ h
    ⟨db', (ingests ++ [first]).set ingests.length ended⟩ := hfinishes
  have hfinish : step sourceEnv env { t with puller := ⟨db', (ingests ++ [first]).set ingests.length ended⟩ } .finish =
      some (finishRow { s with puller := ⟨db', (ingests ++ [first]).set ingests.length ended⟩ } maxId life row rest
        o) := by
    have hdone : ((ingests ++ [first]).set ingests.length ended)[ingests.length]? = some ended := by simp
    simp only [step, t, hdone]
    cases o <;> rfl
  have hone : Run (step sourceEnv env) Any _ ([] ++ [_]) _ := Run.nil.snoc trivial hbegin
  exact ⟨_, _, (hone.trans (puller_run hrun)).snoc trivial hfinish⟩

/-- The rows of a page one after another do what `syncRows` computes. -/
theorem rows_alone (s : State sourceEnv env) (round : AntiEntropy.Round) (life : Nat) (rows : List (Nat × Message))
    {db db' : Db} {k maxId : Nat} {last : Except PyError Nat}
    (h : AntiEntropy.syncRows (AntiEntropy.syncMessage env round) k maxId db rows = (db', last))
    (ingests : List (Ingest env)) :
    ∃ h ingests', Run (step sourceEnv env) Any
      { s with puller := ⟨db, ingests⟩, pull := some ⟨⟨maxId, rows⟩, life, none⟩ } h
      { s with
        puller := ⟨db', ingests'⟩
        lastSeenId := AntiEntropy.cursorAfter s.lastSeenId last
        pull := none } := by
  induction rows generalizing db k maxId ingests with
  | nil =>
    obtain ⟨rfl, rfl⟩ := Prod.mk.inj h
    exact ⟨_, ingests, Run.nil.snoc trivial (show step sourceEnv env _ .save = some (_, .saved) from rfl)⟩
  | cons row rest ih =>
    obtain ⟨id, m⟩ := row
    cases hitem : ingest env .antiEntropyPull round.now (round.checkGlobal k) (round.checkIdentity k) m.payload db with
    | mk db₁ o =>
      obtain ⟨h₁, ingests₁, hrow⟩ := row_alone s round.now _ _ maxId life (id, m) rest hitem ingests
      simp only [AntiEntropy.syncRows, AntiEntropy.syncMessage, hitem] at h
      cases o with
      | raised e =>
        obtain ⟨rfl, rfl⟩ := Prod.mk.inj h
        exact ⟨_, ingests₁, hrow⟩
      | rateLimited =>
        obtain ⟨rfl, rfl⟩ := Prod.mk.inj h
        exact ⟨_, ingests₁, hrow.snoc trivial (show step sourceEnv env _ .save = some (_, .saved) from rfl)⟩
      | _ =>
        obtain ⟨h₂, ingests₂, hrest⟩ := ih h ingests₁
        exact ⟨_, ingests₂, hrow.trans hrest⟩

/-- Left alone, a round does what `_sync_with_peer` does. -/
theorem round_alone (s : State sourceEnv env) (hidle : s.pull = none) (round : AntiEntropy.Round)
    {p p' : AntiEntropy.Puller} {r : AntiEntropy.RoundEnd} (hdb : p.db = s.puller.db)
    (hcursor : p.lastSeenId = s.lastSeenId) (h : AntiEntropy.syncWithPeer env round s.source.db p = (p', r)) :
    ∃ h ingests, Run (step sourceEnv env) Any s h
      { s with puller := ⟨p'.db, ingests⟩, lastSeenId := p'.lastSeenId } := by
  unfold AntiEntropy.syncWithPeer at h
  rw [hdb, hcursor] at h
  generalize hread : AntiEntropy.readBoundedResponse (AntiEntropy.sendJson
    (Gossip.messagesBody s.source.db s.lastSeenId)) maxBodyBytes = read at h
  cases read with
  | error e =>
    obtain ⟨rfl, -⟩ := Prod.mk.inj h
    rw [hdb, hcursor]
    exact ⟨[], s.puller.ingests, .nil⟩
  | ok body =>
    have hrequest : step sourceEnv env s .request = some ({ s with
        puller := ⟨s.puller.db, s.puller.ingests⟩
        pull := some ⟨⟨s.lastSeenId, Gossip.messageRows s.source.db s.lastSeenId⟩, s.life, none⟩ },
          .page (Gossip.messageRows s.source.db s.lastSeenId)) := by
      simp [step, hidle, hread]
    have hone : Run (step sourceEnv env) Any s ([] ++ [_]) _ := Run.nil.snoc trivial hrequest
    dsimp only at h
    generalize hrows : AntiEntropy.syncRows (AntiEntropy.syncMessage env round) 0 s.lastSeenId s.puller.db
      (Gossip.messageRows s.source.db s.lastSeenId) = result at h
    obtain ⟨db', last⟩ := result
    obtain ⟨h', ingests', hloop⟩ := rows_alone s round s.life _ hrows s.puller.ingests
    refine ⟨[] ++ [_] ++ h', ingests', hone.trans ?_⟩
    cases last with
    | error e =>
      obtain ⟨rfl, -⟩ := Prod.mk.inj h
      rw [hidle]
      exact hloop
    | ok maxId =>
      obtain ⟨rfl, -⟩ := Prod.mk.inj h
      rw [hidle]
      exact hloop

end

/-- The row of the source's life has been in a page, and was found to be a duplicate, over the quota, invalid or
deleted, or was inserted. -/
def Offered (h : List (Event × Obs)) (life : Nat) (row : Nat × Message) : Prop :=
  ∃ o, (.finish, .handled life row o) ∈ h ∧ o ≠ .rateLimited ∧ ∀ e, o ≠ .raised e

/-- The source stores under an id above the cursor, and no row it stores has an id within a page of an earlier life
that is saved as the cursor. -/
structure Ahead (s : State sourceEnv env) (e : Event) : Prop where
  stores : ∀ i now gate g hv, e = .source (.advance i now gate) → s.source.ingests[i]? = some g → g.phase = .insert hv →
    s.source.db.message (g.payload.text (lit "signature")) = none →
    quotaReached sourceEnv (g.payload.text (lit "recipient_id")) s.source.db = false →
    (messageOf g.payload (g.payload.text (lit "recipient_id")) now).binds = true →
    s.lastSeenId < s.source.db.messages.seq + 1
  saves : e = .save → ∀ pull, s.pull = some pull → pull.life ≠ s.life →
    ∀ row ∈ s.source.db.messages.rows, pull.page.maxId < row.1

/-! ## What a step does -/

variable {h : List (Event × Obs)} {s s' : State sourceEnv env} {e : Event} {o : Obs}

/-- Every way a step changes what the two relays know of each other. -/
inductive Effect (s : State sourceEnv env) : Event → Obs → State sourceEnv env → Prop
  | source {e source o} : AetherNode.step sourceEnv s.source e = some (source, o) →
      Effect s (.source e) (.source o) { s with source := source }
  | puller {e puller o} : Effect s (.puller e) (.puller o) { s with puller := puller }
  /-- The source restarts from its database, or from an empty one. -/
  | restarts : Effect s (.restart false) .restarted { s with source := ⟨s.source.db, []⟩ }
  | forgets : Effect s (.restart true) .restarted { s with source := .init, life := s.life + 1 }
  /-- The page is too long, or it is served. -/
  | refused : Effect s .request .refused s
  | requests : Effect s .request (.page (Gossip.messageRows s.source.db s.lastSeenId))
      { s with pull := some ⟨⟨s.lastSeenId, Gossip.messageRows s.source.db s.lastSeenId⟩, s.life, none⟩ }
  | begins {pull current puller} : s.pull = some pull →
      Effect s .begin .begun { s with puller := puller, pull := some { pull with current := current } }
  /-- The first row of the page is handled, or ends the loop, or the round. -/
  | handles {maxId life i row rest o} : s.pull = some ⟨⟨maxId, row :: rest⟩, life, some i⟩ → o ≠ .rateLimited →
      (∀ e, o ≠ .raised e) → Effect s .finish (.handled life row o)
        { s with pull := some ⟨⟨max maxId row.1, rest⟩, life, none⟩ }
  | throttles {maxId life i row rest} : s.pull = some ⟨⟨maxId, row :: rest⟩, life, some i⟩ →
      Effect s .finish .throttled { s with pull := some ⟨⟨maxId, []⟩, life, none⟩ }
  | aborts : Effect s .finish .aborted { s with pull := none }
  | saves {pull} : s.pull = some pull → Effect s .save .saved { s with lastSeenId := pull.page.maxId, pull := none }

theorem step_effect (h : step sourceEnv env s e = some (s', o)) : Effect s e o s' := by
  cases e with
  | source e =>
    obtain ⟨r, hr, hx⟩ := Option.map_eq_some_iff.1 h
    obtain ⟨rfl, rfl⟩ := Prod.mk.inj hx
    exact .source hr
  | puller e =>
    obtain ⟨r, -, hx⟩ := Option.map_eq_some_iff.1 h
    obtain ⟨rfl, rfl⟩ := Prod.mk.inj hx
    exact .puller
  | restart ephemeral =>
    cases ephemeral with
    | true =>
      obtain ⟨rfl, rfl⟩ := Prod.mk.inj (Option.some.inj h)
      exact .forgets
    | false =>
      obtain ⟨rfl, rfl⟩ := Prod.mk.inj (Option.some.inj h)
      exact .restarts
  | request =>
    simp only [step] at h
    split at h
    · cases h
    split at h
    · obtain ⟨rfl, rfl⟩ := Prod.mk.inj (Option.some.inj h)
      exact .refused
    · obtain ⟨rfl, rfl⟩ := Prod.mk.inj (Option.some.inj h)
      exact .requests
  | begin =>
    simp only [step] at h
    split at h
    · rename_i maxId row rest life hpull
      obtain ⟨rfl, rfl⟩ := Prod.mk.inj (Option.some.inj h)
      exact .begins hpull
    · cases h
  | finish =>
    simp only [step] at h
    split at h
    · rename_i maxId row rest life i hpull
      split at h
      · rename_i ending _
        obtain ⟨rfl, rfl⟩ := Prod.mk.inj (Option.some.inj h)
        cases ending with
        | raised e => exact .aborts
        | rateLimited => exact .throttles hpull
        | _ => exact .handles hpull (by simp) (by simp)
      · cases h
    · cases h
  | save =>
    simp only [step] at h
    split at h
    · rename_i maxId life hpull
      obtain ⟨rfl, rfl⟩ := Prod.mk.inj (Option.some.inj h)
      exact .saves hpull
    · cases h

/-! ## What has been offered -/

theorem Offered.later {life : Nat} {row : Nat × Message} (hrow : Offered h life row) (x : Event × Obs) :
    Offered (h ++ [x]) life row := by
  obtain ⟨o, hmem, hsettled⟩ := hrow
  exact ⟨o, List.mem_append_left _ hmem, hsettled⟩

/-- What is stored up to the cursor has been offered, and so has what the round is past, if it was served in this life
of the source. -/
structure Sound (h : List (Event × Obs)) (s : State sourceEnv env) : Prop where
  cursor : Cursor.Covered s.source.db.messages.rows (Offered h s.life) s.lastSeenId
  past : ∀ pull, s.pull = some pull → pull.life ≤ s.life
  page : ∀ pull, s.pull = some pull → pull.life = s.life →
    pull.page.Sound s.source.db.messages.rows (Offered h s.life) ∧
      pull.page.Within (max s.lastSeenId s.source.db.messages.seq)

theorem Sound.later (hs : Sound h s) (x : Event × Obs) : Sound (h ++ [x]) s := by
  have hmono := fun row (hrow : Offered h s.life row) => hrow.later x
  refine ⟨hs.cursor.mono hmono, hs.past, ?_⟩
  intro pull hpull hlife
  obtain ⟨hsound, hwithin⟩ := hs.page pull hpull hlife
  exact ⟨hsound.mono hmono, hwithin⟩

/-- The source goes on in its life, with new ids above the cursor and all earlier ones. -/
theorem Sound.evolve (hs : Sound h s) {source : Relay sourceEnv}
    (hseq : s.source.db.messages.seq ≤ source.db.messages.seq)
    (hrows : ∀ row ∈ source.db.messages.rows,
      row ∈ s.source.db.messages.rows ∨ max s.lastSeenId s.source.db.messages.seq < row.1) :
    Sound h { s with source := source } := by
  constructor
  · exact hs.cursor.evolve fun row hrow => (hrows row hrow).imp_right (lt_of_le_of_lt (le_max_left _ _))
  · exact hs.past
  · intro pull hpull hlife
    obtain ⟨hsound, hwithin⟩ := hs.page pull hpull hlife
    exact ⟨hsound.evolve hwithin hrows, hwithin.later (max_le_max_left _ hseq)⟩

/-- A step of the source. -/
theorem source_sound {e : AetherNode.Event} {source : Relay sourceEnv} {o : AetherNode.Obs} (hs : Sound h s)
    (hok : Ahead s (.source e)) (hstep : AetherNode.step sourceEnv s.source e = some (source, o)) :
    Sound h { s with source := source } := by
  rcases step_messages hstep with hsheds | ⟨i, now, gate, g, hv, id, rfl, hg, hph, -, hgains⟩
  · exact hs.evolve hsheds.seq.ge fun row hrow => .inl (hsheds.rows.subset hrow)
  · have hahead := hok.stores i now gate g hv rfl hg hph hgains.fresh hgains.room hgains.binds
    have habove := hgains.above
    refine hs.evolve (by rw [hgains.seq]; exact habove.le) ?_
    intro row hrow
    rw [hgains.rows] at hrow
    rcases List.mem_append.1 hrow with hrow | hrow
    · exact .inl hrow
    · rw [List.mem_singleton.1 hrow]
      exact .inr (max_lt (by omega) habove)

/-- An ephemeral source starts again, and a page of the life before is no longer of this one. -/
theorem ephemeral_sound (hs : Sound h s) :
    Sound h { s with source := (Relay.init : Relay sourceEnv), life := s.life + 1 } := by
  constructor
  · intro row hrow
    cases hrow
  · intro pull hpull
    exact (hs.past pull hpull).trans (Nat.le_succ _)
  · intro pull hpull hlife
    have : pull.life = s.life + 1 := hlife
    have := hs.past pull hpull
    omega

/-- A page is served. -/
theorem request_sound (hs : Sound h s) :
    Sound h { s with pull := some ⟨⟨s.lastSeenId, Gossip.messageRows s.source.db s.lastSeenId⟩, s.life, none⟩ } := by
  constructor
  · exact hs.cursor
  · rintro pull hpull
    obtain rfl := Option.some.inj hpull
    exact le_rfl
  · rintro pull hpull -
    obtain rfl := Option.some.inj hpull
    rw [Gossip.messageRows, Gossip.pageRows_eq_window]
    constructor
    · exact Cursor.sound_window s.source.db.messages.sorted (by simp) hs.cursor
    · exact Cursor.within_window (le_max_left _ _)
        (fun row hrow => (s.source.db.messages.bounded row hrow).trans (le_max_right _ _)) _

/-- The round goes on with another page, sound if the one before was. -/
theorem Sound.turn (hs : Sound h s) {pull pull' : Pull} (hpull : s.pull = some pull) (hlife : pull'.life = pull.life)
    (hpage : ∀ n, pull.page.Sound s.source.db.messages.rows (Offered h s.life) ∧ pull.page.Within n →
      pull'.page.Sound s.source.db.messages.rows (Offered h s.life) ∧ pull'.page.Within n) (puller : Relay env) :
    Sound h { s with puller := puller, pull := some pull' } := by
  constructor
  · exact hs.cursor
  · intro next hnext
    obtain rfl := Option.some.inj hnext
    rw [hlife]
    exact hs.past pull hpull
  · intro next hnext hnow
    obtain rfl := Option.some.inj hnext
    exact hpage _ (hs.page pull hpull (hlife.symm.trans hnow))

/-- The first row of the page has been handled. -/
theorem handled_sound (hs : Sound h s) {maxId life i : Nat} {row : Nat × Message} {rest : List (Nat × Message)}
    {o : Outcome} (hpull : s.pull = some ⟨⟨maxId, row :: rest⟩, life, some i⟩) (hnl : o ≠ .rateLimited)
    (hnr : ∀ e, o ≠ .raised e) :
    Sound (h ++ [(.finish, .handled life row o)]) { s with pull := some ⟨⟨max maxId row.1, rest⟩, life, none⟩ } := by
  have hlater := hs.later (.finish, .handled life row o)
  constructor
  · exact hlater.cursor
  · intro next hnext
    obtain rfl := Option.some.inj hnext
    have hpast := hs.past _ hpull
    exact hpast
  · rintro next hnext (hnow : next.life = s.life)
    obtain rfl := Option.some.inj hnext
    obtain ⟨hsound, hwithin⟩ := hlater.page _ hpull hnow
    refine ⟨hsound.pass ⟨o, ?_, hnl, hnr⟩, hwithin.pass⟩
    rw [← hnow]
    exact List.mem_append_right h (List.mem_singleton.2 rfl)

/-- The round ends: its last id becomes the cursor. -/
theorem save_sound (hs : Sound h s) (hok : Ahead s .save) {pull : Pull} (hpull : s.pull = some pull) :
    Sound h { s with lastSeenId := pull.page.maxId, pull := none } := by
  refine ⟨?_, by simp, by simp⟩
  by_cases hlife : pull.life = s.life
  · exact (hs.page pull hpull hlife).1.passed
  · -- The page is of an earlier life: nothing that is stored now can be up to its last id.
    intro row hrow (hle : row.1 ≤ pull.page.maxId)
    have := hok.saves rfl pull hpull hlife row hrow
    omega

theorem step_sound (hs : Sound h s) (hok : Ahead s e) (hstep : step sourceEnv env s e = some (s', o)) :
    Sound (h ++ [(e, o)]) s' := by
  have hlater := hs.later (e, o)
  cases step_effect hstep with
  | source hr => exact (source_sound hs hok hr).later _
  | puller => exact ⟨hlater.cursor, hlater.past, hlater.page⟩
  | restarts => exact ⟨hlater.cursor, hlater.past, hlater.page⟩
  | forgets => exact (ephemeral_sound hs).later _
  | refused => exact hlater
  | requests => exact (request_sound hs).later _
  | begins hpull =>
    refine Sound.turn hlater hpull ?_ ?_ _
    · rfl
    · exact fun _ hpage => hpage
  | handles hpull hnl hnr => exact handled_sound hs hpull hnl hnr
  | throttles hpull =>
    refine Sound.turn hlater hpull ?_ ?_ s.puller
    · rfl
    · rintro n ⟨hsound, hwithin⟩
      exact ⟨⟨hsound.passed, .nil, by simp⟩, ⟨hwithin.maxId, by simp⟩⟩
  | aborts => exact ⟨hlater.cursor, by simp, by simp⟩
  | saves hpull => exact (save_sound hs hok hpull).later _

theorem run_sound (hr : Run (step sourceEnv env) Ahead init h s) : Sound h s := by
  refine hr.inv_hist Sound ?_ fun h s e s' o hs hok hstep => step_sound hs hok hstep
  refine ⟨?_, by simp [init], by simp [init]⟩
  intro row hrow
  cases hrow

/-! ## No row is left behind -/

/-- A round that gets an empty page finds everything offered. -/
theorem offered_of_empty (hs : Sound h s) (hstep : step sourceEnv env s .request = some (s', .page [])) :
    ∀ row ∈ s'.source.db.messages.rows, Offered h s'.life row := by
  have heffect := step_effect hstep
  generalize hrows : ([] : List (Nat × Message)) = rows at heffect
  cases heffect with
  | requests =>
    rw [Gossip.messageRows, Gossip.pageRows_eq_window] at hrows
    exact Cursor.done_of_window_nil (by decide) (by simp) hs.cursor hrows.symm

/-! ## A source that keeps its database -/

/-- The source does not restart with an empty database. -/
def Durable (_ : State sourceEnv env) (e : Event) : Prop := e ≠ .restart true

/-- The cursor and the page are within the ids that the source has used. -/
structure Within (s : State sourceEnv env) : Prop where
  cursor : s.lastSeenId ≤ s.source.db.messages.seq
  page : ∀ pull, s.pull = some pull → pull.life = s.life ∧ pull.page.Within s.source.db.messages.seq

theorem ahead_of_le (hcursor : s.lastSeenId ≤ s.source.db.messages.seq)
    (hlife : ∀ pull, s.pull = some pull → pull.life = s.life) (e : Event) : Ahead s e := by
  constructor
  · intro i now gate g hv _ _ _ _ _ _
    exact Nat.lt_succ_of_le hcursor
  · intro _ pull hpull hne
    exact absurd (hlife pull hpull) hne

theorem Within.turn (hs : Within s) {pull pull' : Pull} (hpull : s.pull = some pull) (hlife : pull'.life = pull.life)
    (hpage : ∀ n, pull.page.Within n → pull'.page.Within n) (puller : Relay env) :
    Within { s with puller := puller, pull := some pull' } := by
  refine ⟨hs.cursor, ?_⟩
  intro next hnext
  obtain rfl := Option.some.inj hnext
  obtain ⟨hnow, hwithin⟩ := hs.page pull hpull
  exact ⟨hlife.trans hnow, hpage _ hwithin⟩

theorem step_within (hs : Within s) (hok : Durable s e) (hstep : step sourceEnv env s e = some (s', o)) :
    Within s' := by
  cases step_effect hstep with
  | @source e source o hr =>
    have hseq : s.source.db.messages.seq ≤ source.db.messages.seq := by
      rcases step_messages hr with hsheds | ⟨i, now, gate, g, hv, id, -, -, -, -, hgains⟩
      · exact hsheds.seq.ge
      · rw [hgains.seq]
        exact hgains.above.le
    exact ⟨hs.cursor.trans hseq, fun pull hpull => (hs.page pull hpull).imp_right fun hwithin => hwithin.later hseq⟩
  | puller => exact ⟨hs.cursor, hs.page⟩
  | restarts => exact ⟨hs.cursor, hs.page⟩
  | forgets => exact absurd rfl hok
  | refused => exact hs
  | requests =>
    refine ⟨hs.cursor, ?_⟩
    intro pull hpull
    obtain rfl := Option.some.inj hpull
    refine ⟨rfl, ?_⟩
    rw [Gossip.messageRows, Gossip.pageRows_eq_window]
    exact Cursor.within_window hs.cursor s.source.db.messages.bounded _
  | begins hpull =>
    refine Within.turn hs hpull ?_ ?_ _
    · rfl
    · exact fun _ hpage => hpage
  | handles hpull =>
    refine Within.turn hs hpull ?_ ?_ s.puller
    · rfl
    · exact fun _ hwithin => hwithin.pass
  | throttles hpull =>
    refine Within.turn hs hpull ?_ ?_ s.puller
    · rfl
    · exact fun _ hwithin => ⟨hwithin.maxId, by simp⟩
  | aborts => exact ⟨hs.cursor, by simp⟩
  | saves hpull => exact ⟨(hs.page _ hpull).2.maxId, by simp⟩

/-- Such a source is always ahead. -/
theorem durable_ahead (hr : Run (step sourceEnv env) Durable init h s) : Run (step sourceEnv env) Ahead init h s := by
  have hboth : Run (step sourceEnv env) Ahead init h s ∧ Within s := by
    induction hr with
    | nil => exact ⟨.nil, ⟨Nat.zero_le _, by simp [init]⟩⟩
    | snoc _ hok hstep ih =>
      obtain ⟨hrun, hwithin⟩ := ih
      have hahead := ahead_of_le hwithin.cursor fun pull hpull => (hwithin.page pull hpull).1
      exact ⟨hrun.snoc (hahead _) hstep, step_within hwithin hok hstep⟩
  exact hboth.1

/-- A source that keeps its database leaves no row behind. -/
theorem durable_never_behind (hr : Run (step sourceEnv env) Durable init (h ++ [(.request, .page [])]) s) :
    ∀ row ∈ s.source.db.messages.rows, Offered h s.life row := by
  obtain ⟨t, ht, -, hstep⟩ := (durable_ahead hr).last
  exact offered_of_empty (run_sound ht) hstep

/-! ## No row is left behind -/

/-- In every run whose steps keep the source ahead of the cursor: when a round gets an empty page, every row stored at
the source has been offered. -/
theorem nothing_left_behind (hr : Run (step sourceEnv env) Ahead init (h ++ [(.request, .page [])]) s) :
    ∀ row ∈ s.source.db.messages.rows, Offered h s.life row := by
  obtain ⟨t, ht, -, hstep⟩ := hr.last
  exact offered_of_empty (run_sound ht) hstep

/-- Both relays with the small configuration. -/
abbrev Pair : Type := State Sample.lenient Sample.lenient

abbrev pairStep : System Pair Event Obs := step Sample.lenient Sample.lenient

/-- A client publishes at the source, as its ingestion `i`. -/
def publishAt (i : Nat) (signature : Str) : List Event :=
  (.arrive .publish (Sample.payload signature) :: Sample.sections i 4).map .source

/-- A round handles its only row, as ingestion `i` of the puller. -/
def pullOne (i : Nat) : List Event := [.request, .begin] ++ (Sample.sections i 4).map .puller ++ [.finish, .save]

/-- The next round gets an empty page, in a state that satisfies `P`. -/
def caughtUp (P : Pair → Bool) (s : Pair) : Bool :=
  (pairStep s .request).any fun r => match r.2 with
    | .page rows => rows.isEmpty && P r.1
    | _ => false

theorem caughtUp_request {P : Pair → Bool} {s : Pair} (h : caughtUp P s = true) :
    ∃ s', pairStep s .request = some (s', .page []) ∧ P s' = true := by
  obtain ⟨⟨s', o⟩, hstep, ho⟩ := (Option.any_eq_true _ _).1 h
  cases o with
  | page rows =>
    obtain ⟨hempty, hp⟩ := Bool.and_eq_true_iff.1 ho
    exact ⟨s', by rw [hstep, List.isEmpty_iff.1 hempty], hp⟩
  | _ => cases ho

/-- The source has used all ids up to the cursor, and has not begun anew during the round. -/
def ready (s : Pair) (_ : Event) : Bool :=
  decide (s.lastSeenId ≤ s.source.db.messages.seq) && s.pull.all fun pull => decide (pull.life = s.life)

theorem ready_ahead (s : Pair) (e : Event) (h : ready s e = true) : Ahead s e := by
  simp only [ready, Bool.and_eq_true, decide_eq_true_eq, Option.all_eq_true] at h
  exact ahead_of_le h.1 h.2 e

/-- An ephemeral source restarts before the first round, and its message of the new life is offered. -/
theorem nothing_left_behind_restart : ∃ h s, Run pairStep Ahead init (h ++ [(.request, .page [])]) s ∧ s.life = 1 ∧
    s.source.db.messages.rows.length = 1 ∧ ∀ row ∈ s.source.db.messages.rows, Offered h s.life row := by
  obtain ⟨h, t, ht, hp⟩ := exists_run pairStep ready (fun t _ => ready t .request &&
      caughtUp (fun s => decide (s.life = 1 ∧ s.source.db.messages.rows.length = 1)) t) init
    (publishAt 0 (lit "c2ln") ++ [.restart true] ++ publishAt 0 (lit "ZGVs") ++ pullOne 0) (by decide +kernel)
  obtain ⟨hready, hcaught⟩ := Bool.and_eq_true_iff.1 hp
  obtain ⟨s, hstep, hs⟩ := caughtUp_request hcaught
  obtain ⟨hlife, hlength⟩ := of_decide_eq_true hs
  have hr := (ht.mono ready_ahead).snoc (ready_ahead t .request hready) hstep
  exact ⟨h, s, hr, hlife, hlength, nothing_left_behind hr⟩

/-- No row with the signature has been handled. -/
def neverHandled (signature : Str) (h : List (Event × Obs)) : Bool :=
  h.all fun x => match x.2 with
    | .handled _ row _ => decide (row.2.signature ≠ signature)
    | _ => true

/-- An ephemeral source restarts after a round: its first message then has an id that the puller is past. The message is
never offered, though the round after gets an empty page. -/
theorem left_behind : ∃ h s, Run pairStep Any init (h ++ [(.request, .page [])]) s ∧
    ∃ row ∈ s.source.db.messages.rows, ∀ life, ¬ Offered h life row := by
  obtain ⟨h, t, ht, hp⟩ := exists_any_run pairStep (fun t h => neverHandled (lit "ZGVs") h &&
      caughtUp (fun s => s.source.db.messages.rows.any fun row => row.2.signature = lit "ZGVs") t) init
    (publishAt 0 (lit "c2ln") ++ pullOne 0 ++ [.restart true] ++ publishAt 0 (lit "ZGVs")) (by decide +kernel)
  obtain ⟨hnever, hcaught⟩ := Bool.and_eq_true_iff.1 hp
  obtain ⟨s, hstep, hs⟩ := caughtUp_request hcaught
  obtain ⟨row, hrow, hsig⟩ := List.any_eq_true.1 hs
  refine ⟨h, s, ht.snoc trivial hstep, row, hrow, ?_⟩
  rintro life ⟨o, hmem, -⟩
  have hother := List.all_eq_true.1 hnever _ hmem
  exact of_decide_eq_true hother (of_decide_eq_true hsig)

end AetherNode.CatchUp
