import AetherNode.Handlers
import AetherNode.Spelling
/-!
# Expiry

`/fetch` and the cleanup sweep decide by comparing the stored `expires_at`
with the `isoformat()` text of the clock. What is stored is the text of the
payload, in whatever spelling the validator could read. The comparisons follow
the moment for exactly the spellings that sort at it; the others are served
past their expiry or hidden before it.
-/
open AetherNode.Lib AetherNode.Lib.Json AetherNode.Protocol

namespace AetherNode.Expiry

variable {env : Env}

/-! ## `/fetch` -/

/-- The rows `/fetch` reads at the clock text `now`, in the order of their ids. -/
def fetchRows (ids : List Str) (now : Datetime) (db : Db) : List Message :=
  (db.messages.rows.map (·.2)).filter fun m => ids.contains m.recipientId && decide (now.isoformat < m.expiresAt)

/-- `_MAX_FETCH_IDS`. -/
def maxFetchIds (env : Env) : Int := -(-env.maxTtlSeconds / 86400) + 2

inductive FetchReply where
  | refused (error : Str)
  | messages (payloads : List Dict)

/-- The value is a text. -/
def text? : Json → Option Str
  | .str s => some s
  | _ => none

/-- `_do_fetch`, on the parsed body. -/
def doFetch (env : Env) (now : Datetime) (body : Json) (db : Db) : Except PyError FetchReply :=
  match body with
  | .obj payload =>
    match Dict.get payload (lit "ids") with
    | some (.arr l) =>
      match l.mapM text? with
      | some ids =>
        if ids = [] then .ok (.refused (lit "'ids' must be a non-empty list of strings"))
        else if maxFetchIds env < ids.length then
          .ok (.refused (lit "'ids' exceeds " ++ intText (maxFetchIds env) ++ lit " entries"))
        else if ids.any fun i => !(0 < i.length ∧ i.length ≤ maxRecipientIdLen) then
          .ok (.refused (lit "one or more 'ids' entries has an invalid length"))
        else if !ids.all encodable then .error .unicodeEncodeError
        else .ok (.messages ((fetchRows ids now db).map (·.payload)))
      | none => .ok (.refused (lit "'ids' must be a non-empty list of strings"))
    | _ => .ok (.refused (lit "'ids' must be a non-empty list of strings"))
  | _ => .error .attributeError

/-- A reply lists stored messages whose texts are above that of the clock. -/
theorem doFetch_messages {now : Datetime} {body : Json} {db : Db} {payloads : List Dict}
    (h : doFetch env now body db = .ok (.messages payloads)) {p : Dict} (hp : p ∈ payloads) :
    ∃ sig m, db.message sig = some m ∧ m.payload = p ∧ now.isoformat < m.expiresAt := by
  unfold doFetch at h
  split at h
  · split at h
    · split at h
      · rename_i ids _
        split_ifs at h <;> simp only [Except.ok.injEq, FetchReply.messages.injEq, reduceCtorEq] at h
        subst h
        obtain ⟨m, hm, rfl⟩ := List.mem_map.1 hp
        obtain ⟨hrow, htext⟩ := List.mem_filter.1 hm
        obtain ⟨r, hr, rfl⟩ := List.mem_map.1 hrow
        rw [Bool.and_eq_true, decide_eq_true_eq] at htext
        exact ⟨r.2.signature, r.2, Table.lookup_of_mem hr, rfl, htext.2⟩
      · cases h
    · cases h
  · cases h

theorem mem_fetchRows {ids : List Str} {now : Datetime} {db : Db} {sig : Str} {m : Message}
    (hm : db.message sig = some m) :
    m ∈ fetchRows ids now db ↔ m.recipientId ∈ ids ∧ now.isoformat < m.expiresAt := by
  obtain ⟨⟨i, hmem⟩, -⟩ := Table.lookup_eq_some.1 hm
  have : m ∈ db.messages.rows.map (·.2) := List.mem_map.2 ⟨(i, m), hmem, rfl⟩
  simp [fetchRows, this]

/-- What a sweep that does not raise removes. -/
theorem swept_iff {now cutoffNow : Datetime} {db db' : Db} {sig : Str} {m : Message}
    (h : runOnce env now cutoffNow db = (db', .ok ())) (hm : db.message sig = some m) :
    db'.message sig = none ↔ m.expiresAt ≤ now.isoformat := by
  unfold runOnce at h
  split at h
  · cases h
  · obtain ⟨rfl, -⟩ := Prod.mk.inj h
    have hlook := Table.lookup_deleteWhere db.messages (fun m => m.expiresAt ≤ now.isoformat) sig
    have hmsg : db.messages.lookup sig = some m := hm
    simp only [Db.message, hlook, hmsg, Option.filter_eq_none_iff]
    simp

/-! ## The comparisons and the moments -/

/-- The two comparisons of a stored text with the clock are those of the moment it stands for. -/
def Agree (raw : Str) (e now : Datetime) : Prop :=
  (now.isoformat < raw ↔ now < e) ∧ (raw ≤ now.isoformat ↔ e ≤ now)

theorem agree_iff {raw : Str} {e now : Datetime} : Agree raw e now ↔ (now.isoformat < raw ↔ now < e) := by
  unfold Agree
  rw [← not_lt, ← not_lt, not_iff_not, and_self]

/-- A text accepted at `t` that sorts at its moment; or one that is past at `t`, in the texts as well. -/
def Timely (t : Datetime) (raw : Str) (e : Datetime) : Prop :=
  if t < e then SortsAt raw e else raw ≤ t.isoformat

theorem agree_from_iff {t e : Datetime} {raw : Str} (h : fromisoformat raw = some ⟨e, some 0⟩) :
    (∀ now, t ≤ now → Agree raw e now) ↔ Timely t raw e := by
  simp only [agree_iff]
  unfold Timely
  split
  · rename_i hlt
    rw [← marks_iff_sortsAt h]
    exact marks_iff_compare Datetime.isoformat_lt_iff hlt
  · rename_i hle
    rw [not_lt] at hle
    constructor
    · intro hall
      rw [← not_lt, hall t le_rfl]
      exact not_lt.2 hle
    · intro hraw now hnow
      have hnot : ¬ now.isoformat < raw := not_lt.2 (hraw.trans (Datetime.isoformat_le_iff.2 hnow))
      exact iff_of_false hnot (not_lt.2 (hle.trans hnow))

/-- From when a payload is accepted, the comparisons of its expiry text are right at every clock reading exactly when
the text is timely. -/
theorem comparisons_agree_iff {t : Datetime} {p : Dict} (h : validatePublishPayload env t p = .ok none) :
    ∃ raw e, p.get (lit "expires_at") = some (.str raw) ∧ fromisoformat raw = some ⟨e, some 0⟩ ∧
      ((∀ now, t ≤ now → Agree raw e now) ↔ Timely t raw e) := by
  obtain ⟨raw, e, hraw, he⟩ := (validatePublishPayload_none.1 h).expiry
  exact ⟨raw, e, hraw, he.parses, agree_from_iff he.parses⟩

/-! ## Stored messages -/

/-- Every stored message is the row of a payload that passed when it came in. -/
theorem stored_validated {h : List (AtomicEvent × AtomicObs)} {db : Db} (hr : AtomicRun env h db) {sig : Str}
    {m : Message} (hm : db.message sig = some m) :
    ∃ t, ValidPublish env t m.payload ∧ m = messageOf m.payload (m.payload.text (lit "recipient_id")) t := by
  induction hr generalizing sig m with
  | nil => cases hm
  | snoc _ _ hs ih =>
    rcases atomic_message hs hm with hold | ⟨path, p, now, gate, identityGate, id, -, -, hv, -, rfl⟩
    · exact ih hold
    · exact ⟨now, hv, rfl⟩

/-- In every state of every run: a stored message is served until its expiry and swept from then on, at every clock
reading since it came in, exactly when its text is timely. -/
theorem stored_served_iff {h : List (AtomicEvent × AtomicObs)} {db : Db} (hr : AtomicRun env h db) {sig : Str}
    {m : Message} (hm : db.message sig = some m) :
    ∃ t e, ValidPublish env t m.payload ∧ fromisoformat m.expiresAt = some ⟨e, some 0⟩ ∧
      ((∀ now, t ≤ now → (m ∈ fetchRows [m.recipientId] now db ↔ now < e) ∧
        ∀ cutoffNow db', runOnce env now cutoffNow db = (db', .ok ()) → (db'.message sig = none ↔ e ≤ now)) ↔
        Timely t m.expiresAt e) := by
  obtain ⟨t, hv, hrow⟩ := stored_validated hr hm
  obtain ⟨raw, e, hraw, he⟩ := hv.expiry
  have hexp : m.expiresAt = raw := by
    rw [hrow]
    exact Dict.text_eq hraw
  rw [hexp]
  refine ⟨t, e, hv, he.parses, ?_⟩
  rw [← agree_from_iff he.parses]
  constructor
  · intro hall now hnow
    have hfetch := (hall now hnow).1
    rw [mem_fetchRows hm, hexp] at hfetch
    rw [agree_iff]
    simpa using hfetch
  · intro hall now hnow
    obtain ⟨hserve, hsweep⟩ := hall now hnow
    constructor
    · rw [mem_fetchRows hm, hexp, ← hserve]
      simp
    · intro cutoffNow db' hrun
      rw [swept_iff hrun hm, hexp, hsweep]

/-- Whatever a reply lists has been accepted at some time, and has not expired if its text is timely. -/
theorem reply_unexpired {h : List (AtomicEvent × AtomicObs)} {db : Db} (hr : AtomicRun env h db) {now : Datetime}
    {body : Json} {payloads : List Dict} (hreply : doFetch env now body db = .ok (.messages payloads)) {p : Dict}
    (hp : p ∈ payloads) : ∃ t e, ValidPublish env t p ∧
      fromisoformat (p.text (lit "expires_at")) = some ⟨e, some 0⟩ ∧
      (t ≤ now → Timely t (p.text (lit "expires_at")) e → now < e) := by
  obtain ⟨sig, m, hm, rfl, htext⟩ := doFetch_messages hreply hp
  obtain ⟨t, hv, hrow⟩ := stored_validated hr hm
  obtain ⟨raw, e, hraw, he⟩ := hv.expiry
  have hexp : m.expiresAt = m.payload.text (lit "expires_at") := congrArg Message.expiresAt hrow
  rw [Dict.text_eq hraw] at hexp ⊢
  refine ⟨t, e, hv, he.parses, ?_⟩
  intro hle htimely
  have hagree := (agree_from_iff he.parses).2 htimely now hle
  rw [hexp] at htext
  exact hagree.1.1 htext

/-! ## Spellings that are right and wrong -/

/-- A message to the owner that expires at another spelling. -/
def payloadUntil (raw : Str) : Dict :=
  (Sample.payload (lit "c2ln")).map fun (field, v) => (field, if field = lit "expires_at" then .str raw else v)

/-- The text the client prints is compared rightly at every later reading. -/
theorem comparisons_agree_client : ∃ raw e, (payloadUntil Sample.nextNoon.isoformat).get (lit "expires_at") = some (.str raw) ∧
    fromisoformat raw = some ⟨e, some 0⟩ ∧ ∀ now, Sample.noon ≤ now → Agree raw e now := by
  obtain ⟨raw, e, hraw, he, hiff⟩ := comparisons_agree_iff
    (show validatePublishPayload Sample.keyed Sample.noon (payloadUntil Sample.nextNoon.isoformat) = .ok none by decide +kernel)
  refine ⟨raw, e, hraw, he, hiff.2 ?_⟩
  obtain rfl : Sample.nextNoon.isoformat = raw := by
    have : (payloadUntil Sample.nextNoon.isoformat).get (lit "expires_at") = some (.str Sample.nextNoon.isoformat) := rfl
    rw [hraw] at this
    cases this
    rfl
  rw [fromisoformat_isoformat] at he
  cases he
  exact (if_pos (by decide)).mpr (sortsAt_isoformat Sample.nextNoon)

/-- Eleven months later. -/
def december : Datetime := .ofFields 2026 12 1 0 0 0 0 (by decide)

def nextMidnight : Datetime := .ofFields 2026 1 3 0 0 0 0 (by decide)

/-- The basic form of an expiry is served for the rest of its year, and a blank as separator hides the message from
the midnight before. -/
theorem expiry_misread : ∃ basic spaced e,
    validatePublishPayload Sample.keyed Sample.noon (payloadUntil basic) = .ok none ∧
    validatePublishPayload Sample.keyed Sample.noon (payloadUntil spaced) = .ok none ∧
    (fromisoformat basic).map (·.fields.toMicros) = some e.toMicros ∧
    (fromisoformat spaced).map (·.fields.toMicros) = some e.toMicros ∧
    Sample.noon ≤ nextMidnight ∧ nextMidnight < e ∧ spaced ≤ nextMidnight.isoformat ∧
    e < december ∧ december.isoformat < basic :=
  ⟨lit "20260103T120000Z", lit "2026-01-03 12:00:00+00:00", Sample.nextNoon, by decide +kernel, by decide +kernel,
    by decide +kernel, by decide +kernel, by decide +kernel, by decide +kernel, by decide +kernel, by decide +kernel,
    by decide +kernel⟩

end AetherNode.Expiry
