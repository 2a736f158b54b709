import AetherNode.Lib.PyInt
import AetherNode.Protocol
/-!
# Reading a request body

The five POST handlers of the two servers read their body in the same way:
`Content-Length` goes through `int`, a length above the cap is refused, and
what is left of it goes to `rfile.read`. A well-formed length never lets more
than the cap through; a negative one passes the comparison and reads to the
end of the stream.
-/
open AetherNode.Lib AetherNode.Lib.Json AetherNode.Protocol

namespace AetherNode.Requests

/-- A header value: `http.client.parse_headers` decodes the bytes of the request as Latin-1. -/
def HeaderText := { s : Str // ∀ c ∈ s, c < 256 }

/-- `self.rfile.read(n)`, for the bytes the client sends before it closes its side. -/
def rfileRead (n : Int) (stream : Bytes) : Bytes := if n < 0 then stream else stream.take n.toNat

/-- `int(self.headers.get("Content-Length", 0))`, and 0 where that raises `ValueError`. -/
def contentLength (header : Option HeaderText) : Int :=
  match header with
  | none => 0
  | some text => (PyInt.pyInt text.1).getD 0

inductive Received where
  | answered (code : Nat) (error : Str)
  | body (raw : Bytes)
  deriving DecidableEq

/-- The bytes a handler takes from the connection, and what it goes on with. -/
structure Reading where
  taken : Bytes
  received : Received

/-- How each handler comes to its body, for the `_read_body` and the cap of its server. -/
def receive (readBody : Int → Bytes → Option Bytes) (cap : Nat) (header : Option HeaderText) (stream : Bytes) : Reading :=
  if (cap : Int) < contentLength header then
    ⟨[], .answered 413 (lit "Request body exceeds " ++ natText cap ++ lit " bytes")⟩
  else
    match readBody (contentLength header) stream with
    | some (b :: raw) => ⟨b :: raw, .body (b :: raw)⟩
    | _ => ⟨[], .answered 400 (lit "Empty request body")⟩

namespace RelayHandler

/-- `RelayHandler._read_body`. -/
def readBody (contentLength : Int) (stream : Bytes) : Option Bytes :=
  if contentLength = 0 then none else some (rfileRead contentLength stream)

/-! `_do_publish`, `_do_fetch` and `_do_delete` as far as they read. -/

def doPublish (header : Option HeaderText) (stream : Bytes) : Reading := receive readBody maxBodyBytes header stream

def doFetch (header : Option HeaderText) (stream : Bytes) : Reading := receive readBody maxBodyBytes header stream

def doDelete (header : Option HeaderText) (stream : Bytes) : Reading := receive readBody maxBodyBytes header stream

end RelayHandler

namespace GossipHandler

/-- `GossipHandler._read_body`. -/
def readBody (contentLength : Int) (stream : Bytes) : Option Bytes :=
  if contentLength = 0 then none else some (rfileRead contentLength stream)

/-! `_do_publish` and `_do_delete` as far as they read, for the `max_body_bytes` of the server. -/

def doPublish (maxBodyBytes : Nat) (header : Option HeaderText) (stream : Bytes) : Reading :=
  receive readBody maxBodyBytes header stream

def doDelete (maxBodyBytes : Nat) (header : Option HeaderText) (stream : Bytes) : Reading :=
  receive readBody maxBodyBytes header stream

end GossipHandler

/-- The POST handlers; those of the gossip server have the `max_body_bytes` it was given. -/
inductive Handler where
  | publish
  | fetch
  | delete
  | gossipPublish (maxBodyBytes : Nat)
  | gossipDelete (maxBodyBytes : Nat)

namespace Handler

/-- The configured cap. -/
def cap : Handler → Nat
  | .gossipPublish maxBodyBytes | .gossipDelete maxBodyBytes => maxBodyBytes
  | _ => maxBodyBytes

def run : Handler → Option HeaderText → Bytes → Reading
  | .publish => RelayHandler.doPublish
  | .fetch => RelayHandler.doFetch
  | .delete => RelayHandler.doDelete
  | .gossipPublish maxBodyBytes => GossipHandler.doPublish maxBodyBytes
  | .gossipDelete maxBodyBytes => GossipHandler.doDelete maxBodyBytes

/-- The five handlers are one. -/
theorem run_eq (h : Handler) : h.run = receive RelayHandler.readBody h.cap := by
  cases h <;> rfl

end Handler

/-! ## How much is read -/

section
variable {cap : Nat} {header : Option HeaderText} {stream : Bytes}

/-- Below the cap, the handler takes what `rfile.read` gives it. -/
theorem receive_taken (h : contentLength header ≤ cap) :
    (receive RelayHandler.readBody cap header stream).taken =
      if contentLength header = 0 then [] else rfileRead (contentLength header) stream := by
  unfold receive RelayHandler.readBody
  rw [if_neg (by omega)]
  split_ifs
  · rfl
  · cases rfileRead (contentLength header) stream <;> rfl

/-- A length that is not negative bounds the read. -/
theorem receive_le (h : 0 ≤ contentLength header) :
    (receive RelayHandler.readBody cap header stream).taken.length ≤ cap := by
  by_cases hcap : contentLength header ≤ cap
  · rw [receive_taken hcap]
    split_ifs
    · exact Nat.zero_le _
    · rw [rfileRead, if_neg (by omega), List.length_take]
      omega
  · rw [receive, if_pos (by omega)]
    exact Nat.zero_le _

/-- A negative length reads everything. -/
theorem receive_negative (h : contentLength header < 0) :
    (receive RelayHandler.readBody cap header stream).taken = stream := by
  rw [receive_taken (by omega), if_neg (by omega), rfileRead, if_pos h]

end

theorem contentLength_neg_iff (header : Option HeaderText) :
    contentLength header < 0 ↔ ∃ text ∈ header, ∃ d, PyInt.Negative text.1 d := by
  cases header with
  | none => simp [contentLength]
  | some text =>
    simp only [contentLength, Option.mem_some_iff, exists_eq_left', ← PyInt.pyInt_neg_iff]
    cases PyInt.pyInt text.1 <;> simp

/-- A handler keeps to its cap unless the header is a negative number and more than the cap follows. -/
theorem body_cap_iff (h : Handler) (header : Option HeaderText) (stream : Bytes) :
    (h.run header stream).taken.length ≤ h.cap ↔
      (¬ ∃ text ∈ header, ∃ d, PyInt.Negative text.1 d) ∨ stream.length ≤ h.cap := by
  rw [h.run_eq, ← contentLength_neg_iff]
  by_cases hneg : contentLength header < 0
  · rw [receive_negative hneg]
    simp [hneg]
  · simp only [hneg, not_false_eq_true, true_or, iff_true]
    apply receive_le
    omega

/-- `Content-Length: -1`, and one byte more than the cap: all of it is read. -/
theorem negative_length_reads_all : ∃ (text : HeaderText) (stream : Bytes), text.1 = lit "-1" ∧
    stream.length = maxBodyBytes + 1 ∧ Handler.publish.cap < (Handler.publish.run (some text) stream).taken.length := by
  refine ⟨⟨lit "-1", by decide⟩, List.replicate (maxBodyBytes + 1) 0, rfl, List.length_replicate, ?_⟩
  rw [Handler.run_eq, receive_negative (by decide), List.length_replicate]
  exact Nat.lt_succ_self _

/-! ## A client that tells the truth -/

/-- The header of a body, as `http.client` writes it. -/
theorem latin1_natText (n : Nat) : ∀ c ∈ natText n, c < 256 := by
  intro c hc
  have := PyInt.natText_digits n c hc
  omega

def lengthHeader (raw : Bytes) : HeaderText := ⟨natText raw.length, latin1_natText _⟩

/-- A body sent under its own length is read whole where the cap allows it, and refused unread elsewhere. -/
theorem receive_lengthHeader (cap : Nat) {raw : Bytes} (hne : raw ≠ []) (hlen : raw.length < 10 ^ PyInt.maxStrDigits) :
    receive RelayHandler.readBody cap (some (lengthHeader raw)) raw =
      if raw.length ≤ cap then ⟨raw, .body raw⟩
      else ⟨[], .answered 413 (lit "Request body exceeds " ++ natText cap ++ lit " bytes")⟩ := by
  have hcontent : contentLength (some (lengthHeader raw)) = raw.length := by
    simp only [contentLength, lengthHeader, PyInt.pyInt_natText hlen, Option.getD_some]
  have hpos : 0 < raw.length := List.length_pos_iff.2 hne
  have hread : RelayHandler.readBody raw.length raw = some raw := by
    rw [RelayHandler.readBody, if_neg (by omega), rfileRead, if_neg (by omega), Int.toNat_natCast, List.take_length]
  rw [receive, hcontent, hread]
  by_cases hcap : raw.length ≤ cap
  · rw [if_neg (by omega), if_pos hcap]
    obtain ⟨b, l, rfl⟩ := List.exists_cons_of_ne_nil hne
    rfl
  · rw [if_pos (by omega), if_neg hcap]

end AetherNode.Requests
