import AetherNode.AntiEntropy
import AetherNode.Requests
import AetherNode.Lib.Reencode
/-!
# Forwarding what was accepted

The cap of `/publish` is on the bytes received; the mesh carries a
re-encoding, pushed to peers and served to them in pages under the same cap.
How long it is can be read off the text of the request.
-/
open AetherNode.Lib AetherNode.Lib.Json AetherNode.Lib.JsonText AetherNode.Protocol AetherNode.Requests

namespace AetherNode.Forward

variable {env : Env}

/-! ## A stored body -/

/-- A relay has read the body `raw`, the text of `doc`, through `/publish`, and stored its payload last. -/
structure Accepted (env : Env) (dec : Decoder) (doc : Document) (p : Dict) (id : Nat) (s : Relay env) : Prop where
  read : ∃ header stream raw, (RelayHandler.doPublish header stream).received = .body raw ∧
    raw.length ≤ maxBodyBytes ∧ dec.decode raw = some doc.text
  parsed : dec.loads doc = some (.obj p)
  stored : ∃ h i now gate, RelayRun env Any (h ++ [(.advance i now gate, .ended p (.stored id))]) s ∧
    (.arrive .publish p, .arrived) ∈ h

/-- The body that `schedule_fanout` hands to every peer. -/
def fanoutBody (p : Dict) : Bytes := encode (dumpsDefault (.obj p))

/-- A body sent under its own length. -/
theorem receive_sent {raw : Bytes} (hne : raw ≠ []) (h : raw.length < 10 ^ 6) :
    (receive RelayHandler.readBody maxBodyBytes (some (lengthHeader raw)) raw).received =
      if raw.length ≤ maxBodyBytes then .body raw
      else .answered 413 (lit "Request body exceeds " ++ natText maxBodyBytes ++ lit " bytes") := by
  have hdigits : 10 ^ 6 ≤ 10 ^ PyInt.maxStrDigits := Nat.pow_le_pow_right (by omega) (by decide)
  rw [receive_lengthHeader maxBodyBytes hne (lt_of_lt_of_le h hdigits)]
  split_ifs <;> rfl

theorem fanoutBody_ne_nil (p : Dict) : fanoutBody p ≠ [] := by
  intro hnil
  have hlength := congrArg List.length hnil
  rw [fanoutBody, ← printed, printed_obj] at hlength
  simp at hlength

end AetherNode.Forward
