import AetherNode.Lib.BigEndian
import AetherNode.Protocol
import Mathlib.Order.Bounds.Defs
/-!
# Padding

A plaintext is padded to the first bucket that holds it and its length, which
is the smallest one. What is padded comes back, and its length shows the
bucket only; what `unpad_plaintext` returns is never more than what follows
the length it reads.
-/
open AetherNode.Lib AetherNode.Lib.Json AetherNode.Protocol

namespace AetherNode.Padding

inductive PaddingError where
  | valueError (message : Str)
  | overflowError

/-- `_LEN_PREFIX_SIZE`. -/
def lenPrefixSize : Nat := 4

/-- `os.urandom`: as many bytes as it is asked for. -/
def Urandom := { f : Nat → Bytes // ∀ n, (f n).length = n }

/-- `PAD_BUCKETS[-1]`. -/
def largestBucket : Nat := padBuckets.getLast (List.cons_ne_nil _ _)

def padPlaintext (urandom : Urandom) (plaintext : Bytes) : Except PaddingError Bytes :=
  let needed := lenPrefixSize + plaintext.length
  match padBuckets.find? fun bucket => needed ≤ bucket with
  | some bucket =>
    match BigEndian.toBytes lenPrefixSize plaintext.length with
    | none => .error .overflowError
    | some lenPrefix => .ok (lenPrefix ++ plaintext ++ urandom.1 (bucket - needed))
  | none =>
    .error (.valueError (lit "Message too large: " ++ natText plaintext.length ++
      lit " bytes exceeds the largest padding bucket (" ++ natText largestBucket ++ lit " bytes, ~" ++
      natText (largestBucket - lenPrefixSize) ++ lit " usable bytes)."))

def unpadPlaintext (padded : Bytes) : Except PaddingError Bytes :=
  if padded.length < lenPrefixSize then
    .error (.valueError (lit "Padded plaintext shorter than the length prefix — corrupt data."))
  else
    let origLen := BigEndian.fromBytes (padded.take lenPrefixSize)
    if padded.length - lenPrefixSize < origLen then
      .error (.valueError (lit "Corrupt padding: encoded length exceeds available data."))
    else .ok ((padded.drop lenPrefixSize).take origLen)

/-! ## The buckets -/

/-- The buckets that hold a plaintext of this length. -/
def holding (length : Nat) : Set Nat := {bucket | bucket ∈ padBuckets ∧ length + lenPrefixSize ≤ bucket}

/-- In an increasing list the first element that is large enough is the least. -/
theorem isLeast_of_find? {l : List Nat} (hl : l.Pairwise (· < ·)) {n b : Nat} (h : l.find? (fun x => n ≤ x) = some b) :
    IsLeast {x | x ∈ l ∧ n ≤ x} b := by
  obtain ⟨hn, before, after, rfl, hbefore⟩ := List.find?_eq_some_iff_append.1 h
  simp only [decide_eq_true_eq] at hn
  refine ⟨⟨by simp, hn⟩, ?_⟩
  rintro x ⟨hx, hnx⟩
  rcases List.mem_append.1 hx with hx | hx
  · have := hbefore x hx
    simp only [Bool.not_eq_true', decide_eq_false_iff_not] at this
    exact absurd hnx this
  · rcases List.mem_cons.1 hx with rfl | hx
    · exact le_rfl
    · exact ((List.pairwise_cons.1 (List.pairwise_append.1 hl).2.1).1 x hx).le

theorem padBuckets_increasing : padBuckets.Pairwise (· < ·) := by decide

theorem padBuckets_le {b : Nat} (h : b ∈ padBuckets) : b ≤ largestBucket := by
  revert b
  decide

/-- Some bucket holds the plaintext exactly when the largest one does. -/
theorem holding_nonempty_iff {length : Nat} : (∃ b, b ∈ holding length) ↔ length + lenPrefixSize ≤ largestBucket := by
  constructor
  · rintro ⟨b, hb, hle⟩
    exact hle.trans (padBuckets_le hb)
  · intro h
    exact ⟨largestBucket, List.getLast_mem _, h⟩

variable {urandom : Urandom} {p : Bytes}

/-- What `pad_plaintext` does: the smallest bucket that holds the plaintext is filled, or there is none. -/
theorem pad_cases (urandom : Urandom) (p : Bytes) :
    (∃ b, IsLeast (holding p.length) b ∧ padPlaintext urandom p =
        .ok (BigEndian.digits lenPrefixSize p.length ++ p ++ urandom.1 (b - (lenPrefixSize + p.length)))) ∨
      ((∀ b, b ∉ holding p.length) ∧ ∃ message, padPlaintext urandom p = .error (.valueError message)) := by
  cases hfind : padBuckets.find? (fun bucket => lenPrefixSize + p.length ≤ bucket) with
  | none =>
    refine .inr ⟨?_, _, by simp only [padPlaintext, hfind]; rfl⟩
    rintro b ⟨hb, hle⟩
    have := List.find?_eq_none.1 hfind b hb
    simp only [decide_eq_true_eq] at this
    omega
  | some b =>
    have hleast : IsLeast (holding p.length) b := by
      have := isLeast_of_find? padBuckets_increasing hfind
      simpa only [holding, Nat.add_comm] using this
    -- A length below the largest bucket fits the four bytes.
    have hsmall : p.length < 256 ^ lenPrefixSize := by
      have hle := hleast.1.2.trans (padBuckets_le hleast.1.1)
      have hlargest : largestBucket < 256 ^ lenPrefixSize := by decide
      omega
    refine .inl ⟨b, hleast, ?_⟩
    simp only [padPlaintext, hfind, BigEndian.toBytes, if_pos hsmall]

/-! ## Padding and unpadding -/

/-- `unpad_plaintext` raises `ValueError`, or returns the bytes behind the length it reads. -/
theorem unpad_cases (x : Bytes) :
    (∃ message, unpadPlaintext x = .error (.valueError message)) ∨
      (BigEndian.fromBytes (x.take lenPrefixSize) + lenPrefixSize ≤ x.length ∧
        unpadPlaintext x = .ok ((x.drop lenPrefixSize).take (BigEndian.fromBytes (x.take lenPrefixSize)))) := by
  unfold unpadPlaintext
  split
  · exact .inl ⟨_, rfl⟩
  · dsimp only
    split
    · exact .inl ⟨_, rfl⟩
    · exact .inr ⟨by omega, rfl⟩

/-- What follows the bytes of a plaintext is dropped. -/
theorem unpad_digits (hsmall : p.length < 256 ^ lenPrefixSize) (filler : Bytes) :
    unpadPlaintext (BigEndian.digits lenPrefixSize p.length ++ p ++ filler) = .ok p := by
  have hlength := BigEndian.length_digits lenPrefixSize p.length
  unfold unpadPlaintext
  simp only [List.append_assoc, List.take_left' hlength, List.drop_left' hlength, BigEndian.fromBytes_digits hsmall,
    List.length_append, hlength, List.take_left]
  rw [if_neg (by omega), if_neg (by omega)]

/-- A padded plaintext has the length of the smallest bucket that holds it. -/
theorem pad_length {x : Bytes} (h : padPlaintext urandom p = .ok x) : IsLeast (holding p.length) x.length := by
  rcases pad_cases urandom p with ⟨b, hleast, heq⟩ | ⟨-, message, heq⟩ <;> rw [heq] at h <;> cases h
  have hlength : (BigEndian.digits lenPrefixSize p.length ++ p ++ urandom.1 (b - (lenPrefixSize + p.length))).length = b := by
    have := hleast.1.2
    simp only [List.length_append, BigEndian.length_digits, urandom.2]
    omega
  rwa [hlength]

theorem unpad_pad {x : Bytes} (h : padPlaintext urandom p = .ok x) : unpadPlaintext x = .ok p := by
  rcases pad_cases urandom p with ⟨b, hleast, heq⟩ | ⟨-, message, heq⟩ <;> rw [heq] at h <;> cases h
  apply unpad_digits
  have hle := hleast.1.2.trans (padBuckets_le hleast.1.1)
  have hlargest : largestBucket < 256 ^ lenPrefixSize := by decide
  omega

theorem pad_ok_iff : (∃ x, padPlaintext urandom p = .ok x) ↔ p.length + lenPrefixSize ≤ largestBucket := by
  rw [← holding_nonempty_iff]
  rcases pad_cases urandom p with ⟨b, hleast, heq⟩ | ⟨hnone, message, heq⟩
  · exact iff_of_true ⟨_, heq⟩ ⟨b, hleast.1⟩
  · refine iff_of_false ?_ ?_
    · rintro ⟨x, hx⟩
      rw [heq] at hx
      cases hx
    · rintro ⟨b, hb⟩
      exact hnone b hb

/-- Padding succeeds exactly when the largest bucket holds the plaintext, it fills the smallest bucket that does, and
unpadding takes it back; plaintexts of one size class give equal lengths, whatever the filler. And `unpad_plaintext`
raises `ValueError` on any bytes, or returns what stands behind the length it reads. -/
theorem padding_lossless (urandom : Urandom) (p : Bytes) :
    ((∃ x, padPlaintext urandom p = .ok x) ↔ p.length + lenPrefixSize ≤ largestBucket) ∧
    (∀ x, padPlaintext urandom p = .ok x → IsLeast (holding p.length) x.length ∧ unpadPlaintext x = .ok p) ∧
    (∀ urandom' q x y, padPlaintext urandom p = .ok x → padPlaintext urandom' q = .ok y →
      holding p.length = holding q.length → x.length = y.length) ∧
    ∀ x : Bytes, (∃ message, unpadPlaintext x = .error (.valueError message)) ∨
      (BigEndian.fromBytes (x.take lenPrefixSize) + lenPrefixSize ≤ x.length ∧
        unpadPlaintext x = .ok ((x.drop lenPrefixSize).take (BigEndian.fromBytes (x.take lenPrefixSize)))) := by
  refine ⟨pad_ok_iff, fun x hx => ⟨pad_length hx, unpad_pad hx⟩, ?_, unpad_cases⟩
  intro urandom' q x y hx hy hclass
  have hleast := pad_length hy
  rw [← hclass] at hleast
  exact (pad_length hx).unique hleast

end AetherNode.Padding
