import AetherNode.Lib.Text
/-!
# Texts that are read in turn

A reader of PEM texts goes forward line by line and completes what it finds:
texts joined by newlines are read one after the other, each from whatever block
the ones before have left open. The plain reader opens a block at a BEGIN line,
completes it at the next END line, and skips everything outside.
-/
namespace AetherNode.Lib.Pem

/-- A way to read the items of texts. -/
structure Reader (α : Type) where
  /-- What may be open between two lines. -/
  Open : Type
  closed : Open
  /-- The items that are completed in a text, and what it leaves open. -/
  read : Open → Str → List α × Open
  read_empty : (read closed []).1 = []
  read_join : ∀ o a b, read o (a ++ 10 :: b) = ((read o a).1 ++ (read (read o a).2 b).1, (read (read o a).2 b).2)

namespace Reader

variable {α : Type} (r : Reader α)

/-- The items of a text. -/
def items (text : Str) : List α := (r.read r.closed text).1

/-- The items of texts that are read one after the other. -/
def inTurn (o : r.Open) : List Str → List α
  | [] => []
  | text :: texts => (r.read o text).1 ++ inTurn (r.read o text).2 texts

theorem read_joined (o : r.Open) (text : Str) (texts : List Str) :
    (r.read o (join [10] (text :: texts))).1 = r.inTurn o (text :: texts) := by
  induction texts generalizing o text with
  | nil => simp [join, inTurn]
  | cons next texts ih =>
    rw [inTurn, ← ih, join, List.append_assoc, List.singleton_append, r.read_join]

/-- Joined texts are read in turn. -/
theorem items_join (texts : List Str) : r.items (join [10] texts) = r.inTurn r.closed texts := by
  cases texts with
  | nil => exact r.read_empty
  | cons text texts => exact r.read_joined r.closed text texts

end Reader

/-! ## The plain reader -/

def beginLine : Str := lit "-----BEGIN CERTIFICATE-----"

def endLine : Str := lit "-----END CERTIFICATE-----"

/-- The lines of a text, without their newlines. -/
def lines (s : Str) : List Str := splitOn 10 s

/-- The blocks completed in these lines, and the lines of the block that is open after them. -/
def scan : Option (List Str) → List Str → List (List Str) × Option (List Str)
  | o, [] => ([], o)
  | none, l :: ls => if l = beginLine then scan (some []) ls else scan none ls
  | some body, l :: ls =>
    if l = endLine then
      let r := scan none ls
      (body :: r.1, r.2)
    else scan (some (body ++ [l])) ls

example : scan none (lines (lit "a comment\n-----BEGIN CERTIFICATE-----\nYWE=\n-----END CERTIFICATE-----\n")) =
    ([[lit "YWE="]], none) := by decide

theorem scan_append (o : Option (List Str)) (a b : List Str) :
    scan o (a ++ b) = ((scan o a).1 ++ (scan (scan o a).2 b).1, (scan (scan o a).2 b).2) := by
  induction a generalizing o with
  | nil => cases o <;> simp [scan]
  | cons l a ih =>
    cases o with
    | none =>
      simp only [List.cons_append, scan]
      split
      · exact ih (some [])
      · exact ih none
    | some body =>
      simp only [List.cons_append, scan]
      split
      · rw [ih none]
        rfl
      · exact ih (some (body ++ [l]))

theorem lines_append (a b : Str) : lines (a ++ 10 :: b) = lines a ++ lines b := by
  have h := splitOn_join 10 (List.cons_ne_nil a [b])
  simpa [join, lines] using h

section
variable {α : Type} (item : List Str → Option α)

/-- The items among the blocks. -/
def readBlocks (o : Option (List Str)) (text : Str) : List α × Option (List Str) :=
  ((scan o (lines text)).1.filterMap item, (scan o (lines text)).2)

theorem readBlocks_join (o : Option (List Str)) (a b : Str) :
    readBlocks item o (a ++ 10 :: b) =
      ((readBlocks item o a).1 ++ (readBlocks item (readBlocks item o a).2 b).1,
        (readBlocks item (readBlocks item o a).2 b).2) := by
  unfold readBlocks
  rw [lines_append, scan_append, List.filterMap_append]

theorem readBlocks_empty : (readBlocks item none []).1 = [] := rfl

/-- The items of a text are its blocks that are one. -/
def plain : Reader α where
  Open := Option (List Str)
  closed := none
  read := readBlocks item
  read_empty := readBlocks_empty item
  read_join := readBlocks_join item

end

end AetherNode.Lib.Pem
