import AetherNode.Lib.Base64
import AetherNode.Lib.PyInt
import Mathlib.Data.List.Perm.Basic
import Mathlib.Algebra.BigOperators.Group.List.Basic
/-!
# JSON texts

The texts that `json.loads` reads, as their syntax trees: white space between
the tokens, the spellings of every character of a string, members with one key
more than once, and the numbers and constants Python adds to the grammar.
`text` writes a tree out, and `value` is what Python makes of it.
-/
namespace AetherNode.Lib.JsonText

open Json

/-! ## Tokens -/

/-- White space between two tokens. -/
def Gap := { s : Str // ∀ c ∈ s, c = 32 ∨ c = 9 ∨ c = 10 ∨ c = 13 }

def Gap.nothing : Gap := ⟨[], fun _ h => absurd h List.not_mem_nil⟩

/-- A character that stands for itself in a string. -/
def PlainChar := { c : Nat // 32 ≤ c ∧ c ≠ 34 ∧ c ≠ 92 ∧ c < 0x110000 }

/-- The escapes of one letter. -/
inductive Escape where
  | quote | backslash | slash | backspace | formFeed | newline | carriageReturn | tab

def Escape.letter : Escape → Nat
  | .quote => 34
  | .backslash => 92
  | .slash => 47
  | .backspace => 98
  | .formFeed => 102
  | .newline => 110
  | .carriageReturn => 114
  | .tab => 116

def Escape.char : Escape → Nat
  | .quote => 34
  | .backslash => 92
  | .slash => 47
  | .backspace => 8
  | .formFeed => 12
  | .newline => 10
  | .carriageReturn => 13
  | .tab => 9

structure HexDigit where
  value : Fin 16
  upper : Bool

def HexDigit.char (d : HexDigit) : Nat := if d.value.1 < 10 then 48 + d.value.1 else (if d.upper then 55 else 87) + d.value.1

/-- The four digits of an escape. -/
structure HexUnit where
  d3 : HexDigit
  d2 : HexDigit
  d1 : HexDigit
  d0 : HexDigit

def HexUnit.value (u : HexUnit) : Nat := ((u.d3.value.1 * 16 + u.d2.value.1) * 16 + u.d1.value.1) * 16 + u.d0.value.1

def HexUnit.text (u : HexUnit) : Str := [92, 117, u.d3.char, u.d2.char, u.d1.char, u.d0.char]

def isHighSurrogate (c : Nat) : Bool := 0xD800 ≤ c && c ≤ 0xDBFF

def isLowSurrogate (c : Nat) : Bool := 0xDC00 ≤ c && c ≤ 0xDFFF

def joinSurrogates (u v : Nat) : Nat := 0x10000 + (u - 0xD800) * 0x400 + (v - 0xDC00)

/-- One character of a string, as it is spelled. -/
inductive Piece where
  | plain (c : PlainChar)
  | escape (e : Escape)
  | unicode (u : HexUnit)

def Piece.text : Piece → Str
  | .plain c => [c.1]
  | .escape e => [92, e.letter]
  | .unicode u => u.text

def Piece.char : Piece → Nat
  | .plain c => c.1
  | .escape e => e.char
  | .unicode u => u.value

def stringText (s : List Piece) : Str := [34] ++ s.flatMap Piece.text ++ [34]

/-- Two escapes that follow each other make one character where they are a surrogate pair. -/
def stringValue : List Piece → Str
  | .unicode u :: .unicode v :: s =>
    if isHighSurrogate u.value && isLowSurrogate v.value then joinSurrogates u.value v.value :: stringValue s
    else u.value :: stringValue (.unicode v :: s)
  | p :: s => p.char :: stringValue s
  | [] => []

def Digits := { s : Str // s ≠ [] ∧ ∀ c ∈ s, 48 ≤ c ∧ c ≤ 57 }

structure Exponent where
  upper : Bool
  sign : Option Bool
  digits : Digits

def Exponent.text (e : Exponent) : Str :=
  [if e.upper then 69 else 101] ++ (match e.sign with
    | none => []
    | some negative => [if negative then 45 else 43]) ++ e.digits.1

def signText (negative : Bool) : Str := if negative then [45] else []

/-- The literals that Python reads as a float. -/
inductive FloatLiteral where
  | nan
  | infinity (negative : Bool)
  | fraction (negative : Bool) (n : Nat) (digits : Digits) (e : Option Exponent)
  | exponent (negative : Bool) (n : Nat) (e : Exponent)

def FloatLiteral.text : FloatLiteral → Str
  | .nan => lit "NaN"
  | .infinity negative => signText negative ++ lit "Infinity"
  | .fraction negative n digits e =>
    signText negative ++ natText n ++ [46] ++ digits.1 ++ (match e with
      | none => []
      | some e => e.text)
  | .exponent negative n e => signText negative ++ natText n ++ e.text

/-! ## Values -/

mutual

inductive Doc where
  | null
  | bool (b : Bool)
  | int (negative : Bool) (n : Nat)
  | float (f : FloatLiteral)
  | str (s : List Piece)
  | arr (gap : Gap) (l : Elems)
  | obj (gap : Gap) (l : Members)

inductive Elems where
  | nil
  | cons (before : Gap) (d : Doc) (after : Gap) (l : Elems)

inductive Members where
  | nil
  | cons (before : Gap) (key : List Piece) (beforeColon afterColon : Gap) (d : Doc) (after : Gap) (l : Members)

end

mutual

def Doc.text : Doc → Str
  | .null => lit "null"
  | .bool true => lit "true"
  | .bool false => lit "false"
  | .int negative n => signText negative ++ natText n
  | .float f => f.text
  | .str s => stringText s
  | .arr gap l => lit "[" ++ gap.1 ++ join (lit ",") l.texts ++ lit "]"
  | .obj gap l => lit "\x7b" ++ gap.1 ++ join (lit ",") l.texts ++ lit "\x7d"

def Elems.texts : Elems → List Str
  | .nil => []
  | .cons before d after l => (before.1 ++ d.text ++ after.1) :: l.texts

def Members.texts : Members → List Str
  | .nil => []
  | .cons before key beforeColon afterColon d after l =>
    (before.1 ++ stringText key ++ beforeColon.1 ++ lit ":" ++ afterColon.1 ++ d.text ++ after.1) :: l.texts

end

/-- `d[key] = v`: in place for a key that is there, else at the end. -/
def set : Dict → Str → Json → Dict
  | [], key, v => [(key, v)]
  | kv :: d, key, v => if kv.1 = key then (key, v) :: d else kv :: set d key v

/-- `dict(pairs)`. -/
def dictOf (pairs : List (Str × Json)) : Dict := pairs.foldl (fun d kv => set d kv.1 kv.2) []

section
variable (repr : FloatLiteral → Str)

mutual

/-- What `json.loads` returns, for the `repr` of the floats that are read. -/
def Doc.value : Doc → Json
  | .null => .null
  | .bool b => .bool b
  | .int negative n => .int (if negative then -(n : Int) else n)
  | .float f => .float (repr f)
  | .str s => .str (stringValue s)
  | .arr _ l => .arr l.values
  | .obj _ l => .obj (dictOf l.items)

def Elems.values : Elems → List Json
  | .nil => []
  | .cons _ d _ l => d.value :: l.values

def Members.items : Members → List (Str × Json)
  | .nil => []
  | .cons _ key _ _ d _ l => (stringValue key, d.value) :: l.items

end

end

mutual

/-- The text is nested within the limit of the decoder, and its integers have no more digits than `int` converts. -/
def Doc.readable : Doc → Nat → Bool
  | .int _ n, _ => (natText n).length ≤ PyInt.maxStrDigits
  | .arr _ l, nesting => decide (0 < nesting) && l.readable (nesting - 1)
  | .obj _ l, nesting => decide (0 < nesting) && l.readable (nesting - 1)
  | _, _ => true

def Elems.readable : Elems → Nat → Bool
  | .nil, _ => true
  | .cons _ d _ l, nesting => d.readable nesting && l.readable nesting

def Members.readable : Members → Nat → Bool
  | .nil, _ => true
  | .cons _ _ _ _ d _ l, nesting => d.readable nesting && l.readable nesting

end

/-- A whole text: white space may stand around its value. -/
structure Document where
  before : Gap
  doc : Doc
  after : Gap

def Document.text (d : Document) : Str := d.before.1 ++ d.doc.text ++ d.after.1

/-- What `json.loads` leaves to the interpreter: `bytes.decode` under `detect_encoding`, the `repr` of the floats it
reads, and how deep its decoder goes. -/
structure Decoder where
  decode : Bytes → Option Str
  repr : FloatLiteral → Str
  nesting : Nat

/-- `json.loads`, on the text of a tree; `none` is a `RecursionError`, or the `ValueError` of an integer that is too long. -/
def Decoder.loads (dec : Decoder) (d : Document) : Option Json :=
  if d.doc.readable dec.nesting then some (d.doc.value dec.repr) else none

theorem Decoder.loads_eq_some {dec : Decoder} {d : Document} {v : Json} :
    dec.loads d = some v ↔ d.doc.readable dec.nesting = true ∧ d.doc.value dec.repr = v := by
  simp [Decoder.loads]

/-- A character that a string spells as itself. -/
def plain (c : Nat) : Piece := if h : 32 ≤ c ∧ c ≠ 34 ∧ c ≠ 92 ∧ c < 0x110000 then .plain ⟨c, h⟩ else .escape .quote

/-- UTF-8 for the bytes it shares with ASCII. -/
def Decoder.ascii : Decoder where
  decode raw := if raw.all (· < 128) then some raw else none
  repr f := f.text
  nesting := 1000

end AetherNode.Lib.JsonText
