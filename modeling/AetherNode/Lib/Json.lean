import AetherNode.Lib.Text
/-!
# JSON values and their printed form

The values Python's `json` reads and writes. A float is kept as its printed
form, and an object as its pairs in insertion order. `dumps` is `json.dumps`
with ASCII escapes, for any pair of separators.
-/
namespace AetherNode.Lib

inductive Json where
  | null
  | bool (b : Bool)
  | int (z : Int)
  | float (repr : Str)
  | str (s : Str)
  | arr (l : List Json)
  | obj (l : List (Str × Json))

/-- A Python `dict` with string keys: its items in insertion order. -/
abbrev Dict := List (Str × Json)

/-- `d.get(key)`. -/
def Dict.get (d : Dict) (key : Str) : Option Json := (d.find? fun kv => kv.1 = key).map (·.2)

/-- `d[key]` where the value is known to be a text. -/
def Dict.text (d : Dict) (key : Str) : Str :=
  match d.get key with
  | some (.str s) => s
  | _ => []

theorem Dict.text_eq {d : Dict} {key s : Str} (h : d.get key = some (.str s)) : d.text key = s := by
  simp [Dict.text, h]

namespace Json

/-- The text of a natural number. -/
def natText (n : Nat) : Str := (Nat.toDigits 10 n).map Char.toNat

theorem natText_injective : Function.Injective natText := by
  intro a b h
  have hdigits := (List.map_injective_iff.2 fun x y hxy => Char.toNat_inj.1 hxy) h
  rw [← Nat.ofDigitChars_ten_toDigits (n := a), hdigits, Nat.ofDigitChars_ten_toDigits]

def intText : Int → Str
  | .ofNat n => natText n
  | .negSucc n => lit "-" ++ natText (n + 1)

def hexDigit (n : Nat) : Nat := if n < 10 then 48 + n else 87 + n

/-- `\uXXXX` of a 16-bit unit. -/
def hexEscape (n : Nat) : Str :=
  [92, 117, hexDigit (n / 4096 % 16), hexDigit (n / 256 % 16), hexDigit (n / 16 % 16), hexDigit (n % 16)]

/-- One code point inside a JSON string, with `ensure_ascii`. -/
def escapeChar (c : Nat) : Str :=
  if c = 34 then [92, 34]
  else if c = 92 then [92, 92]
  else if c = 10 then [92, 110]
  else if c = 13 then [92, 114]
  else if c = 9 then [92, 116]
  else if c = 12 then [92, 102]
  else if c = 8 then [92, 98]
  else if 32 ≤ c ∧ c ≤ 126 then [c]
  else if c < 0x10000 then hexEscape c
  else hexEscape (0xD800 + (c - 0x10000) / 0x400) ++ hexEscape (0xDC00 + (c - 0x10000) % 0x400)

/-- A quoted string. -/
def quote (s : Str) : Str := [34] ++ s.flatMap escapeChar ++ [34]

mutual

/-- `json.dumps(v, separators=(sep, colon))`. -/
def dumps (sep colon : Str) : Json → Str
  | .null => lit "null"
  | .bool true => lit "true"
  | .bool false => lit "false"
  | .int z => intText z
  | .float r => r
  | .str s => quote s
  | .arr l => lit "[" ++ join sep (dumpsAll sep colon l) ++ lit "]"
  | .obj l => lit "\x7b" ++ join sep (dumpsItems sep colon l) ++ lit "\x7d"

def dumpsAll (sep colon : Str) : List Json → List Str
  | [] => []
  | v :: l => dumps sep colon v :: dumpsAll sep colon l

def dumpsItems (sep colon : Str) : List (Str × Json) → List Str
  | [] => []
  | (k, v) :: l => (quote k ++ colon ++ dumps sep colon v) :: dumpsItems sep colon l

end

theorem dumpsAll_eq_map (sep colon : Str) (l : List Json) : dumpsAll sep colon l = l.map (dumps sep colon) := by
  induction l with
  | nil => rfl
  | cons v l ih => rw [dumpsAll, ih, List.map_cons]

/-- Insert an item in key order, after the items with its key. -/
def insertByKey (kv : Str × Json) : List (Str × Json) → List (Str × Json)
  | [] => [kv]
  | x :: l => if kv.1 < x.1 then kv :: x :: l else x :: insertByKey kv l

mutual

/-- The value with the items of every object sorted by key (`sort_keys=True`). -/
def sortKeys : Json → Json
  | .arr l => .arr (sortKeysAll l)
  | .obj l => .obj (sortKeysItems l)
  | v => v

def sortKeysAll : List Json → List Json
  | [] => []
  | v :: l => sortKeys v :: sortKeysAll l

def sortKeysItems : List (Str × Json) → List (Str × Json)
  | [] => []
  | (k, v) :: l => insertByKey (k, sortKeys v) (sortKeysItems l)

end

/-- Python's truth value; a float is false when it prints as a zero. -/
def truthy : Json → Bool
  | .null => false
  | .bool b => b
  | .int z => z ≠ 0
  | .float r => r ≠ lit "0.0" ∧ r ≠ lit "-0.0"
  | .str s => s ≠ []
  | .arr l => !l.isEmpty
  | .obj l => !l.isEmpty

/-- `json.dumps(v)`: the default separators. -/
def dumpsDefault (v : Json) : Str := dumps (lit ", ") (lit ": ") v

/-- The canonical form that is signed: sorted keys, no spaces. -/
def canonical (v : Json) : Str := dumps (lit ",") (lit ":") (sortKeys v)

/-- A text of printable ASCII without quotes and backslashes is quoted as it is. -/
theorem length_encode_quote {s : Str} (h : ∀ c ∈ s, 32 ≤ c ∧ c ≤ 126 ∧ c ≠ 34 ∧ c ≠ 92) :
    (encode (quote s)).length = s.length + 2 := by
  have hchars : (encode (s.flatMap escapeChar)).length = s.length := by
    induction s with
    | nil => rfl
    | cons c s ih =>
      obtain ⟨hlow, hhigh, hquote, hslash⟩ := h c (by simp)
      have hplain : escapeChar c = [c] := by
        unfold escapeChar
        rw [if_neg hquote, if_neg hslash, if_neg (by omega), if_neg (by omega), if_neg (by omega), if_neg (by omega),
          if_neg (by omega), if_pos ⟨hlow, hhigh⟩]
      have hbyte : encode [c] = [c] := by
        simp [encode, utf8, show c < 128 by omega]
      rw [List.flatMap_cons, encode_append, List.length_append, hplain, hbyte, ih fun x hx => h x (by simp [hx])]
      simp [Nat.add_comm]
  have hquote : (encode [34]).length = 1 := by decide
  rw [quote, encode_append, encode_append, List.length_append, List.length_append, hchars, hquote]
  omega

example : dumpsDefault (.obj [(lit "a", .arr [.int (-7), .null]), (lit "é", .str [10])]) =
    lit "\x7b\"a\": [-7, null], \"\\u00e9\": \"\\n\"\x7d" := by decide

example : canonical (.obj [(lit "b", .int 1), (lit "a", .int 2)]) = lit "\x7b\"a\":2,\"b\":1\x7d" := by decide

end Json

end AetherNode.Lib
