import AetherNode.Lib.Text
import Mathlib.Data.List.TakeWhile
/-!
# URLs as `urllib` reads them

`urlsplit`, `urljoin` and the attributes of a `Request`, on code points. What
`urlsplit` checks about a netloc (brackets, and characters that normalise to
delimiters) only decides whether it raises, and is a parameter.
-/
namespace AetherNode.Lib.Url

/-- `s.lower()`, as far as it leads to ASCII: besides the capitals only the Kelvin sign does. -/
def lower (s : Str) : Str := s.map fun c => if 65 ≤ c ∧ c ≤ 90 then c + 32 else if c = 0x212A then 107 else c

/-- `s.strip()`. -/
def strip (s : Str) : Str := ((s.dropWhile isSpace).reverse.dropWhile isSpace).reverse

/-- `s.partition(c)`: what stands before the first `c`, and after it where there is one. -/
def partition (c : Nat) (s : Str) : Str × Option Str :=
  (s.takeWhile (· ≠ c), match s.dropWhile (· ≠ c) with
    | [] => none
    | _ :: rest => some rest)

/-- `s.rpartition(c)`: what stands before the last `c` where there is one, and after it. -/
def rpartition (c : Nat) (s : Str) : Option Str × Str :=
  let r := partition c s.reverse
  (r.2.map List.reverse, r.1.reverse)

def isLetter (c : Nat) : Bool := 65 ≤ c && c ≤ 90 || 97 ≤ c && c ≤ 122

def isDigit (c : Nat) : Bool := 48 ≤ c && c ≤ 57

/-- `scheme_chars`. -/
def schemeChar (c : Nat) : Bool := isLetter c || isDigit c || c = 43 || c = 45 || c = 46

/-- The schemes a redirect may have, which have a netloc, params and relative references. -/
def usesNetloc (scheme : Str) : Bool := scheme = [] || scheme = lit "http" || scheme = lit "https" || scheme = lit "ftp"

/-! ## `urllib.parse` -/

structure ParseResult where
  scheme : Str
  netloc : Str
  path : Str
  params : Str
  query : Str
  fragment : Str

/-- The scheme of a URL, or the default, and what follows it. -/
def splitScheme (dflt url : Str) : Str × Str :=
  match partition 58 url with
  | (scheme, some rest) => if scheme.head?.any isLetter && scheme.all schemeChar then (lower scheme, rest) else (dflt, url)
  | (_, none) => (dflt, url)

/-- `_splitnetloc`, behind two slashes. -/
def splitNetloc : Str → Str × Str
  | 47 :: 47 :: url => url.span fun c => c ≠ 47 && c ≠ 63 && c ≠ 35
  | url => ([], url)

/-- `_splitparams`: the params of the last segment. -/
def splitParams (url : Str) : Str × Str :=
  match rpartition 47 url with
  | (none, _) =>
    match partition 59 url with
    | (path, params) => (path, params.getD [])
  | (some dir, last) =>
    match partition 59 last with
    | (path, params) => (dir ++ 47 :: path, params.getD [])

/-- `urlparse(url, scheme)`; `none` is a `ValueError`. -/
def urlparse (netlocOk : Str → Bool) (url dflt : Str) : Option ParseResult :=
  let url := (url.dropWhile (· ≤ 32)).filter fun c => c ≠ 9 && c ≠ 10 && c ≠ 13
  let (scheme, url) := splitScheme dflt url
  let (netloc, url) := splitNetloc url
  if netlocOk netloc then
    let (url, fragment) := partition 35 url
    let (url, query) := partition 63 url
    let (path, params) := if usesNetloc scheme then splitParams url else (url, [])
    some ⟨scheme, netloc, path, params, query.getD [], fragment.getD []⟩
  else none

/-- `.hostname` of a netloc. -/
def hostname (netloc : Str) : Str :=
  let hostinfo := (rpartition 64 netloc).2
  let host :=
    match partition 91 hostinfo with
    | (_, some bracketed) => (partition 93 bracketed).1
    | (_, none) => (partition 58 hostinfo).1
  lower (host.takeWhile (· ≠ 37)) ++ host.dropWhile (· ≠ 37)

def urlunparse (p : ParseResult) : Str :=
  let url := if p.params = [] then p.path else p.path ++ 59 :: p.params
  let url :=
    if p.netloc ≠ [] ∨ (p.scheme ≠ [] ∧ usesNetloc p.scheme) ∨ url.take 2 = [47, 47] then
      lit "//" ++ p.netloc ++ (if url ≠ [] ∧ url.take 1 ≠ [47] then 47 :: url else url)
    else url
  let url := if p.scheme = [] then url else p.scheme ++ 58 :: url
  let url := if p.query = [] then url else url ++ 63 :: p.query
  if p.fragment = [] then url else url ++ 35 :: p.fragment

/-- The segments of a path with `.` and `..` resolved. -/
def resolveDots (segments : List Str) : List Str :=
  segments.foldl (fun resolved seg =>
    if seg = lit ".." then resolved.dropLast else if seg = lit "." then resolved else resolved ++ [seg]) []

/-- The segments of `path` relative to `basePath`. -/
def joinSegments (basePath path : Str) : List Str :=
  if path.take 1 = [47] then splitOn 47 path
  else
    let baseParts := splitOn 47 basePath
    let baseParts := if baseParts.getLast? = some [] then baseParts else baseParts.dropLast
    let segments := baseParts ++ splitOn 47 path
    segments.take 1 ++ (segments.drop 1).dropLast.filter (· ≠ []) ++ (segments.drop 1).getLast?.toList

/-- `urljoin`. -/
def urljoin (netlocOk : Str → Bool) (base url : Str) : Option Str :=
  if base = [] then some url
  else if url = [] then some base
  else
    match urlparse netlocOk base [] with
    | none => none
    | some b =>
      match urlparse netlocOk url b.scheme with
      | none => none
      | some u =>
        if u.scheme ≠ b.scheme ∨ !usesNetloc u.scheme then some url
        else if u.netloc ≠ [] then some (urlunparse u)
        else if u.path = [] ∧ u.params = [] then
          some (urlunparse { b with query := if u.query = [] then b.query else u.query, fragment := u.fragment })
        else
          let segments := joinSegments b.path u.path
          let resolved := resolveDots segments
          let resolved :=
            if segments.getLast? = some (lit ".") ∨ segments.getLast? = some (lit "..") then resolved ++ [[]] else resolved
          let path := join (lit "/") resolved
          some (urlunparse { u with netloc := b.netloc, path := if path = [] then lit "/" else path })

def hexUpper (n : Nat) : Nat := if n < 10 then 48 + n else 55 + n

/-- `quote(s, encoding="iso-8859-1", safe=string.punctuation)`; `none` is a `UnicodeEncodeError`. -/
def quoteLatin1 (s : Str) : Option Str :=
  if s.all (· < 256) then
    some (s.flatMap fun c => if 33 ≤ c ∧ c ≤ 126 then [c] else [37, hexUpper (c / 16), hexUpper (c % 16)])
  else none

/-! ## Percent decoding -/

def hexValue (c : Nat) : Option Nat :=
  if isDigit c then some (c - 48)
  else if 65 ≤ c ∧ c ≤ 70 then some (c - 55)
  else if 97 ≤ c ∧ c ≤ 102 then some (c - 87)
  else none

/-- The escapes of a text: a byte for each escape and each ASCII character, and other characters as they are. -/
def unescape : Str → List (Nat ⊕ Nat)
  | 37 :: h :: l :: s =>
    match hexValue h, hexValue l with
    | some hi, some lo => .inl (16 * hi + lo) :: unescape s
    | _, _ => .inl 37 :: unescape (h :: l :: s)
  | c :: s => (if c < 128 then .inl c else .inr c) :: unescape s
  | [] => []

/-- What a UTF-8 lead byte announces: how many bytes follow, its bits, and the range of the next byte. -/
def lead (b : Nat) : Option (Nat × Nat × Nat × Nat) :=
  if 0xC2 ≤ b ∧ b ≤ 0xDF then some (1, b - 0xC0, 0x80, 0xBF)
  else if b = 0xE0 then some (2, 0, 0xA0, 0xBF)
  else if b = 0xED then some (2, 13, 0x80, 0x9F)
  else if 0xE1 ≤ b ∧ b ≤ 0xEF then some (2, b - 0xE0, 0x80, 0xBF)
  else if b = 0xF0 then some (3, 0, 0x90, 0xBF)
  else if 0xF1 ≤ b ∧ b ≤ 0xF3 then some (3, b - 0xF0, 0x80, 0xBF)
  else if b = 0xF4 then some (3, 4, 0x80, 0x8F)
  else none

/-- UTF-8 decoding with `errors="replace"`, inside a sequence or between two. -/
def decodeReplace : Option (Nat × Nat × Nat × Nat) → List (Nat ⊕ Nat) → Str
  | none, [] => []
  | some _, [] => [0xFFFD]
  | none, .inr c :: l => c :: decodeReplace none l
  | some _, .inr c :: l => 0xFFFD :: c :: decodeReplace none l
  | none, .inl b :: l =>
    if b < 128 then b :: decodeReplace none l
    else
      match lead b with
      | none => 0xFFFD :: decodeReplace none l
      | some seq => decodeReplace (some seq) l
  | some (n, bits, lo, hi), .inl b :: l =>
    if lo ≤ b ∧ b ≤ hi then
      if n = 1 then (bits * 64 + (b - 0x80)) :: decodeReplace none l
      else decodeReplace (some (n - 1, bits * 64 + (b - 0x80), 0x80, 0xBF)) l
    else if b < 128 then 0xFFFD :: b :: decodeReplace none l
    else
      match lead b with
      | none => 0xFFFD :: 0xFFFD :: decodeReplace none l
      | some seq => 0xFFFD :: decodeReplace (some seq) l

/-- `unquote`. -/
def unquote (s : Str) : Str := decodeReplace none (unescape s)

/-! ## `urllib.request.Request` -/

/-- `unwrap`. -/
def unwrap (url : Str) : Str :=
  let url := strip url
  let url := if url.head? = some 60 ∧ url.getLast? = some 62 then strip (url.drop 1).dropLast else url
  if url.take 4 = lit "URL:" then strip (url.drop 4) else url

structure Request where
  fullUrl : Str
  type : Str
  host : Option Str
  selector : Str

/-- `_splithost`. -/
def splitHost : Str → Option Str × Str
  | 47 :: 47 :: rest =>
    let (host, path) := rest.span fun c => c ≠ 47 && c ≠ 35 && c ≠ 63
    (some host, if path ≠ [] ∧ path.take 1 ≠ [47] then 47 :: path else path)
  | rest => (none, rest)

/-- The attributes of `Request(url)`; `none` is a `ValueError`. -/
def Request.ofUrl (url : Str) : Option Request :=
  let (url, fragment) :=
    match rpartition 35 (unwrap url) with
    | (some url, tag) => (url, tag)
    | (none, url) => (url, [])
  let type := url.takeWhile fun c => c ≠ 47 && c ≠ 58
  match url.dropWhile fun c => c ≠ 47 && c ≠ 58 with
  | 58 :: rest =>
    if type = [] then none
    else
      let (host, selector) := splitHost rest
      some ⟨if fragment = [] then url else url ++ 35 :: fragment, lower type, host.map unquote, selector⟩
  | _ => none

/-! ## Splitting where the delimiter stands -/

theorem partition_of_not_mem {c : Nat} {s : Str} (h : c ∉ s) : partition c s = (s, none) := by
  have hne : ∀ d ∈ s, decide (d ≠ c) = true := by
    intro d hd
    rw [decide_eq_true_eq]
    rintro rfl
    exact h hd
  rw [partition, List.takeWhile_eq_self_iff.2 hne, List.dropWhile_eq_nil_iff.2 hne]

theorem partition_append {c : Nat} {s t : Str} (h : c ∉ s) : partition c (s ++ c :: t) = (s, some t) := by
  have hne : ∀ d ∈ s, decide (d ≠ c) = true := by
    intro d hd
    rw [decide_eq_true_eq]
    rintro rfl
    exact h hd
  rw [partition, List.takeWhile_append_of_pos hne, List.dropWhile_append_of_pos hne]
  simp

theorem rpartition_of_not_mem {c : Nat} {s : Str} (h : c ∉ s) : rpartition c s = (none, s) := by
  rw [rpartition, partition_of_not_mem (by simpa using h)]
  simp

theorem lower_eq_self {s : Str} (h : ∀ c ∈ s, ¬ (65 ≤ c ∧ c ≤ 90) ∧ c ≠ 0x212A) : lower s = s := by
  rw [lower]
  conv_rhs => rw [← List.map_id s]
  apply List.map_congr_left
  intro c hc
  rw [if_neg (h c hc).1, if_neg (h c hc).2, id]

/-- A text that starts and ends with other characters keeps them all. -/
theorem strip_eq_self {s : Str} (hhead : ∀ c ∈ s.head?, isSpace c = false) (hlast : ∀ c ∈ s.getLast?, isSpace c = false) :
    strip s = s := by
  have hdrop : ∀ {t : Str}, (∀ c ∈ t.head?, isSpace c = false) → t.dropWhile isSpace = t := by
    intro t ht
    cases t with
    | nil => rfl
    | cons c t => rw [List.dropWhile_cons_of_neg (by simp [ht c rfl])]
  rw [strip, hdrop hhead, hdrop (by simpa using hlast), List.reverse_reverse]

end AetherNode.Lib.Url
