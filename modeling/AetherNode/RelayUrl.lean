import AetherNode.Transport
import Mathlib.Data.List.TakeDrop
/-!
# Relay URLs

`normalize_relay_url` reads a relay address, and `_assert_onion_host` reads it
again behind every path. What the first returns is `http://`, an onion name
and perhaps a port, and it returns that again for its own result, except where
`$` has let a final line feed pass, or `isdigit` a digit that is not ASCII.
-/
open AetherNode.Lib AetherNode.Lib.Url AetherNode.Transport

namespace AetherNode.RelayUrl

/-- `s.rstrip("/")`. -/
def rstripSlash (s : Str) : Str := (s.reverse.dropWhile (· = 47)).reverse

/-- `s.partition("://")`, where it stands in the text. -/
def partitionScheme : Str → Option (Str × Str)
  | [] => none
  | c :: s =>
    if (c :: s).take 3 = lit "://" then some ([], s.drop 2)
    else (partitionScheme s).map fun r => (c :: r.1, r.2)

/-- `s.isdigit()`; `digit` tells the digits beyond ASCII. -/
def isdigit (digit : Nat → Bool) (s : Str) : Bool :=
  s ≠ [] && s.all fun c => if c < 128 then isDigit c else digit c

/-- The host and the port of a relay address; an error is the text of a `ValueError`. -/
def hostAndPort (raw : Str) : Except Str (Str × Str) :=
  let split (candidate : Str) : Str × Str :=
    let hostPart := (partition 47 candidate).1
    let (host, port) := partition 58 hostPart
    (host, port.getD [])
  let candidate := rstripSlash (strip raw)
  match partitionScheme candidate with
  | none => .ok (split candidate)
  | some (scheme, rest) =>
    if lower scheme ≠ lit "http" then
      .error (lit "unsupported scheme '" ++ scheme ++ lit "://' — only bare .onion addresses or 'http://<onion>' are accepted (not https:// — Tor already provides the encrypted transport)")
    else .ok (split rest)

/-- What follows the host. -/
def portSuffix (port : Str) : Str := if port = [] then [] else 58 :: port

def normalizeRelayUrl (digit : Nat → Bool) (raw : Str) : Except Str Str :=
  match hostAndPort raw with
  | .error e => .error e
  | .ok (host, port) =>
    if onionV3 (lower host) = false then
      .error (lit "not a valid Tor v3 .onion address (expected 56 base32 chars + '.onion', e.g. '<56chars>.onion')")
    else if port ≠ [] ∧ isdigit digit port = false then .error (lit "invalid port '" ++ port ++ lit "'")
    else .ok (lit "http://" ++ lower host ++ portSuffix port)

/-- What `urlsplit` checks about a netloc: brackets come in pairs around an address, and no character beyond ASCII
normalises to a delimiter. -/
def checkNetloc (bracketed nfkc : Str → Bool) (netloc : Str) : Bool :=
  (if 91 ∈ netloc ∧ 93 ∈ netloc then bracketed netloc else 91 ∉ netloc ∧ 93 ∉ netloc) &&
    (netloc.all (· < 128) || nfkc netloc)

/-! ## The normal form -/

/-- 56 characters of base32 and `.onion`. -/
def OnionName (h : Str) : Prop :=
  ∃ s, s.length = 56 ∧ (∀ c ∈ s, 97 ≤ c ∧ c ≤ 122 ∨ 50 ≤ c ∧ c ≤ 55) ∧ h = s ++ lit ".onion"

/-- `u` has the exact form, it is its own normal form, and a request to it is let pass with the same host. -/
structure Normal (digit netlocOk) (u h port : Str) : Prop where
  onion : OnionName h
  digits : ∀ c ∈ port, isDigit c = true
  form : u = lit "http://" ++ h ++ portSuffix port
  fixed : normalizeRelayUrl digit u = .ok u
  passes : assertOnionHost netlocOk (u ++ lit "/publish") = true
  host : (urlparse netlocOk (u ++ lit "/publish") []).map (fun parts => hostname parts.netloc) = some h

section
variable {digit : Nat → Bool} {h port : Str}

/-- What the regular expression matches. -/
theorem onionV3_iff {host : Str} : onionV3 host = true ↔ OnionName host ∨ ∃ h, OnionName h ∧ host = h ++ [10] := by
  have hnl : lit ".onion\n" = lit ".onion" ++ [10] := by decide
  constructor
  · intro hm
    simp only [onionV3, Bool.and_eq_true, Bool.or_eq_true, decide_eq_true_eq, List.all_eq_true] at hm
    obtain ⟨⟨hlen, hchars⟩, hrest⟩ := hm
    have hsplit := (List.take_append_drop 56 host).symm
    rcases hrest with hrest | hrest
    · rw [hrest] at hsplit
      exact .inl ⟨_, hlen, hchars, hsplit⟩
    · rw [hrest, hnl, ← List.append_assoc] at hsplit
      exact .inr ⟨_, ⟨_, hlen, hchars, rfl⟩, hsplit⟩
  · have hmatch : ∀ s : Str, s.length = 56 → (∀ c ∈ s, 97 ≤ c ∧ c ≤ 122 ∨ 50 ≤ c ∧ c ≤ 55) → ∀ t,
        (t = lit ".onion" ∨ t = lit ".onion\n") → onionV3 (s ++ t) = true := by
      intro s hlen hchars t ht
      simp only [onionV3, List.take_left' hlen, List.drop_left' hlen, hlen, Bool.and_eq_true, Bool.or_eq_true,
        decide_eq_true_eq, List.all_eq_true]
      exact ⟨⟨trivial, hchars⟩, ht⟩
    rintro (⟨s, hlen, hchars, rfl⟩ | ⟨-, ⟨s, hlen, hchars, rfl⟩, rfl⟩)
    · exact hmatch s hlen hchars _ (.inl rfl)
    · rw [List.append_assoc, ← hnl]
      exact hmatch s hlen hchars _ (.inr rfl)

theorem OnionName.length (hh : OnionName h) : h.length = 62 := by
  obtain ⟨s, hlen, -, rfl⟩ := hh
  rw [List.length_append, hlen]
  rfl

/-- The characters behind the scheme. -/
def UrlChar (c : Nat) : Prop := c = 46 ∨ 48 ≤ c ∧ c ≤ 58 ∨ 97 ≤ c ∧ c ≤ 122

theorem OnionName.urlChar (hh : OnionName h) {c : Nat} (hc : c ∈ h) : UrlChar c ∧ c ≠ 58 := by
  obtain ⟨s, -, hchars, rfl⟩ := hh
  unfold UrlChar
  rcases List.mem_append.1 hc with hc | hc
  · have := hchars c hc
    omega
  · have honion : ∀ c ∈ lit ".onion", c = 46 ∨ 97 ≤ c ∧ c ≤ 122 := by decide
    have := honion c hc
    omega

theorem urlChar_rest (hh : OnionName h) (hport : ∀ c ∈ port, isDigit c = true) {c : Nat}
    (hc : c ∈ h ++ portSuffix port) : UrlChar c := by
  rcases List.mem_append.1 hc with hc | hc
  · exact (hh.urlChar hc).1
  · unfold portSuffix at hc
    split at hc
    · cases hc
    · unfold UrlChar
      rcases List.mem_cons.1 hc with rfl | hc
      · omega
      · have := hport c hc
        simp only [isDigit, Bool.and_eq_true, decide_eq_true_eq] at this
        omega

theorem not_mem_rest (hh : OnionName h) (hport : ∀ c ∈ port, isDigit c = true) {c : Nat} (hc : ¬ UrlChar c) :
    c ∉ h ++ portSuffix port := fun hmem => hc (urlChar_rest hh hport hmem)

theorem partition_port (hh : OnionName h) (port : Str) :
    ((partition 58 (h ++ portSuffix port)).1, (partition 58 (h ++ portSuffix port)).2.getD []) = (h, port) := by
  have hno : 58 ∉ h := fun hc => (hh.urlChar hc).2 rfl
  unfold portSuffix
  split
  · rename_i hempty
    rw [List.append_nil, partition_of_not_mem hno, hempty]
    rfl
  · rw [partition_append hno]
    rfl

theorem OnionName.lower (hh : OnionName h) : lower h = h := by
  apply lower_eq_self
  intro c hc
  have := (hh.urlChar hc).1
  unfold UrlChar at this
  omega

theorem rstripSlash_eq_self {s : Str} (hlast : s.getLast? ≠ some 47) : rstripSlash s = s := by
  rcases List.eq_nil_or_concat s with rfl | ⟨t, c, rfl⟩
  · rfl
  · have hc : c ≠ 47 := by simpa using hlast
    simp [rstripSlash, hc]

theorem partitionScheme_http (rest : Str) : partitionScheme (lit "http://" ++ rest) = some (lit "http", rest) := by
  have hlit : lit "http://" = [104, 116, 116, 112, 58, 47, 47] := by decide
  have hsep : lit "://" = [58, 47, 47] := by decide
  have hhttp : lit "http" = [104, 116, 116, 112] := by decide
  rw [hlit, hhttp]
  simp [partitionScheme, hsep]

/-- A URL of the form is read as its host and its port. -/
theorem hostAndPort_form (hh : OnionName h) (hport : ∀ c ∈ port, isDigit c = true) :
    hostAndPort (lit "http://" ++ h ++ portSuffix port) = .ok (h, port) := by
  have hchars : ∀ c ∈ h ++ portSuffix port, UrlChar c := fun c hc => urlChar_rest hh hport hc
  have hlast : ∀ c, (lit "http://" ++ (h ++ portSuffix port)).getLast? = some c → UrlChar c := by
    intro c hc
    have hne : h ++ portSuffix port ≠ [] := by
      intro hempty
      have := hh.length
      rw [(List.append_eq_nil_iff.1 hempty).1] at this
      cases this
    rw [List.getLast?_append_of_ne_nil _ hne] at hc
    exact hchars c (List.mem_of_getLast? hc)
  have hstrip : strip (lit "http://" ++ (h ++ portSuffix port)) = lit "http://" ++ (h ++ portSuffix port) := by
    apply strip_eq_self
    · intro c hc
      cases hc
      decide
    · intro c hc
      have := hlast c hc
      simp only [isSpace, UrlChar, Bool.or_eq_false_iff, Bool.and_eq_false_iff, decide_eq_false_iff_not] at this ⊢
      omega
  have hslash : rstripSlash (lit "http://" ++ (h ++ portSuffix port)) = lit "http://" ++ (h ++ portSuffix port) := by
    apply rstripSlash_eq_self
    intro hc
    have := hlast 47 hc
    unfold UrlChar at this
    omega
  have hpath : partition 47 (h ++ portSuffix port) = (h ++ portSuffix port, none) :=
    partition_of_not_mem (not_mem_rest hh hport (by simp [UrlChar]))
  have hscheme : lower (lit "http") = lit "http" := by decide
  rw [List.append_assoc, hostAndPort, hstrip, hslash, partitionScheme_http]
  simp only [hscheme, ne_eq, not_true_eq_false, if_false, hpath]
  rw [← partition_port hh port]

theorem portSuffix_inj {port port' : Str} (heq : portSuffix port = portSuffix port') : port = port' := by
  unfold portSuffix at heq
  split_ifs at heq with hp hp'
  · rw [hp, hp']
  · exact List.tail_eq_of_cons_eq heq

theorem isdigit_of_ascii (hne : port ≠ []) (hport : ∀ c ∈ port, isDigit c = true) : isdigit digit port = true := by
  have hall : ∀ c ∈ port, (if c < 128 then isDigit c else digit c) = true := by
    intro c hc
    have hd := hport c hc
    have hlt : c < 128 := by
      simp only [isDigit, Bool.and_eq_true, decide_eq_true_eq] at hd
      omega
    rw [if_pos hlt, hd]
  rw [isdigit, List.all_eq_true.2 hall, Bool.and_true, decide_eq_true hne]

/-- A URL of the form is its own normal form. -/
theorem normalizeRelayUrl_form (hh : OnionName h) (hport : ∀ c ∈ port, isDigit c = true) :
    normalizeRelayUrl digit (lit "http://" ++ h ++ portSuffix port) =
      .ok (lit "http://" ++ h ++ portSuffix port) := by
  have hmatch : onionV3 h = true := onionV3_iff.2 (.inl hh)
  have hvalid : ¬ (port ≠ [] ∧ isdigit digit port = false) := by
    rintro ⟨hne, hbad⟩
    rw [isdigit_of_ascii hne hport] at hbad
    cases hbad
  rw [normalizeRelayUrl, hostAndPort_form hh hport]
  simp only [hh.lower, hmatch, Bool.true_eq_false, if_false, if_neg hvalid]

/-- What the check at the network call reads in a URL of the form, before a path. -/
theorem urlparse_form (bracketed nfkc : Str → Bool) (hh : OnionName h) (hport : ∀ c ∈ port, isDigit c = true) :
    (urlparse (checkNetloc bracketed nfkc) (lit "http://" ++ h ++ portSuffix port ++ lit "/publish") []).map
      (fun parts => hostname parts.netloc) = some h := by
  have hchars : ∀ c ∈ h ++ portSuffix port, UrlChar c := fun c hc => urlChar_rest hh hport hc
  have hpublish : lit "/publish" = 47 :: lit "publish" := by decide
  have hhttp : lit "http://" = lit "http" ++ 58 :: [47, 47] := by decide
  -- Nothing is trimmed or removed.
  have htrim : ((lit "http://" ++ (h ++ portSuffix port) ++ lit "/publish").dropWhile (· ≤ 32)).filter
      (fun c => c ≠ 9 && c ≠ 10 && c ≠ 13) = lit "http://" ++ (h ++ portSuffix port) ++ lit "/publish" := by
    have hkeep : ∀ c ∈ lit "http://" ++ (h ++ portSuffix port) ++ lit "/publish",
        (c ≠ 9 && c ≠ 10 && c ≠ 13) = true := by
      have hlits : ∀ c ∈ lit "http://" ++ lit "/publish", (c ≠ 9 && c ≠ 10 && c ≠ 13) = true := by decide
      intro c hc
      rw [List.mem_append, List.mem_append] at hc
      rcases hc with (hc | hc) | hc
      · exact hlits c (List.mem_append_left _ hc)
      · have := hchars c hc
        simp only [UrlChar, ne_eq, Bool.and_eq_true, decide_eq_true_eq] at this ⊢
        omega
      · exact hlits c (List.mem_append_right _ hc)
    have hhead : (lit "http://" ++ (h ++ portSuffix port) ++ lit "/publish").dropWhile (· ≤ 32) =
        lit "http://" ++ (h ++ portSuffix port) ++ lit "/publish" := rfl
    rw [hhead, List.filter_eq_self.2 hkeep]
  have hscheme : splitScheme [] (lit "http://" ++ (h ++ portSuffix port) ++ lit "/publish") =
      (lit "http", 47 :: 47 :: (h ++ portSuffix port ++ 47 :: lit "publish")) := by
    have hno : 58 ∉ lit "http" := by decide
    have hletters : ((lit "http").head?.any isLetter && (lit "http").all schemeChar) = true := by decide
    have hlower : lower (lit "http") = lit "http" := by decide
    have hurl : lit "http://" ++ (h ++ portSuffix port) ++ lit "/publish" =
        lit "http" ++ 58 :: (47 :: 47 :: (h ++ portSuffix port ++ 47 :: lit "publish")) := by
      rw [hhttp, hpublish]
      simp
    rw [hurl, splitScheme, partition_append hno]
    simp only [hletters, if_true, hlower]
  have hnetloc : splitNetloc (47 :: 47 :: (h ++ portSuffix port ++ 47 :: lit "publish")) =
      (h ++ portSuffix port, 47 :: lit "publish") := by
    have hin : ∀ c ∈ h ++ portSuffix port, (c ≠ 47 && c ≠ 63 && c ≠ 35) = true := by
      intro c hc
      have := hchars c hc
      simp only [UrlChar, ne_eq, Bool.and_eq_true, decide_eq_true_eq] at this ⊢
      omega
    rw [splitNetloc, List.span_eq_takeWhile_dropWhile, List.takeWhile_append_of_pos hin, List.dropWhile_append_of_pos hin]
    simp
  have hcheck : checkNetloc bracketed nfkc (h ++ portSuffix port) = true := by
    have hopen : 91 ∉ h ++ portSuffix port := not_mem_rest hh hport (by simp [UrlChar])
    have hclose : 93 ∉ h ++ portSuffix port := not_mem_rest hh hport (by simp [UrlChar])
    have hascii : (h ++ portSuffix port).all (· < 128) = true := by
      rw [List.all_eq_true]
      intro c hc
      have := hchars c hc
      unfold UrlChar at this
      exact decide_eq_true (by omega)
    simp [checkNetloc, hopen, hclose, hascii]
  have hhost : hostname (h ++ portSuffix port) = h := by
    have hat : 64 ∉ h ++ portSuffix port := not_mem_rest hh hport (by simp [UrlChar])
    have hopen : 91 ∉ h ++ portSuffix port := not_mem_rest hh hport (by simp [UrlChar])
    have hzone : ∀ c ∈ h, decide (c ≠ 37) = true := by
      intro c hc
      have := (hh.urlChar hc).1
      unfold UrlChar at this
      exact decide_eq_true (by omega)
    have hsplit := congrArg Prod.fst (partition_port hh port)
    dsimp only at hsplit
    rw [hostname, rpartition_of_not_mem hat]
    simp only [partition_of_not_mem hopen, hsplit]
    rw [List.takeWhile_eq_self_iff.2 hzone, List.dropWhile_eq_nil_iff.2 hzone, List.append_nil, hh.lower]
  rw [List.append_assoc (lit "http://"), urlparse, htrim]
  simp only [hscheme, hnetloc, hcheck, if_true, Option.map_some, hhost]

/-- A URL of the form has everything that is asked of a result. -/
theorem normal_form (bracketed nfkc : Str → Bool) (hh : OnionName h) (hport : ∀ c ∈ port, isDigit c = true) :
    Normal digit (checkNetloc bracketed nfkc) (lit "http://" ++ h ++ portSuffix port) h port := by
  have hparse := urlparse_form bracketed nfkc hh hport
  refine ⟨hh, hport, rfl, normalizeRelayUrl_form hh hport, ?_, hparse⟩
  obtain ⟨parts, hparts, hname⟩ := Option.map_eq_some_iff.1 hparse
  rw [assertOnionHost, hparts]
  simp only [hname, hh.lower]
  exact onionV3_iff.2 (.inl hh)

theorem getLast?_lower (host : Str) : (lower host).getLast? = some 10 ↔ host.getLast? = some 10 := by
  have hchar : ∀ c : Nat, (if 65 ≤ c ∧ c ≤ 90 then c + 32 else if c = 0x212A then 107 else c) = 10 ↔ c = 10 := by
    intro c
    split_ifs <;> omega
  rw [lower, List.getLast?_map, Option.map_eq_some_iff]
  simp only [hchar, exists_eq_right]

/-- What `normalize_relay_url` returns, and when. -/
theorem normalizeRelayUrl_ok {raw u : Str} (hu : normalizeRelayUrl digit raw = .ok u) : ∃ host port,
    hostAndPort raw = .ok (host, port) ∧ onionV3 (lower host) = true ∧ (port = [] ∨ isdigit digit port = true) ∧
      u = lit "http://" ++ lower host ++ portSuffix port := by
  unfold normalizeRelayUrl at hu
  split at hu
  · cases hu
  · rename_i host port hsplit
    split at hu
    · cases hu
    · rename_i hmatch
      split at hu
      · cases hu
      · rename_i hvalid
        cases hu
        refine ⟨host, port, hsplit, by simpa using hmatch, ?_, rfl⟩
        by_cases hempty : port = []
        · exact .inl hempty
        · exact .inr (by simpa [hempty] using hvalid)

/-- A host with a line feed behind its name gives no URL of the form. -/
theorem form_ne_newline {h h' : Str} (hh : OnionName h) (hh' : OnionName h') (port port' : Str) :
    h' ++ [10] ++ portSuffix port' ≠ h ++ portSuffix port := by
  intro heq
  have hat := congrArg (fun s => s[62]?) heq
  simp only [List.append_assoc] at hat
  rw [List.getElem?_append_right hh'.length.le, List.getElem?_append_right hh.length.le, hh.length, hh'.length] at hat
  unfold portSuffix at hat
  split_ifs at hat <;> simp at hat

end

/-- Every result of the normalisation is of the form, a fixed point, and let pass by the check at the network call,
exactly when the address has no onion name with a line feed behind it and no onion name with a port in digits that are
not all ASCII. -/
theorem normalized_iff (digit bracketed nfkc) (raw : Str) :
    (∀ u, normalizeRelayUrl digit raw = .ok u → ∃ h port, Normal digit (checkNetloc bracketed nfkc) u h port) ↔
      ∀ host port, hostAndPort raw = .ok (host, port) → onionV3 (lower host) = true →
        (port = [] ∨ isdigit digit port = true) → host.getLast? ≠ some 10 ∧ ∀ c ∈ port, c < 128 := by
  constructor
  · intro hall host port hsplit hmatch hport
    have hu : normalizeRelayUrl digit raw = .ok (lit "http://" ++ lower host ++ portSuffix port) := by
      rw [normalizeRelayUrl, hsplit]
      have hvalid : ¬ (port ≠ [] ∧ isdigit digit port = false) := by
        rintro ⟨hne, hbad⟩
        rw [hport.resolve_left hne] at hbad
        cases hbad
      simp only [hmatch, Bool.true_eq_false, if_false, if_neg hvalid]
    obtain ⟨h, port', hnormal⟩ := hall _ hu
    have hform := hnormal.form
    rw [List.append_assoc, List.append_assoc] at hform
    have hrest := List.append_cancel_left hform
    rcases onionV3_iff.1 hmatch with hname | ⟨h', hname, hnl⟩
    · obtain ⟨hhost, hsuffix⟩ := List.append_inj hrest (hname.length.trans hnormal.onion.length.symm)
      have heq : port = port' := portSuffix_inj hsuffix
      constructor
      · intro hlast
        rw [← getLast?_lower] at hlast
        have := (hname.urlChar (List.mem_of_getLast? hlast)).1
        unfold UrlChar at this
        omega
      · intro c hc
        have := hnormal.digits c (heq ▸ hc)
        simp only [isDigit, Bool.and_eq_true, decide_eq_true_eq] at this
        omega
    · rw [hnl] at hrest
      exact absurd hrest (form_ne_newline hnormal.onion hname port' port)
  · intro hgood u hu
    obtain ⟨host, port, hsplit, hmatch, hport, rfl⟩ := normalizeRelayUrl_ok hu
    obtain ⟨hlast, hascii⟩ := hgood host port hsplit hmatch hport
    have hname : OnionName (lower host) := by
      rcases onionV3_iff.1 hmatch with hname | ⟨h', -, hnl⟩
      · exact hname
      · rw [Ne, ← getLast?_lower, hnl] at hlast
        simp at hlast
    have hdigits : ∀ c ∈ port, isDigit c = true := by
      intro c hc
      rcases hport with rfl | hport
      · cases hc
      · simp only [isdigit, Bool.and_eq_true, List.all_eq_true] at hport
        have := hport.2 c hc
        rwa [if_pos (hascii c hc)] at this
    exact ⟨_, _, normal_form bracketed nfkc hname hdigits⟩

/-- An onion name with a line feed and a path behind it comes back with the line feed, and not a second time. -/
theorem newline_kept : ∃ raw u, normalizeRelayUrl (fun _ => false) raw = .ok u ∧
    u = lit "http://" ++ sampleOnion ++ [10] ∧ normalizeRelayUrl (fun _ => false) u ≠ .ok u ∧
    ∀ bracketed nfkc h port, ¬ Normal (fun _ => false) (checkNetloc bracketed nfkc) u h port := by
  have hfixed : normalizeRelayUrl (fun _ => false) (lit "http://" ++ sampleOnion ++ [10]) ≠
      .ok (lit "http://" ++ sampleOnion ++ [10]) := by decide +kernel
  refine ⟨sampleOnion ++ lit "\n/", _, by decide +kernel, rfl, hfixed, ?_⟩
  intro bracketed nfkc h port hnormal
  exact hfixed hnormal.fixed

end AetherNode.RelayUrl
