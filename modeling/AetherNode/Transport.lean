import AetherNode.Lib.PyInt
import AetherNode.Lib.Url
import Mathlib.Data.List.Dedup
/-!
# What the client contacts

The client refuses a URL whose host is no v3 onion name, then hands it to an
opener with one handler of its own. The opener also has the default handlers:
it follows redirects, and opens https and ftp without the SOCKS proxy. Only
the first URL is checked, so what is contacted depends on every URL of the
redirect chain, and on the host as the opener reads it.
-/
open AetherNode.Lib AetherNode.Lib.Url

namespace AetherNode.Transport

/-- `_ONION_V3_RE.match(host)`; the `$` also matches before a final newline. -/
def onionV3 (host : Str) : Bool :=
  (host.take 56).length = 56 && (host.take 56).all (fun c => 97 ≤ c && c ≤ 122 || 50 ≤ c && c ≤ 55) &&
    (host.drop 56 = lit ".onion" || host.drop 56 = lit ".onion\n")

/-- `_assert_onion_host` lets the URL pass. -/
def assertOnionHost (netlocOk : Str → Bool) (url : Str) : Bool :=
  match urlparse netlocOk url [] with
  | none => false
  | some parts => onionV3 (lower (hostname parts.netloc))

/-! ## The opener -/

/-- The handler classes of `urllib.request`, and `_SocksHTTPHandler`. -/
inductive Handler where
  | proxy
  | unknown
  | http
  | httpDefaultError
  | httpRedirect
  | ftp
  | file
  | httpErrorProcessor
  | data
  | https
  | socksHttp
  deriving DecidableEq

/-- `issubclass(h, klass)`. -/
def Handler.isSubclass (h klass : Handler) : Bool := h = klass || (h = .socksHttp && klass = .http)

def defaultClasses : List Handler :=
  [.proxy, .unknown, .http, .httpDefaultError, .httpRedirect, .ftp, .file, .httpErrorProcessor, .data, .https]

/-- `build_opener`: the default classes that no given handler subclasses, and the given handlers. -/
def buildOpener (handlers : List Handler) : List Handler :=
  (defaultClasses.filter fun klass => !handlers.any fun h => h.isSubclass klass) ++ handlers

/-- `_get_opener`. The proxy handler has no proxies, so it opens nothing. -/
def getOpener : List Handler := buildOpener [.proxy, .socksHttp]

/-- What opens the network connection of a request. -/
inductive Via where
  | httpConnection
  | socksHTTPConnection
  | httpsConnection
  | ftpWrapper
  deriving DecidableEq

/-- The scheme whose requests a handler opens over the network, and with what. -/
def Handler.opens : Handler → Option (Str × Via)
  | .http => some (lit "http", .httpConnection)
  | .socksHttp => some (lit "http", .socksHTTPConnection)
  | .https => some (lit "https", .httpsConnection)
  | .ftp => some (lit "ftp", .ftpWrapper)
  | _ => none

/-- The dispatch of `OpenerDirector._open`. -/
def dispatch (opener : List Handler) (type : Str) : Option Via :=
  opener.findSome? fun h => h.opens.bind fun r => if r.1 = type then some r.2 else none

/-! ## The host of a connection -/

/-- `int(s)` succeeds. A text with other than ASCII digits makes no header that can be sent. -/
def isInt (s : Str) : Bool := (PyInt.pyInt s).isSome

/-- `HTTPConnection._get_hostport` and `_validate_host`; `none` is an `InvalidURL`. -/
def getHostport (host : Str) : Option Str :=
  let host? :=
    match rpartition 58 host with
    | (none, _) => some host
    | (some before, port) =>
      if 93 ∈ port then some host else if port = [] ∨ isInt port then some before else none
  match host? with
  | none => none
  | some host =>
    let host := if host.head? = some 91 ∧ host.getLast? = some 93 then (host.drop 1).dropLast else host
    if host.any fun c => c ≤ 32 || c = 127 then none else some host

/-- Every line break of a header value is followed by a blank. -/
def legalHeaderValue : Str → Bool
  | [] => true
  | 10 :: s => (s.head? = some 32 || s.head? = some 9) && legalHeaderValue s
  | 13 :: s => (s.head? = some 32 || s.head? = some 9 || s.head? = some 10) && legalHeaderValue s
  | _ :: s => legalHeaderValue s

/-- The host that `do_open` connects to; `none` when the request raises before that. -/
def httpHost (req : Request) : Option Str :=
  match req.host with
  | none => none
  | some host =>
    if host ≠ [] ∧ host.all (· < 256) ∧ legalHeaderValue host ∧ req.selector.all (fun c => 33 ≤ c && c ≤ 126) then
      getHostport host
    else none

/-- The host that `ftp_open` connects to. -/
def ftpHost (req : Request) : Option Str :=
  match req.host with
  | none => none
  | some [] => none
  | some host =>
    let host :=
      match rpartition 58 host with
      | (some before, port) => if port.all isDigit then before else host
      | (none, _) => host
    some (unquote (rpartition 64 host).2)

structure Connection where
  via : Via
  host : Str
  deriving DecidableEq

/-- The connection that opening a request makes. -/
def connection (opener : List Handler) (req : Request) : Option Connection :=
  match dispatch opener req.type with
  | none => none
  | some .ftpWrapper => (ftpHost req).map fun host => ⟨.ftpWrapper, host⟩
  | some via => (httpHost req).map fun host => ⟨via, host⟩

/-! ## Redirects -/

inductive Method where
  | get
  | post
  deriving DecidableEq

/-- A response: its status, and its `Location` and `URI` headers. -/
structure Response where
  code : Nat
  location : Option Str
  uri : Option Str

/-- The absolute URL that `http_error_302` makes of a `Location`; `none` when it refuses or raises. -/
def redirectUrl (netlocOk : Str → Bool) (fullUrl location : Str) : Option Str :=
  match urlparse netlocOk location [] with
  | none => none
  | some parts =>
    if usesNetloc parts.scheme then
      let path := if parts.path = [] ∧ parts.netloc ≠ [] then lit "/" else parts.path
      (quoteLatin1 (urlunparse { parts with path := path })).bind (urljoin netlocOk fullUrl)
    else none

/-- `newurl.replace(" ", "%20")`. -/
def escapeSpaces (url : Str) : Str := url.flatMap fun c => if c = 32 then lit "%20" else [c]

/-- The request that the redirect handler opens next, and the URLs it has been sent to so far. -/
def redirect (netlocOk : Str → Bool) (m : Method) (req : Request) (visited : List Str) (resp : Response) :
    Option (Request × List Str) :=
  let follows := resp.code ∈ [301, 302, 303] ∨ (m = .get ∧ resp.code ∈ [307, 308])
  match resp.location.or resp.uri with
  | none => none
  | some location =>
    match redirectUrl netlocOk req.fullUrl location with
    | none => none
    | some newurl =>
      match Request.ofUrl (escapeSpaces newurl) with
      | none => none
      | some new =>
        if follows ∧ visited.count newurl < 4 ∧ visited.dedup.length < 10 then some (new, newurl :: visited) else none

/-- The requests that `OpenerDirector.open` opens, against a relay that gives these responses. -/
def opened (netlocOk : Str → Bool) (opener : List Handler) (m : Method) (req : Request) (visited : List Str) :
    List Response → List Request
  | [] => [req]
  | resp :: responses =>
    match connection opener req with
    | none => [req]
    | some c =>
      -- An FTP answer is no HTTP response.
      if c.via = .ftpWrapper then [req]
      else
        match redirect netlocOk m req visited resp with
        | none => [req]
        -- Also after a POST: the next request has no body.
        | some (new, visited) => req :: opened netlocOk opener .get new visited responses

/-- The requests of one call: none for a URL that is refused. -/
def callRequests (netlocOk : Str → Bool) (m : Method) (url : Str) (responses : List Response) : List Request :=
  if assertOnionHost netlocOk url then
    match Request.ofUrl url with
    | none => []
    | some req =>
      if (urlparse netlocOk req.fullUrl []).isSome then opened netlocOk getOpener m req [] responses else []
  else []

/-- The connections of `_http_get` and of `_http_post`. -/
def httpCall (netlocOk : Str → Bool) (m : Method) (url : Str) (responses : List Response) : List Connection :=
  (callRequests netlocOk m url responses).filterMap (connection getOpener)

/-! ## Which calls stay with onion services -/

/-- Opening the request leads to a v3 onion service through the proxy, or to no connection: with `http` the host, as
the opener reads it, is an onion name, and with `https` or `ftp` there is none to connect to. -/
structure StaysOnion (req : Request) : Prop where
  http : req.type = lit "http" → ∀ host, httpHost req = some host → onionV3 (lower host) = true
  https : req.type = lit "https" → httpHost req = none
  ftp : req.type = lit "ftp" → ftpHost req = none

/-- The opener has its own handler for http, and the default ones for https and ftp. -/
theorem dispatch_getOpener (type : Str) : dispatch getOpener type =
    if type = lit "http" then some .socksHTTPConnection
    else if type = lit "https" then some .httpsConnection
    else if type = lit "ftp" then some .ftpWrapper
    else none := by
  have hopener : getOpener = [.unknown, .httpDefaultError, .httpRedirect, .ftp, .file, .httpErrorProcessor, .data,
      .https, .proxy, .socksHttp] := by decide
  have hne : lit "ftp" ≠ lit "http" ∧ lit "ftp" ≠ lit "https" ∧ lit "https" ≠ lit "http" := by decide
  rw [hopener]
  by_cases h1 : type = lit "http"
  · simp [dispatch, Handler.opens, h1, hne]
  · by_cases h2 : type = lit "https"
    · simp [dispatch, Handler.opens, h2, hne]
    · by_cases h3 : type = lit "ftp"
      · simp [dispatch, Handler.opens, h3, hne]
      · simp [dispatch, Handler.opens, h1, h2, h3, Ne.symm h1, Ne.symm h2, Ne.symm h3]

/-- One request: its connection, if it makes one, is a proxied one to an onion service. -/
theorem connection_onion_iff (req : Request) :
    (∀ c, connection getOpener req = some c → c.via = .socksHTTPConnection ∧ onionV3 (lower c.host) = true) ↔
      StaysOnion req := by
  have hne : lit "ftp" ≠ lit "http" ∧ lit "ftp" ≠ lit "https" ∧ lit "https" ≠ lit "http" := by decide
  unfold connection
  rw [dispatch_getOpener]
  constructor
  · intro h
    constructor
    · intro ht host hh
      have := h ⟨.socksHTTPConnection, host⟩ (by simp [ht, hh])
      exact this.2
    · intro ht
      by_contra hh
      obtain ⟨host, hh⟩ := Option.ne_none_iff_exists'.1 hh
      have := h ⟨.httpsConnection, host⟩ (by simp [ht, hh, hne])
      cases this.1
    · intro ht
      by_contra hh
      obtain ⟨host, hh⟩ := Option.ne_none_iff_exists'.1 hh
      have := h ⟨.ftpWrapper, host⟩ (by simp [ht, hh, hne])
      cases this.1
  · intro h c hc
    by_cases h1 : req.type = lit "http"
    · simp only [h1, if_true, Option.map_eq_some_iff] at hc
      obtain ⟨host, hh, rfl⟩ := hc
      exact ⟨rfl, h.http h1 host hh⟩
    · by_cases h2 : req.type = lit "https"
      · simp [h2, hne, h.https h2] at hc
      · by_cases h3 : req.type = lit "ftp"
        · simp [h3, hne, h.ftp h3] at hc
        · simp [h1, h2, h3] at hc

/-- Every connection of a call is a proxied one to an onion service exactly when every request stays with onion
services: that of the URL of the call, and those of the redirects that are followed. -/
theorem httpCall_onion_iff (netlocOk : Str → Bool) (m : Method) (url : Str) (responses : List Response) :
    (∀ c ∈ httpCall netlocOk m url responses, c.via = .socksHTTPConnection ∧ onionV3 (lower c.host) = true) ↔
      ∀ req ∈ callRequests netlocOk m url responses, StaysOnion req := by
  unfold httpCall
  constructor
  · intro h req hreq
    rw [← connection_onion_iff]
    intro c hc
    exact h c (List.mem_filterMap.2 ⟨req, hreq, hc⟩)
  · intro h c hc
    obtain ⟨req, hreq, hc⟩ := List.mem_filterMap.1 hc
    exact (connection_onion_iff req).2 (h req hreq) c hc

def sampleOnion : Str := List.replicate 56 97 ++ lit ".onion"

/-- A relay that answers with a redirect has the client open a direct TLS connection to a host of its choice. -/
theorem redirected_off_onion : ∃ url responses, assertOnionHost (fun _ => true) url = true ∧
    (⟨.httpsConnection, lit "example.org"⟩ : Connection) ∈ httpCall (fun _ => true) .get url responses ∧
    (⟨.httpsConnection, lit "example.org"⟩ : Connection) ∈ httpCall (fun _ => true) .post url responses ∧
    onionV3 (lower (lit "example.org")) = false := by
  refine ⟨lit "http://" ++ sampleOnion ++ lit "/publish",
    [⟨302, some (lit "https://example.org/"), none⟩, ⟨200, none, none⟩], ?_, ?_, ?_, ?_⟩ <;> decide +kernel

end AetherNode.Transport
