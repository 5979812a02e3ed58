import BlakTail.Foundation.Address

/-!
# Response Headers

What the public ingress does to the headers of an upstream's reply before a client on the
internet sees them: hop-by-hop headers and banners go, redirects to the target are turned onto
the public name, and every header with a value that would reveal the overlay is dropped.

The check works on tokens of hexadecimal digits, dots and colons, so an address that runs into
such a character is read as part of a longer token, and the `Upgrade` value of an upgraded
reply is put back after the check.
-/

namespace BlakTail.PublicIngress

open Foundation Text IpAddr

/-! ## Header maps -/

/-- Characters of a header name, in lower case. -/
def isNameChar (c : Char) : Bool :=
  isAsciiLowercase c || isAsciiDigit c || "!#$%&'*+-.^_`|~".toList.contains c

def isHeaderName (text : String) : Bool :=
  text ≠ "" && byteLen text ≤ 65535 && text.toList.all isNameChar

/-- A header name, normalised to lower case. -/
structure HeaderName where
  text : String
  valid : isHeaderName text
  deriving DecidableEq

/-- `HeaderName::from_bytes`. -/
def HeaderName.fromBytes (name : String) : Option HeaderName :=
  let text := toAsciiLowercase name
  if h : isHeaderName text = true then some ⟨text, h⟩ else none

/-- Bytes a header value may hold: a tab, or anything from the space up but the delete. -/
def isValueByte (b : UInt8) : Bool := (32 ≤ b && b ≠ 127) || b == 9

structure HeaderValue where
  bytes : List UInt8
  valid : bytes.all isValueByte
  deriving DecidableEq

namespace HeaderValue

/-- The value as text, one character a byte. -/
def text (value : HeaderValue) : List Char := value.bytes.map fun b => Char.ofNat b.toNat

/-- `HeaderValue::to_str`: only for visible ASCII, spaces and tabs. -/
def toStr (value : HeaderValue) : Option String :=
  if value.bytes.all fun b => (32 ≤ b && b < 127) || b == 9 then some (String.ofList value.text)
  else none

/-- `HeaderValue::from_str`. -/
def fromStr (s : String) : Option HeaderValue :=
  let bytes := s.toList.flatMap String.utf8EncodeChar
  if h : bytes.all isValueByte = true then some ⟨bytes, h⟩ else none

end HeaderValue

/-- A header map: several values may stand under one name.  The order of different names is not
observed. -/
abbrev HeaderMap := List (HeaderName × HeaderValue)

namespace HeaderMap

/-- `HeaderMap::get_all`. -/
def getAll (headers : HeaderMap) (name : HeaderName) : List HeaderValue :=
  (headers.filter fun h => h.1 = name).map Prod.snd

/-- `HeaderMap::get`: the first value. -/
def get (headers : HeaderMap) (name : HeaderName) : Option HeaderValue :=
  (headers.getAll name).head?

/-- `HeaderMap::remove`, for a name in lower case. -/
def remove (headers : HeaderMap) (name : String) : HeaderMap :=
  headers.filter fun h => h.1.text ≠ name

def removeAll (headers : HeaderMap) (names : List String) : HeaderMap := names.foldl remove headers

/-- `HeaderMap::insert`: the value takes the place of every value of the name. -/
def insert (headers : HeaderMap) (name : HeaderName) (value : HeaderValue) : HeaderMap :=
  headers.remove name.text ++ [(name, value)]

variable {headers : HeaderMap} {h : HeaderName × HeaderValue} {value : HeaderValue}
  {name : HeaderName}

theorem mem_remove {name : String} : h ∈ headers.remove name ↔ h ∈ headers ∧ h.1.text ≠ name := by
  simp [remove]

theorem mem_removeAll {names : List String}
    : h ∈ headers.removeAll names ↔ h ∈ headers ∧ h.1.text ∉ names := by
  unfold removeAll
  induction names generalizing headers with
  | nil => simp
  | cons name names ih => rw [List.foldl_cons, ih, mem_remove, List.mem_cons, not_or, and_assoc]

theorem mem_insert :
    h ∈ headers.insert name value ↔ h ∈ headers ∧ h.1 ≠ name ∨ h = (name, value) := by
  have htext : h.1.text ≠ name.text ↔ h.1 ≠ name := by
    rw [ne_eq, ne_eq, HeaderName.mk.injEq]
  rw [insert, List.mem_append, mem_remove, List.mem_singleton, htext]

theorem getAll_remove {other : String} (hname : name.text ≠ other) :
    (headers.remove other).getAll name = headers.getAll name := by
  unfold getAll remove
  rw [List.filter_filter]
  congr 1
  refine List.filter_congr fun h _ => ?_
  by_cases heq : h.1 = name
  · simp [heq, hname]
  · simp [heq]

/-- Removing other names leaves a name's values and their order. -/
theorem getAll_removeAll {names : List String} (hname : name.text ∉ names) :
    (headers.removeAll names).getAll name = headers.getAll name := by
  unfold removeAll
  induction names generalizing headers with
  | nil => rfl
  | cons other names ih =>
    rw [List.mem_cons, not_or] at hname
    rw [List.foldl_cons, ih hname.2, getAll_remove hname.1]

theorem getAll_insert {other : HeaderName} (hname : name ≠ other) :
    (headers.insert other value).getAll name = headers.getAll name := by
  have htext : name.text ≠ other.text := by rwa [ne_eq, ← HeaderName.mk.injEq]
  have hremove : (headers.remove other.text).getAll name = headers.getAll name :=
    getAll_remove htext
  rw [← hremove, insert, getAll]
  simp [getAll, Ne.symm hname]

end HeaderMap

/-! ## Hop-by-hop headers and banners -/

def CONNECTION : HeaderName := ⟨"connection", by decide⟩
def UPGRADE : HeaderName := ⟨"upgrade", by decide⟩
def LOCATION : HeaderName := ⟨"location", by decide⟩
def CONTENT_LOCATION : HeaderName := ⟨"content-location", by decide⟩

def HOP_BY_HOP : List String :=
  ["connection", "keep-alive", "proxy-connection", "proxy-authenticate", "proxy-authorization",
    "te", "trailer", "transfer-encoding", "upgrade"]

def RESPONSE_BANNERS : List String :=
  ["server", "x-powered-by", "via", "x-aspnet-version", "x-aspnetmvc-version", "x-backend-server",
    "x-served-by", "x-upstream", "x-forwarded-for", "x-real-ip"]

def connectionNamed (headers : HeaderMap) : List HeaderName :=
  (((headers.getAll CONNECTION).filterMap HeaderValue.toStr).flatMap fun value =>
    splitChars ',' value.toList).filterMap fun name =>
      HeaderName.fromBytes (trim (String.ofList name))

def stripHopByHop (headers : HeaderMap) : HeaderMap :=
  let headers := headers.removeAll ((connectionNamed headers).map HeaderName.text)
  headers.removeAll HOP_BY_HOP

/-! ## The leak check -/

/-- Loopback, link-local and overlay addresses of IPv4; unique-local ones, which carry the
overlay's addresses, and the loopback of IPv6. -/
def internalIp : IpAddr → Bool
  | .v4 bits =>
    let a := bits.toNat / 16777216
    let b := bits.toNat / 65536 % 256
    (a == 100 && 64 ≤ b && b < 128) || a == 127 || (a == 169 && b == 254)
  | .v6 bits => (bits.toNat / 65536 ^ 7 &&& 0xfe00) == 0xfc00 || bits.toNat == 1

/-- The characters addresses and ports are written in. -/
def isTokenChar (c : Char) : Bool :=
  isAsciiDigit c || ('a' ≤ c && c ≤ 'f') || ('A' ≤ c && c ≤ 'F') || c == '.' || c == ':'

/-- The marks trimmed off a token before it is read. -/
def isMark (c : Char) : Bool := c == ':' || c == '.'

/-- The token and what precedes its last colon, each read as an address. -/
def tokenAddresses (token : List Char) : List IpAddr :=
  let host := ((rsplitOnceChars ':' token).map Prod.fst).getD token
  [token, host].filterMap fun t => IpAddr.parse (String.ofList (trimMatchesChars isMark t))

/-- Whether a header value would reveal an overlay address or internal name. -/
def leaks (value : String) (target : IpAddr × Nat) : Bool :=
  let lower := toAsciiLowercase value
  contains ".blaktail" lower || contains target.1.toText lower ||
    ((lower.toList.splitOnP fun c => !isTokenChar c).filter fun token => 3 ≤ token.length).any
      fun token => (tokenAddresses token).any internalIp

/-- Opaque bytes cannot be checked; they count as leaking. -/
def leaking (target : IpAddr × Nat) (value : HeaderValue) : Bool :=
  (value.toStr.map fun v => leaks v target).getD true

/-! ## Redirects -/

/-- What is used of a parsed URL. -/
structure Url where
  hostStr : Option String
  path : String
  query : Option String
  fragment : Option String

section

-- `url::Url::parse`
variable (parse : String → Option Url)

/-- A redirect that points back at the target (or any internal host), turned onto the public
name. -/
def rewriteLocation (value fqdn : String) (target : IpAddr × Nat) : Option String := do
  let url ← parse value
  let host ← url.hostStr
  let host := String.ofList (trimMatchesChars (fun c => c == '[' || c == ']') host.toList)
  let internal := eqIgnoreAsciiCase host fqdn || (IpAddr.parse host).any internalIp ||
    ".blaktail".toList.isSuffixOf (toAsciiLowercase host).toList || host == target.1.toText
  if internal then
    let query := (url.query.map fun q => "?" ++ q).getD ""
    let fragment := (url.fragment.map fun f => "#" ++ f).getD ""
    some ("https://" ++ fqdn ++ url.path ++ query ++ fragment)
  else none

/-- The value the first value of a redirect header is replaced with, if any. -/
def rewritten (headers : HeaderMap) (fqdn : String) (target : IpAddr × Nat) (name : HeaderName) :
    Option HeaderValue :=
  (headers.get name).bind fun v => v.toStr.bind fun v =>
    (rewriteLocation parse v fqdn target).bind HeaderValue.fromStr

def rewriteHeader (fqdn : String) (target : IpAddr × Nat) (headers : HeaderMap)
    (name : HeaderName) : HeaderMap :=
  match rewritten parse headers fqdn target name with
  | some value => headers.insert name value
  | none => headers

/-! ## The reply -/

/-- The headers that are put to the leak check. -/
def checkedHeaders (upstream : HeaderMap) (fqdn : String) (target : IpAddr × Nat) : HeaderMap :=
  [LOCATION, CONTENT_LOCATION].foldl (rewriteHeader parse fqdn target)
    ((stripHopByHop upstream).removeAll RESPONSE_BANNERS)

def UPGRADE_VALUE : HeaderValue :=
  ⟨"upgrade".toList.flatMap String.utf8EncodeChar, by decide⟩

def WEBSOCKET : HeaderValue :=
  ⟨"websocket".toList.flatMap String.utf8EncodeChar, by decide⟩

/-- The pass over the header map. -/
def clientResponseHeaders (upstream : HeaderMap) (fqdn : String) (target : IpAddr × Nat)
    (upgrade : Bool) : HeaderMap :=
  let upgradeValue := upstream.get UPGRADE
  let headers := checkedHeaders parse upstream fqdn target
  let leakingNames := (headers.filter fun h => leaking target h.2).map fun h => h.1.text
  let headers := headers.removeAll leakingNames
  if upgrade then
    (headers.insert CONNECTION UPGRADE_VALUE).insert UPGRADE (upgradeValue.getD WEBSOCKET)
  else headers

end

/-! ## What a value reveals -/

/-- The addresses of 100.64.0.0/10. -/
def Overlay (bits : BitVec 32) : Prop := bits.toNat / 2 ^ 22 = 0x64400000 / 2 ^ 22

def NamesOverlay (value : HeaderValue) : Prop :=
  ".blaktail".toList <:+: value.text.map toAsciiLower

/-- The value holds an overlay address in dotted decimal, and the characters around it are
neither digits nor dots. -/
def HoldsAddress (value : HeaderValue) : Prop :=
  ∃ bits before after, Overlay bits ∧
    value.text = before ++ (v4 bits).toText.toList ++ after ∧
    (∀ c ∈ before.getLast?, (isAsciiDigit c || c == '.') = false) ∧
    ∀ c ∈ after.head?, (isAsciiDigit c || c == '.') = false

def Reveals (value : HeaderValue) : Prop := NamesOverlay value ∨ HoldsAddress value

/-! ## What the leak check recognises -/

/-- A token that is `text` between marks, alone or before a port. -/
def Writes (token text : List Char) : Prop :=
  ∃ lead trail, (∀ c ∈ lead, isMark c) ∧ (∀ c ∈ trail, isMark c) ∧ Trimmed isMark text ∧
    (token = lead ++ text ++ trail ∨
      ∃ port, ':' ∉ port ∧ token = lead ++ text ++ trail ++ ':' :: port)

/-- The values the check takes for a leak. -/
inductive Recognised (target : IpAddr × Nat) (value : HeaderValue) : Prop where
  | unreadable (h : value.toStr = none)
  | name (h : NamesOverlay value)
  | target (h : target.1.toText.toList <:+: value.text.map toAsciiLower)
  /-- A longest stretch of token characters writes an internal address. -/
  | address (before token after text : List Char) (ip : IpAddr)
      (hvalue : value.text.map toAsciiLower = before ++ token ++ after)
      (htoken : ∀ c ∈ token, isTokenChar c)
      (hbefore : ∀ c ∈ before.getLast?, isTokenChar c = false)
      (hafter : ∀ c ∈ after.head?, isTokenChar c = false)
      (hlen : 3 ≤ token.length) (hwrites : Writes token text)
      (hparse : IpAddr.parse (String.ofList text) = some ip) (hip : internalIp ip)

variable {token : List Char}

theorem writes_of_trim : Writes token (trimMatchesChars isMark token) := by
  obtain ⟨lead, trail, heq, hlead, htrail, htrimmed⟩ := trimMatchesChars_eq_iff.mp rfl
  exact ⟨lead, trail, hlead, htrail, htrimmed, .inl heq⟩

theorem writes_of_trim_host {host port : List Char}
    (hsplit : rsplitOnceChars ':' token = some (host, port)) :
    Writes token (trimMatchesChars isMark host) := by
  obtain ⟨rfl, hport⟩ := rsplitOnceChars_eq_some.mp hsplit
  obtain ⟨lead, trail, heq, hlead, htrail, htrimmed⟩ :=
    trimMatchesChars_eq_iff.mp (rfl : trimMatchesChars isMark host = _)
  exact ⟨lead, trail, hlead, htrail, htrimmed, .inr ⟨port, hport, by rw [← heq]⟩⟩

theorem mem_tokenAddresses {ip : IpAddr} :
    ip ∈ tokenAddresses token ↔
      ∃ text, Writes token text ∧ IpAddr.parse (String.ofList text) = some ip := by
  simp only [tokenAddresses, List.mem_filterMap, List.mem_cons, List.not_mem_nil, or_false]
  constructor
  · rintro ⟨t, rfl | rfl, hparse⟩
    · exact ⟨_, writes_of_trim, hparse⟩
    · cases hsplit : rsplitOnceChars ':' token with
      | none =>
        rw [hsplit] at hparse
        exact ⟨_, writes_of_trim, hparse⟩
      | some parts =>
        rw [hsplit] at hparse
        exact ⟨_, writes_of_trim_host hsplit, hparse⟩
  · rintro ⟨text, ⟨lead, trail, hlead, htrail, htrimmed, hform⟩, hparse⟩
    have htrim : trimMatchesChars isMark (lead ++ text ++ trail) = text :=
      trimMatchesChars_eq_iff.mpr ⟨lead, trail, rfl, hlead, htrail, htrimmed⟩
    rcases hform with rfl | ⟨port, hport, rfl⟩
    · exact ⟨_, .inl rfl, by rw [htrim]; exact hparse⟩
    · refine ⟨_, .inr rfl, ?_⟩
      rw [rsplitOnceChars_eq_some.mpr ⟨rfl, hport⟩, Option.map_some, Option.getD_some, htrim]
      exact hparse

/-- The token loop of the check, on the text of a value. -/
theorem tokens_any_iff {lower : List Char} :
    ((lower.splitOnP fun c => !isTokenChar c).filter fun token => 3 ≤ token.length).any
        (fun token => (tokenAddresses token).any internalIp) ↔
      ∃ before token after text ip, lower = before ++ token ++ after ∧
        (∀ c ∈ token, isTokenChar c) ∧ (∀ c ∈ before.getLast?, isTokenChar c = false) ∧
        (∀ c ∈ after.head?, isTokenChar c = false) ∧ 3 ≤ token.length ∧ Writes token text ∧
        IpAddr.parse (String.ofList text) = some ip ∧ internalIp ip := by
  simp only [List.any_eq_true, List.mem_filter, mem_splitOnP, mem_tokenAddresses,
    decide_eq_true_eq, Bool.not_eq_true', Bool.not_eq_false']
  constructor
  · rintro ⟨token, ⟨⟨before, after, heq, htoken, hbefore, hafter⟩, hlen⟩, ip, ⟨text, hw, hp⟩, hip⟩
    exact ⟨before, token, after, text, ip, heq, htoken, hbefore, hafter, hlen, hw, hp, hip⟩
  · rintro ⟨before, token, after, text, ip, heq, htoken, hbefore, hafter, hlen, hw, hp, hip⟩
    exact ⟨token, ⟨⟨before, after, heq, htoken, hbefore, hafter⟩, hlen⟩, ip, ⟨text, hw, hp⟩, hip⟩

/-- The check, on a whole value. -/
theorem leaking_iff {value : HeaderValue} {target : IpAddr × Nat} :
    leaking target value ↔ Recognised target value := by
  unfold leaking
  rcases hstr : value.toStr with _ | s
  · exact ⟨fun _ => .unreadable hstr, fun _ => rfl⟩
  · have hs : s.toList = value.text := by
      unfold HeaderValue.toStr at hstr
      split_ifs at hstr
      rw [← Option.some.inj hstr, String.toList_ofList]
    simp only [Option.map_some, Option.getD_some, leaks, Bool.or_eq_true, contains_iff,
      toAsciiLowercase, String.toList_ofList, hs, tokens_any_iff]
    constructor
    · rintro ((hname | htarget) | ⟨before, token, after, text, ip, heq, h1, h2, h3, h4, h5, h6, h7⟩)
      · exact .name hname
      · exact .target htarget
      · exact .address before token after text ip heq h1 h2 h3 h4 h5 h6 h7
    · rintro (hnone | hname | htarget |
        ⟨before, token, after, text, ip, heq, h1, h2, h3, h4, h5, h6, h7⟩)
      · rw [hstr] at hnone
        exact absurd hnone (Option.some_ne_none s)
      · exact .inl (.inl hname)
      · exact .inl (.inr htarget)
      · exact .inr ⟨before, token, after, text, ip, heq, h1, h2, h3, h4, h5, h6, h7⟩

/-! ## The headers of a reply -/

section

variable (parse : String → Option Url) {upstream : HeaderMap} {fqdn : String}
  {target : IpAddr × Nat} {name : HeaderName} {value : HeaderValue} {headers : HeaderMap}

/-- Headers that are neither hop-by-hop, nor named by `Connection`, nor a banner. -/
structure Kept (upstream : HeaderMap) (name : HeaderName) : Prop where
  connection : name ∉ connectionNamed upstream
  hop : name.text ∉ HOP_BY_HOP
  banner : name.text ∉ RESPONSE_BANNERS

/-- The values a name has when its headers are checked: the redirect turned onto the public
name where there is one, and otherwise what the upstream sent. -/
inductive Forwarded (upstream : HeaderMap) (fqdn : String) (target : IpAddr × Nat)
    (name : HeaderName) : HeaderValue → Prop where
  | redirect {value : HeaderValue} (hkept : Kept upstream name)
      (hname : name ∈ [LOCATION, CONTENT_LOCATION])
      (hvalue : rewritten parse upstream fqdn target name = some value) :
      Forwarded upstream fqdn target name value
  | sent {value : HeaderValue} (hkept : Kept upstream name) (hvalue : (name, value) ∈ upstream)
      (hname : name ∈ [LOCATION, CONTENT_LOCATION] →
        rewritten parse upstream fqdn target name = none) :
      Forwarded upstream fqdn target name value

variable {parse}

theorem text_mem_connectionNamed :
    name.text ∈ (connectionNamed upstream).map HeaderName.text ↔
      name ∈ connectionNamed upstream := by
  refine List.mem_map_of_injective fun a b h => ?_
  cases a
  cases b
  simpa using h

theorem mem_stripped :
    (name, value) ∈ (stripHopByHop upstream).removeAll RESPONSE_BANNERS ↔
      (name, value) ∈ upstream ∧ Kept upstream name := by
  simp only [stripHopByHop, HeaderMap.mem_removeAll, text_mem_connectionNamed]
  exact ⟨fun ⟨⟨⟨hmem, hc⟩, hh⟩, hb⟩ => ⟨hmem, hc, hh, hb⟩,
    fun ⟨hmem, hc, hh, hb⟩ => ⟨⟨⟨hmem, hc⟩, hh⟩, hb⟩⟩

theorem rewritten_congr {headers' : HeaderMap} (h : headers.getAll name = headers'.getAll name) :
    rewritten parse headers fqdn target name = rewritten parse headers' fqdn target name := by
  unfold rewritten HeaderMap.get
  rw [h]

theorem rewritten_stripped (hkept : Kept upstream name) :
    rewritten parse ((stripHopByHop upstream).removeAll RESPONSE_BANNERS) fqdn target name =
      rewritten parse upstream fqdn target name := by
  apply rewritten_congr
  rw [HeaderMap.getAll_removeAll hkept.banner, stripHopByHop, HeaderMap.getAll_removeAll hkept.hop,
    HeaderMap.getAll_removeAll (mt text_mem_connectionNamed.mp hkept.connection)]

/-- Only a value that is there is rewritten. -/
theorem mem_of_rewritten (h : rewritten parse headers fqdn target name = some value) :
    ∃ old, (name, old) ∈ headers := by
  obtain ⟨old, hget, -⟩ := Option.bind_eq_some_iff.mp h
  obtain ⟨⟨n, v⟩, hmem, rfl⟩ := List.mem_map.mp (List.mem_of_head? hget)
  obtain ⟨hmem, hn⟩ := List.mem_filter.mp hmem
  exact ⟨v, by simpa [← decide_eq_true_eq.mp hn] using hmem⟩

theorem mem_rewriteHeader {other : HeaderName} :
    (name, value) ∈ rewriteHeader parse fqdn target headers other ↔
      (name = other ∧ rewritten parse headers fqdn target name = some value) ∨
        (name, value) ∈ headers ∧
          (name = other → rewritten parse headers fqdn target name = none) := by
  unfold rewriteHeader
  cases hrewritten : rewritten parse headers fqdn target other with
  | none =>
    constructor
    · exact fun hmem => .inr ⟨hmem, fun heq => heq ▸ hrewritten⟩
    · rintro (⟨rfl, hsome⟩ | ⟨hmem, -⟩)
      · rw [hrewritten] at hsome
        exact absurd hsome.symm (Option.some_ne_none value)
      · exact hmem
  | some new =>
    simp only [HeaderMap.mem_insert, Prod.mk.injEq]
    constructor
    · rintro (⟨hmem, hne⟩ | ⟨rfl, rfl⟩)
      · exact .inr ⟨hmem, fun heq => absurd heq hne⟩
      · exact .inl ⟨rfl, hrewritten⟩
    · rintro (⟨rfl, hsome⟩ | ⟨hmem, hnone⟩)
      · rw [hrewritten] at hsome
        exact .inr ⟨rfl, (Option.some.inj hsome).symm⟩
      · refine .inl ⟨hmem, fun heq => ?_⟩
        subst heq
        rw [hnone rfl] at hrewritten
        exact absurd hrewritten.symm (Option.some_ne_none new)

theorem getAll_rewriteHeader {other : HeaderName} (hne : name ≠ other) :
    HeaderMap.getAll (rewriteHeader parse fqdn target headers other) name =
      headers.getAll name := by
  unfold rewriteHeader
  cases rewritten parse headers fqdn target other with
  | none => rfl
  | some value => exact HeaderMap.getAll_insert hne

/-- What the redirect loop over different names leaves. -/
theorem mem_foldl_rewriteHeader {names : List HeaderName} (hnames : names.Nodup) :
    (name, value) ∈ names.foldl (rewriteHeader parse fqdn target) headers ↔
      (name ∈ names ∧ rewritten parse headers fqdn target name = some value) ∨
        (name, value) ∈ headers ∧
          (name ∈ names → rewritten parse headers fqdn target name = none) := by
  induction names generalizing headers with
  | nil => simp
  | cons other names ih =>
    obtain ⟨hother, hnames⟩ := List.nodup_cons.mp hnames
    rw [List.foldl_cons, ih hnames, mem_rewriteHeader]
    by_cases heq : name = other
    · -- this turn decides; the later ones are about other names
      subst heq
      simp [hother]
    · rw [rewritten_congr (getAll_rewriteHeader heq)]
      simp [heq]

theorem mem_checkedHeaders :
    (name, value) ∈ checkedHeaders parse upstream fqdn target ↔
      Forwarded parse upstream fqdn target name value := by
  unfold checkedHeaders
  rw [mem_foldl_rewriteHeader (by decide)]
  constructor
  · rintro (⟨hname, hsome⟩ | ⟨hmem, hnone⟩)
    · obtain ⟨old, hold⟩ := mem_of_rewritten hsome
      have hkept := (mem_stripped.mp hold).2
      exact .redirect hkept hname (rewritten_stripped hkept ▸ hsome)
    · obtain ⟨hsent, hkept⟩ := mem_stripped.mp hmem
      exact .sent hkept hsent fun hname => rewritten_stripped hkept ▸ hnone hname
  · rintro (⟨hkept, hname, hsome⟩ | ⟨hkept, hsent, hnone⟩)
    · exact .inl ⟨hname, (rewritten_stripped hkept).trans hsome⟩
    · exact .inr ⟨mem_stripped.mpr ⟨hsent, hkept⟩,
        fun hname => (rewritten_stripped hkept).trans (hnone hname)⟩

theorem Forwarded.kept (h : Forwarded parse upstream fqdn target name value) :
    Kept upstream name := by
  cases h with
  | redirect hkept | sent hkept => exact hkept

/-- A name is served when none of its values is recognised. -/
def Passed (parse : String → Option Url) (upstream : HeaderMap) (fqdn : String)
    (target : IpAddr × Nat) (name : HeaderName) : Prop :=
  ∀ value, Forwarded parse upstream fqdn target name value → ¬Recognised target value

theorem mem_unleaked :
    (name, value) ∈ (checkedHeaders parse upstream fqdn target).removeAll
        (((checkedHeaders parse upstream fqdn target).filter fun h => leaking target h.2).map
          fun h => h.1.text) ↔
      Forwarded parse upstream fqdn target name value ∧ Passed parse upstream fqdn target name := by
  rw [HeaderMap.mem_removeAll, mem_checkedHeaders]
  refine and_congr_right fun _ => ?_
  constructor
  · intro hnot other hother hrecognised
    refine hnot (List.mem_map.mpr ⟨(name, other), List.mem_filter.mpr ⟨?_, ?_⟩, rfl⟩)
    · exact mem_checkedHeaders.mpr hother
    · exact leaking_iff.mpr hrecognised
  · intro hpassed hmem
    obtain ⟨⟨n, other⟩, hfilter, htext⟩ := List.mem_map.mp hmem
    obtain ⟨hchecked, hleaking⟩ := List.mem_filter.mp hfilter
    obtain rfl : n = name := by
      cases n
      cases name
      simpa using htext
    exact hpassed other (mem_checkedHeaders.mp hchecked) (leaking_iff.mp hleaking)

/-- Everything a client gets: what passed the check, and for an upgrade two headers more. -/
theorem mem_clientResponseHeaders {upgrade : Bool} :
    (name, value) ∈ clientResponseHeaders parse upstream fqdn target upgrade ↔
      (Forwarded parse upstream fqdn target name value ∧ Passed parse upstream fqdn target name) ∨
        upgrade ∧ (name = CONNECTION ∧ value = UPGRADE_VALUE ∨
          name = UPGRADE ∧ value = (upstream.get UPGRADE).getD WEBSOCKET) := by
  have hnames : CONNECTION ≠ UPGRADE := by decide
  have hconnection : CONNECTION.text ∈ HOP_BY_HOP := by decide
  have hupgrade : UPGRADE.text ∈ HOP_BY_HOP := by decide
  unfold clientResponseHeaders
  cases upgrade with
  | false => simpa using mem_unleaked
  | true =>
    simp only [if_true, HeaderMap.mem_insert, Prod.mk.injEq, mem_unleaked, true_and]
    constructor
    · rintro (⟨⟨hpassed, -⟩ | hconnection, -⟩ | hupgrade)
      · exact .inl hpassed
      · exact .inr (.inl hconnection)
      · exact .inr (.inr hupgrade)
    · rintro (hpassed | ⟨rfl, rfl⟩ | hupgrade)
      · -- both names are hop-by-hop, so no checked header bears them
        have hhop := hpassed.1.kept.hop
        refine .inl ⟨.inl ⟨hpassed, ?_⟩, ?_⟩
        · rintro rfl
          exact hhop hconnection
        · rintro rfl
          exact hhop hupgrade
      · exact .inl ⟨.inr ⟨rfl, rfl⟩, hnames⟩
      · exact .inr hupgrade

theorem not_reveals_of_no_dot (h : '.' ∉ value.text.map toAsciiLower) : ¬Reveals value := by
  rintro (hname | ⟨bits, before, after, -, hvalue, -, -⟩)
  · exact h (hname.subset (by decide))
  · have htext : (v4 bits).toText.toList = _ := ipv4Text_toList bits.toNat
    apply h
    rw [hvalue, htext]
    simp [toAsciiLower]

/-- Nothing in a reply reveals the overlay exactly when every overlay address among the checked
values is recognised in some value of its name, and an upgraded reply's own `Upgrade` value
reveals nothing. -/
theorem clientResponseHeaders_clean_iff (parse : String → Option Url) (upstream : HeaderMap)
    (fqdn : String) (target : IpAddr × Nat) (upgrade : Bool) :
    (∀ h ∈ clientResponseHeaders parse upstream fqdn target upgrade, ¬Reveals h.2) ↔
      (∀ name value, Forwarded parse upstream fqdn target name value → HoldsAddress value →
        ∃ other, Forwarded parse upstream fqdn target name other ∧ Recognised target other) ∧
      (upgrade → ∀ value, upstream.get UPGRADE = some value → ¬Reveals value) := by
  constructor
  · intro hclean
    constructor
    · intro name value hforwarded hholds
      by_contra hnone
      push Not at hnone
      apply hclean (name, value)
      · exact mem_clientResponseHeaders.mpr (.inl ⟨hforwarded, hnone⟩)
      · exact .inr hholds
    · intro hupgrade value hget
      refine hclean (UPGRADE, value) (mem_clientResponseHeaders.mpr (.inr ⟨hupgrade, .inr ?_⟩))
      rw [hget]
      exact ⟨rfl, rfl⟩
  · rintro ⟨hchecked, hadded⟩ ⟨name, value⟩ hmem
    rcases mem_clientResponseHeaders.mp hmem with
      ⟨hforwarded, hpassed⟩ | ⟨hupgrade, ⟨rfl, rfl⟩ | ⟨rfl, rfl⟩⟩
    · rintro (hname | hholds)
      · exact hpassed value hforwarded (.name hname)
      · obtain ⟨other, hother, hrecognised⟩ := hchecked name value hforwarded hholds
        exact hpassed other hother hrecognised
    · exact not_reveals_of_no_dot (by decide)
    · cases hget : upstream.get UPGRADE with
      | none => exact not_reveals_of_no_dot (by decide)
      | some sent => exact hadded hupgrade sent hget

/-- A debugging header with a node's address right after its name. -/
def nodeHeader : HeaderName × HeaderValue :=
  (⟨"x-node", by decide⟩, ⟨"node100.65.1.2".toList.flatMap String.utf8EncodeChar, by decide⟩)

/-- An upgrade that names the node it is for. -/
def upgradeHeader : HeaderName × HeaderValue :=
  (UPGRADE, ⟨"app.12345678.blaktail".toList.flatMap String.utf8EncodeChar, by decide⟩)

/-- The address glued to a name runs into a longer token and is not recognised; the `Upgrade`
value of an upgraded reply is not checked at all. -/
theorem clientResponseHeaders_reveals :
    ¬∃ (parse : String → Option Url) (upgrade : Bool),
      ∀ (upstream : HeaderMap) (fqdn : String) (bits : BitVec 32) (port : Nat),
        ¬".blaktail".toList <:+: fqdn.toList.map toAsciiLower → Overlay bits →
          ∀ h ∈ clientResponseHeaders parse upstream fqdn (.v4 bits, port) upgrade,
            ¬Reveals h.2 := by
  rintro ⟨parse, upgrade, hclean⟩
  have hfqdn : ¬".blaktail".toList <:+: "app.example.org.au".toList.map toAsciiLower := by
    decide
  have hreply := fun upstream => hclean upstream "app.example.org.au" 0x64400007#32 8080 hfqdn rfl
  cases upgrade with
  | false =>
    apply hreply [nodeHeader] nodeHeader (List.mem_singleton_self _)
    refine .inr ⟨0x64410102#32, "node".toList, [], rfl, by decide, ?_, ?_⟩
    · rintro c ⟨⟩
      decide
    · rintro c ⟨⟩
  | true =>
    apply hreply [upgradeHeader] upgradeHeader (List.mem_cons_of_mem _ (List.mem_singleton_self _))
    exact .inl ⟨"app.12345678".toList, [], by decide⟩

end

end BlakTail.PublicIngress
