import Harmost.Config.Settings
import Harmost.Http
import Harmost.Support.IpAddr

/-!
# Who is the client, and what scheme did they use?

Forwarded headers are written by whoever spoke last, and a trusted proxy that
appends to them leaves what the client wrote in front.  They are read only from
a peer inside a trusted block.  The client address is found by walking the hops
from the right; the scheme is taken from the leftmost element.
-/

namespace Harmost.Net

open Harmost.Config
open Harmost.Http
open Harmost.Support

/-- The scheme a listener speaks before any header is consulted. -/
inductive ListenerScheme where
  | http
  | https
  deriving DecidableEq

def ListenerScheme.asStr : ListenerScheme → Str
  | .http => "http".toList
  | .https => "https".toList

/-- What was concluded about the connection. -/
structure ClientFacts where
  clientIp : Option IpAddr
  scheme : Str
  peerTrusted : Bool
  deriving DecidableEq

/-! ## Trusted blocks -/

def IpAddr.maxPrefixLen : IpAddr → ℕ
  | .v4 _ => 32
  | .v6 _ => 128

/-- One CIDR block, or a single host. -/
structure Cidr where
  network : IpAddr
  prefixLen : ℕ
  le_max : prefixLen ≤ IpAddr.maxPrefixLen network
  deriving DecidableEq

/-- `str::rsplit_once` at a character. -/
def rsplitOnce (sep : Char) (s : Str) : Option (Str × Str) :=
  (splitOnce sep s.reverse).map fun (back, front) =>
    (front.reverse, back.reverse)

/-- Drop the brackets around a literal that has both of them. -/
def unbracket (address : Str) : Str :=
  if address.head? = some '[' ∧ address.tail.getLast? = some ']' then
    address.tail.dropLast
  else
    address

def Cidr.parse (raw : Str) : Except Str Cidr := do
  let raw := trim raw
  let quoted := '`' :: raw ++ ['`']
  let (address, given) ←
    match rsplitOnce '/' raw with
    | some (address, len) =>
        match parseUnsigned 8 len with
        | some n => pure (address, some n)
        | none =>
            throw (quoted ++ " has a prefix length that is not a number".toList)
    | none => pure (raw, none)
  match IpAddr.parse (unbracket address) with
  | none => throw (quoted ++ " is not an IP address or CIDR block".toList)
  | some network =>
      let max := IpAddr.maxPrefixLen network
      if h : given.getD max ≤ max then
        return ⟨network, given.getD max, h⟩
      else
        throw (quoted ++ " has a /".toList ++
          Nat.toDigits 10 (given.getD max) ++
          " prefix, but the maximum for this address family is /".toList ++
          Nat.toDigits 10 max)

/-- Do two addresses agree on their first bits? -/
def prefixEq (a b : List UInt8) (prefixLen : ℕ) : Bool :=
  let whole := prefixLen / 8
  let leftover := prefixLen % 8
  if a.take whole ≠ b.take whole then false
  else if leftover = 0 then true
  else
    -- the high bits of the byte that the length ends in
    let mask : UInt8 := 0xff <<< UInt8.ofNat (8 - leftover)
    a.getD whole 0 &&& mask == b.getD whole 0 &&& mask

def Cidr.contains (block : Cidr) (address : IpAddr) : Bool :=
  match block.network, address with
  | .v4 network, .v4 address =>
      prefixEq network.toList address.toList block.prefixLen
  | .v6 network, .v6 address =>
      prefixEq network.toList address.toList block.prefixLen
  -- how a dual-stack listener reports an IPv4 connection
  | .v4 network, .v6 address =>
      match Ipv6Addr.toIpv4Mapped address with
      | some mapped => prefixEq network.toList mapped.toList block.prefixLen
      | none => false
  | .v6 _, .v4 _ => false

/-! ## The elements of a list header -/

/-- One `;`-separated parameter of a `Forwarded` element. -/
def param (element name : Str) : Option Str :=
  (element.splitOn ';').findSome? fun pair =>
    match splitOnce '=' pair with
    | some (key, value) =>
        if eqIgnoreAsciiCase (trim key) name then
          some (trimMatches (· == '"') (trim value))
        else
          none
    | none => none

/-- One entry of a chain: a bare address, one with a port, or a bracketed IPv6
literal with or without a port. -/
def parseAddress (raw : Str) : Option IpAddr :=
  let raw := trimMatches (· == '"') (trim raw)
  if raw = [] then none
  else if raw.head? = some '[' then
    (splitOnce ']' raw.tail).bind fun (inside, _) => IpAddr.parse inside
  else
    match IpAddr.parse raw with
    | some address => some address
    | none => do
        let (host, port) ← rsplitOnce ':' raw
        let _ ← parseUnsigned 16 port
        return .v4 (← Ipv4Addr.parse host)

/-- The elements of a header value. -/
def elements (value : HeaderValue) : List Str :=
  (fromUtf8Lossy value.bytes).splitOn ','

/-- Every address in every header of a name, left to right.  Entries that are
not addresses are dropped. -/
def parseChain (name : Str) (parse : Str → Option IpAddr)
    (headers : HeaderMap) : List IpAddr :=
  (HeaderMap.getAll headers name).flatMap fun value =>
    (elements value).filterMap parse

def parseXForwardedFor : HeaderMap → List IpAddr :=
  parseChain "x-forwarded-for".toList parseAddress

def parseForwardedFor : HeaderMap → List IpAddr :=
  parseChain "forwarded".toList fun element =>
    (param element "for".toList).bind parseAddress

/-- Only two schemes exist as far as the cache key is concerned. -/
def normalizeScheme (raw : Str) : Option Str :=
  if eqIgnoreAsciiCase raw "https".toList then some "https".toList
  else if eqIgnoreAsciiCase raw "http".toList then some "http".toList
  else none

def firstToken (value : HeaderValue) : Str :=
  trim ((elements value).head?.getD [])

def firstElement (value : HeaderValue) : Option Str :=
  (elements value).head?

/-! ## The policy -/

/-- The compiled `server.trusted_proxies` block. -/
structure TrustPolicy where
  blocks : List Cidr
  clientIp : ForwardedSource
  scheme : ForwardedSource

namespace TrustPolicy

def build (config : TrustedProxies) : Except Str TrustPolicy := do
  let blocks ← config.from.mapM Cidr.parse
  return { blocks, clientIp := config.clientIp, scheme := config.scheme }

variable (policy : TrustPolicy)

def trusts (address : IpAddr) : Bool :=
  policy.blocks.any fun block => block.contains address

/-- The first address from the right that is not itself a trusted proxy, or the
leftmost if all are. -/
def walkBack (chain : List IpAddr) : Option IpAddr :=
  match chain.reverse.find? fun address => !policy.trusts address with
  | some address => some address
  | none => chain.head?

def forwardedClient (headers : HeaderMap) : Option IpAddr :=
  match policy.clientIp with
  | .none => none
  | .xForwarded => policy.walkBack (parseXForwardedFor headers)
  | .forwarded => policy.walkBack (parseForwardedFor headers)

def forwardedScheme (headers : HeaderMap) : Option Str :=
  match policy.scheme with
  | .none => none
  | .xForwarded => do
      let value ← (HeaderMap.getAll headers "x-forwarded-proto".toList).head?
      normalizeScheme (firstToken value)
  | .forwarded => do
      let value ← (HeaderMap.getAll headers "forwarded".toList).head?
      let element ← firstElement value
      normalizeScheme (← param element "proto".toList)

/-- Resolve the client address and scheme for one request. -/
def resolve (peer : Option IpAddr) (headers : HeaderMap)
    (scheme : ListenerScheme) : ClientFacts :=
  if peer.any policy.trusts then
    { clientIp := (policy.forwardedClient headers).or peer
      scheme := (policy.forwardedScheme headers).getD scheme.asStr
      peerTrusted := true }
  else
    { clientIp := peer
      scheme := scheme.asStr
      peerTrusted := false }

theorem resolve_of_trusts {policy : TrustPolicy} {peer : IpAddr}
    (hpeer : policy.trusts peer = true) (headers : HeaderMap)
    (scheme : ListenerScheme) :
    policy.resolve (some peer) headers scheme =
      { clientIp := (policy.forwardedClient headers).or (some peer)
        scheme := (policy.forwardedScheme headers).getD scheme.asStr
        peerTrusted := true } :=
  if_pos hpeer

end TrustPolicy

/-! ## What proxies append -/

/-- An element that a proxy appends to a list header. -/
structure Element where
  bytes : List UInt8
  isValue : bytes.all isValueByte = true
  notMem_comma : 0x2c ∉ bytes

namespace Element

def text (element : Element) : Str :=
  fromUtf8Lossy element.bytes

/-- The address that an element names. -/
def address (source : ForwardedSource) (element : Element) : Option IpAddr :=
  match source with
  | .none => none
  | .xForwarded => parseAddress element.text
  | .forwarded => (param element.text "for".toList).bind parseAddress

/-- The scheme that an element names. -/
def scheme (source : ForwardedSource) (element : Element) : Option Str :=
  match source with
  | .none => none
  | .xForwarded => normalizeScheme (trim element.text)
  | .forwarded => (param element.text "proto".toList).bind normalizeScheme

/-- A header value of one element. -/
def value (element : Element) : HeaderValue :=
  ⟨element.bytes, element.isValue⟩

end Element

/-- The values of a list header after proxies have appended elements to what
the client wrote: each either to the last value, with a comma, or as a header
of its own. -/
inductive Appended (client : List HeaderValue) :
    List Element → List HeaderValue → Prop
  | client : Appended client [] client
  | joined {appended : List Element} {values : List HeaderValue}
      {last value : HeaderValue} {element : Element}
      (h : Appended client appended (values ++ [last]))
      (hvalue : value.bytes = last.bytes ++ 0x2c :: element.bytes) :
      Appended client (appended ++ [element]) (values ++ [value])
  | header {appended : List Element} {values : List HeaderValue}
      {element : Element} (h : Appended client appended values) :
      Appended client (appended ++ [element]) (values ++ [element.value])

theorem elements_value (element : Element) :
    elements element.value = [element.text] := by
  have hcomma : ',' ∉ element.text :=
    notMem_fromUtf8Lossy (b := 0x2c) (by decide) (by decide)
      element.notMem_comma
  exact List.splitOn_eq_singleton hcomma

theorem elements_joined {last value : HeaderValue} {element : Element}
    (hvalue : value.bytes = last.bytes ++ 0x2c :: element.bytes) :
    elements value = elements last ++ [element.text] := by
  have htext : fromUtf8Lossy value.bytes =
      fromUtf8Lossy last.bytes ++ ',' :: element.text := by
    rw [hvalue]
    exact fromUtf8Lossy_append_ascii _ (b := 0x2c) (by decide) _
  have hvalue : element.text.splitOn ',' = [element.text] :=
    elements_value element
  rw [elements, htext, List.splitOn_append_cons_self, hvalue]
  rfl

/-- Whatever the client wrote, the appended elements are the last ones. -/
theorem Appended.elements_eq {client values : List HeaderValue}
    {appended : List Element} (h : Appended client appended values) :
    values.flatMap elements =
      client.flatMap elements ++ appended.map Element.text := by
  induction h with
  | client => simp
  | joined h hvalue ih =>
      simp only [List.flatMap_append, List.flatMap_singleton] at ih ⊢
      rw [elements_joined hvalue, ← List.append_assoc, ih]
      simp
  | header h ih => simp [ih, elements_value]

/-! ## The client address -/

/-- The header that the chain of hops is read from. -/
def chainHeader : ForwardedSource → Str
  | .xForwarded => "x-forwarded-for".toList
  | .forwarded => "forwarded".toList
  | .none => []

theorem parseChain_of_appended {headers : HeaderMap} {name : Str}
    {client : List HeaderValue} {appended : List Element}
    (h : Appended client appended (HeaderMap.getAll headers name))
    (parse : Str → Option IpAddr) :
    parseChain name parse headers =
      (client.flatMap elements).filterMap parse ++
        appended.filterMap fun element => parse element.text := by
  rw [parseChain, ← List.filterMap_flatMap, h.elements_eq,
    List.filterMap_append, List.filterMap_map]
  rfl

namespace TrustPolicy

variable {policy : TrustPolicy} {headers : HeaderMap}
  {client : List HeaderValue} {appended : List Element}

/-- The addresses of the appended elements end the chain that is walked. -/
theorem forwardedClient_of_appended (hsource : policy.clientIp ≠ .none)
    (h : Appended client appended
      (HeaderMap.getAll headers (chainHeader policy.clientIp))) :
    ∃ written, policy.forwardedClient headers =
      policy.walkBack (written ++
        appended.filterMap (Element.address policy.clientIp)) := by
  cases hclient : policy.clientIp with
  | none => exact absurd hclient hsource
  | xForwarded =>
      rw [hclient] at h
      refine ⟨(client.flatMap elements).filterMap parseAddress, ?_⟩
      rw [forwardedClient, hclient]
      exact congrArg policy.walkBack (parseChain_of_appended h parseAddress)
  | forwarded =>
      rw [hclient] at h
      let parse := fun element =>
        (param element "for".toList).bind parseAddress
      refine ⟨(client.flatMap elements).filterMap parse, ?_⟩
      rw [forwardedClient, hclient]
      exact congrArg policy.walkBack (parseChain_of_appended h parse)

theorem walkBack_append_cons {address : IpAddr}
    (haddress : policy.trusts address = false) (chain : List IpAddr)
    {later : List IpAddr}
    (hlater : ∀ hop ∈ later, policy.trusts hop = true) :
    policy.walkBack (chain ++ address :: later) = some address := by
  have hskip : later.reverse.find? (fun hop => !policy.trusts hop) = none := by
    simpa using hlater
  rw [walkBack, List.reverse_append, List.reverse_cons, List.append_assoc,
    List.find?_append, hskip]
  simp [haddress]

/-- The client address cannot be forged: behind a trusted peer it is the last
address outside every trusted block that a proxy appended, whatever the client
wrote in front. -/
theorem clientIp_of_appended {peer address : IpAddr} {element : Element}
    {before after : List Element} (hpeer : policy.trusts peer = true)
    (hsource : policy.clientIp ≠ .none)
    (h : Appended client (before ++ element :: after)
      (HeaderMap.getAll headers (chainHeader policy.clientIp)))
    (haddress : element.address policy.clientIp = some address)
    (huntrusted : policy.trusts address = false)
    (hafter : ∀ later ∈ after, later.address policy.clientIp = none ∨
      ∃ hop, later.address policy.clientIp = some hop ∧
        policy.trusts hop = true)
    (scheme : ListenerScheme) :
    (policy.resolve (some peer) headers scheme).clientIp = some address := by
  obtain ⟨written, hforwarded⟩ := forwardedClient_of_appended hsource h
  have hlater : ∀ hop ∈ after.filterMap (Element.address policy.clientIp),
      policy.trusts hop = true := by
    intro hop hhop
    obtain ⟨later, hmem, hname⟩ := List.mem_filterMap.mp hhop
    rcases hafter later hmem with hnone | ⟨hop', hsome, htrusted⟩
    · rw [hnone] at hname
      cases hname
    · rw [hsome] at hname
      cases hname
      exact htrusted
  rw [List.filterMap_append, List.filterMap_cons_some haddress,
    ← List.append_assoc] at hforwarded
  rw [resolve_of_trusts hpeer, hforwarded,
    walkBack_append_cons huntrusted _ hlater]
  rfl

/-- The block `10.0.0.0/8`. -/
def tenBlock : Cidr :=
  ⟨.v4 ⟨[10, 0, 0, 0], rfl⟩, 8, Nat.le_of_ble_eq_true rfl⟩

/-- A proxy appended `203.0.113.7` to what the client wrote, and the next one
the address of the first. -/
theorem clientIp_of_appended_two_proxies :
    let policy : TrustPolicy := ⟨[tenBlock], .xForwarded, .none⟩
    let seen : Element := ⟨utf8 " 203.0.113.7".toList, by decide, by decide⟩
    let proxy : Element := ⟨utf8 "10.0.0.9".toList, by decide, by decide⟩
    let forged : HeaderValue := ⟨utf8 "9.9.9.9".toList, by decide⟩
    let joined : HeaderValue :=
      ⟨utf8 "9.9.9.9, 203.0.113.7".toList, by decide⟩
    let name : HeaderName := ⟨"x-forwarded-for".toList, by decide, by decide⟩
    let headers : HeaderMap := [(name, joined), (name, proxy.value)]
    Appended [forged] [seen, proxy]
        (HeaderMap.getAll headers (chainHeader .xForwarded)) ∧
      (policy.resolve (some (.v4 ⟨[10, 0, 0, 4], rfl⟩)) headers
        .http).clientIp = some (.v4 ⟨[203, 0, 113, 7], rfl⟩) := by
  intro policy seen proxy forged joined name headers
  have hclient : Appended [forged] [] ([] ++ [forged]) := .client
  have hseen : Appended [forged] ([] ++ [seen]) ([] ++ [joined]) :=
    hclient.joined (by decide)
  have happended : Appended [forged] ([] ++ seen :: [proxy])
      (HeaderMap.getAll headers (chainHeader .xForwarded)) :=
    .header hseen
  refine ⟨happended, ?_⟩
  have hpeer : policy.trusts (.v4 ⟨[10, 0, 0, 4], rfl⟩) = true := by decide
  refine clientIp_of_appended hpeer nofun happended (by decide) (by decide)
    (fun later hlater => ?_) .http
  obtain rfl := List.mem_singleton.mp hlater
  exact .inr ⟨.v4 ⟨[10, 0, 0, 9], rfl⟩, by decide, by decide⟩

end TrustPolicy

/-! ## The scheme -/

/-- The header that the scheme is read from. -/
def schemeHeader : ForwardedSource → Str
  | .xForwarded => "x-forwarded-proto".toList
  | .forwarded => "forwarded".toList
  | .none => []

theorem Appended.header_each (client : List HeaderValue)
    (appended : List Element) :
    Appended client appended (client ++ appended.map Element.value) := by
  induction appended using List.reverseRecOn with
  | nil => simpa using Appended.client
  | append_singleton appended element ih =>
      rw [List.map_append, List.map_singleton, ← List.append_assoc]
      exact ih.header

theorem exists_schemeHeader {source : ForwardedSource}
    (hsource : source ≠ .none) :
    ∃ name : HeaderName,
      name.text = toAsciiLowercase (schemeHeader source) := by
  cases source with
  | none => exact absurd rfl hsource
  | xForwarded =>
      exact ⟨⟨"x-forwarded-proto".toList, by decide, by decide⟩, by decide⟩
  | forwarded => exact ⟨⟨"forwarded".toList, by decide, by decide⟩, by decide⟩

/-- The scheme that the leftmost element of a value names. -/
def leadingScheme (source : ForwardedSource) (value : HeaderValue) :
    Option Str :=
  match source with
  | .none => none
  | .xForwarded => normalizeScheme (firstToken value)
  | .forwarded =>
      (firstElement value).bind fun element =>
        (param element "proto".toList).bind normalizeScheme

/-- The value with which a client names a scheme. -/
def claimed (source : ForwardedSource) (scheme : ListenerScheme) :
    HeaderValue :=
  match source, scheme with
  | .forwarded, .http => ⟨utf8 "proto=http".toList, rfl⟩
  | .forwarded, .https => ⟨utf8 "proto=https".toList, rfl⟩
  | _, .http => ⟨utf8 "http".toList, rfl⟩
  | _, .https => ⟨utf8 "https".toList, rfl⟩

theorem leadingScheme_claimed {source : ForwardedSource}
    (hsource : source ≠ .none) (scheme : ListenerScheme) :
    leadingScheme source (claimed source scheme) = some scheme.asStr := by
  cases source with
  | none => exact absurd rfl hsource
  | xForwarded => cases scheme <;> decide
  | forwarded => cases scheme <;> decide

namespace TrustPolicy

variable {policy : TrustPolicy}

/-- Behind a peer, the elements that proxies append decide the scheme: what the
client wrote in front makes no difference. -/
def SchemeUnforged (policy : TrustPolicy) (peer : IpAddr)
    (listener : ListenerScheme) (appended : List Element) : Prop :=
  ∀ client client' headers headers',
    Appended client appended
      (HeaderMap.getAll headers (schemeHeader policy.scheme)) →
    Appended client' appended
      (HeaderMap.getAll headers' (schemeHeader policy.scheme)) →
    (policy.resolve (some peer) headers listener).scheme =
      (policy.resolve (some peer) headers' listener).scheme

/-- The first value of the header decides. -/
theorem forwardedScheme_eq (policy : TrustPolicy) (headers : HeaderMap) :
    policy.forwardedScheme headers =
      (HeaderMap.getAll headers (schemeHeader policy.scheme)).head?.bind
        (leadingScheme policy.scheme) := by
  rw [forwardedScheme]
  cases policy.scheme with
  | none => exact (Option.bind_fun_none _).symm
  | xForwarded => rfl
  | forwarded => rfl

/-- Where a scheme is read at all, a client names the one it wants. -/
theorem exists_scheme_eq {peer : IpAddr} (hpeer : policy.trusts peer = true)
    (hsource : policy.scheme ≠ .none) (listener wanted : ListenerScheme)
    (appended : List Element) :
    ∃ client headers, Appended client appended
        (HeaderMap.getAll headers (schemeHeader policy.scheme)) ∧
      (policy.resolve (some peer) headers listener).scheme = wanted.asStr := by
  obtain ⟨name, hname⟩ := exists_schemeHeader hsource
  let values := claimed policy.scheme wanted :: appended.map Element.value
  have hvalues : HeaderMap.getAll (values.map fun value => (name, value))
      (schemeHeader policy.scheme) = values := by
    rw [HeaderMap.getAll_map, if_pos hname]
  refine ⟨[claimed policy.scheme wanted],
    values.map fun value => (name, value), ?_, ?_⟩
  · rw [hvalues]
    exact Appended.header_each [claimed policy.scheme wanted] appended
  have hscheme := forwardedScheme_eq policy
    (values.map fun value => (name, value))
  rw [hvalues] at hscheme
  rw [resolve_of_trusts hpeer, hscheme]
  exact congrArg (·.getD listener.asStr) (leadingScheme_claimed hsource wanted)

/-- Every source of the scheme lets the client choose it; it is safe exactly
when none is read. -/
theorem schemeUnforged_iff {peer : IpAddr} (hpeer : policy.trusts peer = true)
    (listener : ListenerScheme) (appended : List Element) :
    policy.SchemeUnforged peer listener appended ↔ policy.scheme = .none := by
  constructor
  · intro hunforged
    by_contra hsource
    obtain ⟨client, headers, happended, hhttp⟩ :=
      exists_scheme_eq hpeer hsource listener .http appended
    obtain ⟨client', headers', happended', hhttps⟩ :=
      exists_scheme_eq hpeer hsource listener .https appended
    have heq := hunforged _ _ _ _ happended happended'
    rw [hhttp, hhttps] at heq
    exact absurd heq (by decide)
  · intro hsource client client' headers headers' _ _
    rw [resolve_of_trusts hpeer, resolve_of_trusts hpeer, forwardedScheme,
      forwardedScheme, hsource]

/-- With no source, what the listener speaks is the scheme. -/
theorem schemeUnforged_iff_no_source :
    let policy : TrustPolicy := ⟨[tenBlock], .xForwarded, .none⟩
    let peer : IpAddr := .v4 ⟨[10, 0, 0, 4], rfl⟩
    policy.trusts peer = true ∧ policy.SchemeUnforged peer .https [] := by
  intro policy peer
  have hpeer : policy.trusts peer = true := by decide
  exact ⟨hpeer, (schemeUnforged_iff hpeer .https []).mpr rfl⟩

/-- A trusted proxy says `https`; the client that wrote `http` first is
believed. -/
theorem scheme_forged :
    let policy : TrustPolicy := ⟨[tenBlock], .xForwarded, .xForwarded⟩
    let peer : IpAddr := .v4 ⟨[10, 0, 0, 4], rfl⟩
    let seen : Element := ⟨utf8 "https".toList, by decide, by decide⟩
    let forged : HeaderValue := ⟨utf8 "http".toList, by decide⟩
    let joined : HeaderValue := ⟨utf8 "http,https".toList, by decide⟩
    let name : HeaderName := ⟨"x-forwarded-proto".toList, by decide, by decide⟩
    policy.trusts peer = true ∧
      seen.scheme policy.scheme = some "https".toList ∧
      Appended [] [seen] (HeaderMap.getAll [(name, seen.value)]
        (schemeHeader policy.scheme)) ∧
      Appended [forged] [seen] (HeaderMap.getAll [(name, joined)]
        (schemeHeader policy.scheme)) ∧
      (policy.resolve (some peer) [(name, seen.value)] .https).scheme =
        "https".toList ∧
      (policy.resolve (some peer) [(name, joined)] .https).scheme =
        "http".toList := by
  intro policy peer seen forged joined name
  have hclient : Appended [forged] [] ([] ++ [forged]) := .client
  have hjoined : Appended [forged] ([] ++ [seen]) ([] ++ [joined]) :=
    hclient.joined (by decide)
  have hheader : Appended [] ([] ++ [seen]) ([] ++ [seen.value]) :=
    Appended.client.header
  exact ⟨by decide, by decide, hheader, hjoined, by decide, by decide⟩

end TrustPolicy

end Harmost.Net
