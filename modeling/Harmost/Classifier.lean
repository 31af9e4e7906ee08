import Harmost.Http

/-!
# Request classification

What kind of request is this, and may its response ever be shared?  The class
decides the defaults; the framework adapters contribute the headers that select
between different bodies at one URL and the reasons a response must never be
shared.
-/

namespace Harmost.Classifier

open Harmost.Support
open Harmost.Http

/-- Every request lands in exactly one class. -/
inductive RequestClass where
  | static
  | publicDocument
  | publicDynamic
  | privateDynamic
  | mutation
  | streaming
  | upgrade
  | unknown
  deriving DecidableEq, Repr

/-- Does a request in this class take up origin capacity? -/
def RequestClass.consumesOriginPermit : RequestClass → Bool
  | .static | .streaming | .upgrade => false
  | _ => true

/-- May a response in this class ever be stored, before any header is read? -/
def RequestClass.storableInPrinciple : RequestClass → Bool
  | .static | .publicDocument | .publicDynamic => true
  | _ => false

/-- May concurrent equivalent requests in this class be collapsed? -/
def RequestClass.coalescibleInPrinciple : RequestClass → Bool
  | .publicDocument | .publicDynamic => true
  | _ => false

/-- The request, reduced to what classification and keying read. -/
structure RequestMetadata where
  method : Method
  host : Str
  path : Str
  query : Option Str
  headers : HeaderMap

/-- Render a header value as text without ever losing a distinction. -/
def headerText (value : HeaderValue) : Str :=
  escapeAscii value.bytes

theorem headerText_injective : Function.Injective headerText := by
  intro value value' h
  exact HeaderValue.ext_bytes (escapeAscii_injective h)

namespace RequestMetadata

variable (req : RequestMetadata)

def hasHeader (name : Str) : Bool :=
  req.headers.containsKey name

def hasAuthorization : Bool :=
  req.headers.containsKey "authorization".toList

def hasCookies : Bool :=
  req.headers.containsKey "cookie".toList

/-- `u8::is_ascii_whitespace`. -/
def isAsciiWhitespace (b : UInt8) : Bool :=
  b == 0x20 || b == 0x09 || b == 0x0a || b == 0x0c || b == 0x0d

/-- Does any `Cookie` header carry a cookie with this name?  Compared on bytes,
so a neighbour that is not ASCII hides nothing. -/
def hasCookieNamed (name : Str) : Bool :=
  (req.headers.getAll "cookie".toList).any fun value =>
    (value.bytes.splitOn 0x3b).any fun pair =>
      trimMatches isAsciiWhitespace (pair.takeWhile (· != 0x3d)) ==
        asciiBytes name

def isSafeMethod : Bool :=
  req.method == .get || req.method == .head

/-- Presence of the `Upgrade` header is the whole signal. -/
def isUpgrade : Bool :=
  req.headers.containsKey "upgrade".toList

end RequestMetadata

/-- What an adapter concluded about a request. -/
structure RequestHints where
  class? : Option RequestClass := none
  keyHeaders : List Str := []
  forceBypass : Option Str := none
  coalesceOnly : Bool := false

/-! ## The framework-neutral adapter -/

namespace Generic

/-- Classify using HTTP semantics alone. -/
def classify (req : RequestMetadata) : RequestClass :=
  if req.isUpgrade then .upgrade
  else if !req.isSafeMethod then
    match req.method with
    | .post | .put | .patch | .delete => .mutation
    | _ => .unknown
  else if req.hasAuthorization then .privateDynamic
  else if req.hasCookies then .privateDynamic
  else if req.query.any (fun q => !q.isEmpty) then .publicDynamic
  else .publicDocument

def classifyRequest (req : RequestMetadata) : RequestHints :=
  { class? := some (classify req) }

end Generic

/-! ## The Next.js adapter -/

namespace NextJs

/-- Headers that select between different bodies at one URL. -/
def rscKeyHeaders : List Str :=
  ["rsc".toList, "next-router-prefetch".toList,
    "next-router-state-tree".toList, "next-router-segment-prefetch".toList,
    "next-url".toList]

/-- Cookies that put Next into draft mode. -/
def draftCookies : List Str :=
  ["__prerender_bypass".toList, "__next_preview_data".toList]

def isStaticAsset (path : Str) : Bool :=
  "/_next/static/".toList.isPrefixOf path || path == "/favicon.ico".toList

def isRsc (req : RequestMetadata) : Bool :=
  req.hasHeader "rsc".toList

def isPrefetch (req : RequestMetadata) : Bool :=
  req.hasHeader "next-router-prefetch".toList ||
    req.hasHeader "next-router-segment-prefetch".toList

def isServerAction (req : RequestMetadata) : Bool :=
  req.hasHeader "next-action".toList

def inDraftMode (req : RequestMetadata) : Bool :=
  draftCookies.any req.hasCookieNamed

def classifyRequest (req : RequestMetadata) : RequestHints :=
  if req.isUpgrade then
    { class? := some .upgrade, forceBypass := some "protocol_upgrade".toList }
  else if inDraftMode req then
    { class? := some .privateDynamic
      forceBypass := some "next_draft_mode".toList }
  else if isServerAction req then
    { class? := some .mutation
      forceBypass := some "next_server_action".toList }
  else if isStaticAsset req.path then
    { class? := some .static }
  else if isRsc req then
    -- A prefetch payload is keyed on the whole router state: worth collapsing
    -- a burst of them, never worth storing.
    { class? := some (Generic.classify req)
      keyHeaders := rscKeyHeaders
      coalesceOnly := isPrefetch req }
  else
    { class? := some (Generic.classify req)
      keyHeaders := rscKeyHeaders }

end NextJs

end Harmost.Classifier
