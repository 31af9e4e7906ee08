import Harmost.Cache.Key
import Harmost.Cache.Policy
import Harmost.Policy.Snapshot

/-!
# The request and response filters

What the proxy does around the two policy decisions: it resolves the route,
derives the flags that connect the decisions, and turns the verdict on a
response into a cache entry or a refusal.
-/

namespace Harmost.Proxy

open Harmost.Support
open Harmost.Http
open Harmost.Classifier
open Harmost.Config
open Harmost.Cache
open Harmost.Policy

/-! ## Requests -/

/-- `Vec::dedup`: drop an element equal to its predecessor. -/
def dedup : List Str → List Str
  | [] => []
  | [a] => [a]
  | a :: b :: rest =>
      if a = b then dedup (b :: rest) else a :: dedup (b :: rest)

/-- The headers a route lists under `cache.vary`. -/
def varyHeaders (route : Option RouteCache) : List Str :=
  ((route.bind RouteCache.vary).map VaryPolicy.headers).getD []

/-- The framework's key headers and the route's, folded, sorted and without
repetition. -/
def resolvedKeyHeaders (framework : List Str) (route : Option RouteCache) :
    List Str :=
  dedup (((framework ++ varyHeaders route).map toAsciiLowercase).insertionSort
    (· ≤ ·))

/-- The key settings of a route: its query policy, and its headers merged with
the framework's. -/
def routeKeyBuilder (scheme : Str) (deployment : Option Str)
    (framework : List Str) (route : Option RouteCache) : KeyBuilder where
  scheme := scheme
  queryPolicy := route.bind RouteCache.query
  variantHeaders := resolvedKeyHeaders framework route
  deployment := deployment

/-- A route declaration outranks inference, and an `Upgrade` header outranks
both. -/
def resolvedRequestClass (req : RequestMetadata)
    (declared inferred : Option RequestClass) : RequestClass :=
  if req.isUpgrade then .upgrade else (declared.or inferred).getD .unknown

/-- The flags the proxy derives between the two decisions. -/
structure Reuse where
  cacheActive : Bool := false
  transientOnly : Bool := false
  mayCoalesce : Bool := false
  deriving DecidableEq, Repr

/-- Only an eligible request sets the flags, and a prefetch never stores. -/
def Reuse.ofDisposition (disposition : Disposition) (coalesceOnly : Bool) :
    Reuse :=
  match disposition with
  | .bypass _ => {}
  | .eligible mayStore mayCoalesce =>
      let mayStore := if coalesceOnly then false else mayStore
      { cacheActive := mayStore || mayCoalesce
        transientOnly := !mayStore
        mayCoalesce := mayCoalesce }

/-- The per-request state the filters share. -/
structure Ctx where
  policy : PolicySnapshot
  class' : RequestClass := .unknown
  routeId : Option Str := none
  routeCache : Option RouteCache := none
  keyHeaders : List Str := []
  coalesceOverride : Bool := false
  reuse : Reuse := {}

/-- What the request filter decides: the new state, or that the request was
answered already. -/
inductive Filtered where
  | proceed (ctx : Ctx)
  | upgradeRefused (ctx : Ctx)

def requestFilter (adapter : RequestMetadata → RequestHints)
    (req : RequestMetadata) (ctx : Ctx) : Filtered :=
  let hints := adapter req
  let route := ctx.policy.resolve req.host req.path req.method
  let cfg := ctx.policy.config
  let routeCache := route.bind fun r => r.config.cache
  let routeCoalesce := route.bind fun r => r.config.coalesce
  let class' :=
    resolvedRequestClass req (route.bind ResolvedRoute.declaredClass)
      hints.class?
  let coalesceOverride := routeCoalesce.any RouteCoalesce.overrideOrigin
  let protecting := cfg.mode == .protect
  let routeCacheEnabled :=
    protecting && cfg.cacheEnabled &&
      (routeCache.bind RouteCache.enabled).getD true
  let routeCoalesceEnabled :=
    protecting &&
      (routeCoalesce.bind RouteCoalesce.enabled).getD cfg.coalesceEnabled
  let ctx := { ctx with
    class' := class'
    routeId := route.map ResolvedRoute.id
    routeCache := routeCache
    keyHeaders := resolvedKeyHeaders hints.keyHeaders routeCache
    coalesceOverride := coalesceOverride }
  if class' = .upgrade ∧ cfg.upgradeEnabled = false then .upgradeRefused ctx
  else
    let disposition :=
      evaluateRequest req class' hints.forceBypass routeCache coalesceOverride
        routeCacheEnabled routeCoalesceEnabled
    .proceed { ctx with
      reuse := Reuse.ofDisposition disposition hints.coalesceOnly }

/-! ## Responses -/

structure ResponseHeader where
  status : ℕ
  headers : HeaderMap

/-- `std::time::SystemTime`, in nanoseconds since the epoch. -/
abbrev SystemTime := ℕ

/-- `SystemTime::checked_add`: the seconds must fit a signed 64-bit count. -/
def SystemTime.checkedAdd (now : SystemTime) (d : Duration) :
    Option SystemTime :=
  if (now + d) / 1000000000 < 2 ^ 63 then some (now + d) else none

structure CacheMeta where
  freshUntil : SystemTime
  created : SystemTime
  staleWhileRevalidateSec : ℕ
  staleIfErrorSec : ℕ
  header : ResponseHeader

inductive NoCacheReason where
  | originNotCache
  deriving DecidableEq

inductive RespCacheable where
  | cacheable (entry : CacheMeta)
  | uncacheable (reason : NoCacheReason)

/-- Harmost's private storage marker for entries handed to waiters only. -/
def transientHeader : HeaderName :=
  ⟨"x-harmost-transient-internal".toList, by decide, by decide⟩

def ResponseHeader.removeHeader (resp : ResponseHeader) (name : HeaderName) :
    ResponseHeader :=
  { resp with headers := resp.headers.filter fun line => line.1 != name }

def ResponseHeader.insertHeader (resp : ResponseHeader) (name : HeaderName)
    (value : HeaderValue) : ResponseHeader :=
  { resp with headers := (resp.removeHeader name).headers ++ [(name, value)] }

theorem ResponseHeader.containsKey_insertHeader (resp : ResponseHeader)
    (name : HeaderName) (value : HeaderValue) :
    (resp.insertHeader name value).headers.containsKey name.text = true := by
  simp [HeaderMap.containsKey, HeaderMap.getAll, insertHeader, name.isLower]

/-- `u32::try_from(d.as_secs()).unwrap_or(u32::MAX)`. -/
def saturatedSecs (d : Duration) : ℕ :=
  min (d / 1000000000) (2 ^ 32 - 1)

/-- The values of one header as one comma-separated text. -/
def joinedHeaderValues (headers : HeaderMap) (name : Str) : Option Str :=
  let values := (headers.getAll name).map headerText
  if values.isEmpty then none else some (join ',' values)

/-- The part of a response the policy decides on. -/
def ResponseHeader.metadata (resp : ResponseHeader) : ResponseMetadata where
  status := resp.status
  cacheControl := joinedHeaderValues resp.headers "cache-control".toList
  setCookie := resp.headers.containsKey "set-cookie".toList
  vary := joinedHeaderValues resp.headers "vary".toList

/-- An entry that stays fresh until a given time, unless the clock cannot
represent it. -/
def entryUntil (freshUntil : Option SystemTime) (overflow : Str)
    (entry : SystemTime → CacheMeta) : Except Str RespCacheable :=
  match freshUntil with
  | none => .error overflow
  | some time => .ok (.cacheable (entry time))

theorem entryUntil_ne_uncacheable (freshUntil : Option SystemTime)
    (overflow : Str) (entry : SystemTime → CacheMeta)
    (reason : NoCacheReason) :
    entryUntil freshUntil overflow entry ≠ .ok (.uncacheable reason) := by
  cases freshUntil <;> simp [entryUntil]

def responseCacheFilter (now : SystemTime) (resp : ResponseHeader)
    (ctx : Ctx) : Except Str RespCacheable :=
  match evaluateResponse resp.metadata ctx.routeCache ctx.keyHeaders
      ctx.reuse.transientOnly ctx.coalesceOverride with
  | .shareable ttl swr sie =>
      entryUntil (SystemTime.checkedAdd now ttl)
        "cache TTL exceeds SystemTime range".toList fun freshUntil =>
          ⟨freshUntil, now, saturatedSecs swr, saturatedSecs sie,
            resp.removeHeader transientHeader⟩
  | .transientOnly =>
      -- An entry born stale is served to everyone already waiting on the lock
      -- and to nobody afterwards.
      entryUntil
        (SystemTime.checkedAdd now (max ctx.policy.coalesceWait 1000000))
        "coalesce timeout exceeds SystemTime range".toList fun freshUntil =>
          ⟨freshUntil, now, 0, 0,
            (resp.removeHeader transientHeader).insertHeader transientHeader
              ⟨[0x31], by decide⟩⟩
  | .notShareable _ => .ok (.uncacheable .originNotCache)

/-- Nothing but a refusal by the policy leaves a response uncacheable. -/
theorem responseCacheFilter_uncacheable_iff (now : SystemTime)
    (resp : ResponseHeader) (ctx : Ctx) :
    responseCacheFilter now resp ctx = .ok (.uncacheable .originNotCache) ↔
      (evaluateResponse resp.metadata ctx.routeCache ctx.keyHeaders
        ctx.reuse.transientOnly ctx.coalesceOverride).shared = false := by
  unfold responseCacheFilter
  cases evaluateResponse resp.metadata ctx.routeCache ctx.keyHeaders
      ctx.reuse.transientOnly ctx.coalesceOverride with
  | shareable | transientOnly =>
      simp [entryUntil_ne_uncacheable, Shareability.shared]
  | notShareable reason => simp [Shareability.shared]

/-- What must not be stored carries the marker. -/
theorem responseCacheFilter_transient {now : SystemTime}
    {resp : ResponseHeader} {ctx : Ctx} {entry : CacheMeta}
    (htransient : evaluateResponse resp.metadata ctx.routeCache ctx.keyHeaders
      ctx.reuse.transientOnly ctx.coalesceOverride = .transientOnly)
    (hentry : responseCacheFilter now resp ctx = .ok (.cacheable entry)) :
    entry.header.headers.containsKey transientHeader.text = true := by
  simp only [responseCacheFilter, htransient, entryUntil] at hentry
  split at hentry
  · simp at hentry
  · obtain rfl := RespCacheable.cacheable.inj (Except.ok.inj hentry)
    exact ResponseHeader.containsKey_insertHeader _ _ _

end Harmost.Proxy
