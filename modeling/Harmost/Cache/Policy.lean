import Harmost.Classifier
import Harmost.Config.Schema

/-!
# May this response be shared, and for how long?

`evaluateRequest` runs before the origin is touched and decides whether reuse is
worth attempting.  `evaluateResponse` runs when the origin answers and is the
decision that protects users: shareability is a property of the response.
-/

namespace Harmost.Cache

open Harmost.Support
open Harmost.Classifier
open Harmost.Config

/-- Why a response will not be shared. -/
inductive BypassReason where
  | unsafeMethod
  | authorization
  | cookie
  | classNotStorable
  | routeDisabled
  | framework (reason : Str)
  | status (code : ℕ)
  | setCookie
  | cacheControlPrivate
  | noStore
  | noCache
  | unsupportedVary (token : Str)
  deriving DecidableEq, Repr

/-- What reuse may be attempted for this request. -/
inductive Disposition where
  | bypass (reason : BypassReason)
  | eligible (mayStore mayCoalesce : Bool)
  deriving DecidableEq, Repr

/-- What may be done with the response that came back. -/
inductive Shareability where
  | shareable (ttl swr sie : Duration)
  /-- Safe to hand to the waiters already attached to this flight, but not to
  store. -/
  | transientOnly
  | notShareable (reason : BypassReason)
  deriving DecidableEq, Repr

/-! ## Cache-Control -/

/-- Parsed `Cache-Control`.  Absent directives are `none`. -/
structure CacheControl where
  noStore : Bool := false
  noCache : Bool := false
  «private» : Bool := false
  «public» : Bool := false
  maxAge : Option ℕ := none
  sMaxage : Option ℕ := none
  staleWhileRevalidate : Option ℕ := none
  staleIfError : Option ℕ := none
  deriving DecidableEq, Repr

namespace CacheControl

/-- The name of one directive, folded to lower case. -/
def directiveName (part : Str) : Str :=
  let part := trim part
  toAsciiLowercase
    (match splitOnce '=' part with
      | some (n, _) => trim n
      | none => part)

/-- The argument of one directive, without the quotes around it. -/
def directiveValue (part : Str) : Option Str :=
  (splitOnce '=' (trim part)).map fun pair =>
    trimMatches (· == '"') (trim pair.2)

/-- One turn of the parsing loop. -/
def applyDirective (cc : CacheControl) (part : Str) : CacheControl :=
  let name := directiveName part
  let secs := (directiveValue part).bind (parseUnsigned 64)
  if name = "no-store".toList then { cc with noStore := true }
  else if name = "no-cache".toList then { cc with noCache := true }
  else if name = "private".toList then { cc with «private» := true }
  else if name = "public".toList then { cc with «public» := true }
  else if name = "max-age".toList then { cc with maxAge := secs }
  else if name = "s-maxage".toList then { cc with sMaxage := secs }
  else if name = "stale-while-revalidate".toList then
    { cc with staleWhileRevalidate := secs }
  else if name = "stale-if-error".toList then { cc with staleIfError := secs }
  else cc

def parse (raw : Str) : CacheControl :=
  (raw.splitOn ',').foldl applyDirective {}

/-- Shared caches honour `s-maxage` ahead of `max-age`. -/
def sharedTtl (cc : CacheControl) : Option Duration :=
  (cc.sMaxage.or cc.maxAge).map Duration.fromSecs

/-- The directive by which the origin refuses to have the response shared. -/
def refusal (cc : CacheControl) : Option BypassReason :=
  if cc.noStore then some .noStore
  else if cc.«private» then some .cacheControlPrivate
  else if cc.noCache then some .noCache
  else none

end CacheControl

/-! ## The two decisions -/

/-- Metadata from the origin's response, reduced to what the decision reads. -/
structure ResponseMetadata where
  status : ℕ
  cacheControl : Option Str
  setCookie : Bool
  vary : Option Str

/-- The origin's directives; a response without the header gives none. -/
def ResponseMetadata.directives (res : ResponseMetadata) : CacheControl :=
  (res.cacheControl.map CacheControl.parse).getD {}

def cacheableStatuses : List ℕ :=
  [200, 203, 204, 301, 308, 404, 410]

def overridesOrigin (route : Option RouteCache) : Bool :=
  route.any RouteCache.overrideOrigin

def evaluateRequest (req : RequestMetadata) (class' : RequestClass)
    (frameworkBypass : Option Str) (route : Option RouteCache)
    (coalesceOverride cacheEnabled coalesceEnabled : Bool) : Disposition :=
  match frameworkBypass with
  | some f => .bypass (.framework f)
  | none =>
      if !req.isSafeMethod then .bypass .unsafeMethod
      else if req.hasAuthorization then .bypass .authorization
      else if !cacheEnabled && !coalesceEnabled then .bypass .routeDisabled
      else if !class'.storableInPrinciple && !class'.coalescibleInPrinciple then
        .bypass .classNotStorable
      -- A cookie-bearing request is personalised unless the route has
      -- explicitly claimed otherwise by overriding.
      else if req.hasCookies && !overridesOrigin route && !coalesceOverride then
        .bypass .cookie
      else
        .eligible (cacheEnabled && class'.storableInPrinciple)
          (coalesceEnabled && class'.coalescibleInPrinciple)

/-- The first `Vary` token the cache key cannot honour, among the tokens left
to read. -/
def firstUnsupported (keyHeaders : List Str) : List Str → Option Str
  | [] => none
  | token :: rest =>
      let token := toAsciiLowercase (trim token)
      if token.isEmpty then firstUnsupported keyHeaders rest
      else if token = "*".toList then some "*".toList
      else if token = "accept-encoding".toList then
        firstUnsupported keyHeaders rest
      else if !keyHeaders.any (fun k => eqIgnoreAsciiCase k token) then
        some token
      else firstUnsupported keyHeaders rest

/-- The first `Vary` token the cache key cannot honour. -/
def unsupportedVary (vary : Str) (keyHeaders : List Str) : Option Str :=
  firstUnsupported keyHeaders (vary.splitOn ',')

/-- The lifetime the route and the origin agree on, or `none` when neither
supplies one. -/
def effectiveTtl (route : Option RouteCache) (cc : CacheControl) :
    Option Duration :=
  let routeMax := (route.bind RouteCache.ttl).bind Ttl.max
  if overridesOrigin route then routeMax
  else
    match cc.sharedTtl, routeMax with
    | some o, some m => some (min o m)
    | some o, none => some o
    | none, _ => none

/-- The absolute rules.  No configuration reaches past these. -/
def absoluteRefusal (res : ResponseMetadata) (keyHeaders : List Str) :
    Option BypassReason :=
  if res.setCookie then some .setCookie
  else
    match res.vary.bind (unsupportedVary · keyHeaders) with
    | some offending => some (.unsupportedVary offending)
    | none =>
        if cacheableStatuses.contains res.status then none
        else some (.status res.status)

/-- Origin directives, which a fenced route override may outrank. -/
def directiveRefusal (cc : CacheControl) (route : Option RouteCache)
    (coalesceOverride : Bool) : Option BypassReason :=
  if !overridesOrigin route && !coalesceOverride then cc.refusal else none

/-- What the lifetime makes of a response nothing refuses to share. -/
def lifetimeVerdict (route : Option RouteCache) (cc : CacheControl) :
    Shareability :=
  match effectiveTtl route cc with
  | none => .notShareable .noCache
  | some ttl =>
      if ttl = 0 then .transientOnly
      else
        .shareable ttl
          (((route.bind RouteCache.staleWhileRevalidate).or
            (cc.staleWhileRevalidate.map Duration.fromSecs)).getD 0)
          (((route.bind RouteCache.staleIfError).or
            (cc.staleIfError.map Duration.fromSecs)).getD 0)

/-- The decision that protects users. -/
def evaluateResponse (res : ResponseMetadata) (route : Option RouteCache)
    (keyHeaders : List Str) (coalesceOnly coalesceOverride : Bool) :
    Shareability :=
  match absoluteRefusal res keyHeaders with
  | some reason => .notShareable reason
  | none =>
      match directiveRefusal res.directives route coalesceOverride with
      | some reason => .notShareable reason
      | none =>
          if coalesceOnly then .transientOnly
          else lifetimeVerdict route res.directives

/-! ## What the verdicts mean -/

/-- May the body reach anyone but the client that asked for it? -/
def Shareability.shared : Shareability → Bool
  | .shareable _ _ _ | .transientOnly => true
  | .notShareable _ => false

/-- May the body be served again after this flight? -/
def Shareability.stored : Shareability → Bool
  | .shareable _ _ _ => true
  | .transientOnly | .notShareable _ => false

theorem absoluteRefusal_eq_none_iff {res : ResponseMetadata}
    {keyHeaders : List Str} :
    absoluteRefusal res keyHeaders = none ↔
      res.setCookie = false ∧
      res.vary.bind (unsupportedVary · keyHeaders) = none ∧
      res.status ∈ cacheableStatuses := by
  unfold absoluteRefusal
  cases res.setCookie with
  | true => simp
  | false =>
      cases res.vary.bind (unsupportedVary · keyHeaders) with
      | some offending => simp
      | none => simp

theorem directiveRefusal_eq_none_iff {cc : CacheControl}
    {route : Option RouteCache} {coalesceOverride : Bool} :
    directiveRefusal cc route coalesceOverride = none ↔
      cc.refusal = none ∨ overridesOrigin route = true ∨
        coalesceOverride = true := by
  unfold directiveRefusal
  cases overridesOrigin route <;> cases coalesceOverride <;> simp

theorem lifetimeVerdict_shared (route : Option RouteCache)
    (cc : CacheControl) :
    (lifetimeVerdict route cc).shared = (effectiveTtl route cc).isSome := by
  unfold lifetimeVerdict
  cases effectiveTtl route cc with
  | none => rfl
  | some ttl =>
      simp only [Option.isSome_some]
      split <;> rfl

theorem lifetimeVerdict_stored (route : Option RouteCache)
    (cc : CacheControl) :
    (lifetimeVerdict route cc).stored =
      (effectiveTtl route cc).any (fun ttl => decide (ttl ≠ 0)) := by
  unfold lifetimeVerdict
  cases effectiveTtl route cc with
  | none => rfl
  | some ttl => by_cases httl : ttl = 0 <;> simp [httl, Shareability.stored]

section Verdict

variable {res : ResponseMetadata} {route : Option RouteCache}
  {keyHeaders : List Str} {coalesceOnly coalesceOverride : Bool}

/-- What no refused response has, a response has exactly when nothing refuses
it and the remaining verdict has it. -/
theorem evaluateResponse_iff {P : Shareability → Bool}
    (hP : ∀ reason, P (.notShareable reason) = false) :
    P (evaluateResponse res route keyHeaders coalesceOnly
        coalesceOverride) = true ↔
      absoluteRefusal res keyHeaders = none ∧
      directiveRefusal res.directives route coalesceOverride = none ∧
      P (if coalesceOnly then .transientOnly
        else lifetimeVerdict route res.directives) = true := by
  rw [evaluateResponse]
  rcases absoluteRefusal res keyHeaders with _ | reason
  · rcases directiveRefusal res.directives route coalesceOverride with
      _ | reason
    · simp
    · simp [hP]
  · simp [hP]

/-- A shared response passed the absolute rules, is refused by no directive in
force, and has a lifetime unless it is only handed to the waiters. -/
theorem evaluateResponse_shared_iff :
    (evaluateResponse res route keyHeaders coalesceOnly
        coalesceOverride).shared = true ↔
      absoluteRefusal res keyHeaders = none ∧
      directiveRefusal res.directives route coalesceOverride = none ∧
      (coalesceOnly = true ∨
        (effectiveTtl route res.directives).isSome = true) := by
  rw [evaluateResponse_iff fun _ => rfl]
  cases coalesceOnly with
  | true => simp [Shareability.shared]
  | false => simp [lifetimeVerdict_shared]

/-- A stored response has a positive lifetime and is not confined to the
waiters. -/
theorem evaluateResponse_stored_iff :
    (evaluateResponse res route keyHeaders coalesceOnly
        coalesceOverride).stored = true ↔
      absoluteRefusal res keyHeaders = none ∧
      directiveRefusal res.directives route coalesceOverride = none ∧
      coalesceOnly = false ∧
      ∃ ttl, effectiveTtl route res.directives = some ttl ∧ ttl ≠ 0 := by
  rw [evaluateResponse_iff fun _ => rfl]
  cases coalesceOnly with
  | true => simp [Shareability.stored]
  | false => simp [lifetimeVerdict_stored, Option.any_eq_true]

end Verdict

end Harmost.Cache
