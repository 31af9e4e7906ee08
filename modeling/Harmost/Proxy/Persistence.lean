import Harmost.Proxy.Filters

/-!
# What is persisted

The request decision, the flags derived from it and the response decision,
composed.  `coalesce.override_origin` is documented to be the weaker override,
under which nothing is persisted; the composition shows what it lets through.
-/

namespace Harmost.Proxy

open Harmost.Support
open Harmost.Http
open Harmost.Classifier
open Harmost.Config
open Harmost.Cache

/-- Everything the two decisions read, except the override under study. -/
structure Exchange where
  req : RequestMetadata
  class' : RequestClass
  frameworkBypass : Option Str
  /-- The adapter's mark for prefetch payloads. -/
  coalesceOnly : Bool
  route : Option RouteCache
  cacheEnabled : Bool
  coalesceEnabled : Bool
  keyHeaders : List Str
  res : ResponseMetadata

namespace Exchange

/-- The flags after the request decision. -/
def reuse (x : Exchange) (coalesceOverride : Bool) : Reuse :=
  Reuse.ofDisposition
    (evaluateRequest x.req x.class' x.frameworkBypass x.route coalesceOverride
      x.cacheEnabled x.coalesceEnabled)
    x.coalesceOnly

/-- The verdict on the response under those flags. -/
def verdict (x : Exchange) (coalesceOverride : Bool) : Shareability :=
  evaluateResponse x.res x.route x.keyHeaders
    (x.reuse coalesceOverride).transientOnly coalesceOverride

/-- Storing was allowed by the request and granted by the response. -/
def persists (x : Exchange) (coalesceOverride : Bool) : Bool :=
  (x.reuse coalesceOverride).cacheActive &&
    !(x.reuse coalesceOverride).transientOnly &&
      (x.verdict coalesceOverride).stored

/-- The request may be stored for, cookies and overrides aside. -/
structure StorableRequest (x : Exchange) : Prop where
  noBypass : x.frameworkBypass = none
  safe : x.req.isSafeMethod = true
  noAuthorization : x.req.hasAuthorization = false
  enabled : x.cacheEnabled = true
  storable : x.class'.storableInPrinciple = true
  noPrefetch : x.coalesceOnly = false

/-- The response may be stored, directives and overrides aside. -/
structure StorableResponse (x : Exchange) : Prop where
  admitted : absoluteRefusal x.res x.keyHeaders = none
  lasting : ∃ ttl, effectiveTtl x.route x.res.directives = some ttl ∧ ttl ≠ 0

variable {x : Exchange} {coalesceOverride : Bool}

theorem cookie_iff :
    (x.req.hasCookies && !overridesOrigin x.route && !coalesceOverride) =
        false ↔
      (x.req.hasCookies = true →
        overridesOrigin x.route = true ∨ coalesceOverride = true) := by
  cases x.req.hasCookies <;> cases overridesOrigin x.route <;>
    cases coalesceOverride <;> simp

/-- A request that may be stored for is held back by its cookies alone. -/
theorem evaluateRequest_of_storable (hreq : x.StorableRequest) :
    evaluateRequest x.req x.class' x.frameworkBypass x.route coalesceOverride
        x.cacheEnabled x.coalesceEnabled =
      if x.req.hasCookies && !overridesOrigin x.route && !coalesceOverride then
        .bypass .cookie
      else
        .eligible true
          (x.coalesceEnabled && x.class'.coalescibleInPrinciple) := by
  simp [evaluateRequest, hreq.noBypass, hreq.safe, hreq.noAuthorization,
    hreq.enabled, hreq.storable]

/-- Only a request that may be stored for ends up with storing allowed. -/
theorem storableRequest_of_eligible {mayCoalesce : Bool}
    (h : evaluateRequest x.req x.class' x.frameworkBypass x.route
      coalesceOverride x.cacheEnabled x.coalesceEnabled =
        .eligible true mayCoalesce)
    (hprefetch : x.coalesceOnly = false) : x.StorableRequest := by
  unfold evaluateRequest at h
  cases hbypass : x.frameworkBypass with
  | some reason => simp [hbypass] at h
  | none =>
      rw [hbypass] at h
      split_ifs at h with hsafe hauth
      injection h with hstore _
      rw [Bool.and_eq_true] at hstore
      exact ⟨hbypass, by simpa using hsafe, by simpa using hauth, hstore.1,
        hstore.2, hprefetch⟩

theorem mayStore_ofDisposition_iff {disposition : Disposition}
    {coalesceOnly : Bool} :
    (Reuse.ofDisposition disposition coalesceOnly).cacheActive = true ∧
        (Reuse.ofDisposition disposition coalesceOnly).transientOnly = false ↔
      coalesceOnly = false ∧
        ∃ mayCoalesce, disposition = .eligible true mayCoalesce := by
  cases disposition with
  | bypass reason => simp [Reuse.ofDisposition]
  | eligible mayStore mayCoalesce =>
      cases coalesceOnly <;> cases mayStore <;> simp [Reuse.ofDisposition]

/-- Storing is allowed for a storable request that no cookie holds back. -/
theorem mayStore_reuse_iff :
    (x.reuse coalesceOverride).cacheActive = true ∧
        (x.reuse coalesceOverride).transientOnly = false ↔
      x.StorableRequest ∧
      (x.req.hasCookies = true →
        overridesOrigin x.route = true ∨ coalesceOverride = true) := by
  rw [reuse, mayStore_ofDisposition_iff, ← cookie_iff]
  constructor
  · rintro ⟨hprefetch, mayCoalesce, heligible⟩
    have hreq := storableRequest_of_eligible heligible hprefetch
    refine ⟨hreq, ?_⟩
    rw [evaluateRequest_of_storable hreq] at heligible
    split at heligible
    next => cases heligible
    next hcookie => simpa using hcookie
  · rintro ⟨hreq, hcookie⟩
    refine ⟨hreq.noPrefetch,
      x.coalesceEnabled && x.class'.coalescibleInPrinciple, ?_⟩
    rw [evaluateRequest_of_storable hreq, hcookie]
    rfl

/-- What the composition persists: a storable request and response, cookies and
refusals included only under an override. -/
theorem persists_iff :
    x.persists coalesceOverride = true ↔
      x.StorableRequest ∧ x.StorableResponse ∧
      (x.req.hasCookies = true →
        overridesOrigin x.route = true ∨ coalesceOverride = true) ∧
      directiveRefusal x.res.directives x.route coalesceOverride = none := by
  rw [persists, Bool.and_eq_true, Bool.and_eq_true, Bool.not_eq_true',
    mayStore_reuse_iff, verdict, evaluateResponse_stored_iff]
  constructor
  · rintro ⟨⟨hreq, hcookie⟩, habsolute, hdirective, _, hlasting⟩
    exact ⟨hreq, ⟨habsolute, hlasting⟩, hcookie, hdirective⟩
  · rintro ⟨hreq, hres, hcookie, hdirective⟩
    have hstore := mayStore_reuse_iff.mpr ⟨hreq, hcookie⟩
    exact ⟨⟨hreq, hcookie⟩, hres.admitted, hdirective, hstore.2, hres.lasting⟩

/-- The coalescing override enlarges what is persisted exactly on exchanges
that could be stored but for a cookie on the request or a refusal in the
response, on a route that does not override the origin for its cache. -/
theorem persists_override_imp_iff (x : Exchange) :
    (x.persists true = true → x.persists false = true) ↔
      (x.StorableRequest → x.StorableResponse →
        overridesOrigin x.route = true ∨
        (x.req.hasCookies = false ∧ x.res.directives.refusal = none)) := by
  rw [persists_iff, persists_iff, directiveRefusal_eq_none_iff,
    directiveRefusal_eq_none_iff]
  cases overridesOrigin x.route with
  | true => simp
  | false =>
      constructor
      · intro h hreq hres
        obtain ⟨_, _, hcookie, hdirective⟩ := h ⟨hreq, hres, by simp, by simp⟩
        exact Or.inr ⟨by simpa using hcookie, by simpa using hdirective⟩
      · rintro h ⟨hreq, hres, _, _⟩
        obtain hroute | ⟨hcookie, hdirective⟩ := h hreq hres
        · cases hroute
        · exact ⟨hreq, hres, by simp [hcookie], Or.inl hdirective⟩

/-- A response the origin refuses to have stored, on a route that only asks to
coalesce. -/
theorem persists_override_no_store :
    let x : Exchange :=
      { req := ⟨.get, "a.example".toList, "/".toList, none, []⟩
        class' := .publicDocument
        frameworkBypass := none
        coalesceOnly := false
        route := none
        cacheEnabled := true
        coalesceEnabled := true
        keyHeaders := []
        res := ⟨200, some "no-store, max-age=60".toList, false, none⟩ }
    ¬(x.persists true = true → x.persists false = true) := by
  decide

end Exchange

end Harmost.Proxy
