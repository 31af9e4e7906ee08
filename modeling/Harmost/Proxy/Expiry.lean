import Harmost.Cache.Directives
import Harmost.Config.Validation
import Harmost.Proxy.Refusal

/-!
# Expiry times

The filter adds a lifetime to the current time and fails when the sum is out of
range.  The lifetime may come from the origin, whose text may name any 64-bit
number of seconds; a route may cap it.
-/

namespace Harmost.Proxy

open Harmost.Support
open Harmost.Http
open Harmost.Config
open Harmost.Cache

/-- The clock can represent the end of a lifetime that starts now. -/
def Fits (now : SystemTime) (d : Duration) : Prop :=
  (now + d) / 1000000000 < 2 ^ 63

/-- The longest lifetime a text can name. -/
def longestTtl : Duration :=
  Duration.fromSecs (2 ^ 64 - 1)

theorem not_fits_longestTtl (now : SystemTime) : ¬Fits now longestTtl := by
  rw [Fits, not_lt]
  calc
    2 ^ 63 ≤ 2 ^ 64 - 1 := by decide
    _ = longestTtl / 1000000000 := rfl
    _ ≤ (now + longestTtl) / 1000000000 :=
      Nat.div_le_div_right (Nat.le_add_left _ now)

theorem longestTtl_ne_zero : longestTtl ≠ 0 := by
  decide

/-- How long an entry for the waiters stays fresh. -/
def waiterFreshness (ctx : Ctx) : Duration :=
  max ctx.policy.coalesceWait 1000000

/-- The ceiling of the route. -/
def routeMax (ctx : Ctx) : Option Duration :=
  (ctx.routeCache.bind RouteCache.ttl).bind Ttl.max

/-- The response may be shared: it is addressed to nobody in particular, and
the origin does not refuse or is overridden. -/
structure Sharable (resp : ResponseHeader) (ctx : Ctx) : Prop where
  unaddressed : Unaddressed resp.metadata ctx.keyHeaders
  permitted : ¬RefusesBetweenSpaces
      (resp.headers.getAll "cache-control".toList) ∨
    overridesOrigin ctx.routeCache = true ∨ ctx.coalesceOverride = true

/-- The lifetime of a response: the route's ceiling if it overrides the origin,
else what the origin declares, up to that ceiling. -/
def grantedTtl (resp : ResponseHeader) (ctx : Ctx) : Option Duration :=
  if overridesOrigin ctx.routeCache then routeMax ctx
  else (resp.metadata.cacheControl.bind CacheControl.declaredTtl).map
    fun declared => ((routeMax ctx).map (min declared)).getD declared

/-- The end of the lifetime that a response is given is in range. -/
def ExpiryFits (now : SystemTime) (resp : ResponseHeader) (ctx : Ctx) : Prop :=
  Sharable resp ctx →
    if ctx.reuse.transientOnly then Fits now (waiterFreshness ctx)
    else ∀ ttl, grantedTtl resp ctx = some ttl →
      Fits now (if ttl = 0 then waiterFreshness ctx else ttl)

/-! ## When the filter succeeds -/

/-- The verdict of the policy in the filter. -/
def verdictOn (resp : ResponseHeader) (ctx : Ctx) : Shareability :=
  evaluateResponse resp.metadata ctx.routeCache ctx.keyHeaders
    ctx.reuse.transientOnly ctx.coalesceOverride

theorem exists_entryUntil_iff {now : SystemTime} {d : Duration}
    {overflow : Str} {entry : SystemTime → CacheMeta} :
    (∃ out, entryUntil (SystemTime.checkedAdd now d) overflow entry =
      .ok out) ↔ Fits now d := by
  unfold SystemTime.checkedAdd
  split_ifs with h
  · exact iff_of_true ⟨_, rfl⟩ h
  · refine iff_of_false ?_ h
    rintro ⟨out, hout⟩
    cases hout

theorem exists_responseCacheFilter_iff {now : SystemTime}
    {resp : ResponseHeader} {ctx : Ctx} :
    (∃ out, responseCacheFilter now resp ctx = .ok out) ↔
      match verdictOn resp ctx with
      | .shareable ttl _ _ => Fits now ttl
      | .transientOnly => Fits now (waiterFreshness ctx)
      | .notShareable _ => True := by
  unfold responseCacheFilter verdictOn
  cases evaluateResponse resp.metadata ctx.routeCache ctx.keyHeaders
      ctx.reuse.transientOnly ctx.coalesceOverride with
  | shareable ttl swr sie => exact exists_entryUntil_iff
  | transientOnly => exact exists_entryUntil_iff
  | notShareable reason => exact iff_of_true ⟨_, rfl⟩ trivial

theorem sharable_iff {resp : ResponseHeader} {ctx : Ctx} :
    Sharable resp ctx ↔ absoluteRefusal resp.metadata ctx.keyHeaders = none ∧
      directiveRefusal resp.metadata.directives ctx.routeCache
        ctx.coalesceOverride = none := by
  rw [absoluteRefusal_eq_none_iff_unaddressed, directiveRefusal_eq_none_iff,
    ← not_ne_iff, refusal_directives_iff]
  constructor
  all_goals
    rintro ⟨hunaddressed, hpermitted⟩
    exact ⟨hunaddressed, hpermitted⟩

theorem effectiveTtl_eq_grantedTtl (resp : ResponseHeader) (ctx : Ctx) :
    effectiveTtl ctx.routeCache resp.metadata.directives =
      grantedTtl resp ctx := by
  have hshared : resp.metadata.directives.sharedTtl =
      resp.metadata.cacheControl.bind CacheControl.declaredTtl := by
    rw [ResponseMetadata.directives]
    cases resp.metadata.cacheControl with
    | none => rfl
    | some text => exact CacheControl.sharedTtl_parse text
  rw [effectiveTtl, grantedTtl, hshared, routeMax]
  split_ifs
  · rfl
  · cases resp.metadata.cacheControl.bind CacheControl.declaredTtl with
    | none => rfl
    | some declared =>
        cases (ctx.routeCache.bind RouteCache.ttl).bind Ttl.max with
        | none => rfl
        | some ceiling => rfl

/-- For every response the filter succeeds exactly when the response may not be
shared, or the lifetime it is given ends in range: the waiters', the route's
ceiling, or the one that the origin declares, up to that ceiling. -/
theorem responseCacheFilter_total_iff (now : SystemTime)
    (resp : ResponseHeader) (ctx : Ctx) :
    (∃ out, responseCacheFilter now resp ctx = .ok out) ↔
      ExpiryFits now resp ctx := by
  rw [exists_responseCacheFilter_iff, ExpiryFits, sharable_iff, verdictOn,
    evaluateResponse, ← effectiveTtl_eq_grantedTtl]
  cases absoluteRefusal resp.metadata ctx.keyHeaders with
  | some reason => simp
  | none =>
      cases directiveRefusal resp.metadata.directives ctx.routeCache
          ctx.coalesceOverride with
      | some reason => simp
      | none =>
          cases ctx.reuse.transientOnly with
          | true => simp
          | false =>
              rw [lifetimeVerdict]
              cases effectiveTtl ctx.routeCache resp.metadata.directives with
              | none => simp
              | some ttl => by_cases hzero : ttl = 0 <;> simp [hzero]

/-- The longest lifetime a line can ask for. -/
def longestLine : HeaderValue :=
  ⟨asciiBytes "max-age=18446744073709551615".toList, by decide⟩

theorem directives_longestLine :
    (bareResponse [longestLine]).metadata.directives =
      { maxAge := some (2 ^ 64 - 1) } := by
  decide +kernel

/-- A route that validation accepts and that sets no ceiling, and an origin that
asks for the longest lifetime there is: at no time does the sum fit. -/
theorem responseCacheFilter_overflows :
    let route : Route :=
      { id := "pages".toList
        matcher := .path "/*".toList
        cache := some {} }
    let ctx : Ctx :=
      { policy := ⟨[], { routes := [route] }⟩, routeCache := route.cache }
    checkRouteReuse route = .ok () ∧
      ∀ now, responseCacheFilter now (bareResponse [longestLine]) ctx =
        .error "cache TTL exceeds SystemTime range".toList := by
  intro route ctx
  have hverdict : ∃ swr sie, verdictOn (bareResponse [longestLine]) ctx =
      .shareable longestTtl swr sie := by
    have hdirective : directiveRefusal { maxAge := some (2 ^ 64 - 1) }
        ctx.routeCache ctx.coalesceOverride = none := rfl
    have heffective : effectiveTtl ctx.routeCache
        { maxAge := some (2 ^ 64 - 1) } = some longestTtl := rfl
    rw [verdictOn, evaluateResponse, absoluteRefusal_bareResponse,
      directives_longestLine, hdirective]
    refine ⟨0, 0, ?_⟩
    simp only [lifetimeVerdict, heffective, if_neg longestTtl_ne_zero]
    rfl
  obtain ⟨swr, sie, hverdict⟩ := hverdict
  refine ⟨rfl, fun now => ?_⟩
  have hover : SystemTime.checkedAdd now longestTtl = none :=
    if_neg (not_fits_longestTtl now)
  rw [verdictOn] at hverdict
  rw [responseCacheFilter, hverdict]
  exact congrArg (entryUntil · _ _) hover

end Harmost.Proxy
