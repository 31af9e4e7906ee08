import Harmost.Config.Schema
import Harmost.Http

/-!
# Validation of a route's reuse settings

The part of the route check that reads `cache` and `coalesce`.  Every failed
check is an error with the text the operator sees; the checks run in the order
of the source, and the first failure is reported.
-/

namespace Harmost.Config

open Harmost.Support
open Harmost.Http

/-- Reject a configuration with this message when the condition holds. -/
def reject (condition : Bool) (message : Str) : Except Str Unit :=
  if condition then .error message else .ok ()

/-- The start of every message about a route. -/
def routeLabel (id : Str) : Str :=
  "route `".toList ++ id ++ "`".toList

/-! ## The `Vary` list -/

/-- A credential, or a header with a value for every client. -/
def checkVaryName (id h : Str) : Except Str Unit :=
  let lower := toAsciiLowercase h
  if lower = "cookie".toList ∨ lower = "authorization".toList then
    .error (routeLabel id ++ ": cache.vary lists `".toList ++ h ++
      ("`; varying on a credential header creates one cache entry per user " ++
        "and is never what you want").toList)
  else if lower = "user-agent".toList ∨ lower = "*".toList then
    .error (routeLabel id ++ ": cache.vary lists `".toList ++ h ++
      "`, which has effectively unbounded cardinality".toList)
  else .ok ()

def checkVaryNames (id : Str) : List Str → Except Str Unit
  | [] => .ok ()
  | h :: rest => (checkVaryName id h).bind fun _ => checkVaryNames id rest

/-- Every name must be a header name, and no two may be one header. -/
def checkVaryDistinct (id : Str) (seen : List Str) :
    List Str → Except Str Unit
  | [] => .ok ()
  | name :: rest =>
      if !isHeaderName name then
        .error (routeLabel id ++ ": cache.vary header `".toList ++ name ++
          "` is invalid".toList)
      else if seen.contains (toAsciiLowercase name) then
        .error (routeLabel id ++ ": cache.vary repeats header `".toList ++
          name ++ "`".toList)
      else checkVaryDistinct id (toAsciiLowercase name :: seen) rest

/-! ## The settings of one route -/

def checkOverride (route : Route) (cache : RouteCache) : Except Str Unit :=
  if !cache.overrideOrigin then .ok ()
  else if route.class? = some .privateDynamic then
    .error (routeLabel route.id ++
      (" is class private_dynamic and sets cache.override_origin; " ++
        "overriding the origin on a private route is how one user's page " ++
        "reaches another").toList)
  else if route.class? = none then
    .error (routeLabel route.id ++
      (" sets cache.override_origin without declaring a class; add " ++
        "`class: public_ssr` to state that this route's responses are " ++
        "shareable").toList)
  else
    reject (cache.ttl.bind Ttl.max).isNone (routeLabel route.id ++
      (" sets cache.override_origin but no cache.ttl.max; an override with " ++
        "no ceiling has no bound on how stale a shared response can " ++
        "get").toList)

def checkCache (route : Route) (cache : RouteCache) : Except Str Unit :=
  (reject (route.class? == some .privateDynamic && cache.enabled == some true)
    (routeLabel route.id ++
      (" is class private_dynamic but sets cache.enabled: true; per-user " ++
        "responses are never response-cached").toList)).bind fun _ =>
  (checkOverride route cache).bind fun _ =>
  (checkVaryNames route.id
    ((cache.vary.map VaryPolicy.headers).getD [])).bind fun _ =>
  reject (cache.query.any fun q => q.keys.isEmpty) (routeLabel route.id ++
    ": cache.query.mode is set but cache.query.keys is empty".toList)

def checkCoalesce (route : Route) (coalesce : RouteCoalesce) :
    Except Str Unit :=
  (reject (coalesce.overrideOrigin && route.class? == some .privateDynamic)
    (routeLabel route.id ++
      (" is class private_dynamic and sets coalesce.override_origin; " ++
        "per-user responses are never shared between requests").toList)).bind
    fun _ =>
  reject (coalesce.overrideOrigin && coalesce.enabled == some false)
    (routeLabel route.id ++
      (" sets coalesce.override_origin while coalescing is " ++
        "disabled").toList)

/-- The checks of `check_route` on what a route reuses. -/
def checkRouteReuse (route : Route) : Except Str Unit :=
  ((route.cache.map (checkCache route)).getD (.ok ())).bind fun _ =>
  ((route.coalesce.map (checkCoalesce route)).getD (.ok ())).bind fun _ =>
  checkVaryDistinct route.id []
    (((route.cache.bind RouteCache.vary).map VaryPolicy.headers).getD [])

end Harmost.Config
