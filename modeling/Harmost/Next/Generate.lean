import Harmost.Next.Policy

/-!
# The generated route list

`generateConfig` writes one route for everything the build lists, in a fixed
order: build output, images, data payloads, prerendered routes, route handlers,
pages, and a route for all the rest.  The first route that matches a path
decides how it is treated, so the order is part of the meaning.
-/

namespace Harmost.Next

open Harmost.Support
open Harmost.Config

inductive Rollout where
  | observe
  | protect
  | coalesce
  | cache
  deriving DecidableEq, Repr

/-- The options that reach the route list. -/
structure Options where
  staleIfError : Str := "1m".toList
  upstreams : List Str := []
  /-- `resolveCapacity(options).concurrency`. -/
  concurrency : ℕ := 200
  policy : Option PolicyInput := none
  rollout : Rollout := .cache

namespace Options

variable (options : Options)

def imageUsesPriority : Bool :=
  options.upstreams.isEmpty || decide (1 < options.concurrency)

def imageWeight : ℕ :=
  if options.upstreams.isEmpty then 4
  else min 4 (max 1 (options.concurrency - 1))

end Options

/-! ## Routes as they are written -/

structure GeneratedCache where
  enabled : Option Bool := none
  overrideOrigin : Bool := false
  ttlMax : Option Str := none
  staleIfError : Option Str := none
  /-- The keys of `query`, whose mode is always `include`. -/
  queryKeys : Option (List Str) := none
  varyHeaders : Option (List Str) := none

structure GeneratedCoalesce where
  enabled : Bool
  overrideOrigin : Bool := false

/-- A route without its id, and the text its id is made from. -/
structure Draft where
  label : Str
  /-- The path pattern. -/
  path : Str
  methods : Option (List Str) := none
  weight : Option ℕ := none
  priority : Option Priority := none
  routeClass : ClassOverride
  cache : Option GeneratedCache := none
  coalesce : Option GeneratedCoalesce := none

structure GeneratedRoute extends Draft where
  id : Str

/-! ## Route ids -/

/-- `[[...slug]]`, `[...slug]` and `[slug]` are named after their parameter:
`/\[\[?\.{0,3}([^\]]*?)\]?\]/g` becomes its group. -/
def idParamPattern : Rewrite Char
  | '[' :: s =>
      let inner := if "[".toList.isPrefixOf s then s.drop 1 else s
      let dots := (inner.take 3).takeWhile (· == '.')
      let body := inner.drop dots.length
      let name := body.takeWhile (· != ']')
      let closing := (body.drop name.length).take 2
      let used := s.length - body.length + name.length + 1
      if closing = "]]".toList then some (used + 2, name)
      else if closing.head? = some ']' then some (used + 1, name)
      else none
  | _ => none

/-- A run of other characters becomes one dash. -/
def idDashPattern : Rewrite Char := fun s =>
  let other := s.takeWhile fun c => !c.isAlphanum
  if other.isEmpty then none else some (other.length, "-".toList)

/-- The readable part of a route id. -/
def routeIdBase (page : Str) : Str :=
  let words := replaceAll idDashPattern (replaceAll idParamPattern page)
  let id := toAsciiLowercase (trimMatches (· == '-') words)
  if id.isEmpty then "root".toList else id

/-- The first of `base`, `base-2`, `base-3`, … that is not taken. -/
def routeId (page : Str) (taken : List Str) : Str :=
  let base := routeIdBase page
  let candidates := base :: (List.range taken.length).map fun n =>
    base ++ "-".toList ++ (toString (n + 2)).toList
  (candidates.find? fun id => !taken.contains id).getD base

/-- Give every route its id, in file order. -/
def assignIds (taken : List Str) : List Draft → List GeneratedRoute
  | [] => []
  | draft :: rest =>
      let id := routeId draft.label taken
      { draft with id := id } :: assignIds (id :: taken) rest

/-! ## What a route is written for -/

inductive Source where
  /-- `/_next/static`. -/
  | buildOutput
  /-- `/_next/image`. -/
  | image
  /-- The data payload of a page of the Pages Router. -/
  | data (page : Str)
  | prerendered (route : Str)
  | handler (route : Str)
  | page (page : Str)
  /-- Anything not named above. -/
  | rest
  deriving DecidableEq, Repr

/-- Everything a route is written for, in file order. -/
def sources (js : Runtime) (build : Build) : List Source :=
  [.buildOutput, .image] ++ (build.dataPages js).map .data ++
    (build.prerenderedRoutes js).map .prerendered ++
    (build.handlers js).map .handler ++ (build.pages js).map .page ++ [.rest]

/-- The path pattern of a route, behind the base path. -/
def Source.suffix (build : Build) : Source → Str
  | .buildOutput => "/_next/static/**".toList
  | .image => "/_next/image".toList
  | .data name =>
      "/_next/data/".toList ++ build.buildId ++
        toGlob (if name = "/".toList then "/index".toList else name) ++
        ".json".toList
  | .prerendered name => name
  | .handler name => toGlob name
  | .page name => toGlob name
  | .rest => "/**".toList

def Source.glob (build : Build) (source : Source) : Str :=
  build.basePath ++ source.suffix build

/-! ## Writing a route -/

/-- What the policy asserts about a page of the build. -/
def Policy.assertion (policy : Policy) (page : Str) :
    Except Str (Option Assertion) :=
  (normalizeRouteName page).map fun name => policy.routes.lookup name

/-- The settings of a private route. -/
def privateCache : GeneratedCache where
  enabled := some false

/-- `emitAssertion`: a route is public exactly when the policy says so. -/
def emitAssertion (label path : Str) (rollout : Rollout) :
    Option Assertion → Draft
  | none =>
      { label := label, path := path, routeClass := .privateDynamic
        cache := some privateCache }
  | some assertion =>
      match assertion.privacy with
      | .privateRoute =>
          { label := label, path := path, methods := assertion.methods
            weight := assertion.weight, priority := assertion.priority
            routeClass := .privateDynamic, cache := some privateCache }
      | .publicRoute =>
          let coalesces :=
            rollout != .protect && assertion.coalesce.getD true
          { label := label, path := path, methods := assertion.methods
            weight := assertion.weight, priority := assertion.priority
            routeClass := .publicSsr
            cache := some
              { overrideOrigin := true
                ttlMax := assertion.cache.bind AssertionCache.ttl
                staleIfError :=
                  assertion.cache.bind AssertionCache.staleIfError
                queryKeys := assertion.cache.bind AssertionCache.query
                varyHeaders := assertion.cache.bind AssertionCache.vary }
            coalesce := some
              { enabled := coalesces
                overrideOrigin := rollout == .coalesce && coalesces } }

/-- The lifetime of a prerendered route. -/
def prerenderTtl (build : Build) (route : Str) : Str :=
  match (build.prerendered.lookup route).join with
  | some revalidate =>
      if revalidate.positive then revalidate.text ++ "s".toList
      else "1h".toList
  | none => "1h".toList

/-- The route `generateConfig` writes for a source. -/
def emit (build : Build) (options : Options) (policy : Policy)
    (source : Source) : Except Str Draft :=
  let path := source.glob build
  match source with
  | .buildOutput =>
      .ok { label := "next-static".toList, path := path, routeClass := .static }
  | .image =>
      .ok
        { label := "next-image".toList, path := path
          priority := if options.imageUsesPriority then some .low else none
          weight := some options.imageWeight
          routeClass := .publicDynamic
          cache := some
            { ttlMax := some "1h".toList
              queryKeys := some ["url".toList, "w".toList, "q".toList]
              varyHeaders := some ["Accept".toList] } }
  | .data page =>
      (policy.assertion page).map
        (emitAssertion ("data".toList ++ page) path options.rollout)
  | .prerendered route =>
      .ok
        { label := "page".toList ++ route, path := path
          routeClass := .publicSsr
          cache := some
            { overrideOrigin := true
              ttlMax := some (prerenderTtl build route)
              staleIfError := some options.staleIfError }
          coalesce := some
            { enabled := options.rollout == .coalesce ||
                options.rollout == .cache } }
  | .handler route =>
      (policy.assertion route).map fun assertion =>
        { label := "api".toList ++ route, path := path
          methods := assertion.bind Assertion.methods
          weight := assertion.bind Assertion.weight
          priority := assertion.bind Assertion.priority
          routeClass := .privateDynamic, cache := some privateCache }
  | .page page =>
      (policy.assertion page).map
        (emitAssertion ("page".toList ++ page) path options.rollout)
  | .rest =>
      .ok
        { label := "default".toList, path := path
          routeClass := .privateDynamic, cache := some privateCache }

def emitAll (build : Build) (options : Options) (policy : Policy) :
    List Source → Except Str (List Draft)
  | [] => .ok []
  | source :: rest =>
      (emit build options policy source).bind fun draft =>
        (emitAll build options policy rest).map (draft :: ·)

/-- The policy a configuration is generated under. -/
def effectivePolicy (js : Runtime) (build : Build) :
    Option PolicyInput → Except Str Policy
  | none => .ok {}
  | some input => validatePolicy js "harmost.next.yaml".toList input build

/-- The `routes` section of `generateConfig`. -/
def generateConfig (js : Runtime) (build : Build) (options : Options) :
    Except Str (List GeneratedRoute) :=
  (effectivePolicy js build options.policy).bind fun policy =>
    (emitAll build options policy (sources js build)).map (assignIds [])

end Harmost.Next
