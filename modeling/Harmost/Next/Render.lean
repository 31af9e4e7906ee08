import Harmost.Next.Acceptance
import Harmost.Next.Yaml

/-!
# The text of a generated configuration

`generateConfig` writes its file line by line.  The lines of comments and the
lines of content are modelled as they are written, from the build and the
options that reach them.
-/

namespace Harmost.Next

open Harmost.Support
open Harmost.Config

/-! ## What is written -/

/-- A build with what only the text of the configuration shows. -/
structure AssembledBuild extends Build where
  identity : Option Str := none
  fingerprint : Option Str := none
  /-- `manifestVersions.routes`. -/
  routesVersion : ℕ
  /-- `manifestVersions.prerender`. -/
  prerenderVersion : Option ℕ := none

structure RoutesManifest where
  version : ℕ
  deploymentId : Option Str := none
  basePath : Option Str := none
  staticRoutes : List Str := []
  dynamicRoutes : List Str := []

structure PrerenderManifest where
  version : ℕ
  routes : AssocMap Str (Option JsNumber) := ∅

/-- Assemble the shape the generator consumes.  Its fingerprint is a digest of
everything else. -/
def assemble (digest : AssembledBuild → Str) (buildId : Str)
    (routes : RoutesManifest) (prerender : Option PrerenderManifest)
    (appPaths : Option (AssocMap Str Str)) (pagesManifest : Option (List Str)) :
    Except Str AssembledBuild :=
  if buildId.isEmpty then
    .error "BUILD_ID is empty; that cannot identify a deployment".toList
  else
    let build : AssembledBuild :=
      { buildId := buildId
        identity := some (match routes.deploymentId with
          | none => buildId
          | some id => if id.isEmpty then buildId else id)
        basePath := routes.basePath.getD []
        staticRoutes := routes.staticRoutes
        dynamicRoutes := routes.dynamicRoutes
        prerendered := (prerender.map PrerenderManifest.routes).getD ∅
        appPaths := appPaths.getD ∅
        pagePaths := (pagesManifest.getD []).filter fun name =>
          !Build.isInternal name &&
            !(["/404".toList, "/500".toList].contains name)
        routesVersion := routes.version
        prerenderVersion := prerender.map PrerenderManifest.version }
    .ok { build with fingerprint := some (digest build) }

/-- The options of `generateConfig`.  The concurrency is resolved from
`capacity`. -/
structure TextOptions extends Options where
  includeDeployment : Bool := true
  lowPriorityPercent : ℕ := 30
  capacity : CapacityOptions := {}
  /-- The `fingerprint` of the policy. -/
  policyFingerprint : Option Str := none

/-- The parts of the file that routes are grouped in. -/
inductive Section where
  | buildOutput
  | image
  | data
  | prerendered
  | handlers
  | pages
  | rest
  deriving DecidableEq, Repr

def Source.section : Source → Section
  | .buildOutput => .buildOutput
  | .image => .image
  | .data _ => .data
  | .prerendered _ => .prerendered
  | .handler _ => .handlers
  | .page _ => .pages
  | .rest => .rest

/-- In file order. -/
def Section.all : List Section :=
  [.buildOutput, .image, .data, .prerendered, .handlers, .pages, .rest]

/-- Everything that is written. -/
structure Configuration where
  buildId : Str
  identity : Str
  fingerprint : Str
  policyFingerprint : Str
  routesVersion : ℕ
  prerenderVersion : Option ℕ
  rollout : Rollout
  includeDeployment : Bool
  upstreams : List Str
  capacity : Capacity
  /-- The share of the low tier, if it is written. -/
  lowPriority : Option ℕ
  routes : List (Section × GeneratedRoute)

/-- `policyFingerprint`, with the digest of a policy that has none. -/
def policyFingerprint (digest : PolicyInput → Str) (policy : Option PolicyInput)
    (fingerprint : Option Str) : Str :=
  match policy with
  | none => "none".toList
  | some policy => fingerprint.getD (digest policy)

def configure (js : Runtime) (digest : PolicyInput → Str)
    (build : AssembledBuild) (options : TextOptions) :
    Except Str Configuration :=
  (resolveCapacity options.capacity).bind fun capacity =>
    let resolved :=
      { options.toOptions with concurrency := capacity.concurrency }
    (generateConfig js build.toBuild resolved).map fun routes =>
      { buildId := build.buildId
        identity := build.identity.getD build.buildId
        fingerprint := build.fingerprint.getD "unavailable".toList
        policyFingerprint :=
          policyFingerprint digest options.policy options.policyFingerprint
        routesVersion := build.routesVersion
        prerenderVersion := build.prerenderVersion
        rollout := options.rollout
        includeDeployment := options.includeDeployment
        upstreams := options.upstreams
        capacity := capacity
        lowPriority :=
          if resolved.imageUsesPriority then
            some (resolved.effectiveLowPriorityPercent
              options.lowPriorityPercent)
          else none
        routes := ((sources js build.toBuild).map Source.section).zip routes }

/-! ## Routes -/

def boolText (b : Bool) : Str :=
  if b then "true".toList else "false".toList

def classText : ClassOverride → Str
  | .static => "static".toList
  | .publicSsr => "public_ssr".toList
  | .publicDynamic => "public_dynamic".toList
  | .privateDynamic => "private_dynamic".toList
  | .streaming => "streaming".toList

/-- A field that is written if it has a value. -/
def optionalField (indent : ℕ) (key : Str) : Option Str → List Str
  | none => []
  | some value => [field indent key value]

def emitMatch (path : Str) : Option (List Str) → List Str
  | none => [field 4 "match".toList (quote path)]
  | some methods =>
      [heading 4 "match".toList, field 6 "path".toList (quote path),
        field 6 "methods".toList (inlineList methods)]

/-- The line of `override_origin`, which is only written when it is set. -/
def overrideLine (overrideOrigin : Bool) : List Str :=
  if overrideOrigin then
    [field 6 "override_origin".toList "true".toList]
  else []

def ttlLines : Option Str → List Str
  | none => []
  | some ttl => [heading 6 "ttl".toList, field 8 "max".toList ttl]

def queryLines : Option (List Str) → List Str
  | none => []
  | some keys =>
      [heading 6 "query".toList, field 8 "mode".toList "include".toList,
        field 8 "keys".toList (inlineList keys)]

def varyLines : Option (List Str) → List Str
  | none => []
  | some headers =>
      [heading 6 "vary".toList, field 8 "headers".toList (inlineList headers)]

def cacheLines : Option GeneratedCache → List Str
  | none => []
  | some cache =>
      heading 4 "cache".toList ::
        (optionalField 6 "enabled".toList (cache.enabled.map boolText) ++
          overrideLine cache.overrideOrigin ++ ttlLines cache.ttlMax ++
          optionalField 6 "stale_if_error".toList cache.staleIfError ++
          queryLines cache.queryKeys ++ varyLines cache.varyHeaders)

def coalesceLines : Option GeneratedCoalesce → List Str
  | none => []
  | some coalesce =>
      heading 4 "coalesce".toList ::
        (field 6 "enabled".toList (boolText coalesce.enabled) ::
          overrideLine coalesce.overrideOrigin)

/-- Class, weight and priority.  The image route has them in another order. -/
def settingLines (part : Section) (draft : Draft) : List Str :=
  let class_ := [field 4 "class".toList (classText draft.routeClass)]
  let weight := optionalField 4 "weight".toList (draft.weight.map decimal)
  let priority :=
    optionalField 4 "priority".toList (draft.priority.map Priority.name)
  if part = .image then class_ ++ priority ++ weight
  else weight ++ priority ++ class_

def routeLines (entry : Section × GeneratedRoute) : List Str :=
  (List.replicate 2 ' ' ++ '-' :: ' ' ::
      ("id".toList ++ ':' :: ' ' :: quote entry.2.id)) ::
    (emitMatch entry.2.path entry.2.methods ++
      settingLines entry.1 entry.2.toDraft ++ cacheLines entry.2.cache ++
      coalesceLines entry.2.coalesce)

/-- The comment above a part of the route list. -/
def Section.comment : Section → Str
  | .buildOutput =>
      ("Fingerprinted build output. Immutable, and serving it is not " ++
        "rendering.").toList
  | .image =>
      ("The image optimiser. `vary: [Accept]` is load-bearing: Next " ++
        "negotiates the\noutput format on Accept and answers `Vary: Accept`, " ++
        "so without it in the\nkey Harmost refuses to store anything and " ++
        "this route gets a 0% hit rate.\n`priority: low` and `weight` keep " ++
        "image transforms — several hundred\nmilliseconds of origin CPU each " ++
        "— from starving page renders.").toList
  | .data =>
      ("Pages Router data payloads. They use a different URL from the " ++
        "document\nand inherit the document route's explicit privacy " ++
        "decision.").toList
  | .prerendered =>
      ("Prerendered routes. Next generated one response for everybody, " ++
        "which is\nwhat makes `override_origin` correct here rather than a " ++
        "guess: the build\nis the evidence.").toList
  | .handlers =>
      ("App Router route handlers. Generated private: a handler is code, " ++
        "and\nnothing in the build says what it reads.").toList
  | .pages =>
      ("Dynamically rendered pages. Private by default — the build does not " ++
        "say\nwhether these read cookies or headers. Approve public routes " ++
        "by their\nNext.js names in a checked-in `harmost.next.yaml`, then " ++
        "regenerate:\n\n    routes:\n      /products/[slug]:\n        " ++
        "privacy: public\n        cache:\n          ttl: 2s\n\n" ++
        "A dynamically rendered Next route answers `no-store`, so the " ++
        "override is\nrequired or nothing here is ever cached or collapsed. " ++
        "Do not edit this\ngenerated file directly.").toList
  | .rest =>
      ("Anything not named above. Private, so a route added to the app " ++
        "after this\nfile was generated is safe rather than shared.").toList

/-- The routes of a part, under its comment. -/
def sectionLines (routes : List (Section × GeneratedRoute)) (part : Section) :
    List Str :=
  let entries := routes.filter fun entry => entry.1 = part
  if entries.isEmpty then []
  else [] :: (Next.comment part.comment 2 ++ entries.flatMap routeLines)

namespace Configuration

variable (c : Configuration)

/-! ## Blocks -/

/-- The lines of the comment at the top: a text and the value behind it. -/
def headerParts : List (Str × Str) :=
  [("Generated by @harmost/next from a Next.js build. Do not edit by hand:"
      |>.toList, []),
    ("regenerate after each build so `deployment.id` and the route list stay in"
      |>.toList, []),
    ("step with what is actually deployed.".toList, []),
    ([], []),
    ("Next build id:      ".toList, c.buildId),
    ("Deployment identity: ".toList, c.identity),
    ("Build fingerprint:  ".toList, c.fingerprint),
    ("Policy fingerprint: ".toList, c.policyFingerprint),
    ("routes-manifest:    v".toList, decimal c.routesVersion),
    ("prerender-manifest: ".toList,
      match c.prerenderVersion with
      | none => "absent".toList
      | some version => 'v' :: decimal version),
    ([], []),
    ("Every route the build does not PROVE is shareable is generated as"
      |>.toList, []),
    ("`private_dynamic`. Prerendered routes are proof — Next produced one"
      |>.toList, []),
    ("response for everybody. Dynamically rendered routes are not, because they"
      |>.toList, []),
    ("may read cookies or headers. Public dynamic routes require an explicit"
      |>.toList, []),
    ("operator assertion in `harmost.next.yaml`.".toList, [])]

def headerLines : List Str :=
  comment (join '\n' (c.headerParts.map fun part => part.1 ++ part.2)) 0

def rolloutText : Rollout → Str
  | .observe => "observe".toList
  | .protect => "protect".toList
  | .coalesce => "coalesce".toList
  | .cache => "cache".toList

/-- The stages before caching switch it off. -/
def rolloutLines : List Str :=
  if c.rollout = .protect ∨ c.rollout = .coalesce then
    [] :: (comment ("Rollout stage: ".toList ++ rolloutText c.rollout ++
        ". Response caching remains globally disabled.".toList) 0 ++
      [heading 0 "cache".toList, field 2 "enabled".toList "false".toList,
        heading 0 "coalesce".toList,
        field 2 "enabled".toList (boolText (c.rollout = .coalesce))])
  else []

def deploymentComment : Str :=
  ("The build id. It is part of every cache key, so a new build is never\n" ++
    "served the previous build's entries — and a SIGHUP that changes it\n" ++
    "purges them.").toList

def deploymentLines : List Str :=
  if c.includeDeployment then
    [] :: (comment deploymentComment 0 ++
      [heading 0 "deployment".toList, field 2 "id".toList (quote c.identity)])
  else []

def originComment : Str :=
  ("Where the Next.js servers are. `concurrency.max` is the one number here\n" ++
    "that has to come from your own measurement: it is the ceiling on how\n" ++
    "much work the origin is asked to do at once, and the right value is a\n" ++
    "property of your renders and your hardware, not of your framework.\n" ++
    "\n" ++
    "`priorities.low` reserves the rest of that ceiling for page renders, so\n" ++
    "a burst of image transforms cannot starve them.").toList

def priorityLines : Option ℕ → List Str
  | none => []
  | some low =>
      [heading 2 "priorities".toList, field 4 "low".toList (decimal low)]

def originLines : List Str :=
  if c.upstreams.isEmpty then []
  else
    [] :: (comment originComment 0 ++
      heading 0 "origin".toList ::
        ([field 2 "upstreams".toList (inlineList c.upstreams),
          heading 2 "concurrency".toList,
          field 4 "max".toList (decimal c.capacity.concurrency)] ++
          priorityLines c.lowPriority))

def groupComment : Str :=
  ("Static replica partition. Each Harmost process enforces the local\n" ++
    "origin ceiling above; their declared sum cannot exceed this group\n" ++
    "budget. Keep the orchestrator at or below `replicas`.").toList

def groupLines : List Str :=
  match c.capacity.group with
  | none => []
  | some (globalMax, replicas) =>
      [] :: (comment groupComment 0 ++
        [heading 0 "capacity".toList,
          field 2 "global_max".toList (decimal globalMax),
          field 2 "replicas".toList (decimal replicas)])

def modeText (rollout : Rollout) : Str :=
  if rollout = .observe then "observe".toList else "protect".toList

/-- Everything below the comment at the top. -/
def bodyLines : List Str :=
  field 0 "version".toList "1".toList ::
    (field 0 "mode".toList (modeText c.rollout) ::
      (c.rolloutLines ++ c.deploymentLines ++ c.originLines ++ c.groupLines ++
        [] :: heading 0 "routes".toList ::
          Section.all.flatMap (sectionLines c.routes)))

/-- The text of the file. -/
def text : Str :=
  linesText (c.headerLines ++ c.bodyLines)

end Configuration

end Harmost.Next
