import Harmost.Config.Schema
import Harmost.Http
import Harmost.Next.Build

/-!
# The operator's policy for a build

`harmost.next.yaml` names routes of a build and says of each whether it is
public.  Validation checks every field and that every name is a route of the
build; the first failed check is reported.
-/

namespace Harmost.Next

open Harmost.Support
open Harmost.Http
open Harmost.Config (Priority)

/-! ## Route names -/

/-- The escapes of `JSON.stringify` inside a string. -/
def jsonEscape (c : Char) : Str :=
  if c = '"' then "\\\"".toList
  else if c = '\\' then "\\\\".toList
  else if c.toNat = 0x08 then "\\b".toList
  else if c.toNat = 0x09 then "\\t".toList
  else if c.toNat = 0x0a then "\\n".toList
  else if c.toNat = 0x0c then "\\f".toList
  else if c.toNat = 0x0d then "\\r".toList
  else if c.toNat < 0x20 then
    let digits := Nat.toDigits 16 c.toNat
    "\\u".toList ++ List.replicate (4 - digits.length) '0' ++ digits
  else [c]

/-- `JSON.stringify` of a string. -/
def jsonString (s : Str) : Str :=
  "\"".toList ++ s.flatMap jsonEscape ++ "\"".toList

/-- Check a route name and drop its trailing slashes. -/
def normalizeRouteName (name : Str) : Except Str Str :=
  if !"/".toList.isPrefixOf name || name.contains '?' || name.contains '#' then
    .error ("policy route ".toList ++ jsonString name ++
      (" must be an absolute Next.js route name without a query or " ++
        "fragment").toList)
  else if name = "/".toList then .ok name
  else .ok (name.rdropWhile (· == '/'))

/-- Normalise every name, or report the first that is refused. -/
def normalizeAll : List Str → Except Str (List Str)
  | [] => .ok []
  | name :: rest =>
      (normalizeRouteName name).bind fun first =>
        (normalizeAll rest).map (first :: ·)

/-- The route names of a build, as policies refer to them. -/
structure RouteNames where
  pages : List Str
  handlers : List Str
  prerendered : List Str

def buildRouteNames (build : Build) : Except Str RouteNames :=
  (normalizeAll ((build.appPaths.entries.filter fun entry =>
    "/route".toList.isSuffixOf entry.1).map Sigma.snd)).bind fun handlers =>
  (normalizeAll (build.pageNames.filter fun name =>
    !name.isEmpty && !Build.isInternal name)).bind fun names =>
  (normalizeAll (build.prerendered.keys.filter fun name =>
    !Build.isInternal name)).map fun prerendered =>
      { pages := names.filter (fun name => !handlers.contains name) ++
          prerendered
        handlers := handlers
        prerendered := prerendered }

/-! ## A policy as it is written -/

structure SourceCache where
  ttl : Option Str := none
  staleIfError : Option Str := none
  query : Option (List Str) := none
  vary : Option (List Str) := none

/-- The fields of one route of a policy. -/
structure SourceRoute where
  privacy : Str
  weight : Option ℤ := none
  priority : Option Str := none
  coalesce : Option Bool := none
  methods : Option (List Str) := none
  cache : Option SourceCache := none

structure PolicyInput where
  version : ℕ := 1
  routes : AssocMap Str SourceRoute := ∅

/-! ## A policy as it is used -/

inductive Privacy where
  | publicRoute
  | privateRoute
  deriving DecidableEq, Repr

structure AssertionCache where
  ttl : Option Str
  staleIfError : Option Str
  query : Option (List Str)
  vary : Option (List Str)

/-- What a policy asserts about a route. -/
structure Assertion where
  privacy : Privacy
  weight : Option ℕ
  priority : Option Priority
  coalesce : Option Bool
  methods : Option (List Str)
  cache : Option AssertionCache

structure Policy where
  routes : AssocMap Str Assertion := ∅

/-! ## Validation -/

section Validation

variable (js : Runtime) (file : Str)

/-- `fail`, for errors that belong to no line. -/
def fail {α : Type} (message : Str) : Except Str α :=
  .error (file ++ ": ".toList ++ message)

/-- `fail` when the condition holds. -/
def failIf (condition : Bool) (message : Str) : Except Str Unit :=
  if condition then fail file message else .ok ()

/-- The start of every message about a route. -/
def routeText (name : Str) : Str :=
  "route `".toList ++ name ++ "` ".toList

def assertUnique (values : List Str) (label route : Str) : Except Str Unit :=
  if (values.map js.toLowerCase).Nodup then .ok ()
  else .error ("policy route `".toList ++ route ++ "` repeats a ".toList ++
    label)

/-- `/^(?:[1-9][0-9]*)(?:ms|s|m|h|d)$/`. -/
def isDuration (text : Str) : Bool :=
  let digits := text.takeWhile Char.isDigit
  !digits.isEmpty && digits.head? != some '0' &&
    ["ms".toList, "s".toList, "m".toList, "h".toList, "d".toList].contains
      (text.drop digits.length)

/-- A non-empty token, as the patterns for methods and header names have it. -/
def isToken (text : Str) : Bool :=
  !text.isEmpty && text.all isTokenChar

def checkPrivacy (name privacy : Str) : Except Str Privacy :=
  if privacy = "public".toList then .ok .publicRoute
  else if privacy = "private".toList then .ok .privateRoute
  else fail file (routeText name ++
    "must set privacy to `public` or `private`".toList)

def checkWeight (name : Str) : Option ℤ → Except Str (Option ℕ)
  | none => .ok none
  | some weight =>
      if weight < 1 ∨ 65535 < weight then
        fail file (routeText name ++
          "weight must be an integer from 1 to 65535".toList)
      else .ok (some weight.toNat)

def checkPriority (name : Str) : Option Str → Except Str (Option Priority)
  | none => .ok none
  | some priority =>
      if priority = "high".toList then .ok (some .high)
      else if priority = "normal".toList then .ok (some .normal)
      else if priority = "low".toList then .ok (some .low)
      else fail file (routeText name ++
        "priority must be high, normal, or low".toList)

def checkMethods (name : Str) :
    Option (List Str) → Except Str (Option (List Str))
  | none => .ok none
  | some methods =>
      let upper := methods.map js.toUpperCase
      (failIf file methods.isEmpty (routeText name ++
        "methods must be a non-empty list".toList)).bind fun _ =>
      (failIf file (upper.any fun method => !isToken method)
        (routeText name ++
          "contains an invalid HTTP method".toList)).bind fun _ =>
      (assertUnique js upper "method".toList name).map fun _ => some upper

/-- A duration of the `cache` mapping. -/
def checkDuration (name field : Str) :
    Option Str → Except Str (Option Str)
  | none => .ok none
  | some text =>
      if isDuration text then .ok (some text)
      else fail file (routeText name ++ "cache.".toList ++ field ++
        " must be a positive duration such as `2s`".toList)

/-- A list of the `cache` mapping. -/
def checkList (name field : Str) :
    Option (List Str) → Except Str (Option (List Str))
  | none => .ok none
  | some values =>
      (failIf file (values.isEmpty || values.any List.isEmpty)
        (routeText name ++ "cache.".toList ++ field ++
          " must be a non-empty string list".toList)).bind fun _ =>
      (assertUnique js values ("cache.".toList ++ field ++ " value".toList)
        name).map fun _ => some values

/-- A header that no public route may vary on. -/
def isRefusedVary (header : Str) : Bool :=
  !isToken header || ["cookie".toList, "authorization".toList,
    "user-agent".toList, "*".toList].contains (toAsciiLowercase header)

def checkCacheFields (name : Str) (cache : SourceCache) :
    Except Str AssertionCache :=
  (checkDuration file name "ttl".toList cache.ttl).bind fun ttl =>
  (checkDuration file name "stale_if_error".toList cache.staleIfError).bind
    fun staleIfError =>
  (checkList js file name "query".toList cache.query).bind fun query =>
  (checkList js file name "vary".toList cache.vary).bind fun vary =>
  (failIf file ((vary.getD []).any isRefusedVary) (routeText name ++
    ("cache.vary contains an invalid, credential, or unbounded " ++
      "header").toList)).map fun _ =>
    { ttl := ttl, staleIfError := staleIfError, query := query, vary := vary }

def checkCacheMapping (name : Str) :
    Option SourceCache → Except Str (Option AssertionCache)
  | none => .ok none
  | some cache => (checkCacheFields js file name cache).map some

/-- What privacy allows the other fields to say. -/
def checkSharing (name : Str) (route : Assertion) : Except Str Unit :=
  match route.privacy with
  | .privateRoute =>
      failIf file (route.cache.isSome || route.coalesce == some true)
        (routeText name ++
          "is private and cannot enable cache or coalescing settings".toList)
  | .publicRoute =>
      (failIf file (route.cache.bind AssertionCache.ttl).isNone
        ("public route `".toList ++ name ++
          "` must set cache.ttl".toList)).bind fun _ =>
      failIf file ((route.methods.getD []).any fun method =>
          method != "GET".toList && method != "HEAD".toList)
        ("public route `".toList ++ name ++
          "` declares an unsafe cacheable method".toList)

/-- Every name must be exactly one route of the build, and one whose privacy
the build leaves open. -/
def checkCatalog (name : Str) (route : Assertion) (catalog : RouteNames) :
    Except Str Unit :=
  let found := (if catalog.pages.contains name then 1 else 0) +
    (if catalog.handlers.contains name then 1 else 0)
  (failIf file (found != 1) (routeText name ++
    "must match exactly one build route; found ".toList ++
      (toString found).toList)).bind fun _ =>
  (failIf file (catalog.prerendered.contains name) (routeText name ++
    ("is already public because the build prerendered it; remove the " ++
      "redundant assertion").toList)).bind fun _ =>
  failIf file
    (catalog.handlers.contains name && route.privacy == .publicRoute)
    ("route handler `".toList ++ name ++
      ("` cannot be declared public because its methods and data access " ++
        "are not proven by the build").toList)

/-- One route of a policy, under its normalised name. -/
def checkSourceRoute (catalog : RouteNames) (name : Str)
    (source : SourceRoute) : Except Str Assertion :=
  (checkPrivacy file name source.privacy).bind fun privacy =>
  (checkWeight file name source.weight).bind fun weight =>
  (checkPriority file name source.priority).bind fun priority =>
  (checkMethods js file name source.methods).bind fun methods =>
  (checkCacheMapping js file name source.cache).bind fun cache =>
    let route : Assertion :=
      { privacy := privacy, weight := weight, priority := priority
        coalesce := source.coalesce, methods := methods, cache := cache }
    (checkSharing file name route).bind fun _ =>
    (checkCatalog file name route catalog).map fun _ => route

/-- The loop over the routes of a policy. -/
def checkRoutes (catalog : RouteNames) (output : AssocMap Str Assertion) :
    List (Sigma fun _ : Str => SourceRoute) →
      Except Str (AssocMap Str Assertion)
  | [] => .ok output
  | entry :: rest =>
      (normalizeRouteName entry.1).bind fun name =>
      (failIf file (decide (name ∈ output))
        ("duplicate route after normalization: `".toList ++ name ++
          "`".toList)).bind fun _ =>
      (checkSourceRoute js file catalog name entry.2).bind fun route =>
        checkRoutes catalog (output.insert name route) rest

/-- Validate a policy against a build. -/
def validatePolicy (input : PolicyInput) (build : Build) :
    Except Str Policy :=
  (failIf file (input.version != 1) ("policy schema version ".toList ++
    (toString input.version).toList ++
      " is not supported; expected 1".toList)).bind fun _ =>
  (buildRouteNames build).bind fun catalog =>
  (checkRoutes js file catalog ∅ input.routes.entries).map Policy.mk

end Validation

end Harmost.Next
