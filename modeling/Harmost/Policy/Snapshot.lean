import Harmost.Classifier
import Harmost.Config.Schema

/-!
# Route matching and the policy snapshot

A snapshot is the configuration with every route's matcher compiled.  Path
patterns are compiled by an outside glob library; a compiled pattern is known
here only by the paths it accepts, and the compiler itself is a parameter.
-/

namespace Harmost.Policy

open Harmost.Support
open Harmost.Http
open Harmost.Classifier
open Harmost.Config

/-- A compiled path pattern: which paths does it accept? -/
structure GlobMatcher where
  isMatch : Str → Bool

/-- Compile a path pattern, or say why it is no pattern. -/
abbrev GlobCompiler := Str → Except Str GlobMatcher

structure MatcherError where
  route : Str
  message : Str
  deriving DecidableEq, Repr

/-- An extension method in a configuration file is a typo, not an extension. -/
def isKnownMethod : Method → Bool
  | .extension _ => false
  | _ => true

structure CompiledMatcher where
  host : Option Str
  path : GlobMatcher
  methods : Option (List Method)

namespace CompiledMatcher

/-- Parse the method list, stopping at the first name that is no method. -/
def compileMethods (routeId : Str) :
    List Str → Except MatcherError (List Method)
  | [] => .ok []
  | m :: rest =>
      match (Method.parse m).filter isKnownMethod with
      | none =>
          .error ⟨routeId, "`".toList ++ m ++
            "` is not a valid HTTP method".toList⟩
      | some method => (compileMethods routeId rest).map (method :: ·)

/-- Check the pattern, then the methods, and fold the host. -/
def compileParts (globNew : GlobCompiler) (routeId : Str) (host : Option Str)
    (path : Str) (methods : Option (List Str)) :
    Except MatcherError CompiledMatcher :=
  match globNew path with
  | .error e =>
      .error ⟨routeId, "path pattern `".toList ++ path ++
        "` is not a valid glob: ".toList ++ e⟩
  | .ok glob =>
      match methods with
      | none => .ok ⟨host.map toAsciiLowercase, glob, none⟩
      | some list =>
          (compileMethods routeId list).map fun methods =>
            ⟨host.map toAsciiLowercase, glob, some methods⟩

def compile (globNew : GlobCompiler) (routeId : Str) :
    Matcher → Except MatcherError CompiledMatcher
  | .path p => compileParts globNew routeId none p none
  | .detailed host path methods =>
      compileParts globNew routeId host path methods

/-- Does the route name this host, or name none? -/
def hostMatches (matcher : CompiledMatcher) (host : Str) : Bool :=
  matcher.host.all fun want => eqIgnoreAsciiCase host want

def pathMatches (matcher : CompiledMatcher) (path : Str) (method : Method) :
    Bool :=
  matcher.methods.all (fun allowed => allowed.contains method) &&
    matcher.path.isMatch path

/-- Host, then method, then path. -/
def matches' (matcher : CompiledMatcher) (host path : Str)
    (method : Method) : Bool :=
  matcher.hostMatches host && matcher.pathMatches path method

end CompiledMatcher

structure ResolvedRoute where
  id : Str
  matcher : CompiledMatcher
  config : Route

/-- A route's declared class, if it overrides what the classifier inferred. -/
def ResolvedRoute.declaredClass (route : ResolvedRoute) :
    Option RequestClass :=
  route.config.class?.map fun
    | .static => .static
    | .publicSsr => .publicDocument
    | .publicDynamic => .publicDynamic
    | .privateDynamic => .privateDynamic
    | .streaming => .streaming

structure PolicySnapshot where
  routes : List ResolvedRoute
  config : Config

namespace PolicySnapshot

def resolveRoute (globNew : GlobCompiler) (r : Route) :
    Except MatcherError ResolvedRoute :=
  (CompiledMatcher.compile globNew r.id r.matcher).map fun matcher =>
    ⟨r.id, matcher, r⟩

def build (globNew : GlobCompiler) (config : Config) :
    Except MatcherError PolicySnapshot :=
  (config.routes.mapM (resolveRoute globNew)).map fun routes =>
    ⟨routes, config⟩

/-- First match in file order wins. -/
def resolve (snapshot : PolicySnapshot) (host path : Str) (method : Method) :
    Option ResolvedRoute :=
  snapshot.routes.find? fun r => r.matcher.matches' host path method

/-- The coalescing wait.  Absent configuration tracks the origin timeout. -/
def coalesceWait (snapshot : PolicySnapshot) : Duration :=
  snapshot.config.coalesceWaitTimeout.getD snapshot.config.originTimeout

end PolicySnapshot

end Harmost.Policy
