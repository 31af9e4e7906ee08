import Harmost.Support.Text

/-!
# Route configuration

The part of the configuration schema that decides how a route is keyed and
whether its responses are shared.  Durations are counted in nanoseconds.
-/

namespace Harmost.Config

open Harmost.Support

/-- `std::time::Duration`, in nanoseconds. -/
abbrev Duration := ℕ

/-- `Duration::from_secs`. -/
def Duration.fromSecs (secs : ℕ) : Duration :=
  secs * 1000000000

/-- A count of whole milliseconds, saturating at 64 bits. -/
def millis (d : Duration) : ℕ :=
  min (d / 1000000) (2 ^ 64 - 1)

inductive QueryMode where
  /-- Only the listed keys enter the cache key. -/
  | «include»
  /-- Everything except the listed keys enters the key. -/
  | exclude
  deriving DecidableEq, Repr

structure QueryPolicy where
  mode : QueryMode
  keys : List Str

structure VaryPolicy where
  headers : List Str

structure Ttl where
  /-- Ceiling applied to whatever the origin asked for. -/
  max : Option Duration

structure RouteCache where
  enabled : Option Bool := none
  ttl : Option Ttl := none
  staleWhileRevalidate : Option Duration := none
  staleIfError : Option Duration := none
  query : Option QueryPolicy := none
  vary : Option VaryPolicy := none
  /-- Store this route's responses even when the origin says not to. -/
  overrideOrigin : Bool := false

structure RouteCoalesce where
  enabled : Option Bool := none
  /-- Collapse concurrent equivalent requests even when the origin says
  `no-store`. -/
  overrideOrigin : Bool := false

/-- What gets discarded when the cache is full. -/
inductive Eviction where
  /-- Second-chance FIFO: an entry that was read survives one pass. -/
  | clock
  /-- Strict insertion order, ignoring reads entirely. -/
  | fifo
  deriving DecidableEq, Repr

/-- The settings of the store. -/
structure CacheDefaults where
  /-- The byte budget. -/
  maxMemory : ℕ := 512 * 1024 * 1024
  eviction : Eviction := .clock
  /-- The response header that carries invalidation tags. -/
  tagHeader : Str := "x-harmost-cache-tags".toList

/-- What a route declares about the requests it matches. -/
inductive ClassOverride where
  | static
  | publicSsr
  | publicDynamic
  | privateDynamic
  | streaming
  deriving DecidableEq, Repr

/-- A bare path pattern and the expanded table form both parse. -/
inductive Matcher where
  | path (pattern : Str)
  | detailed (host : Option Str) (pattern : Str) (methods : Option (List Str))

structure Route where
  id : Str
  matcher : Matcher
  class? : Option ClassOverride := none
  cache : Option RouteCache := none
  coalesce : Option RouteCoalesce := none

inductive Mode where
  | observe
  | protect
  deriving DecidableEq, Repr

/-- Which tier's ceiling a route's requests are admitted against. -/
inductive Priority where
  | high
  | normal
  | low
  deriving DecidableEq, Repr

def Priority.name : Priority → Str
  | .high => "high".toList
  | .normal => "normal".toList
  | .low => "low".toList

/-- The share of the origin ceiling each tier may use, in percent. -/
structure Priorities where
  high : ℕ := 100
  normal : ℕ := 100
  low : ℕ := 100

def Priorities.percentFor (priorities : Priorities) : Priority → ℕ
  | .high => priorities.high
  | .normal => priorities.normal
  | .low => priorities.low

end Harmost.Config

namespace Harmost

open Harmost.Config

/-- The settings the request and response filters read. -/
structure Config where
  mode : Mode := .protect
  cacheEnabled : Bool := true
  coalesceEnabled : Bool := true
  coalesceWaitTimeout : Option Duration := none
  originTimeout : Duration := Duration.fromSecs 30
  upgradeEnabled : Bool := false
  routes : List Route := []

end Harmost
