import Harmost.Config.Schema

/-!
# The settings of the process

The part of the configuration schema that a process and its reloads read:
listeners, the origin, health checks, the store and the exporters, beside what
the filters read.  Structures that a reload compares as a whole have all their
fields.  Sizes are counted in bytes, durations in nanoseconds.
-/

namespace Harmost.Config

open Harmost.Support

/-! ## The server -/

/-- A second listener, which terminates TLS. -/
structure ServerTls where
  listen : Str
  cert : Str
  key : Str
  h2 : Bool := true
  deriving DecidableEq

/-- Where forwarded metadata is read from. -/
inductive ForwardedSource where
  | xForwarded
  | forwarded
  /-- Believe nothing. -/
  | none
  deriving DecidableEq, Repr

/-- Who is allowed to tell about the client. -/
structure TrustedProxies where
  «from» : List Str := []
  clientIp : ForwardedSource := .xForwarded
  scheme : ForwardedSource := .xForwarded
  deriving DecidableEq

/-- Zero-downtime upgrade and drain. -/
structure Graceful where
  pidFile : Str := "/tmp/harmost.pid".toList
  upgradeSocket : Str := "/tmp/harmost-upgrade.sock".toList
  drainPeriod : Duration := Duration.fromSecs 5
  shutdownTimeout : Duration := Duration.fromSecs 10
  deriving DecidableEq

structure Server where
  listen : Str := "0.0.0.0:8080".toList
  h2c : Bool := false
  tls : Option ServerTls := none
  trustedProxies : TrustedProxies := {}
  graceful : Graceful := {}

/-! ## The origin -/

inductive LoadBalancing where
  | roundRobin
  | hashByPath
  | leastLoaded
  deriving DecidableEq, Repr

structure Queue where
  max : ℕ := 0
  timeout : Duration := 0

structure Concurrency where
  max : ℕ := 500
  queue : Queue := {}

structure OriginTls where
  sni : Str
  verifyCert : Bool := true
  verifyHostname : Bool := true
  ca : Option Str := none
  deriving DecidableEq

inductive OriginHttpVersion where
  | http1
  | http2
  | auto
  deriving DecidableEq, Repr

/-- Eject a backend that fails real traffic. -/
structure Breaker where
  enabled : Bool := false
  window : Duration := Duration.fromSecs 10
  minRequests : ℕ := 20
  failurePercent : ℕ := 50
  openFor : Duration := Duration.fromSecs 30
  maxEjectedPercent : ℕ := 50
  deriving DecidableEq

/-- Bounded retries for requests that are safe to send twice. -/
structure Retry where
  enabled : Bool := false
  /-- Total tries for one request, the first included. -/
  maxAttempts : ℕ := 2
  window : Duration := Duration.fromSecs 10
  /-- Retries allowed as a percent of the origin requests in the window. -/
  budgetPercent : ℕ := 10
  /-- Retries always allowed in a window. -/
  budgetMin : ℕ := 3
  deriving DecidableEq

structure Origin where
  upstreams : List Str
  /-- How often each upstream name is looked up again; at zero only once. -/
  resolveInterval : Duration := Duration.fromSecs 10
  loadBalancing : LoadBalancing := .roundRobin
  concurrency : Concurrency := {}
  tls : Option OriginTls := none
  httpVersion : OriginHttpVersion := .http1
  breaker : Breaker := {}
  retry : Retry := {}
  priorities : Priorities := {}

structure Health where
  path : Str
  interval : Duration
  timeout : Duration
  healthyAfter : ℕ := 1
  unhealthyAfter : ℕ := 3
  deriving DecidableEq

/-! ## The cache and the telemetry -/

inductive Store where
  | memory
  deriving DecidableEq, Repr

structure Purge where
  /-- The secret `POST /purge` requires. -/
  token : Option Str := none

/-- The settings of the store, and the others of the block. -/
structure CacheSettings extends CacheDefaults where
  enabled : Bool := true
  store : Store := .memory
  purge : Purge := {}

structure CoalesceDefaults where
  enabled : Bool := true
  waitTimeout : Option Duration := none

structure Prometheus where
  listen : Str
  deriving DecidableEq

/-- The operator-facing listener. -/
structure Admin where
  listen : Str
  requireHealthyUpstream : Bool := false
  deriving DecidableEq

/-- OTLP over HTTP, JSON encoding. -/
structure Otlp where
  endpoint : Str
  timeout : Duration := Duration.fromSecs 5
  maxQueue : ℕ := 2048
  maxBatch : ℕ := 256
  interval : Duration := Duration.fromSecs 2
  deriving DecidableEq

structure Tracing where
  serviceName : Option Str := none
  otlp : Option Otlp := none

structure Telemetry where
  prometheus : Option Prometheus := none
  admin : Option Admin := none
  tracing : Tracing := {}

/-! ## The whole file -/

structure Timeouts where
  origin : Duration := Duration.fromSecs 30

structure Spool where
  maxMemory : ℕ := 256 * 1024 * 1024

structure Upgrade where
  enabled : Bool := false
  maxConcurrent : ℕ := 100

structure Deployment where
  /-- Static build identifier, mixed into every cache key. -/
  id : Option Str := none

/-- A route, with its own ceiling. -/
structure LimitedRoute extends Route where
  concurrency : Option Concurrency := none

/-- A configuration file, as it was parsed. -/
structure Settings where
  mode : Mode := .protect
  server : Server := {}
  origin : Origin
  health : Option Health := none
  cache : CacheSettings := {}
  coalesce : CoalesceDefaults := {}
  timeouts : Timeouts := {}
  spool : Spool := {}
  upgrade : Upgrade := {}
  deployment : Deployment := {}
  routes : List LimitedRoute := []
  telemetry : Telemetry := {}

/-- What the filters read of it. -/
def Settings.toConfig (settings : Settings) : Config where
  mode := settings.mode
  cacheEnabled := settings.cache.enabled
  coalesceEnabled := settings.coalesce.enabled
  coalesceWaitTimeout := settings.coalesce.waitTimeout
  originTimeout := settings.timeouts.origin
  upgradeEnabled := settings.upgrade.enabled
  routes := settings.routes.map LimitedRoute.toRoute

/-- What the process reads only once, as it starts. -/
structure Startup where
  listen : Str
  upstreams : List Str
  loadBalancing : LoadBalancing
  health : Option Health
  prometheus : Option Prometheus
  maxMemory : ℕ
  store : Store
  eviction : Eviction
  tagHeader : Str
  purgeToken : Option Str
  originTimeout : Duration
  trustedProxies : TrustedProxies
  h2c : Bool
  tls : Option ServerTls
  originTls : Option OriginTls
  httpVersion : OriginHttpVersion
  breaker : Breaker
  retry : Retry
  spoolMaxMemory : ℕ
  graceful : Graceful
  admin : Option Admin
  otlp : Option Otlp
  serviceName : Option Str
  maxConcurrent : ℕ
  resolveInterval : Duration

def Settings.startup (settings : Settings) : Startup where
  listen := settings.server.listen
  upstreams := settings.origin.upstreams
  loadBalancing := settings.origin.loadBalancing
  health := settings.health
  prometheus := settings.telemetry.prometheus
  maxMemory := settings.cache.maxMemory
  store := settings.cache.store
  eviction := settings.cache.eviction
  tagHeader := settings.cache.tagHeader
  purgeToken := settings.cache.purge.token
  originTimeout := settings.timeouts.origin
  trustedProxies := settings.server.trustedProxies
  h2c := settings.server.h2c
  tls := settings.server.tls
  originTls := settings.origin.tls
  httpVersion := settings.origin.httpVersion
  breaker := settings.origin.breaker
  retry := settings.origin.retry
  spoolMaxMemory := settings.spool.maxMemory
  graceful := settings.server.graceful
  admin := settings.telemetry.admin
  otlp := settings.telemetry.tracing.otlp
  serviceName := settings.telemetry.tracing.serviceName
  maxConcurrent := settings.upgrade.maxConcurrent
  resolveInterval := settings.origin.resolveInterval

end Harmost.Config
