import Harmost.Admission.Controller
import Harmost.Admission.Registry
import Harmost.Cache.Store.Operations
import Harmost.Config.Settings
import Harmost.Policy.Snapshot
import Harmost.Support.Checks
import Harmost.Support.Run

/-!
# Reloads

A reload reads the configuration file again and puts it in force, or says why
the running configuration was kept.  Limiters are resized in place; what the
process has bound as it started stays as it is, and a file that changes such a
setting is refused.  How a file is read and validated is left open: a reload is
given the settings of the file, or the reason it is none.
-/

namespace Harmost.Policy

open Harmost.Support
open Harmost.Config
open Harmost.Admission

def MatcherError.text (e : MatcherError) : Str :=
  "route `".toList ++ e.route ++ "`: ".toList ++ e.message

/-- A snapshot in force, with all the settings of its file. -/
structure ServedPolicy where
  routes : List ResolvedRoute
  settings : Settings
  generation : ℕ

namespace ServedPolicy

/-- What the filters read. -/
def snapshot (policy : ServedPolicy) : PolicySnapshot :=
  ⟨policy.routes, policy.settings.toConfig⟩

def build (globNew : GlobCompiler) (settings : Settings) (generation : ℕ) :
    Except MatcherError ServedPolicy :=
  (PolicySnapshot.build globNew settings.toConfig).map fun snapshot =>
    ⟨snapshot.routes, settings, generation⟩

end ServedPolicy

/-- The limiters of `AdmissionController`. -/
structure Limiters where
  global : Gate
  tiers : Priority → Gate
  routes : Registry

/-- `AdmissionController::apply_limits`. -/
def Limiters.applyLimits (limiters : Limiters) (globalMax globalQueueMax : ℕ)
    (priorities : Priorities) (routes : List RouteLimits) : Limiters where
  global :=
    (limiters.global.step (.resize globalMax)).step (.setQueue globalQueueMax)
  tiers priority :=
    ((limiters.tiers priority).step
      (.resize (tierCeiling globalMax (priorities.percentFor priority)))).step
        (.setQueue globalQueueMax)
  routes := limiters.routes.applyLimits routes

structure Reloader where
  policy : ServedPolicy
  admission : Limiters
  store : Option Cache.BoundedStore
  generation : ℕ

/-- The settings that need a restart: has the file changed them, and what is
then said. -/
def startupChecks (cfg current : Settings) : List (Bool × Str) :=
  [(cfg.server.listen != current.server.listen,
      "server.listen changed from ".toList ++ current.server.listen ++
        " to ".toList ++ cfg.server.listen ++
        ("; that needs a restart (SIGQUIT performs a graceful " ++
          "upgrade)").toList),
    (cfg.origin.upstreams != current.origin.upstreams,
      ("origin.upstreams changed; that needs a restart (SIGQUIT performs " ++
        "a graceful upgrade)").toList),
    (cfg.origin.loadBalancing != current.origin.loadBalancing,
      "origin.load_balancing changed; that needs a restart".toList),
    (cfg.health != current.health,
      "health-check settings changed; that needs a restart".toList),
    (cfg.telemetry.prometheus != current.telemetry.prometheus,
      "telemetry.prometheus changed; that needs a restart".toList),
    (cfg.cache.maxMemory != current.cache.maxMemory ||
      cfg.cache.store != current.cache.store ||
      cfg.cache.eviction != current.cache.eviction ||
      cfg.cache.tagHeader != current.cache.tagHeader,
      ("cache store, memory budget, eviction policy or tag header " ++
        "changed; the store is built once at startup and its entries are " ++
        "already indexed under the old header, so that needs a " ++
        "restart").toList),
    (cfg.cache.purge.token != current.cache.purge.token,
      ("cache.purge.token changed; the admin listener reads it once at " ++
        "startup, so a reload would report success while the old secret " ++
        "stayed in force; that needs a restart").toList),
    (cfg.timeouts.origin != current.timeouts.origin,
      ("timeouts.origin changed; Pingora's cache-lock writer age is " ++
        "startup-bound and needs a restart").toList),
    (cfg.server.trustedProxies != current.server.trustedProxies,
      ("server.trusted_proxies changed; the trust policy is compiled " ++
        "once at startup, so a reload would report success while the old " ++
        "one stayed in force; that needs a restart (SIGQUIT performs a " ++
        "graceful upgrade)").toList),
    (cfg.server.h2c != current.server.h2c ||
      cfg.server.tls != current.server.tls,
      ("server.h2c or server.tls changed; listeners are bound at startup " ++
        "and that needs a restart (SIGQUIT performs a graceful " ++
        "upgrade)").toList),
    (cfg.origin.tls != current.origin.tls ||
      cfg.origin.httpVersion != current.origin.httpVersion,
      "origin.tls or origin.http_version changed; that needs a restart".toList),
    (cfg.origin.breaker != current.origin.breaker,
      ("origin.breaker changed; each backend's failure window and its " ++
        "open/closed state                  are built once at startup, so " ++
        "a reload would report success while the old                  " ++
        "thresholds stayed in force; that needs a restart").toList),
    (cfg.origin.retry != current.origin.retry,
      ("origin.retry changed; the retry budget's window is bound once at " ++
        "startup, and                  swapping it while retries are in " ++
        "flight would leave two windows disagreeing                  " ++
        "about what has been spent; that needs a restart").toList),
    (cfg.spool.maxMemory != current.spool.maxMemory,
      ("spool.max_memory changed; the spool budget is allocated once at " ++
        "startup and that needs a restart. spool.enabled and " ++
        "spool.max_body do reload").toList),
    (cfg.server.graceful != current.server.graceful,
      ("server.graceful changed; the pid file, upgrade socket and " ++
        "shutdown windows are read once when the process starts and are " ++
        "what a graceful upgrade coordinates on, so a reload would report " ++
        "success while the old paths stayed in force; that needs a " ++
        "restart").toList),
    (cfg.telemetry.admin != current.telemetry.admin,
      ("telemetry.admin changed; the admin listener is bound at startup " ++
        "and that needs a restart").toList),
    (cfg.telemetry.tracing.otlp != current.telemetry.tracing.otlp ||
      cfg.telemetry.tracing.serviceName !=
        current.telemetry.tracing.serviceName,
      ("telemetry.tracing.otlp or service_name changed; the span " ++
        "exporter is built once at startup and that needs a restart. " ++
        "telemetry.tracing.sample and trust_incoming do reload").toList),
    (cfg.upgrade.maxConcurrent != current.upgrade.maxConcurrent,
      ("upgrade.max_concurrent changed; the upgrade limiter is sized " ++
        "once at startup and that needs a restart").toList)]

/-- The ceiling of a route that has one. -/
def routeLimit (route : LimitedRoute) : Option RouteLimits :=
  route.concurrency.map fun c => ⟨route.id, c.max, c.queue.max⟩

def routeLimits (routes : List LimitedRoute) : List RouteLimits :=
  routes.filterMap routeLimit

namespace Reloader

variable (globNew : GlobCompiler)

/-- Take over what a file says, once nothing stands against it. -/
def install (self : Reloader) (policy : ServedPolicy) : Reloader where
  policy := policy
  admission := self.admission.applyLimits
    policy.settings.origin.concurrency.max
    policy.settings.origin.concurrency.queue.max
    policy.settings.origin.priorities (routeLimits policy.settings.routes)
  store :=
    if policy.settings.deployment.id != self.policy.settings.deployment.id then
      self.store.map fun store => store.purgeAll.1
    else self.store
  generation := policy.generation

/-- The new generation, or why the running configuration was kept. -/
def reload (self : Reloader) (loaded : Except Str Settings) :
    Except Str (ℕ × Reloader) :=
  loaded.bind fun cfg =>
  (refuse (startupChecks cfg self.policy.settings)).bind fun _ =>
  ((ServedPolicy.build globNew cfg (self.generation + 1)).mapError
    MatcherError.text).map fun policy =>
      (policy.generation, self.install policy)

end Reloader

/-! ## What a reload can change -/

/-- The checks pass as long as nothing has changed but how often names are
looked up. -/
theorem refuse_startupChecks (cfg current : Settings) :
    refuse (startupChecks cfg current) = .ok () ↔
      cfg.startup = { current.startup with
        resolveInterval := cfg.origin.resolveInterval } := by
  rw [refuse_eq_ok]
  simp only [startupChecks, Settings.startup, List.forall_mem_cons,
    List.not_mem_nil, false_imp_iff, implies_true, and_true,
    true_and, Bool.or_eq_false_iff, bne_eq_false_iff_eq, Startup.mk.injEq,
    and_assoc]

/-- The filters get the snapshot of the new file. -/
theorem ServedPolicy.snapshot_of_build {globNew : GlobCompiler}
    {settings : Settings} {generation : ℕ} {policy : ServedPolicy}
    (hbuild : ServedPolicy.build globNew settings generation = .ok policy) :
    policy.settings = settings ∧ policy.generation = generation ∧
      PolicySnapshot.build globNew settings.toConfig =
        .ok policy.snapshot := by
  obtain ⟨snapshot, hsnapshot, rfl⟩ := map_eq_ok.mp hbuild
  obtain ⟨routes, -, rfl⟩ := map_eq_ok.mp hsnapshot
  exact ⟨rfl, rfl, hsnapshot⟩

namespace Reloader

variable {globNew : GlobCompiler} {self self' : Reloader}
  {loaded : Except Str Settings} {generation : ℕ}

/-- An accepted reload was of a file that passed the checks, and takes over the
policy built from it. -/
theorem reload_eq_ok
    (hok : self.reload globNew loaded = .ok (generation, self')) :
    ∃ cfg policy, loaded = .ok cfg ∧
      refuse (startupChecks cfg self.policy.settings) = .ok () ∧
      ServedPolicy.build globNew cfg (self.generation + 1) = .ok policy ∧
      generation = policy.generation ∧ self' = self.install policy := by
  obtain ⟨cfg, hloaded, hcfg⟩ := bind_eq_ok.mp hok
  obtain ⟨⟨⟩, hchecks, hrest⟩ := bind_eq_ok.mp hcfg
  obtain ⟨policy, hpolicy, hpair⟩ := map_eq_ok.mp hrest
  obtain ⟨rfl, rfl⟩ := Prod.mk.inj hpair
  exact ⟨cfg, policy, hloaded, hchecks, mapError_eq_ok.mp hpolicy, rfl, rfl⟩

/-- The settings in force after an accepted reload are those of the file, and
all that was read at startup but the interval is as before. -/
theorem settings_of_reload {cfg : Settings}
    (hok : self.reload globNew (.ok cfg) = .ok (generation, self')) :
    self'.policy.settings = cfg ∧
      cfg.startup = { self.policy.settings.startup with
        resolveInterval := cfg.origin.resolveInterval } := by
  obtain ⟨cfg', policy, hloaded, hchecks, hbuild, -, rfl⟩ := reload_eq_ok hok
  obtain rfl : cfg = cfg' := Except.ok.inj hloaded
  exact ⟨(ServedPolicy.snapshot_of_build hbuild).1,
    (refuse_startupChecks _ _).mp hchecks⟩

/-- An accepted reload leaves all that is read only at startup as it was,
exactly when the file keeps the interval at which names are looked up. -/
theorem reload_keeps_startup_iff (globNew : GlobCompiler)
    (self self' : Reloader) (cfg : Settings) (generation : ℕ)
    (hok : self.reload globNew (.ok cfg) = .ok (generation, self')) :
    self'.policy.settings.startup = self.policy.settings.startup ↔
      cfg.origin.resolveInterval =
        self.policy.settings.origin.resolveInterval := by
  obtain ⟨hsettings, hstartup⟩ := settings_of_reload hok
  rw [hsettings]
  constructor
  · intro hsame
    exact congrArg Startup.resolveInterval hsame
  · intro hinterval
    rw [hstartup, hinterval]
    rfl

/-- One upstream, and the defaults. -/
def oneUpstream : Settings where
  origin := { upstreams := ["127.0.0.1:3000".toList] }

/-- A process that serves `oneUpstream`. -/
def serving : Reloader where
  policy := ⟨[], oneUpstream, 1⟩
  admission := ⟨.new 500 0, fun _ => .new 500 0, {}⟩
  store := none
  generation := 1

/-- A change to the mode is taken over, and changes nothing else. -/
theorem reload_keeps_startup_of_mode :
    let cfg := { oneUpstream with mode := .observe }
    let self' := serving.install ⟨[], cfg, 2⟩
    serving.reload (fun _ => .error []) (.ok cfg) = .ok (2, self') ∧
      self'.policy.settings.startup = serving.policy.settings.startup := by
  intro cfg self'
  have hok : serving.reload (fun _ => .error []) (.ok cfg) = .ok (2, self') :=
    rfl
  exact ⟨hok, (reload_keeps_startup_iff _ _ _ _ _ hok).mpr rfl⟩

/-- Names are to be looked up every minute and not every ten seconds.  The
reload is accepted, and the process goes on as it was. -/
theorem resolve_interval_reload_accepted :
    let cfg := { oneUpstream with
      origin := { oneUpstream.origin with
        resolveInterval := Duration.fromSecs 60 } }
    let self' := serving.install ⟨[], cfg, 2⟩
    serving.reload (fun _ => .error []) (.ok cfg) = .ok (2, self') ∧
      self'.policy.settings.startup ≠ serving.policy.settings.startup := by
  refine ⟨rfl, fun hsame => ?_⟩
  exact absurd (congrArg Startup.resolveInterval hsame) (by decide)

end Reloader

end Harmost.Policy
