import Harmost.Cache.Store.Coherence
import Harmost.Policy.Capacity

/-!
# Histories of reloads

What a process serves after any series of reloads, some of them refused.  A
reload changes four things one after the other: the generation, the limiters
with their queues, the store and the policy.  All the ways out with an error
come before the first of them.

The steps are written out here in their order, on the state of
`Harmost.Policy.Reloader` and the queue timeouts, which nothing else depends
on.
-/

namespace Harmost.Policy

open Harmost.Support
open Harmost.Config
open Harmost.Admission

/-- The settings of a file that `load` returns: `validate` accepts them. -/
structure LoadedFile extends Settings where
  checked : AcceptedSettings
  origin_eq : origin = checked.origin
  routes_eq : routes = checked.routes.map RouteSettings.toLimitedRoute

/-- The file with these checked settings, this deployment and the defaults. -/
def LoadedFile.ofChecked (checked : AcceptedSettings) (id : Option Str) :
    LoadedFile where
  origin := checked.origin
  routes := checked.routes.map RouteSettings.toLimitedRoute
  deployment := { id }
  checked := checked
  origin_eq := rfl
  routes_eq := rfl

/-! ## Queue timeouts -/

/-- A route's arguments to `apply_limits`. -/
structure TimedLimits extends RouteLimits where
  queueTimeout : Duration

def timedLimits (cfg : Settings) : List TimedLimits :=
  cfg.routes.filterMap fun r =>
    r.concurrency.map fun c => ⟨⟨r.id, c.max, c.queue.max⟩, c.queue.timeout⟩

/-- The route limiters, with their queue timeouts by the number of the
limiter. -/
structure TimedRegistry where
  registry : Registry
  timeouts : ℕ → ℕ

namespace TimedRegistry

/-- One turn of the loop of `apply_limits`: the limiter of the route, or a new
one. -/
def applyRoute (s : TimedRegistry) (route : TimedLimits) : TimedRegistry where
  registry := s.registry.applyRoute route.toRouteLimits
  timeouts := Function.update s.timeouts
    ((s.registry.routes.lookup route.id).getD s.registry.count)
    (millis route.queueTimeout)

end TimedRegistry

/-- The queue timeouts of all limiters, in milliseconds. -/
structure QueueTimeouts where
  global : ℕ
  tiers : Priority → ℕ
  routes : ℕ → ℕ := fun _ => 0

/-! ## One reload -/

/-- What a reload works on. -/
structure Live extends Reloader where
  timeouts : QueueTimeouts

namespace Live

variable (globNew : GlobCompiler) (live : Live)

/-- `fetch_add` on the generation. -/
def nextGeneration : Live :=
  { live with generation := live.generation + 1 }

/-- `apply_limits` with what a file says. -/
def applyLimits (cfg : Settings) : Live :=
  let concurrency := cfg.origin.concurrency
  let timeout := millis concurrency.queue.timeout
  { live with
    admission := live.admission.applyLimits concurrency.max
      concurrency.queue.max cfg.origin.priorities (routeLimits cfg.routes)
    timeouts :=
      { global := timeout
        tiers := fun _ => timeout
        routes :=
          (run TimedRegistry.applyRoute
            ⟨live.admission.routes, live.timeouts.routes⟩
            (timedLimits cfg)).timeouts } }

/-- Reclaim the entries of the previous deployment. -/
def purgeStore : Live :=
  { live with store := live.store.map fun store => store.purgeAll.1 }

def publish (policy : ServedPolicy) : Live :=
  { live with policy }

/-- The steps of a reload once nothing stands against it. -/
def takeOver (policy : ServedPolicy) : Live :=
  let deploymentChanged :=
    policy.settings.deployment.id != live.policy.settings.deployment.id
  let limited := live.nextGeneration.applyLimits policy.settings
  let purged := if deploymentChanged then limited.purgeStore else limited
  purged.publish policy

/-- Re-read, validate, and apply: the new generation, or why the running
configuration was kept; and the state that is left. -/
def reload (loaded : Except Str Settings) : Except Str ℕ × Live :=
  match loaded with
  | .error message => (.error message, live)
  | .ok cfg =>
      match refuse (startupChecks cfg live.policy.settings) with
      | .error message => (.error message, live)
      | .ok () =>
          match ServedPolicy.build globNew cfg (live.generation + 1) with
          | .error e => (.error e.text, live)
          | .ok policy => (.ok (live.generation + 1), live.takeOver policy)

/-- The process before it registers the limiters of its routes. -/
def new (policy : ServedPolicy) (store : Option Cache.BoundedStore) : Live :=
  let concurrency := policy.settings.origin.concurrency
  let timeout := millis concurrency.queue.timeout
  { policy := policy
    admission := .new concurrency.max concurrency.queue.max
      policy.settings.origin.priorities
    store := store
    generation := 1
    timeouts := { global := timeout, tiers := fun _ => timeout } }

/-- The process as it starts, with a limiter for every route that has a
ceiling. -/
def start (policy : ServedPolicy) (store : Option Cache.BoundedStore) : Live :=
  (new policy store).applyLimits policy.settings

/-- How a reload can end. -/
inductive Reloads : Except Str Settings → Except Str ℕ × Live → Prop
  | refused {loaded : Except Str Settings} (message : Str) :
      Reloads loaded (.error message, live)
  | accepted {cfg : Settings} {policy : ServedPolicy}
      (hbuild :
        ServedPolicy.build globNew cfg (live.generation + 1) = .ok policy) :
      Reloads (.ok cfg) (.ok (live.generation + 1), live.takeOver policy)

theorem reloads (loaded : Except Str Settings) :
    live.Reloads globNew loaded (live.reload globNew loaded) := by
  unfold reload
  split
  · exact .refused _
  · split
    · exact .refused _
    · split
      · exact .refused _
      · exact .accepted ‹_›

/-- Without the timeouts this is the reload of `Harmost.Policy.Reloader`. -/
theorem toReloader_reload (loaded : Except Str Settings) :
    live.toReloader.reload globNew loaded =
      (live.reload globNew loaded).1.map fun generation =>
        (generation, (live.reload globNew loaded).2.toReloader) := by
  cases loaded with
  | error message => rfl
  | ok cfg =>
      simp only [Reloader.reload, reload, Except.bind]
      cases refuse (startupChecks cfg live.policy.settings) with
      | error message => rfl
      | ok _ =>
          dsimp only
          cases hbuild :
              ServedPolicy.build globNew cfg (live.generation + 1) with
          | error e => rfl
          | ok policy =>
              have hgeneration := (ServedPolicy.snapshot_of_build hbuild).2.1
              simp only [Except.mapError, Except.map, hgeneration, takeOver]
              refine congrArg (fun r => Except.ok (live.generation + 1, r)) ?_
              rw [Reloader.install, hgeneration]
              split_ifs <;> rfl

end Live

/-! ## The limiters in force -/

/-- A limiter has this ceiling and this queue. -/
structure Follows (gate : Gate) (timeoutMs max : ℕ) (queue : Queue) : Prop where
  limit_eq : gate.limiter.limit = max
  queueMax_eq : gate.limiter.queueMax = queue.max
  timeout_eq : timeoutMs = millis queue.timeout

theorem follows_resize (gate : Gate) (max : ℕ) (queue : Queue) :
    Follows ((gate.step (.resize max)).step (.setQueue queue.max))
      (millis queue.timeout) max queue :=
  ⟨Limiter.limit_resize _ _, rfl, rfl⟩

namespace TimedRegistry

variable {s : TimedRegistry} {bound : ℕ}

/-- A route is registered with a limiter that is as it says. -/
def Has (s : TimedRegistry) (route : TimedLimits) : Prop :=
  ∃ o, s.registry.routes.lookup route.id = some o ∧
    Follows (s.registry.gates o) (s.timeouts o) route.max
      ⟨route.queueMax, route.queueTimeout⟩

theorem has_applyRoute (s : TimedRegistry) (route : TimedLimits) :
    (s.applyRoute route).Has route := by
  cases hroute : s.registry.routes.lookup route.id with
  | none =>
      refine ⟨s.registry.count, ?_, ?_⟩
      · simp only [applyRoute, Registry.applyRoute, hroute, Registry.create,
          AList.lookup_insert]
      · simp only [applyRoute, Registry.applyRoute, hroute, Registry.create,
          Function.update_self, Option.getD_none]
        exact ⟨rfl, rfl, rfl⟩
  | some o =>
      refine ⟨o, ?_, ?_⟩
      · simp only [applyRoute, Registry.applyRoute, hroute]
      · simp only [applyRoute, Registry.applyRoute, hroute,
          Function.update_self, Option.getD_some]
        exact follows_resize _ route.max ⟨route.queueMax, route.queueTimeout⟩

/-- The limiter of another route is left alone. -/
theorem has_applyRoute_of_ne (hsound : s.registry.Sound bound)
    {other route : TimedLimits} (h : s.Has other) (hne : other.id ≠ route.id) :
    (s.applyRoute route).Has other := by
  obtain ⟨o, ho, hfollows⟩ := h
  obtain ⟨hlt, howner⟩ := hsound.registered other.id o ho
  cases hroute : s.registry.routes.lookup route.id with
  | none =>
      refine ⟨o, ?_, ?_⟩
      · simp only [applyRoute, Registry.applyRoute, hroute, Registry.create]
        exact (AList.lookup_insert_ne hne).trans ho
      · simp only [applyRoute, Registry.applyRoute, hroute, Registry.create,
          Option.getD_none, Function.update_of_ne hlt.ne]
        exact hfollows
  | some existing =>
      have hother : o ≠ existing := by
        rintro rfl
        exact hne (howner.symm.trans (hsound.registered route.id o hroute).2)
      refine ⟨o, ?_, ?_⟩
      · simp only [applyRoute, Registry.applyRoute, hroute]
        exact ho
      · simp only [applyRoute, Registry.applyRoute, hroute, Option.getD_some,
          Function.update_of_ne hother]
        exact hfollows

theorem registry_run (routes : List TimedLimits) (s : TimedRegistry) :
    (run applyRoute s routes).registry =
      run Registry.applyRoute s.registry
        (routes.map TimedLimits.toRouteLimits) := by
  induction routes generalizing s with
  | nil => rfl
  | cons route routes ih => exact ih (s.applyRoute route)

theorem has_run_of_notMem {routes : List TimedLimits} {other : TimedLimits}
    (hsound : s.registry.Sound bound) (h : s.Has other)
    (hmax : ∀ route ∈ routes, route.max ≤ bound)
    (hnotMem : ∀ route ∈ routes, other.id ≠ route.id) :
    (run applyRoute s routes).Has other := by
  induction routes generalizing s with
  | nil => exact h
  | cons route routes ih =>
      rw [List.forall_mem_cons] at hmax hnotMem
      exact ih (hsound.applyRoute hmax.1)
        (has_applyRoute_of_ne hsound h hnotMem.1) hmax.2 hnotMem.2

/-- After the loop every route is registered with a limiter as it says. -/
theorem has_run {routes : List TimedLimits} (hsound : s.registry.Sound bound)
    (hmax : ∀ route ∈ routes, route.max ≤ bound)
    (hnodup : (routes.map fun route => route.id).Nodup) {route : TimedLimits}
    (hroute : route ∈ routes) : (run applyRoute s routes).Has route := by
  induction routes generalizing s with
  | nil => cases hroute
  | cons first routes ih =>
      rw [List.map_cons, List.nodup_cons, List.mem_map] at hnodup
      rw [List.forall_mem_cons] at hmax
      have hsound' : (s.applyRoute first).registry.Sound bound :=
        hsound.applyRoute hmax.1
      rcases List.mem_cons.mp hroute with rfl | hrest
      · rw [run_cons]
        refine has_run_of_notMem hsound' (s.has_applyRoute route) hmax.2 ?_
        intro other hother hid
        exact hnodup.1 ⟨other, hother, hid.symm⟩
      · exact ih hsound' hmax.2 hnodup.2 hrest

end TimedRegistry

namespace LoadedFile

variable (file : LoadedFile)

theorem map_timedLimits (cfg : Settings) :
    (timedLimits cfg).map TimedLimits.toRouteLimits =
      routeLimits cfg.routes := by
  rw [timedLimits, routeLimits, List.map_filterMap]
  refine congrArg (List.filterMap · cfg.routes) ?_
  funext r
  exact Option.map_map _ _ r.concurrency

theorem routeLimits_eq :
    routeLimits file.routes = file.checked.routeLimits := by
  rw [AcceptedSettings.routeLimits, file.routes_eq]

theorem nodup_timedLimits :
    ((timedLimits file.toSettings).map fun route => route.id).Nodup := by
  have hnodup : (file.checked.routeLimits.map RouteLimits.id).Nodup :=
    AcceptedSettings.nodup_routeLimits
  rwa [← routeLimits_eq, ← map_timedLimits, List.map_map] at hnodup

theorem max_le {limits : RouteLimits}
    (h : limits ∈ routeLimits file.routes) : limits.max ≤ maxPermits := by
  rw [routeLimits_eq] at h
  exact AcceptedSettings.max_le_of_mem_routeLimits h

theorem mem_timedLimits {cfg : Settings} {timed : TimedLimits} :
    timed ∈ timedLimits cfg ↔ ∃ route ∈ cfg.routes, ∃ c,
      route.concurrency = some c ∧
        ⟨⟨route.id, c.max, c.queue.max⟩, c.queue.timeout⟩ = timed := by
  simp [timedLimits]

end LoadedFile

/-- What is in force is what the file says. -/
structure Live.InForce (globNew : GlobCompiler) (file : LoadedFile)
    (live : Live) : Prop where
  settings_eq : live.policy.settings = file.toSettings
  snapshot : PolicySnapshot.build globNew file.toConfig =
    .ok live.policy.snapshot
  generation_eq : live.policy.generation = live.generation
  global : Follows live.admission.global live.timeouts.global
    file.origin.concurrency.max file.origin.concurrency.queue
  tiers : ∀ priority,
    Follows (live.admission.tiers priority) (live.timeouts.tiers priority)
      (tierCeiling file.origin.concurrency.max
        (file.origin.priorities.percentFor priority))
      file.origin.concurrency.queue
  /-- The limiters of the registry, and no others. -/
  registered : ∀ id, id ∈ live.admission.routes.routes ↔
    ∃ route ∈ file.routes, route.id = id ∧ route.concurrency.isSome = true
  routes : ∀ route ∈ file.routes, ∀ c, route.concurrency = some c →
    ∃ o, live.admission.routes.routes.lookup route.id = some o ∧
      Follows (live.admission.routes.gates o) (live.timeouts.routes o) c.max
        c.queue
  sound : live.admission.routes.Sound maxPermits

namespace Live

variable {globNew : GlobCompiler} {live : Live} {file : LoadedFile}

/-- After `apply_limits` every route with a ceiling has a limiter as it
says. -/
theorem exists_limiter (hsound : live.admission.routes.Sound maxPermits)
    {timed : TimedLimits} (htimed : timed ∈ timedLimits file.toSettings) :
    ∃ o, (live.applyLimits file.toSettings).admission.routes.routes.lookup
        timed.id = some o ∧
      Follows
        ((live.applyLimits file.toSettings).admission.routes.gates o)
        ((live.applyLimits file.toSettings).timeouts.routes o) timed.max
        ⟨timed.queueMax, timed.queueTimeout⟩ := by
  have hlisted : timed.toRouteLimits ∈ routeLimits file.routes := by
    rw [← LoadedFile.map_timedLimits]
    exact List.mem_map_of_mem htimed
  have hmax : ∀ route ∈ timedLimits file.toSettings,
      route.max ≤ maxPermits := by
    intro route hroute
    have hmem : route.toRouteLimits ∈ routeLimits file.routes := by
      rw [← LoadedFile.map_timedLimits]
      exact List.mem_map_of_mem hroute
    exact file.max_le hmem
  obtain ⟨o, ho, hfollows⟩ := TimedRegistry.has_run
    (s := ⟨live.admission.routes, live.timeouts.routes⟩) hsound hmax
    file.nodup_timedLimits htimed
  rw [TimedRegistry.registry_run, LoadedFile.map_timedLimits] at ho hfollows
  refine ⟨o, AssocMap.lookup_retain_eq_some.mpr ⟨ho, ?_⟩, hfollows⟩
  exact List.contains_iff_mem.mpr (List.mem_map_of_mem hlisted)

/-- After `apply_limits` no other route has a limiter. -/
theorem mem_routeLimits_of_registered {id : Str}
    (h : id ∈ (live.applyLimits file.toSettings).admission.routes.routes) :
    ∃ limits ∈ routeLimits file.routes, limits.id = id := by
  rw [← AList.lookup_isSome, Option.isSome_iff_exists] at h
  obtain ⟨o, ho⟩ := h
  have hlisted := (AssocMap.lookup_retain_eq_some.mp ho).2
  exact List.mem_map.mp (List.contains_iff_mem.mp hlisted)

theorem inForce_of_applyLimits (live : Live)
    (hsound : live.admission.routes.Sound maxPermits) {after : Live}
    (hsettings : after.policy.settings = file.toSettings)
    (hsnapshot : PolicySnapshot.build globNew file.toConfig =
      .ok after.policy.snapshot)
    (hgeneration : after.policy.generation = after.generation)
    (hadmission : after.admission =
      (live.applyLimits file.toSettings).admission)
    (htimeouts : after.timeouts =
      (live.applyLimits file.toSettings).timeouts) :
    after.InForce globNew file := by
  have hroutes : ∀ route ∈ file.routes, ∀ c, route.concurrency = some c →
      ∃ o, after.admission.routes.routes.lookup route.id = some o ∧
        Follows (after.admission.routes.gates o) (after.timeouts.routes o)
          c.max c.queue := by
    intro route hroute c hc
    rw [hadmission, htimeouts]
    exact exists_limiter hsound
      (LoadedFile.mem_timedLimits.mpr ⟨route, hroute, c, hc, rfl⟩)
  refine
    { settings_eq := hsettings
      snapshot := hsnapshot
      generation_eq := hgeneration
      global := ?_
      tiers := ?_
      registered := ?_
      routes := hroutes
      sound := ?_ }
  · rw [hadmission, htimeouts]
    exact follows_resize _ _ _
  · intro priority
    rw [hadmission, htimeouts]
    exact follows_resize _ _ file.origin.concurrency.queue
  · intro id
    constructor
    · intro hmem
      rw [hadmission] at hmem
      obtain ⟨limits, hlimits, rfl⟩ := mem_routeLimits_of_registered hmem
      obtain ⟨route, hroute, hlimit⟩ := List.mem_filterMap.mp hlimits
      obtain ⟨c, hc, rfl⟩ := Option.map_eq_some_iff.mp hlimit
      exact ⟨route, hroute, rfl, by rw [hc]; rfl⟩
    · rintro ⟨route, hroute, rfl, hsome⟩
      obtain ⟨c, hc⟩ := Option.isSome_iff_exists.mp hsome
      obtain ⟨o, ho, -⟩ := hroutes route hroute c hc
      exact AssocMap.mem_of_lookup ho
  · rw [hadmission]
    exact hsound.applyLimits fun _ => file.max_le

theorem inForce_start {policy : ServedPolicy}
    (hbuild : ServedPolicy.build globNew file.toSettings 1 = .ok policy)
    (store : Option Cache.BoundedStore) :
    (start policy store).InForce globNew file := by
  obtain ⟨hsettings, hgeneration, hsnapshot⟩ :=
    ServedPolicy.snapshot_of_build hbuild
  refine inForce_of_applyLimits (new policy store)
    (Registry.sound_empty maxPermits) hsettings hsnapshot hgeneration ?_ ?_
  · rw [start, hsettings]
  · rw [start, hsettings]

theorem admission_takeOver (policy : ServedPolicy) :
    (live.takeOver policy).admission =
        (live.applyLimits policy.settings).admission ∧
      (live.takeOver policy).timeouts =
        (live.applyLimits policy.settings).timeouts ∧
      (live.takeOver policy).generation = live.generation + 1 := by
  unfold takeOver
  dsimp only
  split_ifs <;> exact ⟨rfl, rfl, rfl⟩

theorem inForce_takeOver (hsound : live.admission.routes.Sound maxPermits)
    {policy : ServedPolicy}
    (hbuild : ServedPolicy.build globNew file.toSettings
      (live.generation + 1) = .ok policy) :
    (live.takeOver policy).InForce globNew file := by
  obtain ⟨hsettings, hgeneration, hsnapshot⟩ :=
    ServedPolicy.snapshot_of_build hbuild
  obtain ⟨hadmission, htimeouts, hnext⟩ := live.admission_takeOver policy
  rw [hsettings] at hadmission htimeouts
  exact inForce_of_applyLimits live hsound hsettings hsnapshot
    (hgeneration.trans hnext.symm) hadmission htimeouts

/-- The limiters of the registry have the ceilings of the routes. -/
theorem InForce.hasLimit_iff (h : live.InForce globNew file) (id : Str)
    (max : ℕ) :
    live.admission.routes.HasLimit id max ↔
      ∃ route ∈ file.routes, route.id = id ∧
        ∃ c, route.concurrency = some c ∧ c.max = max := by
  constructor
  · rintro ⟨o, ho, rfl⟩
    obtain ⟨route, hroute, rfl, hsome⟩ :=
      (h.registered id).mp (AssocMap.mem_of_lookup ho)
    obtain ⟨c, hc⟩ := Option.isSome_iff_exists.mp hsome
    obtain ⟨o', ho', hfollows⟩ := h.routes route hroute c hc
    obtain rfl : o = o' := Option.some.inj (ho.symm.trans ho')
    exact ⟨route, hroute, rfl, c, hc, hfollows.limit_eq.symm⟩
  · rintro ⟨route, hroute, rfl, c, hc, rfl⟩
    obtain ⟨o, ho, hfollows⟩ := h.routes route hroute c hc
    exact ⟨o, ho, hfollows.limit_eq⟩

/-- A refused reload leaves everything as it is. -/
theorem eq_of_refused {loaded : Except Str Settings} {message : Str}
    (herror : (live.reload globNew loaded).1 = .error message) :
    (live.reload globNew loaded).2 = live := by
  have hreloads := live.reloads globNew loaded
  generalize live.reload globNew loaded = result at herror hreloads
  cases hreloads with
  | refused => rfl
  | accepted => cases herror

/-- A new deployment finds an empty store. -/
theorem store_takeOver {policy : ServedPolicy}
    (hchanged : policy.settings.deployment.id ≠
      live.policy.settings.deployment.id) :
    ∀ store ∈ (live.takeOver policy).store, store.cached.entries = [] := by
  intro store hstore
  have hbranch : (policy.settings.deployment.id !=
      live.policy.settings.deployment.id) = true := bne_iff_ne.mpr hchanged
  simp only [takeOver, hbranch, if_true, publish, purgeStore,
    Option.mem_def, Option.map_eq_some_iff] at hstore
  obtain ⟨before, -, rfl⟩ := hstore
  exact before.entries_purgeAll

end Live

/-! ## Histories -/

/-- The state, and the files accepted so far, the last one first. -/
structure History where
  live : Live
  accepted : List LoadedFile := []

namespace History

variable (globNew : GlobCompiler)

/-- One attempt: a file, or why there is none. -/
def attempt (history : History) (loaded : Except Str LoadedFile) : History :=
  let result :=
    history.live.reload globNew (loaded.map LoadedFile.toSettings)
  { live := result.2
    accepted :=
      match loaded, result.1 with
      | .ok file, .ok _ => file :: history.accepted
      | _, _ => history.accepted }

/-- The file in force, if the process was started with `first`. -/
def current (first : LoadedFile) (accepted : List LoadedFile) : LoadedFile :=
  accepted.head?.getD first

/-- What holds after every attempt. -/
structure Inv (first : LoadedFile) (history : History) : Prop where
  inForce : history.live.InForce globNew (current first history.accepted)
  generation_eq : history.live.generation = 1 + history.accepted.length
  emptied : ∀ last earlier, history.accepted = last :: earlier →
    last.deployment.id ≠ (current first earlier).deployment.id →
      ∀ store ∈ history.live.store, store.cached.entries = []

variable {globNew} {first : LoadedFile} {history : History}

theorem Inv.attempt (h : Inv globNew first history)
    (loaded : Except Str LoadedFile) :
    Inv globNew first (history.attempt globNew loaded) := by
  have hreloads :=
    history.live.reloads globNew (loaded.map LoadedFile.toSettings)
  unfold History.attempt
  dsimp only
  generalize history.live.reload globNew (loaded.map LoadedFile.toSettings) =
    result at hreloads
  cases loaded with
  | error message =>
      cases hreloads with
      | refused => exact h
  | ok file =>
      cases hreloads with
      | refused => exact h
      | @accepted _ policy hbuild =>
          have hnext := (history.live.admission_takeOver policy).2.2
          refine ⟨Live.inForce_takeOver h.inForce.sound hbuild, ?_, ?_⟩
          · rwa [List.length_cons, ← Nat.add_assoc, ← h.generation_eq]
          · rintro last earlier ⟨⟩ hchanged
            refine Live.store_takeOver ?_
            rwa [(ServedPolicy.snapshot_of_build hbuild).1,
              h.inForce.settings_eq]

theorem Inv.run (h : Inv globNew first history)
    (attempts : List (Except Str LoadedFile)) :
    Inv globNew first (Support.run (History.attempt globNew) history
      attempts) :=
  run_invariant (P := Inv globNew first)
    (fun _ loaded hinv => hinv.attempt loaded) h attempts

theorem inv_start {policy : ServedPolicy}
    (hbuild : ServedPolicy.build globNew first.toSettings 1 = .ok policy)
    (store : Option Cache.BoundedStore) :
    Inv globNew first { live := .start policy store } where
  inForce := Live.inForce_start hbuild store
  generation_eq := rfl
  emptied := by
    intro last earlier haccepted
    cases haccepted

/-- After any series of attempts the generation is one more than the files that
were accepted, a refused attempt leaves everything as it is, and once a file
has been accepted, what is served is what the last one says: its settings, its
ceilings, and a limiter for exactly its routes that have one.  If it came with
a new deployment, the store is empty. -/
theorem reload_history_consistent (globNew : GlobCompiler) (first : LoadedFile)
    (policy : ServedPolicy) (store : Option Cache.BoundedStore)
    (hbuild : ServedPolicy.build globNew first.toSettings 1 = .ok policy)
    (attempts : List (Except Str LoadedFile)) :
    let history := Support.run (attempt globNew)
      { live := .start policy store } attempts
    let live := history.live
    live.policy.generation = 1 + history.accepted.length ∧
      (∀ loaded message, (live.reload globNew loaded).1 = .error message →
        (live.reload globNew loaded).2 = live) ∧
      ∀ last earlier, history.accepted = last :: earlier →
        live.policy.settings = last.toSettings ∧
          live.admission.global.limiter.limit = last.origin.concurrency.max ∧
          (∀ priority, (live.admission.tiers priority).limiter.limit =
            tierCeiling last.origin.concurrency.max
              (last.origin.priorities.percentFor priority)) ∧
          (∀ id max, live.admission.routes.HasLimit id max ↔
            ∃ route ∈ last.routes, route.id = id ∧
              ∃ c, route.concurrency = some c ∧ c.max = max) ∧
          (last.deployment.id ≠ (current first earlier).deployment.id →
            ∀ store ∈ live.store, store.cached.entries = []) := by
  intro history live
  have hinv : Inv globNew first history := (inv_start hbuild store).run attempts
  refine ⟨hinv.inForce.generation_eq.trans hinv.generation_eq, ?_, ?_⟩
  · intro loaded message herror
    exact Live.eq_of_refused herror
  · intro last earlier haccepted
    have hinForce : live.InForce globNew last := by
      have h := hinv.inForce
      rwa [haccepted] at h
    exact ⟨hinForce.settings_eq, hinForce.global.limit_eq,
      fun priority => (hinForce.tiers priority).limit_eq,
      fun id max => hinForce.hasLimit_iff id max,
      hinv.emptied last earlier haccepted⟩

/-- A file that cannot be read, and then one with a new deployment and a route
with a ceiling. -/
theorem reload_history_consistent_after_two :
    let first := LoadedFile.ofChecked Serving.smallFile none
    let second :=
      LoadedFile.ofChecked Serving.tightFile (some "b".toList)
    let policy : ServedPolicy := ⟨[], first.toSettings, 1⟩
    let history := Support.run (attempt fun text => .ok ⟨(· == text)⟩)
      { live := .start policy (some (.new {})) }
      [.error "no file".toList, .ok second]
    history.accepted = [second] ∧ history.live.policy.generation = 2 ∧
      history.live.admission.routes.HasLimit "search".toList 5 := by
  intro first second policy history
  have haccepted : history.accepted = [second] := rfl
  have h := reload_history_consistent (fun text => .ok ⟨(· == text)⟩) first
    policy (some (.new {})) rfl [.error "no file".toList, .ok second]
  obtain ⟨hgeneration, -, hlast⟩ := h
  obtain ⟨-, -, -, hroutes, -⟩ := hlast second [] haccepted
  refine ⟨haccepted, hgeneration.trans (by rw [haccepted]; rfl), ?_⟩
  exact (hroutes _ _).mpr
    ⟨Serving.searchRoute.toLimitedRoute, List.mem_singleton.mpr rfl, rfl, _,
      rfl, rfl⟩

end History

end Harmost.Policy
