import Harmost.Config.RouteChecks
import Harmost.Policy.Reload

/-!
# Room for every route

A file is refused when one request on some route of it would not fit under a
ceiling it is charged against.  Limiters are built from an accepted file and
resized to others while they are in use.  Once nothing is held and nobody
waits, all the units of the ceilings in force are back, and a request on any
route of the file in force is admitted at once.
-/

namespace Harmost.Policy

open Harmost.Support
open Harmost.Config
open Harmost.Admission

/-- A file that `validate` accepts. -/
structure AcceptedSettings extends CapacitySettings where
  accepted : toCapacitySettings.validate = .ok ()

namespace AcceptedSettings

variable (cfg : AcceptedSettings)

/-- The ceiling of a tier. -/
def tierMax (priority : Priority) : ℕ :=
  tierCeiling cfg.origin.concurrency.max
    (cfg.origin.priorities.percentFor priority)

def routeLimits : List RouteLimits :=
  Policy.routeLimits (cfg.routes.map RouteSettings.toLimitedRoute)

/-- The arguments with which `limiter_for` asks for the limiter of a route. -/
def limiterFor (id : Str) : Option RouteLimits :=
  (cfg.routes.find? fun route => decide (route.id = id)).bind fun route =>
    routeLimit route.toLimitedRoute

theorem ceilings : cfg.Ceilings :=
  CapacitySettings.ceilings_of_validate cfg.accepted

theorem tierMax_le (priority : Priority) :
    cfg.tierMax priority ≤ maxPermits := by
  have hmax := cfg.ceilings.max_le
  have hpos := cfg.ceilings.max_pos
  have hpercent := cfg.ceilings.priorities priority
  have hproduct : cfg.origin.concurrency.max *
      cfg.origin.priorities.percentFor priority ≤
        cfg.origin.concurrency.max * 100 :=
    Nat.mul_le_mul_left _ hpercent
  rw [tierMax, tierCeiling]
  have hshare : min (cfg.origin.concurrency.max *
      cfg.origin.priorities.percentFor priority) (2 ^ 64 - 1) / 100 ≤
        cfg.origin.concurrency.max :=
    Nat.div_le_of_le_mul (by omega)
  omega

variable {cfg}

variable {limits : RouteLimits}

theorem max_le_of_routeLimit {route : RouteSettings}
    (hroute : route ∈ cfg.routes)
    (hlimits : routeLimit route.toLimitedRoute = some limits) :
    limits.max ≤ maxPermits := by
  obtain ⟨c, hc, rfl⟩ := Option.map_eq_some_iff.mp hlimits
  exact le_maxPermits_of_checkRoute (cfg.ceilings.routes route hroute) hc

theorem mem_routeLimits :
    limits ∈ cfg.routeLimits ↔
      ∃ route ∈ cfg.routes, routeLimit route.toLimitedRoute = some limits := by
  rw [routeLimits, Policy.routeLimits, List.filterMap_map]
  exact List.mem_filterMap

theorem max_le_of_mem_routeLimits (h : limits ∈ cfg.routeLimits) :
    limits.max ≤ maxPermits := by
  obtain ⟨route, hroute, hlimits⟩ := mem_routeLimits.mp h
  exact max_le_of_routeLimit hroute hlimits

theorem max_le_of_limiterFor {id : Str} (h : cfg.limiterFor id = some limits) :
    limits.max ≤ maxPermits := by
  obtain ⟨route, hfind, hlimits⟩ := Option.bind_eq_some_iff.mp h
  exact max_le_of_routeLimit (List.mem_of_find?_eq_some hfind) hlimits

theorem nodup_routeLimits : (cfg.routeLimits.map RouteLimits.id).Nodup := by
  refine cfg.ceilings.nodup.sublist ?_
  rw [routeLimits, Policy.routeLimits]
  induction cfg.routes with
  | nil => exact List.Sublist.refl _
  | cons route routes ih =>
      cases hc : route.concurrency with
      | none => simpa [routeLimit, hc] using ih.cons route.id
      | some c => simpa [routeLimit, hc] using ih

theorem id_of_limiterFor {id : Str} (h : cfg.limiterFor id = some limits) :
    limits.id = id := by
  obtain ⟨route, hfind, hlimits⟩ := Option.bind_eq_some_iff.mp h
  obtain ⟨c, -, rfl⟩ := Option.map_eq_some_iff.mp hlimits
  have hid := List.find?_some hfind
  rwa [decide_eq_true_eq] at hid

/-- A route is found by its id. -/
theorem limiterFor_of_mem {route : RouteSettings}
    (hroute : route ∈ cfg.routes) :
    cfg.limiterFor route.id = routeLimit route.toLimitedRoute := by
  have hsome : (cfg.routes.find? fun other =>
      decide (other.id = route.id)).isSome = true :=
    List.find?_isSome.mpr ⟨route, hroute, decide_eq_true rfl⟩
  obtain ⟨other, hfind⟩ := Option.isSome_iff_exists.mp hsome
  have hid := List.find?_some hfind
  rw [decide_eq_true_eq] at hid
  have heq : other = route :=
    List.inj_on_of_nodup_map cfg.ceilings.nodup
      (List.mem_of_find?_eq_some hfind) hroute hid
  rw [limiterFor, hfind, Option.bind_some, heq]

end AcceptedSettings

/-! ## The limiters in use -/

/-- `AdmissionController::new`. -/
def Limiters.new (globalMax queueMax : ℕ) (priorities : Priorities) :
    Limiters where
  global := .new globalMax queueMax
  tiers priority :=
    .new (tierCeiling globalMax (priorities.percentFor priority)) queueMax
  routes := {}

/-- The limiter of a ceiling. -/
def Limiters.gate (limiters : Limiters) : Ceiling → Gate
  | .route o => limiters.routes.gates o
  | .tier priority => limiters.tiers priority
  | .global => limiters.global

/-- `AdmissionController`, before a request comes to it. -/
def Limiters.controller (limiters : Limiters) : Controller where
  gates := limiters.gate

/-- The limiters, and the files that have been in force. -/
structure Serving where
  limiters : Limiters
  current : AcceptedSettings
  /-- The files in force before, the last one first. -/
  earlier : List AcceptedSettings := []

namespace Serving

inductive Op where
  | reload (cfg : AcceptedSettings)
  /-- A request under the file of so many reloads ago asks for the limiter of
  a route. -/
  | limiterFor (request age : ℕ) (id : Str)
  /-- A request accesses the limiter it was given. -/
  | route (op : Gate.Op)
  | tier (priority : Priority) (op : Gate.Op)
  | global (op : Gate.Op)
  | letGo (request : ℕ)

def new (cfg : AcceptedSettings) : Serving where
  limiters := .new cfg.origin.concurrency.max cfg.origin.concurrency.queue.max
    cfg.origin.priorities
  current := cfg

variable (s : Serving)

def reload (cfg : AcceptedSettings) : Serving where
  limiters := s.limiters.applyLimits cfg.origin.concurrency.max
    cfg.origin.concurrency.queue.max cfg.origin.priorities cfg.routeLimits
  current := cfg
  earlier := s.current :: s.earlier

/-- An operation on the limiters of the routes. -/
def onRoutes (op : Registry.Op) : Serving :=
  { s with limiters := { s.limiters with routes := s.limiters.routes.step op } }

def limiterFor (request age : ℕ) (id : Str) : Serving :=
  match (s.current :: s.earlier)[age]?.bind (·.limiterFor id) with
  | some limits => s.onRoutes (.routeLimiter request limits)
  | none => s

/-- Ceilings and queues change by a reload only. -/
def onCall (g : Gate) (op : Gate.Op) : Gate :=
  match op.call with
  | some _ => g.step op
  | none => g

def step (s : Serving) : Op → Serving
  | .reload cfg => s.reload cfg
  | .limiterFor request age id => s.limiterFor request age id
  | .route op => s.onRoutes (.access op)
  | .tier priority op =>
      { s with
        limiters :=
          { s.limiters with
            tiers := Function.update s.limiters.tiers priority
              (onCall (s.limiters.tiers priority) op) } }
  | .global op =>
      { s with
        limiters :=
          { s.limiters with global := onCall s.limiters.global op } }
  | .letGo request => s.onRoutes (.letGo request)

/-! ## Ceilings along a run -/

/-- A limiter with this ceiling. -/
structure Has (g : Gate) (limit : ℕ) : Prop where
  within : g.Within maxPermits
  limit_eq : g.limiter.limit = limit

theorem has_new {limit : ℕ} (h : limit ≤ maxPermits) (queueMax : ℕ) :
    Has (.new limit queueMax) limit :=
  ⟨Gate.within_new h queueMax, rfl⟩

theorem Has.onCall {g : Gate} {limit : ℕ} (h : Has g limit) (op : Gate.Op) :
    Has (onCall g op) limit := by
  unfold Serving.onCall
  split
  · rename_i call hcall
    exact ⟨h.within.call hcall,
      (Gate.limit_of_effect (Gate.ne_resize_of_call hcall)
        (g.effect_step op)).trans h.limit_eq⟩
  · exact h

theorem Has.resize {g : Gate} {limit limit' : ℕ} (h : Has g limit)
    (hlimit' : limit' ≤ maxPermits) (queueMax : ℕ) :
    Has ((g.step (.resize limit')).step (.setQueue queueMax)) limit' :=
  ⟨h.within.resize hlimit' queueMax, Limiter.limit_resize _ _⟩

/-- The ceilings are those of the file in force. -/
structure InForce (s : Serving) : Prop where
  global : Has s.limiters.global s.current.origin.concurrency.max
  tiers : ∀ priority,
    Has (s.limiters.tiers priority) (s.current.tierMax priority)
  routes : s.limiters.routes.Sound maxPermits
  /-- Before the first reload a limiter may be yet to be created. -/
  own : ∀ route ∈ s.current.routes, ∀ c, route.concurrency = some c →
    s.limiters.routes.HasLimit route.id c.max ∨
      s.earlier = [] ∧ s.limiters.routes.routes.lookup route.id = none

theorem inForce_new (cfg : AcceptedSettings) : (new cfg).InForce where
  global := has_new cfg.ceilings.max_le _
  tiers := fun priority => has_new (cfg.tierMax_le priority) _
  routes := Registry.sound_empty maxPermits
  own := fun _ _ _ _ => .inr ⟨rfl, AList.lookup_empty _⟩

variable {s}

theorem InForce.reload (h : s.InForce) (cfg : AcceptedSettings) :
    (s.reload cfg).InForce where
  global := h.global.resize cfg.ceilings.max_le _
  tiers := fun priority => (h.tiers priority).resize (cfg.tierMax_le priority) _
  routes := h.routes.applyLimits
    fun _ => AcceptedSettings.max_le_of_mem_routeLimits
  own := by
    intro route hroute c hc
    refine .inl ?_
    have hmem : (⟨route.id, c.max, c.queue.max⟩ : RouteLimits) ∈
        cfg.routeLimits :=
      AcceptedSettings.mem_routeLimits.mpr
        ⟨route, hroute, by rw [routeLimit, hc]; rfl⟩
    exact h.routes.hasLimit_applyLimits
      (fun _ => AcceptedSettings.max_le_of_mem_routeLimits)
      AcceptedSettings.nodup_routeLimits hmem

theorem InForce.onRoutes (h : s.InForce) {op : Registry.Op}
    (hop : ∀ routes, op ≠ .applyLimits routes)
    (hmax : ∀ limits ∈ op.limits, limits.max ≤ maxPermits)
    (hnew : s.earlier = [] → ∀ limits ∈ op.limits,
      s.current.limiterFor limits.id = some limits) :
    (s.onRoutes op).InForce where
  global := h.global
  tiers := h.tiers
  routes := h.routes.step hmax
  own := by
    intro route hroute c hc
    rcases h.own route hroute c hc with hlimit | ⟨hfirst, hnone⟩
    · exact .inl (h.routes.hasLimit_step hlimit hop)
    · have hown : ∀ limits ∈ op.limits, limits.id = route.id →
          limits.max = c.max := by
        intro limits hlimits hid
        have hfor : s.current.limiterFor limits.id = some limits :=
          hnew hfirst limits hlimits
        have hlisted : s.current.limiterFor route.id =
            routeLimit route.toLimitedRoute :=
          AcceptedSettings.limiterFor_of_mem hroute
        rw [hid, hlisted, routeLimit, hc, Option.map_some] at hfor
        rw [← Option.some.inj hfor]
      exact (Registry.hasLimit_step_of_none hnone hop hown).imp id
        fun hnone' => ⟨hfirst, hnone'⟩

theorem InForce.limiterFor (h : s.InForce) (request age : ℕ) (id : Str) :
    (s.limiterFor request age id).InForce := by
  unfold Serving.limiterFor
  split
  · rename_i limits hlimits
    obtain ⟨cfg, hcfg, hfor⟩ := Option.bind_eq_some_iff.mp hlimits
    refine h.onRoutes nofun ?_ ?_
    · intro limits' hmem
      rw [List.mem_singleton.mp hmem]
      exact AcceptedSettings.max_le_of_limiterFor hfor
    · intro hfirst limits' hmem
      rw [List.mem_singleton.mp hmem, AcceptedSettings.id_of_limiterFor hfor]
      -- No other file has been in force.
      have hcurrent : cfg = s.current := by
        rw [hfirst] at hcfg
        exact List.mem_singleton.mp (List.mem_of_getElem? hcfg)
      rwa [← hcurrent]
  · exact h

theorem InForce.step (h : s.InForce) (op : Op) : (s.step op).InForce := by
  cases op with
  | reload cfg => exact h.reload cfg
  | limiterFor request age id => exact h.limiterFor request age id
  | route op =>
      change (s.onRoutes (.access op)).InForce
      exact h.onRoutes nofun nofun (fun _ => nofun)
  | tier priority op =>
      refine ⟨h.global, ?_, h.routes, h.own⟩
      refine (Function.forall_update_iff s.limiters.tiers
        fun priority gate => Has gate (s.current.tierMax priority)).mpr ?_
      exact ⟨(h.tiers priority).onCall op, fun other _ => h.tiers other⟩
  | global op => exact ⟨h.global.onCall op, h.tiers, h.routes, h.own⟩
  | letGo request =>
      change (s.onRoutes (.letGo request)).InForce
      exact h.onRoutes nofun nofun (fun _ => nofun)

theorem inForce_run (first : AcceptedSettings) (ops : List Op) :
    (run step (new first) ops).InForce :=
  run_invariant (P := InForce) (fun _ op h => h.step op) (inForce_new first)
    ops

/-! ## A request that finds nobody -/

/-- Nothing is held and nobody waits. -/
structure Idle (s : Serving) : Prop where
  live_eq : ∀ c, (s.limiters.gate c).live = 0
  line_eq : ∀ c, (s.limiters.gate c).limiter.sem.waiters = []

/-- A request that has not come yet. -/
structure Fresh (s : Serving) (id : ℕ) : Prop where
  calls : ∀ c, (s.limiters.gate c).calls.lookup id = none
  handle : s.limiters.routes.handles.lookup id = none

theorem Has.room {g : Gate} {limit id weight : ℕ} (h : Has g limit)
    (hlive : g.live = 0) (hline : g.limiter.sem.waiters = [])
    (hfresh : g.calls.lookup id = none) (hpos : 0 < weight)
    (hle : weight ≤ limit) : Controller.Room g id weight where
  fresh := hfresh
  le_available := by
    have havailable := h.within.conserved.limit_le_available hlive hline
    rw [h.limit_eq] at havailable
    exact Nat.max_le.mpr ⟨hle.trans havailable,
      hpos.trans_le (hle.trans havailable)⟩

variable (s) in
/-- Asking for a limiter creates one at most. -/
theorem gate_limiterFor (request age : ℕ) (id : Str) (c : Ceiling) :
    (s.limiterFor request age id).limiters.gate c = s.limiters.gate c ∨
      ∃ limit queueMax, (s.limiterFor request age id).limiters.gate c =
        .new limit queueMax := by
  unfold limiterFor
  split
  · rename_i limits _
    cases c with
    | tier priority => exact .inl rfl
    | global => exact .inl rfl
    | route o =>
        simp only [onRoutes, Limiters.gate, Registry.step]
        split
        · exact .inl rfl
        · have hgates := s.limiters.routes.gates_routeLimiter request limits o
          exact hgates.imp_right fun hnew => ⟨limits.max, limits.queueMax, hnew⟩
  · exact .inl rfl

theorem Idle.limiterFor (h : s.Idle) (request age : ℕ) (id : Str) :
    (s.limiterFor request age id).Idle where
  live_eq := by
    intro c
    rcases s.gate_limiterFor request age id c with hold | ⟨limit, max, hnew⟩
    · rw [hold, h.live_eq]
    · rw [hnew]
      rfl
  line_eq := by
    intro c
    rcases s.gate_limiterFor request age id c with hold | ⟨limit, max, hnew⟩
    · rw [hold, h.line_eq]
    · rw [hnew]
      rfl

variable {request : ℕ} {route : RouteSettings}

theorem Fresh.calls_limiterFor (h : s.Fresh request) (age : ℕ) (id : Str)
    (c : Ceiling) :
    ((s.limiterFor request age id).limiters.gate c).calls.lookup request =
      none := by
  rcases s.gate_limiterFor request age id c with hold | ⟨limit, max, hnew⟩
  · rw [hold, h.calls]
  · rw [hnew]
    exact AList.lookup_empty _

/-- A request on a route without a ceiling is given no limiter. -/
theorem Fresh.handle_limiterFor_of_none (h : s.Fresh request)
    (hroute : route ∈ s.current.routes) (hc : route.concurrency = none) :
    (s.limiterFor request 0 route.id).limiters.routes.handles.lookup request =
      none := by
  have hfor : (s.current :: s.earlier)[0]?.bind (·.limiterFor route.id) =
      none := by
    refine (AcceptedSettings.limiterFor_of_mem hroute).trans ?_
    rw [routeLimit, hc, Option.map_none]
  simp only [Serving.limiterFor, hfor, h.handle]

/-- A request on a route with a ceiling is given the limiter of the route. -/
theorem Fresh.exists_handle_limiterFor (h : s.Fresh request)
    (hroute : route ∈ s.current.routes) {c : Concurrency}
    (hc : route.concurrency = some c) :
    let routes := (s.limiterFor request 0 route.id).limiters.routes
    ∃ o, routes.handles.lookup request = some o ∧
      routes.routes.lookup route.id = some o := by
  have hfor : (s.current :: s.earlier)[0]?.bind (·.limiterFor route.id) =
      some ⟨route.id, c.max, c.queue.max⟩ := by
    refine (AcceptedSettings.limiterFor_of_mem hroute).trans ?_
    rw [routeLimit, hc, Option.map_some]
  simp only [Serving.limiterFor, hfor, onRoutes, Registry.step, h.handle]
  exact s.limiters.routes.exists_handle_routeLimiter request
    ⟨route.id, c.max, c.queue.max⟩

theorem current_limiterFor (s : Serving) (request age : ℕ) (id : Str) :
    (s.limiterFor request age id).current = s.current := by
  unfold limiterFor
  split
  · rfl
  · rfl

/-- The limiter that a request is given has the ceiling of its route. -/
theorem InForce.limit_of_handle (h : s.InForce) {o : ℕ}
    (hfresh : s.Fresh request) (hroute : route ∈ s.current.routes)
    (ho : (s.limiterFor request 0 route.id).limiters.routes.handles.lookup
      request = some o) :
    ∃ c, route.concurrency = some c ∧
      ((s.limiterFor request 0 route.id).limiters.routes.gates
        o).limiter.limit = c.max := by
  cases hc : route.concurrency with
  | none =>
      rw [hfresh.handle_limiterFor_of_none hroute hc] at ho
      cases ho
  | some c =>
      obtain ⟨o', ho', hlookup⟩ := hfresh.exists_handle_limiterFor hroute hc
      obtain rfl : o = o' := Option.some.inj (ho.symm.trans ho')
      have hlisted : route ∈
          (s.limiterFor request 0 route.id).current.routes := by
        rwa [s.current_limiterFor]
      rcases (h.limiterFor request 0 route.id).own route hlisted c hc with
        ⟨o', hown, hlimit⟩ | ⟨-, hnone⟩
      · obtain rfl : o = o' := Option.some.inj (hlookup.symm.trans hown)
        exact ⟨c, rfl, hlimit⟩
      · rw [hnone] at hlookup
        cases hlookup

/-- The limiters in the plan of a request have room for its weight. -/
theorem InForce.room (h : s.InForce) (hidle : s.Idle) (hfresh : s.Fresh request)
    (hroute : route ∈ s.current.routes) {class' : Classifier.RequestClass}
    {c : Ceiling} (hc : c ∈ (Request.mk class'
      ((s.limiterFor request 0 route.id).limiters.routes.handles.lookup
        request) route.priority route.weight).plan) :
    Controller.Room ((s.limiterFor request 0 route.id).limiters.gate c)
      request route.weight := by
  have hasked := h.limiterFor request 0 route.id
  have hidle' := hidle.limiterFor request 0 route.id
  have hcalls := hfresh.calls_limiterFor 0 route.id c
  have hcurrent := s.current_limiterFor request 0 route.id
  obtain ⟨hpos, hmax, htier, hown⟩ := checkRouteWeight_eq_ok.mp
    (checkRouteWeight_of_checkRoute (s.current.ceilings.routes route hroute))
  rcases List.mem_append.mp hc with hrouted | hothers
  · obtain ⟨o, ho, rfl⟩ := Option.map_eq_some_iff.mp
      (Option.mem_toList.mp hrouted)
    obtain ⟨own, hconcurrency, hlimit⟩ := h.limit_of_handle hfresh hroute ho
    have hhas : Has ((s.limiterFor request 0 route.id).limiters.gate
        (.route o)) own.max :=
      ⟨hasked.routes.within o, hlimit⟩
    exact hhas.room (hidle'.live_eq _) (hidle'.line_eq _) hcalls hpos
      (hown own hconcurrency)
  · rcases List.mem_cons.mp hothers with rfl | hglobal
    · have hhas := hasked.tiers route.priority
      rw [hcurrent] at hhas
      exact hhas.room (hidle'.live_eq (.tier route.priority))
        (hidle'.line_eq (.tier route.priority)) hcalls hpos htier
    · obtain rfl := List.mem_singleton.mp hglobal
      have hhas := hasked.global
      rw [hcurrent] at hhas
      exact hhas.room (hidle'.live_eq .global) (hidle'.line_eq .global) hcalls
        hpos hmax

/-- Limiters are built from an accepted file, used and resized to others.  When
nothing is held and nobody waits, a request on any route of the file in force,
with the priority and the weight of the route and with its own limiter if it
has one, is admitted without a wait. -/
theorem accepted_admits (first : AcceptedSettings) (ops : List Op)
    (id : ℕ) (class' : Classifier.RequestClass)
    (hclass : class'.consumesOriginPermit = true)
    (hidle : (run step (new first) ops).Idle)
    (hfresh : (run step (new first) ops).Fresh id) :
    let s := run step (new first) ops
    ∀ route ∈ s.current.routes,
      let asked := s.step (.limiterFor id 0 route.id)
      let req : Request := ⟨class',
        asked.limiters.routes.handles.lookup id, route.priority, route.weight⟩
      (∀ c, route.concurrency = some c → ∃ o, req.route = some o ∧
          asked.limiters.routes.routes.lookup route.id = some o) ∧
        (route.concurrency = none → req.route = none) ∧
        (run Controller.step asked.limiters.controller (.admitRequest id req ::
          List.replicate (2 * req.plan.length) (.advance id))).admits id =
            .admitted req := by
  intro s route hroute asked req
  have h : s.InForce := inForce_run first ops
  exact ⟨fun c hc => hfresh.exists_handle_limiterFor hroute hc,
    fun hc => hfresh.handle_limiterFor_of_none hroute hc,
    Controller.admitted_of_room rfl hclass
      fun c hc => h.room hidle hfresh hroute hc⟩

/-- A ceiling of two, and no routes. -/
def smallFile : AcceptedSettings where
  origin :=
    { upstreams := ["127.0.0.1:3000".toList], concurrency := { max := 2 } }
  accepted := by decide

/-- A route that takes all of its tier and of its own ceiling. -/
def searchRoute : RouteSettings where
  id := "search".toList
  matcher := .path "/search".toList
  priority := .low
  weight := 5
  concurrency := some { max := 5 }

/-- A ceiling of ten, half of it for low priorities. -/
def tightFile : AcceptedSettings where
  origin :=
    { upstreams := ["127.0.0.1:3000".toList]
      concurrency := { max := 10 }
      priorities := { low := 50 } }
  routes := [searchRoute]
  accepted := by decide

/-- A permit of the smaller ceiling is still out at the reload and comes back
after it. -/
theorem accepted_admits_after_reload :
    let ops : List Op :=
      [.global (.tryAcquire 7 2), .reload tightFile, .global (.drop 7)]
    let s := run step (new smallFile) ops
    let asked := s.step (.limiterFor 0 0 searchRoute.id)
    let req : Request := ⟨.unknown, asked.limiters.routes.handles.lookup 0,
      searchRoute.priority, searchRoute.weight⟩
    s.Idle ∧ s.Fresh 0 ∧ searchRoute ∈ s.current.routes ∧
      req.plan = [.route 0, .tier .low, .global] ∧
      (run Controller.step asked.limiters.controller (.admitRequest 0 req ::
        List.replicate (2 * req.plan.length) (.advance 0))).admits 0 =
          .admitted req := by
  intro ops s asked req
  have hgate : ∀ c, (s.limiters.gate c).live = 0 ∧
      (s.limiters.gate c).limiter.sem.waiters = [] ∧
      (s.limiters.gate c).calls.lookup 0 = none := by
    intro c
    cases c with
    | route o =>
        by_cases heq : o = 0
        · subst heq
          exact ⟨rfl, rfl, rfl⟩
        · have hnew : s.limiters.gate (.route o) = .new 0 0 :=
            Function.update_of_ne heq _ _
          rw [hnew]
          exact ⟨rfl, rfl, rfl⟩
    | tier priority => cases priority <;> exact ⟨rfl, rfl, rfl⟩
    | global => exact ⟨rfl, rfl, rfl⟩
  have hidle : s.Idle := ⟨fun c => (hgate c).1, fun c => (hgate c).2.1⟩
  have hfresh : s.Fresh 0 := ⟨fun c => (hgate c).2.2, rfl⟩
  have hmem : searchRoute ∈ s.current.routes := List.mem_cons_self
  have hadmitted := (accepted_admits smallFile ops 0 .unknown rfl hidle hfresh
    searchRoute hmem).2.2
  refine ⟨hidle, hfresh, hmem, rfl, ?_⟩
  dsimp only [req, asked, s]
  exact hadmitted

end Serving

end Harmost.Policy
