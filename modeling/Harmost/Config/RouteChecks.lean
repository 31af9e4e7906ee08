import Harmost.Config.Settings
import Harmost.Config.Validation
import Harmost.Support.Checks
import Harmost.Support.Framing

/-!
# Validation of priorities, weights and routes

The checks of the routes of a file: the shares of the priority tiers, distinct
ids, and for each route its weight, its priority, its own ceiling and what it
reuses.  The checks run in the order of the source, and the first failure is
reported.
-/

namespace Harmost.Config

open Harmost.Support

/-- A route, with what one request on it costs and which tier it is in. -/
structure RouteSettings extends LimitedRoute where
  priority : Priority := .normal
  weight : ℕ := 1

/-- Is this the inert default, where every tier may use the whole ceiling? -/
def Priorities.isUniform (priorities : Priorities) : Bool :=
  priorities.high == 100 && priorities.normal == 100 && priorities.low == 100

/-- `usize::saturating_mul`. -/
def saturatingMul (a b : ℕ) : ℕ :=
  min (a * b) (2 ^ 64 - 1)

/-! ## Durations in messages -/

/-- A number with a fraction of so many digits, without its last zeros. -/
def debugDecimal (whole fraction digits : ℕ) (unit : String) : Str :=
  let padded := List.replicate (digits - (decimal fraction).length) '0' ++
    decimal fraction
  let shown := padded.rdropWhile (· == '0')
  decimal whole ++ (if shown.isEmpty then [] else '.' :: shown) ++ unit.toList

/-- `Duration` as `{:?}` prints it. -/
def debugDuration (d : Duration) : Str :=
  if 1000000000 ≤ d then
    debugDecimal (d / 1000000000) (d % 1000000000) 9 "s"
  else if 1000000 ≤ d then debugDecimal (d / 1000000) (d % 1000000) 6 "ms"
  else if 1000 ≤ d then debugDecimal (d / 1000) (d % 1000) 3 "µs"
  else debugDecimal d 0 0 "ns"

example : debugDuration 1500000000 = "1.5s".toList := by decide

/-! ## Ceilings and queues -/

/-- The most permits a semaphore of the runtime can hold. -/
def maxPermits : ℕ := 2 ^ 61 - 1

def maxQueueTimeout : Duration := Duration.fromSecs 3600

def checkConcurrencyMax (value : ℕ) (path : Str) : Except Str Unit :=
  reject (decide (maxPermits < value))
    (path ++ " is ".toList ++ decimal value ++
      ", greater than Tokio's semaphore maximum of ".toList ++
      decimal maxPermits)

def checkQueue (concurrency : Concurrency) (path : Str) : Except Str Unit :=
  (reject (decide (0 < concurrency.queue.max) &&
      concurrency.queue.timeout == 0)
    (path ++ ".queue.max is ".toList ++ decimal concurrency.queue.max ++
      (" but queue.timeout is 0; a queue with no deadline is unbounded in " ++
        "time").toList)).bind fun _ =>
  reject (decide (maxQueueTimeout < concurrency.queue.timeout))
    (path ++ ".queue.timeout is ".toList ++
      debugDuration concurrency.queue.timeout ++ ", longer than the ".toList ++
      debugDuration maxQueueTimeout ++
      (" maximum; a request waiting that long for a permit has already " ++
        "failed somewhere else").toList)

/-! ## Priorities -/

section Checks

variable (origin : Origin)

/-- The check of one tier. -/
def validatePriority (priority : Priority) : Except Str Unit :=
  let max := origin.concurrency.max
  let percent := origin.priorities.percentFor priority
  let name := "origin.priorities.".toList ++ priority.name
  (reject (!(decide (1 ≤ percent) && decide (percent ≤ 100)))
    (name ++ " is ".toList ++ decimal percent ++
      ("; it is a percentage of origin.concurrency.max and must be between " ++
        "1 and 100").toList)).bind fun _ =>
  reject (saturatingMul max percent / 100 == 0)
    (name ++ " is ".toList ++ decimal percent ++
      "% of an origin.concurrency.max of ".toList ++ decimal max ++
      (", which rounds to a ceiling of 0 and would refuse every request at " ++
        "that priority. Raise the share to at least ").toList ++
      decimal ((100 + (Nat.max max 1 - 1)) / Nat.max max 1) ++
      "%, or raise concurrency.max".toList)

def validatePriorities : Except Str Unit :=
  (validatePriority origin .high).bind fun _ =>
  (validatePriority origin .normal).bind fun _ =>
  validatePriority origin .low

/-! ## Routes -/

variable (route : RouteSettings)

/-- The ceiling of the tier a route is in. -/
def tierOf : ℕ :=
  max (saturatingMul origin.concurrency.max
    (origin.priorities.percentFor route.priority) / 100) 1

/-- The end of the messages about a weight. -/
def neverAdmitted : Str :=
  ", so no request on this route could ever be admitted".toList

def checkRouteWeight : Except Str Unit :=
  let label := routeLabel route.id ++ ": weight ".toList
  let exceeds := label ++ decimal route.weight ++ " exceeds ".toList
  (reject (route.weight == 0)
    (label ++ ("is 0, which would take no capacity and bound nothing; omit " ++
      "the key to take the default of 1").toList)).bind fun _ =>
  (reject (decide (origin.concurrency.max < route.weight))
    (exceeds ++ "origin.concurrency.max (".toList ++
      decimal origin.concurrency.max ++ ")".toList ++ neverAdmitted)).bind
    fun _ =>
  (reject (decide (tierOf origin route < route.weight))
    (exceeds ++ "the ceiling of its `".toList ++ route.priority.name ++
      "` priority tier (".toList ++ decimal (tierOf origin route) ++
      " = ".toList ++
      decimal (origin.priorities.percentFor route.priority) ++
      "% of origin.concurrency.max)".toList ++ neverAdmitted)).bind fun _ =>
  reject (route.concurrency.any fun c => decide (c.max < route.weight))
    (exceeds ++ "its own concurrency.max (".toList ++
      decimal ((route.concurrency.map Concurrency.max).getD 0) ++
      ")".toList ++ neverAdmitted)

/-- The checks of a route's own ceiling. -/
def checkRouteConcurrency (id : Str) (concurrency : Concurrency) :
    Except Str Unit :=
  (reject (concurrency.max == 0) (routeLabel id ++
    ": concurrency.max is 0, which admits nothing".toList)).bind fun _ =>
  (checkConcurrencyMax concurrency.max
    (routeLabel id ++ ".concurrency.max".toList)).bind fun _ =>
  checkQueue concurrency (routeLabel id ++ ".concurrency".toList)

def checkRoute : Except Str Unit :=
  (checkRouteWeight origin route).bind fun _ =>
  (reject (route.priority != .normal && origin.priorities.isUniform)
    (routeLabel route.id ++ " sets priority: ".toList ++
      route.priority.name ++
      (" but origin.priorities leaves every tier at 100%, so every priority " ++
        "competes for the same ceiling and the setting does nothing. Lower " ++
        "the share of the tiers this route should outrank — for example " ++
        "`origin.priorities: \x7b low: 50 \x7d` to keep half the origin " ++
        "ceiling away from low-priority work").toList)).bind fun _ =>
  ((route.concurrency.map (checkRouteConcurrency route.id)).getD
    (.ok ())).bind fun _ =>
  checkRouteReuse route.toRoute

/-- The loop over the routes of a file. -/
def checkRouteList (seen : List Str) : List RouteSettings → Except Str Unit
  | [] => .ok ()
  | route :: rest =>
      (reject (seen.contains route.id)
        ("duplicate route id `".toList ++ route.id ++ "`".toList)).bind fun _ =>
      (checkRoute origin route).bind fun _ =>
      checkRouteList (route.id :: seen) rest

end Checks

/-! ## The file -/

/-- A budget of the origin that is split over several processes. -/
structure CapacityGroup where
  globalMax : ℕ
  replicas : ℕ

/-- What the checks of the ceilings and of the routes read. -/
structure CapacitySettings where
  origin : Origin
  capacity : Option CapacityGroup := none
  routes : List RouteSettings := []

namespace CapacitySettings

variable (cfg : CapacitySettings)

def validateCapacityGroup : Except Str Unit :=
  match cfg.capacity with
  | none => .ok ()
  | some group =>
      let allocated := cfg.origin.concurrency.max * group.replicas
      (reject (group.globalMax == 0)
        "capacity.global_max must be greater than zero".toList).bind fun _ =>
      (reject (group.replicas == 0)
        "capacity.replicas must be greater than zero".toList).bind fun _ =>
      (reject (decide (2 ^ 64 ≤ allocated))
        "capacity allocation overflows this platform".toList).bind fun _ =>
      reject (decide (group.globalMax < allocated))
        ("origin.concurrency.max (".toList ++
          decimal cfg.origin.concurrency.max ++
          ") across capacity.replicas (".toList ++ decimal group.replicas ++
          ") allocates ".toList ++ decimal allocated ++
          ", which exceeds capacity.global_max (".toList ++
          decimal group.globalMax ++ ")".toList)

/-- The checks of `validate` on the ceilings and the routes.  The others only
refuse more. -/
def validate : Except Str Unit :=
  (reject cfg.origin.upstreams.isEmpty
    "origin.upstreams is empty; there is nothing to proxy to".toList).bind
    fun _ =>
  (reject (cfg.origin.concurrency.max == 0)
    ("origin.concurrency.max is 0, which admits nothing; omit the key to " ++
      "take the default").toList).bind fun _ =>
  (checkConcurrencyMax cfg.origin.concurrency.max
    "origin.concurrency.max".toList).bind fun _ =>
  cfg.validateCapacityGroup.bind fun _ =>
  (checkQueue cfg.origin.concurrency "origin.concurrency".toList).bind fun _ =>
  (validatePriorities cfg.origin).bind fun _ =>
  checkRouteList cfg.origin [] cfg.routes

end CapacitySettings

/-! ## What is accepted -/

theorem reject_eq_ok {condition : Bool} {message : Str} {u : Unit} :
    reject condition message = .ok u ↔ condition = false := by
  cases condition <;> simp [reject]

/-! ### The reuse settings -/

theorem checkVaryName_eq_ok {id h : Str} :
    checkVaryName id h = .ok () ↔
      toAsciiLowercase h ∉ ["cookie".toList, "authorization".toList,
        "user-agent".toList, "*".toList] := by
  rw [checkVaryName]
  generalize toAsciiLowercase h = lower
  have hmem : lower ∈ ["cookie".toList, "authorization".toList,
        "user-agent".toList, "*".toList] ↔
      (lower = "cookie".toList ∨ lower = "authorization".toList) ∨
        (lower = "user-agent".toList ∨ lower = "*".toList) := by
    simp only [List.mem_cons, List.not_mem_nil, or_false, or_assoc]
  rw [hmem, not_or]
  by_cases hcredential : lower = "cookie".toList ∨
      lower = "authorization".toList
  · rw [if_pos hcredential]
    exact iff_of_false nofun fun hother => hother.1 hcredential
  · rw [if_neg hcredential]
    by_cases hunbounded : lower = "user-agent".toList ∨ lower = "*".toList
    · rw [if_pos hunbounded]
      exact iff_of_false nofun fun hother => hother.2 hunbounded
    · rw [if_neg hunbounded]
      exact iff_of_true rfl ⟨hcredential, hunbounded⟩

theorem checkVaryNames_eq_ok {id : Str} {headers : List Str} :
    checkVaryNames id headers = .ok () ↔
      ∀ h ∈ headers, toAsciiLowercase h ∉ ["cookie".toList,
        "authorization".toList, "user-agent".toList, "*".toList] := by
  induction headers with
  | nil => exact iff_of_true rfl (List.forall_mem_nil _)
  | cons h rest ih =>
      rw [checkVaryNames, bind_unit_eq_ok, checkVaryName_eq_ok, ih,
        List.forall_mem_cons]

theorem checkVaryDistinct_eq_ok {id : Str} {seen headers : List Str} :
    checkVaryDistinct id seen headers = .ok () ↔
      (∀ h ∈ headers, Http.isHeaderName h = true) ∧
        (headers.map toAsciiLowercase).Nodup ∧
        ∀ h ∈ headers, toAsciiLowercase h ∉ seen := by
  induction headers generalizing seen with
  | nil => simp [checkVaryDistinct]
  | cons h rest ih =>
      rw [checkVaryDistinct, List.forall_mem_cons, List.forall_mem_cons,
        List.map_cons, List.nodup_cons]
      split_ifs with hname hseen
      · simp only [Bool.not_eq_true'] at hname
        simp [hname]
      · rw [List.contains_iff_mem] at hseen
        simp [hseen]
      · rw [ih]
        simp only [List.mem_cons, not_or, List.mem_map, not_exists, not_and]
        simp only [Bool.not_eq_true', Bool.not_eq_false] at hname
        rw [List.contains_iff_mem] at hseen
        constructor
        · rintro ⟨hnames, hnodup, hfresh⟩
          exact ⟨⟨hname, hnames⟩,
            ⟨fun other hmem heq => (hfresh other hmem).1 heq, hnodup⟩, hseen,
            fun other hmem => (hfresh other hmem).2⟩
        · rintro ⟨⟨-, hnames⟩, ⟨hnew, hnodup⟩, -, hfresh⟩
          exact ⟨hnames, hnodup,
            fun other hmem => ⟨hnew other hmem, hfresh other hmem⟩⟩

theorem checkOverride_eq_ok {route : Route} {cache : RouteCache} :
    checkOverride route cache = .ok () ↔
      (cache.overrideOrigin = true →
        route.class? ≠ some .privateDynamic ∧ route.class? ≠ none ∧
          (cache.ttl.bind Ttl.max).isSome = true) := by
  rw [checkOverride]
  split_ifs with hoff hprivate hnone
  · simp only [Bool.not_eq_true'] at hoff
    simp [hoff]
  · simp only [Bool.not_eq_true', Bool.not_eq_false] at hoff
    simp [hoff, hprivate]
  · simp only [Bool.not_eq_true', Bool.not_eq_false] at hoff
    simp [hoff, hnone]
  · simp only [Bool.not_eq_true', Bool.not_eq_false] at hoff
    rw [reject_eq_ok, ← Option.not_isSome]
    simp [hoff, hprivate, hnone]

theorem checkCache_eq_ok {route : Route} {cache : RouteCache} :
    checkCache route cache = .ok () ↔
      (route.class? = some .privateDynamic → cache.enabled ≠ some true) ∧
        checkOverride route cache = .ok () ∧
        checkVaryNames route.id
          ((cache.vary.map VaryPolicy.headers).getD []) = .ok () ∧
        ∀ query, cache.query = some query → query.keys ≠ [] := by
  rw [checkCache, bind_unit_eq_ok, bind_unit_eq_ok, bind_unit_eq_ok,
    reject_eq_ok, reject_eq_ok]
  cases cache.query <;> simp

theorem checkCoalesce_eq_ok {route : Route} {coalesce : RouteCoalesce} :
    checkCoalesce route coalesce = .ok () ↔
      (coalesce.overrideOrigin = true →
        route.class? ≠ some .privateDynamic ∧
          coalesce.enabled ≠ some false) := by
  rw [checkCoalesce, bind_unit_eq_ok, reject_eq_ok, reject_eq_ok]
  cases coalesce.overrideOrigin <;> simp

theorem checkRouteReuse_eq_ok {route : Route} :
    checkRouteReuse route = .ok () ↔
      (∀ cache, route.cache = some cache → checkCache route cache = .ok ()) ∧
        (∀ coalesce, route.coalesce = some coalesce →
          checkCoalesce route coalesce = .ok ()) ∧
        checkVaryDistinct route.id [] (((route.cache.bind
          RouteCache.vary).map VaryPolicy.headers).getD []) = .ok () := by
  have hoption : ∀ {α : Type} (setting : Option α) (f : α → Except Str Unit),
      (setting.map f).getD (.ok ()) = .ok () ↔
        ∀ a, setting = some a → f a = .ok () := by
    intro α setting f
    cases setting <;> simp
  rw [checkRouteReuse, bind_unit_eq_ok, bind_unit_eq_ok, hoption, hoption]

/-! ### Priorities and routes -/

variable {origin : Origin} {route : RouteSettings}

theorem validatePriority_eq_ok {priority : Priority} :
    validatePriority origin priority = .ok () ↔
      1 ≤ origin.priorities.percentFor priority ∧
        origin.priorities.percentFor priority ≤ 100 ∧
        saturatingMul origin.concurrency.max
          (origin.priorities.percentFor priority) / 100 ≠ 0 := by
  rw [validatePriority, bind_unit_eq_ok, reject_eq_ok, reject_eq_ok]
  simp [and_assoc]

theorem validatePriorities_eq_ok :
    validatePriorities origin = .ok () ↔
      ∀ priority, validatePriority origin priority = .ok () := by
  rw [validatePriorities, bind_unit_eq_ok, bind_unit_eq_ok]
  constructor
  · rintro ⟨hhigh, hnormal, hlow⟩ priority
    cases priority with
    | high => exact hhigh
    | normal => exact hnormal
    | low => exact hlow
  · intro h
    exact ⟨h .high, h .normal, h .low⟩

/-- A weight fits every ceiling it is charged against. -/
theorem checkRouteWeight_eq_ok :
    checkRouteWeight origin route = .ok () ↔
      0 < route.weight ∧ route.weight ≤ origin.concurrency.max ∧
        route.weight ≤ tierOf origin route ∧
        ∀ c, route.concurrency = some c → route.weight ≤ c.max := by
  rw [checkRouteWeight, bind_unit_eq_ok, bind_unit_eq_ok, bind_unit_eq_ok]
  simp only [reject_eq_ok]
  cases route.concurrency <;> simp [Nat.pos_iff_ne_zero]

theorem checkRoute_eq_ok (hconcurrency : route.concurrency = none) :
    checkRoute origin route = .ok () ↔
      checkRouteWeight origin route = .ok () ∧
        (route.priority = .normal ∨ origin.priorities.isUniform = false) ∧
        checkRouteReuse route.toRoute = .ok () := by
  rw [checkRoute, bind_unit_eq_ok, bind_unit_eq_ok, bind_unit_eq_ok,
    reject_eq_ok, hconcurrency]
  simp [or_iff_not_imp_left]

/-- Ids are distinct, and every route passes its own checks. -/
theorem checkRouteList_eq_ok {seen : List Str} {routes : List RouteSettings} :
    checkRouteList origin seen routes = .ok () ↔
      (routes.map fun route => route.id).Nodup ∧
        (∀ route ∈ routes, route.id ∉ seen) ∧
        ∀ route ∈ routes, checkRoute origin route = .ok () := by
  induction routes generalizing seen with
  | nil => simp [checkRouteList]
  | cons route rest ih =>
      have hseen : seen.contains route.id = false ↔ route.id ∉ seen := by
        simp
      rw [checkRouteList, bind_unit_eq_ok, bind_unit_eq_ok, reject_eq_ok, ih,
        hseen, List.forall_mem_cons, List.forall_mem_cons, List.map_cons,
        List.nodup_cons]
      simp only [List.mem_cons, not_or, List.mem_map, not_exists, not_and]
      constructor
      · rintro ⟨hfresh, hroute, hnodup, hids, hrest⟩
        exact ⟨⟨fun other hmem heq => (hids other hmem).1 heq, hnodup⟩,
          ⟨hfresh, fun other hmem => (hids other hmem).2⟩, hroute, hrest⟩
      · rintro ⟨⟨hnew, hnodup⟩, ⟨hfresh, hids⟩, hroute, hrest⟩
        exact ⟨hfresh, hroute, hnodup,
          fun other hmem => ⟨hnew other hmem, hids other hmem⟩, hrest⟩

theorem checkRouteWeight_of_checkRoute
    (h : checkRoute origin route = .ok ()) :
    checkRouteWeight origin route = .ok () := by
  rw [checkRoute, bind_unit_eq_ok] at h
  exact h.1

/-- A route with a ceiling of its own keeps it within what a semaphore can
hold. -/
theorem le_maxPermits_of_checkRoute {c : Concurrency}
    (h : checkRoute origin route = .ok ())
    (hconcurrency : route.concurrency = some c) : c.max ≤ maxPermits := by
  rw [checkRoute, bind_unit_eq_ok, bind_unit_eq_ok, bind_unit_eq_ok,
    hconcurrency] at h
  have hown : checkRouteConcurrency route.id c = .ok () := h.2.2.1
  rw [checkRouteConcurrency, bind_unit_eq_ok, bind_unit_eq_ok,
    checkConcurrencyMax, reject_eq_ok, reject_eq_ok] at hown
  exact Nat.le_of_not_lt (of_decide_eq_false hown.2.1)

namespace CapacitySettings

variable {cfg : CapacitySettings}

/-- What an accepted file says of its ceilings. -/
structure Ceilings (cfg : CapacitySettings) : Prop where
  max_pos : 0 < cfg.origin.concurrency.max
  max_le : cfg.origin.concurrency.max ≤ maxPermits
  priorities : ∀ priority, cfg.origin.priorities.percentFor priority ≤ 100
  nodup : (cfg.routes.map fun route => route.id).Nodup
  routes : ∀ route ∈ cfg.routes, checkRoute cfg.origin route = .ok ()

theorem ceilings_of_validate (h : cfg.validate = .ok ()) : cfg.Ceilings := by
  rw [validate, bind_unit_eq_ok, bind_unit_eq_ok, bind_unit_eq_ok,
    bind_unit_eq_ok, bind_unit_eq_ok, bind_unit_eq_ok, reject_eq_ok,
    reject_eq_ok, checkConcurrencyMax, reject_eq_ok, validatePriorities_eq_ok,
    checkRouteList_eq_ok] at h
  obtain ⟨-, hzero, hmax, -, -, hpriorities, hnodup, -, hroutes⟩ := h
  exact
    { max_pos := Nat.pos_of_ne_zero (ne_of_beq_false hzero)
      max_le := Nat.le_of_not_lt (of_decide_eq_false hmax)
      priorities := fun priority =>
        (validatePriority_eq_ok.mp (hpriorities priority)).2.1
      nodup := hnodup
      routes := hroutes }

end CapacitySettings

end Harmost.Config
