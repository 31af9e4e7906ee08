import Harmost.Config.RouteChecks
import Harmost.Config.Units
import Harmost.Next.Generate
import Harmost.Policy.Snapshot

/-!
# Reading a generated configuration

What Harmost reads out of a generated file, and which of its own checks the
durations, methods, ids, weights and priorities of that file then meet.
-/

namespace Harmost.Next

open Harmost.Support
open Harmost.Config
open Harmost.Policy

/-! ## The capacity -/

/-- The options of `resolveCapacity`, which are integers if they are numbers it
accepts. -/
structure CapacityOptions where
  concurrency : Option ℤ := none
  globalConcurrency : Option ℤ := none
  replicas : Option ℤ := none

/-- What one process may ask of the origin at once, and the budget it is part
of. -/
structure Capacity where
  concurrency : ℕ
  /-- The budget of the group, and over how many replicas it is split. -/
  group : Option (ℕ × ℕ) := none

/-- `Number.MAX_SAFE_INTEGER`. -/
def maxSafeInteger : ℕ := 2 ^ 53 - 1

def positiveInteger (value : ℤ) (name : String) : Except Str ℕ :=
  if value < 1 ∨ maxSafeInteger < value then
    .error (name ++ " must be a positive safe integer").toList
  else .ok value.toNat

def resolveCapacity (options : CapacityOptions) : Except Str Capacity :=
  match options.concurrency, options.globalConcurrency, options.replicas with
  | none, none, none => .ok { concurrency := 200 }
  | some concurrency, none, none =>
      (positiveInteger concurrency "concurrency").map fun concurrency =>
        { concurrency := concurrency }
  | none, some globalMax, some replicas =>
      (positiveInteger globalMax "globalConcurrency").bind fun globalMax =>
      (positiveInteger replicas "replicas").bind fun replicas =>
        if globalMax / replicas < 1 then
          .error ("globalConcurrency ".toList ++ decimal globalMax ++
            " cannot be partitioned across ".toList ++ decimal replicas ++
            " replicas".toList)
        else
          .ok { concurrency := globalMax / replicas
                group := some (globalMax, replicas) }
  | some _, some _, some _ =>
      .error ("pass either `concurrency` or the global concurrency and " ++
        "replica count, not both").toList
  | _, _, _ =>
      .error ("static partitioning requires both `globalConcurrency` and " ++
        "`replicas`").toList

theorem positiveInteger_eq_ok {value : ℤ} {name : String} {n : ℕ}
    (h : positiveInteger value name = .ok n) : 1 ≤ n ∧ n ≤ maxSafeInteger := by
  rw [positiveInteger] at h
  split_ifs at h with hrange
  cases h
  omega

theorem concurrency_of_resolveCapacity {options : CapacityOptions}
    {capacity : Capacity} (h : resolveCapacity options = .ok capacity) :
    1 ≤ capacity.concurrency ∧ capacity.concurrency ≤ maxSafeInteger := by
  rw [resolveCapacity] at h
  split at h
  · cases h
    decide
  · obtain ⟨n, hn, rfl⟩ := map_eq_ok.mp h
    exact positiveInteger_eq_ok hn
  · obtain ⟨n, hn, h⟩ := bind_eq_ok.mp h
    obtain ⟨m, -, h⟩ := bind_eq_ok.mp h
    split_ifs at h with hsmall
    cases h
    exact ⟨Nat.le_of_not_lt hsmall,
      (Nat.div_le_self n m).trans (positiveInteger_eq_ok hn).2⟩
  · cases h
  · cases h

/-! ## The origin block -/

namespace Options

variable (options : Options)

/-- The share of the low tier, wide enough for one image. -/
def effectiveLowPriorityPercent (lowPriorityPercent : ℕ) : ℕ :=
  if !options.upstreams.isEmpty && options.imageUsesPriority then
    max lowPriorityPercent
      ((options.imageWeight * 100 + (options.concurrency - 1)) /
        options.concurrency)
  else lowPriorityPercent

/-- The origin block, which is written when there are upstreams. -/
def origin (lowPriorityPercent : ℕ) : Origin where
  upstreams := options.upstreams
  concurrency := { max := options.concurrency }
  priorities :=
    if options.imageUsesPriority then
      { low := options.effectiveLowPriorityPercent lowPriorityPercent }
    else {}

end Options

/-! ## The routes -/

def readDuration : Option Str → Except Str (Option Duration)
  | none => .ok none
  | some text => (Dur.parse text).map some

def readCache : Option GeneratedCache → Except Str (Option RouteCache)
  | none => .ok none
  | some cache =>
      (readDuration cache.ttlMax).bind fun ttl =>
      (readDuration cache.staleIfError).map fun staleIfError =>
        some
          { enabled := cache.enabled
            ttl := ttl.map fun max => { max := some max }
            staleIfError := staleIfError
            query := cache.queryKeys.map fun keys => ⟨.«include», keys⟩
            vary := cache.varyHeaders.map VaryPolicy.mk
            overrideOrigin := cache.overrideOrigin }

/-- `emitMatch`, as it is read. -/
def Draft.matcher (draft : Draft) : Matcher :=
  match draft.methods with
  | none => .path draft.path
  | some methods => .detailed none draft.path (some methods)

/-- One item of the route list, as it is read. -/
def readRoute (route : GeneratedRoute) : Except Str RouteSettings :=
  (readCache route.cache).map fun cache =>
    { id := route.id
      matcher := route.matcher
      class? := some route.routeClass
      cache := cache
      coalesce := route.coalesce.map fun coalesce =>
        { enabled := some coalesce.enabled
          overrideOrigin := coalesce.overrideOrigin }
      priority := route.priority.getD .normal
      weight := route.weight.getD 1 }

def readRoutes : List GeneratedRoute → Except Str (List RouteSettings)
  | [] => .ok []
  | route :: rest =>
      (readRoute route).bind fun first =>
        (readRoutes rest).map (first :: ·)

/-- A matcher compiles, unless its pattern is no glob. -/
def Compiles (id : Str) (matcher : Matcher) : Prop :=
  ∀ globNew : GlobCompiler, (∀ pattern, ∃ glob, globNew pattern = .ok glob) →
    ∃ compiled, CompiledMatcher.compile globNew id matcher = .ok compiled

/-- Every duration is read, the priorities, ids, weights and routes pass their
checks, and every matcher compiles. -/
def Accepted (origin : Origin) (routes : List GeneratedRoute) : Prop :=
  ∃ settings, readRoutes routes = .ok settings ∧
    validatePriorities origin = .ok () ∧
    checkRouteList origin [] settings = .ok () ∧
    ∀ route ∈ settings, Compiles route.id route.matcher

/-! ## What the checks demand of a route, whatever its id -/

/-- The durations a route is written with. -/
def Draft.durations (draft : Draft) : List Str :=
  (draft.cache.bind GeneratedCache.ttlMax).toList ++
    (draft.cache.bind GeneratedCache.staleIfError).toList

/-- The headers a route is written to vary on. -/
def Draft.varyHeaders (draft : Draft) : List Str :=
  (draft.cache.bind GeneratedCache.varyHeaders).getD []

/-- A method the matcher knows. -/
def isKnown (method : Str) : Bool :=
  (Http.Method.parse method).any isKnownMethod

/-- The demands on the settings of `cache` and `coalesce`. -/
structure Draft.ReusePasses (draft : Draft) : Prop where
  isPrivate : ∀ cache, draft.cache = some cache →
    draft.routeClass = .privateDynamic →
      cache.enabled ≠ some true ∧ cache.overrideOrigin = false
  override : ∀ cache, draft.cache = some cache →
    cache.overrideOrigin = true → cache.ttlMax.isSome = true
  query : ∀ keys, draft.cache.bind GeneratedCache.queryKeys = some keys →
    keys ≠ []
  coalesce : ∀ coalesce, draft.coalesce = some coalesce →
    coalesce.overrideOrigin = true →
      draft.routeClass ≠ .privateDynamic ∧ coalesce.enabled = true
  vary : ∀ header ∈ draft.varyHeaders, Http.isHeaderName header = true ∧
    toAsciiLowercase header ∉ ["cookie".toList, "authorization".toList,
      "user-agent".toList, "*".toList]
  distinct : (draft.varyHeaders.map toAsciiLowercase).Nodup

/-- The demands on everything a route is written with. -/
structure Draft.Passes (origin : Origin) (draft : Draft) : Prop where
  durations : ∀ text ∈ draft.durations, ∃ d, Dur.parse text = .ok d
  methods : ∀ methods, draft.methods = some methods →
    ∀ method ∈ methods, isKnown method = true
  weight : 0 < draft.weight.getD 1 ∧
    draft.weight.getD 1 ≤ origin.concurrency.max ∧
    draft.weight.getD 1 ≤ max (saturatingMul origin.concurrency.max
      (origin.priorities.percentFor
        (draft.priority.getD .normal)) / 100) 1
  priority : draft.priority.getD .normal = .normal ∨
    origin.priorities.isUniform = false
  reuse : draft.ReusePasses

theorem readDuration_eq_ok_iff {text : Option Str} :
    (∃ d, readDuration text = .ok d) ↔
      ∀ t ∈ text.toList, ∃ d, Dur.parse t = .ok d := by
  cases text with
  | none => simp [readDuration]
  | some t => simp [readDuration, map_eq_ok]

theorem readRoute_eq_ok_iff {route : GeneratedRoute} :
    (∃ settings, readRoute route = .ok settings) ↔
      ∀ text ∈ route.durations, ∃ d, Dur.parse text = .ok d := by
  have hread : (∃ settings, readRoute route = .ok settings) ↔
      ∃ cache, readCache route.cache = .ok cache := by
    simp only [readRoute, map_eq_ok]
    constructor
    · rintro ⟨_, cache, hcache, -⟩
      exact ⟨cache, hcache⟩
    · rintro ⟨cache, hcache⟩
      exact ⟨_, cache, hcache, rfl⟩
  rw [hread, Draft.durations]
  cases route.cache with
  | none => simp [readCache]
  | some cache =>
      simp only [readCache, bind_eq_ok, map_eq_ok, Option.bind_some,
        List.forall_mem_append, ← readDuration_eq_ok_iff]
      constructor
      · rintro ⟨_, ttl, httl, stale, hstale, -⟩
        exact ⟨⟨ttl, httl⟩, ⟨stale, hstale⟩⟩
      · rintro ⟨⟨ttl, httl⟩, ⟨stale, hstale⟩⟩
        exact ⟨_, ttl, httl, stale, hstale, rfl⟩

theorem compileMethods_eq_ok_iff (id : Str) {methods : List Str} :
    (∃ compiled, CompiledMatcher.compileMethods id methods = .ok compiled) ↔
      ∀ method ∈ methods, isKnown method = true := by
  induction methods with
  | nil => simp [CompiledMatcher.compileMethods]
  | cons method rest ih =>
      rw [List.forall_mem_cons, ← ih, CompiledMatcher.compileMethods, isKnown]
      cases hparse : Http.Method.parse method with
      | none => simp
      | some known =>
          cases hknown : isKnownMethod known with
          | false => simp [Option.filter, hknown]
          | true => simp [Option.filter, hknown, map_eq_ok]

/-- A matcher compiles exactly if its methods are known. -/
theorem compiles_iff {id : Str} {draft : Draft} :
    Compiles id draft.matcher ↔
      ∀ methods, draft.methods = some methods →
        ∀ method ∈ methods, isKnown method = true := by
  rw [Compiles, Draft.matcher]
  cases draft.methods with
  | none =>
      refine iff_of_true (fun globNew hglob => ?_) (by simp)
      obtain ⟨glob, hglob⟩ := hglob draft.path
      simp [CompiledMatcher.compile, CompiledMatcher.compileParts, hglob]
  | some methods =>
      simp only [Option.some.injEq, forall_eq', ← compileMethods_eq_ok_iff id]
      constructor
      · intro h
        obtain ⟨compiled, hcompiled⟩ := h (fun _ => .ok ⟨fun _ => true⟩)
          fun _ => ⟨_, rfl⟩
        obtain ⟨known, hknown, -⟩ := map_eq_ok.mp hcompiled
        exact ⟨known, hknown⟩
      · rintro ⟨known, hknown⟩ globNew hglob
        obtain ⟨glob, hglob⟩ := hglob draft.path
        simp [CompiledMatcher.compile, CompiledMatcher.compileParts, hglob,
          hknown, Except.map]

/-- What is read of `cache` says what was written, once its durations are
read. -/
theorem readCache_some {cache : GeneratedCache} {read : Option RouteCache}
    (h : readCache (some cache) = .ok read) :
    ∃ settings, read = some settings ∧ settings.enabled = cache.enabled ∧
      settings.overrideOrigin = cache.overrideOrigin ∧
      (settings.ttl.bind Ttl.max).isSome = cache.ttlMax.isSome ∧
      settings.query = cache.queryKeys.map (fun keys => ⟨.«include», keys⟩) ∧
      (settings.vary.map VaryPolicy.headers).getD [] =
        cache.varyHeaders.getD [] := by
  obtain ⟨ttl, httl, h⟩ := bind_eq_ok.mp h
  obtain ⟨stale, -, rfl⟩ := map_eq_ok.mp h
  refine ⟨_, rfl, rfl, rfl, ?_, rfl, ?_⟩
  · cases hmax : cache.ttlMax with
    | none =>
        rw [hmax] at httl
        cases httl
        rfl
    | some text =>
        rw [hmax] at httl
        obtain ⟨d, -, rfl⟩ := map_eq_ok.mp httl
        rfl
  · cases cache.varyHeaders with
    | none => rfl
    | some headers => rfl

theorem queryKeys_read {cache : GeneratedCache} :
    (∀ query : QueryPolicy,
      cache.queryKeys.map (fun keys => ⟨.«include», keys⟩) = some query →
        query.keys ≠ []) ↔
      ∀ keys, cache.queryKeys = some keys → keys ≠ [] := by
  cases cache.queryKeys with
  | none => simp
  | some keys => simp

theorem coalesce_read {route : GeneratedRoute} :
    (∀ coalesce, (route.coalesce.map fun coalesce =>
      ({ enabled := some coalesce.enabled
         overrideOrigin := coalesce.overrideOrigin } : RouteCoalesce)) =
        some coalesce → coalesce.overrideOrigin = true →
          some route.routeClass ≠ some .privateDynamic ∧
            coalesce.enabled ≠ some false) ↔
      ∀ coalesce, route.coalesce = some coalesce →
        coalesce.overrideOrigin = true →
          route.routeClass ≠ .privateDynamic ∧ coalesce.enabled = true := by
  cases route.coalesce with
  | none => simp
  | some coalesce => simp

theorem checkRouteReuse_readRoute {route : GeneratedRoute}
    {settings : RouteSettings} (h : readRoute route = .ok settings) :
    checkRouteReuse settings.toRoute = .ok () ↔ route.ReusePasses := by
  obtain ⟨read, hread, rfl⟩ := map_eq_ok.mp h
  simp only [checkRouteReuse_eq_ok, checkCache_eq_ok, checkOverride_eq_ok,
    checkVaryNames_eq_ok, checkCoalesce_eq_ok, checkVaryDistinct_eq_ok,
    coalesce_read]
  cases hcache : route.cache with
  | none =>
      rw [hcache] at hread
      cases hread
      constructor
      · rintro ⟨-, hcoalesce, -⟩
        exact ⟨by simp [hcache], by simp [hcache], by simp [hcache], hcoalesce,
          by simp [Draft.varyHeaders, hcache],
          by simp [Draft.varyHeaders, hcache]⟩
      · intro h
        exact ⟨by simp, h.coalesce, by simp⟩
  | some cache =>
      rw [hcache] at hread
      obtain ⟨settings, rfl, henabled, hover, httl, hquery, hvary⟩ :=
        readCache_some hread
      have hheaders : cache.varyHeaders.getD [] = route.varyHeaders := by
        rw [Draft.varyHeaders, hcache]
        rfl
      simp only [Option.some.injEq, forall_eq', Option.bind_some, hvary,
        hheaders, henabled, hover, httl, hquery, queryKeys_read]
      constructor
      · rintro ⟨⟨hprivate, hoverride, hnames, hkeys⟩, hcoalesce, hvalid,
          hnodup, -⟩
        refine ⟨?_, ?_, ?_, hcoalesce,
          fun header hmem => ⟨hvalid header hmem, hnames header hmem⟩, hnodup⟩
        · rintro _ heq hclass
          obtain rfl := Option.some.inj (hcache.symm.trans heq)
          refine ⟨hprivate hclass, Bool.eq_false_iff.mpr fun htrue => ?_⟩
          exact (hoverride htrue).1 (congrArg some hclass)
        · rintro _ heq htrue
          obtain rfl := Option.some.inj (hcache.symm.trans heq)
          exact (hoverride htrue).2.2
        · intro keys hsome
          rw [hcache] at hsome
          exact hkeys keys hsome
      · intro h
        refine ⟨⟨fun hclass => (h.isPrivate cache hcache hclass).1,
          fun htrue => ⟨fun hclass => ?_, by simp,
            h.override cache hcache htrue⟩,
          fun header hmem => (h.vary header hmem).2, fun keys hsome => ?_⟩,
          h.coalesce, fun header hmem => (h.vary header hmem).1, h.distinct,
          by simp⟩
        · have hfalse := (h.isPrivate cache hcache (Option.some.inj hclass)).2
          exact absurd htrue (by simp [hfalse])
        · exact h.query keys (by rw [hcache]; exact hsome)

/-! ## Accepting the whole list -/

theorem checkRoute_readRoute {origin : Origin} {route : GeneratedRoute}
    {settings : RouteSettings} (h : readRoute route = .ok settings) :
    (checkRoute origin settings = .ok () ∧
        Compiles settings.id settings.matcher) ↔ route.Passes origin := by
  have hdurations := readRoute_eq_ok_iff.mp ⟨settings, h⟩
  have hreuse := checkRouteReuse_readRoute h
  obtain ⟨read, hread, rfl⟩ := map_eq_ok.mp h
  rw [compiles_iff, checkRoute_eq_ok rfl, hreuse, checkRouteWeight_eq_ok]
  constructor
  · rintro ⟨⟨⟨hpos, hmax, htier, -⟩, hpriority, hreuse⟩, hmethods⟩
    exact ⟨hdurations, hmethods, ⟨hpos, hmax, htier⟩, hpriority, hreuse⟩
  · intro h
    exact ⟨⟨⟨h.weight.1, h.weight.2.1, h.weight.2.2, fun c hc => by cases hc⟩,
      h.priority, h.reuse⟩, h.methods⟩

theorem id_readRoutes {routes : List GeneratedRoute}
    {settings : List RouteSettings} (h : readRoutes routes = .ok settings) :
    (settings.map fun setting => setting.id) =
      routes.map GeneratedRoute.id := by
  induction routes generalizing settings with
  | nil =>
      cases h
      rfl
  | cons route rest ih =>
      obtain ⟨first, hfirst, h⟩ := bind_eq_ok.mp h
      obtain ⟨others, hothers, rfl⟩ := map_eq_ok.mp h
      obtain ⟨_, -, rfl⟩ := map_eq_ok.mp hfirst
      rw [List.map_cons, List.map_cons, ih hothers]

/-- A file is accepted exactly if its priorities are, its ids are distinct and
each of its routes passes. -/
theorem accepted_iff_passes {origin : Origin} {routes : List GeneratedRoute} :
    Accepted origin routes ↔
      validatePriorities origin = .ok () ∧
        (routes.map GeneratedRoute.id).Nodup ∧
        ∀ route ∈ routes, route.Passes origin := by
  constructor
  · rintro ⟨settings, hread, hpriorities, hchecks, hcompile⟩
    obtain ⟨hnodup, -, hroutes⟩ := checkRouteList_eq_ok.mp hchecks
    have hids := id_readRoutes hread
    obtain ⟨hsettings, -⟩ := mem_traverse readRoute readRoutes rfl
      (fun _ _ => rfl) hread
    refine ⟨hpriorities, hids ▸ hnodup, fun route hmem => ?_⟩
    obtain ⟨setting, hsetting, heq⟩ := hsettings route hmem
    exact (checkRoute_readRoute heq).mp
      ⟨hroutes setting hsetting, hcompile setting hsetting⟩
  · rintro ⟨hpriorities, hnodup, hpasses⟩
    obtain ⟨settings, hread⟩ : ∃ settings, readRoutes routes = .ok settings :=
      exists_traverse readRoute readRoutes rfl (fun _ _ => rfl)
        fun route hmem => readRoute_eq_ok_iff.mpr (hpasses route hmem).durations
    have hids := id_readRoutes hread
    obtain ⟨-, hwritten⟩ := mem_traverse readRoute readRoutes rfl
      (fun _ _ => rfl) hread
    have hpass : ∀ setting ∈ settings,
        checkRoute origin setting = .ok () ∧
          Compiles setting.id setting.matcher := by
      intro setting hsetting
      obtain ⟨route, hmem, heq⟩ := hwritten setting hsetting
      exact (checkRoute_readRoute heq).mpr (hpasses route hmem)
    refine ⟨settings, hread, hpriorities, checkRouteList_eq_ok.mpr
      ⟨hids ▸ hnodup, by simp, fun setting hsetting =>
        (hpass setting hsetting).1⟩,
      fun setting hsetting => (hpass setting hsetting).2⟩

/-! ## Route ids -/

theorem toList_toString (n : ℕ) : (toString n).toList = decimal n := by
  simp [decimal]

/-- The numbered forms of an id are distinct. -/
theorem nodup_candidates (base : Str) (n : ℕ) :
    (base :: (List.range n).map fun k =>
      base ++ "-".toList ++ (toString (k + 2)).toList).Nodup := by
  refine List.nodup_cons.mpr ⟨by simp, List.Nodup.map ?_ List.nodup_range⟩
  intro j k h
  have htext : decimal (j + 2) = decimal (k + 2) := by
    simpa only [List.append_cancel_left_eq, toList_toString] using h
  exact Nat.add_right_cancel (decimal_injective htext)

/-- There are more numbered forms than taken ids, so one of them is free. -/
theorem routeId_notMem (page : Str) (taken : List Str) :
    routeId page taken ∉ taken := by
  have hnodup := nodup_candidates (routeIdBase page) taken.length
  rw [routeId]
  generalize hcandidates : (routeIdBase page :: (List.range taken.length).map
    fun k => routeIdBase page ++ "-".toList ++ (toString (k + 2)).toList) =
      candidates at hnodup ⊢
  cases hfound : candidates.find? fun id => !taken.contains id with
  | none =>
      have hsubset : candidates ⊆ taken := by
        intro id hmem
        simpa using List.find?_eq_none.mp hfound id hmem
      have hle := (List.subperm_of_subset hnodup hsubset).length_le
      rw [← hcandidates] at hle
      simp at hle
  | some id => simpa using List.find?_some hfound

theorem nodup_assignIds (taken : List Str) (drafts : List Draft) :
    ((assignIds taken drafts).map GeneratedRoute.id).Nodup ∧
      ∀ route ∈ assignIds taken drafts, route.id ∉ taken := by
  induction drafts generalizing taken with
  | nil => simp [assignIds]
  | cons draft rest ih =>
      obtain ⟨hnodup, hfresh⟩ := ih (routeId draft.label taken :: taken)
      rw [assignIds, List.map_cons, List.nodup_cons, List.forall_mem_cons]
      refine ⟨⟨fun hmem => ?_, hnodup⟩, routeId_notMem draft.label taken,
        fun route hmem htaken =>
          hfresh route hmem (List.mem_cons_of_mem _ htaken)⟩
      obtain ⟨route, hroute, heq⟩ := List.mem_map.mp hmem
      exact hfresh route hroute (heq ▸ List.mem_cons_self)

end Harmost.Next
