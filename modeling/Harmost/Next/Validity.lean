import Harmost.Next.Exposure

/-!
# What the validation of a policy ensures

Every assertion of an accepted policy has valid fields, names a page or a
handler of the build, and is written for it.
-/

namespace Harmost.Next

open Harmost.Support

/-! ## What validation ensures -/

/-- What `validatePolicy` has checked of a route. -/
structure Assertion.Valid (js : Runtime) (assertion : Assertion) : Prop where
  weight : ∀ weight, assertion.weight = some weight → 0 < weight
  ttl : ∀ text, assertion.cache.bind AssertionCache.ttl = some text →
    isDuration text = true
  staleIfError : ∀ text,
    assertion.cache.bind AssertionCache.staleIfError = some text →
      isDuration text = true
  query : ∀ keys, assertion.cache.bind AssertionCache.query = some keys →
    keys ≠ []
  vary : ∀ headers, assertion.cache.bind AssertionCache.vary = some headers →
    (∀ header ∈ headers, isRefusedVary header = false) ∧
      (headers.map js.toLowerCase).Nodup
  isPublic : assertion.privacy = .publicRoute →
    (assertion.cache.bind AssertionCache.ttl).isSome = true
  isPrivate : assertion.privacy = .privateRoute → assertion.cache = none

variable {assertion : Assertion}

section Valid

variable {js : Runtime} {file name : Str}

theorem checkWeight_eq_ok {source : Option ℤ} {weight : Option ℕ}
    (h : checkWeight file name source = .ok weight) :
    ∀ w, weight = some w → 0 < w := by
  rintro w rfl
  cases source with
  | none => cases h
  | some value =>
      rw [checkWeight] at h
      split_ifs at h with hrange
      · cases h
      · cases h
        omega

theorem checkDuration_eq_ok {field : Str} {source duration : Option Str}
    (h : checkDuration file name field source = .ok duration) :
    ∀ text, duration = some text → isDuration text = true := by
  rintro text rfl
  cases source with
  | none => cases h
  | some value =>
      rw [checkDuration] at h
      split_ifs at h with hduration
      · cases h
        exact hduration
      · cases h

theorem assertUnique_eq_ok {values : List Str} {label route : Str} {u : Unit}
    (h : assertUnique js values label route = .ok u) :
    (values.map js.toLowerCase).Nodup := by
  rw [assertUnique] at h
  split_ifs at h with hnodup
  exact hnodup

theorem checkList_eq_ok {field : Str} {source list : Option (List Str)}
    (h : checkList js file name field source = .ok list) :
    ∀ values, list = some values →
      values ≠ [] ∧ (values.map js.toLowerCase).Nodup := by
  rintro values rfl
  cases source with
  | none => cases h
  | some value =>
      obtain ⟨_, hnonempty, h⟩ := bind_eq_ok.mp h
      obtain ⟨_, hunique, heq⟩ := map_eq_ok.mp h
      cases heq
      refine ⟨?_, assertUnique_eq_ok hunique⟩
      rintro rfl
      cases failIf_eq_ok.mp hnonempty

theorem checkCacheFields_eq_ok {source : SourceCache} {cache : AssertionCache}
    (h : checkCacheFields js file name source = .ok cache) :
    (∀ text, cache.ttl = some text → isDuration text = true) ∧
      (∀ text, cache.staleIfError = some text → isDuration text = true) ∧
      (∀ keys, cache.query = some keys → keys ≠ []) ∧
      ∀ headers, cache.vary = some headers →
        (∀ header ∈ headers, isRefusedVary header = false) ∧
          (headers.map js.toLowerCase).Nodup := by
  obtain ⟨ttl, httl, h⟩ := bind_eq_ok.mp h
  obtain ⟨stale, hstale, h⟩ := bind_eq_ok.mp h
  obtain ⟨query, hquery, h⟩ := bind_eq_ok.mp h
  obtain ⟨vary, hvary, h⟩ := bind_eq_ok.mp h
  obtain ⟨_, hrefused, rfl⟩ := map_eq_ok.mp h
  refine ⟨checkDuration_eq_ok httl, checkDuration_eq_ok hstale,
    fun keys hkeys => (checkList_eq_ok hquery keys hkeys).1,
    fun headers hheaders =>
      ⟨fun header hmem => ?_, (checkList_eq_ok hvary headers hheaders).2⟩⟩
  have hnone := failIf_eq_ok.mp hrefused
  dsimp only at hheaders
  rw [hheaders, Option.getD_some, List.any_eq_false] at hnone
  simpa using hnone header hmem

theorem checkSharing_eq_ok {u : Unit}
    (h : checkSharing file name assertion = .ok u) :
    (assertion.privacy = .publicRoute →
        (assertion.cache.bind AssertionCache.ttl).isSome = true) ∧
      (assertion.privacy = .privateRoute → assertion.cache = none) := by
  rw [checkSharing] at h
  split at h
  · rename_i hprivacy
    have hoff := failIf_eq_ok.mp h
    simp_all
  · rename_i hprivacy
    obtain ⟨_, httl, -⟩ := bind_eq_ok.mp h
    have hsome := failIf_eq_ok.mp httl
    simp_all

theorem valid_of_checkSourceRoute {catalog : RouteNames} {source : SourceRoute}
    (h : checkSourceRoute js file catalog name source = .ok assertion) :
    assertion.Valid js ∧ checkCatalog file name assertion catalog = .ok () := by
  obtain ⟨privacy, -, h⟩ := bind_eq_ok.mp h
  obtain ⟨weight, hweight, h⟩ := bind_eq_ok.mp h
  obtain ⟨priority, -, h⟩ := bind_eq_ok.mp h
  obtain ⟨methods, -, h⟩ := bind_eq_ok.mp h
  obtain ⟨cache, hcache, h⟩ := bind_eq_ok.mp h
  obtain ⟨_, hsharing, h⟩ := bind_eq_ok.mp h
  obtain ⟨_, hcatalog, rfl⟩ := map_eq_ok.mp h
  obtain ⟨hpublic, hprivate⟩ := checkSharing_eq_ok hsharing
  refine ⟨?_, hcatalog⟩
  cases hsource : source.cache with
  | none =>
      rw [hsource] at hcache
      cases hcache
      exact ⟨checkWeight_eq_ok hweight, by simp, by simp, by simp, by simp,
        hpublic, hprivate⟩
  | some fields =>
      rw [hsource] at hcache
      obtain ⟨checked, hchecked, rfl⟩ := map_eq_ok.mp hcache
      obtain ⟨httl, hstale, hquery, hvary⟩ := checkCacheFields_eq_ok hchecked
      exact ⟨checkWeight_eq_ok hweight, httl, hstale, hquery, hvary, hpublic,
        hprivate⟩

end Valid

/-! ## Every assertion is written -/

theorem mem_normalizeAll {names normals : List Str}
    (h : normalizeAll names = .ok normals) {normal : Str} :
    normal ∈ normals ↔
      ∃ name ∈ names, normalizeRouteName name = .ok normal := by
  obtain ⟨hnormals, hnames⟩ := mem_traverse normalizeRouteName
    normalizeAll rfl (fun _ _ => rfl) h
  constructor
  · exact hnames normal
  · rintro ⟨name, hmem, heq⟩
    obtain ⟨normal', hmem', heq'⟩ := hnormals name hmem
    exact Except.ok.inj (heq'.symm.trans heq) ▸ hmem'

section Catalog

variable (js : Runtime) {build : Build} {catalog : RouteNames}
  (h : buildRouteNames build = .ok catalog)
include h

theorem mem_catalog_handlers (normal : Str) :
    normal ∈ catalog.handlers ↔
      ∃ route ∈ build.handlers js, normalizeRouteName route = .ok normal := by
  obtain ⟨handlers, hhandlers, h⟩ := bind_eq_ok.mp h
  obtain ⟨names, -, h⟩ := bind_eq_ok.mp h
  obtain ⟨prerendered, -, rfl⟩ := map_eq_ok.mp h
  simp only [Build.mem_handlers, ← Build.mem_handlerFiles]
  exact mem_normalizeAll hhandlers

theorem mem_catalog_prerendered (normal : Str) :
    normal ∈ catalog.prerendered ↔ ∃ route ∈ build.prerenderedRoutes js,
      normalizeRouteName route = .ok normal := by
  obtain ⟨handlers, -, h⟩ := bind_eq_ok.mp h
  obtain ⟨names, -, h⟩ := bind_eq_ok.mp h
  obtain ⟨prerendered, hprerendered, rfl⟩ := map_eq_ok.mp h
  simp only [Build.prerenderedRoutes, sortBy, List.mem_insertionSort]
  exact mem_normalizeAll hprerendered

/-- A page of the catalog that is not prerendered is listed as a page. -/
theorem exists_page {normal : Str} (hmem : normal ∈ catalog.pages)
    (hprerendered : normal ∉ catalog.prerendered) :
    ∃ page ∈ build.pages js, normalizeRouteName page = .ok normal := by
  have hhandlers := mem_catalog_handlers js h normal
  have hlisted := mem_catalog_prerendered js h normal
  obtain ⟨handlers, -, h⟩ := bind_eq_ok.mp h
  obtain ⟨names, hnames, h⟩ := bind_eq_ok.mp h
  obtain ⟨prerendered, -, rfl⟩ := map_eq_ok.mp h
  dsimp only at hmem hprerendered hhandlers hlisted
  rcases List.mem_append.mp hmem with hname | hpre
  · obtain ⟨hname, hfree⟩ := List.mem_filter.mp hname
    obtain ⟨page, hpage, hnormal⟩ := (mem_normalizeAll hnames).mp hname
    obtain ⟨hpage, hvisible⟩ := List.mem_filter.mp hpage
    refine ⟨page, ?_, hnormal⟩
    rw [Build.pages, sortBy, List.mem_insertionSort, List.mem_filter,
      mem_distinct]
    refine ⟨hpage, ?_⟩
    have hstatic : page ∉ build.prerenderedRoutes js := fun hstatic =>
      hprerendered (hlisted.mpr ⟨page, hstatic, hnormal⟩)
    have hpageOnly : page ∉ build.handlers js := by
      intro hhandler
      have hcatalog := hhandlers.mpr ⟨page, hhandler, hnormal⟩
      simp [hcatalog] at hfree
    simpa [hstatic, hpageOnly] using hvisible
  · exact absurd hpre hprerendered

end Catalog

section Policy

variable {js : Runtime} {build : Build} {input : Option PolicyInput}
  {policy : Policy} (hpolicy : effectivePolicy js build input = .ok policy)
include hpolicy

/-- What the validation of a policy says of each of its assertions. -/
theorem effectivePolicy_lookup {name : Str}
    (hlookup : policy.routes.lookup name = some assertion) :
    assertion.Valid js ∧
      ∃ catalog, buildRouteNames build = .ok catalog ∧
        (name ∈ catalog.pages ∨ name ∈ catalog.handlers) ∧
        name ∉ catalog.prerendered ∧
        (name ∈ catalog.handlers → assertion.privacy = .privateRoute) := by
  rcases input with _ | input
  · cases hpolicy
    simp at hlookup
  · obtain ⟨_, -, h⟩ := bind_eq_ok.mp hpolicy
    obtain ⟨catalog, hcatalog, h⟩ := bind_eq_ok.mp h
    obtain ⟨routes, hroutes, rfl⟩ := map_eq_ok.mp h
    rcases (lookup_checkRoutes hroutes name assertion).mp hlookup with
      hempty | ⟨entry, -, -, hchecked⟩
    · simp at hempty
    obtain ⟨hvalid, hlisted⟩ := valid_of_checkSourceRoute hchecked
    obtain ⟨_, hfound, hlisted⟩ := bind_eq_ok.mp hlisted
    obtain ⟨_, hstatic, hhandler⟩ := bind_eq_ok.mp hlisted
    refine ⟨hvalid, catalog, hcatalog, ?_, ?_, fun hmem => ?_⟩
    · have hone := failIf_eq_ok.mp hfound
      by_contra hnone
      rw [not_or] at hnone
      simp [hnone.1, hnone.2] at hone
    · simpa using failIf_eq_ok.mp hstatic
    · have hprivate := failIf_eq_ok.mp hhandler
      cases hprivacy : assertion.privacy with
      | privateRoute => rfl
      | publicRoute => simp [hmem, hprivacy] at hprivate

/-- Every assertion is written for some page or handler. -/
theorem exists_source {name : Str}
    (hlookup : policy.routes.lookup name = some assertion) :
    ∃ route, (Source.page route ∈ sources js build ∨
        Source.handler route ∈ sources js build) ∧
      policy.assertion route = .ok (some assertion) := by
  obtain ⟨-, catalog, hcatalog, hlisted, hstatic, -⟩ :=
    effectivePolicy_lookup hpolicy hlookup
  have hassertion : ∀ route, normalizeRouteName route = .ok name →
      policy.assertion route = .ok (some assertion) := by
    intro route hnormal
    exact map_eq_ok.mpr ⟨name, hnormal, hlookup⟩
  rcases hlisted with hpage | hhandler
  · obtain ⟨page, hmem, hnormal⟩ := exists_page js hcatalog hpage hstatic
    exact ⟨page, .inl (by simp [sources, hmem]), hassertion page hnormal⟩
  · obtain ⟨route, hmem, hnormal⟩ :=
      (mem_catalog_handlers js hcatalog name).mp hhandler
    exact ⟨route, .inr (by simp [sources, hmem]), hassertion route hnormal⟩

/-- Handlers are never public. -/
theorem handler_private {route : Str}
    (hmem : Source.handler route ∈ sources js build)
    (hassertion : policy.assertion route = .ok (some assertion)) :
    assertion.privacy = .privateRoute := by
  obtain ⟨name, hnormal, hlookup⟩ := map_eq_ok.mp hassertion
  obtain ⟨-, catalog, hcatalog, -, -, hprivate⟩ :=
    effectivePolicy_lookup hpolicy hlookup
  have hroute : route ∈ build.handlers js := by simpa [sources] using hmem
  exact hprivate ((mem_catalog_handlers js hcatalog name).mpr
    ⟨route, hroute, hnormal⟩)

end Policy

end Harmost.Next
