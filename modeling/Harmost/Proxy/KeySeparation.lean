import Harmost.Cache.Variant
import Harmost.Config.Validation
import Harmost.Proxy.Filters

/-!
# What the key separates

The key headers of a request are merged, sorted and deduplicated, and the
content coding joins them in the variant list under a reserved name.  The key
separates requests exactly by their components as long as no header carries
that name, or the coding is separated by a header of its own.
-/

namespace Harmost.Proxy

open Harmost.Support
open Harmost.Http
open Harmost.Classifier
open Harmost.Config
open Harmost.Cache

/-! ## The merged key headers -/

theorem mem_dedup {names : List Str} {name : Str} :
    name ∈ dedup names ↔ name ∈ names := by
  induction names using dedup.induct with
  | case1 => rfl
  | case2 a => rfl
  | case3 a rest ih =>
      rw [dedup, if_pos rfl, ih]
      simp
  | case4 a b rest hne ih =>
      rw [dedup, if_neg hne, List.mem_cons, ih]
      simp

/-- A sorted list keeps no repetition. -/
theorem pairwise_lt_dedup {names : List Str} (h : names.Pairwise (· ≤ ·)) :
    (dedup names).Pairwise (· < ·) := by
  induction names using dedup.induct with
  | case1 => exact List.Pairwise.nil
  | case2 a => exact List.pairwise_singleton _ a
  | case3 a rest ih =>
      rw [dedup, if_pos rfl]
      exact ih h.tail
  | case4 a b rest hne ih =>
      rw [dedup, if_neg hne, List.pairwise_cons]
      refine ⟨?_, ih h.tail⟩
      intro name hname
      have hab : a < b :=
        lt_of_le_of_ne (List.rel_of_pairwise_cons h List.mem_cons_self) hne
      rcases List.mem_cons.mp (mem_dedup.mp hname) with rfl | hrest
      · exact hab
      · exact hab.trans_le (List.rel_of_pairwise_cons h.tail hrest)

theorem resolvedKeyHeaders_nodup (framework : List Str)
    (route : Option RouteCache) :
    (resolvedKeyHeaders framework route).Nodup := by
  apply (pairwise_lt_dedup (List.pairwise_insertionSort (· ≤ ·) _)).imp
  intro name name' hlt
  exact ne_of_lt hlt

/-- Is a header of this name listed by the framework or by the route? -/
def ListsHeader (framework : List Str) (route : Option RouteCache)
    (name : Str) : Prop :=
  ∃ header ∈ framework ++ varyHeaders route, toAsciiLowercase header = name

theorem mem_resolvedKeyHeaders_iff {framework : List Str}
    {route : Option RouteCache} {name : Str} :
    name ∈ resolvedKeyHeaders framework route ↔
      ListsHeader framework route name := by
  rw [resolvedKeyHeaders, mem_dedup, List.mem_insertionSort, List.mem_map]
  exact Iff.rfl

theorem toAsciiLowercase_of_mem_resolvedKeyHeaders {framework : List Str}
    {route : Option RouteCache} {name : Str}
    (h : name ∈ resolvedKeyHeaders framework route) :
    toAsciiLowercase name = name := by
  obtain ⟨header, _, rfl⟩ := mem_resolvedKeyHeaders_iff.mp h
  exact toAsciiLowercase_toAsciiLowercase header

theorem nameCount_resolvedKeyHeaders (builder : KeyBuilder)
    {framework : List Str} {route : Option RouteCache}
    (hheaders : builder.variantHeaders = resolvedKeyHeaders framework route)
    (name : Str) :
    builder.nameCount name =
      if name ∈ resolvedKeyHeaders framework route then 1 else 0 := by
  have hcount : builder.nameCount name =
      (resolvedKeyHeaders framework route).count name := by
    rw [KeyBuilder.nameCount, hheaders, List.count]
    apply List.countP_congr
    intro header hheader
    rw [toAsciiLowercase_of_mem_resolvedKeyHeaders hheader]
  rw [hcount]
  split
  next hmem =>
    exact List.count_eq_one_of_mem (resolvedKeyHeaders_nodup _ _) hmem
  next hmem => exact List.count_eq_zero_of_not_mem hmem

/-! ## The components of a key -/

/-- Two requests ask the same thing of the same host. -/
structure SameResource (builder : KeyBuilder) (req req' : RequestMetadata) :
    Prop where
  host : normalizeHost req.host builder.scheme =
    normalizeHost req'.host builder.scheme
  method : toAsciiUppercase req.method.asStr =
    toAsciiUppercase req'.method.asStr
  path : req.path = req'.path
  query : canonicalQuery (req.query.getD []) builder.queryPolicy =
    canonicalQuery (req'.query.getD []) builder.queryPolicy

/-- Two requests have the same components under one setting. -/
structure SameComponents (builder : KeyBuilder) (req req' : RequestMetadata) :
    Prop extends SameResource builder req req' where
  coding : normalizeAcceptEncoding req = normalizeAcceptEncoding req'
  headers : ∀ header ∈ builder.variantHeaders,
    req.headers.getAll header = req'.headers.getAll header

variable {builder : KeyBuilder} {req req' : RequestMetadata}

theorem SameResource.build_eq (h : SameResource builder req req')
    (hvariant : (builder.build req).variant = (builder.build req').variant) :
    builder.build req = builder.build req' :=
  CacheKey.ext rfl h.host h.method h.path h.query hvariant rfl

theorem SameResource.of_build_eq (h : builder.build req = builder.build req') :
    SameResource builder req req' where
  host := congrArg CacheKey.host h
  method := congrArg CacheKey.method h
  path := congrArg CacheKey.path h
  query := congrArg CacheKey.query h

theorem build_eq_of_sameComponents (h : SameComponents builder req req') :
    builder.build req = builder.build req' := by
  have hentries : builder.variantEntries req = builder.variantEntries req' := by
    unfold KeyBuilder.variantEntries
    rw [h.coding]
    congr 1
    apply List.filterMap_congr
    intro header hheader
    have hvalues := (headerValues_eq_iff req req' (toAsciiLowercase header)).mpr
      (by simpa using h.headers header hheader)
    simp only [hvalues]
  refine h.build_eq ?_
  simp only [KeyBuilder.build, hentries]

/-- Equal keys have equal components once they agree on the content coding. -/
theorem sameComponents_of_build_eq (h : builder.build req = builder.build req')
    (hcoding : normalizeAcceptEncoding req = normalizeAcceptEncoding req') :
    SameComponents builder req req' where
  toSameResource := .of_build_eq h
  coding := hcoding
  headers := fun _ hheader =>
    KeyBuilder.getAll_eq_of_build_eq h hheader fun _ => hcoding

/-! ## The reserved name as a header -/

/-- Two requests with the same components but for their content codings, which
differ, and the values under the reserved name, where each of them has the
coding of the other. -/
structure ExchangesCoding (builder : KeyBuilder) (req req' : RequestMetadata) :
    Prop extends SameResource builder req req' where
  coding : normalizeAcceptEncoding req ≠ normalizeAcceptEncoding req'
  headers : ∀ header ∈ builder.variantHeaders,
    toAsciiLowercase header ≠ encodingEntry →
      req.headers.getAll header = req'.headers.getAll header
  here : headerValues req encodingEntry = some (normalizeAcceptEncoding req')
  there : headerValues req' encodingEntry = some (normalizeAcceptEncoding req)

/-- Equal keys of different codings: the entry of the one coding is an entry of
the other request's header. -/
theorem reserved_of_build_eq (h : builder.build req = builder.build req')
    (hcoding : normalizeAcceptEncoding req ≠ normalizeAcceptEncoding req') :
    0 < builder.nameCount encodingEntry ∧
      headerValues req' encodingEntry =
        some (normalizeAcceptEncoding req) := by
  have hcount := KeyBuilder.count_eq_of_build_eq h encodingEntry
    (normalizeAcceptEncoding req)
  simp only [KeyBuilder.count_variantEntries, true_and, if_true,
    hcoding.symm, if_false] at hcount
  by_cases hthere : headerValues req' encodingEntry =
      some (normalizeAcceptEncoding req)
  · rw [if_pos hthere] at hcount
    exact ⟨by omega, hthere⟩
  · rw [if_neg hthere] at hcount
    omega

theorem exchangesCoding_of_build_eq (h : builder.build req = builder.build req')
    (hcoding : normalizeAcceptEncoding req ≠ normalizeAcceptEncoding req') :
    ExchangesCoding builder req req' where
  toSameResource := .of_build_eq h
  coding := hcoding
  headers := fun _ hheader hname =>
    KeyBuilder.getAll_eq_of_build_eq h hheader fun heq => absurd heq hname
  here := (reserved_of_build_eq h.symm hcoding.symm).2
  there := (reserved_of_build_eq h hcoding).2

/-- Swapping the coding with the header that takes its name keeps the key. -/
theorem ExchangesCoding.build_eq (h : ExchangesCoding builder req req')
    (hlisted : builder.nameCount encodingEntry = 1) :
    builder.build req = builder.build req' := by
  refine h.toSameResource.build_eq (KeyBuilder.variant_eq_of_count_eq ?_)
  intro name value
  rw [KeyBuilder.count_variantEntries, KeyBuilder.count_variantEntries]
  by_cases hname : encodingEntry = name
  · -- Both values stand under the reserved name, in either order.
    subst name
    rw [h.here, h.there, hlisted]
    simp only [Option.some.injEq, true_and]
    exact Nat.add_comm _ _
  · simp only [hname, false_and, if_false]
    rcases Nat.eq_zero_or_pos (builder.nameCount name) with hzero | hpos
    · rw [hzero, ite_self, ite_self]
    · obtain ⟨header, hheader, rfl⟩ := (builder.nameCount_pos_iff name).mp hpos
      have hvalues :=
        (headerValues_eq_iff req req' (toAsciiLowercase header)).mpr
          (by simpa using h.headers header hheader (Ne.symm hname))
      rw [hvalues]

def acceptEncoding : HeaderName :=
  ⟨"accept-encoding".toList, by decide, by decide⟩

/-- The reserved name is a token, so a header may carry it. -/
def tildeEncoding : HeaderName :=
  ⟨encodingEntry, by decide, by decide⟩

/-- A request that lists one coding and sends one value under the reserved
name. -/
def codingRequest (coding tilde : HeaderValue) : RequestMetadata where
  method := .get
  host := []
  path := []
  query := none
  headers := [(acceptEncoding, coding), (tildeEncoding, tilde)]

def valueA : HeaderValue :=
  ⟨[0x61], by decide⟩

def valueB : HeaderValue :=
  ⟨[0x62], by decide⟩

theorem getAll_codingRequest (coding tilde : HeaderValue) {name : Str}
    (haccept : acceptEncoding.text ≠ toAsciiLowercase name)
    (htilde : tildeEncoding.text ≠ toAsciiLowercase name) :
    (codingRequest coding tilde).headers.getAll name = [] := by
  unfold codingRequest
  rw [HeaderMap.getAll_cons, HeaderMap.getAll_cons, HeaderMap.getAll_nil,
    if_neg haccept, if_neg htilde]

theorem exchangesCoding_codingRequest
    (hcoding : builder.nameCount acceptEncoding.text = 0) :
    ExchangesCoding builder (codingRequest valueA valueB)
      (codingRequest valueB valueA) where
  host := rfl
  method := rfl
  path := rfl
  query := rfl
  coding := by decide
  headers := by
    intro header hheader hname
    have haccept : acceptEncoding.text ≠ toAsciiLowercase header := by
      intro heq
      have hpos := (builder.nameCount_pos_iff _).mpr ⟨header, hheader, heq.symm⟩
      omega
    rw [getAll_codingRequest _ _ haccept (Ne.symm hname),
      getAll_codingRequest _ _ haccept (Ne.symm hname)]
  here := by decide
  there := by decide

section Separation

variable (scheme : Str) (deployment : Option Str) (framework : List Str)
  (route : Option RouteCache)

/-- A pair of requests is separated by its components, unless it exchanges the
coding with a header of the reserved name. -/
theorem routeKey_separates_pair_iff (req req' : RequestMetadata) :
    ((routeKeyBuilder scheme deployment framework route).build req =
        (routeKeyBuilder scheme deployment framework route).build req' ↔
      SameComponents (routeKeyBuilder scheme deployment framework route)
        req req') ↔
    ¬(encodingEntry ∈ resolvedKeyHeaders framework route ∧
      ExchangesCoding (routeKeyBuilder scheme deployment framework route)
        req req') := by
  have hcount := nameCount_resolvedKeyHeaders
    (routeKeyBuilder scheme deployment framework route) rfl encodingEntry
  constructor
  · rintro h ⟨hmem, hexchanged⟩
    have hkey := hexchanged.build_eq (hcount.trans (if_pos hmem))
    exact hexchanged.coding (h.mp hkey).coding
  · intro hapart
    refine ⟨fun hkey => sameComponents_of_build_eq hkey ?_,
      build_eq_of_sameComponents⟩
    by_contra hcoding
    refine hapart ⟨?_, exchangesCoding_of_build_eq hkey hcoding⟩
    by_contra hmem
    have hpos := (reserved_of_build_eq hkey hcoding).1
    rw [hcount, if_neg hmem] at hpos
    exact absurd hpos (lt_irrefl 0)

/-- Key separation is exact unless the framework or the route lists a header
under the reserved name of the content coding, and neither lists
`Accept-Encoding`.  Then it fails exactly for the pairs that exchange the
coding and that header. -/
theorem routeKeyBuilder_separates_iff :
    ((∀ req req' : RequestMetadata,
      (routeKeyBuilder scheme deployment framework route).build req =
          (routeKeyBuilder scheme deployment framework route).build req' ↔
        SameComponents (routeKeyBuilder scheme deployment framework route)
          req req') ↔
      (ListsHeader framework route encodingEntry →
        ListsHeader framework route "accept-encoding".toList)) ∧
    ∀ req req' : RequestMetadata,
      ((routeKeyBuilder scheme deployment framework route).build req =
          (routeKeyBuilder scheme deployment framework route).build req' ↔
        SameComponents (routeKeyBuilder scheme deployment framework route)
          req req') ↔
      ¬(ListsHeader framework route encodingEntry ∧
        ExchangesCoding (routeKeyBuilder scheme deployment framework route)
          req req') := by
  rw [← mem_resolvedKeyHeaders_iff, ← mem_resolvedKeyHeaders_iff]
  have hpairs := routeKey_separates_pair_iff scheme deployment framework route
  refine ⟨?_, hpairs⟩
  constructor
  · intro h hmem
    by_contra haccept
    refine (hpairs _ _).mp (h _ _) ⟨hmem, exchangesCoding_codingRequest ?_⟩
    rw [nameCount_resolvedKeyHeaders _ rfl]
    exact if_neg haccept
  · intro hreserved req req'
    refine (hpairs req req').mpr ?_
    rintro ⟨hmem, hexchanged⟩
    refine hexchanged.coding (normalizeAcceptEncoding_congr ?_)
    exact hexchanged.headers _ (hreserved hmem) (by decide)

end Separation

/-- A `cache.vary` list that names the reserved entry is accepted, and two
requests that want different codings share a key. -/
theorem routeKeyBuilder_reserved_name_collides :
    let cache : RouteCache := { vary := some ⟨[encodingEntry]⟩ }
    let route : Route :=
      { id := "r".toList, matcher := .path "/**".toList, cache := some cache }
    let builder := routeKeyBuilder "https".toList none [] (some cache)
    checkRouteReuse route = .ok () ∧
      ¬(builder.build (codingRequest valueA valueB) =
          builder.build (codingRequest valueB valueA) ↔
        SameComponents builder (codingRequest valueA valueB)
          (codingRequest valueB valueA)) := by
  intro cache route builder
  refine ⟨by rfl, ?_⟩
  intro h
  have hkey : builder.build (codingRequest valueA valueB) =
      builder.build (codingRequest valueB valueA) := by decide
  have hcoding := (h.mp hkey).coding
  revert hcoding
  decide

end Harmost.Proxy
