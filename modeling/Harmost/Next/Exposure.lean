import Harmost.Next.Generate
import Harmost.Support.Checks
import Mathlib.Data.List.Find

/-!
# Which paths a generated configuration makes public

A prerendered route is proof that one response serves everybody, and an
operator may assert the same of a page.  Next decides segment by segment which
page a path belongs to; Harmost takes the first glob that matches, and a
wildcard of its globs crosses slashes.  The two disagree on a path that the most
specific name to catch it does not serve.
-/

namespace Harmost.Next

open Harmost.Support
open Harmost.Config

/-! ## The paths of a page -/

/-- Zero or more non-empty segments, and then the rest. -/
def skipSegments (rest : List Str → Bool) : List Str → Bool
  | [] => rest []
  | segment :: segments =>
      rest (segment :: segments) ||
        (!segment.isEmpty && skipSegments rest segments)

/-- `[…]` around anything, with the given brackets. -/
def isParam (opening closing segment : Str) : Bool :=
  opening.isPrefixOf segment && closing.isSuffixOf segment &&
    decide (opening.length + closing.length < segment.length)

/-- One non-empty segment for each `[param]`, one or more for `[...param]`,
zero or more for `[[...param]]`, and any other segment for itself. -/
def segmentsMatch : List Str → List Str → Bool
  | [], segments => segments.isEmpty
  | pattern :: patterns, segments =>
      if isParam "[[...".toList "]]".toList pattern then
        skipSegments (segmentsMatch patterns) segments
      else if isParam "[...".toList "]".toList pattern then
        match segments with
        | [] => false
        | segment :: segments =>
            !segment.isEmpty && skipSegments (segmentsMatch patterns) segments
      else
        match segments with
        | [] => false
        | segment :: segments =>
            (if isParam "[".toList "]".toList pattern then !segment.isEmpty
              else segment == pattern) && segmentsMatch patterns segments

/-- The segments of an absolute path.  The root has none. -/
def segmentsOf : Str → Option (List Str)
  | [] => some []
  | c :: rest =>
      if c = '/' then
        some (if rest.isEmpty then [] else rest.splitOn '/')
      else none

/-- Does Next serve this path, without its base path, by this page? -/
def pageServes (page path : Str) : Bool :=
  match segmentsOf page, segmentsOf path with
  | some patterns, some segments => segmentsMatch patterns segments
  | _, _ => false

example : pageServes "/products/[slug]".toList "/products/a".toList = true := by
  decide

/-! ## The paths that a name catches -/

/-- A slash, any text, and then the rest. -/
def anyText (rest : Str → Bool) : Str → Bool
  | '/' :: s => s.tails.any rest
  | _ => false

/-- The segments in a row.  One in brackets stands for any text, slashes
included, and `[[...param]]` also for nothing. -/
def covers : List Str → Str → Bool
  | [], text => text.isEmpty
  | segment :: segments, text =>
      if isParam "[[...".toList "]]".toList segment then
        covers segments text || anyText (covers segments) text
      else if isParam "[".toList "]".toList segment then
        anyText (covers segments) text
      else
        ('/' :: segment).isPrefixOf text &&
          covers segments (text.drop (segment.length + 1))

/-- Does a name catch this path, if what is in brackets crosses slashes? -/
def Build.catches (build : Build) (name path : Str) : Bool :=
  let rest := path.drop build.basePath.length
  build.basePath.isPrefixOf path && !rest.isEmpty &&
    covers ((name.splitOn '/').drop 1) rest

example : ({ buildId := [] } : Build).catches "/products/[slug]".toList
    "/products/a/b".toList = true := by
  decide

/-- What is asked of the glob engine: a pattern below `/_next/` matches nothing
elsewhere, a prerendered route matches itself, and the pattern of a page or a
handler matches what its name catches. -/
structure Build.ReadsGlobs (build : Build) (isMatch : Str → Str → Bool)
    (path : Str) : Prop where
  own : ∀ pattern, build.basePath ++ "/_next/".toList <+: pattern →
    isMatch pattern path = true → build.basePath ++ "/_next/".toList <+: path
  prerendered : ∀ route, build.isPrerendered route = true →
    (isMatch (build.basePath ++ route) path = true ↔
      path = build.basePath ++ route)
  named : ∀ name, build.isRouteHandler name = true ∨ build.isPage name = true →
    isMatch (build.basePath ++ toGlob name) path = build.catches name path

/-! ## What is proven -/

/-- The policy asserts the route of this name public. -/
def AssertsPublic (policy : Option PolicyInput) (name : Str) : Prop :=
  ∃ input original source, policy = some input ∧
    input.routes.lookup original = some source ∧
    normalizeRouteName original = .ok name ∧
    source.privacy = "public".toList

/-- The build or the policy says that one response for this path serves
everybody. -/
def Proven (build : Build) (policy : Option PolicyInput) (path : Str) : Prop :=
  (∃ route ∈ build.prerendered, path = build.basePath ++ route) ∨
    ∃ page rest, AssertsPublic policy page ∧ path = build.basePath ++ rest ∧
      pageServes page rest = true

/-- The policy asserts a page of the build public. -/
def AssertsPage (policy : Option PolicyInput) (name : Str) : Prop :=
  ∃ normal, normalizeRouteName name = .ok normal ∧ AssertsPublic policy normal

/-- Next serves a path by this page of the build. -/
def Build.Serves (build : Build) (name path : Str) : Prop :=
  ∃ normal rest, normalizeRouteName name = .ok normal ∧
    path = build.basePath ++ rest ∧ pageServes normal rest = true

/-- A page that is asserted public takes a path that it does not serve: it is
the most specific page to catch the path, no handler does, and the path is not
prerendered. -/
structure Exposes (js : Runtime) (build : Build) (policy : Option PolicyInput)
    (path page : Str) : Prop where
  listed : build.isPage page = true
  asserted : AssertsPage policy page
  caught : build.catches page path = true
  foreign : ¬build.Serves page path
  first : ∀ other, build.isPage other = true →
    compareRouteSpecificity js other page = .lt →
      build.catches other path = false
  noHandler : ∀ handler, build.isRouteHandler handler = true →
    build.catches handler path = false
  notPrerendered : ∀ route, build.isPrerendered route = true →
    path ≠ build.basePath ++ route

/-- The class of a route by what the policy asserts about it. -/
def assertedClass : Except Str (Option Assertion) → ClassOverride
  | .ok (some assertion) =>
      if assertion.privacy = .publicRoute then .publicSsr else .privateDynamic
  | _ => .privateDynamic

namespace Source

/-- The class of the route written for a source. -/
def routeClass (policy : Policy) : Source → ClassOverride
  | .buildOutput => .static
  | .image => .publicDynamic
  | .prerendered _ => .publicSsr
  | .data name | .page name => assertedClass (policy.assertion name)
  | .handler _ | .rest => .privateDynamic

end Source

/-! ## The routes that are written -/

theorem emitAssertion_view (label path : Str) (rollout : Rollout)
    (assertion : Option Assertion) :
    (emitAssertion label path rollout assertion).path = path ∧
      (emitAssertion label path rollout assertion).routeClass =
        assertedClass (.ok assertion) := by
  rcases assertion with _ | assertion
  · exact ⟨rfl, rfl⟩
  · rw [emitAssertion, assertedClass]
    split
    · rename_i hprivacy
      exact ⟨rfl, (if_neg (by simp [hprivacy])).symm⟩
    · rename_i hprivacy
      exact ⟨rfl, (if_pos hprivacy).symm⟩

section Emitted

variable {build : Build} {options : Options} {policy : Policy}

/-- A route is written with the glob and the class of its source. -/
theorem emit_eq_ok {source : Source} {draft : Draft}
    (h : emit build options policy source = .ok draft) :
    draft.path = source.glob build ∧
      draft.routeClass = source.routeClass policy := by
  cases source with
  | data name | page name =>
      obtain ⟨assertion, hassertion, rfl⟩ := map_eq_ok.mp h
      rw [Source.routeClass, hassertion]
      exact emitAssertion_view _ _ _ assertion
  | handler route =>
      obtain ⟨assertion, -, rfl⟩ := map_eq_ok.mp h
      exact ⟨rfl, rfl⟩
  | buildOutput | image | prerendered route | rest =>
      cases h
      exact ⟨rfl, rfl⟩

theorem emitAll_eq_ok {list : List Source} {drafts : List Draft}
    (h : emitAll build options policy list = .ok drafts) :
    drafts.map (fun draft => (draft.path, draft.routeClass)) =
      list.map fun source => (source.glob build, source.routeClass policy) := by
  induction list generalizing drafts with
  | nil =>
      cases h
      rfl
  | cons source rest ih =>
      obtain ⟨draft, hdraft, h⟩ := bind_eq_ok.mp h
      obtain ⟨drafts, hdrafts, rfl⟩ := map_eq_ok.mp h
      obtain ⟨hpath, hclass⟩ := emit_eq_ok hdraft
      rw [List.map_cons, List.map_cons, ih hdrafts, hpath, hclass]

theorem assignIds_map (taken : List Str) (drafts : List Draft) :
    (assignIds taken drafts).map GeneratedRoute.toDraft = drafts := by
  induction drafts generalizing taken with
  | nil => rfl
  | cons draft rest ih => rw [assignIds, List.map_cons, ih]

/-- The first route that matches a path is written for the first source whose
glob does. -/
theorem find?_generateConfig {js : Runtime} {routes : List GeneratedRoute}
    (isMatch : Str → Str → Bool) (path : Str)
    (hpolicy : effectivePolicy js build options.policy = .ok policy)
    (h : generateConfig js build options = .ok routes) :
    (routes.find? fun route => isMatch route.path path).map
        (fun route => route.routeClass) =
      ((sources js build).find? fun source =>
        isMatch (source.glob build) path).map
          (Source.routeClass policy) := by
  obtain ⟨policy', hpolicy', h⟩ := bind_eq_ok.mp h
  obtain rfl : policy' = policy := Except.ok.inj (hpolicy'.symm.trans hpolicy)
  obtain ⟨drafts, hdrafts, rfl⟩ := map_eq_ok.mp h
  have hviews := emitAll_eq_ok hdrafts
  rw [← assignIds_map [] drafts, List.map_map] at hviews
  have hfirst := congrArg
    (fun views : List (Str × ClassOverride) =>
      (views.find? fun view => isMatch view.1 path).map Prod.snd) hviews
  simpa only [List.find?_map, Option.map_map, Function.comp_def] using hfirst

end Emitted

/-! ## Policies -/

theorem failIf_eq_ok {file message : Str} {condition : Bool} {u : Unit} :
    failIf file condition message = .ok u ↔ condition = false := by
  cases condition with
  | false => simp [failIf]
  | true => simp [failIf, fail]

theorem checkPrivacy_eq_ok {file name text : Str} {privacy : Privacy}
    (h : checkPrivacy file name text = .ok privacy) :
    privacy = .publicRoute ↔ text = "public".toList := by
  unfold checkPrivacy at h
  split_ifs at h with hpublic hprivate
  · cases h
    exact iff_of_true rfl hpublic
  · cases h
    exact iff_of_false (by decide) hpublic
  · cases h

theorem checkSourceRoute_privacy {js : Runtime} {file name : Str}
    {catalog : RouteNames} {source : SourceRoute} {assertion : Assertion}
    (h : checkSourceRoute js file catalog name source = .ok assertion) :
    assertion.privacy = .publicRoute ↔ source.privacy = "public".toList := by
  obtain ⟨privacy, hprivacy, h⟩ := bind_eq_ok.mp h
  obtain ⟨weight, -, h⟩ := bind_eq_ok.mp h
  obtain ⟨priority, -, h⟩ := bind_eq_ok.mp h
  obtain ⟨methods, -, h⟩ := bind_eq_ok.mp h
  obtain ⟨cache, -, h⟩ := bind_eq_ok.mp h
  obtain ⟨_, -, h⟩ := bind_eq_ok.mp h
  obtain ⟨_, -, rfl⟩ := map_eq_ok.mp h
  exact checkPrivacy_eq_ok hprivacy

section

variable {js : Runtime} {file : Str} {catalog : RouteNames}
  {entries : List (Sigma fun _ : Str => SourceRoute)}
  {output result : AssocMap Str Assertion}
  (h : checkRoutes js file catalog output entries = .ok result)
include h

/-- Names are distinct after normalisation, so every route keeps its own
assertion. -/
theorem lookup_checkRoutes (name : Str) (assertion : Assertion) :
    result.lookup name = some assertion ↔
      output.lookup name = some assertion ∨
        ∃ entry ∈ entries, normalizeRouteName entry.1 = .ok name ∧
          checkSourceRoute js file catalog name entry.2 = .ok assertion := by
  induction entries generalizing output with
  | nil =>
      cases h
      simp
  | cons entry rest ih =>
      obtain ⟨first, hfirst, h⟩ := bind_eq_ok.mp h
      obtain ⟨_, hfresh, h⟩ := bind_eq_ok.mp h
      obtain ⟨route, hroute, h⟩ := bind_eq_ok.mp h
      have hnew : output.lookup first = none := AList.lookup_eq_none.mpr
        (of_decide_eq_false (failIf_eq_ok.mp hfresh))
      rw [ih h, List.exists_mem_cons_iff, ← or_assoc]
      refine or_congr_left ?_
      by_cases hname : name = first
      · subst hname
        rw [AList.lookup_insert, hnew, hfirst, hroute]
        simp
      · rw [AList.lookup_insert_ne hname, hfirst]
        simp [Ne.symm hname]

/-- Every route of an accepted policy was checked and accepted. -/
theorem checkSourceRoute_of_checkRoutes :
    ∀ entry ∈ entries, ∃ name assertion,
      normalizeRouteName entry.1 = .ok name ∧
        checkSourceRoute js file catalog name entry.2 = .ok assertion := by
  induction entries generalizing output with
  | nil => exact fun entry hentry => absurd hentry List.not_mem_nil
  | cons first rest ih =>
      obtain ⟨name, hname, h⟩ := bind_eq_ok.mp h
      obtain ⟨_, -, h⟩ := bind_eq_ok.mp h
      obtain ⟨route, hroute, h⟩ := bind_eq_ok.mp h
      intro entry hentry
      rcases List.mem_cons.mp hentry with rfl | hrest
      · exact ⟨name, route, hname, hroute⟩
      · exact ih h entry hrest

end

/-- The effective policy has a public assertion for exactly the names the
input asserts public. -/
theorem effectivePolicy_asserts {js : Runtime} {build : Build}
    {input : Option PolicyInput} {policy : Policy}
    (h : effectivePolicy js build input = .ok policy) (name : Str) :
    (∃ assertion, policy.routes.lookup name = some assertion ∧
        assertion.privacy = .publicRoute) ↔ AssertsPublic input name := by
  rcases input with _ | input
  · cases h
    simp [AssertsPublic]
  · obtain ⟨_, -, h⟩ := bind_eq_ok.mp h
    obtain ⟨catalog, -, h⟩ := bind_eq_ok.mp h
    obtain ⟨routes, hroutes, rfl⟩ := map_eq_ok.mp h
    constructor
    · rintro ⟨assertion, hassertion, hpublic⟩
      rcases (lookup_checkRoutes hroutes name assertion).mp hassertion with
        hempty | ⟨entry, hentry, hname, hchecked⟩
      · simp at hempty
      · exact ⟨input, entry.1, entry.2, rfl,
          AssocMap.mem_entries_iff.mp hentry, hname,
          (checkSourceRoute_privacy hchecked).mp hpublic⟩
    · rintro ⟨input', original, source, hinput, hsource, hname, hpublic⟩
      obtain rfl : input = input' := Option.some.inj hinput
      have hentry := AssocMap.mem_entries_iff.mpr hsource
      obtain ⟨name', assertion, hname', hchecked⟩ :=
        checkSourceRoute_of_checkRoutes hroutes _ hentry
      obtain rfl : name' = name := Except.ok.inj (hname'.symm.trans hname)
      exact ⟨assertion, (lookup_checkRoutes hroutes name' assertion).mpr
        (.inr ⟨_, hentry, hname', hchecked⟩),
        (checkSourceRoute_privacy hchecked).mpr hpublic⟩

namespace Source

variable {js : Runtime} {build : Build} {input : Option PolicyInput}
  {policy : Policy}

theorem assertedClass_eq_publicSsr_iff
    (h : effectivePolicy js build input = .ok policy) (name : Str) :
    assertedClass (policy.assertion name) = .publicSsr ↔
      AssertsPage input name := by
  simp only [AssertsPage, ← effectivePolicy_asserts h, Policy.assertion]
  rcases normalizeRouteName name with error | normal
  · simp [Except.map, assertedClass]
  · rcases hlookup : policy.routes.lookup normal with _ | assertion <;>
      simp [Except.map, assertedClass, hlookup]

end Source

section Public

variable {js : Runtime} {build : Build} {options : Options} {policy : Policy}
  {routes : List GeneratedRoute} {isMatch : Str → Str → Bool} {path : Str}
  (hroutes : generateConfig js build options = .ok routes)
  (hglobs : build.ReadsGlobs isMatch path)
  (houtside : ¬build.basePath ++ "/_next/".toList <+: path)

include hglobs houtside in
theorem isMatch_own {source : Source}
    (hown : "/_next/".toList <+: source.suffix build) :
    isMatch (source.glob build) path = false := by
  refine Bool.eq_false_iff.mpr fun hmatch => houtside ?_
  exact hglobs.own _ ((List.prefix_append_right_inj _).mpr hown) hmatch

theorem own_data (name : Str) :
    "/_next/".toList <+: (Source.data name).suffix build := by
  have hown : "/_next/".toList <+: "/_next/data/".toList := by decide
  unfold Source.suffix
  generalize "/_next/data/".toList = folder at hown ⊢
  dsimp only
  rw [List.append_assoc, List.append_assoc]
  exact hown.trans (List.prefix_append _ _)

include hglobs houtside in
/-- Outside `/_next/` the first match is a prerendered route, a handler, a page
or the rest, in this order. -/
theorem find?_sources :
    ((sources js build).find? fun source =>
        isMatch (source.glob build) path) =
      (((build.prerenderedRoutes js).find? fun route =>
        path == build.basePath ++ route).map .prerendered).or
      ((((build.handlers js).find? fun name =>
        build.catches name path).map .handler).or
      ((((build.pages js).find? fun name =>
        build.catches name path).map .page).or
      ([Source.rest].find? fun source =>
        isMatch (source.glob build) path))) := by
  have hstatic : ([Source.buildOutput, .image].find? fun source =>
      isMatch (source.glob build) path) = none := by
    have houtput : isMatch (Source.buildOutput.glob build) path = false :=
      isMatch_own hglobs houtside
        (by decide : "/_next/".toList <+: "/_next/static/**".toList)
    have himage : isMatch (Source.image.glob build) path = false :=
      isMatch_own hglobs houtside
        (by decide : "/_next/".toList <+: "/_next/image".toList)
    simp [houtput, himage]
  have hdata : (((build.dataPages js).map Source.data).find? fun source =>
      isMatch (source.glob build) path) = none := by
    rw [List.find?_eq_none, List.forall_mem_map]
    intro name _
    rw [isMatch_own hglobs houtside (own_data name)]
    exact Bool.false_ne_true
  have hprerendered : ((build.prerenderedRoutes js).find? fun route =>
      isMatch ((Source.prerendered route).glob build) path) =
        (build.prerenderedRoutes js).find? fun route =>
          path == build.basePath ++ route := by
    refine List.find?_congr fun route hroute => ?_
    rw [Bool.eq_iff_iff, beq_iff_eq]
    exact hglobs.prerendered route (Build.mem_prerenderedRoutes.mp hroute)
  have hhandlers : ((build.handlers js).find? fun name =>
      isMatch ((Source.handler name).glob build) path) =
        (build.handlers js).find? fun name => build.catches name path :=
    List.find?_congr fun name hname =>
      hglobs.named name (.inl (Build.mem_handlers.mp hname))
  have hpages : ((build.pages js).find? fun name =>
      isMatch ((Source.page name).glob build) path) =
        (build.pages js).find? fun name => build.catches name path :=
    List.find?_congr fun name hname =>
      hglobs.named name (.inr (Build.mem_pages.mp hname))
  rw [← hprerendered, ← hhandlers, ← hpages, sources]
  simp only [List.find?_append, hstatic, hdata, Option.none_or,
    List.find?_map, Option.or_assoc, Function.comp_def]

include hroutes hglobs houtside in
/-- The generated file makes a path public exactly if it is a prerendered
route's, or no handler catches it and the first page that does is asserted
public. -/
theorem generateConfig_public_iff :
    (∃ route, (routes.find? fun route => isMatch route.path path) =
        some route ∧ route.routeClass = .publicSsr) ↔
      (∃ route, build.isPrerendered route = true ∧
          path = build.basePath ++ route) ∨
        (∀ handler, build.isRouteHandler handler = true →
            build.catches handler path = false) ∧
          ∃ page, (build.pages js).find? (build.catches · path) = some page ∧
            AssertsPage options.policy page := by
  obtain ⟨policy, hpolicy, -⟩ := bind_eq_ok.mp hroutes
  have hclass : (∃ route, (routes.find? fun route =>
      isMatch route.path path) = some route ∧ route.routeClass = .publicSsr) ↔
      ∃ source, ((sources js build).find? fun source =>
        isMatch (source.glob build) path) = some source ∧
          source.routeClass policy = .publicSsr := by
    rw [← Option.map_eq_some_iff, find?_generateConfig isMatch path hpolicy
      hroutes, Option.map_eq_some_iff]
  have hhandlers : (build.handlers js).find? (build.catches · path) = none ↔
      ∀ handler, build.isRouteHandler handler = true →
        build.catches handler path = false := by
    simp only [List.find?_eq_none, Build.mem_handlers, Bool.not_eq_true]
  rw [hclass, find?_sources hglobs houtside, ← hhandlers]
  cases hroute : (build.prerenderedRoutes js).find? fun route =>
      path == build.basePath ++ route with
  | some route =>
      have hprerendered := Build.mem_prerenderedRoutes.mp
        (List.mem_of_find?_eq_some hroute)
      have hpath : path = build.basePath ++ route := by
        simpa using List.find?_some hroute
      exact iff_of_true ⟨_, rfl, rfl⟩ (.inl ⟨route, hprerendered, hpath⟩)
  | none =>
      have hother : ¬∃ route, build.isPrerendered route = true ∧
          path = build.basePath ++ route := by
        rintro ⟨route, hprerendered, hpath⟩
        have hno := List.find?_eq_none.mp hroute route
          (Build.mem_prerenderedRoutes.mpr hprerendered)
        simp [← hpath] at hno
      rw [Option.map_none, Option.none_or, or_iff_right hother]
      cases ((build.handlers js).find? fun name => build.catches name path) with
      | some handler =>
          refine iff_of_false ?_ (by simp)
          rintro ⟨source, hsource, hclass⟩
          cases hsource
          cases hclass
      | none =>
          rw [Option.map_none, Option.none_or]
          cases (build.pages js).find? (build.catches · path) with
          | some page =>
              simpa [Source.routeClass] using
                Source.assertedClass_eq_publicSsr_iff hpolicy page
          | none =>
              refine iff_of_false ?_ (by simp)
              rintro ⟨source, hsource, hclass⟩
              rw [Option.map_none, Option.none_or] at hsource
              obtain rfl := List.mem_singleton.mp
                (List.mem_of_find?_eq_some hsource)
              cases hclass

/-- The most specific page that catches a path is the first. -/
theorem find?_pages (hlocale : Std.TransCmp js.localeCompare) {page : Str}
    (hlisted : build.isPage page = true)
    (hcaught : build.catches page path = true)
    (hfirst : ∀ other, build.isPage other = true →
      build.catches other path = true → other ≠ page →
        compareRouteSpecificity js page other = .lt) :
    ((build.pages js).find? fun name => build.catches name path) =
      some page := by
  refine find?_sortBy_eq_some (transCmp_compareRouteSpecificity hlocale)
    (Build.mem_pages.mpr hlisted) hcaught ?_
  intro other hother
  exact hfirst other (Build.mem_pages.mp hother)

end Public

/-- A runtime that folds case and compares as ASCII text does. -/
def asciiRuntime : Runtime where
  localeCompare := compare
  toLowerCase := toAsciiLowercase
  toUpperCase := toAsciiUppercase

/-- How globs match whose characters, apart from `*`, stand for themselves. -/
def starMatch : Str → Str → Bool
  | [], path => path.isEmpty
  | c :: pattern, path =>
      if c = '*' then path.tails.any (starMatch pattern)
      else
        match path with
        | [] => false
        | d :: rest => c == d && starMatch pattern rest

/-- Products have pages of their own, and orders under each product. -/
def shopBuild : Build where
  buildId := "b".toList
  dynamicRoutes :=
    ["/products/[slug]".toList, "/products/[slug]/[order]".toList]

/-- Products are public, orders are private. -/
def shopOptions : Options where
  policy := some
    { routes := AList.insert "/products/[slug]".toList
        { privacy := "public".toList
          cache := some { ttl := some "2s".toList } }
        (AList.singleton "/products/[slug]/[order]".toList
          { privacy := "private".toList }) }

theorem eq_of_assertsPublic_shop {name : Str}
    (h : AssertsPublic shopOptions.policy name) :
    name = "/products/[slug]".toList := by
  obtain ⟨input, original, source, hinput, hsource, hname, hpublic⟩ := h
  cases hinput
  have hentry := AssocMap.mem_entries_iff.mpr hsource
  rcases List.mem_cons.mp hentry with hfirst | hrest
  · cases hfirst
    exact (Except.ok.inj hname).symm
  · cases List.mem_singleton.mp hrest
    exact absurd hpublic (by decide)

theorem prefix_of_starMatch {literal pattern path : Str}
    (hliteral : '*' ∉ literal)
    (h : starMatch (literal ++ pattern) path = true) : literal <+: path := by
  induction literal generalizing path with
  | nil => exact List.nil_prefix
  | cons c literal ih =>
      obtain ⟨hc, hliteral⟩ := not_or.mp (mt List.mem_cons.mpr hliteral)
      rw [List.cons_append] at h
      cases path with
      | nil => simp [starMatch, Ne.symm hc] at h
      | cons d path =>
          simp only [starMatch, Ne.symm hc, if_false, Bool.and_eq_true,
            beq_iff_eq] at h
          exact List.cons_prefix_cons.mpr ⟨h.1, ih hliteral h.2⟩

theorem isPage_shop {name : Str} (h : shopBuild.isPage name = true) :
    name = "/products/[slug]".toList ∨
      name = "/products/[slug]/[order]".toList := by
  simp only [Build.isPage, Bool.and_eq_true] at h
  simpa [Build.pageNames, shopBuild] using h.1.1.1.1

/-- Stars read the names of a build that consists of pages only. -/
theorem readsGlobs_starMatch (buildId : Str)
    {staticRoutes dynamicRoutes : List Str} {path : Str} :
    let build : Build := { buildId, staticRoutes, dynamicRoutes }
    (∀ name ∈ staticRoutes ++ dynamicRoutes,
      starMatch (toGlob name) path = build.catches name path) →
    build.ReadsGlobs starMatch path := by
  intro build hnamed
  refine ⟨?_, ?_, ?_⟩
  · have hliteral : '*' ∉ "/_next/".toList := by decide
    rintro _ ⟨pattern, rfl⟩ hmatch
    exact prefix_of_starMatch hliteral hmatch
  · intro route hroute
    have hmem := of_decide_eq_true (Bool.and_eq_true_iff.mp hroute).1
    exact absurd hmem (AList.notMem_empty route)
  · rintro name (hhandler | hpage)
    · cases hhandler
    · refine hnamed name ?_
      simp only [Build.isPage, Bool.and_eq_true] at hpage
      simpa [Build.pageNames, build] using hpage.1.1.1.1

theorem exposes_shop : Exposes asciiRuntime shopBuild shopOptions.policy
    "/products/a/b".toList "/products/[slug]".toList where
  listed := by decide
  asserted := ⟨_, rfl, _, "/products/[slug]".toList, _, rfl, rfl, rfl, rfl⟩
  caught := by decide
  foreign := by
    rintro ⟨normal, rest, hnormal, hpath, hserves⟩
    cases hnormal
    cases hpath
    exact absurd hserves (by decide)
  first := by
    intro other hother hlt
    rcases isPage_shop hother with rfl | rfl <;> exact absurd hlt (by decide)
  noHandler := fun _ hhandler => Bool.noConfusion hhandler
  notPrerendered := by
    intro route hroute
    have hmem := of_decide_eq_true (Bool.and_eq_true_iff.mp hroute).1
    exact absurd hmem (AList.notMem_empty route)

end Harmost.Next
