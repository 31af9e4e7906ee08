import Harmost.Next.Tiers
import Harmost.Next.Validity
import Harmost.Support.Lists

/-!
# Policies and the limits of the configuration

`validatePolicy` and Harmost's own validation check the same fields in two
languages.  They disagree on days and on numbers that do not fit, on methods
that HTTP leaves to extensions, on weights above a ceiling and on priorities
where there is only one tier; everything else the generator writes is accepted.
-/

namespace Harmost.Next

open Harmost.Support
open Harmost.Http
open Harmost.Config

/-! ## The runtime -/

/-- Case is folded as ASCII is, in ASCII text. -/
def Runtime.FoldsAscii (js : Runtime) : Prop :=
  ∀ text : Str, text.all isTokenChar = true →
    js.toLowerCase text = toAsciiLowercase text

/-- A positive number is printed in digits, or with a point, an exponent or as
`Infinity`. -/
def JsNumber.Printed (number : JsNumber) : Prop :=
  number.positive = true →
    (∃ n, 0 < n ∧ number.text = decimal n) ∨
      '.' ∈ number.text ∨ 'e' ∈ number.text ∨ 'I' ∈ number.text

/-! ## What validation leaves open -/

/-- The number and the unit of a duration fit: no days, and no more seconds
than 64 bits hold. -/
def durationFits (text : Str) : Prop :=
  let digits := text.takeWhile Char.isDigit
  let unit := text.drop digits.length
  unit ≠ "d".toList ∧
    Nat.ofDigitChars 10 digits 0 * secondsPerUnit unit < 2 ^ 64

/-- What an assertion has to meet beyond its validation. -/
structure Assertion.Fits (options : Options) (lowPriorityPercent : ℕ)
    (assertion : Assertion) : Prop where
  ttl : ∀ text, assertion.cache.bind AssertionCache.ttl = some text →
    durationFits text
  staleIfError : ∀ text,
    assertion.cache.bind AssertionCache.staleIfError = some text →
      durationFits text
  methods : ∀ methods, assertion.methods = some methods →
    ∀ method ∈ methods, isKnown method = true
  weight : ∀ weight, assertion.weight = some weight →
    weight ≤ options.ceiling lowPriorityPercent assertion.priority
  priority : assertion.priority = none ∨ assertion.priority = some .normal ∨
    1 < options.concurrency
  vary : ∀ headers, assertion.cache.bind AssertionCache.vary = some headers →
    ∀ header ∈ headers, byteLen header ≤ 65535

theorem isDuration_split {text : Str} (h : isDuration text = true) :
    text.takeWhile Char.isDigit ≠ [] ∧
      text.drop (text.takeWhile Char.isDigit).length ∈
        "d".toList :: durationUnits := by
  simp only [isDuration, Bool.and_eq_true, List.contains_iff_mem,
    Bool.not_eq_true', List.isEmpty_eq_false_iff] at h
  have hunits : ∀ unit ∈ ["ms".toList, "s".toList, "m".toList, "h".toList,
      "d".toList], unit ∈ "d".toList :: durationUnits := by
    decide
  exact ⟨h.1.1, hunits _ h.2⟩

/-- A valid duration is read exactly if it fits. -/
theorem parse_iff_durationFits {text : Str} (h : isDuration text = true) :
    (∃ d, Dur.parse text = .ok d) ↔ durationFits text := by
  obtain ⟨hdigits, hunit⟩ := isDuration_split h
  have hletters : ∀ unit ∈ "d".toList :: durationUnits,
      unit ≠ [] ∧ unit.all Char.isAlpha = true := by
    decide
  obtain ⟨hne, halpha⟩ := hletters _ hunit
  have hparse := parse_append hdigits List.all_takeWhile hne halpha
  rw [takeWhile_append_drop] at hparse
  rw [hparse, durationFits]
  refine and_congr_left fun _ => ?_
  rcases List.mem_cons.mp hunit with hday | hknown
  · rw [hday]
    decide
  · refine iff_of_true hknown fun hday => ?_
    rw [hday] at hknown
    exact absurd hknown (by decide)

variable {draft : Draft}

/-- A private route reuses nothing. -/
theorem reusePasses_private (hcache : draft.cache = some privateCache)
    (hcoalesce : draft.coalesce = none) : draft.ReusePasses := by
  constructor <;>
    simp [Draft.varyHeaders, hcache, hcoalesce, privateCache]

theorem durations_private (hcache : draft.cache = some privateCache) :
    draft.durations = [] := by
  simp [Draft.durations, hcache, privateCache]

/-- The optimiser's answers vary on `Accept` and on what it was asked for. -/
theorem reusePasses_image (hclass : draft.routeClass = .publicDynamic)
    (hcache : draft.cache = some
      { ttlMax := some "1h".toList
        queryKeys := some ["url".toList, "w".toList, "q".toList]
        varyHeaders := some ["Accept".toList] })
    (hcoalesce : draft.coalesce = none) : draft.ReusePasses := by
  refine ⟨by simp [hclass], by simp [hcache], ?_, by simp [hcoalesce], ?_, ?_⟩
  · rintro keys heq
    rw [hcache] at heq
    cases heq
    decide
  all_goals
    rw [Draft.varyHeaders, hcache]
    simp only [Option.bind_some, Option.getD_some]
    decide

/-- A prerendered page overrides the origin with a lifetime. -/
theorem reusePasses_prerendered {ttl stale : Str}
    (hclass : draft.routeClass = .publicSsr) (hcache : draft.cache = some
      { overrideOrigin := true, ttlMax := some ttl
        staleIfError := some stale })
    (hcoalesce : ∀ c, draft.coalesce = some c → c.overrideOrigin = false) :
    draft.ReusePasses := by
  refine ⟨by simp [hclass], by simp [hcache], by simp [hcache],
    fun c hc hover => ?_, by simp [Draft.varyHeaders, hcache],
    by simp [Draft.varyHeaders, hcache]⟩
  exact absurd hover (by simp [hcoalesce c hc])

theorem isHeaderName_iff {header : Str} (h : isRefusedVary header = false) :
    isHeaderName header = true ↔ byteLen header ≤ 65535 := by
  simp only [isRefusedVary, isToken, Bool.or_eq_false_iff, Bool.not_eq_false',
    Bool.and_eq_true] at h
  simp [isHeaderName, h.1.1, h.1.2]

/-- The headers of a valid assertion are distinct to Harmost too. -/
theorem nodup_toAsciiLowercase {js : Runtime} (hjs : js.FoldsAscii)
    {headers : List Str}
    (hrefused : ∀ header ∈ headers, isRefusedVary header = false)
    (hnodup : (headers.map js.toLowerCase).Nodup) :
    (headers.map toAsciiLowercase).Nodup := by
  have hfold : headers.map toAsciiLowercase = headers.map js.toLowerCase := by
    refine List.map_congr_left fun header hmem => (hjs header ?_).symm
    have htoken := hrefused header hmem
    simp only [isRefusedVary, isToken, Bool.or_eq_false_iff,
      Bool.not_eq_false', Bool.and_eq_true] at htoken
    exact htoken.1.2
  rwa [hfold]

theorem reusePasses_public {js : Runtime} (hjs : js.FoldsAscii)
    {assertion : Assertion} (hvalid : assertion.Valid js)
    (hpublic : assertion.privacy = .publicRoute) (label path : Str)
    (rollout : Rollout) :
    (emitAssertion label path rollout (some assertion)).ReusePasses ↔
      ∀ headers, assertion.cache.bind AssertionCache.vary = some headers →
        ∀ header ∈ headers, byteLen header ≤ 65535 := by
  have hheaders :
      (emitAssertion label path rollout (some assertion)).varyHeaders =
        (assertion.cache.bind AssertionCache.vary).getD [] := by
    rw [emitAssertion, hpublic]
    rfl
  constructor
  · intro h headers hvary header hmem
    rw [← isHeaderName_iff ((hvalid.vary headers hvary).1 header hmem)]
    refine (h.vary header ?_).1
    rwa [hheaders, hvary]
  · intro hlength
    have hvary : (∀ header ∈ (assertion.cache.bind AssertionCache.vary).getD [],
        isHeaderName header = true ∧
          toAsciiLowercase header ∉ ["cookie".toList, "authorization".toList,
            "user-agent".toList, "*".toList]) ∧
        (((assertion.cache.bind AssertionCache.vary).getD []).map
          toAsciiLowercase).Nodup := by
      cases hsome : assertion.cache.bind AssertionCache.vary with
      | none => simp
      | some headers =>
          obtain ⟨hrefused, hnodup⟩ := hvalid.vary headers hsome
          refine ⟨fun header hmem => ⟨?_, ?_⟩,
            nodup_toAsciiLowercase hjs hrefused hnodup⟩
          · exact (isHeaderName_iff (hrefused header hmem)).mpr
              (hlength headers hsome header hmem)
          · have hkept := hrefused header hmem
            simp only [isRefusedVary, Bool.or_eq_false_iff] at hkept
            simpa using hkept.2
    refine ⟨?_, ?_, ?_, ?_, hheaders ▸ hvary.1, hheaders ▸ hvary.2⟩
    all_goals rw [emitAssertion, hpublic]
    · rintro cache - hclass
      cases hclass
    · rintro cache heq -
      cases heq
      exact hvalid.isPublic hpublic
    · exact hvalid.query
    · rintro coalesce heq hover
      cases heq
      exact ⟨by simp, (Bool.and_eq_true_iff.mp hover).2⟩

/-! ## Prerendered routes -/

/-- The lifetimes of a prerendered route are read. -/
def PrerenderFits (build : Build) (options : Options) (route : Str) : Prop :=
  (∃ d, Dur.parse options.staleIfError = .ok d) ∧
    ∀ number, build.prerendered.lookup route = some (some number) →
      number.positive = true → ∃ n < 2 ^ 64, number.text = decimal n

/-- A number of seconds is read exactly if it is whole and fits. -/
theorem parse_seconds_iff {number : JsNumber} (hprinted : number.Printed)
    (hpositive : number.positive = true) :
    (∃ d, Dur.parse (number.text ++ "s".toList) = .ok d) ↔
      ∃ n < 2 ^ 64, number.text = decimal n := by
  have hdecimal : ∀ n, (∃ d, Dur.parse (decimal n ++ "s".toList) = .ok d) ↔
      n < 2 ^ 64 := by
    intro n
    have hread : Nat.ofDigitChars 10 (decimal n) 0 = n :=
      Nat.ofDigitChars_toDigits (by decide) (by decide)
    have hdigits : (decimal n).all Char.isDigit = true :=
      List.all_eq_true.mpr fun c => isDigit_of_mem_decimal
    rw [parse_append (decimal_ne_nil n) hdigits (by decide) (by decide), hread]
    refine (and_iff_right (by decide)).trans ?_
    exact iff_of_eq (congrArg (· < 2 ^ 64) (Nat.mul_one n))
  have hother : ∀ c ∈ number.text, c = '.' ∨ c = 'e' ∨ c = 'I' →
      ¬∃ d, Dur.parse (number.text ++ "s".toList) = .ok d := by
    rintro c hmem hc ⟨d, hd⟩
    have hread := mem_of_parse hd c (List.mem_append_left _ hmem)
    rcases hc with rfl | rfl | rfl <;> exact absurd hread (by decide)
  constructor
  · intro hread
    rcases hprinted hpositive with
      ⟨n, -, htext⟩ | hpoint | hexponent | hinfinite
    · rw [htext, hdecimal] at hread
      exact ⟨n, hread, htext⟩
    · exact absurd hread (hother '.' hpoint (.inl rfl))
    · exact absurd hread (hother 'e' hexponent (.inr (.inl rfl)))
    · exact absurd hread (hother 'I' hinfinite (.inr (.inr rfl)))
  · rintro ⟨n, hn, htext⟩
    rwa [htext, hdecimal]

theorem parse_hour : ∃ d, Dur.parse ("1".toList ++ "h".toList) = .ok d :=
  (parse_append (by decide) (by decide) (by decide) (by decide)).mpr
    (by decide)

theorem parse_prerenderTtl_iff {build : Build} {route : Str}
    (hprinted : ∀ number, build.prerendered.lookup route =
      some (some number) → number.Printed) :
    (∃ d, Dur.parse (prerenderTtl build route) = .ok d) ↔
      ∀ number, build.prerendered.lookup route = some (some number) →
        number.positive = true → ∃ n < 2 ^ 64, number.text = decimal n := by
  rw [prerenderTtl]
  rcases hlookup : build.prerendered.lookup route with _ | _ | number
  · exact iff_of_true parse_hour (by simp)
  · exact iff_of_true parse_hour (by simp)
  · simp only [Option.join_some, Option.some.injEq, forall_eq']
    split_ifs with hpositive
    · rw [parse_seconds_iff (hprinted number hlookup) hpositive]
      simp [hpositive]
    · exact iff_of_true parse_hour fun h => absurd h hpositive

/-! ## Every source -/

/-- What the route of a source needs. -/
def Source.Fits (build : Build) (options : Options) (lowPriorityPercent : ℕ)
    (policy : Policy) : Source → Prop
  | .data name | .handler name | .page name => ∀ assertion,
      policy.assertion name = .ok (some assertion) →
        assertion.Fits options lowPriorityPercent
  | .prerendered route => PrerenderFits build options route
  | .buildOutput | .image | .rest => True

section Sources

variable {js : Runtime} (hjs : js.FoldsAscii) {build : Build}
  {options : Options} (low : ℕ) {policy : Policy}
  (hupstreams : options.upstreams ≠ []) (hpos : 1 ≤ options.concurrency)
  (hmax : options.concurrency ≤ maxSafeInteger)
  (hlow : 1 < options.concurrency → low < 100)
include hupstreams hpos hmax hlow

/-- A private route passes exactly if its methods, weight and priority fit. -/
theorem passes_private {assertion : Assertion} (hvalid : assertion.Valid js)
    (hprivate : assertion.privacy = .privateRoute)
    (hmethods : draft.methods = assertion.methods)
    (hweight : draft.weight = assertion.weight)
    (hpriority : draft.priority = assertion.priority)
    (hcache : draft.cache = some privateCache)
    (hcoalesce : draft.coalesce = none) :
    draft.Passes (options.origin low) ↔ assertion.Fits options low := by
  have hnone := hvalid.isPrivate hprivate
  rw [passes_iff low hupstreams hpos hmax hlow (hweight ▸ hvalid.weight),
    durations_private hcache, hmethods, hweight, hpriority]
  constructor
  · rintro ⟨-, hmethods, hweight, hpriority, -⟩
    exact ⟨by simp [hnone], by simp [hnone], hmethods, hweight, hpriority,
      by simp [hnone]⟩
  · intro h
    exact ⟨by simp, h.methods, h.weight, h.priority,
      reusePasses_private hcache hcoalesce⟩

/-- A route nothing is asserted about passes. -/
theorem passes_unasserted (hmethods : draft.methods = none)
    (hweight : draft.weight = none) (hpriority : draft.priority = none)
    (hcache : draft.cache = some privateCache)
    (hcoalesce : draft.coalesce = none) :
    draft.Passes (options.origin low) := by
  rw [passes_iff low hupstreams hpos hmax hlow (by simp [hweight]),
    durations_private hcache]
  exact ⟨by simp, by simp [hmethods], by simp [hweight], .inl hpriority,
    reusePasses_private hcache hcoalesce⟩

/-- The image route fits the share that was made for it. -/
theorem passes_image (h : emit build options policy .image = .ok draft) :
    draft.Passes (options.origin low) := by
  obtain rfl : _ = draft := Except.ok.inj h
  rw [passes_iff low hupstreams hpos hmax hlow]
  · refine ⟨?_, by simp, ?_, ?_, reusePasses_image rfl rfl rfl⟩
    · intro text htext
      have htext : text ∈ ["1h".toList] := htext
      rw [List.mem_singleton.mp htext]
      exact parse_hour
    · rintro weight heq
      cases heq
      exact imageWeight_le_ceiling low hupstreams hpos
    · by_cases hlarge : 1 < options.concurrency
      · exact .inr (.inr hlarge)
      · exact .inl (by simp [Options.imageUsesPriority, hlarge, hupstreams])
  · rintro weight heq
    cases heq
    have hvalue := imageWeight_eq hupstreams
    omega

theorem passes_prerendered {route : Str}
    (hprinted : ∀ number, build.prerendered.lookup route =
      some (some number) → number.Printed)
    (h : emit build options policy (.prerendered route) = .ok draft) :
    draft.Passes (options.origin low) ↔ PrerenderFits build options route := by
  obtain rfl : _ = draft := Except.ok.inj h
  rw [passes_iff low hupstreams hpos hmax hlow (by simp), PrerenderFits,
    ← parse_prerenderTtl_iff hprinted]
  constructor
  · rintro ⟨hdurations, -⟩
    exact ⟨hdurations _ (by simp [Draft.durations]),
      hdurations _ (by simp [Draft.durations])⟩
  · rintro ⟨hstale, httl⟩
    refine ⟨?_, by simp, by simp, .inl rfl,
      reusePasses_prerendered rfl rfl (by simp)⟩
    intro text htext
    have htext : text = prerenderTtl build route ∨
        text = options.staleIfError := by
      simpa [Draft.durations] using htext
    rcases htext with rfl | rfl
    · exact httl
    · exact hstale

include hjs

theorem passes_public {assertion : Assertion} (hvalid : assertion.Valid js)
    (hpublic : assertion.privacy = .publicRoute) (label path : Str) :
    (emitAssertion label path options.rollout (some assertion)).Passes
      (options.origin low) ↔ assertion.Fits options low := by
  obtain ⟨hmethods, hweight, hpriority, hdurations⟩ :
      let draft := emitAssertion label path options.rollout (some assertion)
      draft.methods = assertion.methods ∧ draft.weight = assertion.weight ∧
        draft.priority = assertion.priority ∧ draft.durations =
          (assertion.cache.bind AssertionCache.ttl).toList ++
            (assertion.cache.bind AssertionCache.staleIfError).toList := by
    rw [emitAssertion, hpublic]
    exact ⟨rfl, rfl, rfl, rfl⟩
  rw [passes_iff low hupstreams hpos hmax hlow (hweight ▸ hvalid.weight),
    hdurations, hmethods, hweight, hpriority,
    reusePasses_public hjs hvalid hpublic, List.forall_mem_append]
  simp only [Option.mem_toList]
  constructor
  · rintro ⟨⟨httl, hstale⟩, hmethods, hweight, hpriority, hvary⟩
    exact ⟨fun text h => (parse_iff_durationFits (hvalid.ttl text h)).mp
        (httl text h),
      fun text h => (parse_iff_durationFits (hvalid.staleIfError text h)).mp
        (hstale text h), hmethods, hweight, hpriority, hvary⟩
  · intro h
    exact ⟨⟨fun text hsome => (parse_iff_durationFits
          (hvalid.ttl text hsome)).mpr (h.ttl text hsome),
        fun text hsome => (parse_iff_durationFits
          (hvalid.staleIfError text hsome)).mpr (h.staleIfError text hsome)⟩,
      h.methods, h.weight, h.priority, h.vary⟩

theorem passes_emitAssertion {assertion : Option Assertion}
    (hvalid : ∀ a, assertion = some a → a.Valid js) (label path : Str) :
    (emitAssertion label path options.rollout assertion).Passes
        (options.origin low) ↔
      ∀ a, assertion = some a → a.Fits options low := by
  cases assertion with
  | none =>
      refine iff_of_true ?_ (by simp)
      exact passes_unasserted low hupstreams hpos hmax hlow rfl rfl rfl rfl rfl
  | some assertion =>
      simp only [Option.some.injEq, forall_eq'] at hvalid ⊢
      cases hprivacy : assertion.privacy with
      | publicRoute =>
          exact passes_public hjs low hupstreams hpos hmax hlow hvalid hprivacy
            label path
      | privateRoute =>
          have hemitted : emitAssertion label path options.rollout
              (some assertion) =
                { label := label, path := path, methods := assertion.methods
                  weight := assertion.weight, priority := assertion.priority
                  routeClass := .privateDynamic
                  cache := some privateCache } := by
            rw [emitAssertion, hprivacy]
          rw [hemitted]
          exact passes_private low hupstreams hpos hmax hlow hvalid hprivacy rfl
            rfl rfl rfl rfl

/-- A route passes exactly if its source fits. -/
theorem passes_emit {source : Source} (hvalid : ∀ name assertion,
      policy.routes.lookup name = some assertion → assertion.Valid js)
    (hhandler : ∀ route assertion, source = .handler route →
      policy.assertion route = .ok (some assertion) →
        assertion.privacy = .privateRoute)
    (hprinted : ∀ route number, build.prerendered.lookup route =
      some (some number) → number.Printed)
    (h : emit build options policy source = .ok draft) :
    draft.Passes (options.origin low) ↔
      source.Fits build options low policy := by
  have hasserted : ∀ name assertion,
      policy.assertion name = .ok (some assertion) → assertion.Valid js := by
    intro name assertion hassertion
    obtain ⟨normal, -, hlookup⟩ := map_eq_ok.mp hassertion
    exact hvalid normal assertion hlookup
  cases source with
  | buildOutput =>
      obtain rfl : _ = draft := Except.ok.inj h
      refine iff_of_true ?_ trivial
      rw [passes_iff low hupstreams hpos hmax hlow (by simp)]
      exact ⟨by simp [Draft.durations], by simp, by simp, .inl rfl,
        ⟨by simp, by simp, by simp, by simp, by simp [Draft.varyHeaders],
          by simp [Draft.varyHeaders]⟩⟩
  | rest =>
      obtain rfl : _ = draft := Except.ok.inj h
      exact iff_of_true
        (passes_unasserted low hupstreams hpos hmax hlow rfl rfl rfl rfl rfl)
        trivial
  | image =>
      exact iff_of_true (passes_image low hupstreams hpos hmax hlow h) trivial
  | prerendered route =>
      exact passes_prerendered low hupstreams hpos hmax hlow (hprinted route) h
  | data name | page name =>
      obtain ⟨assertion, hassertion, rfl⟩ := map_eq_ok.mp h
      rw [passes_emitAssertion hjs low hupstreams hpos hmax hlow
        fun a ha => hasserted name a (ha ▸ hassertion)]
      simp [Source.Fits, hassertion]
  | handler route =>
      obtain ⟨assertion, hassertion, rfl⟩ := map_eq_ok.mp h
      cases assertion with
      | none =>
          refine iff_of_true (passes_unasserted low hupstreams hpos hmax hlow
            rfl rfl rfl rfl rfl) ?_
          simp [Source.Fits, hassertion]
      | some assertion =>
          have hprivate := hhandler route assertion rfl hassertion
          rw [passes_private low hupstreams hpos hmax hlow
            (hasserted route assertion hassertion) hprivate rfl rfl rfl rfl rfl]
          simp [Source.Fits, hassertion]

/-- Routes pass exactly if their sources fit, where the low tier is left less
than everything. -/
theorem passes_emitAll
    (hprinted : ∀ route number, build.prerendered.lookup route =
      some (some number) → number.Printed)
    (hpolicy : effectivePolicy js build options.policy = .ok policy)
    {drafts : List Draft}
    (hdrafts : emitAll build options policy (sources js build) = .ok drafts) :
    (∀ draft ∈ drafts, draft.Passes (options.origin low)) ↔
      ∀ source ∈ sources js build, source.Fits build options low policy := by
  obtain ⟨hwritten, hsources⟩ := mem_traverse (emit build options policy)
    (emitAll build options policy) rfl (fun _ _ => rfl) hdrafts
  have hpasses : ∀ source ∈ sources js build, ∀ draft,
      emit build options policy source = .ok draft →
        (draft.Passes (options.origin low) ↔
          source.Fits build options low policy) := by
    intro source hsource draft hdraft
    refine passes_emit hjs low hupstreams hpos hmax hlow
      (fun name assertion hlookup =>
        (effectivePolicy_lookup hpolicy hlookup).1) ?_ hprinted hdraft
    rintro route assertion rfl hassertion
    exact handler_private hpolicy hsource hassertion
  constructor
  · intro h source hsource
    obtain ⟨draft, hmem, hdraft⟩ := hwritten source hsource
    exact (hpasses source hsource draft hdraft).mp (h draft hmem)
  · intro h draft hmem
    obtain ⟨source, hsource, hdraft⟩ := hsources draft hmem
    exact (hpasses source hsource draft hdraft).mpr (h source hsource)

end Sources

/-! ## The generated file -/

theorem passes_assignIds {origin : Origin} {drafts : List Draft} :
    (∀ route ∈ assignIds [] drafts, route.Passes origin) ↔
      ∀ draft ∈ drafts, draft.Passes origin := by
  conv_rhs => rw [← assignIds_map [] drafts]
  rw [List.forall_mem_map]

/-- An image route that passes shows that the tiers differ. -/
theorem isUniform_of_image {build : Build} {options : Options} {policy : Policy}
    {origin : Origin} (h : emit build options policy .image = .ok draft)
    (hpasses : draft.Passes origin) (hlarge : 1 < options.concurrency) :
    origin.priorities.isUniform = false := by
  obtain rfl : _ = draft := Except.ok.inj h
  refine hpasses.priority.resolve_left ?_
  simp [Options.imageUsesPriority, hlarge]

/-- The sources fit exactly if the policy and the prerendered routes do. -/
theorem sources_fit_iff {js : Runtime} {build : Build} {options : Options}
    {low : ℕ} {policy : Policy}
    (hpolicy : effectivePolicy js build options.policy = .ok policy) :
    (∀ source ∈ sources js build, source.Fits build options low policy) ↔
      (∀ name assertion, policy.routes.lookup name = some assertion →
        assertion.Fits options low) ∧
      ∀ route ∈ build.prerendered, Build.isInternal route = false →
        PrerenderFits build options route := by
  constructor
  · intro h
    refine ⟨fun name assertion hlookup => ?_, fun route hmem hvisible => ?_⟩
    · obtain ⟨route, hlisted, hassertion⟩ := exists_source hpolicy hlookup
      rcases hlisted with hpage | hhandler
      · exact h _ hpage assertion hassertion
      · exact h _ hhandler assertion hassertion
    · refine h (.prerendered route) ?_
      simp [sources, Build.mem_prerenderedRoutes, Build.isPrerendered, hmem,
        hvisible]
  · rintro ⟨hpolicyFits, hprerendered⟩ source hsource
    have hasserted : ∀ name assertion,
        policy.assertion name = .ok (some assertion) →
          assertion.Fits options low := by
      intro name assertion hassertion
      obtain ⟨normal, -, hlookup⟩ := map_eq_ok.mp hassertion
      exact hpolicyFits normal assertion hlookup
    cases source with
    | data name | handler name | page name => exact hasserted name
    | buildOutput | image | rest => trivial
    | prerendered route =>
        obtain ⟨hmem, hvisible⟩ :
            route ∈ build.prerendered ∧ Build.isInternal route = false := by
          simpa [sources, Build.mem_prerenderedRoutes, Build.isPrerendered]
            using hsource
        exact hprerendered route hmem hvisible

/-- With an upstream and a capacity, the generated file is accepted exactly if
the low tier is left less than everything, every assertion fits, and so do the
lifetimes of every prerendered route. -/
theorem accepted_iff {js : Runtime} (hjs : js.FoldsAscii) {build : Build}
    (hprinted : ∀ route number, build.prerendered.lookup route =
      some (some number) → number.Printed)
    {options : Options} (hupstreams : options.upstreams ≠ [])
    {capacityOptions : CapacityOptions} {capacity : Capacity}
    (hcapacity : resolveCapacity capacityOptions = .ok capacity)
    (hconcurrency : options.concurrency = capacity.concurrency)
    {policy : Policy}
    (hpolicy : effectivePolicy js build options.policy = .ok policy)
    {routes : List GeneratedRoute}
    (hroutes : generateConfig js build options = .ok routes)
    (lowPriorityPercent : ℕ) :
    Accepted (options.origin lowPriorityPercent) routes ↔
      (1 < options.concurrency → lowPriorityPercent < 100) ∧
        (∀ name assertion, policy.routes.lookup name = some assertion →
          assertion.Fits options lowPriorityPercent) ∧
        ∀ route ∈ build.prerendered, Build.isInternal route = false →
          PrerenderFits build options route := by
  obtain ⟨hpos, hmax⟩ := concurrency_of_resolveCapacity hcapacity
  rw [← hconcurrency] at hpos hmax
  obtain ⟨policy', hpolicy', h⟩ := bind_eq_ok.mp hroutes
  obtain rfl : policy' = policy := Except.ok.inj (hpolicy'.symm.trans hpolicy)
  obtain ⟨drafts, hdrafts, rfl⟩ := map_eq_ok.mp h
  rw [accepted_iff_passes, passes_assignIds, ← sources_fit_iff hpolicy,
    and_iff_right (nodup_assignIds [] drafts).1,
    ← validatePriorities_origin lowPriorityPercent hupstreams hpos hmax]
  have hemitted : validatePriorities (options.origin lowPriorityPercent) =
      .ok () ∧ (1 < options.concurrency → (options.origin
        lowPriorityPercent).priorities.isUniform = false) →
      ((∀ draft ∈ drafts, draft.Passes (options.origin lowPriorityPercent)) ↔
        ∀ source ∈ sources js build,
          source.Fits build options lowPriorityPercent policy') := by
    intro hpriorities
    exact passes_emitAll hjs lowPriorityPercent hupstreams hpos hmax
      ((validatePriorities_origin lowPriorityPercent hupstreams hpos
        hmax).mp hpriorities) hprinted hpolicy hdrafts
  constructor
  · rintro ⟨hvalid, hpasses⟩
    have hpriorities := And.intro hvalid fun hlarge => by
      obtain ⟨draft, hmem, hdraft⟩ := (mem_traverse
        (emit build options policy') (emitAll build options policy') rfl
        (fun _ _ => rfl) hdrafts).1 .image (by simp [sources])
      exact isUniform_of_image hdraft (hpasses draft hmem) hlarge
    exact ⟨hpriorities, (hemitted hpriorities).mp hpasses⟩
  · rintro ⟨hpriorities, hfits⟩
    exact ⟨hpriorities.1, (hemitted hpriorities).mpr hfits⟩

/-! ## A shop that caches for a day -/

/-- The shop, with an upstream and some lifetime for its product pages. -/
def cachingShop (ttl : String) : Options where
  upstreams := ["next-1:3000".toList]
  policy := some
    { routes := AList.singleton "/products/[slug]".toList
        { privacy := "public".toList
          cache := some { ttl := some ttl.toList } } }

/-- A day is a duration to `validatePolicy` and none to Harmost. -/
theorem generateConfig_writes_days :
    ∃ routes,
      generateConfig asciiRuntime shopBuild (cachingShop "1d") = .ok routes ∧
      resolveCapacity {} = .ok ⟨(cachingShop "1d").concurrency, none⟩ ∧
      ¬Accepted ((cachingShop "1d").origin 30) routes := by
  have hday : ((generateConfig asciiRuntime shopBuild
      (cachingShop "1d")).toOption.any fun routes => routes.any fun route =>
        route.durations.contains "1d".toList) = true := rfl
  obtain ⟨routes, hroutes⟩ : ∃ routes,
      generateConfig asciiRuntime shopBuild (cachingShop "1d") = .ok routes :=
    ⟨_, rfl⟩
  rw [hroutes] at hday
  obtain ⟨route, hmem, hday⟩ := List.any_eq_true.mp hday
  refine ⟨routes, hroutes, rfl, fun haccepted => ?_⟩
  obtain ⟨d, hd⟩ := ((accepted_iff_passes.mp haccepted).2.2 route
    hmem).durations _ (List.contains_iff_mem.mp hday)
  have hsplit : ∃ d, Dur.parse ("1".toList ++ "d".toList) = .ok d := ⟨d, hd⟩
  rw [parse_append (by decide) (by decide) (by decide) (by decide)] at hsplit
  exact absurd hsplit.1 (by decide)

/-- A lifetime of two seconds is accepted. -/
theorem accepted_iff_two_seconds :
    ∃ routes,
      generateConfig asciiRuntime shopBuild (cachingShop "2s") = .ok routes ∧
      Accepted ((cachingShop "2s").origin 30) routes := by
  have hfolds : asciiRuntime.FoldsAscii := fun _ _ => rfl
  have hcapacity : resolveCapacity {} = .ok ⟨200, none⟩ := rfl
  have hprinted : ∀ route number, shopBuild.prerendered.lookup route =
      some (some number) → number.Printed := by
    intro route number hlookup
    cases hlookup
  refine ⟨_, rfl, (accepted_iff hfolds hprinted (by decide) hcapacity rfl rfl
    rfl 30).mpr ⟨fun _ => by decide, ?_, ?_⟩⟩
  · intro name assertion hlookup
    have hentry := AssocMap.mem_entries_iff.mpr hlookup
    cases List.mem_singleton.mp hentry
    refine ⟨?_, by simp, by simp, by simp, .inl rfl, by simp⟩
    rintro text heq
    cases heq
    exact ⟨by decide, by decide⟩
  · intro route hroute
    exact absurd hroute (AList.notMem_empty route)

end Harmost.Next
