import Harmost.Cache.Directives
import Harmost.Proxy.Filters

/-!
# Refusals, from bytes to verdict

An origin refuses to be shared in a comma-separated list of directives with
optional whitespace around them.  The filter reads the escaped rendering of the
header, so what it trims is not the whitespace of the bytes: a space survives
escaping, a horizontal tab does not.
-/

namespace Harmost.Proxy

open Harmost.Support
open Harmost.Http
open Harmost.Classifier
open Harmost.Config
open Harmost.Cache

/-- The directives by which an origin refuses. -/
def refusalNames : List Str :=
  ["no-store".toList, "private".toList, "no-cache".toList]

/-! ## What the parser finds -/

theorem refusal_ne_none_iff (cc : CacheControl) :
    cc.refusal ≠ none ↔
      cc.noStore = true ∨ cc.«private» = true ∨ cc.noCache = true := by
  unfold CacheControl.refusal
  cases cc.noStore <;> cases cc.«private» <;> cases cc.noCache <;> simp

theorem mem_refusalNames {name : Str} :
    name ∈ refusalNames ↔ name = "no-store".toList ∨
      name = "private".toList ∨ name = "no-cache".toList := by
  simp only [refusalNames, List.mem_cons, List.not_mem_nil, or_false]

/-- A text refuses exactly when one of its pieces is a refusal. -/
theorem refusal_parse_iff (raw : Str) :
    (CacheControl.parse raw).refusal ≠ none ↔
      ∃ part ∈ raw.splitOn ',',
        CacheControl.directiveName part ∈ refusalNames := by
  have hdeclares : ∀ name, CacheControl.declares name (raw.splitOn ',') =
      true ↔ ∃ part ∈ raw.splitOn ',',
        CacheControl.directiveName part = name := by
    intro name
    simp only [CacheControl.declares, List.any_eq_true, beq_iff_eq,
      CacheControl.directiveName_eq]
  rw [refusal_ne_none_iff, CacheControl.parse_eq_declared]
  simp only [CacheControl.declared, hdeclares, mem_refusalNames, and_or_left,
    exists_or]

/-! ## What the bytes say -/

/-- Optional whitespace: space and horizontal tab. -/
def isOws (b : UInt8) : Bool :=
  b == 0x20 || b == 0x09

def isSpace (b : UInt8) : Bool :=
  b == 0x20

/-- The text of an element in front of its argument, folded. -/
def elementName (element : List UInt8) : Str :=
  toAsciiLowercase (latin1 (element.takeWhile (· != 0x3d)))

/-- The elements of the list that several header lines spell together. -/
def elements (values : List HeaderValue) : List (List UInt8) :=
  values.flatMap fun value => value.bytes.splitOn 0x2c

/-- Some element is a refusal once the optional whitespace around it is
stripped. -/
def OriginRefuses (values : List HeaderValue) : Prop :=
  ∃ element ∈ elements values,
    elementName (trimMatches isOws element) ∈ refusalNames

/-- Some element is a refusal with nothing but spaces around it, or between its
name and its argument. -/
def RefusesBetweenSpaces (values : List HeaderValue) : Prop :=
  ∃ element ∈ elements values,
    toAsciiLowercase (latin1 (trimMatches isSpace
      ((trimMatches isSpace element).takeWhile (· != 0x3d)))) ∈ refusalNames

/-! ## From the bytes to the verdict -/

theorem directiveName_escapeAscii (element : List UInt8) :
    CacheControl.directiveName (escapeAscii element) =
      toAsciiLowercase (escapeAscii (trimMatches isSpace
        ((trimMatches isSpace element).takeWhile (· != 0x3d)))) := by
  have hequals : '=' = latin1Char 0x3d := by decide
  rw [CacheControl.directiveName_eq, CacheControl.pieceName,
    trim_escapeAscii, hequals, takeWhile_escapeAscii (by decide),
    trim_escapeAscii]
  rfl

/-- Escaping neither hides a refusal nor makes one up. -/
theorem directiveName_mem_refusalNames_iff (element : List UInt8) :
    CacheControl.directiveName (escapeAscii element) ∈ refusalNames ↔
      toAsciiLowercase (latin1 (trimMatches isSpace
        ((trimMatches isSpace element).takeWhile (· != 0x3d)))) ∈
          refusalNames := by
  have hplain : ∀ name ∈ refusalNames, ∀ c ∈ name, IsUnescaped c := by
    intro name hname c hc
    have hall : (refusalNames.all fun name =>
        name.all fun c => decide (IsUnescaped c)) = true := by
      decide
    exact of_decide_eq_true
      (List.all_eq_true.mp (List.all_eq_true.mp hall name hname) c hc)
  rw [directiveName_escapeAscii]
  constructor
  · intro hmem
    rwa [(toAsciiLowercase_escapeAscii_eq_iff (hplain _ hmem) _).mp rfl]
  · intro hmem
    rwa [(toAsciiLowercase_escapeAscii_eq_iff (hplain _ hmem) _).mpr rfl]

/-- The joined text splits into the escaped elements. -/
theorem splitOn_join_headerText {values : List HeaderValue}
    (hne : values ≠ []) :
    (join ',' (values.map headerText)).splitOn ',' =
      (elements values).map escapeAscii := by
  have hsplit : ∀ value : HeaderValue,
      (headerText value).splitOn ',' =
        (value.bytes.splitOn 0x2c).map escapeAscii := by
    intro value
    have hcomma : ',' = latin1Char 0x2c := by decide
    rw [headerText, hcomma, splitOn_escapeAscii (by decide)]
  rw [splitOn_join ',' (by simpa using hne), List.flatMap_map, elements,
    List.map_flatMap]
  simp only [hsplit]

/-- The parser sees the refusals of the joined text between spaces. -/
theorem refusal_directives_iff (resp : ResponseHeader) :
    resp.metadata.directives.refusal ≠ none ↔
      RefusesBetweenSpaces
        (resp.headers.getAll "cache-control".toList) := by
  simp only [ResponseMetadata.directives, ResponseHeader.metadata,
    joinedHeaderValues, List.isEmpty_iff, List.map_eq_nil_iff]
  generalize resp.headers.getAll "cache-control".toList = values
  split_ifs with hempty
  · simp [hempty, RefusesBetweenSpaces, elements, CacheControl.refusal]
  · rw [Option.map_some, Option.getD_some, refusal_parse_iff,
      splitOn_join_headerText hempty]
    simp only [List.mem_map, exists_exists_and_eq_and,
      directiveName_mem_refusalNames_iff, RefusesBetweenSpaces]

/-- A response that carries the given `Cache-Control` lines and nothing else. -/
def bareResponse (values : List HeaderValue) : ResponseHeader where
  status := 200
  headers := values.map fun value =>
    (⟨"cache-control".toList, by decide, by decide⟩, value)

theorem getAll_bareResponse (values : List HeaderValue) (name : Str) :
    (bareResponse values).headers.getAll name =
      if "cache-control".toList = toAsciiLowercase name then values else [] :=
  HeaderMap.getAll_map _ values name

theorem absoluteRefusal_bareResponse (values : List HeaderValue)
    (keyHeaders : List Str) :
    absoluteRefusal (bareResponse values).metadata keyHeaders = none := by
  rw [absoluteRefusal_eq_none_iff]
  have hcookie : (bareResponse values).headers.getAll "set-cookie".toList =
      [] := (getAll_bareResponse values _).trans (if_neg (by decide))
  have hvary : (bareResponse values).headers.getAll "vary".toList = [] :=
    (getAll_bareResponse values _).trans (if_neg (by decide))
  refine ⟨?_, ?_, ?_⟩
  · simp only [ResponseHeader.metadata, HeaderMap.containsKey, hcookie,
      List.isEmpty_nil, Bool.not_true]
  · simp only [ResponseHeader.metadata, joinedHeaderValues, hvary,
      List.map_nil, List.isEmpty_nil, if_true, Option.bind_none]
  · exact List.mem_cons_self

/-- Refusals are honoured from raw bytes exactly when some refusal among
the `Cache-Control` elements has only spaces around it: a horizontal tab is
escaped before the list is read, and hides the element it touches. -/
theorem responseCacheFilter_refuses_iff (values : List HeaderValue) :
    (∀ (now : SystemTime) (resp : ResponseHeader) (ctx : Ctx),
      resp.headers.getAll "cache-control".toList = values →
      OriginRefuses values →
      overridesOrigin ctx.routeCache = false →
      ctx.coalesceOverride = false →
      responseCacheFilter now resp ctx =
        .ok (.uncacheable .originNotCache)) ↔
    (OriginRefuses values → RefusesBetweenSpaces values) := by
  constructor
  · intro h hrefuses
    -- Only waiters are served, so no lifetime is asked for.
    let ctx : Ctx := { policy := ⟨[], {}⟩, reuse := { transientOnly := true } }
    have hvalues : (bareResponse values).headers.getAll
        "cache-control".toList = values :=
      (getAll_bareResponse values _).trans (if_pos (by decide))
    have huncacheable := h 0 (bareResponse values) ctx hvalues hrefuses rfl rfl
    rw [responseCacheFilter_uncacheable_iff, Bool.eq_false_iff] at huncacheable
    by_contra hspaces
    apply huncacheable
    refine evaluateResponse_shared_iff.mpr
      ⟨absoluteRefusal_bareResponse values _, ?_, Or.inl rfl⟩
    rw [directiveRefusal_eq_none_iff]
    left
    by_contra hrefusal
    rw [← ne_eq, refusal_directives_iff, hvalues] at hrefusal
    exact hspaces hrefusal
  · intro h now resp ctx hvalues hrefuses hroute hcoalesce
    have hrefusal := (refusal_directives_iff resp).mpr
      (hvalues.symm ▸ h hrefuses)
    rw [responseCacheFilter_uncacheable_iff, Bool.eq_false_iff]
    intro hshared
    obtain ⟨_, hdirective, _⟩ := evaluateResponse_shared_iff.mp hshared
    simp [directiveRefusal_eq_none_iff, hrefusal, hroute, hcoalesce]
      at hdirective

/-- `no-store` behind a comma and a tab: the response is stored for a minute. -/
theorem responseCacheFilter_accepts_tabbed_no_store :
    let value : HeaderValue :=
      ⟨asciiBytes "max-age=60,\tno-store".toList, by decide⟩
    let resp : ResponseHeader := bareResponse [value]
    let ctx : Ctx := { policy := ⟨[], {}⟩ }
    ¬(resp.headers.getAll "cache-control".toList = [value] →
      OriginRefuses [value] →
      overridesOrigin ctx.routeCache = false →
      ctx.coalesceOverride = false →
      responseCacheFilter 0 resp ctx = .ok (.uncacheable .originNotCache)) := by
  intro value resp ctx h
  have hrefuses : OriginRefuses [value] :=
    ⟨asciiBytes "\tno-store".toList, by decide, by decide⟩
  have huncacheable := h (by decide) hrefuses rfl rfl
  rw [responseCacheFilter_uncacheable_iff] at huncacheable
  revert huncacheable
  decide

end Harmost.Proxy
