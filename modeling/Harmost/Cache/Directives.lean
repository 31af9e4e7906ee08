import Harmost.Cache.Vary
import Harmost.Http.Grammar

/-!
# What a `Cache-Control` text declares

The parser cuts the text at every comma and folds over the pieces.  Read back
from the result: a flag is set when some piece has its name, and a number is the
argument of the last piece that has its name.

The comma also separates pieces inside a quoted string, where the grammar of the
header has no directives.
-/

namespace Harmost.Cache

open Harmost.Support
open Harmost.Http
open Harmost.Config

namespace CacheControl

/-- The names the parser reads. -/
def recognisedNames : List Str :=
  ["no-store".toList, "no-cache".toList, "private".toList, "public".toList,
    "max-age".toList, "s-maxage".toList, "stale-while-revalidate".toList,
    "stale-if-error".toList]

/-- The text in front of the argument of a piece, without the whitespace around
it, folded. -/
def pieceName (piece : Str) : Str :=
  toAsciiLowercase (trim ((trim piece).takeWhile (· != '=')))

/-- The text behind the first `=` of a piece, without the whitespace and the
quotes around it. -/
def pieceArgument (piece : Str) : Option Str :=
  if '=' ∈ trim piece then
    some (trimMatches (· == '"')
      (trim ((trim piece).dropWhile (· != '=')).tail))
  else none

/-- Does some piece have this name? -/
def declares (name : Str) (pieces : List Str) : Bool :=
  pieces.any fun piece => pieceName piece == name

/-- The number the last piece of this name gives. -/
def declaredSeconds (name : Str) (pieces : List Str) : Option ℕ :=
  (pieces.filter fun piece => pieceName piece == name).getLast?.bind
    fun piece => (pieceArgument piece).bind (parseUnsigned 64)

/-- All that a list of pieces declares. -/
def declared (pieces : List Str) : CacheControl where
  noStore := declares "no-store".toList pieces
  noCache := declares "no-cache".toList pieces
  «private» := declares "private".toList pieces
  «public» := declares "public".toList pieces
  maxAge := declaredSeconds "max-age".toList pieces
  sMaxage := declaredSeconds "s-maxage".toList pieces
  staleWhileRevalidate :=
    declaredSeconds "stale-while-revalidate".toList pieces
  staleIfError := declaredSeconds "stale-if-error".toList pieces

/-! ## The parser reads what is declared -/

theorem directiveName_eq (piece : Str) :
    directiveName piece = pieceName piece := by
  simp only [directiveName, pieceName, splitOnce_eq]
  split_ifs with hmem
  · rfl
  · have hwhole : (trim piece).takeWhile (· != '=') = trim piece := by
      rw [List.takeWhile_eq_self_iff]
      intro c hc
      simp only [bne_iff_ne, ne_eq]
      rintro rfl
      exact hmem hc
    rw [hwhole]
    exact congrArg toAsciiLowercase (trimMatches_trimMatches _ piece).symm

theorem directiveValue_eq (piece : Str) :
    directiveValue piece = pieceArgument piece := by
  rw [directiveValue, pieceArgument, splitOnce_eq]
  split_ifs
  · rfl
  · rfl

theorem declares_concat (name : Str) (pieces : List Str) (piece : Str) :
    declares name (pieces ++ [piece]) =
      if pieceName piece = name then true else declares name pieces := by
  by_cases h : pieceName piece = name <;> simp [declares, h]

theorem declaredSeconds_concat (name : Str) (pieces : List Str)
    (piece : Str) :
    declaredSeconds name (pieces ++ [piece]) =
      if pieceName piece = name then
        (pieceArgument piece).bind (parseUnsigned 64)
      else declaredSeconds name pieces := by
  by_cases h : pieceName piece = name <;>
    simp [declaredSeconds, List.filter_append, h]

theorem applyDirective_of_unknown (cc : CacheControl) {piece : Str}
    (h : pieceName piece ∉ recognisedNames) : cc.applyDirective piece = cc := by
  simp only [recognisedNames, List.mem_cons, List.not_mem_nil, or_false,
    not_or] at h
  simp only [applyDirective, directiveName_eq, h, if_false]

theorem declared_concat_of_unknown (pieces : List Str) {piece : Str}
    (h : pieceName piece ∉ recognisedNames) :
    declared (pieces ++ [piece]) = declared pieces := by
  simp only [recognisedNames, List.mem_cons, List.not_mem_nil, or_false,
    not_or] at h
  simp only [declared, declares_concat, declaredSeconds_concat, h, if_false]

/-- One turn of the loop declares one more piece. -/
theorem applyDirective_declared (pieces : List Str) (piece : Str) :
    (declared pieces).applyDirective piece = declared (pieces ++ [piece]) := by
  by_cases hname : pieceName piece ∈ recognisedNames
  · simp only [declared, declares_concat, declaredSeconds_concat,
      applyDirective, directiveName_eq, directiveValue_eq]
    generalize pieceName piece = name at hname ⊢
    simp only [recognisedNames, List.mem_cons, List.not_mem_nil,
      or_false] at hname
    rcases hname with rfl | rfl | rfl | rfl | rfl | rfl | rfl | rfl
    all_goals rfl
  · rw [applyDirective_of_unknown _ hname, declared_concat_of_unknown _ hname]

theorem parse_eq_declared (raw : Str) :
    parse raw = declared (raw.splitOn ',') := by
  have hfold : ∀ pieces : List Str,
      pieces.foldl applyDirective {} = declared pieces := by
    intro pieces
    induction pieces using List.reverseRecOn with
    | nil => rfl
    | append_singleton pieces piece ih =>
        rw [List.foldl_append, List.foldl_cons, List.foldl_nil, ih,
          applyDirective_declared]
  exact hfold _

/-- The shared lifetime a text declares: `s-maxage`, else `max-age`. -/
def declaredTtl (text : Str) : Option Duration :=
  ((declaredSeconds "s-maxage".toList (text.splitOn ',')).or
    (declaredSeconds "max-age".toList (text.splitOn ','))).map
      Duration.fromSecs

theorem sharedTtl_parse (text : Str) :
    (parse text).sharedTtl = declaredTtl text := by
  rw [parse_eq_declared]
  rfl

end CacheControl

/-! ## What may be persisted -/

section Persisted

variable {res : ResponseMetadata} {route : Option RouteCache}
  {keyHeaders : List Str} {coalesceOnly coalesceOverride : Bool}

/-- The absolute conditions on a response: it is addressed to nobody in
particular, and the key honours all it varies on. -/
structure Unaddressed (res : ResponseMetadata) (keyHeaders : List Str) :
    Prop where
  noCookie : res.setCookie = false
  cacheable : res.status ∈ cacheableStatuses
  vary : ∀ text, res.vary = some text → ∀ token ∈ text.splitOn ',',
    VaryTokenSupported keyHeaders token

theorem absoluteRefusal_eq_none_iff_unaddressed :
    absoluteRefusal res keyHeaders = none ↔ Unaddressed res keyHeaders := by
  have hvary : res.vary.bind (unsupportedVary · keyHeaders) = none ↔
      ∀ text, res.vary = some text → ∀ token ∈ text.splitOn ',',
        VaryTokenSupported keyHeaders token := by
    cases res.vary with
    | none => simp
    | some text => simpa using unsupportedVary_eq_none_iff text keyHeaders
  rw [absoluteRefusal_eq_none_iff, hvary]
  constructor
  · rintro ⟨hcookie, htokens, hstatus⟩
    exact ⟨hcookie, hstatus, htokens⟩
  · rintro ⟨hcookie, hstatus, htokens⟩
    exact ⟨hcookie, htokens, hstatus⟩

theorem unaddressed_of_shared
    (h : (evaluateResponse res route keyHeaders coalesceOnly
      coalesceOverride).shared = true) : Unaddressed res keyHeaders :=
  absoluteRefusal_eq_none_iff_unaddressed.mp
    (evaluateResponse_shared_iff.mp h).1

/-- The lifetime of a stored response is the one the route and the origin agree
on. -/
theorem effectiveTtl_of_shareable {ttl swr sie : Duration}
    (h : evaluateResponse res route keyHeaders coalesceOnly
      coalesceOverride = .shareable ttl swr sie) :
    coalesceOnly = false ∧ ttl ≠ 0 ∧
      effectiveTtl route res.directives = some ttl := by
  have hstored : (evaluateResponse res route keyHeaders coalesceOnly
      coalesceOverride).stored = true := by rw [h]; rfl
  obtain ⟨habsolute, hdirective, honly, ttl', httl, hne⟩ :=
    evaluateResponse_stored_iff.mp hstored
  simp only [evaluateResponse, habsolute, hdirective, honly, lifetimeVerdict,
    httl, if_neg hne, Bool.false_eq_true, if_false] at h
  obtain rfl : ttl' = ttl := by injection h
  exact ⟨honly, hne, httl⟩

theorem effectiveTtl_le_max {cc : CacheControl} {ttl max : Duration}
    (h : effectiveTtl route cc = some ttl)
    (hmax : (route.bind RouteCache.ttl).bind Ttl.max = some max) :
    ttl ≤ max := by
  simp only [effectiveTtl, hmax] at h
  cases hover : overridesOrigin route with
  | true =>
      rw [hover] at h
      exact (Option.some.inj h).ge
  | false =>
      rw [hover] at h
      cases hshared : cc.sharedTtl with
      | none => simp [hshared] at h
      | some o =>
          simp only [hshared, Bool.false_eq_true, if_false,
            Option.some.injEq] at h
          rw [← h]
          exact min_le_right o max

theorem effectiveTtl_le_shared {cc : CacheControl} {ttl : Duration}
    (h : effectiveTtl route cc = some ttl)
    (hover : overridesOrigin route = false) :
    ∃ o, cc.sharedTtl = some o ∧ ttl ≤ o := by
  simp only [effectiveTtl, hover, Bool.false_eq_true, if_false] at h
  cases hshared : cc.sharedTtl with
  | none => simp [hshared] at h
  | some o =>
      refine ⟨o, rfl, ?_⟩
      cases hmax : (route.bind RouteCache.ttl).bind Ttl.max with
      | none =>
          simp only [hshared, hmax, Option.some.injEq] at h
          exact h.ge
      | some max =>
          simp only [hshared, hmax, Option.some.injEq] at h
          rw [← h]
          exact min_le_left o max

/-- What may be persisted.  A response with a lifetime sets no cookie, has
a cacheable status, varies on nothing the key leaves out, and is not confined to
its waiters; its lifetime is positive, within the route's and, unless the route
overrides the origin, within the one the origin declares.  A response for the
waiters alone meets the same absolute conditions. -/
theorem evaluateResponse_persisted (res : ResponseMetadata)
    (route : Option RouteCache) (keyHeaders : List Str)
    (coalesceOnly coalesceOverride : Bool) :
    (∀ ttl swr sie, evaluateResponse res route keyHeaders coalesceOnly
        coalesceOverride = .shareable ttl swr sie →
      Unaddressed res keyHeaders ∧ coalesceOnly = false ∧ 0 < ttl ∧
        (∀ max, (route.bind RouteCache.ttl).bind Ttl.max = some max →
          ttl ≤ max) ∧
        (overridesOrigin route = false →
          ∃ text o, res.cacheControl = some text ∧
            CacheControl.declaredTtl text = some o ∧ ttl ≤ o)) ∧
    (evaluateResponse res route keyHeaders coalesceOnly
        coalesceOverride = .transientOnly →
      Unaddressed res keyHeaders) := by
  constructor
  · intro ttl swr sie h
    have hshared : (evaluateResponse res route keyHeaders coalesceOnly
        coalesceOverride).shared = true := by rw [h]; rfl
    obtain ⟨honly, hne, httl⟩ := effectiveTtl_of_shareable h
    refine ⟨unaddressed_of_shared hshared, honly, Nat.pos_of_ne_zero hne,
      fun max => effectiveTtl_le_max httl, ?_⟩
    intro hover
    obtain ⟨o, ho, hle⟩ := effectiveTtl_le_shared httl hover
    unfold ResponseMetadata.directives at ho
    cases htext : res.cacheControl with
    | none =>
        rw [htext] at ho
        cases ho
    | some text =>
        rw [htext, Option.map_some, Option.getD_some,
          CacheControl.sharedTtl_parse] at ho
        exact ⟨text, o, rfl, ho, hle⟩
  · intro h
    exact unaddressed_of_shared (by rw [h]; rfl)

/-- A minute, capped by the route at half of it. -/
theorem evaluateResponse_persisted_capped :
    let res : ResponseMetadata :=
      ⟨200, some "max-age=60".toList, false, some "Accept-Encoding".toList⟩
    let route : RouteCache :=
      { ttl := some { max := some (Duration.fromSecs 30) } }
    evaluateResponse res (some route) [] false false =
        .shareable (Duration.fromSecs 30) 0 0 ∧
      Unaddressed res [] ∧
      ∃ text o, res.cacheControl = some text ∧
        CacheControl.declaredTtl text = some o ∧ Duration.fromSecs 30 ≤ o := by
  intro res route
  have hshareable : evaluateResponse res (some route) [] false false =
      .shareable (Duration.fromSecs 30) 0 0 := by decide +kernel
  have hpersisted := (evaluateResponse_persisted res (some route) [] false
    false).1 _ _ _ hshareable
  exact ⟨hshareable, hpersisted.1, hpersisted.2.2.2.2 rfl⟩

end Persisted

/-! ## Extension directives -/

/-- What may follow the name of a directive. -/
inductive Argument where
  | absent
  | token (s : Str) (valid : isToken s = true)
  | quoted (units : List QuotedUnit)

def Argument.text : Argument → Str
  | .absent => []
  | .token s _ => '=' :: s
  | .quoted units => '=' :: quotedString units

/-- A well-formed directive whose name the parser does not know. -/
structure Extension where
  name : Str
  argument : Argument
  name_isToken : isToken name = true
  name_unknown : toAsciiLowercase name ∉ CacheControl.recognisedNames

namespace Extension

def text (d : Extension) : Str :=
  d.name ++ d.argument.text

/-- The names the parser reads behind the commas of a directive. -/
def hiddenNames (d : Extension) : List Str :=
  (d.text.splitOn ',').tail.map CacheControl.pieceName

end Extension

namespace CacheControl

section

variable {name : Str} (hname : isToken name = true)
include hname

/-- A token stays in front when the text behind it is trimmed. -/
theorem trim_token_append_cons {c : Char} (hc : isWhitespace c = false)
    (rest : Str) :
    trim (name ++ c :: rest) = name ++ c :: rest.rdropWhile isWhitespace := by
  have hfront : (name ++ c :: rest).dropWhile isWhitespace =
      name ++ c :: rest := by
    cases name with
    | nil => cases hname
    | cons d name =>
        have hd := isWhitespace_of_mem_isToken hname List.mem_cons_self
        exact List.dropWhile_cons_of_neg (by simp [hd])
  rw [trim, trimMatches, hfront, rdropWhile_append_cons hc]

theorem takeWhile_token (rest : Str) :
    (name ++ rest).takeWhile (· != '=') =
      name ++ rest.takeWhile (· != '=') := by
  apply List.takeWhile_append_of_pos
  intro c hc
  rw [bne_iff_ne]
  rintro rfl
  exact notMem_of_isToken hname (by decide) hc

theorem pieceName_token : pieceName name = toAsciiLowercase name := by
  have hfront := takeWhile_token hname []
  rw [List.append_nil, List.takeWhile_nil, List.append_nil] at hfront
  rw [pieceName, trim_of_isToken hname, hfront, trim_of_isToken hname]

theorem pieceName_argument (rest : Str) :
    pieceName (name ++ '=' :: rest) = toAsciiLowercase name := by
  rw [pieceName, trim_token_append_cons hname (by decide),
    takeWhile_token hname, List.takeWhile_cons_of_neg (by simp),
    List.append_nil, trim_of_isToken hname]

end

end CacheControl

namespace Extension

open CacheControl

/-- The parser sees the directive's own name first, and the hidden ones
after it. -/
theorem map_pieceName_splitOn (d : Extension) :
    (d.text.splitOn ',').map pieceName =
      toAsciiLowercase d.name :: d.hiddenNames := by
  have hcomma : ',' ∉ d.name := notMem_of_isToken d.name_isToken (by decide)
  have hargument : ∀ rest : Str, d.text = d.name ++ '=' :: rest →
      (d.text.splitOn ',').map pieceName =
        toAsciiLowercase d.name :: d.hiddenNames := by
    intro rest htext
    have hfront : ',' ∉ d.name ++ ['='] := by
      simpa using hcomma
    have hsplit := splitOn_append_of_notMem hfront rest
    rw [List.append_assoc, List.singleton_append, ← htext] at hsplit
    cases hpieces : rest.splitOn ',' with
    | nil => exact (List.splitOn_ne_nil ',' rest hpieces).elim
    | cons piece pieces =>
        rw [hpieces, List.modifyHead_cons, List.append_assoc,
          List.singleton_append] at hsplit
        rw [hiddenNames, hsplit, List.map_cons, List.tail_cons,
          pieceName_argument d.name_isToken]
  cases hcase : d.argument with
  | absent =>
      have htext : d.text = d.name := by
        rw [text, hcase, Argument.text, List.append_nil]
      rw [hiddenNames, htext, List.splitOn_eq_singleton hcomma,
        List.map_singleton, pieceName_token d.name_isToken]
      rfl
  | token s valid =>
      apply hargument s
      rw [text, hcase, Argument.text]
  | quoted units =>
      apply hargument (quotedString units)
      rw [text, hcase, Argument.text]

/-- Pieces with unknown names change nothing. -/
theorem foldl_applyDirective_of_unknown {pieces : List Str}
    (h : ∀ piece ∈ pieces, pieceName piece ∉ recognisedNames)
    (cc : CacheControl) : pieces.foldl applyDirective cc = cc := by
  induction pieces with
  | nil => rfl
  | cons piece pieces ih =>
      rw [List.forall_mem_cons] at h
      rw [List.foldl_cons, applyDirective_of_unknown cc h.1, ih h.2]

theorem splitOn_append_text (raw : Str) (d : Extension) :
    (raw ++ ',' :: d.text).splitOn ',' =
      raw.splitOn ',' ++ d.text.splitOn ',' :=
  List.splitOn_append_cons_self ..

theorem declares_append (name : Str) (front back : List Str) :
    declares name (front ++ back) =
      (declares name front || declares name back) :=
  List.any_append

/-- The last piece of a name is in the back when the back has one. -/
theorem declaredSeconds_append {name : Str} (front : List Str)
    {back : List Str} (h : declares name back = true) :
    declaredSeconds name (front ++ back) = declaredSeconds name back := by
  have hback : (back.filter fun piece => pieceName piece == name) ≠ [] := by
    obtain ⟨piece, hpiece, hname⟩ := List.any_eq_true.mp h
    exact List.ne_nil_of_mem (List.mem_filter.mpr ⟨hpiece, hname⟩)
  rw [declaredSeconds, declaredSeconds, List.filter_append,
    List.getLast?_append_of_ne_nil _ hback]

section Inert

variable {d : Extension}
  (h : ∀ raw, parse (raw ++ ',' :: d.text) = parse raw)

include h

/-- An inert directive sets no flag. -/
theorem flag_not_declared {name : Str} (flag : CacheControl → Bool)
    (hflag : ∀ pieces, flag (declared pieces) = declares name pieces)
    (hclear : flag (parse []) = false) :
    declares name (d.text.splitOn ',') = false := by
  have hset := congrArg flag (h [])
  rw [hclear, parse_eq_declared, splitOn_append_text, hflag, declares_append,
    Bool.or_eq_false_iff] at hset
  exact hset.2

/-- An inert directive gives no number: it would give the same one behind
different texts. -/
theorem seconds_not_declared {name : Str} (field : CacheControl → Option ℕ)
    (hfield : ∀ pieces, field (declared pieces) = declaredSeconds name pieces)
    (raw raw' : Str) (hne : field (parse raw) ≠ field (parse raw')) :
    declares name (d.text.splitOn ',') = false := by
  rw [← Bool.not_eq_true]
  intro hname
  have hlast : ∀ raw, field (parse raw) =
      declaredSeconds name (d.text.splitOn ',') := by
    intro raw
    rw [← h raw, parse_eq_declared, splitOn_append_text, hfield,
      declaredSeconds_append _ hname]
  exact hne ((hlast raw).trans (hlast raw').symm)

theorem recognised_not_declared {name : Str}
    (hname : name ∈ recognisedNames) :
    declares name (d.text.splitOn ',') = false := by
  simp only [recognisedNames, List.mem_cons, List.not_mem_nil,
    or_false] at hname
  rcases hname with rfl | rfl | rfl | rfl | rfl | rfl | rfl | rfl
  · exact flag_not_declared h noStore (fun _ => rfl) rfl
  · exact flag_not_declared h noCache (fun _ => rfl) rfl
  · exact flag_not_declared h CacheControl.«private» (fun _ => rfl) rfl
  · exact flag_not_declared h CacheControl.«public» (fun _ => rfl) rfl
  · exact seconds_not_declared h maxAge (fun _ => rfl)
      "max-age=0".toList [] (by decide)
  · exact seconds_not_declared h sMaxage (fun _ => rfl)
      "s-maxage=0".toList [] (by decide)
  · exact seconds_not_declared h staleWhileRevalidate (fun _ => rfl)
      "stale-while-revalidate=0".toList [] (by decide)
  · exact seconds_not_declared h staleIfError (fun _ => rfl)
      "stale-if-error=0".toList [] (by decide)

end Inert

/-- An unknown directive is inert exactly when no piece behind a comma of
its argument has a name the parser knows. -/
theorem parse_append_inert_iff (d : Extension) :
    (∀ raw, parse (raw ++ ',' :: d.text) = parse raw) ↔
      ∀ name ∈ d.hiddenNames, name ∉ recognisedNames := by
  constructor
  · intro h name hhidden hname
    have hmem : name ∈ (d.text.splitOn ',').map pieceName := by
      rw [map_pieceName_splitOn]
      exact List.mem_cons_of_mem _ hhidden
    obtain ⟨piece, hpiece, rfl⟩ := List.mem_map.mp hmem
    have hnone := recognised_not_declared h hname
    rw [declares, List.any_eq_false] at hnone
    exact hnone piece hpiece (beq_self_eq_true _)
  · intro h raw
    have hunknown : ∀ piece ∈ d.text.splitOn ',',
        pieceName piece ∉ recognisedNames := by
      intro piece hpiece
      have hmem := List.mem_map_of_mem (f := pieceName) hpiece
      rw [map_pieceName_splitOn, List.mem_cons] at hmem
      rcases hmem with hfirst | hhidden
      · rw [hfirst]
        exact d.name_unknown
      · exact h _ hhidden
    rw [parse, splitOn_append_text, List.foldl_append,
      foldl_applyDirective_of_unknown hunknown]
    rfl

/-- A remark in quotes, behind a response that is stale at once: the parser
reads a lifetime of a minute in it. -/
theorem parse_reads_quoted_string :
    let d : Extension :=
      { name := "note".toList
        argument := .quoted (plainUnits "or, max-age=60".toList (by decide))
        name_isToken := by decide
        name_unknown := by decide }
    d.text = "note=\"or, max-age=60\"".toList ∧
      (parse "max-age=0".toList).maxAge = some 0 ∧
      (parse ("max-age=0".toList ++ ',' :: d.text)).maxAge = some 60 ∧
      ¬∀ raw, parse (raw ++ ',' :: d.text) = parse raw := by
  intro d
  have hstale : (parse "max-age=0".toList).maxAge = some 0 := by decide
  have hminute : (parse ("max-age=0".toList ++ ',' :: d.text)).maxAge =
      some 60 := by decide
  refine ⟨by decide, hstale, hminute, ?_⟩
  intro h
  rw [h, hstale] at hminute
  cases hminute

end Extension

end Harmost.Cache
