import Harmost.Next.Validity
import Harmost.Support.Lists

/-!
# Explaining a request

`explain` says what a request would meet, out of the build and the policy alone.
It looks for the request's route with a pattern for each segment, in the order
of the names; the generated file is matched by globs, in the order of the file.
The two agree on a path if nothing public reaches it, if all that reaches it is
public, or if one name decides about it in both.
-/

namespace Harmost.Next

open Harmost.Support
open Harmost.Config

/-! ## Route patterns -/

/-- What one segment of a route name stands for. -/
inductive Token where
  /-- `[[...slug]]`: `(?:/.*)?`. -/
  | optionalCatchAll
  /-- `[...slug]`: `/.+`. -/
  | catchAll
  /-- `[slug]`: `/[^/]+`. -/
  | param
  | literal (text : Str)
  deriving DecidableEq, Repr

/-- `^`, the opening, one or more characters of one line, the closing, `$`. -/
def isBracketToken (opening closing token : Str) : Bool :=
  isParam opening closing token &&
    ((token.drop opening.length).take
      (token.length - opening.length - closing.length)).all
        fun c => !isLineTerminator c

def tokenOf (token : Str) : Token :=
  if isBracketToken "[[...".toList "]]".toList token then .optionalCatchAll
  else if isBracketToken "[...".toList "]".toList token then .catchAll
  else if isBracketToken "[".toList "]".toList token then .param
  else .literal token

/-- Any number of characters of a kind, and then the rest. -/
def skipChars (p : Char → Bool) (rest : Str → Bool) : Str → Bool
  | [] => rest []
  | c :: s => rest (c :: s) || (p c && skipChars p rest s)

/-- A slash, one or more characters of a kind, and then the rest. -/
def skipSome (p : Char → Bool) (rest : Str → Bool) : Str → Bool
  | '/' :: c :: s => p c && skipChars p rest s
  | _ => false

/-- The patterns of the tokens in a row, and at the end `/?$`. -/
def tokensMatch : List Token → Str → Bool
  | [], path => path.isEmpty || path == "/".toList
  | .optionalCatchAll :: tokens, path =>
      tokensMatch tokens path ||
        match path with
        | '/' :: s =>
            skipChars (fun c => !isLineTerminator c) (tokensMatch tokens) s
        | _ => false
  | .catchAll :: tokens, path =>
      skipSome (fun c => !isLineTerminator c) (tokensMatch tokens) path
  | .param :: tokens, path =>
      skipSome (fun c => c != '/') (tokensMatch tokens) path
  | .literal text :: tokens, path =>
      ('/' :: text).isPrefixOf path &&
        tokensMatch tokens (path.drop (text.length + 1))

/-- `routeRegex(route).test(path)`. -/
def routeRegex (route path : Str) : Bool :=
  if route = "/".toList then path == "/".toList
  else tokensMatch (((route.splitOn '/').drop 1).map tokenOf) path

example : routeRegex "/shop/[[...slug]]".toList "/shop".toList = true := by
  decide

/-! ## The rows -/

inductive Render where
  | handler
  | prerendered
  | dynamic
  /-- Of the catch-all row. -/
  | unknown
  deriving DecidableEq, Repr

structure Row where
  route : Str
  match' : Str
  render : Render
  privacy : Privacy
  reuse : Str
  weight : ℕ
  priority : Priority
  evidence : Str
  publicOverride : Bool
  assertion : Option Assertion

/-- UTF-16 code units, by which `sort` compares texts. -/
def utf16 (s : Str) : List ℕ :=
  s.flatMap fun c =>
    if c.toNat < 0x10000 then [c.toNat]
    else [0xd800 + (c.toNat - 0x10000) / 0x400,
      0xdc00 + (c.toNat - 0x10000) % 0x400]

namespace Build

variable (build : Build)

/-- The names of all rows, in their order. -/
def inspectedNames : List Str :=
  let handlers := (build.appPaths.entries.filter fun entry =>
    "/route".toList.isSuffixOf entry.1).map Sigma.snd
  let prerendered := build.prerendered.keys.filter fun route =>
    !isInternal route
  let pages := build.pageNames.filter fun route =>
    !route.isEmpty && !isInternal route
  sortBy (fun a b => compare (utf16 a) (utf16 b))
    (distinct (pages ++ handlers ++ prerendered))

/-- Is there a row of this name? -/
def lists (name : Str) : Bool :=
  build.isPage name || build.isRouteHandler name || build.isPrerendered name

end Build

/-- The lifetime that a row of a prerendered route shows. -/
def shownTtl (build : Build) (route : Str) : Str :=
  match (build.prerendered.lookup route).join with
  | some revalidate => revalidate.text ++ "s".toList
  | none => "1h".toList

/-- The row of one name. -/
def inspectRoute (build : Build) (policy : Policy) (route : Str) :
    Except Str Row :=
  (policy.assertion route).map fun (assertion : Option Assertion) =>
    let handler := build.appPaths.entries.any fun entry =>
      "/route".toList.isSuffixOf entry.1 && entry.2 == route
    let staticPage := build.isPrerendered route
    let asserted := assertion.any fun a => a.privacy == .publicRoute
    { route := route
      match' := toGlob route
      render := if handler then .handler
        else if staticPage then .prerendered else .dynamic
      privacy := if staticPage || asserted then .publicRoute
        else .privateRoute
      reuse :=
        if staticPage then "cache ".toList ++ shownTtl build route
        else if asserted then "cache ".toList ++
          ((assertion.bind Assertion.cache).bind AssertionCache.ttl).getD []
        else "bypass".toList
      weight := (assertion.bind Assertion.weight).getD 1
      priority := (assertion.bind Assertion.priority).getD .normal
      evidence :=
        if staticPage then "Next prerender manifest".toList
        else if assertion.isSome then "operator assertion".toList
        else "conservative default".toList
      publicOverride := !staticPage && asserted
      assertion := assertion }

def inspectAll (build : Build) (policy : Policy) :
    List Str → Except Str (List Row)
  | [] => .ok []
  | route :: rest =>
      (inspectRoute build policy route).bind fun row =>
        (inspectAll build policy rest).map (row :: ·)

/-- The decisions used by `generateConfig`, as they are shown. -/
def inspectRoutes (js : Runtime) (build : Build) (input : Option PolicyInput) :
    Except Str (List Row) :=
  (effectivePolicy js build input).bind fun policy =>
    inspectAll build policy build.inspectedNames

/-- The row of everything else. -/
def defaultRow : Row where
  route := "<default>".toList
  match' := "/**".toList
  render := .unknown
  privacy := .privateRoute
  reuse := "bypass".toList
  weight := 1
  priority := .normal
  evidence := "safe catch-all".toList
  publicOverride := false
  assertion := none

/-! ## The request -/

/-- The parts of a parsed URL. -/
structure Url where
  /-- Without the colon. -/
  protocol : Str := "http".toList
  host : Str := "harmost.local".toList
  pathname : Str
  searchParams : List (Str × Str) := []

structure ExplainOptions where
  method : Str := "GET".toList
  url : Url
  headers : List Str := []

/-- What `String.prototype.trim` removes. -/
def isJsSpace (c : Char) : Bool :=
  (isWhitespace c && c.toNat != 0x85) || c.toNat == 0xfeff

def jsTrim (s : Str) : Str :=
  trimMatches isJsSpace s

/-- One header: its name in lower case, and its value. -/
def normalizeHeader (js : Runtime) (item : Str) : Except Str (Str × Str) :=
  match splitOnce ':' item with
  | some (c :: name, value) =>
      .ok (js.toLowerCase (jsTrim (c :: name)), jsTrim value)
  | _ =>
      .error ("header ".toList ++ jsonString item ++
        " must use `Name: value`".toList)

/-- The headers by their names; of two with one name the last counts. -/
def normalizeHeaders (js : Runtime) (output : AssocMap Str Str) :
    List Str → Except Str (AssocMap Str Str)
  | [] => .ok output
  | item :: rest =>
      (normalizeHeader js item).bind fun header =>
        normalizeHeaders js (output.insert header.1 header.2) rest

/-- A header whose value is not shown. -/
def isSensitive (name : Str) : Bool :=
  ["authorization".toList, "cookie".toList, "proxy-authorization".toList,
    "x-api-key".toList].contains (toAsciiLowercase name)

/-! ## The explanation -/

structure CacheKeyInputs where
  scheme : Str
  host : Str
  method : Str
  path : Str
  query : List (Str × Str)
  vary : List (Str × Str)

structure Explanation where
  method : Str
  path : Str
  headers : AssocMap Str Str
  route : Str
  match' : Str
  render : Render
  classification : ClassOverride
  reuse : Str
  evidence : Str
  barriers : List Str
  priority : Priority
  weight : ℕ
  limiter : Str
  cacheKeyInputs : CacheKeyInputs

/-- What a request meets before any reuse. -/
def barriersOf (method : Str) (headers : AssocMap Str Str) (row : Row) :
    List Str :=
  let barrier (present : Bool) (text : Str) := if present then [text] else []
  barrier (!(["GET".toList, "HEAD".toList].contains method))
      ("unsafe method ".toList ++ method) ++
    barrier (decide ("authorization".toList ∈ headers))
      "Authorization header".toList ++
    barrier (decide ("cookie".toList ∈ headers)) "Cookie header".toList ++
    barrier (decide ("next-action".toList ∈ headers)) "Server Action".toList ++
    barrier (decide ("next-router-prefetch".toList ∈ headers))
      "Next.js prefetch variant".toList ++
    barrier (row.privacy == .privateRoute) "private route policy".toList

/-- The explanation of a request whose row is known. -/
def explainRow (js : Runtime) (options : ExplainOptions)
    (headers : AssocMap Str Str) (row : Row) : Explanation :=
  let method := js.toUpperCase options.method
  let url := options.url
  let barriers := barriersOf method headers row
  let queryKeys :=
    (row.assertion.bind Assertion.cache).bind AssertionCache.query
  let vary := ((row.assertion.bind Assertion.cache).bind
    AssertionCache.vary).getD []
  { method := method
    path := url.pathname
    headers := headers.mapValues fun name value =>
      if isSensitive name then "<redacted>".toList else value
    route := row.route
    match' := row.match'
    render := row.render
    classification :=
      if row.privacy == .privateRoute || !barriers.isEmpty then .privateDynamic
      else .publicSsr
    reuse := if barriers.isEmpty then row.reuse else "bypass".toList
    evidence := row.evidence
    barriers := barriers
    priority := row.priority
    weight := row.weight
    limiter := "tier:".toList ++ row.priority.name
    cacheKeyInputs :=
      { scheme := url.protocol
        host := url.host
        method := method
        path := url.pathname
        query := (url.searchParams.filter fun pair =>
          queryKeys.all fun keys => keys.contains pair.1).insertionSort
            fun a b => js.localeCompare a.1 b.1 ≠ .gt
        vary := vary.map fun name =>
          (name, if js.toLowerCase name ∈ headers then "<present>".toList
            else "<absent>".toList) } }

/-- Explain a request without contacting Harmost or an origin. -/
def explainRequest (js : Runtime) (build : Build) (input : Option PolicyInput)
    (options : ExplainOptions) : Except Str Explanation :=
  (normalizeHeaders js ∅ options.headers).bind fun headers =>
  (inspectRoutes js build input).map fun rows =>
    explainRow js options headers
      ((rows.find? fun row => routeRegex row.route options.url.pathname).getD
        defaultRow)

/-- A `GET` without a header that stands in the way of reuse. -/
def ExplainOptions.IsPlain (js : Runtime) (options : ExplainOptions) : Prop :=
  js.toUpperCase options.method = "GET".toList ∧
    ∃ headers, normalizeHeaders js ∅ options.headers = .ok headers ∧
      ∀ name ∈ ["authorization".toList, "cookie".toList, "next-action".toList,
        "next-router-prefetch".toList], name ∉ headers

/-! ## What is shown -/

/-- Nothing stands in the way of a plain request to a public route. -/
theorem barriersOf_eq_nil {headers : AssocMap Str Str} {row : Row}
    (hheaders : ∀ name ∈ ["authorization".toList, "cookie".toList,
      "next-action".toList, "next-router-prefetch".toList], name ∉ headers)
    (hprivacy : row.privacy = .publicRoute) :
    barriersOf "GET".toList headers row = [] := by
  have habsent : ∀ name ∈ ["authorization".toList, "cookie".toList,
      "next-action".toList, "next-router-prefetch".toList],
      decide (name ∈ headers) = false :=
    fun name hmem => decide_eq_false (hheaders name hmem)
  simp only [List.forall_mem_cons] at habsent
  obtain ⟨hauth, hcookie, haction, hprefetch, -⟩ := habsent
  simp only [barriersOf, hauth, hcookie, haction, hprefetch, hprivacy]
  rfl

theorem classification_eq_publicSsr {js : Runtime} {options : ExplainOptions}
    {headers : AssocMap Str Str} {row : Row}
    (hmethod : js.toUpperCase options.method = "GET".toList)
    (hheaders : ∀ name ∈ ["authorization".toList, "cookie".toList,
      "next-action".toList, "next-router-prefetch".toList], name ∉ headers) :
    (explainRow js options headers row).classification = .publicSsr ↔
      row.privacy = .publicRoute := by
  have hclass : (explainRow js options headers row).classification =
      if row.privacy == .privateRoute ||
          !(barriersOf "GET".toList headers row).isEmpty then .privateDynamic
      else .publicSsr := by
    rw [← hmethod]
    rfl
  rw [hclass]
  cases hprivacy : row.privacy with
  | privateRoute => exact iff_of_false (by simp) (by decide)
  | publicRoute =>
      rw [barriersOf_eq_nil hheaders hprivacy]
      exact iff_of_true rfl rfl

/-- The policy asserts a name public, or the build prerendered it. -/
def ShownPublic (build : Build) (input : Option PolicyInput) (route : Str) :
    Prop :=
  build.isPrerendered route = true ∨ AssertsPage input route

section Rows

variable {js : Runtime} {build : Build} {input : Option PolicyInput}
  {policy : Policy}

theorem inspectRoute_eq_ok
    (hpolicy : effectivePolicy js build input = .ok policy) {route : Str}
    {row : Row} (h : inspectRoute build policy route = .ok row) :
    row.route = route ∧
      (row.privacy = .publicRoute ↔ ShownPublic build input route) := by
  obtain ⟨assertion, hassertion, rfl⟩ := map_eq_ok.mp h
  refine ⟨rfl, ?_⟩
  rw [ShownPublic, ← Source.assertedClass_eq_publicSsr_iff hpolicy, hassertion]
  dsimp only
  cases build.isPrerendered route with
  | true => exact iff_of_true rfl (.inl rfl)
  | false =>
      rcases assertion with _ | assertion
      · exact iff_of_false (by decide) (by decide)
      · rw [assertedClass, Option.any_some]
        cases assertion.privacy with
        | publicRoute => exact iff_of_true rfl (.inr rfl)
        | privateRoute => exact iff_of_false (by decide) (by decide)

/-- The first row that matches is that of the first name that does. -/
theorem find?_inspectAll
    (hpolicy : effectivePolicy js build input = .ok policy) {names : List Str}
    {rows : List Row} (h : inspectAll build policy names = .ok rows)
    (test : Str → Bool) :
    (∃ row, (rows.find? fun row => test row.route) = some row ∧
        row.privacy = .publicRoute) ↔
      ∃ name, names.find? test = some name ∧ ShownPublic build input name := by
  induction names generalizing rows with
  | nil =>
      cases h
      simp
  | cons name rest ih =>
      obtain ⟨row, hrow, h⟩ := bind_eq_ok.mp h
      obtain ⟨rows, hrows, rfl⟩ := map_eq_ok.mp h
      obtain ⟨hroute, hpublic⟩ := inspectRoute_eq_ok hpolicy hrow
      rw [List.find?_cons, List.find?_cons, hroute]
      cases test name with
      | true => simp [hpublic]
      | false => exact ih hrows

/-- Every name of a build that a policy was accepted for is a route name. -/
theorem exists_normal {original : PolicyInput}
    (hpolicy : effectivePolicy js build (some original) = .ok policy) :
    ∀ name ∈ build.inspectedNames,
      ∃ normal, normalizeRouteName name = .ok normal := by
  obtain ⟨_, -, h⟩ := bind_eq_ok.mp hpolicy
  obtain ⟨catalog, hcatalog, -⟩ := bind_eq_ok.mp h
  obtain ⟨handlers, hhandlers, h⟩ := bind_eq_ok.mp hcatalog
  obtain ⟨names, hnames, h⟩ := bind_eq_ok.mp h
  obtain ⟨prerendered, hprerendered, -⟩ := map_eq_ok.mp h
  have hnormal : ∀ {list normals : List Str},
      normalizeAll list = .ok normals → ∀ name ∈ list,
        ∃ normal, normalizeRouteName name = .ok normal := by
    intro list normals hall name hmem
    obtain ⟨normal, -, hnormal⟩ := (mem_traverse normalizeRouteName
      normalizeAll rfl (fun _ _ => rfl) hall).1 name hmem
    exact ⟨normal, hnormal⟩
  intro name hmem
  rw [Build.inspectedNames, sortBy, List.mem_insertionSort, mem_distinct,
    List.mem_append, List.mem_append] at hmem
  rcases hmem with (hpage | hhandler) | hstatic
  · exact hnormal hnames name hpage
  · exact hnormal hhandlers name hhandler
  · exact hnormal hprerendered name hstatic

theorem exists_inspectAll {original : PolicyInput}
    (hpolicy : effectivePolicy js build (some original) = .ok policy) :
    ∃ rows, inspectAll build policy build.inspectedNames = .ok rows := by
  refine exists_traverse (inspectRoute build policy) (inspectAll build policy)
    rfl (fun _ _ => rfl) fun name hmem => ?_
  obtain ⟨normal, hnormal⟩ := exists_normal hpolicy name hmem
  have hassertion : policy.assertion name =
      .ok (policy.routes.lookup normal) := by
    rw [Policy.assertion, hnormal]
    rfl
  exact ⟨_, map_eq_ok.mpr ⟨_, hassertion, rfl⟩⟩

end Rows

theorem mem_inspectedNames {build : Build} {name : Str} :
    name ∈ build.inspectedNames ↔ build.lists name = true := by
  have hprerendered : name ∈ build.prerendered.keys.filter (fun route =>
      !Build.isInternal route) ↔ build.isPrerendered name = true := by
    simp [Build.isPrerendered, AList.mem_keys]
  rw [Build.inspectedNames, sortBy, List.mem_insertionSort, mem_distinct,
    List.mem_append, List.mem_append, Build.mem_handlerFiles, hprerendered,
    Build.lists]
  cases hother : build.isRouteHandler name with
  | true => simp
  | false =>
      cases hstatic : build.isPrerendered name with
      | true => simp
      | false => simp [Build.isPage, hstatic, hother, and_assoc]

/-- A plain request is explained as public exactly if the first name whose
pattern matches the path is shown as public. -/
theorem explainRequest_public_iff {js : Runtime} {build : Build}
    {input : PolicyInput} {policy : Policy}
    (hpolicy : effectivePolicy js build (some input) = .ok policy)
    {options : ExplainOptions} (hplain : options.IsPlain js) :
    (explainRequest js build (some input) options).map
        Explanation.classification = .ok .publicSsr ↔
      ∃ name, (build.inspectedNames.find? fun name =>
          routeRegex name options.url.pathname) = some name ∧
        ShownPublic build (some input) name := by
  obtain ⟨hmethod, headers, hheaders, habsent⟩ := hplain
  obtain ⟨rows, hrows⟩ := exists_inspectAll hpolicy
  have hexplained : explainRequest js build (some input) options =
      .ok (explainRow js options headers ((rows.find? fun row =>
        routeRegex row.route options.url.pathname).getD defaultRow)) := by
    rw [explainRequest, hheaders, inspectRoutes, hpolicy]
    simp only [Except.bind, hrows, Except.map]
  rw [hexplained, ← find?_inspectAll hpolicy hrows]
  simp only [Except.map, Except.ok.injEq,
    classification_eq_publicSsr hmethod habsent]
  cases rows.find? fun row => routeRegex row.route options.url.pathname with
  | none => exact iff_of_false (by decide) (by simp)
  | some row => simp

/-! ## Agreement -/

/-- The name whose route in the generated file is the first to match a path:
the prerendered path itself, or a handler, or the most specific page. -/
inductive Decides (js : Runtime) (build : Build) (path name : Str) : Prop
  | prerendered (hname : build.isPrerendered name = true)
      (hpath : path = build.basePath ++ name)
  | handler (hname : build.isRouteHandler name = true)
      (hdynamic : build.isPrerendered name = false)
      (hcaught : build.catches name path = true)
      (hother : ∀ route, build.isPrerendered route = true →
        path ≠ build.basePath ++ route)
  | page (hname : build.isPage name = true)
      (hcaught : build.catches name path = true)
      (hother : ∀ route, build.isPrerendered route = true →
        path ≠ build.basePath ++ route)
      (hhandlers : ∀ handler, build.isRouteHandler handler = true →
        build.catches handler path = false)
      (hfirst : ∀ other, build.isPage other = true →
        build.catches other path = true → other ≠ name →
          compareRouteSpecificity js name other = .lt)

/-- The names that reach a path agree on it. -/
inductive Concordant (js : Runtime) (build : Build) (input : PolicyInput)
    (path : Str) : Prop
  /-- Nothing public reaches it. -/
  | nonePublic
      (hfits : ∀ name, ShownPublic build (some input) name →
        routeRegex name path = false)
      (hother : ∀ route, build.isPrerendered route = true →
        path ≠ build.basePath ++ route)
      (hpages : ∀ page, AssertsPage (some input) page →
        build.catches page path = false)
  /-- All that reaches it is public. -/
  | allPublic
      (hsome : ∃ name, build.lists name = true ∧ routeRegex name path = true)
      (hfits : ∀ name, build.lists name = true → routeRegex name path = true →
        ShownPublic build (some input) name)
      (hwritten : (∃ route, build.isPrerendered route = true ∧
          path = build.basePath ++ route) ∨
        (∀ handler, build.isRouteHandler handler = true →
            build.catches handler path = false) ∧
          (∃ page, build.isPage page = true ∧
            build.catches page path = true) ∧
          ∀ page, build.isPage page = true → build.catches page path = true →
            AssertsPage (some input) page)
  /-- The alphabetically first name that fits the path also decides about it
  in the file. -/
  | oneName (name : Str) (hlisted : build.lists name = true)
      (hfits : routeRegex name path = true)
      (hfirst : ∀ other, build.lists other = true →
        routeRegex other path = true → other ≠ name →
          compare (utf16 name) (utf16 other) = .lt)
      (hdecides : Decides js build path name)

theorem isPrerendered_of_isPage {build : Build} {name : Str}
    (h : build.isPage name = true) : build.isPrerendered name = false := by
  simp only [Build.isPage, Bool.and_eq_true, Bool.not_eq_true'] at h
  exact h.1.2

section Agreement

variable {js : Runtime} {build : Build} {options : Options}
  {input : PolicyInput} {policy : Policy} {routes : List GeneratedRoute}
  {isMatch : Str → Str → Bool} {path : Str}

/-- The policy cannot assert a handler public. -/
theorem not_assertsPage_handler
    (hpolicy : effectivePolicy js build (some input) = .ok policy)
    {name : Str} (h : build.isRouteHandler name = true) :
    ¬AssertsPage (some input) name := by
  rw [← Source.assertedClass_eq_publicSsr_iff hpolicy]
  intro hclass
  cases hassertion : policy.assertion name with
  | error message => rw [hassertion] at hclass; cases hclass
  | ok assertion =>
      rw [hassertion] at hclass
      cases assertion with
      | none => cases hclass
      | some assertion =>
          have hmem : Source.handler name ∈ sources js build := by
            simp [sources, Build.mem_handlers, h]
          rw [assertedClass, handler_private hpolicy hmem hassertion] at hclass
          cases hclass

theorem find?_inspectedNames {name : Str} (hlisted : build.lists name = true)
    (hfits : routeRegex name path = true)
    (hfirst : ∀ other, build.lists other = true →
      routeRegex other path = true → other ≠ name →
        compare (utf16 name) (utf16 other) = .lt) :
    (build.inspectedNames.find? fun name => routeRegex name path) =
      some name := by
  have hcmp : Std.TransCmp fun a b : Str => compare (utf16 a) (utf16 b) :=
    inferInstanceAs (Std.TransCmp (compareOn utf16))
  refine find?_sortBy_eq_some hcmp (mem_inspectedNames.mpr hlisted) hfits ?_
  intro other hother
  exact hfirst other (mem_inspectedNames.mp hother)

/-- Where one name decides, the file shows the path as that name is shown. -/
theorem Decides.public_iff {name : Str} (h : Decides js build path name)
    (hlocale : Std.TransCmp js.localeCompare)
    (hpolicy : effectivePolicy js build (some input) = .ok policy) :
    ((∃ route, build.isPrerendered route = true ∧
          path = build.basePath ++ route) ∨
        (∀ handler, build.isRouteHandler handler = true →
            build.catches handler path = false) ∧
          ∃ page, ((build.pages js).find? fun name =>
            build.catches name path) = some page ∧
              AssertsPage (some input) page) ↔
      ShownPublic build (some input) name := by
  cases h with
  | prerendered hname hpath =>
      exact iff_of_true (.inl ⟨name, hname, hpath⟩) (.inl hname)
  | handler hname hdynamic hcaught hother =>
      refine iff_of_false ?_ ?_
      · rintro (⟨route, hroute, hpath⟩ | ⟨hhandlers, -⟩)
        · exact hother route hroute hpath
        · simp [hhandlers name hname] at hcaught
      · rintro (hstatic | hasserted)
        · simp [hdynamic] at hstatic
        · exact not_assertsPage_handler hpolicy hname hasserted
  | page hname hcaught hother hhandlers hfirst =>
      have hnone : ¬∃ route, build.isPrerendered route = true ∧
          path = build.basePath ++ route :=
        fun ⟨route, hroute, hpath⟩ => hother route hroute hpath
      rw [or_iff_right hnone, and_iff_right hhandlers,
        find?_pages hlocale hname hcaught hfirst, ShownPublic,
        isPrerendered_of_isPage hname]
      simp

end Agreement

/-- Posts by their slug, and one page of its own name. -/
def blogBuild : Build where
  buildId := "b".toList
  staticRoutes := ["/about".toList]
  dynamicRoutes := ["/[slug]".toList]

/-- Posts are public; nothing is said of the other page. -/
def blogPolicy : PolicyInput where
  routes := AList.singleton "/[slug]".toList
    { privacy := "public".toList
      cache := some { ttl := some "2s".toList } }

def blogOptions : Options where
  policy := some blogPolicy

end Harmost.Next
