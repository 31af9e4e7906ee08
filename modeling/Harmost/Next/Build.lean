import Harmost.Support.AssocMap
import Harmost.Support.Rewrite
import Harmost.Support.Text
import Mathlib.Data.List.Sort

/-!
# Routes of a Next.js build

What the generator reads out of a build's manifests, the order it puts route
names in, and the path pattern it derives from a route name.
-/

namespace Harmost.Next

open Harmost.Support

/-- The parts of the JavaScript runtime that depend on Unicode data or on the
locale of the process. -/
structure Runtime where
  localeCompare : Str → Str → Ordering
  toLowerCase : Str → Str
  toUpperCase : Str → Str

/-- `String.prototype.length`: UTF-16 code units. -/
def utf16Length (s : Str) : ℕ :=
  (s.map fun c => if c.toNat < 0x10000 then 1 else 2).sum

/-- A number of the prerender manifest: is it positive, and how is it
printed? -/
structure JsNumber where
  positive : Bool
  text : Str

/-- What the generator consumes.  The routes of `staticRoutes` and
`dynamicRoutes` are their `page` names, and a name that is absent is empty. -/
structure Build where
  buildId : Str
  basePath : Str := []
  staticRoutes : List Str := []
  dynamicRoutes : List Str := []
  /-- A prerendered route and its `initialRevalidateSeconds`, if that is a
  number. -/
  prerendered : AssocMap Str (Option JsNumber) := ∅
  /-- The files of the app router and the route each of them serves. -/
  appPaths : AssocMap Str Str := ∅
  pagePaths : List Str := []

/-! ## Path patterns -/

/-- A match of `opening`, at least one character other than `]`, and
`closing`. -/
def bracketed (opening closing s : Str) : Option ℕ :=
  if opening.isPrefixOf s then
    let body := s.drop opening.length
    let name := body.takeWhile (· != ']')
    if !name.isEmpty && closing.isPrefixOf (body.drop name.length) then
      some (opening.length + name.length + closing.length)
    else none
  else none

/-- The characters `.` does not match. -/
def isLineTerminator (c : Char) : Bool :=
  c.toNat == 0x0a || c.toNat == 0x0d || c.toNat == 0x2028 || c.toNat == 0x2029

/-- The longest parent of a route whose last segment is an optional
catch-all. -/
def optionalParent : Str → Option Str
  | [] => none
  | c :: rest =>
      match optionalParent rest with
      | some parent => if isLineTerminator c then none else some (c :: parent)
      | none =>
          if bracketed "/[[...".toList "]]".toList (c :: rest) =
              some (rest.length + 1) then
            some []
          else none

/-- `/[...slug]` becomes `/**`. -/
def catchAllPattern : Rewrite Char := fun s =>
  (bracketed "/[...".toList "]".toList s).map fun length =>
    (length, "/**".toList)

/-- `[slug]` becomes `*`. -/
def paramPattern : Rewrite Char := fun s =>
  (bracketed "[".toList "]".toList s).map fun length => (length, "*".toList)

/-- Turn a Next dynamic route into a Harmost path glob. -/
def toGlob (page : Str) : Str :=
  match optionalParent page with
  | some parent =>
      "\x7b".toList ++ (if parent.isEmpty then "/".toList else parent) ++
        ",".toList ++ parent ++ "/**\x7d".toList
  | none => replaceAll paramPattern (replaceAll catchAllPattern page)

example : toGlob "/products/[slug]".toList = "/products/*".toList := by decide

example : toGlob "/shop/[[...slug]]".toList =
    "\x7b/shop,/shop/**\x7d".toList := by decide

/-! ## The order of routes -/

/-- How many segments of a route name are dynamic, by its brackets. -/
def dynamicCount (name : Str) : ℕ :=
  name.count '['

/-- Fewer dynamic segments first, then longer names. -/
def compareRouteSpecificity (js : Runtime) (left right : Str) : Ordering :=
  ((compare (dynamicCount left) (dynamicCount right)).then
    (compare (utf16Length right) (utf16Length left))).then
      (js.localeCompare left right)

/-- `Array.prototype.sort`, which is stable. -/
def sortBy (cmp : Str → Str → Ordering) (names : List Str) : List Str :=
  names.insertionSort fun a b => cmp a b ≠ .gt

theorem pairwise_sortBy {cmp : Str → Str → Ordering} (hcmp : Std.TransCmp cmp)
    (names : List Str) :
    (sortBy cmp names).Pairwise fun a b => cmp a b ≠ .gt := by
  have htotal : Std.Total fun a b => cmp a b ≠ .gt := by
    refine ⟨fun a b => ?_⟩
    by_cases hgt : cmp a b = .gt
    · have hlt : cmp b a = .lt := Std.OrientedCmp.lt_of_gt hgt
      exact .inr (by simp [hlt])
    · exact .inl hgt
  have htrans : IsTrans Str fun a b => cmp a b ≠ .gt := by
    refine ⟨fun a b c hab hbc => ?_⟩
    exact Ordering.ne_gt_iff_isLE.mpr (Std.TransCmp.isLE_trans
      (Ordering.ne_gt_iff_isLE.mp hab) (Ordering.ne_gt_iff_isLE.mp hbc))
  exact List.pairwise_insertionSort _ _

/-- No hit of a sorted list is before the first one. -/
theorem find?_sortBy {cmp : Str → Str → Ordering} (hcmp : Std.TransCmp cmp)
    {names : List Str} {p : Str → Bool} {first name : Str}
    (h : (sortBy cmp names).find? p = some first)
    (hmem : name ∈ sortBy cmp names) (hlt : cmp name first = .lt) :
    p name = false := by
  have hsorted := pairwise_sortBy hcmp names
  obtain ⟨-, before, after, hsplit, hbefore⟩ :=
    List.find?_eq_some_iff_append.mp h
  rw [hsplit, List.mem_append, List.mem_cons] at hmem
  rcases hmem with hearlier | rfl | hlater
  · simpa using hbefore name hearlier
  · have heq : cmp name name = .eq := Std.ReflCmp.compare_self
    simp [heq] at hlt
  · rw [hsplit, List.pairwise_append, List.pairwise_cons] at hsorted
    exact absurd (Std.OrientedCmp.gt_of_lt hlt) (hsorted.2.1.1 name hlater)
/-- A hit that is before all others is the first. -/
theorem find?_sortBy_eq_some {cmp : Str → Str → Ordering}
    (hcmp : Std.TransCmp cmp) {names : List Str} {p : Str → Bool} {name : Str}
    (hmem : name ∈ sortBy cmp names) (hhit : p name = true)
    (hfirst : ∀ other ∈ sortBy cmp names, p other = true → other ≠ name →
      cmp name other = .lt) : (sortBy cmp names).find? p = some name := by
  obtain ⟨first, hfound⟩ : ∃ first, (sortBy cmp names).find? p = some first :=
    Option.isSome_iff_exists.mp (List.find?_isSome.mpr ⟨name, hmem, hhit⟩)
  by_cases heq : first = name
  · rw [hfound, heq]
  · have hlt := hfirst first (List.mem_of_find?_eq_some hfound)
      (List.find?_some hfound) heq
    rw [find?_sortBy hcmp hfound hmem hlt] at hhit
    cases hhit

theorem transCmp_compareRouteSpecificity {js : Runtime}
    (hlocale : Std.TransCmp js.localeCompare) :
    Std.TransCmp (compareRouteSpecificity js) := by
  have hlength : Std.TransCmp fun a b : Str =>
      compare (utf16Length b) (utf16Length a) :=
    @Std.TransCmp.opposite _ (compareOn utf16Length) inferInstance
  exact inferInstanceAs (Std.TransCmp (compareLex
    (compareLex (compareOn dynamicCount) fun a b : Str =>
      compare (utf16Length b) (utf16Length a)) js.localeCompare))

/-- The elements of a `Set`, in the order they were first added. -/
def distinct (names : List Str) : List Str :=
  (names.foldl (fun seen name =>
    if seen.contains name then seen else name :: seen) []).reverse

theorem mem_foldl_distinct {seen names : List Str} {name : Str} :
    name ∈ names.foldl (fun seen name =>
      if seen.contains name then seen else name :: seen) seen ↔
        name ∈ seen ∨ name ∈ names := by
  induction names generalizing seen with
  | nil => simp
  | cons first rest ih =>
      rw [List.foldl_cons, ih]
      split_ifs with hseen
      · rw [List.contains_iff_mem] at hseen
        rw [List.mem_cons]
        constructor
        · exact Or.imp_right Or.inr
        · rintro (hmem | rfl | hmem)
          · exact .inl hmem
          · exact .inl hseen
          · exact .inr hmem
      · simp only [List.mem_cons]
        tauto

theorem mem_distinct {names : List Str} {name : Str} :
    name ∈ distinct names ↔ name ∈ names := by
  rw [distinct, List.mem_reverse, mem_foldl_distinct]
  simp

theorem nodup_foldl_distinct {seen : List Str} (hseen : seen.Nodup)
    (names : List Str) :
    (names.foldl (fun seen name =>
      if seen.contains name then seen else name :: seen) seen).Nodup := by
  induction names generalizing seen with
  | nil => exact hseen
  | cons first rest ih =>
      rw [List.foldl_cons]
      split_ifs with hfirst
      · exact ih hseen
      · exact ih (List.nodup_cons.mpr ⟨by simpa using hfirst, hseen⟩)

theorem nodup_distinct (names : List Str) : (distinct names).Nodup :=
  List.nodup_reverse.mpr (nodup_foldl_distinct List.nodup_nil names)

namespace Build

variable (build : Build)

/-- A route of the framework's own, such as `/_error`. -/
def isInternal (name : Str) : Bool :=
  "/_".toList.isPrefixOf name

/-- Is this app-router route a Route Handler rather than a page? -/
def isRouteHandler (page : Str) : Bool :=
  build.appPaths.entries.any fun entry =>
    entry.2 == page && "/route".toList.isSuffixOf entry.1

/-- The page names of all manifests. -/
def pageNames : List Str :=
  build.staticRoutes ++ build.dynamicRoutes ++ build.pagePaths

/-- Is this name prerendered, and not the framework's own? -/
def isPrerendered (route : Str) : Bool :=
  decide (route ∈ build.prerendered) && !isInternal route

/-- Is this the name of a page that is rendered on request? -/
def isPage (name : Str) : Bool :=
  build.pageNames.contains name && !name.isEmpty && !isInternal name &&
    !build.isPrerendered name && !build.isRouteHandler name

variable (js : Runtime)

/-- The prerendered routes a configuration lists. -/
def prerenderedRoutes : List Str :=
  sortBy js.localeCompare
    (build.prerendered.keys.filter fun route => !isInternal route)

/-- The route handlers a configuration lists. -/
def handlers : List Str :=
  sortBy (compareRouteSpecificity js)
    ((distinct (build.appPaths.entries.map Sigma.snd)).filter
      build.isRouteHandler)

/-- The dynamically rendered pages a configuration lists. -/
def pages : List Str :=
  sortBy (compareRouteSpecificity js)
    ((distinct build.pageNames).filter fun page =>
      !page.isEmpty && !isInternal page &&
        !(build.prerenderedRoutes js).contains page &&
        !(build.handlers js).contains page)

/-- The pages whose data payloads a configuration lists. -/
def dataPages : List Str :=
  sortBy (compareRouteSpecificity js) build.pagePaths

variable {build js} {name : Str}

theorem mem_prerenderedRoutes :
    name ∈ build.prerenderedRoutes js ↔ build.isPrerendered name = true := by
  rw [prerenderedRoutes, sortBy, List.mem_insertionSort, List.mem_filter,
    isPrerendered, Bool.and_eq_true, decide_eq_true_iff]
  exact Iff.rfl

/-- The routes of the files that are handlers. -/
theorem mem_handlerFiles :
    name ∈ (build.appPaths.entries.filter fun entry =>
      "/route".toList.isSuffixOf entry.1).map Sigma.snd ↔
        build.isRouteHandler name = true := by
  simp [isRouteHandler, and_comm]

theorem mem_handlers :
    name ∈ build.handlers js ↔ build.isRouteHandler name = true := by
  rw [handlers, sortBy, List.mem_insertionSort, List.mem_filter, mem_distinct,
    and_iff_right_iff_imp]
  intro hhandler
  obtain ⟨entry, hentry, hfile⟩ := List.any_eq_true.mp hhandler
  have hname : entry.2 = name := by
    simpa using (Bool.and_eq_true_iff.mp hfile).1
  exact List.mem_map.mpr ⟨entry, hentry, hname⟩

theorem mem_pages : name ∈ build.pages js ↔ build.isPage name = true := by
  rw [pages, sortBy, List.mem_insertionSort, List.mem_filter, mem_distinct]
  simp only [Bool.and_eq_true, Bool.not_eq_true', isPage, and_assoc,
    List.contains_eq_mem, decide_eq_true_eq, decide_eq_false_iff_not,
    mem_prerenderedRoutes, mem_handlers, Bool.not_eq_true]

end Build

end Harmost.Next
