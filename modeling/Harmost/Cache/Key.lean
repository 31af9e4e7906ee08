import Harmost.Classifier
import Harmost.Config.Schema
import Harmost.Support.Framing
import Mathlib.Data.Char
import Mathlib.Data.List.Lex
import Mathlib.Data.List.Sort
import Mathlib.Data.Prod.Lex

/-!
# Cache key construction

The key is a structure of components.  `CacheKey.canonicalString` renders it as
the one string the storage layer hashes, and the rendering has to keep every
distinction the structure makes.
-/

namespace Harmost.Cache

open Harmost.Support
open Harmost.Http
open Harmost.Classifier
open Harmost.Config

@[ext] structure CacheKey where
  scheme : Str
  host : Str
  method : Str
  path : Str
  /-- Canonical query: filtered by policy, then sorted. -/
  query : Str
  /-- Sorted `(name, value)` pairs for every header that selects a variant. -/
  variant : List (Str × Str)
  deployment : Option Str
  deriving DecidableEq

/-! ## The canonical rendering -/

/-- The texts pushed by `canonical_string`, in order. -/
def CacheKey.parts (key : CacheKey) : List Str :=
  [key.scheme, key.host, key.method, key.path, key.query] ++
    (match key.deployment with
      | some id => ["d".toList, id]
      | none => ["-".toList]) ++
    [decimal key.variant.length] ++
    key.variant.flatMap fun entry => [entry.1, entry.2]

/-- Render the key as one canonical string: every part is length-prefixed, with
readable separators around it. -/
def CacheKey.canonicalString (key : CacheKey) : Str :=
  key.parts.flatMap (frame '\u001e' '\u001f')

theorem variantPair_selfDelimiting :
    SelfDelimiting fun entry : Str × Str => [entry.1, entry.2] := by
  intro a b rest rest' h
  simp only [List.cons_append, List.nil_append, List.cons.injEq] at h
  exact ⟨Prod.ext h.1 h.2.1, h.2.2⟩

/-- The pushed texts determine the key. -/
theorem CacheKey.parts_injective : Function.Injective CacheKey.parts := by
  rintro ⟨scheme, host, method, path, query, variant, deployment⟩
    ⟨scheme', host', method', path', query', variant', deployment'⟩ h
  have hvariant :
      variant.flatMap (fun entry => [entry.1, entry.2]) =
          variant'.flatMap (fun entry => [entry.1, entry.2]) →
        variant = variant' := fun heq =>
    variantPair_selfDelimiting.flatMap_injective (fun _ => by simp) heq
  -- The tag in front of the deployment id tells an absent id from an empty one.
  cases deployment with
  | none =>
      cases deployment' with
      | none =>
          simp only [CacheKey.parts, List.cons_append, List.nil_append,
            List.cons.injEq, true_and] at h
          obtain ⟨rfl, rfl, rfl, rfl, rfl, _, hentries⟩ := h
          rw [hvariant hentries]
      | some id' => simp [CacheKey.parts] at h
  | some id =>
      cases deployment' with
      | none => simp [CacheKey.parts] at h
      | some id' =>
          simp only [CacheKey.parts, List.cons_append, List.nil_append,
            List.cons.injEq, true_and] at h
          obtain ⟨rfl, rfl, rfl, rfl, rfl, rfl, _, hentries⟩ := h
          rw [hvariant hentries]

theorem CacheKey.parts_eq_of_canonicalString_eq {key key' : CacheKey}
    (h : key.canonicalString = key'.canonicalString) : key.parts = key'.parts :=
  (frame_selfDelimiting '\u001f' (by decide)).flatMap_injective
    (frame_ne_nil _ _) h

/-- Equal canonical strings come from equal keys, whatever the components
contain. -/
theorem CacheKey.canonicalString_inj {key key' : CacheKey} :
    key.canonicalString = key'.canonicalString ↔ key = key' := by
  constructor
  · intro h
    exact CacheKey.parts_injective (CacheKey.parts_eq_of_canonicalString_eq h)
  · rintro rfl
    rfl

/-! ## Building a key -/

/-- `str::strip_suffix`. -/
def stripSuffix (suffix s : Str) : Option Str :=
  if suffix.isSuffixOf s then some (s.take (s.length - suffix.length)) else none

def defaultPort (scheme : Str) : Option Str :=
  if toAsciiLowercase scheme = "http".toList then some ":80".toList
  else if toAsciiLowercase scheme = "https".toList then some ":443".toList
  else none

def normalizeHost (host scheme : Str) : Str :=
  let host := toAsciiLowercase (trim host)
  ((defaultPort scheme).bind fun port => stripSuffix port host).getD host

/-- Collapse `Accept-Encoding` to a canonical spelling of what it lists. -/
def normalizeAcceptEncoding (req : RequestMetadata) : Str :=
  let joined :=
    join ',' ((req.headers.getAll "accept-encoding".toList).map headerText)
  let values :=
    ((joined.splitOn ',').map fun part =>
      join ';' ((part.splitOn ';').map fun piece =>
        (toAsciiLowercase (trim piece)).filter (· != ' '))).filter
          fun part => !part.isEmpty
  if values.isEmpty then "identity".toList else join ',' values

/-- The rendered values of one header, or `none` when it is absent. -/
def headerValues (req : RequestMetadata) (name : Str) : Option Str :=
  let values := (req.headers.getAll name).map headerText
  if values.isEmpty then none else some (join '\u001d' values)

/-! ### The canonical query -/

/-- A query pair: a name, and a value when the pair holds an `=`. -/
abbrev QueryPair := Str × Option Str

/-- The name, then the value if there is one: the lexicographic order of these
lists is the order Rust derives for `(&str, Option<&str>)`. -/
def QueryPair.sortKey : QueryPair → List Str
  | (k, none) => [k]
  | (k, some v) => [k, v]

def QueryPair.le (a b : QueryPair) : Prop :=
  QueryPair.sortKey a ≤ QueryPair.sortKey b

instance : DecidableRel QueryPair.le :=
  fun a b => inferInstanceAs (Decidable
    (QueryPair.sortKey a ≤ QueryPair.sortKey b))

def queryPair (p : Str) : QueryPair :=
  match splitOnce '=' p with
  | some (k, v) => (k, some v)
  | none => (p, none)

def keepQueryPair (policy : Option QueryPolicy) (pair : QueryPair) : Bool :=
  match policy with
  | none => true
  | some policy =>
      let listed := policy.keys.any (· == pair.1)
      match policy.mode with
      | .«include» => listed
      | .exclude => !listed

def renderQueryPair (pair : QueryPair) : Str :=
  match pair.2 with
  | some v => pair.1 ++ '=' :: v
  | none => pair.1

/-- The pairs of a raw query that the policy keeps, in request order. -/
def queryPairs (raw : Str) (policy : Option QueryPolicy) : List QueryPair :=
  (((raw.splitOn '&').filter fun p => !p.isEmpty).map queryPair).filter
    (keepQueryPair policy)

/-- Sort only when every key is unique; reordering duplicate keys can change
what the application sees. -/
def sortUniquePairs (pairs : List QueryPair) : List QueryPair :=
  if (pairs.map Prod.fst).Nodup then pairs.insertionSort QueryPair.le else pairs

/-- Filter and sort the query string. -/
def canonicalQuery (raw : Str) (policy : Option QueryPolicy) : Str :=
  if raw.isEmpty then []
  else join '&' ((sortUniquePairs (queryPairs raw policy)).map renderQueryPair)

/-! ### Assembling the components -/

/-- The order Rust derives for `(String, String)`. -/
def variantLe (a b : Str × Str) : Prop :=
  toLex a ≤ toLex b

instance : DecidableRel variantLe :=
  fun a b => inferInstanceAs (Decidable (toLex a ≤ toLex b))

/-- Everything that goes into a key besides the request. -/
structure KeyBuilder where
  scheme : Str
  queryPolicy : Option QueryPolicy
  /-- Header names from route `cache.vary` plus the framework adapter's
  mandatory variant headers. -/
  variantHeaders : List Str
  deployment : Option Str

/-- The name under which the content coding enters the variant list. -/
def encodingEntry : Str :=
  "~encoding".toList

namespace KeyBuilder

/-- The variant entries in the order they are collected. -/
def variantEntries (builder : KeyBuilder) (req : RequestMetadata) :
    List (Str × Str) :=
  (builder.variantHeaders.filterMap fun name =>
    let lower := toAsciiLowercase name
    (headerValues req lower).map fun value => (lower, value)) ++
      [(encodingEntry, normalizeAcceptEncoding req)]

def build (builder : KeyBuilder) (req : RequestMetadata) : CacheKey where
  scheme := toAsciiLowercase builder.scheme
  host := normalizeHost req.host builder.scheme
  method := toAsciiUppercase req.method.asStr
  path := req.path
  query := canonicalQuery (req.query.getD []) builder.queryPolicy
  variant := (builder.variantEntries req).insertionSort variantLe
  deployment := builder.deployment

end KeyBuilder

end Harmost.Cache
