import Harmost.Http
import Harmost.Proxy.Filters
import Harmost.Support.AssocMap
import Mathlib.Data.Finset.Basic

/-!
# The bounded store

An in-memory store with a byte budget: finished entries, an eviction queue, a
reverse index from invalidation tags to entries, and the fills in progress.
Bodies are shared by reference between a fill, its writer and the entry it
becomes, so they live in cells of their own.

`used` counts finished entries and every byte of a fill in progress.  All
subtractions from it saturate; the field `clamped` records whether one of them
ever had to.
-/

namespace Harmost.Cache

open Harmost.Support
open Harmost.Config
open Harmost.Http
open Harmost.Proxy

/-- Serialised metadata. -/
abbrev BinaryMeta := List UInt8 × List UInt8

/-- The progress a writer publishes. -/
inductive Written where
  | part (bytes : ℕ)
  | complete (bytes : ℕ)
  deriving DecidableEq, Repr

def Written.bytes : Written → ℕ
  | .part n | .complete n => n

/-- A body and the progress published about it. -/
structure Cell where
  body : List UInt8 := []
  written : Written := .part 0

/-- The bytes a list of tags adds to an entry. -/
def tagBytes (tags : List Str) : ℕ :=
  (tags.map byteLen).sum

def metaBytes (serialized : BinaryMeta) : ℕ :=
  serialized.1.length + serialized.2.length

/-- A finished entry. -/
structure Stored where
  serialized : BinaryMeta
  /-- The cell that holds the body. -/
  body : ℕ
  path : Str
  tags : List Str
  visited : Bool

/-- `Stored::size`, given the cells. -/
def Stored.size (cells : ℕ → Cell) (entry : Stored) : ℕ :=
  metaBytes entry.serialized + (cells entry.body).body.length +
    byteLen entry.path + tagBytes entry.tags

/-- A write in progress.  Readers attach to this and follow it. -/
structure Temp where
  key : Str
  serialized : BinaryMeta
  body : ℕ
  transient : Bool
  tags : List Str
  path : Str
  /-- A purge matched this fill while it was in progress. -/
  invalidated : Bool

/-- The bytes of a fill besides its body. -/
def Temp.fixedSize (fill : Temp) : ℕ :=
  metaBytes fill.serialized + tagBytes fill.tags + byteLen fill.path

/-! ## Tags -/

def maxTagsPerEntry : ℕ := 64

def maxTagLen : ℕ := 256

def isAsciiGraphic (c : Char) : Bool :=
  0x21 ≤ c.toNat && c.toNat ≤ 0x7e

/-- The loop of `parse_tags`: `tags` are those accepted so far. -/
def parseTagsFrom (tags : List Str) : List Str → List Str
  | [] => tags
  | raw :: rest =>
      let tag := trim raw
      if tag.isEmpty || decide (maxTagLen < byteLen tag) then
        parseTagsFrom tags rest
      else if !tag.all isAsciiGraphic then parseTagsFrom tags rest
      else if tags.contains tag then parseTagsFrom tags rest
      else if maxTagsPerEntry ≤ (tags ++ [tag]).length then tags ++ [tag]
      else parseTagsFrom (tags ++ [tag]) rest

/-- Split a tag header value into tags Harmost is willing to index. -/
def parseTags (value : Str) : List Str :=
  parseTagsFrom [] (value.splitOn ',')

/-- The bytes `HeaderValue::to_str` reads: visible ASCII and the tab. -/
def isReadable (value : HeaderValue) : Bool :=
  value.bytes.all fun b => (0x20 ≤ b && b < 0x7f) || b == 0x09

/-- `HeaderValue::to_str`. -/
def headerToStr (value : HeaderValue) : Option Str :=
  if isReadable value then some (latin1 value.bytes) else none

/-- Reverse index from a tag to the keys carrying it. -/
abbrev TagIndex := AssocMap Str (Finset Str)

/-- The keys indexed under a tag. -/
def TagIndex.keysOf (index : TagIndex) (tag : Str) : Finset Str :=
  (index.lookup tag).getD ∅

/-- Remove one key from every tag it was indexed under, dropping tags that no
longer point at anything. -/
def unindexTags (index : TagIndex) (key : Str) : List Str → TagIndex
  | [] => index
  | tag :: rest =>
      match index.lookup tag with
      | none => unindexTags index key rest
      | some keys =>
          if keys.erase key = ∅ then
            unindexTags (index.erase tag) key rest
          else unindexTags (index.insert tag (keys.erase key)) key rest

/-- Index one key under each of these tags. -/
def indexTags (index : TagIndex) (key : Str) : List Str → TagIndex
  | [] => index
  | tag :: rest =>
      indexTags (index.insert tag (insert key (TagIndex.keysOf index tag))) key
        rest

/-! ## The store and its accounting -/

structure BoundedStore where
  maxBytes : ℕ
  policy : Eviction
  tagHeader : Str
  cached : AssocMap Str Stored := ∅
  /-- Eviction queue.  The front is the next candidate. -/
  order : List Str := []
  tagIndex : TagIndex := ∅
  temp : AssocMap ℕ Temp := ∅
  used : ℕ := 0
  nextId : ℕ := 0
  cells : ℕ → Cell := fun _ => {}
  evicted : ℕ := 0
  purged : ℕ := 0
  /-- Did a saturating subtraction from `used` ever clamp? -/
  clamped : Bool := false

/-- What a purge removed. -/
structure Purged where
  entries : ℕ := 0
  bytes : ℕ := 0
  deriving DecidableEq, Repr

namespace BoundedStore

/-- An empty store.  The tag header is lowercased once, here. -/
def new (cfg : CacheDefaults) : BoundedStore where
  maxBytes := cfg.maxMemory
  policy := cfg.eviction
  tagHeader := toAsciiLowercase cfg.tagHeader

variable (s : BoundedStore)

/-- `*used = used.saturating_sub(amount)`. -/
def release (amount : ℕ) : BoundedStore :=
  { s with
    used := s.used - amount
    clamped := s.clamped || decide (s.used < amount) }

/-- Take an entry out of the map, the budget and the index. -/
def discard (key : Str) (entry : Stored) : BoundedStore :=
  { s.release (entry.size s.cells) with
    cached := s.cached.erase key
    tagIndex := unindexTags s.tagIndex key entry.tags }

/-- Clear or set the mark that an entry was read. -/
def setVisited (key : Str) (visited : Bool) : BoundedStore :=
  match s.cached.lookup key with
  | none => s
  | some entry =>
      { s with cached := s.cached.insert key { entry with visited := visited } }

/-- Was this entry read since it was last queued? -/
def isVisited (key : Str) : Bool :=
  (s.cached.lookup key).any Stored.visited

/-- The eviction loop of `reserve`.  Each turn either spares a victim, which
costs a chance, or takes it off the queue, so the queue length and the chances
bound the number of turns. -/
def makeRoom (additional : ℕ) :
    (turns chances : ℕ) → BoundedStore → BoundedStore × Bool
  | 0, _, s => (s, decide (s.used + additional ≤ s.maxBytes))
  | turns + 1, chances, s =>
      if s.used + additional ≤ s.maxBytes then (s, true)
      else
        match s.order with
        | [] => (s, false)
        | victim :: rest =>
            if 0 < chances ∧ s.isVisited victim = true then
              makeRoom additional turns (chances - 1)
                { s.setVisited victim false with order := rest ++ [victim] }
            else
              match s.cached.lookup victim with
              | none =>
                  makeRoom additional turns chances { s with order := rest }
              | some entry =>
                  makeRoom additional turns chances
                    { s.discard victim entry with
                      order := rest
                      evicted := s.evicted + 1 }

/-- How often `reserve` may spare an entry that was read. -/
def chances : ℕ :=
  match s.policy with
  | .clock => s.order.length + 1
  | .fifo => 0

/-- Make room for `additional` bytes, evicting until the budget allows it. -/
def reserve (additional : ℕ) : BoundedStore × Bool :=
  if s.maxBytes < additional then (s, false)
  else
    match makeRoom additional (s.order.length + s.chances) s.chances s with
    | (s', true) => ({ s' with used := s'.used + additional }, true)
    | (s', false) => (s', false)

/-- `admit`: convert an already-accounted fill into a finished entry. -/
def admitEntry (key : Str) (obj : Stored) : BoundedStore :=
  let s :=
    match s.cached.lookup key with
    | none => s
    | some old =>
        { s.discard key old with order := s.order.filter fun k => k != key }
  { s with
    tagIndex := indexTags s.tagIndex key obj.tags
    cached := s.cached.insert key obj
    order := s.order ++ [key] }

end BoundedStore

end Harmost.Cache
