import Harmost.Cache.Store.Model
import Mathlib.Data.Finset.Lattice.Basic

/-!
# The operations of the store

Purges, lookups, and the life of a fill: it is registered, written, and then
finished or abandoned.  `finish` is cut where the source takes the lifecycle
lock, since a purge may run in front of it.
-/

namespace Harmost.Cache

open Harmost.Support
open Harmost.Http
open Harmost.Proxy

/-- The storage key: its hash, and the request path that rides along. -/
structure StoreKey where
  combined : Str
  userTag : Str

/-- Response metadata as the store reads it: the headers, and what serialising
it gives, if it can be serialised. -/
structure EntryMeta where
  headers : HeaderMap
  serialized : Option BinaryMeta

/-- Everything a request to purge may select by. -/
inductive PurgeRequest where
  | tags (tags : List Str)
  | paths (paths : List Str)
  | all
  | key (combined : Str)

namespace BoundedStore

variable (s : BoundedStore)

/-! ## Purging -/

/-- Mark the fills a purge matches: they must not be admitted afterwards. -/
def invalidate (hit : Temp → Bool) : BoundedStore :=
  { s with
    temp := AssocMap.mapValues
      (fun _ fill =>
        if hit fill then { fill with invalidated := true } else fill)
      s.temp }

/-- One turn of the removal loop of `purge_matching_locked`. -/
def purgeOne (state : BoundedStore × Purged) (key : Str) :
    BoundedStore × Purged :=
  match state.1.cached.lookup key with
  | none => state
  | some entry =>
      (state.1.discard key entry,
        ⟨state.2.entries + 1, state.2.bytes + entry.size state.1.cells⟩)

/-- The keys a purge matches, in the order of the map. -/
def doomed (hit : Str → Stored → Bool) : List Str :=
  (s.cached.entries.filter fun entry => hit entry.1 entry.2).map Sigma.fst

/-- The one place entries leave the cache for a reason other than eviction. -/
def purgeMatchingLocked (hit : Str → Stored → Bool) : BoundedStore × Purged :=
  let keys := s.doomed hit
  let removed := keys.foldl purgeOne (s, {})
  if keys.isEmpty then removed
  else
    ({ removed.1 with
        order := removed.1.order.filter fun key => !keys.contains key
        purged := removed.1.purged + removed.2.entries },
      removed.2)

/-- Drop every entry carrying any of these tags. -/
def purgeTags (tags : List Str) : BoundedStore × Purged :=
  let wanted := tags.filter fun tag => !tag.isEmpty
  if wanted.isEmpty then (s, {})
  else
    let victims : Finset Str :=
      wanted.foldr (fun tag keys => s.tagIndex.keysOf tag ∪ keys) ∅
    (s.invalidate fun fill =>
      fill.tags.any fun tag => wanted.contains tag).purgeMatchingLocked
        fun key _ => decide (key ∈ victims)

/-- Drop every entry answering any of these exact paths. -/
def purgePaths (paths : List Str) : BoundedStore × Purged :=
  let wanted := paths.filter fun path => !path.isEmpty
  if wanted.isEmpty then (s, {})
  else
    (s.invalidate fun fill => wanted.contains fill.path).purgeMatchingLocked
      fun _ entry => wanted.contains entry.path

/-- Drop every finished entry. -/
def purgeAll : BoundedStore × Purged :=
  (s.invalidate fun _ => true).purgeMatchingLocked fun _ _ => true

/-- `Storage::purge`: drop one key, and say whether anything was dropped. -/
def purgeKey (combined : Str) : BoundedStore × Bool :=
  let tempInvalidated :=
    s.temp.entries.any fun entry => entry.2.key == combined
  let removed :=
    (s.invalidate fun fill => fill.key == combined).purgeMatchingLocked
      fun key _ => key == combined
  (removed.1, tempInvalidated || decide (0 < removed.2.entries))

/-- The store after any purge. -/
def purge : PurgeRequest → BoundedStore
  | .tags tags => (s.purgeTags tags).1
  | .paths paths => (s.purgePaths paths).1
  | .all => s.purgeAll.1
  | .key combined => (s.purgeKey combined).1

/-! ## Reading -/

/-- A handle on a body: finished, or still being written. -/
inductive Hit where
  | complete (body : ℕ)
  | following (body : ℕ)
  deriving DecidableEq, Repr

/-- The newest fill of a key. -/
def newestFill (combined : Str) : Option (ℕ × Temp) :=
  (s.temp.entries.filter fun entry => entry.2.key == combined).foldl
    (fun best entry =>
      match best with
      | none => some (entry.1, entry.2)
      | some (id, fill) =>
          if id ≤ entry.1 then some (entry.1, entry.2) else some (id, fill))
    none

/-- `Storage::lookup`: a finished entry, or else the newest fill. -/
def lookup (combined : Str) : BoundedStore × Option (BinaryMeta × Hit) :=
  match s.cached.lookup combined with
  | some entry =>
      (s.setVisited combined true,
        some (entry.serialized, .complete entry.body))
  | none =>
      (s, (s.newestFill combined).map fun found =>
        (found.2.serialized, .following found.2.body))

/-- `Storage::lookup_streaming_write` for a well-formed tag: exactly the fill
the tag names. -/
def lookupStreamingWrite (combined : Str) (id : ℕ) :
    Option (BinaryMeta × Hit) :=
  ((s.temp.lookup id).filter fun fill => fill.key == combined).map fun fill =>
    (fill.serialized, .following fill.body)

/-! ## Metadata of a finished entry -/

/-- The tags a response declares: the first value of the tag header. -/
def declaredTags (headers : HeaderMap) : List Str :=
  (((headers.getAll s.tagHeader).head?.bind headerToStr).map parseTags).getD []

/-- `Storage::update_meta`.  Only metadata and tags change size. -/
def updateMeta (key : StoreKey) (m : EntryMeta) : BoundedStore × Option Bool :=
  match m.serialized with
  | none => (s, none)
  | some replacement =>
      let tags := s.declaredTags m.headers
      let replacementSize := metaBytes replacement + tagBytes tags
      match s.cached.lookup key.combined with
      | none => (s, some false)
      | some obj =>
          let oldSize := metaBytes obj.serialized + tagBytes obj.tags
          if oldSize < replacementSize ∧
              s.maxBytes < s.used + (replacementSize - oldSize) then
            (s, some false)
          else
            let s' :=
              if oldSize < replacementSize then
                { s with used := s.used + (replacementSize - oldSize) }
              else s.release (oldSize - replacementSize)
            ({ s' with
                tagIndex := indexTags
                  (unindexTags s.tagIndex key.combined obj.tags)
                  key.combined tags
                cached := s.cached.insert key.combined
                  { obj with serialized := replacement, tags := tags } },
              some true)

/-! ## The life of a fill -/

/-- The writer's handle on a fill. -/
structure FollowableMiss where
  key : Str
  id : ℕ
  accounted : ℕ

/-- `Storage::get_miss_handler`: account for the metadata and register a fill
with a body of its own. -/
def getMissHandler (key : StoreKey) (m : EntryMeta) :
    BoundedStore × Option FollowableMiss :=
  let transient := m.headers.containsKey transientHeader.text
  let tags := if transient then [] else s.declaredTags m.headers
  let path := if transient then [] else key.userTag
  match m.serialized with
  | none => (s, none)
  | some serialized =>
      let metaSize := metaBytes serialized + tagBytes tags + byteLen path
      match s.reserve metaSize with
      | (s', false) => (s', none)
      | (s', true) =>
          let id := s'.nextId
          ({ s' with
              nextId := id + 1
              cells := Function.update s'.cells id {}
              temp := s'.temp.insert id
                ⟨key.combined, serialized, id, transient, tags, path, false⟩ },
            some ⟨key.combined, id, metaSize⟩)

/-- `write_body`: account for the data, append it, then publish the new
length.  The writer keeps its handle when the budget is exhausted. -/
def writeBody (h : FollowableMiss) (data : List UInt8) (eof : Bool) :
    BoundedStore × FollowableMiss × Bool :=
  match if data.isEmpty then (s, true) else s.reserve data.length with
  | (s', false) => (s', h, false)
  | (s', true) =>
      let cell := s'.cells h.id
      let total := cell.written.bytes + data.length
      ({ s' with
          cells := Function.update s'.cells h.id
            ⟨cell.body ++ data,
              if eof then .complete total else .part total⟩ },
        { h with accounted := h.accounted + data.length }, true)

/-- `remove_temp`. -/
def removeTemp (key : Str) (id : ℕ) : BoundedStore × Option Temp :=
  match (s.temp.lookup id).filter fun fill => fill.key == key with
  | none => (s, none)
  | some fill => ({ s with temp := s.temp.erase id }, some fill)

/-- Give up a fill: what dropping an unfinished handle does, and what happens
when the hand-off window of a transient fill closes. -/
def abandon (h : FollowableMiss) : BoundedStore :=
  match s.removeTemp h.key h.id with
  | (s', some _) => s'.release h.accounted
  | (s', none) => s'

/-- The start of `finish`: publish the end of the body and read whether the
fill is transient. -/
def beginFinish (h : FollowableMiss) : BoundedStore × Option Bool :=
  let cell := s.cells h.id
  ({ s with
      cells := Function.update s.cells h.id
        { cell with written := .complete cell.written.bytes } },
    ((s.temp.lookup h.id).filter fun fill => fill.key == h.key).map
      Temp.transient)

/-- The locked section of `finish` for a persistent fill: it becomes a finished
entry, unless a purge has marked it. -/
def completeFinish (h : FollowableMiss) : BoundedStore :=
  match s.removeTemp h.key h.id with
  | (s', none) => s'
  | (s', some fill) =>
      if fill.invalidated then s'.release h.accounted
      else
        s'.admitEntry h.key
          ⟨fill.serialized, fill.body, fill.path, fill.tags, false⟩

end BoundedStore

end Harmost.Cache
