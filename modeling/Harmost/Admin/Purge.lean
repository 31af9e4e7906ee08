import Harmost.Support.FormUrlencoded

/-!
# The query of a purge request

The admin listener reads what to purge out of the query: tags and paths, each
value percent-decoded once, or everything.  A parameter it does not know refuses
the request.
-/

namespace Harmost.Admin

open Harmost.Support

/-- The most `tag` and `path` parameters one purge may name, each. -/
def maxPurgeTags : ℕ := 128

/-- What a purge request asked for. -/
inductive PurgeRequest where
  | selective (tags paths : List Str)
  | all
  deriving DecidableEq, Repr

/-- Why a purge request was refused. -/
inductive PurgeRefusal where
  | disabled
  | unauthorized
  | malformed (why : Str)
  deriving DecidableEq, Repr

def malformed {α : Type} (why : String) : Except PurgeRefusal α :=
  .error (.malformed why.toList)

/-- What has been read so far. -/
structure PurgeQuery where
  tags : List Str := []
  paths : List Str := []
  all : Bool := false
  deriving DecidableEq, Repr

/-- Keep a value that is not there yet, unless there is no room for it. -/
def pushDistinct (values : List Str) (value : Str) (full : String) :
    Except PurgeRefusal (List Str) :=
  if maxPurgeTags ≤ values.length then malformed full
  else if values.contains value then .ok values
  else .ok (values ++ [value])

/-- One parameter whose value has been decoded. -/
def readParameter (read : PurgeQuery) (name value : Str) :
    Except PurgeRefusal PurgeQuery :=
  if name = "tag".toList ∧ value ≠ [] then
    (pushDistinct read.tags value "too many tags in one request").map
      fun tags => { read with tags := tags }
  else if name = "path".toList ∧ value.head? = some '/' then
    (pushDistinct read.paths value "too many paths in one request").map
      fun paths => { read with paths := paths }
  else if name = "path".toList then
    malformed "path must be absolute and begin with /"
  else if name = "all".toList ∧
      (value = "1".toList ∨ value = "true".toList) then
    .ok { read with all := true }
  else malformed "unrecognised parameter; expected tag or all"

/-- One turn of the loop over the parameters. -/
def readPair (read : PurgeQuery) (pair : Str) :
    Except PurgeRefusal PurgeQuery :=
  let split := (splitOnce '=' pair).getD (pair, [])
  match fromUtf8 (percentDecode split.2) with
  | none => malformed "parameter values must be valid UTF-8"
  | some value => readParameter read split.1 value

/-- The request that the parameters amount to. -/
def PurgeQuery.request (read : PurgeQuery) :
    Except PurgeRefusal PurgeRequest :=
  let selective := !read.tags.isEmpty || !read.paths.isEmpty
  match read.all, selective with
  | true, false => .ok .all
  | false, true => .ok (.selective read.tags read.paths)
  | true, true =>
      malformed "all=1 cannot be combined with tag= or path=; pick one"
  | false, false =>
      malformed "say what to purge: ?tag=<name>, ?path=</url>, or ?all=1"

def parsePurgeQuery (query : Option Str) :
    Except PurgeRefusal PurgeRequest :=
  match query.filter fun q => !q.isEmpty with
  | none => malformed "say what to purge: ?tag=<name>, ?path=</url>, or ?all=1"
  | some query =>
      ((query.splitOn '&').foldlM readPair {}).bind PurgeQuery.request

/-! ## Reading distinct values -/

theorem pushDistinct_of_notMem {values : List Str} {value : Str} (full : String)
    (hroom : values.length < maxPurgeTags) (hnew : value ∉ values) :
    pushDistinct values value full = .ok (values ++ [value]) := by
  rw [pushDistinct, if_neg (Nat.not_le.mpr hroom), if_neg (by simpa using hnew)]

theorem readParameter_tag {read : PurgeQuery} {value : Str}
    (hvalue : value ≠ []) (hroom : read.tags.length < maxPurgeTags)
    (hnew : value ∉ read.tags) :
    readParameter read "tag".toList value =
      .ok { read with tags := read.tags ++ [value] } := by
  rw [readParameter, if_pos ⟨rfl, hvalue⟩, pushDistinct_of_notMem _ hroom hnew]
  rfl

theorem readParameter_path {read : PurgeQuery} {value : Str}
    (hvalue : value.head? = some '/')
    (hroom : read.paths.length < maxPurgeTags) (hnew : value ∉ read.paths) :
    readParameter read "path".toList value =
      .ok { read with paths := read.paths ++ [value] } := by
  rw [readParameter, if_neg (by decide ∘ And.left), if_pos ⟨rfl, hvalue⟩,
    pushDistinct_of_notMem _ hroom hnew]
  rfl

/-- Distinct values are collected in the order they are written in, as long as
there is room. -/
theorem foldlM_collect (put : List Str → PurgeQuery) (write : Str → Str)
    {valid : Str → Prop}
    (hstep : ∀ values value, valid value → values.length < maxPurgeTags →
      value ∉ values →
        readPair (put values) (write value) = .ok (put (values ++ [value])))
    {values : List Str} (hvalid : ∀ value ∈ values, valid value)
    (before : List Str) (hnodup : (before ++ values).Nodup)
    (hroom : (before ++ values).length ≤ maxPurgeTags) :
    (values.map write).foldlM readPair (put before) =
      .ok (put (before ++ values)) := by
  induction values generalizing before with
  | nil =>
      rw [List.append_nil]
      rfl
  | cons value rest ih =>
      have hnew : value ∉ before := by
        intro hmem
        exact (List.nodup_append.mp hnodup).2.2 value hmem value
          List.mem_cons_self rfl
      have hlength : before.length < maxPurgeTags := by
        rw [List.length_append, List.length_cons] at hroom
        omega
      rw [List.append_cons] at hnodup hroom ⊢
      rw [List.map_cons, List.foldlM_cons,
        hstep before value (hvalid value List.mem_cons_self) hlength hnew]
      exact ih (fun v hv => hvalid v (List.mem_cons_of_mem _ hv)) _ hnodup hroom

end Harmost.Admin
