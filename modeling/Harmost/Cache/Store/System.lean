import Harmost.Cache.Store.Operations
import Harmost.Support.Run

/-!
# The store and its writers

A store together with the writers that hold a handle on it, and everything that
can happen next.  A step takes one operation; `finish` takes two, because it
reads whether its fill is transient before it takes the lifecycle lock.
-/

namespace Harmost.Cache

open Harmost.Support
open Harmost.Config
open Harmost.Http

/-- How far a writer has come. -/
inductive Phase where
  /-- The handle is in use. -/
  | writing
  /-- `finish` runs and has not reached its locked section. -/
  | finishing
  /-- `finish` returned, and a transient fill waits for its hand-off to end. -/
  | handoff
  deriving DecidableEq, Repr

/-- A handle and how far its owner has come. -/
structure Writer where
  handle : BoundedStore.FollowableMiss
  phase : Phase

/-- The store and every handle on one of its fills, by write id. -/
structure System where
  store : BoundedStore
  writers : AssocMap ℕ Writer := ∅

/-- Everything that can happen to a store. -/
inductive Op where
  | getMissHandler (key : StoreKey) (m : EntryMeta)
  | writeBody (id : ℕ) (data : List UInt8) (eof : Bool)
  | beginFinish (id : ℕ)
  | completeFinish (id : ℕ)
  /-- A handle is dropped before it was finished. -/
  | drop (id : ℕ)
  /-- The hand-off window of a transient fill closes. -/
  | expire (id : ℕ)
  | updateMeta (key : StoreKey) (m : EntryMeta)
  | lookup (combined : Str)
  | purge (request : PurgeRequest)

namespace System

/-- A new store that nobody writes to. -/
def init (cfg : CacheDefaults) : System where
  store := .new cfg

variable (sys : System)

/-- The handle under this id, if its owner has come exactly this far. -/
def handle? (id : ℕ) (phase : Phase) : Option BoundedStore.FollowableMiss :=
  match sys.writers.lookup id with
  | none => none
  | some writer => if writer.phase = phase then some writer.handle else none

/-- The owner of a handle lets go of it. -/
def leave (id : ℕ) (store : BoundedStore) : System :=
  { store := store, writers := sys.writers.erase id }

/-- The owner of a handle goes on. -/
def keep (id : ℕ) (writer : Writer) (store : BoundedStore) : System :=
  { store := store, writers := sys.writers.insert id writer }

/-- One operation.  An operation on a handle that is not there, or whose owner
is not that far, does nothing. -/
def step (sys : System) : Op → System
  | .getMissHandler key m =>
      match sys.store.getMissHandler key m with
      | (store, none) => { sys with store := store }
      | (store, some h) => sys.keep h.id ⟨h, .writing⟩ store
  | .writeBody id data eof =>
      match sys.handle? id .writing with
      | none => sys
      | some h =>
          match sys.store.writeBody h data eof with
          | (store, h', _) => sys.keep id ⟨h', .writing⟩ store
  | .beginFinish id =>
      match sys.handle? id .writing with
      | none => sys
      | some h =>
          match sys.store.beginFinish h with
          -- The write vanished: `finish` fails, and its handle is dropped.
          | (store, none) => sys.leave id (store.abandon h)
          | (store, some true) => sys.keep id ⟨h, .handoff⟩ store
          | (store, some false) => sys.keep id ⟨h, .finishing⟩ store
  | .completeFinish id =>
      match sys.handle? id .finishing with
      | none => sys
      | some h => sys.leave id (sys.store.completeFinish h)
  | .drop id =>
      match sys.handle? id .writing with
      | none => sys
      | some h => sys.leave id (sys.store.abandon h)
  | .expire id =>
      match sys.handle? id .handoff with
      | none => sys
      | some h => sys.leave id (sys.store.abandon h)
  | .updateMeta key m => { sys with store := (sys.store.updateMeta key m).1 }
  | .lookup combined => { sys with store := (sys.store.lookup combined).1 }
  | .purge request => { sys with store := sys.store.purge request }

/-- A whole run. -/
abbrev run (sys : System) (ops : List Op) : System :=
  Support.run step sys ops

/-- The bytes accounted to the fill with this id. -/
def accounted (id : ℕ) : ℕ :=
  match sys.writers.lookup id with
  | none => 0
  | some writer => writer.handle.accounted

/-- The accounted bytes of all registered fills. -/
def fillBytes : ℕ :=
  AssocMap.total (fun id _ => sys.accounted id) sys.store.temp

end System

end Harmost.Cache
