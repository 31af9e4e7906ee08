import Harmost.Cache.Store.Readers
import Harmost.Support.Run

/-!
# Lookups across completion

No lock is held over both maps of the store.  A lookup reads the finished
entries and then the fills; `finish` removes its fill and then admits the
entry.  Here each of the four is a step of its own, and a fill that has been
removed and not yet admitted is in neither map.
-/

namespace Harmost.Cache

open Harmost.Support
open Harmost.Config

namespace BoundedStore

variable (s : BoundedStore)

/-! ## Operations that are cut in two -/

/-- The first read of `lookup`: a finished entry. -/
def readCached (combined : Str) : BoundedStore × Option (BinaryMeta × Hit) :=
  match s.cached.lookup combined with
  | some entry =>
      (s.setVisited combined true,
        some (entry.serialized, .complete entry.body))
  | none => (s, none)

/-- The second read of `lookup`: the newest fill. -/
def readTemp (combined : Str) : Option (BinaryMeta × Hit) :=
  (s.newestFill combined).map fun found =>
    (found.2.serialized, .following found.2.body)

/-- What `finish` does with the fill it has removed. -/
def settle (h : FollowableMiss) (fill : Temp) : BoundedStore :=
  if fill.invalidated then s.release h.accounted
  else
    s.admitEntry h.key
      ⟨fill.serialized, fill.body, fill.path, fill.tags, false⟩

theorem completeFinish_eq (h : FollowableMiss) :
    s.completeFinish h =
      match s.removeTemp h.key h.id with
      | (s', none) => s'
      | (s', some fill) => s'.settle h fill :=
  rfl

end BoundedStore

/-! ## The system with its locks -/

/-- Where a lookup is. -/
inductive Reader where
  | idle
  /-- It found no finished entry.  When it started, `since` was the next write
  id. -/
  | missed (combined : Str) (since : ℕ)
  | answered (answer : Option (BinaryMeta × BoundedStore.Hit))

/-- A store whose writers and readers may be anywhere between two locks. -/
structure Handover where
  sys : System
  /-- The fills that `finish` has removed and not yet settled. -/
  removed : AssocMap ℕ (BoundedStore.FollowableMiss × Temp) := ∅
  readers : ℕ → Reader := fun _ => .idle

namespace Handover

open BoundedStore

/-- One locked section. -/
inductive Step where
  /-- An operation of the store that is not cut. -/
  | op (op : Op)
  | removeTemp (id : ℕ)
  | settle (id : ℕ)
  | readCached (reader : ℕ) (combined : Str)
  | readTemp (reader : ℕ)

def init (cfg : CacheDefaults) : Handover where
  sys := .init cfg

def step (s : Handover) : Step → Handover
  | .op (.completeFinish _) | .op (.lookup _) => s
  | .op (.purge request) =>
      -- A purge waits until nobody is between removal and admission.
      if s.removed.entries.isEmpty then
        { s with sys := s.sys.step (.purge request) }
      else s
  | .op op => { s with sys := s.sys.step op }
  | .removeTemp id =>
      match s.sys.handle? id .finishing with
      | none => s
      | some h =>
          match s.sys.store.removeTemp h.key h.id with
          | (store, none) => { s with sys := s.sys.leave id store }
          | (store, some fill) =>
              { s with
                sys := s.sys.leave id store
                removed := s.removed.insert id (h, fill) }
  | .settle id =>
      match s.removed.lookup id with
      | none => s
      | some (h, fill) =>
          { s with
            sys := { s.sys with store := s.sys.store.settle h fill }
            removed := s.removed.erase id }
  | .readCached reader combined =>
      match s.readers reader with
      | .idle =>
          match s.sys.store.readCached combined with
          | (store, some answer) =>
              { s with
                sys := { s.sys with store := store }
                readers := Function.update s.readers reader
                  (.answered (some answer)) }
          | (_, none) =>
              { s with
                readers := Function.update s.readers reader
                  (.missed combined s.sys.store.nextId) }
      | _ => s
  | .readTemp reader =>
      match s.readers reader with
      | .missed combined _ =>
          { s with
            readers := Function.update s.readers reader
              (.answered (s.sys.store.readTemp combined)) }
      | _ => s

end Handover

/-! ## What the uncut operations leave alone -/

namespace BoundedStore

/-- Every finished entry of the second store has the body of one of the
first. -/
def Keeps (s s' : BoundedStore) : Prop :=
  ∀ key entry', s'.cached.lookup key = some entry' →
    ∃ entry, s.cached.lookup key = some entry ∧ entry.body = entry'.body

theorem Keeps.of_eq {s s' : BoundedStore} (h : s'.cached = s.cached) :
    s.Keeps s' := by
  intro key entry' hentry'
  exact ⟨entry', h ▸ hentry', rfl⟩

theorem keeps_abandon (s : BoundedStore) (h : FollowableMiss) :
    s.Keeps (s.abandon h) := by
  apply Keeps.of_eq
  unfold abandon removeTemp
  cases ((s.temp.lookup h.id).filter fun fill => fill.key == h.key) <;> rfl

theorem keeps_writeBody (s : BoundedStore) (h : FollowableMiss)
    (data : List UInt8) (eof : Bool) : s.Keeps (s.writeBody h data eof).1 := by
  unfold writeBody
  by_cases hdata : data.isEmpty = true
  · rw [if_pos hdata]
    exact .of_eq rfl
  · rw [if_neg hdata]
    obtain ⟨s', hrevises, hfails | ⟨hcharged, -⟩⟩ := s.reserve_cases data.length
    · rw [hfails]
      exact hrevises.kept
    · rw [hcharged]
      exact hrevises.kept

theorem keeps_purge (s : BoundedStore) (request : PurgeRequest) :
    s.Keeps (s.purge request) := by
  have hpurged : ∀ (fillHit : Temp → Bool) (hit : Str → Stored → Bool),
      s.Keeps ((s.invalidate fillHit).purgeMatchingLocked hit).1 :=
    fun fillHit hit => (revises_purgeMatchingLocked _ hit).kept
  cases request with
  | tags tags =>
      simp only [purge, purgeTags]
      split_ifs
      · exact .of_eq rfl
      · exact hpurged _ _
  | paths paths =>
      simp only [purge, purgePaths]
      split_ifs
      · exact .of_eq rfl
      · exact hpurged _ _
  | all | key => exact hpurged _ _

end BoundedStore

namespace System

open BoundedStore

/-- Only the end of `finish` brings a new body into the cache. -/
theorem keeps_step (sys : System) {op : Op}
    (hop : ∀ id, op ≠ .completeFinish id) :
    sys.store.Keeps (sys.step op).store := by
  have hidle : sys.store.Keeps sys.store := .of_eq rfl
  cases op with
  | getMissHandler key m =>
      obtain ⟨s', hrevises, hrefused | ⟨fill, -, -, -, heq⟩⟩ :=
        sys.store.getMissHandler_cases key m
      · rw [step, hrefused]
        exact hrevises.kept
      · rw [step, heq]
        exact hrevises.kept
  | writeBody id data eof =>
      rw [step]
      split
      · exact hidle
      · exact keeps_writeBody _ _ data eof
  | beginFinish id =>
      rw [step]
      split
      · exact hidle
      · rename_i h _
        have hcached : (sys.store.beginFinish h).1.cached = sys.store.cached :=
          rfl
        split
        · rename_i heq
          rw [heq] at hcached
          exact fun key => hcached ▸ keeps_abandon _ h key
        · rename_i heq
          rw [heq] at hcached
          exact .of_eq hcached
        · rename_i heq
          rw [heq] at hcached
          exact .of_eq hcached
  | completeFinish id => exact absurd rfl (hop id)
  | drop | expire =>
      rw [step]
      split
      · exact hidle
      · exact keeps_abandon _ _
  | updateMeta key m => exact (revises_updateMeta _ key m).kept
  | lookup combined => exact (revises_lookup _ combined).kept
  | purge request => exact keeps_purge _ request

end System

/-! ## Reads and hand-overs kept apart -/

namespace Handover

open BoundedStore

/-- The key has this body, and no purge has marked it: it is being filled,
being handed over, or finished. -/
def Holds (s : Handover) (key : Str) (body : ℕ) : Prop :=
  (∃ id fill, s.sys.store.temp.lookup id = some fill ∧ fill.key = key ∧
      fill.body = body ∧ fill.invalidated = false) ∨
    (∃ id h fill, s.removed.lookup id = some (h, fill) ∧ h.key = key ∧
      fill.body = body ∧ fill.invalidated = false) ∨
    ∃ entry, s.sys.store.cached.lookup key = some entry ∧ entry.body = body

/-- No fill is removed while a lookup of its key is between its two reads, and
no lookup starts while a fill of its key is being handed over. -/
def Apart (s : Handover) : Step → Prop
  | .removeTemp id => ∀ h, s.sys.handle? id .finishing = some h →
      ∀ reader since, s.readers reader ≠ .missed h.key since
  | .readCached _ combined => ∀ id h fill,
      s.removed.lookup id = some (h, fill) → h.key ≠ combined
  | _ => True

/-- What a lookup has missed is younger than the lookup. -/
structure Younger (s : Handover) (key : Str) (since : ℕ) : Prop where
  removed : ∀ id h fill, s.removed.lookup id = some (h, fill) →
    h.key = key → since ≤ fill.body
  cached : ∀ entry, s.sys.store.cached.lookup key = some entry →
    since ≤ entry.body

/-- No lookup has missed anything. -/
def NoGap (s : Handover) : Prop :=
  ∀ reader key since, s.readers reader = .missed key since →
    s.Younger key since

/-! ### Steps -/

theorem step_op (s : Handover) (op : Op) :
    ∃ sys', s.step (.op op) = { s with sys := sys' } ∧
      s.sys.store.Keeps sys'.store := by
  have hidle : ∃ sys', s = { s with sys := sys' } ∧
      s.sys.store.Keeps sys'.store := ⟨s.sys, rfl, .of_eq rfl⟩
  cases op with
  | completeFinish | lookup => exact hidle
  | purge request =>
      simp only [step]
      split_ifs
      · exact ⟨_, rfl, s.sys.keeps_step (by simp)⟩
      · exact hidle
  | getMissHandler | writeBody | beginFinish | drop | expire | updateMeta =>
      exact ⟨_, rfl, s.sys.keeps_step (by simp)⟩

variable {s : Handover}

theorem Younger.keep {key : Str} {since : ℕ} (h : s.Younger key since)
    {sys' : System} (hkeeps : s.sys.store.Keeps sys'.store) :
    { s with sys := sys' }.Younger key since where
  removed := h.removed
  cached := by
    intro entry' hentry'
    obtain ⟨entry, hentry, hbody⟩ := hkeeps key entry' hentry'
    exact hbody ▸ h.cached entry hentry

theorem NoGap.keep (h : s.NoGap) {sys' : System}
    (hkeeps : s.sys.store.Keeps sys'.store) : { s with sys := sys' }.NoGap :=
  fun reader key since hreader => (h reader key since hreader).keep hkeeps

theorem keeps_removeTemp (s : BoundedStore) (key : Str) (id : ℕ) :
    s.Keeps (s.removeTemp key id).1 := by
  apply Keeps.of_eq
  unfold BoundedStore.removeTemp
  cases ((s.temp.lookup id).filter fun fill => fill.key == key) <;> rfl

theorem NoGap.removeTemp (h : s.NoGap) {id : ℕ}
    (hapart : s.Apart (.removeTemp id)) : (s.step (.removeTemp id)).NoGap := by
  simp only [step]
  split
  · exact h
  · rename_i handle hhandle
    have hkeeps := keeps_removeTemp s.sys.store handle.key handle.id
    split
    · rename_i store heq
      rw [heq] at hkeeps
      exact h.keep hkeeps
    · rename_i store fill heq
      rw [heq] at hkeeps
      intro reader key since hreader
      have hkept : { s with sys := s.sys.leave id store }.Younger key since :=
        (h reader key since hreader).keep hkeeps
      refine ⟨?_, hkept.cached⟩
      intro id' h' fill' hremoved hkey
      rcases AssocMap.lookup_insert_cases hremoved with ⟨-, hgoes⟩ | ⟨-, hold⟩
      · -- The fill that goes is not one this lookup asks for.
        obtain ⟨rfl, rfl⟩ := Prod.mk.inj hgoes
        exact absurd (hkey ▸ hreader) (hapart _ hhandle reader since)
      · exact hkept.removed id' h' fill' hold hkey

/-- What is admitted was removed, and so is as young. -/
theorem NoGap.settle (h : s.NoGap) (id : ℕ) : (s.step (.settle id)).NoGap := by
  simp only [step]
  split
  · exact h
  · rename_i handle fill hremoved
    intro reader key since hreader
    have hold := h reader key since hreader
    refine ⟨?_, ?_⟩
    · intro id' h' fill' hremoved' hkey
      have hid : id' ≠ id := by
        rintro rfl
        simp at hremoved'
      rw [AList.lookup_erase_ne hid] at hremoved'
      exact hold.removed id' h' fill' hremoved' hkey
    · intro entry' hentry'
      simp only [BoundedStore.settle] at hentry'
      split_ifs at hentry'
      · exact hold.cached entry' hentry'
      · rcases lookup_admitEntry hentry' with
          ⟨hkey, rfl⟩ | ⟨-, old, hlookup, hbody⟩
        · exact hold.removed id handle fill hremoved hkey.symm
        · exact hbody ▸ hold.cached old hlookup

theorem NoGap.move (h : s.NoGap) (reader : ℕ) {place : Reader}
    (hplace : ∀ key since, place = .missed key since →
      s.Younger key since) :
    { s with readers := Function.update s.readers reader place }.NoGap := by
  intro reader' key since hreader'
  have hyounger : s.Younger key since := by
    by_cases heq : reader' = reader
    · subst heq
      exact hplace key since
        ((Function.update_self reader' place s.readers).symm.trans hreader')
    · exact h reader' key since
        ((Function.update_of_ne heq place s.readers).symm.trans hreader')
  exact ⟨hyounger.removed, hyounger.cached⟩

/-- A lookup that finds no finished entry, and nothing being handed over, has
missed nothing. -/
theorem NoGap.readCached (h : s.NoGap) {reader : ℕ} {combined : Str}
    (hapart : s.Apart (.readCached reader combined)) :
    (s.step (.readCached reader combined)).NoGap := by
  simp only [step]
  split
  · unfold BoundedStore.readCached
    cases hentry : s.sys.store.cached.lookup combined with
    | some entry =>
        have hkept : { s with sys := { s.sys with
            store := s.sys.store.setVisited combined true } }.NoGap :=
          h.keep (revises_setVisited s.sys.store combined true).kept
        exact hkept.move reader (by simp)
    | none =>
        refine h.move reader fun key since hplace => ?_
        obtain ⟨rfl, rfl⟩ := Reader.missed.inj hplace
        refine ⟨fun id handle fill hremoved hkey => ?_, fun entry hfound => ?_⟩
        · exact absurd hkey (hapart id handle fill hremoved)
        · rw [hentry] at hfound
          cases hfound
  · exact h

theorem NoGap.step {op : Step} (hapart : s.Apart op) (h : s.NoGap) :
    (s.step op).NoGap := by
  cases op with
  | op op =>
      obtain ⟨sys', heq, hkeeps⟩ := s.step_op op
      rw [heq]
      exact h.keep hkeeps
  | removeTemp id => exact h.removeTemp hapart
  | settle id => exact h.settle id
  | readCached reader combined => exact h.readCached hapart
  | readTemp reader =>
      simp only [Handover.step]
      split
      · exact h.move reader (by simp)
      · exact h

/-! ### Lookups -/

/-- If no fill is handed over while its key is looked up, a lookup that found
no finished entry answers with a fill, as long as the key has a body that was
there before the lookup started. -/
theorem lookup_across_completion (cfg : CacheDefaults) (steps : List Step)
    (hapart : Guarded step Apart (init cfg) steps) (reader : ℕ) (key : Str)
    (since body : ℕ)
    (hreader : (run step (init cfg) steps).readers reader = .missed key since)
    (hbefore : body < since)
    (hholds : (run step (init cfg) steps).Holds key body) :
    ∃ answer, (step (run step (init cfg) steps) (.readTemp reader)).readers
      reader = .answered (some answer) := by
  have hnogap : (run step (init cfg) steps).NoGap :=
    run_invariant_of_guarded (fun _ _ hok h => h.step hok)
      (fun reader key since heq => by simp [init] at heq) hapart
  have hyounger := hnogap reader key since hreader
  rcases hholds with ⟨id, fill, hfill, rfl, -, -⟩ |
    ⟨id, h, fill, hremoved, hkey, rfl, -⟩ | ⟨entry, hentry, rfl⟩
  · obtain ⟨found, hfound⟩ :=
      Option.isSome_iff_exists.mp (newestFill_isSome hfill)
    refine ⟨(found.2.serialized, .following found.2.body), ?_⟩
    simp only [step, hreader, Function.update_self, BoundedStore.readTemp,
      hfound, Option.map_some]
  · exact absurd (hyounger.removed id h fill hremoved hkey)
      (Nat.not_le.mpr hbefore)
  · exact absurd (hyounger.cached entry hentry) (Nat.not_le.mpr hbefore)

/-- A lookup starts and ends while the page is being written. -/
theorem lookup_across_completion_writing :
    (run step (init {})
        [.op (.getMissHandler ⟨['k'], ['/']⟩ ⟨[], some ([], [])⟩),
          .readCached 7 ['k']]).readers 7 = .missed ['k'] 1 ∧
      ∃ answer, (step (run step (init {})
        [.op (.getMissHandler ⟨['k'], ['/']⟩ ⟨[], some ([], [])⟩),
          .readCached 7 ['k']]) (.readTemp 7)).readers 7 =
            .answered (some answer) := by
  have hapart : Guarded step Apart (init {})
      [.op (.getMissHandler ⟨['k'], ['/']⟩ ⟨[], some ([], [])⟩),
        .readCached 7 ['k']] :=
    ⟨trivial, fun _ _ _ hremoved => by simp [step, init] at hremoved, trivial⟩
  exact ⟨rfl, lookup_across_completion {} _ hapart 7 ['k'] 1 0 rfl
    Nat.zero_lt_one (.inl ⟨0, ⟨['k'], ([], []), 0, false, [], ['/'], false⟩,
      rfl, rfl, rfl, rfl⟩)⟩

/-- The page is finished between the two reads of a lookup.  It was there
before the lookup started and it is there when the lookup returns, and the
lookup misses it. -/
theorem lookup_misses_handover :
    let s := run step (init {})
      [.op (.getMissHandler ⟨['k'], ['/']⟩ ⟨[], some ([], [])⟩),
        .op (.writeBody 0 [1] true), .op (.beginFinish 0),
        .readCached 7 ['k'], .removeTemp 0, .settle 0]
    s.readers 7 = .missed ['k'] 1 ∧
      s.Holds ['k'] 0 ∧
      (step s (.readTemp 7)).readers 7 = .answered none :=
  ⟨rfl, .inr (.inr ⟨⟨([], []), 0, ['/'], [], false⟩, rfl, rfl⟩), rfl⟩

/-! ### The uncut operations -/

/-- Removal and admission without anything in between are the end of
`finish`. -/
theorem sys_settle_removeTemp (s : Handover) (id : ℕ)
    (hnew : id ∉ s.removed) :
    ((s.step (.removeTemp id)).step (.settle id)).sys =
      s.sys.step (.completeFinish id) := by
  have hnone : s.removed.lookup id = none := AList.lookup_eq_none.mpr hnew
  simp only [step, System.step]
  cases hhandle : s.sys.handle? id .finishing with
  | none => simp only [hnone]
  | some h =>
      simp only [completeFinish_eq]
      obtain ⟨store, fill⟩ := s.sys.store.removeTemp h.key h.id
      cases fill with
      | none => simp only [hnone]
      | some fill => simp only [AList.lookup_insert, System.leave]

/-- Two reads without anything in between are a lookup. -/
theorem answered_readTemp_readCached (s : Handover) (reader : ℕ)
    (combined : Str) (hidle : s.readers reader = .idle) :
    ((s.step (.readCached reader combined)).step (.readTemp reader)).readers
      reader = .answered (s.sys.store.lookup combined).2 := by
  simp only [step, hidle, BoundedStore.readCached, BoundedStore.lookup]
  cases s.sys.store.cached.lookup combined with
  | some entry => simp only [Function.update_self]
  | none => simp only [Function.update_self, BoundedStore.readTemp]

end Handover

end Harmost.Cache
