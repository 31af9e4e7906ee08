import Harmost.Cache.Store.Invariant

/-!
# Purges reach fills in progress

A body is identified by the write id it was filled under; that id stays with
the entry the fill becomes.  After a purge, nothing it matched is in the cache,
and nothing it matched comes back.
-/

namespace Harmost.Cache

open Harmost.Support
open Harmost.Config

namespace BoundedStore

/-- The request matches a finished entry, or a persistent fill in progress,
with this body. -/
def Matched (s : BoundedStore) (request : PurgeRequest) (id : ℕ) : Prop :=
  (∃ key entry, s.cached.lookup key = some entry ∧ entry.body = id ∧
      request.Matches key entry.path entry.tags) ∨
    ∃ fill, s.temp.lookup id = some fill ∧ fill.transient = false ∧
      request.Matches fill.key fill.path fill.tags

/-- This body is not in the cache, and if it is still being filled, the fill
is marked. -/
structure Dead (s : BoundedStore) (id : ℕ) : Prop where
  known : id < s.nextId
  gone : ∀ key entry, s.cached.lookup key = some entry → entry.body ≠ id
  marked : ∀ fill, s.temp.lookup id = some fill → fill.invalidated = true

/-! ## What a purge removes -/

variable {s : BoundedStore}

theorem Revises.lookup_eq_none {s' : BoundedStore} (h : s.Revises s')
    {key : Str} (hnone : s.cached.lookup key = none) :
    s'.cached.lookup key = none := by
  by_contra hsome
  obtain ⟨entry', hentry'⟩ := Option.ne_none_iff_exists'.mp hsome
  obtain ⟨entry, hentry, -⟩ := h.kept key entry' hentry'
  simp [hnone] at hentry

theorem lookup_purgeOne_self (state : BoundedStore × Purged) (key : Str) :
    (purgeOne state key).1.cached.lookup key = none := by
  unfold purgeOne
  split
  · assumption
  · simp [discard]

theorem lookup_foldl_purgeOne {key : Str} (keys : List Str)
    (state : BoundedStore × Purged)
    (h : key ∈ keys ∨ state.1.cached.lookup key = none) :
    (keys.foldl purgeOne state).1.cached.lookup key = none := by
  induction keys generalizing state with
  | nil => exact h.resolve_left List.not_mem_nil
  | cons first rest ih =>
      apply ih
      rcases h with hmem | hnone
      · rcases List.mem_cons.mp hmem with rfl | hrest
        · exact .inr (lookup_purgeOne_self state key)
        · exact .inl hrest
      · exact .inr ((revises_purgeOne state first).lookup_eq_none hnone)

/-- Every entry a purge matches is removed. -/
theorem lookup_purgeMatchingLocked {key : Str} {entry : Stored}
    (hentry : s.cached.lookup key = some entry) {hit : Str → Stored → Bool}
    (hhit : hit key entry = true) :
    (s.purgeMatchingLocked hit).1.cached.lookup key = none := by
  have hdoomed : key ∈ s.doomed hit :=
    List.mem_map.mpr ⟨⟨key, entry⟩, List.mem_filter.mpr
      ⟨AssocMap.mem_entries_iff.mpr hentry, hhit⟩, rfl⟩
  have hremoved := lookup_foldl_purgeOne (s.doomed hit) (s, {}) (.inl hdoomed)
  simp only [purgeMatchingLocked]
  split_ifs <;> exact hremoved

/-! ## What stays dead -/

section

variable {id : ℕ} (h : s.Dead id)
include h

theorem Dead.revise {s' : BoundedStore} (hrevises : s.Revises s') :
    s'.Dead id where
  known := hrevises.nextId.symm ▸ h.known
  gone := by
    intro key entry' hentry'
    obtain ⟨entry, hentry, hbody⟩ := hrevises.kept key entry' hentry'
    exact hbody ▸ h.gone key entry hentry
  marked := fun fill hfill => h.marked fill (hrevises.temp ▸ hfill)

theorem Dead.invalidate (hit : Temp → Bool) :
    (s.invalidate hit).Dead id where
  known := h.known
  gone := h.gone
  marked := by
    intro fill' hfill'
    rw [BoundedStore.invalidate, AssocMap.lookup_mapValues,
      Option.map_eq_some_iff] at hfill'
    obtain ⟨fill, hfill, rfl⟩ := hfill'
    split_ifs
    · rfl
    · exact h.marked fill hfill

/-- A new fill gets an id of its own. -/
theorem Dead.register (fill : Temp) :
    (s.register fill).Dead id where
  known := h.known.trans (Nat.lt_succ_self _)
  gone := h.gone
  marked := by
    intro fill' hfill'
    rw [BoundedStore.register, AList.lookup_insert_ne h.known.ne] at hfill'
    exact h.marked fill' hfill'

theorem Dead.unregister (id' : ℕ) :
    (s.unregister id').Dead id where
  known := h.known
  gone := h.gone
  marked := by
    intro fill hfill
    have hne : id ≠ id' := by
      rintro rfl
      simp [BoundedStore.unregister] at hfill
    rw [BoundedStore.unregister, AList.lookup_erase_ne hne] at hfill
    exact h.marked fill hfill

theorem Dead.admitEntry (key : Str) {obj : Stored} (hobj : obj.body ≠ id) :
    (s.admitEntry key obj).Dead id where
  known := (h.revise (s.revises_dropOld key)).known
  gone := by
    intro key' entry hentry
    rcases lookup_admitEntry hentry with ⟨-, rfl⟩ | ⟨-, old, hold, hbody⟩
    · exact hobj
    · exact hbody ▸ h.gone key' old hold
  marked := (h.revise (s.revises_dropOld key)).marked

/-- Bytes and bodies may change. -/
theorem Dead.of_eq {s' : BoundedStore} (hnextId : s'.nextId = s.nextId)
    (hcached : s'.cached = s.cached) (htemp : s'.temp = s.temp) :
    s'.Dead id where
  known := hnextId.symm ▸ h.known
  gone := by
    rw [hcached]
    exact h.gone
  marked := by
    rw [htemp]
    exact h.marked

theorem Dead.charge (amount : ℕ) : (s.charge amount).Dead id :=
  h.of_eq rfl rfl rfl

end

end BoundedStore

namespace System

open BoundedStore

variable {sys : System} {cfg : CacheDefaults}

/-- A purge kills everything it matches. -/
theorem Inv.dead_purge (h : sys.Inv cfg 0) {request : PurgeRequest} {id : ℕ}
    (hmatched : sys.store.Matched request id) :
    (sys.store.purge request).Dead id := by
  rcases purge_cases h.indexed request with
    ⟨-, hnone⟩ | ⟨fillHit, hit, hpurge, hfills, hentries⟩
  · rcases hmatched with ⟨_, _, -, -, hm⟩ | ⟨_, -, -, hm⟩ <;>
      exact absurd hm (hnone _ _ _)
  · have hrevises := revises_purgeMatchingLocked
      (sys.store.invalidate fillHit) hit
    have hregistered : ∀ fill,
        (sys.store.invalidate fillHit).temp.lookup id = some fill →
          id ∈ sys.writers := fun fill hfill =>
      h.registered id
        (AssocMap.mem_mapValues.mp (AssocMap.mem_of_lookup hfill))
    rw [hpurge]
    rcases hmatched with ⟨key, entry, hentry, rfl, hm⟩ | ⟨fill, hfill, -, hm⟩
    · obtain ⟨hlt, hfree⟩ := h.bodies key entry hentry
      refine ⟨hrevises.nextId.symm ▸ hlt, ?_, ?_⟩
      · intro key' entry' hentry' heq
        obtain ⟨old, hold, hbody⟩ := hrevises.kept key' entry' hentry'
        have hkey : key' = key :=
          h.distinct key' key old entry hold hentry (hbody.trans heq)
        have hremoved := lookup_purgeMatchingLocked
          (s := sys.store.invalidate fillHit) hentry
          (hentries key entry hentry hm)
        rw [hkey, hremoved] at hentry'
        cases hentry'
      · intro fill hfill
        exact absurd (hregistered fill (hrevises.temp ▸ hfill)) hfree
    · have hid : id ∈ sys.writers :=
        h.registered id (AssocMap.mem_of_lookup hfill)
      refine ⟨hrevises.nextId.symm ▸ h.fresh id hid, ?_, ?_⟩
      · intro key' entry' hentry' heq
        obtain ⟨old, hold, hbody⟩ := hrevises.kept key' entry' hentry'
        exact (h.bodies key' old hold).2 ((hbody.trans heq).symm ▸ hid)
      · intro fill' hfill'
        rw [hrevises.temp, BoundedStore.invalidate, AssocMap.lookup_mapValues,
          hfill, Option.map_some, if_pos (hfills fill hm)] at hfill'
        exact Option.some.inj hfill' ▸ rfl

/-- What is dead stays dead: the only fill that becomes an entry is not
marked. -/
theorem dead_of_effect {sys' : System} {id : ℕ} (hdead : sys.store.Dead id)
    (heffect : sys.Effect sys') : sys'.store.Dead id := by
  cases heffect with
  | revised hrevises => exact hdead.revise hrevises
  | registered hrevises _ _ _ =>
      exact ((hdead.revise hrevises).charge _).register _
  | appended hrevises _ _ _ _ => exact (hdead.revise hrevises).of_eq rfl rfl rfl
  | abandoned _ => exact (hdead.unregister _).of_eq rfl rfl rfl
  | admitted _ hfill howns hunmarked =>
      refine (hdead.unregister _).admitEntry _ fun heq => ?_
      obtain rfl := howns.body_eq.symm.trans heq
      exact Bool.false_ne_true (hunmarked.symm.trans (hdead.marked _ hfill))
  | purged fillHit hit =>
      exact (hdead.invalidate fillHit).revise
        (revises_purgeMatchingLocked _ hit)

theorem dead_run {id : ℕ} (h : sys.Inv cfg 0) (hdead : sys.store.Dead id)
    (ops : List Op) : (sys.run ops).store.Dead id :=
  h.run_of_effect (fun _ _ heffect hdead => dead_of_effect hdead heffect) hdead
    ops

/-- Once a purge has returned, no body that it matched, cached or being filled
for the cache, is in the cache again, whatever happens next. -/
theorem purge_complete (cfg : CacheDefaults) (before : List Op)
    (request : PurgeRequest) (after : List Op) (id : ℕ)
    (hmatched : ((init cfg).run before).store.Matched request id)
    (key : Str) (entry : Stored)
    (hentry : ((init cfg).run
      (before ++ .purge request :: after)).store.cached.lookup key =
        some entry) : entry.body ≠ id := by
  have h := inv_run cfg before
  have hafter : ((init cfg).run (before ++ .purge request :: after)) =
      (((init cfg).run before).step (.purge request)).run after :=
    run_append _ _ _ _
  rw [hafter] at hentry
  exact (dead_run (h.step (.purge request)) (h.dead_purge hmatched) after).gone
    key entry hentry

/-- A page is purged mid-body; its fill finishes and is not admitted, and the
next fill of the same page is. -/
theorem purge_complete_mid_body :
    ((init {}).run
        [.getMissHandler ⟨['k'], ['/', 'p']⟩ ⟨[], some ([], [])⟩,
          .writeBody 0 [1] false]).store.Matched (.paths [['/', 'p']]) 0 ∧
      ((init {}).run
        ([.getMissHandler ⟨['k'], ['/', 'p']⟩ ⟨[], some ([], [])⟩,
            .writeBody 0 [1] false] ++
          .purge (.paths [['/', 'p']]) ::
          [.writeBody 0 [2] true, .beginFinish 0, .completeFinish 0,
            .getMissHandler ⟨['k'], ['/', 'p']⟩ ⟨[], some ([], [])⟩,
            .writeBody 1 [3] true, .beginFinish 1,
            .completeFinish 1])).store.cached.lookup ['k'] =
          some ⟨([], []), 1, ['/', 'p'], [], false⟩ ∧
      (1 : ℕ) ≠ 0 := by
  have hmatched : ((init {}).run
      [.getMissHandler ⟨['k'], ['/', 'p']⟩ ⟨[], some ([], [])⟩,
        .writeBody 0 [1] false]).store.Matched (.paths [['/', 'p']]) 0 :=
    .inr ⟨⟨['k'], ([], []), 0, false, [], ['/', 'p'], false⟩, rfl, rfl,
      List.mem_singleton_self _, List.cons_ne_nil _ _⟩
  refine ⟨hmatched, ?hentry, purge_complete {} _ _ _ 0 hmatched _ _ ?hentry⟩
  rfl

end System

end Harmost.Cache
