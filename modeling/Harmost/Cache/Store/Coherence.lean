import Harmost.Cache.Store.Invariant

/-!
# The queue and the index agree with the map

The eviction queue lists every finished entry once, and the reverse index leads
from a tag to exactly the entries that carry it.  Both hold between any two
operations.  Inside a purge the queue lags behind the map, so the facts about
the index are kept apart from those about the queue.
-/

namespace Harmost.Cache

open Harmost.Support
open Harmost.Config

/-! ## The index -/

/-- The keys under a tag are those of the entries that carry it, and no tag is
kept for nothing. -/
structure ExactIndex (index : TagIndex) (cached : AssocMap Str Stored) :
    Prop where
  mem_keysOf : ∀ tag key, key ∈ index.keysOf tag ↔
    ∃ entry, cached.lookup key = some entry ∧ tag ∈ entry.tags
  nonempty : ∀ tag keys, index.lookup tag = some keys → keys.Nonempty

theorem nonempty_unindexTags {key : Str} (tags : List Str) {index : TagIndex}
    (h : ∀ tag keys, index.lookup tag = some keys → keys.Nonempty) :
    ∀ tag keys, (unindexTags index key tags).lookup tag = some keys →
      keys.Nonempty := by
  induction tags generalizing index with
  | nil => exact h
  | cons first rest ih =>
      rw [unindexTags]
      split
      · exact ih h
      · split_ifs with hempty
        · refine ih fun tag keys hkeys => ?_
          by_cases htag : tag = first
          · rw [htag, AList.lookup_erase] at hkeys
            cases hkeys
          · exact h tag keys ((AList.lookup_erase_ne htag).symm.trans hkeys)
        · refine ih fun tag keys hkeys => ?_
          rcases AssocMap.lookup_insert_cases hkeys with ⟨-, rfl⟩ | ⟨-, hold⟩
          · exact Finset.nonempty_iff_ne_empty.mpr hempty
          · exact h tag keys hold

theorem nonempty_indexTags {key : Str} (tags : List Str) {index : TagIndex}
    (h : ∀ tag keys, index.lookup tag = some keys → keys.Nonempty) :
    ∀ tag keys, (indexTags index key tags).lookup tag = some keys →
      keys.Nonempty := by
  induction tags generalizing index with
  | nil => exact h
  | cons first rest ih =>
      refine ih fun tag keys hkeys => ?_
      rcases AssocMap.lookup_insert_cases hkeys with ⟨-, rfl⟩ | ⟨-, hold⟩
      · exact Finset.insert_nonempty _ _
      · exact h tag keys hold

namespace ExactIndex

variable {index : TagIndex} {cached cached' : AssocMap Str Stored}

/-- Only the tags of the entries matter. -/
theorem congr (h : ExactIndex index cached)
    (heq : ∀ key, (cached'.lookup key).map Stored.tags =
      (cached.lookup key).map Stored.tags) : ExactIndex index cached' where
  mem_keysOf := by
    intro tag key
    rw [h.mem_keysOf]
    have hkey := heq key
    cases hold : cached.lookup key with
    | none =>
        rw [hold] at hkey
        rw [Option.map_eq_none_iff.mp hkey]
    | some entry =>
        rw [hold] at hkey
        obtain ⟨entry', hnew, htags⟩ := Option.map_eq_some_iff.mp hkey
        simp [hnew, htags]
  nonempty := h.nonempty

theorem erase (h : ExactIndex index cached) {key : Str} {entry : Stored}
    (hentry : cached.lookup key = some entry) :
    ExactIndex (unindexTags index key entry.tags) (cached.erase key) where
  mem_keysOf := by
    intro tag other
    rw [mem_keysOf_unindexTags, h.mem_keysOf]
    by_cases hother : other = key
    · subst hother
      simp [hentry]
    · simp [AList.lookup_erase_ne hother, hother]
  nonempty := nonempty_unindexTags _ h.nonempty

theorem insert (h : ExactIndex index cached) {key : Str} (hkey : key ∉ cached)
    (obj : Stored) :
    ExactIndex (indexTags index key obj.tags) (cached.insert key obj) where
  mem_keysOf := by
    intro tag other
    rw [mem_keysOf_indexTags, h.mem_keysOf]
    by_cases hother : other = key
    · subst hother
      simp [AList.lookup_eq_none.mpr hkey]
    · simp [AList.lookup_insert_ne hother, hother]
  nonempty := nonempty_indexTags _ h.nonempty

/-- An entry is replaced: out of the index with the old tags, in with the
new. -/
theorem replace (h : ExactIndex index cached) {key : Str} {entry : Stored}
    (hentry : cached.lookup key = some entry) (obj : Stored) :
    ExactIndex (indexTags (unindexTags index key entry.tags) key obj.tags)
      (cached.insert key obj) := by
  refine ((h.erase hentry).insert (by simp [AList.mem_erase]) obj).congr ?_
  intro other
  by_cases hother : other = key
  · subst hother
    simp
  · rw [AList.lookup_insert_ne hother, AList.lookup_insert_ne hother,
      AList.lookup_erase_ne hother]

end ExactIndex

/-! ## The queue -/

namespace BoundedStore

/-- The queue lists the finished entries, each once, and the index is exact. -/
structure Coherent (s : BoundedStore) : Prop where
  nodup : s.order.Nodup
  mem_order : ∀ key, key ∈ s.order ↔ key ∈ s.cached
  index : ExactIndex s.tagIndex s.cached

theorem coherent_new (cfg : CacheDefaults) : (new cfg).Coherent where
  nodup := List.nodup_nil
  mem_order := by
    intro key
    simp [new]
  index := ⟨by simp [new, TagIndex.keysOf], by simp [new]⟩

section Coherent

variable {s s' : BoundedStore}

/-- Coherence is about the queue, the map and the index only. -/
theorem Coherent.of_eq (h : s.Coherent) (horder : s'.order = s.order)
    (hcached : s'.cached = s.cached) (hindex : s'.tagIndex = s.tagIndex) :
    s'.Coherent :=
  ⟨horder ▸ h.nodup, horder ▸ hcached ▸ h.mem_order,
    hindex ▸ hcached ▸ h.index⟩

theorem mem_setVisited (key key' : Str) (visited : Bool) :
    key' ∈ (s.setVisited key visited).cached ↔ key' ∈ s.cached := by
  unfold setVisited
  split
  · rfl
  · rename_i entry hentry
    rw [AList.mem_insert, or_iff_right_of_imp]
    rintro rfl
    exact AssocMap.mem_of_lookup hentry

theorem tags_setVisited (key key' : Str) (visited : Bool) :
    ((s.setVisited key visited).cached.lookup key').map Stored.tags =
      (s.cached.lookup key').map Stored.tags := by
  unfold setVisited
  split
  · rfl
  · rename_i entry hentry
    by_cases hkey : key' = key
    · subst hkey
      simp [hentry]
    · simp [AList.lookup_insert_ne hkey]

theorem order_setVisited (key : Str) (visited : Bool) :
    (s.setVisited key visited).order = s.order ∧
      (s.setVisited key visited).tagIndex = s.tagIndex := by
  unfold setVisited
  split <;> exact ⟨rfl, rfl⟩

section

variable (h : s.Coherent)
include h

theorem Coherent.setVisited (key : Str) (visited : Bool) :
    (s.setVisited key visited).Coherent where
  nodup := by
    rw [(order_setVisited key visited).1]
    exact h.nodup
  mem_order := by
    intro key'
    rw [mem_setVisited, (order_setVisited key visited).1]
    exact h.mem_order key'
  index := by
    rw [(order_setVisited key visited).2]
    exact h.index.congr fun key' => tags_setVisited key key' visited

/-- The first of the queue is a finished entry. -/
theorem Coherent.lookup_ne_none {victim : Str} {rest : List Str}
    (horder : s.order = victim :: rest) : s.cached.lookup victim ≠ none := by
  intro hnone
  have hmem : victim ∈ s.cached := (h.mem_order victim).mp (by simp [horder])
  exact AList.lookup_eq_none.mp hnone hmem

/-- The first of the queue is spared and queued again. -/
theorem Coherent.rotate {victim : Str} {rest : List Str}
    (horder : s.order = victim :: rest) :
    Coherent { s with order := rest ++ [victim] } := by
  have hperm : (rest ++ [victim]).Perm s.order := by
    rw [horder]
    exact List.perm_append_singleton victim rest
  exact ⟨hperm.nodup_iff.mpr h.nodup,
    fun key => hperm.mem_iff.trans (h.mem_order key), h.index⟩

/-- The first of the queue is evicted. -/
theorem Coherent.evict {victim : Str} {rest : List Str}
    (horder : s.order = victim :: rest) {entry : Stored}
    (hentry : s.cached.lookup victim = some entry) (evicted : ℕ) :
    Coherent { s.discard victim entry with
      order := rest
      evicted := evicted } := by
  have hnodup := h.nodup
  rw [horder, List.nodup_cons] at hnodup
  refine ⟨hnodup.2, fun key => ?_, h.index.erase hentry⟩
  have hmem := h.mem_order key
  rw [horder, List.mem_cons] at hmem
  change key ∈ rest ↔ key ∈ s.cached.erase victim
  rw [AList.mem_erase, ← hmem]
  constructor
  · intro hrest
    exact ⟨fun heq => hnodup.1 (heq ▸ hrest), .inr hrest⟩
  · rintro ⟨hne, rfl | hrest⟩
    · exact absurd rfl hne
    · exact hrest

theorem Coherent.makeRoom (additional turns chances : ℕ) :
    (makeRoom additional turns chances s).1.Coherent := by
  induction turns generalizing chances s with
  | zero => exact h
  | succ turns ih =>
      rw [BoundedStore.makeRoom]
      split_ifs with hfits
      · exact h
      · split
        · exact h
        · rename_i victim rest horder
          have hspare := h.setVisited victim false
          split_ifs with hspared
          · refine ih (hspare.rotate ?_) _
            rw [(order_setVisited victim false).1, horder]
          · split
            · rename_i hnone
              exact absurd hnone (h.lookup_ne_none horder)
            · rename_i entry hentry
              exact ih (h.evict horder hentry _) _

theorem Coherent.reserve (additional : ℕ) :
    (s.reserve additional).1.Coherent := by
  rw [BoundedStore.reserve]
  split_ifs with hmax
  · exact h
  · have hroom := h.makeRoom additional (s.order.length + s.chances) s.chances
    split
    · rename_i s' heq
      rw [heq] at hroom
      exact hroom.of_eq rfl rfl rfl
    · rename_i s' heq
      rwa [heq] at hroom

theorem Coherent.dropOld (key : Str) : (s.dropOld key).Coherent := by
  unfold BoundedStore.dropOld
  split
  · exact h
  · rename_i old hold
    refine ⟨h.nodup.filter _, fun key' => ?_, h.index.erase hold⟩
    change key' ∈ s.order.filter (fun k => k != key) ↔
      key' ∈ s.cached.erase key
    rw [AList.mem_erase, List.mem_filter, h.mem_order, bne_iff_ne, and_comm]

theorem Coherent.admitEntry (key : Str) (obj : Stored) :
    (s.admitEntry key obj).Coherent := by
  have hdropped := h.dropOld key
  have hkey : key ∉ (s.dropOld key).cached := s.notMem_dropOld key
  rw [admitEntry_eq]
  refine ⟨?_, fun key' => ?_, hdropped.index.insert hkey obj⟩
  · refine List.nodup_append'.mpr ⟨hdropped.nodup, List.nodup_singleton key, ?_⟩
    rwa [List.disjoint_singleton, hdropped.mem_order]
  · rw [List.mem_append, List.mem_singleton, AList.mem_insert,
      hdropped.mem_order, or_comm]

theorem Coherent.replace {key : Str} {entry : Stored}
    (hentry : s.cached.lookup key = some entry) (obj : Stored) (used : ℕ)
    (clamped : Bool) :
    Coherent
      { s with
        cached := s.cached.insert key obj
        tagIndex :=
          indexTags (unindexTags s.tagIndex key entry.tags) key obj.tags
        used := used
        clamped := clamped } where
  nodup := h.nodup
  mem_order := by
    intro key'
    rw [AList.mem_insert, h.mem_order, or_iff_right_of_imp]
    rintro rfl
    exact AssocMap.mem_of_lookup hentry
  index := h.index.replace hentry obj

theorem Coherent.updateMeta (key : StoreKey) (m : EntryMeta) :
    (s.updateMeta key m).1.Coherent := by
  unfold BoundedStore.updateMeta
  split
  · exact h
  · rename_i replacement _
    simp only []
    split
    · exact h
    · rename_i obj hobj
      split_ifs
      · exact h
      · exact h.replace hobj { obj with
          serialized := replacement, tags := s.declaredTags m.headers } _ _
      · exact h.replace hobj { obj with
          serialized := replacement, tags := s.declaredTags m.headers } _ _

end

end Coherent

/-! ## Removing entries -/

/-- Entries are taken out of the map and the index, and counted; the queue is
left to the end of the purge. -/
structure Removes (keys : List Str) (state state' : BoundedStore × Purged) :
    Prop where
  lookup : ∀ key entry, state'.1.cached.lookup key = some entry ↔
    state.1.cached.lookup key = some entry ∧ key ∉ keys
  order : state'.1.order = state.1.order
  entries : state'.2.entries + state'.1.cached.entries.length =
    state.2.entries + state.1.cached.entries.length
  bytes : state'.2.bytes + state'.1.cachedBytes =
    state.2.bytes + state.1.cachedBytes
  index : ExactIndex state.1.tagIndex state.1.cached →
    ExactIndex state'.1.tagIndex state'.1.cached

theorem Removes.mem_cached {keys : List Str}
    {state state' : BoundedStore × Purged} (h : Removes keys state state')
    (key : Str) :
    key ∈ state'.1.cached ↔ key ∈ state.1.cached ∧ key ∉ keys := by
  simp only [← AList.lookup_isSome, Option.isSome_iff_exists, h.lookup]
  simp

theorem removes_purgeOne (state : BoundedStore × Purged) (key : Str) :
    Removes [key] state (purgeOne state key) := by
  unfold purgeOne
  split
  · rename_i hnone
    refine ⟨fun key' entry => ?_, rfl, rfl, rfl, id⟩
    rw [List.mem_singleton, iff_self_and]
    rintro hentry rfl
    exact absurd (hnone.symm.trans hentry) (by simp)
  · rename_i entry hentry
    refine ⟨fun key' entry' => ?_, rfl, ?_, ?_, fun h => h.erase hentry⟩
    · change (state.1.cached.erase key).lookup key' = some entry' ↔ _
      rw [List.mem_singleton]
      by_cases hkey : key' = key
      · subst hkey
        simp
      · simp [AList.lookup_erase_ne hkey, hkey]
    · have hcount := AssocMap.length_erase hentry
      change state.2.entries + 1 + (state.1.cached.erase key).entries.length = _
      omega
    · have htotal := AssocMap.total_erase
        (fun (_ : Str) (e : Stored) => e.size state.1.cells) hentry
      simp only [cachedBytes, discard, release]
      omega

theorem removes_foldl (keys : List Str) (state : BoundedStore × Purged) :
    Removes keys state (keys.foldl purgeOne state) := by
  induction keys generalizing state with
  | nil => exact ⟨by simp, rfl, rfl, rfl, id⟩
  | cons key keys ih =>
      have hfirst := removes_purgeOne state key
      have hrest := ih (purgeOne state key)
      refine ⟨fun key' entry => ?_, hrest.order.trans hfirst.order,
        hrest.entries.trans hfirst.entries, hrest.bytes.trans hfirst.bytes,
        fun h => hrest.index (hfirst.index h)⟩
      rw [List.foldl_cons, hrest.lookup, hfirst.lookup, List.mem_singleton,
        List.mem_cons, not_or, and_assoc]

theorem mem_doomed {s : BoundedStore} {hit : Str → Stored → Bool} {key : Str} :
    key ∈ s.doomed hit ↔
      ∃ entry, s.cached.lookup key = some entry ∧ hit key entry = true := by
  simp only [doomed, List.mem_map, List.mem_filter]
  constructor
  · rintro ⟨⟨key, entry⟩, ⟨hmem, hhit⟩, rfl⟩
    exact ⟨entry, AssocMap.mem_entries_iff.mp hmem, hhit⟩
  · rintro ⟨entry, hentry, hhit⟩
    exact ⟨⟨key, entry⟩, ⟨AssocMap.mem_entries_iff.mpr hentry, hhit⟩, rfl⟩

/-- The queue loses the keys of the entries that were removed. -/
theorem removes_purgeMatchingLocked (s : BoundedStore)
    (hit : Str → Stored → Bool) :
    ∃ removed : BoundedStore, Removes (s.doomed hit) (s, {})
        (removed, (s.purgeMatchingLocked hit).2) ∧
      (s.purgeMatchingLocked hit).1 =
        { removed with
          order := s.order.filter fun key => !(s.doomed hit).contains key
          purged :=
            removed.purged + (s.purgeMatchingLocked hit).2.entries } := by
  have hremoves := removes_foldl (s.doomed hit) (s, {})
  simp only [purgeMatchingLocked]
  split_ifs with hnone
  · rw [List.isEmpty_iff] at hnone
    rw [hnone] at hremoves ⊢
    exact ⟨s, hremoves, by simp⟩
  · exact ⟨_, hremoves, by rw [hremoves.order]⟩

/-- Nothing is left of a store that was purged of everything. -/
theorem entries_purgeAll (s : BoundedStore) :
    s.purgeAll.1.cached.entries = [] := by
  obtain ⟨removed, hremoves, heq⟩ :=
    (s.invalidate fun _ => true).removes_purgeMatchingLocked fun _ _ => true
  rw [purgeAll, heq]
  refine List.eq_nil_iff_forall_not_mem.mpr ?_
  rintro ⟨key, entry⟩ hmem
  obtain ⟨hentry, hkept⟩ :=
    (hremoves.lookup key entry).mp (AssocMap.mem_entries_iff.mp hmem)
  exact hkept (mem_doomed.mpr ⟨entry, hentry, rfl⟩)

section

variable {s : BoundedStore} (h : s.Coherent)
include h

theorem Coherent.purgeMatchingLocked (hit : Str → Stored → Bool) :
    (s.purgeMatchingLocked hit).1.Coherent := by
  obtain ⟨removed, hremoves, heq⟩ := s.removes_purgeMatchingLocked hit
  rw [heq]
  refine ⟨h.nodup.filter _, fun key => ?_, hremoves.index h.index⟩
  change key ∈ s.order.filter _ ↔ key ∈ removed.cached
  rw [hremoves.mem_cached, List.mem_filter, h.mem_order]
  simp

theorem Coherent.purge (request : PurgeRequest) :
    (s.purge request).Coherent := by
  have hpurged : ∀ (fillHit : Temp → Bool) (hit : Str → Stored → Bool),
      ((s.invalidate fillHit).purgeMatchingLocked hit).1.Coherent := by
    intro fillHit hit
    have hmarked : (s.invalidate fillHit).Coherent := h.of_eq rfl rfl rfl
    exact hmarked.purgeMatchingLocked hit
  cases request with
  | tags tags =>
      simp only [BoundedStore.purge, purgeTags]
      split_ifs
      · exact h
      · exact hpurged _ _
  | paths paths =>
      simp only [BoundedStore.purge, purgePaths]
      split_ifs
      · exact h
      · exact hpurged _ _
  | all | key => exact hpurged _ _

/-! ## The life of a fill -/

theorem Coherent.lookup (combined : Str) : (s.lookup combined).1.Coherent := by
  unfold BoundedStore.lookup
  split
  · exact h.setVisited combined true
  · exact h

theorem Coherent.getMissHandler (key : StoreKey) (m : EntryMeta) :
    (s.getMissHandler key m).1.Coherent := by
  simp only [BoundedStore.getMissHandler]
  split
  · exact h
  · rename_i serialized _
    generalize metaBytes serialized + _ + _ = amount
    have hreserved := h.reserve amount
    split
    · rename_i heq
      rwa [heq] at hreserved
    · rename_i heq
      rw [heq] at hreserved
      exact hreserved.of_eq rfl rfl rfl

theorem Coherent.writeBody (handle : FollowableMiss) (data : List UInt8)
    (eof : Bool) : (s.writeBody handle data eof).1.Coherent := by
  have hreserved : (if data.isEmpty then (s, true)
      else s.reserve data.length).1.Coherent := by
    split_ifs
    · exact h
    · exact h.reserve _
  simp only [BoundedStore.writeBody]
  split
  · rename_i heq
    rwa [heq] at hreserved
  · rename_i heq
    rw [heq] at hreserved
    exact hreserved.of_eq rfl rfl rfl

theorem Coherent.removeTemp (key : Str) (id : ℕ) :
    (s.removeTemp key id).1.Coherent := by
  unfold BoundedStore.removeTemp
  split
  · exact h
  · exact h.of_eq rfl rfl rfl

theorem Coherent.abandon (handle : FollowableMiss) :
    (s.abandon handle).Coherent := by
  have hremoved := h.removeTemp handle.key handle.id
  rw [BoundedStore.abandon]
  split
  · rename_i heq
    rw [heq] at hremoved
    exact hremoved.of_eq rfl rfl rfl
  · rename_i heq
    rwa [heq] at hremoved

theorem Coherent.completeFinish (handle : FollowableMiss) :
    (s.completeFinish handle).Coherent := by
  have hremoved := h.removeTemp handle.key handle.id
  rw [BoundedStore.completeFinish]
  split
  · rename_i heq
    rwa [heq] at hremoved
  · rename_i heq
    rw [heq] at hremoved
    split_ifs
    · exact hremoved.of_eq rfl rfl rfl
    · exact hremoved.admitEntry _ _

end

end BoundedStore

namespace System

open BoundedStore

theorem coherent_step {sys : System} (h : sys.store.Coherent) (op : Op) :
    (sys.step op).store.Coherent := by
  cases op with
  | getMissHandler key m =>
      have hstore := h.getMissHandler key m
      rw [step]
      split
      all_goals
        rename_i heq
        rwa [heq] at hstore
  | writeBody id data eof =>
      rw [step]
      split
      · exact h
      · exact h.writeBody _ data eof
  | beginFinish id =>
      rw [step]
      split
      · exact h
      · rename_i handle _
        have hstore : (sys.store.beginFinish handle).1.Coherent :=
          h.of_eq rfl rfl rfl
        split
        · rename_i heq
          rw [heq] at hstore
          exact hstore.abandon handle
        · rename_i heq
          rwa [heq] at hstore
        · rename_i heq
          rwa [heq] at hstore
  | completeFinish id =>
      rw [step]
      split
      · exact h
      · exact h.completeFinish _
  | drop | expire =>
      rw [step]
      split
      · exact h
      · exact h.abandon _
  | updateMeta key m => exact h.updateMeta key m
  | lookup combined => exact h.lookup combined
  | purge request => exact h.purge request

theorem coherent_run (cfg : CacheDefaults) (ops : List Op) :
    ((init cfg).run ops).store.Coherent :=
  run_invariant (P := fun sys : System => sys.store.Coherent)
    (fun _ op h => coherent_step h op) (coherent_new cfg) ops

/-- After any operations, the eviction queue has no duplicates and holds
exactly the keys of the finished entries, and the index has exactly the tags
that some entry carries, each with exactly the keys of the entries that carry
it. -/
theorem run_queue_and_index (cfg : CacheDefaults) (ops : List Op) :
    let store := ((init cfg).run ops).store
    store.order.Nodup ∧ (∀ key, key ∈ store.order ↔ key ∈ store.cached) ∧
      ∀ tag,
        (tag ∈ store.tagIndex ↔ ∃ key entry,
          store.cached.lookup key = some entry ∧ tag ∈ entry.tags) ∧
        ∀ keys, store.tagIndex.lookup tag = some keys → ∀ key, key ∈ keys ↔
          ∃ entry, store.cached.lookup key = some entry ∧ tag ∈ entry.tags := by
  intro store
  have h : store.Coherent := coherent_run cfg ops
  refine ⟨h.nodup, h.mem_order, fun tag => ⟨?_, fun keys hkeys key => ?_⟩⟩
  · rw [← AList.lookup_isSome, Option.isSome_iff_exists]
    constructor
    · rintro ⟨keys, hkeys⟩
      obtain ⟨key, hkey⟩ := h.index.nonempty tag keys hkeys
      exact ⟨key, (h.index.mem_keysOf tag key).mp
        (by rw [TagIndex.keysOf, hkeys]; exact hkey)⟩
    · rintro ⟨key, hcarried⟩
      have hmem := (h.index.mem_keysOf tag key).mpr hcarried
      rw [TagIndex.keysOf] at hmem
      cases hkeys : store.tagIndex.lookup tag with
      | none => simp [hkeys] at hmem
      | some keys => exact ⟨keys, rfl⟩
  · rw [← h.index.mem_keysOf, TagIndex.keysOf, hkeys]
    rfl

end System

end Harmost.Cache
