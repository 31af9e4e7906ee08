import Harmost.Cache.Store.Coherence

/-!
# Purges by tags and by paths are exact

What a purge selects goes, and nothing else: every other entry stays as it is
and where it is in the queue, exactly the selected fills are marked, and the
report is what was removed.
-/

namespace Harmost.Cache

open Harmost.Support
open Harmost.Config

namespace BoundedStore

/-- A purge of what has a selected path and tags, and its report. -/
structure PurgesExactly (s : BoundedStore) (result : BoundedStore × Purged)
    (selected : Str → List Str → Bool) : Prop where
  /-- The entries that stay, with everything they have. -/
  entries : ∀ key entry, result.1.cached.lookup key = some entry ↔
    s.cached.lookup key = some entry ∧ selected entry.path entry.tags = false
  bodies : result.1.cells = s.cells
  queue : result.1.order = s.order.filter fun key => key ∈ result.1.cached
  fills : ∀ id, result.1.temp.lookup id = (s.temp.lookup id).map fun fill =>
    if selected fill.path fill.tags then { fill with invalidated := true }
    else fill
  count : result.2.entries + result.1.cached.entries.length =
    s.cached.entries.length
  bytes : result.2.bytes + result.1.used = s.used

variable {s : BoundedStore}

/-- Nothing is selected. -/
theorem Coherent.purgesExactly_none (h : s.Coherent)
    {selected : Str → List Str → Bool}
    (hnone : ∀ path tags, selected path tags = false) :
    s.PurgesExactly (s, {}) selected where
  entries := by simp [hnone]
  bodies := rfl
  queue := by
    symm
    rw [List.filter_eq_self]
    exact fun key hkey => decide_eq_true ((h.mem_order key).mp hkey)
  fills := by simp [hnone]
  count := Nat.zero_add _
  bytes := Nat.zero_add _

theorem Coherent.purgesExactly (h : s.Coherent) {fills : ℕ}
    (hbalanced : s.Balanced fills) {selected : Str → List Str → Bool}
    {fillHit : Temp → Bool} {hit : Str → Stored → Bool}
    (hfills : ∀ fill, fillHit fill = selected fill.path fill.tags)
    (hentries : ∀ key entry, s.cached.lookup key = some entry →
      hit key entry = selected entry.path entry.tags) :
    s.PurgesExactly ((s.invalidate fillHit).purgeMatchingLocked hit)
      selected := by
  have hmarked : (s.invalidate fillHit).Coherent := h.of_eq rfl rfl rfl
  have hrevises := (s.invalidate fillHit).revises_purgeMatchingLocked hit
  have hafter := (hrevises.balanced fills (hbalanced.invalidate _)).used_eq
  obtain ⟨removed, hremoves, heq⟩ :=
    (s.invalidate fillHit).removes_purgeMatchingLocked hit
  have hcached : ((s.invalidate fillHit).purgeMatchingLocked hit).1.cached =
      removed.cached := by rw [heq]
  have hkept : ∀ key entry, removed.cached.lookup key = some entry ↔
      s.cached.lookup key = some entry ∧
        selected entry.path entry.tags = false := by
    intro key entry
    rw [hremoves.lookup, mem_doomed]
    refine and_congr_right fun hentry => ?_
    have hold : s.cached.lookup key = some entry := hentry
    simp [hentry, hentries key entry hold]
  refine ⟨fun key entry => hcached ▸ hkept key entry, hrevises.cells, ?_,
    fun id => ?_, ?_, ?_⟩
  · rw [hcached, heq]
    refine List.filter_congr fun key hkey => ?_
    have hmem : key ∈ (s.invalidate fillHit).cached := (h.mem_order key).mp hkey
    rw [Bool.eq_iff_iff, decide_eq_true_iff, hremoves.mem_cached]
    simpa using fun _ => hmem
  · rw [hrevises.temp]
    refine (AssocMap.lookup_mapValues _ _ id).trans ?_
    simp only [hfills]
  · rw [hcached]
    exact hremoves.entries.trans (Nat.zero_add _)
  · have hbefore : s.used = (s.invalidate fillHit).cachedBytes + fills :=
      hbalanced.used_eq
    have hbytes := hremoves.bytes
    have hrest : cachedBytes
        ((s.invalidate fillHit).purgeMatchingLocked hit).1 =
          removed.cachedBytes := by
      rw [heq]
      rfl
    dsimp only at hbytes
    omega

/-- The tags that a purge asks for select through the index. -/
theorem Coherent.mem_victims (h : s.Coherent) {tags : List Str} {key : Str}
    {entry : Stored} (hentry : s.cached.lookup key = some entry) :
    decide (key ∈ tags.foldr (fun tag keys => s.tagIndex.keysOf tag ∪ keys) ∅) =
      entry.tags.any fun tag => tags.contains tag := by
  rw [Bool.eq_iff_iff, decide_eq_true_iff, mem_foldr_keysOf, List.any_eq_true]
  simp only [h.index.mem_keysOf, hentry, List.contains_iff_mem]
  constructor
  · rintro ⟨tag, hwanted, entry', heq, hcarried⟩
    cases heq
    exact ⟨tag, hcarried, hwanted⟩
  · rintro ⟨tag, hcarried, hwanted⟩
    exact ⟨tag, hwanted, entry, rfl, hcarried⟩

theorem contains_filter_nonempty (texts : List Str) (text : Str) :
    (texts.filter fun t => !t.isEmpty).contains text =
      (!text.isEmpty && texts.contains text) := by
  rw [Bool.eq_iff_iff]
  simp [and_comm]

theorem Coherent.purgesExactly_tags (h : s.Coherent) {fills : ℕ}
    (hbalanced : s.Balanced fills) (tags : List Str) :
    s.PurgesExactly (s.purgeTags tags) fun _ carried =>
      carried.any fun tag => !tag.isEmpty && tags.contains tag := by
  rw [purgeTags]
  simp only [← contains_filter_nonempty]
  split_ifs with hnone
  · rw [List.isEmpty_iff] at hnone
    exact h.purgesExactly_none fun _ _ => by simp [hnone]
  · exact h.purgesExactly hbalanced (fun _ => rfl)
      fun _ _ hentry => h.mem_victims hentry

theorem Coherent.purgesExactly_paths (h : s.Coherent) {fills : ℕ}
    (hbalanced : s.Balanced fills) (paths : List Str) :
    s.PurgesExactly (s.purgePaths paths) fun path _ =>
      !path.isEmpty && paths.contains path := by
  rw [purgePaths]
  simp only [← contains_filter_nonempty]
  split_ifs with hnone
  · rw [List.isEmpty_iff] at hnone
    exact h.purgesExactly_none fun _ _ => by simp [hnone]
  · exact h.purgesExactly hbalanced (fun _ => rfl) fun _ _ _ => rfl

/-- A purge by one tag removes an entry exactly when the entry carries it. -/
theorem Coherent.purgeTags_singleton_iff (h : s.Coherent) {fills : ℕ}
    (hbalanced : s.Balanced fills) {key : Str} {entry : Stored}
    (hentry : s.cached.lookup key = some entry) {tag : Str} (hne : tag ≠ []) :
    (s.purgeTags [tag]).1.cached.lookup key = none ↔ tag ∈ entry.tags := by
  have hexact := (h.purgesExactly_tags hbalanced [tag]).entries key
  have hselected : (entry.tags.any fun carried =>
      !carried.isEmpty && [tag].contains carried) = true ↔
        tag ∈ entry.tags := by
    rw [List.any_eq_true]
    constructor
    · rintro ⟨carried, hcarried, hboth⟩
      simp only [Bool.and_eq_true, List.contains_iff_mem,
        List.mem_singleton] at hboth
      exact hboth.2 ▸ hcarried
    · intro hmem
      exact ⟨tag, hmem, by simp [hne]⟩
  rw [← hselected]
  constructor
  · intro hnone
    by_contra hkept
    have hstays := (hexact entry).mpr
      ⟨hentry, (Bool.not_eq_true _).mp hkept⟩
    rw [hnone] at hstays
    cases hstays
  · intro hgone
    cases hresult : (s.purgeTags [tag]).1.cached.lookup key with
    | none => rfl
    | some entry' =>
        obtain ⟨hsame, hkept⟩ := (hexact entry').mp hresult
        obtain rfl : entry = entry' := Option.some.inj (hentry ▸ hsame)
        rw [hgone] at hkept
        cases hkept

end BoundedStore

namespace System

open BoundedStore

/-- In every reachable state, a purge by tags removes exactly the entries that
carry one of the non-empty tags, a purge by paths exactly those with one of the
non-empty paths, and both report exactly what they removed. -/
theorem purges_exact (cfg : CacheDefaults) (ops : List Op) :
    let s := ((init cfg).run ops).store
    (∀ tags, s.PurgesExactly (s.purgeTags tags) fun _ carried =>
      carried.any fun tag => !tag.isEmpty && tags.contains tag) ∧
      ∀ paths, s.PurgesExactly (s.purgePaths paths) fun path _ =>
        !path.isEmpty && paths.contains path := by
  intro s
  have h : s.Coherent := coherent_run cfg ops
  have hbalanced := (inv_run cfg ops).balanced
  exact ⟨h.purgesExactly_tags hbalanced, h.purgesExactly_paths hbalanced⟩

end System

end Harmost.Cache
