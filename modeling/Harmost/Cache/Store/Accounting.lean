import Harmost.Cache.Store.Operations

/-!
# Accounting for bytes and tags

Evictions, purges and revalidations only ever take finished entries out or
replace their metadata.  `Revises` says once what that leaves alone and what it
keeps true: the budget stays balanced, and every tag of an entry stays indexed.
-/

namespace Harmost.Cache

open Harmost.Support

/-! ## The tag index -/

namespace TagIndex

theorem keysOf_insert (index : TagIndex) (tag tag' : Str) (keys : Finset Str) :
    keysOf (index.insert tag keys) tag' =
      if tag' = tag then keys else keysOf index tag' := by
  by_cases htag : tag' = tag
  · subst htag
    simp [keysOf]
  · simp [keysOf, AList.lookup_insert_ne htag, htag]

theorem keysOf_erase (index : TagIndex) (tag tag' : Str) :
    keysOf (index.erase tag) tag' =
      if tag' = tag then ∅ else keysOf index tag' := by
  by_cases htag : tag' = tag
  · subst htag
    simp [keysOf]
  · simp [keysOf, AList.lookup_erase_ne htag, htag]

end TagIndex

/-- Unindexing a key takes it, and nothing else, from under the given tags. -/
theorem mem_keysOf_unindexTags {key other : Str} (tags : List Str)
    (index : TagIndex) (tag : Str) :
    other ∈ TagIndex.keysOf (unindexTags index key tags) tag ↔
      other ∈ TagIndex.keysOf index tag ∧ ¬(other = key ∧ tag ∈ tags) := by
  induction tags generalizing index with
  | nil => simp [unindexTags]
  | cons first rest ih =>
      rw [unindexTags]
      split
      · rename_i hnone
        rw [ih]
        by_cases htag : tag = first
        · subst htag
          simp [TagIndex.keysOf, hnone]
        · simp [htag]
      · rename_i keys hkeys
        have hfirst : TagIndex.keysOf index first = keys := by
          rw [TagIndex.keysOf, hkeys]
          rfl
        split_ifs with hempty
        · rw [ih, TagIndex.keysOf_erase]
          by_cases htag : tag = first
          · subst htag
            have : other ∈ keys → other = key := fun hmem => by
              by_contra hne
              have : other ∈ keys.erase key := Finset.mem_erase.mpr ⟨hne, hmem⟩
              simp [hempty] at this
            rw [hfirst]
            simpa using this
          · simp [htag]
        · rw [ih, TagIndex.keysOf_insert]
          by_cases htag : tag = first
          · subst htag
            rw [hfirst, if_pos rfl, Finset.mem_erase]
            simp only [List.mem_cons, true_or, and_true]
            tauto
          · simp [htag]

/-- Indexing a key adds it, and nothing else, under the given tags. -/
theorem mem_keysOf_indexTags {key other : Str} (tags : List Str)
    (index : TagIndex) (tag : Str) :
    other ∈ TagIndex.keysOf (indexTags index key tags) tag ↔
      other ∈ TagIndex.keysOf index tag ∨ (other = key ∧ tag ∈ tags) := by
  induction tags generalizing index with
  | nil => simp [indexTags]
  | cons first rest ih =>
      rw [indexTags, ih, TagIndex.keysOf_insert]
      by_cases htag : tag = first
      · subst htag
        rw [if_pos rfl, Finset.mem_insert]
        simp only [List.mem_cons, true_or, and_true]
        tauto
      · simp [htag]

/-! ## Balance -/

namespace BoundedStore

/-- The bytes of all finished entries. -/
def cachedBytes (s : BoundedStore) : ℕ :=
  AssocMap.total (fun _ entry => entry.size s.cells) s.cached

/-- The budget is balanced: `used` counts the finished entries and `fills`
bytes of fills in progress, within the limit, and was never clamped. -/
structure Balanced (s : BoundedStore) (fills : ℕ) : Prop where
  used_eq : s.used = s.cachedBytes + fills
  le_max : s.used ≤ s.maxBytes
  exact : s.clamped = false

variable {s : BoundedStore}

/-- Cells that hold no finished body may change. -/
theorem Balanced.of_cells {s' : BoundedStore} {fills : ℕ} (h : s.Balanced fills)
    (hcached : s'.cached = s.cached) (hused : s'.used = s.used)
    (hmax : s'.maxBytes = s.maxBytes) (hclamped : s'.clamped = s.clamped)
    (hcells : ∀ key entry, s.cached.lookup key = some entry →
      s'.cells entry.body = s.cells entry.body) : s'.Balanced fills := by
  have hbytes : s'.cachedBytes = s.cachedBytes := by
    rw [cachedBytes, hcached, cachedBytes]
    refine AssocMap.total_congr fun key entry hentry => ?_
    rw [Stored.size, Stored.size, hcells key entry hentry]
  exact ⟨by rw [hused, hbytes, h.used_eq], hused ▸ hmax ▸ h.le_max,
    hclamped.trans h.exact⟩

/-- Every tag of a finished entry leads to it. -/
def Indexed (s : BoundedStore) : Prop :=
  ∀ key entry, s.cached.lookup key = some entry →
    ∀ tag ∈ entry.tags, key ∈ s.tagIndex.keysOf tag

/-- What evictions, purges and revalidations do: finished entries leave or get
new metadata, and nothing moves that a fill depends on. -/
structure Revises (s s' : BoundedStore) : Prop where
  maxBytes : s'.maxBytes = s.maxBytes
  tagHeader : s'.tagHeader = s.tagHeader
  temp : s'.temp = s.temp
  nextId : s'.nextId = s.nextId
  cells : s'.cells = s.cells
  kept : ∀ key entry', s'.cached.lookup key = some entry' →
    ∃ entry, s.cached.lookup key = some entry ∧ entry.body = entry'.body
  balanced : ∀ fills, s.Balanced fills → s'.Balanced fills
  indexed : s.Indexed → s'.Indexed

theorem Revises.refl (s : BoundedStore) : s.Revises s where
  maxBytes := rfl
  tagHeader := rfl
  temp := rfl
  nextId := rfl
  cells := rfl
  kept := fun _ entry h => ⟨entry, h, rfl⟩
  balanced := fun _ h => h
  indexed := fun h => h

theorem Revises.trans {s' s'' : BoundedStore} (h : s.Revises s')
    (h' : s'.Revises s'') : s.Revises s'' where
  maxBytes := h'.maxBytes.trans h.maxBytes
  tagHeader := h'.tagHeader.trans h.tagHeader
  temp := h'.temp.trans h.temp
  nextId := h'.nextId.trans h.nextId
  cells := h'.cells.trans h.cells
  kept := by
    intro key entry'' hentry''
    obtain ⟨entry', hentry', hbody'⟩ := h'.kept key entry'' hentry''
    obtain ⟨entry, hentry, hbody⟩ := h.kept key entry' hentry'
    exact ⟨entry, hentry, hbody.trans hbody'⟩
  balanced := fun fills hs => h'.balanced fills (h.balanced fills hs)
  indexed := fun hs => h'.indexed (h.indexed hs)

/-- The queue and the counters of removals matter to none of this. -/
theorem Revises.of_queue {s' : BoundedStore} (order : List Str)
    (evicted purged : ℕ) (h : s.Revises s') :
    s.Revises
      { s' with order := order, evicted := evicted, purged := purged } where
  maxBytes := h.maxBytes
  tagHeader := h.tagHeader
  temp := h.temp
  nextId := h.nextId
  cells := h.cells
  kept := h.kept
  balanced := fun fills hs =>
    ⟨(h.balanced fills hs).used_eq, (h.balanced fills hs).le_max,
      (h.balanced fills hs).exact⟩
  indexed := h.indexed

/-! ## Releasing and discarding -/

@[simp] theorem release_used (s : BoundedStore) (amount : ℕ) :
    (s.release amount).used = s.used - amount :=
  rfl

/-- A release of bytes that are in use does not clamp. -/
theorem release_clamped {amount : ℕ} (hexact : s.clamped = false)
    (hle : amount ≤ s.used) : (s.release amount).clamped = false := by
  rw [BoundedStore.release, hexact, Bool.false_or, decide_eq_false_iff_not]
  exact not_lt.mpr hle

theorem Balanced.release {fills amount : ℕ} (h : s.Balanced (fills + amount)) :
    (s.release amount).Balanced fills := by
  have hused := h.used_eq
  refine ⟨?_, (Nat.sub_le _ _).trans h.le_max,
    release_clamped h.exact (by omega)⟩
  change s.used - amount = s.cachedBytes + fills
  omega

/-- The size of an entry taken out of the map is left over. -/
theorem Balanced.erase {fills : ℕ} {key : Str} {entry : Stored}
    (h : s.Balanced fills) (hentry : s.cached.lookup key = some entry)
    (index : TagIndex) :
    Balanced { s with cached := s.cached.erase key, tagIndex := index }
      (fills + entry.size s.cells) := by
  have htotal := AssocMap.total_erase
    (fun (_ : Str) (e : Stored) => e.size s.cells) hentry
  refine ⟨?_, h.le_max, h.exact⟩
  rw [h.used_eq]
  simp only [cachedBytes]
  omega

theorem revises_discard {key : Str} {entry : Stored}
    (hentry : s.cached.lookup key = some entry) :
    s.Revises (s.discard key entry) where
  maxBytes := rfl
  tagHeader := rfl
  temp := rfl
  nextId := rfl
  cells := rfl
  kept := by
    intro key' entry' h
    have hne : key' ≠ key := by
      rintro rfl
      simp [discard] at h
    exact ⟨entry', (AList.lookup_erase_ne hne).symm.trans h, rfl⟩
  balanced := fun _ h => (h.erase hentry _).release
  indexed := by
    intro h key' entry' hentry' tag htag
    have hne : key' ≠ key := by
      rintro rfl
      simp [discard] at hentry'
    have hold : s.cached.lookup key' = some entry' :=
      (AList.lookup_erase_ne hne).symm.trans hentry'
    exact (mem_keysOf_unindexTags _ _ _).mpr
      ⟨h key' entry' hold tag htag, fun hkey => hne hkey.1⟩

/-- Replacing the value under a key keeps every entry's body, if the
replacement keeps that one's. -/
theorem kept_insert {cached : AssocMap Str Stored} {key : Str}
    {entry replacement : Stored} (hentry : cached.lookup key = some entry)
    (hbody : entry.body = replacement.body) (key' : Str) (entry' : Stored)
    (h : (cached.insert key replacement).lookup key' = some entry') :
    ∃ old, cached.lookup key' = some old ∧ old.body = entry'.body := by
  rcases AssocMap.lookup_insert_cases h with ⟨rfl, rfl⟩ | ⟨-, hold⟩
  · exact ⟨entry, hentry, hbody⟩
  · exact ⟨entry', hold, rfl⟩

theorem revises_setVisited (s : BoundedStore) (key : Str) (visited : Bool) :
    s.Revises (s.setVisited key visited) := by
  unfold setVisited
  split
  · exact .refl s
  · rename_i entry hentry
    refine ⟨rfl, rfl, rfl, rfl, rfl, kept_insert hentry rfl, ?_, ?_⟩
    · intro fills h
      have htotal := AssocMap.total_insert
        (fun (_ : Str) (e : Stored) => e.size s.cells) hentry
        { entry with visited := visited }
      refine ⟨?_, h.le_max, h.exact⟩
      rw [h.used_eq, cachedBytes, cachedBytes, Nat.add_left_cancel htotal]
    · intro h key' entry' hentry' tag htag
      rcases AssocMap.lookup_insert_cases hentry' with ⟨rfl, rfl⟩ | ⟨-, hold⟩
      · exact h key' entry hentry tag htag
      · exact h key' entry' hold tag htag

theorem revises_lookup (s : BoundedStore) (combined : Str) :
    s.Revises (s.lookup combined).1 := by
  unfold lookup
  split
  · exact revises_setVisited s combined true
  · exact .refl s

/-! ## Reserving -/

theorem revises_makeRoom (additional turns chances : ℕ) (s : BoundedStore) :
    s.Revises (makeRoom additional turns chances s).1 := by
  induction turns generalizing chances s with
  | zero => exact .refl s
  | succ turns ih =>
      rw [makeRoom]
      split_ifs with hfits
      · exact .refl s
      · split
        · exact .refl s
        · rename_i victim rest _
          split_ifs with hspared
          · exact ((revises_setVisited s victim false).of_queue _ _ _).trans
              (ih _ _)
          · split
            · exact ((Revises.refl s).of_queue _ _ _).trans (ih _ _)
            · rename_i entry hentry
              exact ((revises_discard hentry).of_queue _ _ _).trans (ih _ _)

/-- The loop reports success only when the bytes fit. -/
theorem fits_of_makeRoom {additional turns chances : ℕ}
    (h : (makeRoom additional turns chances s).2 = true) :
    (makeRoom additional turns chances s).1.used + additional ≤
      (makeRoom additional turns chances s).1.maxBytes := by
  induction turns generalizing chances s with
  | zero => exact of_decide_eq_true h
  | succ turns ih =>
      rw [makeRoom] at h ⊢
      split_ifs at h ⊢ with hfits
      · exact hfits
      · split at h
        · cases h
        · split_ifs at h ⊢ with hspared
          · exact ih h
          · split at h <;> exact ih h

/-! ## Admitting -/

/-- What `admitEntry` discards before it inserts: the entry it replaces. -/
def dropOld (s : BoundedStore) (key : Str) : BoundedStore :=
  match s.cached.lookup key with
  | none => s
  | some old =>
      { s.discard key old with order := s.order.filter fun k => k != key }

theorem admitEntry_eq (s : BoundedStore) (key : Str) (obj : Stored) :
    s.admitEntry key obj =
      { s.dropOld key with
        tagIndex := indexTags (s.dropOld key).tagIndex key obj.tags
        cached := (s.dropOld key).cached.insert key obj
        order := (s.dropOld key).order ++ [key] } :=
  rfl

theorem revises_dropOld (s : BoundedStore) (key : Str) :
    s.Revises (s.dropOld key) := by
  unfold dropOld
  split
  · exact .refl s
  · rename_i old hold
    exact (revises_discard hold).of_queue _ _ _

theorem notMem_dropOld (s : BoundedStore) (key : Str) :
    key ∉ (s.dropOld key).cached := by
  unfold dropOld
  split
  · rename_i hnone
    exact AList.lookup_eq_none.mp hnone
  · simp [discard, AList.mem_erase]

/-- An entry is admitted at the cost of the fill it was. -/
theorem Balanced.admitEntry {fills : ℕ} {key : Str} {obj : Stored}
    (h : s.Balanced (fills + obj.size s.cells)) :
    (s.admitEntry key obj).Balanced fills := by
  have hdropped := (s.revises_dropOld key).balanced _ h
  have hcells := (s.revises_dropOld key).cells
  have htotal := AssocMap.total_insert_of_notMem
    (fun (_ : Str) (e : Stored) => e.size s.cells) (s.notMem_dropOld key) obj
  have hused := hdropped.used_eq
  rw [admitEntry_eq]
  refine ⟨?_, hdropped.le_max, hdropped.exact⟩
  simp only [cachedBytes, hcells] at hused ⊢
  omega

theorem lookup_admitEntry {key key' : Str} {obj entry : Stored}
    (h : (s.admitEntry key obj).cached.lookup key' = some entry) :
    (key' = key ∧ entry = obj) ∨
      (key' ≠ key ∧ ∃ old, s.cached.lookup key' = some old ∧
        old.body = entry.body) := by
  rw [admitEntry_eq] at h
  rcases AssocMap.lookup_insert_cases h with hnew | ⟨hkey, hold⟩
  · exact .inl hnew
  · exact .inr ⟨hkey, (s.revises_dropOld key).kept key' entry hold⟩

theorem Indexed.admitEntry (h : s.Indexed) (key : Str) (obj : Stored) :
    (s.admitEntry key obj).Indexed := by
  intro key' entry hentry tag htag
  rw [admitEntry_eq] at hentry ⊢
  refine (mem_keysOf_indexTags _ _ _).mpr ?_
  rcases AssocMap.lookup_insert_cases hentry with ⟨rfl, rfl⟩ | ⟨-, hold⟩
  · exact .inr ⟨rfl, htag⟩
  · exact .inl ((s.revises_dropOld key).indexed h key' entry hold tag htag)

/-! ## Revalidating -/

theorem Balanced.replace {fills : ℕ} {key : Str} {obj : Stored}
    (h : s.Balanced fills) (hobj : s.cached.lookup key = some obj)
    (replacement : Stored) (index : TagIndex) {used : ℕ} {clamped : Bool}
    (hused : used + obj.size s.cells = s.used + replacement.size s.cells)
    (hmax : used ≤ s.maxBytes) (hclamped : clamped = false) :
    Balanced
      { s with
        cached := s.cached.insert key replacement
        tagIndex := index
        used := used
        clamped := clamped } fills := by
  have htotal := AssocMap.total_insert
    (fun (_ : Str) (e : Stored) => e.size s.cells) hobj replacement
  have hold := h.used_eq
  refine ⟨?_, hmax, hclamped⟩
  simp only [cachedBytes] at hold ⊢
  omega

theorem Indexed.replace (h : s.Indexed) (key : Str) (old : List Str)
    (replacement : Stored) (used : ℕ) (clamped : Bool) :
    Indexed
      { s with
        cached := s.cached.insert key replacement
        tagIndex :=
          indexTags (unindexTags s.tagIndex key old) key replacement.tags
        used := used
        clamped := clamped } := by
  intro key' entry hentry tag htag
  refine (mem_keysOf_indexTags _ _ _).mpr ?_
  rcases AssocMap.lookup_insert_cases hentry with ⟨rfl, rfl⟩ | ⟨hkey, hold⟩
  · exact .inr ⟨rfl, htag⟩
  · exact .inl ((mem_keysOf_unindexTags _ _ _).mpr
      ⟨h key' entry hold tag htag, fun hboth => hkey hboth.1⟩)

/-- `update_meta` charges the growth of the metadata, or releases what it
shrinks by. -/
theorem revises_updateMeta (s : BoundedStore) (key : StoreKey)
    (m : EntryMeta) : s.Revises (s.updateMeta key m).1 := by
  unfold updateMeta
  split
  · exact .refl s
  · rename_i replacement _
    simp only []
    split
    · exact .refl s
    · rename_i obj hobj
      split_ifs with hfull hgrows
      · exact .refl s
      · refine ⟨rfl, rfl, rfl, rfl, rfl, kept_insert hobj rfl, ?_,
          fun h => h.replace _ _ _ _ _⟩
        intro fills h
        refine h.replace hobj _ _ ?_ ?_ h.exact
        · simp only [Stored.size]
          omega
        · exact not_lt.mp fun hlt => hfull ⟨hgrows, hlt⟩
      · refine ⟨rfl, rfl, rfl, rfl, rfl, kept_insert hobj rfl, ?_,
          fun h => h.replace _ _ _ _ _⟩
        intro fills h
        -- The entry alone accounts for the bytes that are released.
        have hle : obj.size s.cells ≤ s.used := by
          rw [h.used_eq]
          exact (AssocMap.le_total
            (fun (_ : Str) (e : Stored) => e.size s.cells) hobj).trans
              (Nat.le_add_right _ _)
        refine h.replace hobj _ _ ?_ ((Nat.sub_le _ _).trans h.le_max) ?_
        · simp only [Stored.size, release_used] at hle ⊢
          omega
        · simp only [Stored.size] at hle
          exact release_clamped h.exact (by omega)

/-! ## Purging -/

theorem revises_purgeOne (state : BoundedStore × Purged) (key : Str) :
    state.1.Revises (purgeOne state key).1 := by
  unfold purgeOne
  split
  · exact .refl _
  · rename_i entry hentry
    exact revises_discard hentry

theorem revises_purgeMatchingLocked (s : BoundedStore)
    (hit : Str → Stored → Bool) : s.Revises (s.purgeMatchingLocked hit).1 := by
  have hremoved : s.Revises ((s.doomed hit).foldl purgeOne (s, {})).1 := by
    refine List.foldlRecOn (motive := fun state => s.Revises state.1)
      (s.doomed hit) purgeOne (b := (s, {})) (Revises.refl s) ?_
    intro state hstate key _
    exact hstate.trans (revises_purgeOne state key)
  simp only [purgeMatchingLocked]
  split_ifs
  · exact hremoved
  · exact hremoved.of_queue _ _ _

/-- Marking fills moves no byte. -/
theorem Balanced.invalidate {fills : ℕ} (h : s.Balanced fills)
    (hit : Temp → Bool) : (s.invalidate hit).Balanced fills :=
  ⟨h.used_eq, h.le_max, h.exact⟩

end BoundedStore

end Harmost.Cache
