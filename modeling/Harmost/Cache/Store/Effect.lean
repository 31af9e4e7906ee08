import Harmost.Cache.Store.Accounting
import Harmost.Cache.Store.System

/-!
# What a step can do

Each operation of the store is taken apart once, into revisions of the finished
entries and small changes to a single fill.  `Effect` lists what may come of a
whole step; everything that holds along a run is proved from that list.
-/

namespace Harmost.Cache

open Harmost.Support

/-! ## Operations on a fill -/

namespace BoundedStore

/-- The store after a fill is registered under the next id. -/
def register (s : BoundedStore) (fill : Temp) : BoundedStore :=
  { s with
    nextId := s.nextId + 1
    cells := Function.update s.cells s.nextId {}
    temp := s.temp.insert s.nextId fill }

/-- The store after data is appended to a body and its progress published. -/
def append (s : BoundedStore) (id : ℕ) (data : List UInt8)
    (written : Written) : BoundedStore :=
  { s with
    cells := Function.update s.cells id
      ⟨(s.cells id).body ++ data, written⟩ }

/-- A handle on more bytes. -/
def FollowableMiss.grow (h : FollowableMiss) (amount : ℕ) : FollowableMiss :=
  { h with accounted := h.accounted + amount }

/-- The store with more bytes in use. -/
def charge (s : BoundedStore) (amount : ℕ) : BoundedStore :=
  { s with used := s.used + amount }

/-- The store without a fill. -/
def unregister (s : BoundedStore) (id : ℕ) : BoundedStore :=
  { s with temp := s.temp.erase id }

variable (s : BoundedStore)

@[simp] theorem register_cells (fill : Temp) :
    (s.register fill).cells = Function.update s.cells s.nextId {} :=
  rfl

@[simp] theorem append_cells (id : ℕ) (data : List UInt8) (written : Written) :
    (s.append id data written).cells =
      Function.update s.cells id ⟨(s.cells id).body ++ data, written⟩ :=
  rfl

/-- A reservation either fails or charges what it was asked for. -/
theorem reserve_cases (amount : ℕ) :
    ∃ s', s.Revises s' ∧
      (s.reserve amount = (s', false) ∨
        s.reserve amount = (s'.charge amount, true) ∧
          s'.used + amount ≤ s'.maxBytes) := by
  rw [reserve]
  split_ifs with hmax
  · exact ⟨s, .refl s, .inl rfl⟩
  · have hrevises := revises_makeRoom amount
      (s.order.length + s.chances) s.chances s
    split
    · rename_i s' hroom
      have hfits := fits_of_makeRoom (congrArg Prod.snd hroom)
      rw [hroom] at hrevises hfits
      exact ⟨s', hrevises, .inr ⟨rfl, hfits⟩⟩
    · rename_i s' hroom
      rw [hroom] at hrevises
      exact ⟨s', hrevises, .inl rfl⟩

/-- Nothing is evicted for what fits already. -/
theorem reserve_of_fits {s : BoundedStore} {amount : ℕ}
    (hfits : s.used + amount ≤ s.maxBytes) :
    s.reserve amount = (s.charge amount, true) := by
  have hroom : ∀ turns chances,
      makeRoom amount turns chances s = (s, true) := by
    intro turns chances
    cases turns with
    | zero => rw [makeRoom, decide_eq_true hfits]
    | succ turns => rw [makeRoom, if_pos hfits]
  rw [reserve, if_neg (Nat.not_lt.mpr (Nat.le_of_add_left_le hfits)), hroom]
  rfl

/-- A miss handler is refused, or its fill is charged and registered. -/
theorem getMissHandler_cases (key : StoreKey) (m : EntryMeta) :
    ∃ s', s.Revises s' ∧
      (s.getMissHandler key m = (s', none) ∨
        ∃ fill : Temp, fill.body = s'.nextId ∧ fill.invalidated = false ∧
          s'.used + fill.fixedSize ≤ s'.maxBytes ∧
          s.getMissHandler key m =
            ((s'.charge fill.fixedSize).register fill,
              some ⟨fill.key, s'.nextId, fill.fixedSize⟩)) := by
  simp only [getMissHandler]
  split
  · exact ⟨s, .refl s, .inl rfl⟩
  · rename_i serialized _
    generalize (if m.headers.containsKey Proxy.transientHeader.text then []
      else s.declaredTags m.headers) = tags
    generalize (if m.headers.containsKey Proxy.transientHeader.text then []
      else key.userTag) = path
    obtain ⟨s', hrevises, hfails | ⟨hcharged, hfits⟩⟩ :=
      s.reserve_cases (metaBytes serialized + tagBytes tags + byteLen path)
    · rw [hfails]
      exact ⟨s', hrevises, .inl rfl⟩
    · rw [hcharged]
      exact ⟨s', hrevises,
        .inr ⟨⟨key.combined, serialized, s'.nextId, _, tags, path, false⟩,
          rfl, rfl, hfits, rfl⟩⟩

/-- A write is refused, or its data is charged and appended. -/
theorem writeBody_cases (hs : s.used ≤ s.maxBytes) (h : FollowableMiss)
    (data : List UInt8) (eof : Bool) :
    ∃ s', s.Revises s' ∧
      (s.writeBody h data eof = (s', h, false) ∨
        ∃ written, s'.used + data.length ≤ s'.maxBytes ∧
          s.writeBody h data eof =
            ((s'.charge data.length).append h.id data written,
              h.grow data.length, true)) := by
  simp only [writeBody]
  by_cases hdata : data.isEmpty = true
  · rw [if_pos hdata]
    rw [List.isEmpty_iff] at hdata
    subst hdata
    exact ⟨s, .refl s, .inr ⟨_, hs, rfl⟩⟩
  · rw [if_neg hdata]
    obtain ⟨s', hrevises, hfails | ⟨hcharged, hfits⟩⟩ :=
      s.reserve_cases data.length
    · rw [hfails]
      exact ⟨s', hrevises, .inl rfl⟩
    · rw [hcharged]
      exact ⟨s', hrevises, .inr ⟨_, hfits, rfl⟩⟩

theorem beginFinish_eq {h : FollowableMiss} {fill : Temp}
    (hfill : s.temp.lookup h.id = some fill) (hkey : h.key = fill.key) :
    s.beginFinish h =
      (s.append h.id [] (.complete (s.cells h.id).written.bytes),
        some fill.transient) := by
  simp [beginFinish, append, hfill, hkey, Option.filter_some]

theorem removeTemp_eq {s : BoundedStore} {key : Str} {id : ℕ} {fill : Temp}
    (hfill : s.temp.lookup id = some fill) (hkey : key = fill.key) :
    s.removeTemp key id = (s.unregister id, some fill) := by
  rw [removeTemp, hfill, Option.filter_some, hkey, beq_self_eq_true, if_pos rfl,
    unregister]

theorem append_nil_written (id : ℕ) :
    s.append id [] (s.cells id).written = s := by
  simp [append]

end BoundedStore

/-! ## Purges -/

namespace PurgeRequest

/-- Does this request ask for an entry with this key, path and tags to go? -/
def Matches (request : PurgeRequest) (key path : Str)
    (tags : List Str) : Prop :=
  match request with
  | .tags wanted => ∃ tag ∈ wanted, tag ≠ [] ∧ tag ∈ tags
  | .paths wanted => path ∈ wanted ∧ path ≠ []
  | .all => True
  | .key combined => key = combined

end PurgeRequest

namespace BoundedStore

/-- The keys a purge by tags collects from the index. -/
theorem mem_foldr_keysOf {index : TagIndex} {wanted : List Str} {key : Str} :
    key ∈ wanted.foldr (fun tag keys => index.keysOf tag ∪ keys) ∅ ↔
      ∃ tag ∈ wanted, key ∈ index.keysOf tag := by
  induction wanted with
  | nil => simp
  | cons first rest ih =>
      rw [List.foldr_cons, Finset.mem_union, ih]
      simp only [List.mem_cons, exists_eq_or_imp]

/-- A purge is a marking of fills and a removal of entries, and both cover
what the request matches. -/
theorem purge_cases {s : BoundedStore} (hindexed : s.Indexed)
    (request : PurgeRequest) :
    (s.purge request = s ∧ ∀ key path tags, ¬request.Matches key path tags) ∨
      ∃ (fillHit : Temp → Bool) (hit : Str → Stored → Bool),
        s.purge request =
            ((s.invalidate fillHit).purgeMatchingLocked hit).1 ∧
          (∀ fill : Temp, request.Matches fill.key fill.path fill.tags →
            fillHit fill = true) ∧
          ∀ key entry, s.cached.lookup key = some entry →
            request.Matches key entry.path entry.tags →
              hit key entry = true := by
  have hwanted : ∀ {texts : List Str} {text}, text ∈ texts → text ≠ [] →
      text ∈ texts.filter fun text => !text.isEmpty :=
    fun hmem hne => List.mem_filter.mpr ⟨hmem, by simpa using hne⟩
  cases request with
  | tags tags =>
      simp only [purge, purgeTags]
      split_ifs with hempty
      · refine .inl ⟨rfl, ?_⟩
        rintro key path tags' ⟨tag, hmem, hne, -⟩
        rw [List.isEmpty_iff] at hempty
        exact List.not_mem_nil (hempty ▸ hwanted hmem hne)
      · refine .inr ⟨_, _, rfl, ?_, ?_⟩
        · rintro fill ⟨tag, hmem, hne, hcarried⟩
          exact List.any_eq_true.mpr ⟨tag, hcarried,
            List.contains_iff_mem.mpr (hwanted hmem hne)⟩
        · rintro key entry hentry ⟨tag, hmem, hne, hcarried⟩
          exact decide_eq_true (mem_foldr_keysOf.mpr ⟨tag, hwanted hmem hne,
            hindexed key entry hentry tag hcarried⟩)
  | paths paths =>
      simp only [purge, purgePaths]
      split_ifs with hempty
      · refine .inl ⟨rfl, ?_⟩
        rintro key path tags ⟨hmem, hne⟩
        rw [List.isEmpty_iff] at hempty
        exact List.not_mem_nil (hempty ▸ hwanted hmem hne)
      · refine .inr ⟨_, _, rfl, ?_, ?_⟩
        · rintro fill ⟨hmem, hne⟩
          exact List.contains_iff_mem.mpr (hwanted hmem hne)
        · rintro key entry - ⟨hmem, hne⟩
          exact List.contains_iff_mem.mpr (hwanted hmem hne)
  | all => exact .inr ⟨_, _, rfl, fun _ _ => rfl, fun _ _ _ _ => rfl⟩
  | key combined =>
      refine .inr ⟨_, _, rfl, ?_, ?_⟩
      · rintro fill hkey
        exact beq_iff_eq.mpr hkey
      · rintro key entry - hkey
        exact beq_iff_eq.mpr hkey

end BoundedStore

/-! ## Steps -/

namespace System

open BoundedStore

@[simp] theorem keep_store (sys : System) (id : ℕ) (writer : Writer)
    (store : BoundedStore) : (sys.keep id writer store).store = store :=
  rfl

@[simp] theorem keep_writers (sys : System) (id : ℕ) (writer : Writer)
    (store : BoundedStore) :
    (sys.keep id writer store).writers = sys.writers.insert id writer :=
  rfl

@[simp] theorem leave_store (sys : System) (id : ℕ) (store : BoundedStore) :
    (sys.leave id store).store = store :=
  rfl

@[simp] theorem leave_writers (sys : System) (id : ℕ) (store : BoundedStore) :
    (sys.leave id store).writers = sys.writers.erase id :=
  rfl

/-- A handle and the fill it stands for. -/
structure Owns (cells : ℕ → Cell) (id : ℕ) (h : FollowableMiss)
    (fill : Temp) : Prop where
  key_eq : h.key = fill.key
  id_eq : h.id = id
  body_eq : fill.body = id
  accounted_eq : h.accounted = fill.fixedSize + (cells id).body.length

theorem lookup_of_handle? {sys : System} {id : ℕ} {phase : Phase}
    {h : FollowableMiss} (hhandle : sys.handle? id phase = some h) :
    sys.writers.lookup id = some ⟨h, phase⟩ := by
  unfold handle? at hhandle
  split at hhandle
  · cases hhandle
  · rename_i writer hwriter
    split_ifs at hhandle with hphase
    rw [hwriter, ← hphase, ← Option.some.inj hhandle]

/-- What may come of a step. -/
inductive Effect (sys : System) : System → Prop
  /-- Finished entries leave, or are revalidated. -/
  | revised {s' : BoundedStore} (hrevises : sys.store.Revises s') :
      Effect sys { sys with store := s' }
  /-- A fill is charged for and registered. -/
  | registered {s' : BoundedStore} {fill : Temp}
      (hrevises : sys.store.Revises s') (hbody : fill.body = s'.nextId)
      (hunmarked : fill.invalidated = false)
      (hfits : s'.used + fill.fixedSize ≤ s'.maxBytes) :
      Effect sys (sys.keep s'.nextId
        ⟨⟨fill.key, s'.nextId, fill.fixedSize⟩, .writing⟩
        ((s'.charge fill.fixedSize).register fill))
  /-- A writer appends what it was charged for, if anything, and goes on. -/
  | appended {s' : BoundedStore} {id : ℕ} {writer : Writer}
      {data : List UInt8} (hrevises : sys.store.Revises s')
      (hwriter : sys.writers.lookup id = some writer)
      (hfits : s'.used + data.length ≤ s'.maxBytes) (written : Written)
      (phase : Phase) :
      Effect sys (sys.keep id ⟨writer.handle.grow data.length, phase⟩
        ((s'.charge data.length).append id data written))
  /-- A writer leaves, and its fill goes with it. -/
  | abandoned {id : ℕ} {writer : Writer}
      (hwriter : sys.writers.lookup id = some writer) :
      Effect sys (sys.leave id
        ((sys.store.unregister id).release writer.handle.accounted))
  /-- A writer leaves, and its unmarked fill becomes a finished entry. -/
  | admitted {id : ℕ} {writer : Writer} {fill : Temp}
      (hwriter : sys.writers.lookup id = some writer)
      (hfill : sys.store.temp.lookup id = some fill)
      (howns : Owns sys.store.cells id writer.handle fill)
      (hunmarked : fill.invalidated = false) :
      Effect sys (sys.leave id
        ((sys.store.unregister id).admitEntry writer.handle.key
          ⟨fill.serialized, fill.body, fill.path, fill.tags, false⟩))
  /-- Fills are marked and finished entries removed. -/
  | purged (fillHit : Temp → Bool) (hit : Str → Stored → Bool) :
      Effect sys { sys with
        store := ((sys.store.invalidate fillHit).purgeMatchingLocked hit).1 }

end System

end Harmost.Cache
