import Harmost.Cache.Store.PurgeExact
import Harmost.Proxy.Refusal

/-!
# The tags a response declares

A response declares tags in the values of one header, which may come in several
lines.  The store reads the first line only, and only if all of it is readable,
so the tags of the other lines are never indexed and no purge finds them.
-/

namespace Harmost.Cache

open Harmost.Support
open Harmost.Config
open Harmost.Http
open Harmost.Proxy

/-! ## What is declared -/

/-- A tag worth indexing: between 1 and 256 visible ASCII characters. -/
def isValidTag (tag : Str) : Bool :=
  !tag.isEmpty && decide (tag.length ≤ maxTagLen) && tag.all isAsciiGraphic

/-- The valid tags in all the values, in order, repetitions included. -/
def validTags (values : List HeaderValue) : List Str :=
  ((elements values).map fun element =>
    latin1 (trimMatches isOws element)).filter isValidTag

/-- Append what is not there yet, in order. -/
def addDistinct (tags : List Str) : List Str → List Str
  | [] => tags
  | tag :: rest =>
      if tag ∈ tags then addDistinct tags rest
      else addDistinct (tags ++ [tag]) rest

/-- The first distinct valid tags, as many as an entry may have. -/
def firstTags (values : List HeaderValue) : List Str :=
  (addDistinct [] (validTags values)).take maxTagsPerEntry

/-- Nothing that counts is declared outside the first line: there is no valid
tag at all, or the first line is readable and declares all that the others do,
or as many tags as an entry may have. -/
def AllInFirstLine (values : List HeaderValue) : Prop :=
  validTags values = [] ∨
    ∃ first rest, values = first :: rest ∧ isReadable first = true ∧
      (maxTagsPerEntry ≤ (addDistinct [] (validTags [first])).length ∨
        ∀ tag ∈ validTags rest, tag ∈ validTags [first])

/-! ## Distinct tags in order -/

theorem mem_addDistinct {tag : Str} (tags more : List Str) :
    tag ∈ addDistinct tags more ↔ tag ∈ tags ∨ tag ∈ more := by
  induction more generalizing tags with
  | nil => simp [addDistinct]
  | cons first rest ih =>
      rw [addDistinct]
      by_cases hfirst : first ∈ tags
      · rw [if_pos hfirst, ih, List.mem_cons]
        constructor
        · rintro (htag | htag)
          · exact .inl htag
          · exact .inr (.inr htag)
        · rintro (htag | rfl | htag)
          · exact .inl htag
          · exact .inl hfirst
          · exact .inr htag
      · rw [if_neg hfirst, ih, List.mem_append, List.mem_singleton,
          List.mem_cons, or_assoc]

theorem addDistinct_append (tags more more' : List Str) :
    addDistinct tags (more ++ more') =
      addDistinct (addDistinct tags more) more' := by
  induction more generalizing tags with
  | nil => rfl
  | cons first rest ih =>
      rw [List.cons_append, addDistinct, addDistinct]
      split_ifs
      · exact ih tags
      · exact ih (tags ++ [first])

theorem isPrefix_addDistinct (tags more : List Str) :
    tags <+: addDistinct tags more := by
  induction more generalizing tags with
  | nil => exact List.prefix_rfl
  | cons first rest ih =>
      rw [addDistinct]
      split_ifs
      · exact ih tags
      · exact (List.prefix_append tags [first]).trans (ih _)

variable {tags : List Str} {first : HeaderValue} {rest : List HeaderValue}

theorem addDistinct_eq_self {more : List Str} (h : ∀ tag ∈ more, tag ∈ tags) :
    addDistinct tags more = tags := by
  induction more with
  | nil => rfl
  | cons first rest ih =>
      rw [List.forall_mem_cons] at h
      rw [addDistinct, if_pos h.1, ih h.2]

/-- The first new tag comes right behind the old ones. -/
theorem exists_new_of_notMem {more : List Str} {tag : Str} (htag : tag ∈ more)
    (hnew : tag ∉ tags) :
    ∃ new, new ∉ tags ∧ tags ++ [new] <+: addDistinct tags more := by
  induction more with
  | nil => exact (List.not_mem_nil htag).elim
  | cons first rest ih =>
      rw [addDistinct]
      by_cases hfirst : first ∈ tags
      · rw [if_pos hfirst]
        rcases List.mem_cons.mp htag with rfl | hrest
        · exact (hnew hfirst).elim
        · exact ih hrest
      · rw [if_neg hfirst]
        exact ⟨first, hfirst, isPrefix_addDistinct _ rest⟩

theorem take_addDistinct_of_full {limit : ℕ} (h : limit ≤ tags.length)
    (more : List Str) :
    (addDistinct tags more).take limit = tags.take limit := by
  obtain ⟨rest, hrest⟩ := isPrefix_addDistinct tags more
  rw [← hrest, List.take_append_of_le_length h]

/-- More tags fit in under a limit exactly when there is nothing new. -/
theorem take_addDistinct_subset_iff {more : List Str} {limit : ℕ} :
    (∀ tag ∈ (addDistinct tags more).take limit, tag ∈ tags.take limit) ↔
      limit ≤ tags.length ∨ ∀ tag ∈ more, tag ∈ tags := by
  constructor
  · intro h
    by_contra hcontra
    rw [not_or, not_le] at hcontra
    obtain ⟨hroom, hmore⟩ := hcontra
    push Not at hmore
    obtain ⟨tag, htag, hnew⟩ := hmore
    obtain ⟨new, hnew, rest, hrest⟩ := exists_new_of_notMem htag hnew
    have htake : new ∈ (addDistinct tags more).take limit := by
      have hlen : (tags ++ [new]).length ≤ limit := by
        rwa [List.length_append, List.length_singleton]
      rw [← hrest, List.take_append, List.take_of_length_le hlen]
      simp
    exact hnew (List.mem_of_mem_take (h new htake))
  · rintro (hfull | hmore) tag htag
    · rwa [take_addDistinct_of_full hfull] at htag
    · rwa [addDistinct_eq_self hmore] at htag

/-! ## What the store reads -/

theorem byteLen_of_isAsciiGraphic {tag : Str}
    (h : tag.all isAsciiGraphic = true) : byteLen tag = tag.length := by
  induction tag with
  | nil => rfl
  | cons c tag ih =>
      rw [List.all_cons, Bool.and_eq_true, isAsciiGraphic, Bool.and_eq_true,
        decide_eq_true_iff, decide_eq_true_iff] at h
      have hsize : c.utf8Size = 1 := by
        rw [Char.utf8Size_eq_one_iff, UInt32.le_iff_toNat_le]
        exact h.1.2.trans (by decide)
      rw [byteLen_cons, hsize, ih h.2, List.length_cons, Nat.add_comm]

theorem isValidTag_eq (tag : Str) :
    isValidTag tag =
      (!(tag.isEmpty || decide (maxTagLen < byteLen tag)) &&
        tag.all isAsciiGraphic) := by
  cases hgraphic : tag.all isAsciiGraphic with
  | false => simp [isValidTag, hgraphic]
  | true =>
      rw [isValidTag, hgraphic, byteLen_of_isAsciiGraphic hgraphic]
      cases tag.isEmpty with
      | true => rfl
      | false =>
          simp only [Bool.not_false, Bool.false_or, Bool.true_and,
            Bool.and_true, ← decide_not, not_lt]

/-- The loop collects the distinct valid tags, up to the limit. -/
theorem parseTagsFrom_eq (hroom : tags.length < maxTagsPerEntry)
    (pieces : List Str) :
    parseTagsFrom tags pieces =
      (addDistinct tags ((pieces.map trim).filter isValidTag)).take
        maxTagsPerEntry := by
  induction pieces generalizing tags with
  | nil =>
      rw [parseTagsFrom, List.map_nil, List.filter_nil, addDistinct,
        List.take_of_length_le hroom.le]
  | cons piece pieces ih =>
      rw [parseTagsFrom, List.map_cons]
      by_cases hvalid : isValidTag (trim piece) = true
      · rw [List.filter_cons_of_pos hvalid, addDistinct]
        rw [isValidTag_eq, Bool.and_eq_true, Bool.not_eq_true'] at hvalid
        simp only [hvalid.1, hvalid.2, Bool.false_eq_true, if_false,
          Bool.not_true, List.contains_iff_mem]
        split_ifs with hmem hfull
        · exact ih hroom
        · rw [take_addDistinct_of_full hfull, List.take_of_length_le]
          rwa [List.length_append, List.length_singleton]
        · exact ih (not_le.mp hfull)
      · rw [List.filter_cons_of_neg hvalid, ← ih hroom]
        rw [isValidTag_eq, Bool.and_eq_true, Bool.not_eq_true', not_and_or,
          Bool.not_eq_false, Bool.not_eq_true] at hvalid
        rcases hvalid with hlength | hgraphic
        · simp only [hlength, if_true]
        · simp only [hgraphic, Bool.not_false, if_true, ite_self]

theorem isWhitespace_latin1Char {b : UInt8}
    (h : ((0x20 ≤ b && b < 0x7f) || b == 0x09) = true) :
    isWhitespace (latin1Char b) = isOws b := by
  revert b
  decide +kernel

theorem trim_latin1 {bytes : List UInt8}
    (h : ∀ b ∈ bytes, ((0x20 ≤ b && b < 0x7f) || b == 0x09) = true) :
    trim (latin1 bytes) = latin1 (trimMatches isOws bytes) := by
  rw [trim, latin1, trimMatches_map]
  exact congrArg (List.map latin1Char)
    (trimMatches_congr fun b hb => isWhitespace_latin1Char (h b hb))

/-- A readable line is read as it declares. -/
theorem parseTags_of_isReadable {value : HeaderValue}
    (h : isReadable value = true) :
    parseTags (latin1 value.bytes) = firstTags [value] := by
  have hpieces : ((latin1 value.bytes).splitOn ',').map trim =
      (elements [value]).map fun element =>
        latin1 (trimMatches isOws element) := by
    have hcomma : ',' = latin1Char 0x2c := by decide
    rw [hcomma, splitOn_latin1, List.map_map, elements, List.flatMap_singleton]
    apply List.map_congr_left
    intro element helement
    apply trim_latin1
    intro b hb
    exact List.all_eq_true.mp h b (mem_of_mem_splitOn helement hb)
  rw [parseTags, parseTagsFrom_eq (by decide), hpieces]
  rfl

theorem declaredTags_eq_nil {s : BoundedStore} {headers : HeaderMap}
    (hvalues : headers.getAll s.tagHeader = first :: rest)
    (h : isReadable first = false) : s.declaredTags headers = [] := by
  have hread : headerToStr first = none := if_neg (Bool.not_eq_true _ ▸ h)
  rw [BoundedStore.declaredTags, hvalues, List.head?_cons, Option.bind_some,
    hread]
  rfl

theorem declaredTags_eq_firstTags {s : BoundedStore} {headers : HeaderMap}
    (hvalues : headers.getAll s.tagHeader = first :: rest)
    (h : isReadable first = true) :
    s.declaredTags headers = firstTags [first] := by
  have hread : headerToStr first = some (latin1 first.bytes) := if_pos h
  rw [BoundedStore.declaredTags, hvalues, List.head?_cons, Option.bind_some,
    hread, Option.map_some, Option.getD_some, parseTags_of_isReadable h]

theorem validTags_cons (first : HeaderValue) (rest : List HeaderValue) :
    validTags (first :: rest) = validTags [first] ++ validTags rest := by
  simp [validTags, elements]

theorem firstTags_eq_nil_iff {values : List HeaderValue} :
    firstTags values = [] ↔ validTags values = [] := by
  rw [firstTags, List.take_eq_nil_iff]
  constructor
  · rintro (hlimit | hnone)
    · cases hlimit
    · rw [List.eq_nil_iff_forall_not_mem]
      intro tag htag
      have hmem := (mem_addDistinct [] (validTags values)).mpr (.inr htag)
      rw [hnone] at hmem
      exact List.not_mem_nil hmem
  · intro hnone
    rw [hnone]
    exact .inr rfl

/-- Behind an unreadable first line nothing is read. -/
theorem allInFirstLine_iff_of_unreadable
    (hreadable : isReadable first = false) :
    AllInFirstLine (first :: rest) ↔ validTags (first :: rest) = [] := by
  constructor
  · rintro (hnone | ⟨first', rest', heq, hfirst, _⟩)
    · exact hnone
    · cases heq
      rw [hreadable] at hfirst
      cases hfirst
  · exact Or.inl

/-- Behind a readable first line nothing may come that counts. -/
theorem allInFirstLine_iff_of_readable (hreadable : isReadable first = true) :
    AllInFirstLine (first :: rest) ↔
      maxTagsPerEntry ≤ (addDistinct [] (validTags [first])).length ∨
        ∀ tag ∈ validTags rest, tag ∈ validTags [first] := by
  constructor
  · rintro (hnone | ⟨first', rest', heq, _, h⟩)
    · right
      rw [validTags_cons, List.append_eq_nil_iff] at hnone
      rw [hnone.2]
      exact fun tag htag => (List.not_mem_nil htag).elim
    · cases heq
      exact h
  · intro h
    exact .inr ⟨first, rest, rfl, hreadable, h⟩

/-- Everything declared is read exactly when it is in the first line. -/
theorem firstTags_subset_declaredTags_iff {s : BoundedStore}
    {headers : HeaderMap} :
    (∀ tag ∈ firstTags (headers.getAll s.tagHeader),
      tag ∈ s.declaredTags headers) ↔
        AllInFirstLine (headers.getAll s.tagHeader) := by
  cases hvalues : headers.getAll s.tagHeader with
  | nil =>
      have hnone : firstTags [] = [] := rfl
      refine iff_of_true ?_ (.inl rfl)
      rw [hnone]
      exact fun tag htag => (List.not_mem_nil htag).elim
  | cons first rest =>
      cases hreadable : isReadable first with
      | false =>
          rw [declaredTags_eq_nil hvalues hreadable,
            allInFirstLine_iff_of_unreadable hreadable,
            ← firstTags_eq_nil_iff, List.eq_nil_iff_forall_not_mem]
          simp only [List.not_mem_nil]
      | true =>
          have hlater : (∀ tag ∈ validTags rest,
              tag ∈ addDistinct [] (validTags [first])) ↔
                ∀ tag ∈ validTags rest, tag ∈ validTags [first] := by
            simp only [mem_addDistinct, List.not_mem_nil, false_or]
          rw [declaredTags_eq_firstTags hvalues hreadable,
            allInFirstLine_iff_of_readable hreadable, firstTags,
            validTags_cons, addDistinct_append, firstTags,
            take_addDistinct_subset_iff, hlater]

/-! ## From the fill to the entry -/

namespace BoundedStore

/-- A miss handler registers a fill with the tags that were read. -/
theorem getMissHandler_fill {s s' : BoundedStore} {key : StoreKey}
    {m : EntryMeta} {h : FollowableMiss}
    (hmiss : s.getMissHandler key m = (s', some h))
    (hpersistent : m.headers.containsKey transientHeader.text = false) :
    h.id < s'.nextId ∧ ∃ fill, s'.temp.lookup h.id = some fill ∧
      fill.key = key.combined ∧ fill.tags = s.declaredTags m.headers := by
  simp only [getMissHandler, hpersistent, Bool.false_eq_true, if_false] at hmiss
  cases hserialized : m.serialized with
  | none => simp [hserialized] at hmiss
  | some serialized =>
      simp only [hserialized] at hmiss
      split at hmiss
      · simp at hmiss
      · rename_i store _
        obtain ⟨rfl, hsome⟩ := Prod.mk.inj hmiss
        cases hsome
        refine ⟨Nat.lt_succ_self _, _, AList.lookup_insert _, rfl, rfl⟩

theorem updateMeta_entry {s : BoundedStore} {key : StoreKey} {m : EntryMeta}
    (h : (s.updateMeta key m).2 = some true) :
    ∃ entry, (s.updateMeta key m).1.cached.lookup key.combined = some entry ∧
      entry.tags = s.declaredTags m.headers := by
  unfold updateMeta at h ⊢
  cases hserialized : m.serialized with
  | none => simp [hserialized] at h
  | some replacement =>
      simp only [hserialized] at h ⊢
      cases hentry : s.cached.lookup key.combined with
      | none => simp [hentry] at h
      | some obj =>
          simp only [hentry] at h ⊢
          split at h
          · cases h
          · rename_i hover
            rw [if_neg hover]
            exact ⟨{ obj with
                serialized := replacement, tags := s.declaredTags m.headers },
              AList.lookup_insert _, rfl⟩

end BoundedStore

namespace System

open BoundedStore

variable {sys sys' : System} {cfg : CacheDefaults}

theorem tagHeader_of_effect (heffect : sys.Effect sys') :
    sys'.store.tagHeader = sys.store.tagHeader := by
  cases heffect with
  | revised hrevises | registered hrevises | appended hrevises =>
      exact hrevises.tagHeader
  | abandoned _ => rfl
  | admitted _ _ _ _ => exact (revises_dropOld _ _).tagHeader
  | purged fillHit hit => exact (revises_purgeMatchingLocked _ hit).tagHeader

/-- The store keeps looking at the header it was configured with. -/
theorem tagHeader_run (cfg : CacheDefaults) (ops : List Op) :
    ((init cfg).run ops).store.tagHeader = toAsciiLowercase cfg.tagHeader :=
  (inv_init cfg).run_of_effect
    (P := fun sys => sys.store.tagHeader = toAsciiLowercase cfg.tagHeader)
    (fun _ _ heffect h => (tagHeader_of_effect heffect).trans h) rfl ops

/-- The fill under this id, while it is registered, has this key and these
tags. -/
structure FillIs (sys : System) (id : ℕ) (key : Str) (tags : List Str) :
    Prop where
  issued : id < sys.store.nextId
  same : ∀ fill, sys.store.temp.lookup id = some fill →
    fill.key = key ∧ fill.tags = tags

theorem FillIs.of_effect {id : ℕ} {key : Str} {tags : List Str}
    (h : sys.FillIs id key tags) (heffect : sys.Effect sys') :
    sys'.FillIs id key tags := by
  cases heffect with
  | @revised _ hrevises | @appended _ _ _ _ hrevises =>
      exact ⟨hrevises.nextId ▸ h.issued, hrevises.temp ▸ h.same⟩
  | @registered s' fill hrevises _ _ _ =>
      refine ⟨Nat.lt_succ_of_lt (hrevises.nextId ▸ h.issued), ?_⟩
      have hne : id ≠ s'.nextId := by
        rw [hrevises.nextId]
        exact h.issued.ne
      intro fill' hfill'
      apply h.same fill'
      rw [← hrevises.temp]
      exact (AList.lookup_insert_ne hne).symm.trans hfill'
  | @abandoned id' writer _ =>
      refine ⟨h.issued, ?_⟩
      intro fill' hfill'
      exact h.same fill' (AssocMap.lookup_of_lookup_erase hfill')
  | @admitted id' writer fill _ _ _ _ =>
      have hrevises :=
        revises_dropOld (sys.store.unregister id') writer.handle.key
      refine ⟨hrevises.nextId ▸ h.issued, ?_⟩
      intro fill' hfill'
      rw [leave_store, admitEntry_eq] at hfill'
      rw [hrevises.temp] at hfill'
      exact h.same fill' (AssocMap.lookup_of_lookup_erase hfill')
  | purged fillHit hit =>
      have hrevises :=
        (sys.store.invalidate fillHit).revises_purgeMatchingLocked hit
      refine ⟨hrevises.nextId ▸ h.issued, ?_⟩
      intro fill' hfill'
      rw [hrevises.temp] at hfill'
      -- A purge marks a fill and leaves the rest of it as it was.
      have hmarked := (AssocMap.lookup_mapValues _ sys.store.temp id).symm.trans
        hfill'
      obtain ⟨fill, hfill, rfl⟩ := Option.map_eq_some_iff.mp hmarked
      obtain ⟨hkey, htags⟩ := h.same fill hfill
      split_ifs <;> exact ⟨hkey, htags⟩

theorem FillIs.run {id : ℕ} {key : Str} {tags : List Str}
    (h : sys.FillIs id key tags) (hinv : sys.Inv cfg 0) (ops : List Op) :
    (sys.run ops).FillIs id key tags :=
  hinv.run_of_effect (P := (FillIs · id key tags))
    (fun _ _ heffect h => h.of_effect heffect) h ops

/-- The end of `finish` for this fill will make it a finished entry. -/
def Admits (sys : System) (id : ℕ) : Prop :=
  ∃ h fill, sys.handle? id .finishing = some h ∧
    sys.store.temp.lookup id = some fill ∧ fill.invalidated = false

theorem admits_of_isSome {sys : System} {id : ℕ}
    (hhandle : (sys.handle? id .finishing).isSome = true)
    (hfill : ((sys.store.temp.lookup id).any fun fill =>
      !fill.invalidated) = true) : sys.Admits id := by
  obtain ⟨h, hh⟩ := Option.isSome_iff_exists.mp hhandle
  obtain ⟨fill, hlookup, hunmarked⟩ := Option.any_eq_true _ _ |>.mp hfill
  exact ⟨h, fill, hh, hlookup, by simpa using hunmarked⟩

/-- An admitted fill hands its tags on. -/
theorem FillIs.admitted {id : ℕ} {key : Str} {tags : List Str}
    (h : sys.FillIs id key tags) (hinv : sys.Inv cfg 0)
    (hadmits : sys.Admits id) :
    ∃ entry, (sys.step (.completeFinish id)).store.cached.lookup key =
      some entry ∧ entry.tags = tags := by
  obtain ⟨handle, fill, hhandle, hfill, hunmarked⟩ := hadmits
  obtain ⟨fill', hfill', howns⟩ := hinv.owned id _ (lookup_of_handle? hhandle)
  obtain rfl : fill = fill' := Option.some.inj (hfill ▸ hfill')
  obtain ⟨hkey, htags⟩ := h.same fill hfill
  have hremoved : sys.store.removeTemp handle.key handle.id =
      (sys.store.unregister handle.id, some fill) := by
    apply removeTemp_eq _ howns.key_eq
    rwa [howns.id_eq]
  refine ⟨⟨fill.serialized, fill.body, fill.path, fill.tags, false⟩, ?_, htags⟩
  rw [step, hhandle]
  simp only [leave_store, BoundedStore.completeFinish, hremoved, hunmarked,
    Bool.false_eq_true, if_false]
  rw [howns.key_eq, hkey, admitEntry_eq]
  exact AList.lookup_insert _

/-- Purging this tag removes the entry of this key. -/
def Purges (s : BoundedStore) (tag key : Str) : Prop :=
  (s.purgeTags [tag]).1.cached.lookup key = none

theorem ne_nil_of_mem_firstTags {values : List HeaderValue} {tag : Str}
    (h : tag ∈ firstTags values) : tag ≠ [] := by
  have hvalid : tag ∈ validTags values := by
    simpa using (mem_addDistinct [] _).mp (List.mem_of_mem_take h)
  have htag := (List.mem_filter.mp hvalid).2
  rintro rfl
  cases htag

/-- Where the tags of an entry are those that were read, every declared tag
purges it exactly when all are declared in the first line. -/
theorem purges_firstTags_iff {s : BoundedStore} (hinv : sys.Inv cfg 0)
    (hcoherent : sys.store.Coherent) {headers : HeaderMap} {key : Str}
    {entry : Stored} (hentry : sys.store.cached.lookup key = some entry)
    (htags : entry.tags = s.declaredTags headers)
    (hheader : s.tagHeader = toAsciiLowercase cfg.tagHeader) :
    (∀ tag ∈ firstTags (headers.getAll cfg.tagHeader),
      Purges sys.store tag key) ↔
        AllInFirstLine (headers.getAll cfg.tagHeader) := by
  have hvalues : headers.getAll cfg.tagHeader = headers.getAll s.tagHeader := by
    rw [hheader, HeaderMap.getAll_toAsciiLowercase]
  rw [hvalues, ← firstTags_subset_declaredTags_iff, ← htags]
  apply forall₂_congr
  intro tag htag
  exact hcoherent.purgeTags_singleton_iff hinv.balanced hentry
    (ne_nil_of_mem_firstTags htag)

/-- Every declared tag is purgeable exactly when nothing that counts is
declared outside the first line, for a fill that is admitted, whatever happened
while it was written, and for an entry whose metadata is updated. -/
theorem declared_tags_purgeable_iff (cfg : CacheDefaults) (before : List Op)
    (key : StoreKey) (m : EntryMeta) :
    let sys := (init cfg).run before
    let values := m.headers.getAll cfg.tagHeader
    (∀ (h : FollowableMiss) (during : List Op),
      m.headers.containsKey transientHeader.text = false →
      (sys.store.getMissHandler key m).2 = some h →
      ((sys.step (.getMissHandler key m)).run during).Admits h.id →
      ((∀ tag ∈ firstTags values,
        Purges (((sys.step (.getMissHandler key m)).run during).step
          (.completeFinish h.id)).store tag key.combined) ↔
            AllInFirstLine values)) ∧
    ((sys.store.updateMeta key m).2 = some true →
      ((∀ tag ∈ firstTags values,
        Purges (sys.step (.updateMeta key m)).store tag key.combined) ↔
          AllInFirstLine values)) := by
  intro sys values
  have hinv : sys.Inv cfg 0 := inv_run cfg before
  have hcoherent : sys.store.Coherent := coherent_run cfg before
  have hheader := tagHeader_run cfg before
  constructor
  · intro h during hpersistent hmiss hadmits
    have hpair : sys.store.getMissHandler key m =
        ((sys.store.getMissHandler key m).1, some h) :=
      Prod.ext rfl hmiss
    have hstart : sys.step (.getMissHandler key m) =
        sys.keep h.id ⟨h, .writing⟩ (sys.store.getMissHandler key m).1 := by
      rw [step, hpair]
    obtain ⟨hissued, fill, hfill, hkey, htags⟩ :=
      getMissHandler_fill hpair hpersistent
    have hfillIs : (sys.step (.getMissHandler key m)).FillIs h.id key.combined
        (sys.store.declaredTags m.headers) := by
      rw [hstart]
      refine ⟨hissued, fun fill' hfill' => ?_⟩
      obtain rfl := Option.some.inj (hfill.symm.trans hfill')
      exact ⟨hkey, htags⟩
    have hinv' := (hinv.step (.getMissHandler key m)).run during
    obtain ⟨entry, hentry, hcarried⟩ :=
      (hfillIs.run (hinv.step _) during).admitted hinv' hadmits
    have hcoherent' :
        ((sys.step (.getMissHandler key m)).run during).store.Coherent :=
      run_invariant (P := fun sys : System => sys.store.Coherent)
        (fun _ op h => coherent_step h op) (coherent_step hcoherent _) during
    exact purges_firstTags_iff (hinv'.step _) (coherent_step hcoherent' _)
      hentry hcarried hheader
  · intro hupdated
    obtain ⟨entry, hentry, hcarried⟩ := updateMeta_entry hupdated
    exact purges_firstTags_iff (hinv.step (.updateMeta key m))
      (coherent_step hcoherent _) hentry hcarried hheader

/-- A response with the given lines of tags. -/
def taggedMeta (values : List HeaderValue) : EntryMeta where
  headers := values.map fun value =>
    (⟨"x-harmost-cache-tags".toList, by decide, by decide⟩, value)
  serialized := some ([], [])

/-- Two tags in one line: the second one purges the entry. -/
theorem declared_tags_purgeable_one_line :
    let line : HeaderValue := ⟨asciiBytes "a, b".toList, by decide⟩
    let key : StoreKey := ⟨['k'], []⟩
    let sys := ((init {}).run []).step (.getMissHandler key (taggedMeta [line]))
    (sys.run [.beginFinish 0]).Admits 0 ∧ ['b'] ∈ firstTags [line] ∧
      Purges ((sys.run [.beginFinish 0]).step (.completeFinish 0)).store
        ['b'] ['k'] := by
  intro line key sys
  have hadmits : (sys.run [.beginFinish 0]).Admits 0 :=
    admits_of_isSome (by decide +kernel) (by decide +kernel)
  have hlines : AllInFirstLine [line] :=
    .inr ⟨line, [], rfl, rfl, .inr fun _ htag => (List.not_mem_nil htag).elim⟩
  have hdeclared : ['b'] ∈ firstTags [line] := by decide
  have hiff := (declared_tags_purgeable_iff {} [] key (taggedMeta [line])).1
    ⟨['k'], 0, 2⟩ [.beginFinish 0] rfl rfl hadmits
  exact ⟨hadmits, hdeclared, hiff.mpr hlines ['b'] hdeclared⟩

theorem not_purges_of_isSome {s : BoundedStore} {tag key : Str}
    (h : ((s.purgeTags [tag]).1.cached.lookup key).isSome = true) :
    ¬Purges s tag key := by
  intro hpurged
  rw [hpurged] at h
  cases h

/-- The same tags in two lines: the second one purges nothing. -/
theorem second_line_not_purgeable :
    let line : HeaderValue := ⟨asciiBytes "a".toList, by decide⟩
    let line' : HeaderValue := ⟨asciiBytes "b".toList, by decide⟩
    let key : StoreKey := ⟨['k'], []⟩
    let sys := (init {}).run
      [.getMissHandler key (taggedMeta [line, line']), .beginFinish 0,
        .completeFinish 0]
    ['b'] ∈ firstTags [line, line'] ∧ ¬Purges sys.store ['b'] ['k'] ∧
      (sys.store.updateMeta key (taggedMeta [line, line'])).2 = some true ∧
      ¬Purges (sys.step (.updateMeta key (taggedMeta [line, line']))).store
        ['b'] ['k'] := by
  intro line line' key sys
  exact ⟨by decide, not_purges_of_isSome (by decide +kernel),
    by decide +kernel, not_purges_of_isSome (by decide +kernel)⟩

end System

end Harmost.Cache
