import Harmost.Cache.Key
import Harmost.Support.FormUrlencoded

/-!
# The canonical query and the origin's view of a query

An include list keeps the pairs whose name is spelled as listed.  The origin
decodes names before it compares them, so a listed parameter can reach it under
a spelling that the key leaves out.
-/

namespace Harmost.Cache

open Harmost.Support
open Harmost.Config

/-- The non-empty pieces of a query. -/
def pieces (raw : Str) : List Str :=
  (raw.splitOn '&').filter fun p => !p.isEmpty

/-- A piece cut at its first `=`.  A piece without one has no value. -/
def cut (piece : Str) : Str × Option Str :=
  (piece.takeWhile (· != '='),
    if '=' ∈ piece then some (piece.dropWhile (· != '=')).tail else none)

/-- Is a parameter part of the key?  Without a policy all are, with an include
list those listed, with an exclude list the others. -/
def counts : Option QueryPolicy → Str → Bool
  | none, _ => true
  | some ⟨.«include», keys⟩, name => keys.contains name
  | some ⟨.exclude, keys⟩, name => !keys.contains name

/-- The parameters of a query that are part of the key, in request order. -/
def counted (policy : Option QueryPolicy) (raw : Str) :
    List (Str × Option Str) :=
  ((pieces raw).map cut).filter fun pair => counts policy pair.1

/-- The same parameters in the same order, or in any order if no name
repeats. -/
def SamePairs (pairs pairs' : List (Str × Option Str)) : Prop :=
  pairs = pairs' ∨
    (pairs.map Prod.fst).Nodup ∧ (pairs'.map Prod.fst).Nodup ∧
      pairs.Perm pairs'

/-- The values an origin reads for one parameter, in order. -/
def originValues (name raw : Str) : List (List UInt8) :=
  (((pieces raw).map cut).filter fun pair =>
    formDecode pair.1 == utf8 name).map fun pair =>
      formDecode (pair.2.getD [])

def includeOnly (keys : List Str) : Option QueryPolicy :=
  some ⟨.«include», keys⟩

/-! ## What the canonical query keeps -/

theorem queryPair_eq_cut (piece : Str) : queryPair piece = cut piece := by
  rw [queryPair, cut, splitOnce_eq]
  split_ifs with hmem
  · rfl
  · have hwhole : piece.takeWhile (· != '=') = piece := by
      rw [List.takeWhile_eq_self_iff]
      intro c hc
      simp only [bne_iff_ne, ne_eq]
      rintro rfl
      exact hmem hc
    rw [hwhole]

theorem queryPairs_eq_counted (raw : Str) (policy : Option QueryPolicy) :
    queryPairs raw policy = counted policy raw := by
  have hkeep : keepQueryPair policy = fun pair => counts policy pair.1 := by
    funext pair
    rcases policy with _ | ⟨mode, keys⟩
    · rfl
    · have hlisted : keys.any (· == pair.1) = keys.contains pair.1 := by
        rw [List.contains_eq_any_beq]
        simp only [BEq.comm]
      cases mode with
      | «include» => exact hlisted
      | exclude => exact congrArg (!·) hlisted
  rw [queryPairs, counted, pieces, hkeep, funext queryPair_eq_cut]

theorem renderQueryPair_queryPair (p : Str) :
    renderQueryPair (queryPair p) = p := by
  unfold queryPair
  split
  next k v hsplit =>
    rw [renderQueryPair]
    exact (splitOnce_eq_some hsplit).1.symm
  next => rfl

theorem amp_notMem_of_mem_pieces {raw p : Str} (hp : p ∈ pieces raw) :
    '&' ∉ p :=
  notMem_of_mem_splitOn (List.mem_of_mem_filter hp)

theorem ne_nil_of_mem_pieces {raw p : Str} (hp : p ∈ pieces raw) : p ≠ [] := by
  simpa using (List.mem_filter.mp hp).2

theorem perm_sortUniquePairs (pairs : List QueryPair) :
    (sortUniquePairs pairs).Perm pairs := by
  unfold sortUniquePairs
  split
  · exact List.perm_insertionSort QueryPair.le pairs
  · exact List.Perm.refl pairs

variable {policy : Option QueryPolicy}

/-- A pair of the canonical query was a piece of the raw one. -/
theorem exists_piece_of_mem {raw : Str} {pair : QueryPair}
    (h : pair ∈ sortUniquePairs (queryPairs raw policy)) :
    ∃ p ∈ pieces raw, queryPair p = pair := by
  have hmem := (perm_sortUniquePairs _).mem_iff.mp h
  exact List.mem_map.mp (List.mem_of_mem_filter hmem)

theorem canonicalQuery_eq (raw : Str) (policy : Option QueryPolicy) :
    canonicalQuery raw policy =
      join '&' ((sortUniquePairs (queryPairs raw policy)).map
        renderQueryPair) := by
  unfold canonicalQuery
  split
  next hempty =>
    obtain rfl : raw = [] := by simpa using hempty
    simp [queryPairs, sortUniquePairs, join]
  next => rfl

theorem pieces_join {parts : List Str} (hamp : ∀ part ∈ parts, '&' ∉ part)
    (hne : ∀ part ∈ parts, part ≠ []) : pieces (join '&' parts) = parts := by
  by_cases hempty : parts = []
  · subst parts
    rfl
  · have hsplit : (join '&' parts).splitOn '&' = parts :=
      List.splitOn_intercalate '&' hamp hempty
    rw [pieces, hsplit, List.filter_eq_self]
    intro part hpart
    simpa using hne part hpart

theorem sortUniquePairs_keeps {raw : Str} {pair : QueryPair}
    (h : pair ∈ sortUniquePairs (queryPairs raw policy)) :
    keepQueryPair policy pair = true :=
  (List.mem_filter.mp ((perm_sortUniquePairs _).mem_iff.mp h)).2

/-- The pairs, in canonical order, can be read back from the rendering. -/
theorem queryPairs_canonicalQuery (raw : Str) (policy : Option QueryPolicy) :
    queryPairs (canonicalQuery raw policy) policy =
      sortUniquePairs (queryPairs raw policy) := by
  have hpiece : ∀ part ∈
      (sortUniquePairs (queryPairs raw policy)).map renderQueryPair,
        part ∈ pieces raw := by
    intro part hpart
    obtain ⟨pair, hpair, rfl⟩ := List.mem_map.mp hpart
    obtain ⟨p, hp, rfl⟩ := exists_piece_of_mem hpair
    rwa [renderQueryPair_queryPair]
  have hpieces := pieces_join
    (fun part hpart => amp_notMem_of_mem_pieces (hpiece part hpart))
    (fun part hpart => ne_nil_of_mem_pieces (hpiece part hpart))
  have hback : ((sortUniquePairs (queryPairs raw policy)).map
      renderQueryPair).map queryPair =
        sortUniquePairs (queryPairs raw policy) := by
    rw [List.map_map]
    conv_rhs => rw [← List.map_id (sortUniquePairs (queryPairs raw policy))]
    apply List.map_congr_left
    intro pair hpair
    obtain ⟨p, _, rfl⟩ := exists_piece_of_mem hpair
    simp [renderQueryPair_queryPair]
  rw [canonicalQuery_eq, queryPairs, ← pieces, hpieces, hback,
    List.filter_eq_self]
  intro pair hpair
  exact sortUniquePairs_keeps hpair

theorem sortUniquePairs_eq_of_canonicalQuery_eq {raw raw' : Str}
    (h : canonicalQuery raw policy = canonicalQuery raw' policy) :
    sortUniquePairs (queryPairs raw policy) =
      sortUniquePairs (queryPairs raw' policy) := by
  rw [← queryPairs_canonicalQuery, h, queryPairs_canonicalQuery]

/-! ## What the canonical query identifies -/

theorem QueryPair.sortKey_injective : Function.Injective QueryPair.sortKey := by
  rintro ⟨k, v⟩ ⟨k', v'⟩ h
  cases v <;> cases v' <;> simp_all [QueryPair.sortKey]

theorem pairwise_le_insertionSort (pairs : List QueryPair) :
    (pairs.insertionSort QueryPair.le).Pairwise QueryPair.le := by
  have : IsTrans _ QueryPair.le := ⟨fun _ _ _ => le_trans⟩
  have : Std.Total QueryPair.le :=
    ⟨fun a b => le_total (QueryPair.sortKey a) (QueryPair.sortKey b)⟩
  exact List.pairwise_insertionSort QueryPair.le pairs

/-- Sorting forgets the order and nothing else. -/
theorem insertionSort_eq_iff_perm {pairs pairs' : List QueryPair} :
    pairs.insertionSort QueryPair.le = pairs'.insertionSort QueryPair.le ↔
      pairs.Perm pairs' := by
  have hsort := List.perm_insertionSort QueryPair.le
  constructor
  · intro h
    exact (hsort pairs).symm.trans (h ▸ hsort pairs')
  · intro hperm
    apply List.Perm.eq_of_pairwise _ (pairwise_le_insertionSort pairs)
      (pairwise_le_insertionSort pairs')
    · exact (hsort pairs).trans (hperm.trans (hsort pairs').symm)
    · intro pair pair' _ _ hle hge
      exact QueryPair.sortKey_injective (le_antisymm hle hge)

theorem nodup_sortUniquePairs_iff (pairs : List QueryPair) :
    ((sortUniquePairs pairs).map Prod.fst).Nodup ↔
      (pairs.map Prod.fst).Nodup :=
  ((perm_sortUniquePairs pairs).map Prod.fst).nodup_iff

theorem sortUniquePairs_eq_iff {pairs pairs' : List QueryPair} :
    sortUniquePairs pairs = sortUniquePairs pairs' ↔
      SamePairs pairs pairs' := by
  constructor
  · intro h
    have hnodup := nodup_sortUniquePairs_iff pairs
    rw [h, nodup_sortUniquePairs_iff] at hnodup
    by_cases hunique : (pairs.map Prod.fst).Nodup
    · have hunique' := hnodup.mpr hunique
      rw [sortUniquePairs, if_pos hunique, sortUniquePairs, if_pos hunique',
        insertionSort_eq_iff_perm] at h
      exact Or.inr ⟨hunique, hunique', h⟩
    · rw [sortUniquePairs, if_neg hunique, sortUniquePairs,
        if_neg (hunique ∘ hnodup.mp)] at h
      exact Or.inl h
  · rintro (rfl | ⟨hunique, hunique', hperm⟩)
    · rfl
    · rwa [sortUniquePairs, if_pos hunique, sortUniquePairs, if_pos hunique',
        insertionSort_eq_iff_perm]

theorem sortUniquePairs_sortUniquePairs (pairs : List QueryPair) :
    sortUniquePairs (sortUniquePairs pairs) = sortUniquePairs pairs := by
  rw [sortUniquePairs_eq_iff]
  by_cases hunique : (pairs.map Prod.fst).Nodup
  · exact Or.inr ⟨(nodup_sortUniquePairs_iff pairs).mpr hunique, hunique,
      perm_sortUniquePairs pairs⟩
  · left
    rw [sortUniquePairs, if_neg hunique]

theorem canonicalQuery_eq_iff {raw raw' : Str} :
    canonicalQuery raw policy = canonicalQuery raw' policy ↔
      SamePairs (counted policy raw) (counted policy raw') := by
  rw [← queryPairs_eq_counted, ← queryPairs_eq_counted,
    ← sortUniquePairs_eq_iff]
  constructor
  · exact sortUniquePairs_eq_of_canonicalQuery_eq
  · intro h
    rw [canonicalQuery_eq, h, ← canonicalQuery_eq]

/-- The canonical query identifies two queries exactly when the same
parameters count in both in the same order, or in any order when no name
repeats.  Canonicalising twice is canonicalising once. -/
theorem canonicalQuery_characterised (policy : Option QueryPolicy) :
    (∀ raw raw' : Str,
      canonicalQuery raw policy = canonicalQuery raw' policy ↔
        counted policy raw = counted policy raw' ∨
          ((counted policy raw).map Prod.fst).Nodup ∧
            ((counted policy raw').map Prod.fst).Nodup ∧
              (counted policy raw).Perm (counted policy raw')) ∧
    ∀ raw : Str, canonicalQuery (canonicalQuery raw policy) policy =
      canonicalQuery raw policy := by
  refine ⟨fun _ _ => canonicalQuery_eq_iff, ?_⟩
  intro raw
  rw [canonicalQuery_eq (canonicalQuery raw policy),
    queryPairs_canonicalQuery, sortUniquePairs_sortUniquePairs,
    ← canonicalQuery_eq]

/-- A repeated name keeps its order; distinct names do not. -/
example :
    canonicalQuery "b=2&a=1".toList none =
        canonicalQuery "a=1&b=2".toList none ∧
      canonicalQuery "a=2&a=1".toList none ≠
        canonicalQuery "a=1&a=2".toList none := by
  decide

/-- Canonical order keeps the pairs of one name in request order. -/
theorem filter_eq_of_sortUniquePairs_eq {pairs pairs' : List QueryPair}
    (h : sortUniquePairs pairs = sortUniquePairs pairs') (name : Str) :
    pairs.filter (fun pair => pair.1 == name) =
      pairs'.filter (fun pair => pair.1 == name) := by
  have hperm : pairs.Perm pairs' := by
    apply (perm_sortUniquePairs pairs).symm.trans
    rw [h]
    exact perm_sortUniquePairs pairs'
  have hnames := (hperm.map Prod.fst).nodup_iff
  by_cases hnodup : (pairs.map Prod.fst).Nodup
  · -- A name occurs at most once, and so short a list has one order.
    have hshort : (pairs.filter fun pair => pair.1 == name).length ≤ 1 := by
      rw [← List.countP_eq_length_filter]
      have hcount := List.nodup_iff_count_le_one.mp hnodup name
      rwa [List.count, List.countP_map] at hcount
    have hfilter := hperm.filter fun pair => pair.1 == name
    cases hcase : pairs.filter fun pair => pair.1 == name with
    | nil =>
        rw [hcase] at hfilter
        exact hfilter.nil_eq
    | cons pair rest =>
        rw [hcase, List.length_cons] at hshort
        obtain rfl : rest = [] := List.eq_nil_of_length_eq_zero (by omega)
        rw [hcase] at hfilter
        exact (List.perm_singleton.mp hfilter.symm).symm
  · rw [sortUniquePairs, if_neg hnodup, sortUniquePairs,
      if_neg (hnames.not.mp hnodup)] at h
    rw [h]

/-! ## Spellings of a listed name -/

/-- Whatever the origin reads as this parameter is spelled as it is listed. -/
def SpelledAsListed (name raw : Str) : Prop :=
  ∀ piece ∈ pieces raw,
    formDecode (cut piece).1 = utf8 name → (cut piece).1 = name

theorem originValues_of_spelledAsListed {keys : List Str} {raw name : Str}
    (h : SpelledAsListed name raw) (hname : name ∈ keys) :
    originValues name raw =
      if formDecode name = utf8 name then
        ((counted (includeOnly keys) raw).filter fun pair =>
          pair.1 == name).map fun pair => formDecode (pair.2.getD [])
      else [] := by
  have hspelled : ∀ pair ∈ (pieces raw).map cut,
      formDecode pair.1 = utf8 name → pair.1 = name := by
    intro pair hpair horigin
    obtain ⟨piece, hpiece, rfl⟩ := List.mem_map.mp hpair
    exact h piece hpiece horigin
  unfold originValues
  split
  next hplain =>
    rw [counted, List.filter_filter]
    congr 1
    apply List.filter_congr
    intro pair hpair
    rw [Bool.eq_iff_iff, Bool.and_eq_true, beq_iff_eq, beq_iff_eq]
    constructor
    · intro horigin
      have hfst := hspelled pair hpair horigin
      refine ⟨hfst, ?_⟩
      rw [hfst]
      exact List.contains_iff_mem.mpr hname
    · rintro ⟨hfst, _⟩
      rw [hfst, hplain]
  next hplain =>
    rw [List.map_eq_nil_iff, List.filter_eq_nil_iff]
    intro pair hpair horigin
    apply hplain
    rw [beq_iff_eq] at horigin
    rw [← horigin, hspelled pair hpair horigin]

end Harmost.Cache
