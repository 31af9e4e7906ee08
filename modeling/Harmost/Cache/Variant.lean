import Harmost.Cache.Key

/-!
# What the variant list of a key keeps

The variant list is collected header by header, joined, and sorted together with
the content coding.  Sorting forgets which entry came from where, so everything
below is read off the number of times an entry occurs.
-/

namespace Harmost.Cache

open Harmost.Support
open Harmost.Http
open Harmost.Classifier

/-! ## One header -/

theorem separator_notMem_headerText (value : HeaderValue) :
    '\u001d' ∉ headerText value := by
  intro h
  have hprintable := printable_of_mem_escapeAscii h
  revert hprintable
  decide

/-- The rendered values of a header keep the whole list of its values, and tell
an absent header from an empty one. -/
theorem headerValues_eq_iff (req req' : RequestMetadata) (name : Str) :
    headerValues req name = headerValues req' name ↔
      req.headers.getAll name = req'.headers.getAll name := by
  constructor
  · intro h
    apply List.map_injective_iff.mpr headerText_injective
    have hseparator : ∀ values : List HeaderValue,
        ∀ part ∈ values.map headerText, '\u001d' ∉ part := by
      intro values part hpart
      obtain ⟨value, _, rfl⟩ := List.mem_map.mp hpart
      exact separator_notMem_headerText value
    simp only [headerValues, List.isEmpty_iff] at h
    split at h
    next hempty =>
      split at h
      next hempty' => rw [hempty, hempty']
      next => cases h
    next hvalues =>
      split at h
      next => cases h
      next hvalues' =>
        exact join_injOn '\u001d' (hseparator _) (hseparator _) hvalues
          hvalues' (Option.some.inj h)
  · intro h
    rw [headerValues, headerValues, h]

/-- The content coding is a function of the `Accept-Encoding` values. -/
theorem normalizeAcceptEncoding_congr {req req' : RequestMetadata}
    (h : req.headers.getAll "accept-encoding".toList =
      req'.headers.getAll "accept-encoding".toList) :
    normalizeAcceptEncoding req = normalizeAcceptEncoding req' := by
  unfold normalizeAcceptEncoding
  rw [h]

/-! ## Counting entries -/

namespace KeyBuilder

variable (builder : KeyBuilder)

/-- How often the settings name a header. -/
def nameCount (name : Str) : ℕ :=
  builder.variantHeaders.countP fun header => toAsciiLowercase header == name

theorem nameCount_pos_iff (name : Str) :
    0 < builder.nameCount name ↔
      ∃ header ∈ builder.variantHeaders, toAsciiLowercase header = name := by
  simp [nameCount, List.countP_pos_iff]

/-- The entries collected from the named headers. -/
def headerEntries (req : RequestMetadata) : List (Str × Str) :=
  builder.variantHeaders.filterMap fun header =>
    (headerValues req (toAsciiLowercase header)).map fun value =>
      (toAsciiLowercase header, value)

theorem count_headerEntries (req : RequestMetadata) (name value : Str) :
    (builder.headerEntries req).count (name, value) =
      if headerValues req name = some value then builder.nameCount name
      else 0 := by
  rw [headerEntries, List.count_filterMap]
  split
  next hvalue =>
    apply List.countP_congr
    intro header _
    simp only [beq_iff_eq, Option.map_eq_some_iff, Prod.mk.injEq]
    constructor
    · rintro ⟨_, _, hname, _⟩
      exact hname
    · rintro rfl
      exact ⟨value, hvalue, rfl, rfl⟩
  next hvalue =>
    rw [List.countP_eq_zero]
    intro header _
    simp only [beq_iff_eq, Option.map_eq_some_iff, Prod.mk.injEq]
    rintro ⟨other, hother, rfl, rfl⟩
    exact hvalue hother

/-- An entry occurs once for every setting that names its header, and once more
when it is the content coding. -/
theorem count_variantEntries (req : RequestMetadata) (name value : Str) :
    (builder.variantEntries req).count (name, value) =
      (if headerValues req name = some value then builder.nameCount name
        else 0) +
      (if encodingEntry = name ∧ normalizeAcceptEncoding req = value then 1
        else 0) := by
  have hsplit : builder.variantEntries req =
      builder.headerEntries req ++
        [(encodingEntry, normalizeAcceptEncoding req)] := rfl
  rw [hsplit, List.count_append, count_headerEntries, List.count_singleton]
  simp

/-! ## What equal variant lists have in common -/

variable {builder} {req req' : RequestMetadata}

/-- The sorted variant list is determined by how often each entry occurs. -/
theorem variant_eq_of_count_eq
    (h : ∀ name value,
      (builder.variantEntries req).count (name, value) =
        (builder.variantEntries req').count (name, value)) :
    (builder.build req).variant = (builder.build req').variant := by
  have hperm :
      (builder.variantEntries req).Perm (builder.variantEntries req') := by
    rw [List.perm_iff_count]
    rintro ⟨name, value⟩
    exact h name value
  have hsorted : ∀ entries : List (Str × Str),
      (entries.insertionSort variantLe).Pairwise variantLe := by
    intro entries
    have : IsTrans _ variantLe := ⟨fun _ _ _ => le_trans⟩
    have : Std.Total variantLe := ⟨fun a b => le_total (toLex a) (toLex b)⟩
    exact List.pairwise_insertionSort variantLe entries
  apply List.Perm.eq_of_pairwise _ (hsorted _) (hsorted _)
  · exact (List.perm_insertionSort variantLe _).trans
      (hperm.trans (List.perm_insertionSort variantLe _).symm)
  · intro entry entry' _ _ hle hge
    exact toLex_inj.mp (le_antisymm hle hge)

theorem count_eq_of_build_eq (h : builder.build req = builder.build req')
    (name value : Str) :
    (builder.variantEntries req).count (name, value) =
      (builder.variantEntries req').count (name, value) := by
  have hsorted :
      (builder.variantEntries req).insertionSort variantLe =
        (builder.variantEntries req').insertionSort variantLe :=
    congrArg CacheKey.variant h
  have hperm :
      (builder.variantEntries req).Perm (builder.variantEntries req') := by
    apply (List.perm_insertionSort variantLe _).symm.trans
    rw [hsorted]
    exact List.perm_insertionSort variantLe _
  exact hperm.count_eq _

/-- Equal keys agree on every named header, unless it shares its name with the
content coding and the codings differ. -/
theorem getAll_eq_of_build_eq (h : builder.build req = builder.build req')
    {header : Str} (hheader : header ∈ builder.variantHeaders)
    (hcoding : toAsciiLowercase header = encodingEntry →
      normalizeAcceptEncoding req = normalizeAcceptEncoding req') :
    req.headers.getAll header = req'.headers.getAll header := by
  have hpos : 0 < builder.nameCount (toAsciiLowercase header) :=
    (builder.nameCount_pos_iff _).mpr ⟨header, hheader, rfl⟩
  rw [← HeaderMap.getAll_toAsciiLowercase req.headers,
    ← HeaderMap.getAll_toAsciiLowercase req'.headers, ← headerValues_eq_iff]
  apply Option.ext
  intro value
  have hcount := count_eq_of_build_eq h (toAsciiLowercase header) value
  rw [count_variantEntries, count_variantEntries] at hcount
  -- The content coding contributes the same to both sides.
  have hextra :
      (encodingEntry = toAsciiLowercase header ∧
          normalizeAcceptEncoding req = value ↔
        encodingEntry = toAsciiLowercase header ∧
          normalizeAcceptEncoding req' = value) := by
    constructor
    · rintro ⟨hname, hvalue⟩
      exact ⟨hname, hcoding hname.symm ▸ hvalue⟩
    · rintro ⟨hname, hvalue⟩
      exact ⟨hname, (hcoding hname.symm).symm ▸ hvalue⟩
  rw [if_congr hextra rfl rfl, Nat.add_right_cancel_iff] at hcount
  constructor
  · intro hvalue
    by_contra hvalue'
    rw [if_pos hvalue, if_neg hvalue'] at hcount
    omega
  · intro hvalue'
    by_contra hvalue
    rw [if_neg hvalue, if_pos hvalue'] at hcount
    omega

/-- Equal keys agree on the content coding when no named header takes its
name. -/
theorem normalizeAcceptEncoding_eq_of_build_eq
    (h : builder.build req = builder.build req')
    (hnames : ∀ header ∈ builder.variantHeaders,
      toAsciiLowercase header ≠ encodingEntry) :
    normalizeAcceptEncoding req = normalizeAcceptEncoding req' := by
  have hzero : builder.nameCount encodingEntry = 0 := by
    apply Nat.eq_zero_of_not_pos
    intro hpos
    obtain ⟨header, hmem, hname⟩ := (builder.nameCount_pos_iff _).mp hpos
    exact hnames header hmem hname
  have hcount :=
    count_eq_of_build_eq h encodingEntry (normalizeAcceptEncoding req)
  rw [count_variantEntries, count_variantEntries, hzero] at hcount
  by_contra hne
  simp [Ne.symm hne] at hcount

end KeyBuilder

end Harmost.Cache
