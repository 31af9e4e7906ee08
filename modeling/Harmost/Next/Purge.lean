import Harmost.Admin.Purge
import Harmost.Next.Policy

/-!
# The purge client

`createPurger` writes the tags and paths of a purge into a query, and the admin
listener reads them back.  Nothing that is in a tag or a path can change the
shape of the query, because both sides agree on the escapes.
-/

namespace Harmost.Next

open Harmost.Support
open Harmost.Admin

/-! ## Writing a request -/

def assertValue (kind : String) (value : Str) : Except Str Unit :=
  if value.isEmpty then .error (kind ++ " must be a non-empty string").toList
  else .ok ()

/-- A tag with a comma in it was never stored. -/
def assertTag (tag : Str) : Except Str Unit :=
  (assertValue "tag" tag).bind fun _ =>
    if tag.contains ',' then
      .error ("tag ".toList ++ jsonString tag ++
        (" contains a comma. The tag header is comma-separated, so a tag " ++
          "with one in it was never stored under that name and purging it " ++
          "would match nothing.").toList)
    else .ok ()

def assertPath (path : Str) : Except Str Unit :=
  (assertValue "path" path).bind fun _ =>
    if path.head? = some '/' then .ok ()
    else
      .error ("path ".toList ++ jsonString path ++
        (" must be absolute; Harmost stores the request path, which always " ++
          "begins with \"/\"").toList)

/-- `[...new Set(values)].filter(Boolean)`. -/
def purgeList (values : List Str) : List Str :=
  (distinct values).filter fun value => !value.isEmpty

/-- `list.forEach(check)`. -/
def forEach (check : Str → Except Str Unit) : List Str → Except Str Unit
  | [] => .ok ()
  | value :: rest => (check value).bind fun _ => forEach check rest

/-- The parameters of a purge by tags and paths in a single request. -/
def purge (tags paths : List Str) : Except Str (List (Str × Str)) :=
  let tagList := purgeList tags
  let pathList := purgeList paths
  (forEach assertTag tagList).bind fun _ =>
  (forEach assertPath pathList).bind fun _ =>
  if tagList.isEmpty && pathList.isEmpty then
    .error "purge needs at least one tag or path".toList
  else
    .ok (tagList.map (fun tag => ("tag".toList, tag)) ++
      pathList.map fun path => ("path".toList, path))

/-- The query `sendOne` gives to the URL of the listener. -/
def search (params : List (Str × Str)) : Str :=
  escapePlus (formSerializePairs params)

/-! ## What is sent -/

theorem purgeList_eq {values : List Str} (h : ∀ value ∈ values, value ≠ []) :
    purgeList values = distinct values := by
  rw [purgeList, List.filter_eq_self]
  intro value hmem
  simpa using h value (mem_distinct.mp hmem)

theorem forEach_eq_ok {check : Str → Except Str Unit} {values : List Str}
    (h : ∀ value ∈ values, check value = .ok ()) :
    forEach check values = .ok () := by
  induction values with
  | nil => rfl
  | cons value rest ih =>
      rw [forEach, h value List.mem_cons_self]
      exact ih fun v hv => h v (List.mem_cons_of_mem _ hv)

theorem assertTag_eq_ok {tag : Str} (hne : tag ≠ []) (hcomma : ',' ∉ tag) :
    assertTag tag = .ok () := by
  rw [assertTag, assertValue, if_neg (by simpa using hne)]
  exact if_neg (by simpa using hcomma)

theorem assertPath_eq_ok {path : Str} (hpath : path.head? = some '/') :
    assertPath path = .ok () := by
  have hne : path ≠ [] := by
    rintro rfl
    cases hpath
  rw [assertPath, assertValue, if_neg (by simpa using hne)]
  exact if_pos hpath

/-! ## What is read -/

/-- One parameter as the query spells it. -/
def pairText (name value : Str) : Str :=
  name ++ '=' :: escapePlus (formSerialize value)

theorem escapePlus_pair {name : Str} (hname : formSerialize name = name)
    (hplus : '+' ∉ name) (value : Str) :
    escapePlus (formSerialize name ++ '=' :: formSerialize value) =
      pairText name value := by
  rw [hname, escapePlus_append, escapePlus_of_notMem hplus]
  rfl

theorem readPair_pairText {name : Str} (hname : '=' ∉ name)
    (read : PurgeQuery) (value : Str) :
    readPair read (pairText name value) = readParameter read name value := by
  rw [readPair, pairText, splitOnce_append_cons hname]
  simp only [Option.getD_some, percentDecode_escapePlus, fromUtf8_utf8]

theorem amp_notMem_pairText {name : Str} (hname : '&' ∉ name) (value : Str) :
    '&' ∉ pairText name value := by
  rw [pairText, List.mem_append, List.mem_cons]
  rintro (hmem | heq | hmem)
  · exact hname hmem
  · exact absurd heq (by decide)
  · exact notMem_escapePlus (.inl rfl) value hmem

theorem search_eq (tags paths : List Str) :
    search (tags.map (fun tag => ("tag".toList, tag)) ++
      paths.map fun path => ("path".toList, path)) =
      join '&' (tags.map (pairText "tag".toList) ++
        paths.map (pairText "path".toList)) := by
  have htag : ∀ tag, escapePlus (formSerialize "tag".toList ++
      '=' :: formSerialize tag) = pairText "tag".toList tag :=
    escapePlus_pair rfl (by decide)
  have hpath : ∀ path, escapePlus (formSerialize "path".toList ++
      '=' :: formSerialize path) = pairText "path".toList path :=
    escapePlus_pair rfl (by decide)
  rw [search, formSerializePairs, escapePlus_join, List.map_append,
    List.map_append]
  simp only [List.map_map, Function.comp_def, htag, hpath]

/-- The loop of the server over the parameters of the client. -/
theorem foldlM_readPair {tags paths : List Str} (htags : tags.Nodup)
    (hpaths : paths.Nodup) (htag : ∀ tag ∈ tags, tag ≠ [])
    (hpath : ∀ path ∈ paths, path.head? = some '/')
    (htagRoom : tags.length ≤ maxPurgeTags)
    (hpathRoom : paths.length ≤ maxPurgeTags) :
    (tags.map (pairText "tag".toList) ++
      paths.map (pairText "path".toList)).foldlM readPair {} =
        .ok { tags := tags, paths := paths } := by
  have hreadTags : (tags.map (pairText "tag".toList)).foldlM readPair {} =
      .ok { tags := tags } := by
    refine foldlM_collect (fun values => { tags := values }) _
      (fun values value hvalue hroom hnew => ?_) htag [] htags htagRoom
    rw [readPair_pairText (by decide)]
    exact readParameter_tag hvalue hroom hnew
  have hreadPaths : (paths.map (pairText "path".toList)).foldlM readPair
      { tags := tags } = .ok { tags := tags, paths := paths } := by
    refine foldlM_collect (fun values => { tags := tags, paths := values }) _
      (fun values value hvalue hroom hnew => ?_) hpath [] hpaths hpathRoom
    rw [readPair_pairText (by decide)]
    exact readParameter_path hvalue hroom hnew
  rwa [List.foldlM_append, hreadTags]

theorem parsePurgeQuery_join {pairs : List Str} (hne : pairs ≠ [])
    (hpairs : ∀ pair ∈ pairs, pair ≠ [] ∧ '&' ∉ pair) :
    parsePurgeQuery (some (join '&' pairs)) =
      (pairs.foldlM readPair {}).bind PurgeQuery.request := by
  have hsplit : (join '&' pairs).splitOn '&' = pairs :=
    List.splitOn_intercalate '&' (fun pair hmem => (hpairs pair hmem).2) hne
  have htext : join '&' pairs ≠ [] := by
    intro hnil
    rw [hnil, List.splitOn_nil] at hsplit
    exact (hpairs [] (hsplit ▸ List.mem_singleton_self [])).1 rfl
  rw [parsePurgeQuery, Option.filter_some, if_pos (by simpa using htext)]
  dsimp only
  rw [hsplit]

theorem parsePurgeQuery_search {tags paths : List Str}
    (hsome : tags ≠ [] ∨ paths ≠ []) (htags : tags.Nodup)
    (hpaths : paths.Nodup) (htag : ∀ tag ∈ tags, tag ≠ [])
    (hpath : ∀ path ∈ paths, path.head? = some '/')
    (htagRoom : tags.length ≤ maxPurgeTags)
    (hpathRoom : paths.length ≤ maxPurgeTags) :
    parsePurgeQuery (some (search
      (tags.map (fun tag => ("tag".toList, tag)) ++
        paths.map fun path => ("path".toList, path)))) =
      .ok (.selective tags paths) := by
  have hne : tags.map (pairText "tag".toList) ++
      paths.map (pairText "path".toList) ≠ [] := by
    simpa [or_iff_not_imp_left] using hsome
  have hpairs : ∀ pair ∈ tags.map (pairText "tag".toList) ++
      paths.map (pairText "path".toList), pair ≠ [] ∧ '&' ∉ pair := by
    intro pair hmem
    rw [List.mem_append, List.mem_map, List.mem_map] at hmem
    rcases hmem with ⟨tag, -, rfl⟩ | ⟨path, -, rfl⟩
    · exact ⟨by simp [pairText], amp_notMem_pairText (by decide) tag⟩
    · exact ⟨by simp [pairText], amp_notMem_pairText (by decide) path⟩
  have hselective : (!tags.isEmpty || !paths.isEmpty) = true := by
    simpa using hsome
  rw [search_eq, parsePurgeQuery_join hne hpairs,
    foldlM_readPair htags hpaths htag hpath htagRoom hpathRoom]
  simp only [Except.bind, PurgeQuery.request, hselective]

/-- Whatever is in the tags and the paths, the server reads the distinct ones
in the order they were given in. -/
theorem parsePurgeQuery_purge {tags paths : List Str}
    (hsome : tags ≠ [] ∨ paths ≠ [])
    (htags : ∀ tag ∈ tags, tag ≠ [] ∧ ',' ∉ tag)
    (hpaths : ∀ path ∈ paths, path.head? = some '/')
    (htagRoom : (distinct tags).length ≤ 128)
    (hpathRoom : (distinct paths).length ≤ 128) :
    ∃ params, purge tags paths = .ok params ∧
      parsePurgeQuery (some (search params)) =
        .ok (.selective (distinct tags) (distinct paths)) := by
  have hpathNe : ∀ path ∈ paths, path ≠ [] := by
    rintro path hmem rfl
    cases hpaths _ hmem
  have hdistinct : distinct tags ≠ [] ∨ distinct paths ≠ [] := by
    simpa only [ne_eq, List.eq_nil_iff_forall_not_mem, mem_distinct] using hsome
  have htag : ∀ tag ∈ distinct tags, tag ≠ [] ∧ ',' ∉ tag :=
    fun tag hmem => htags tag (mem_distinct.mp hmem)
  have hpath : ∀ path ∈ distinct paths, path.head? = some '/' :=
    fun path hmem => hpaths path (mem_distinct.mp hmem)
  have hnone :
      ((distinct tags).isEmpty && (distinct paths).isEmpty) ≠ true := by
    simpa [or_iff_not_imp_left] using hdistinct
  refine ⟨_, ?_, parsePurgeQuery_search hdistinct (nodup_distinct tags)
    (nodup_distinct paths) (fun tag hmem => (htag tag hmem).1) hpath htagRoom
    hpathRoom⟩
  rw [purge, purgeList_eq fun tag hmem => (htags tag hmem).1,
    purgeList_eq hpathNe,
    forEach_eq_ok fun tag hmem =>
      assertTag_eq_ok (htag tag hmem).1 (htag tag hmem).2,
    forEach_eq_ok fun path hmem => assertPath_eq_ok (hpath path hmem)]
  exact if_neg hnone

theorem parsePurgeQuery_purge_reserved :
    let tags := ["a&b=c".toList, "100% +é".toList, "a&b=c".toList]
    let paths := ["/p q?x=1".toList]
    ∃ params, purge tags paths = .ok params ∧
      parsePurgeQuery (some (search params)) =
        .ok (.selective (distinct tags) (distinct paths)) :=
  parsePurgeQuery_purge (.inl (by decide)) (by decide) (by decide) (by decide)
    (by decide)

end Harmost.Next
