import Harmost.Next.Render

/-!
# What a generated configuration says

The mappings and sequences of the file, as a YAML parser reports them.  Every
line below the comment at the top is read as what it was written for, whatever
the strings in it are.
-/

namespace Harmost.Next

open Harmost.Support
open Harmost.Config
open Harmost.Support.Yaml

/-! ## Routes -/

/-- An entry that is there if it has a value. -/
def optionalEntry (key : Str) : Option (List Event) → Fields
  | none => []
  | some events => [(key, events)]

/-- A plain scalar, if there is one. -/
def optionalPlain (key : Str) (value : Option Str) : Fields :=
  optionalEntry key (value.map fun text => [.plain text])

def matchFields (path : Str) (methods : Option (List Str)) : Fields :=
  [("match".toList,
    match methods with
    | none => [.quoted path]
    | some methods => mappingOf
        [("path".toList, [.quoted path]),
          ("methods".toList, (Leaf.flow methods).events)])]

def overrideFields (overrideOrigin : Bool) : Fields :=
  optionalPlain "override_origin".toList
    (if overrideOrigin then some "true".toList else none)

def cacheFields (cache : GeneratedCache) : Fields :=
  optionalPlain "enabled".toList (cache.enabled.map boolText) ++
    overrideFields cache.overrideOrigin ++
    optionalEntry "ttl".toList
      (cache.ttlMax.map fun ttl => mappingOf [("max".toList, [.plain ttl])]) ++
    optionalPlain "stale_if_error".toList cache.staleIfError ++
    optionalEntry "query".toList (cache.queryKeys.map fun keys => mappingOf
      [("mode".toList, [.plain "include".toList]),
        ("keys".toList, (Leaf.flow keys).events)]) ++
    optionalEntry "vary".toList (cache.varyHeaders.map fun headers => mappingOf
      [("headers".toList, (Leaf.flow headers).events)])

def coalesceFields (coalesce : GeneratedCoalesce) : Fields :=
  ("enabled".toList, [.plain (boolText coalesce.enabled)]) ::
    overrideFields coalesce.overrideOrigin

def settingFields (part : Section) (draft : Draft) : Fields :=
  let class_ := [("class".toList, [.plain (classText draft.routeClass)])]
  let weight := optionalPlain "weight".toList (draft.weight.map decimal)
  let priority :=
    optionalPlain "priority".toList (draft.priority.map Priority.name)
  if part = .image then class_ ++ priority ++ weight
  else weight ++ priority ++ class_

def routeFields (entry : Section × GeneratedRoute) : Fields :=
  matchFields entry.2.path entry.2.methods ++
    settingFields entry.1 entry.2.toDraft ++
    optionalEntry "cache".toList
      (entry.2.cache.map fun cache => mappingOf (cacheFields cache)) ++
    optionalEntry "coalesce".toList
      (entry.2.coalesce.map fun coalesce => mappingOf (coalesceFields coalesce))

def routeEvents (entry : Section × GeneratedRoute) : List Event :=
  mappingOf (("id".toList, [.quoted entry.2.id]) :: routeFields entry)

/-! ## The file -/

namespace Configuration

variable (c : Configuration)

def rolloutFields : Fields :=
  if c.rollout = .protect ∨ c.rollout = .coalesce then
    [("cache".toList, mappingOf [("enabled".toList, [.plain "false".toList])]),
      ("coalesce".toList, mappingOf
        [("enabled".toList, [.plain (boolText (c.rollout = .coalesce))])])]
  else []

def deploymentFields : Fields :=
  optionalEntry "deployment".toList
    (if c.includeDeployment then
      some (mappingOf [("id".toList, [.quoted c.identity])])
    else none)

def originFields : Fields :=
  optionalEntry "origin".toList
    (if c.upstreams.isEmpty then none
    else
      some (mappingOf
        ([("upstreams".toList, (Leaf.flow c.upstreams).events),
          ("concurrency".toList, mappingOf
            [("max".toList, [.plain (decimal c.capacity.concurrency)])])] ++
          optionalEntry "priorities".toList (c.lowPriority.map fun low =>
            mappingOf [("low".toList, [.plain (decimal low)])]))))

def groupFields : Fields :=
  optionalEntry "capacity".toList (c.capacity.group.map fun group => mappingOf
    [("global_max".toList, [.plain (decimal group.1)]),
      ("replicas".toList, [.plain (decimal group.2)])])

/-- The routes in file order. -/
def entries : List (Section × GeneratedRoute) :=
  Section.all.flatMap fun part => c.routes.filter fun entry => entry.1 = part

def fields : Fields :=
  ("version".toList, [.plain "1".toList]) ::
    ("mode".toList, [.plain (modeText c.rollout)]) ::
      (c.rolloutFields ++ c.deploymentFields ++ c.originFields ++
        c.groupFields ++
        [("routes".toList, sequenceOf (c.entries.map routeEvents))])

/-- What the file says. -/
def events : List Event :=
  mappingOf c.fields

/-- Durations are plain scalars. -/
def PlainDurations : Prop :=
  ∀ entry ∈ c.routes, ∀ text ∈ entry.2.durations, Writes text (.plain text)

end Configuration

/-! ## Fields -/

section Fields

variable {n : ℕ} {key value : Str} (hkey : isAtom key = true)
include hkey

theorem isMapping_field (n : ℕ) {leaf : Leaf} (hvalue : Writes value leaf) :
    IsMapping n [field n key value] [(key, leaf.events)] :=
  isMapping_leaf hkey n hvalue

theorem isMapping_plain (n : ℕ) (hvalue : isAtom value = true) :
    IsMapping n [field n key value] [(key, [.plain value])] :=
  isMapping_leaf hkey n (writes_of_isAtom hvalue)

theorem isMapping_heading {lines : List Str} {fields : Fields}
    (h : IsMapping (n + 2) lines fields) (hkeys : (fields.map Prod.fst).Nodup) :
    IsMapping n (heading n key :: lines) [(key, mappingOf fields)] :=
  isMapping_mapping hkey h hkeys

theorem isMapping_optionalField (n : ℕ) {value : Option Str}
    (hvalue : ∀ text ∈ value, Writes text (.plain text)) :
    IsMapping n (optionalField n key value) (optionalPlain key value) := by
  cases value with
  | none => exact isMapping_of_comments n (by simp [optionalField])
  | some text => exact isMapping_field hkey n (hvalue text rfl)

end Fields

theorem isAtom_of_isAlphanum {text : Str} (hne : text ≠ [])
    (h : ∀ c ∈ text, c.isAlphanum = true) : isAtom text = true := by
  rw [isAtom, Bool.and_eq_true]
  constructor
  · cases text with
    | nil => exact (hne rfl).elim
    | cons c text => exact h c List.mem_cons_self
  · refine List.all_eq_true.mpr fun c hc => ?_
    rw [isAtomChar, h c hc, Bool.true_or]

theorem isAtom_decimal (n : ℕ) : isAtom (decimal n) = true := by
  refine isAtom_of_isAlphanum (decimal_ne_nil n) fun c hc => ?_
  exact Bool.or_eq_true_iff.mpr (.inr (isDigit_of_mem_decimal hc))

theorem isAtom_boolText (b : Bool) : isAtom (boolText b) = true := by
  cases b <;> decide

theorem isAtom_priority (priority : Priority) :
    isAtom priority.name = true := by
  cases priority <;> decide

theorem isAtom_classText (class_ : ClassOverride) :
    isAtom (classText class_) = true := by
  cases class_ <;> decide

theorem isAtom_modeText (rollout : Rollout) :
    isAtom (Configuration.modeText rollout) = true := by
  cases rollout <;> decide

theorem keys_optionalEntry (key : Str) (value : Option (List Event)) :
    List.Sublist ((optionalEntry key value).map Prod.fst) [key] := by
  cases value with
  | none => exact List.nil_sublist _
  | some events => exact List.Sublist.refl _

theorem writes_of_mem_map {α : Type} {text : α → Str}
    (h : ∀ a, isAtom (text a) = true) (value : Option α) :
    ∀ t ∈ value.map text, Writes t (.plain t) := by
  intro t ht
  obtain ⟨a, -, rfl⟩ := Option.map_eq_some_iff.mp ht
  exact writes_of_isAtom (h a)

/-! ## The lines of a route -/

section Routes

theorem isMapping_emitMatch (path : Str) (methods : Option (List Str)) :
    IsMapping 4 (emitMatch path methods) (matchFields path methods) := by
  cases methods with
  | none => exact isMapping_field (by decide) 4 (writes_quote path)
  | some methods =>
      have hfields := IsMapping.append
        (isMapping_field (by decide : isAtom "path".toList = true) 6
          (writes_quote path))
        (isMapping_field (by decide : isAtom "methods".toList = true) 6
          (writes_inlineList methods))
      have hkeys : ["path".toList, "methods".toList].Nodup := by decide
      exact isMapping_heading (by decide) hfields hkeys

theorem isMapping_overrideLine (overrideOrigin : Bool) :
    IsMapping 6 (overrideLine overrideOrigin)
      (overrideFields overrideOrigin) := by
  cases overrideOrigin with
  | false => exact isMapping_of_comments 6 (by simp [overrideLine])
  | true => exact isMapping_plain (by decide) 6 (by decide)

theorem isMapping_ttlLines {ttl : Option Str}
    (httl : ∀ text ∈ ttl, Writes text (.plain text)) :
    IsMapping 6 (ttlLines ttl) (optionalEntry "ttl".toList
      (ttl.map fun ttl => mappingOf [("max".toList, [.plain ttl])])) := by
  cases ttl with
  | none => exact isMapping_of_comments 6 (by simp [ttlLines])
  | some text =>
      exact isMapping_heading (by decide)
        (isMapping_field (by decide) 8 (httl text rfl))
        (List.nodup_singleton _)

theorem isMapping_queryLines (keys : Option (List Str)) :
    IsMapping 6 (queryLines keys) (optionalEntry "query".toList
      (keys.map fun keys => mappingOf
        [("mode".toList, [.plain "include".toList]),
          ("keys".toList, (Leaf.flow keys).events)])) := by
  cases keys with
  | none => exact isMapping_of_comments 6 (by simp [queryLines])
  | some keys =>
      have hfields := IsMapping.append
        (isMapping_plain (by decide : isAtom "mode".toList = true) 8
          (by decide : isAtom "include".toList = true))
        (isMapping_field (by decide : isAtom "keys".toList = true) 8
          (writes_inlineList keys))
      have hkeys : ["mode".toList, "keys".toList].Nodup := by decide
      exact isMapping_heading (by decide) hfields hkeys

theorem isMapping_varyLines (headers : Option (List Str)) :
    IsMapping 6 (varyLines headers) (optionalEntry "vary".toList
      (headers.map fun headers => mappingOf
        [("headers".toList, (Leaf.flow headers).events)])) := by
  cases headers with
  | none => exact isMapping_of_comments 6 (by simp [varyLines])
  | some headers =>
      exact isMapping_heading (by decide)
        (isMapping_field (by decide) 8 (writes_inlineList headers))
        (List.nodup_singleton _)

theorem keys_cacheFields (cache : GeneratedCache) :
    ((cacheFields cache).map Prod.fst).Nodup := by
  have hkeys : ["enabled".toList, "override_origin".toList, "ttl".toList,
      "stale_if_error".toList, "query".toList, "vary".toList].Nodup := by
    decide
  refine List.Nodup.sublist ?_ hkeys
  simp only [cacheFields, overrideFields, optionalPlain, List.map_append]
  exact (((((keys_optionalEntry _ _).append (keys_optionalEntry _ _)).append
    (keys_optionalEntry _ _)).append (keys_optionalEntry _ _)).append
      (keys_optionalEntry _ _)).append (keys_optionalEntry _ _)

variable {draft : Draft}
  (hdurations : ∀ text ∈ draft.durations, Writes text (.plain text))
include hdurations

theorem isMapping_cacheLines :
    IsMapping 4 (cacheLines draft.cache) (optionalEntry "cache".toList
      (draft.cache.map fun cache => mappingOf (cacheFields cache))) := by
  cases hcache : draft.cache with
  | none => exact isMapping_of_comments 4 (by simp [cacheLines])
  | some cache =>
      have httl : ∀ text ∈ cache.ttlMax, Writes text (.plain text) := by
        intro text htext
        refine hdurations text ?_
        simp [Draft.durations, hcache, Option.mem_def.mp htext]
      have hstale : ∀ text ∈ cache.staleIfError,
          Writes text (.plain text) := by
        intro text htext
        refine hdurations text ?_
        simp [Draft.durations, hcache, Option.mem_def.mp htext]
      have hlines := ((((IsMapping.append
        (isMapping_optionalField (by decide : isAtom "enabled".toList = true) 6
          (writes_of_mem_map isAtom_boolText cache.enabled))
        (isMapping_overrideLine cache.overrideOrigin)).append
        (isMapping_ttlLines httl)).append
        (isMapping_optionalField
          (by decide : isAtom "stale_if_error".toList = true) 6 hstale)).append
        (isMapping_queryLines cache.queryKeys)).append
        (isMapping_varyLines cache.varyHeaders)
      exact isMapping_heading (by decide) hlines (keys_cacheFields cache)

omit hdurations in
theorem isMapping_coalesceLines (coalesce : Option GeneratedCoalesce) :
    IsMapping 4 (coalesceLines coalesce) (optionalEntry "coalesce".toList
      (coalesce.map fun coalesce => mappingOf (coalesceFields coalesce))) := by
  cases coalesce with
  | none => exact isMapping_of_comments 4 (by simp [coalesceLines])
  | some coalesce =>
      have hlines := IsMapping.append
        (isMapping_plain (by decide : isAtom "enabled".toList = true) 6
          (isAtom_boolText coalesce.enabled))
        (isMapping_overrideLine coalesce.overrideOrigin)
      have hkeys : ["enabled".toList, "override_origin".toList].Nodup := by
        decide
      refine isMapping_heading (by decide) hlines (List.Nodup.sublist ?_ hkeys)
      exact (keys_optionalEntry _ _).cons_cons _

omit hdurations in
theorem isMapping_settingLines (part : Section) (draft : Draft) :
    IsMapping 4 (settingLines part draft) (settingFields part draft) := by
  have hclass := isMapping_plain (by decide : isAtom "class".toList = true) 4
    (isAtom_classText draft.routeClass)
  have hweight := isMapping_optionalField
    (by decide : isAtom "weight".toList = true) 4
    (writes_of_mem_map isAtom_decimal draft.weight)
  have hpriority := isMapping_optionalField
    (by decide : isAtom "priority".toList = true) 4
    (writes_of_mem_map isAtom_priority draft.priority)
  rw [settingLines, settingFields]
  split_ifs
  · exact (hclass.append hpriority).append hweight
  · exact (hweight.append hpriority).append hclass

/-- The keys of the settings, in the order of a part. -/
def settingKeys (part : Section) : List Str :=
  if part = .image then
    ["class".toList, "priority".toList, "weight".toList]
  else ["weight".toList, "priority".toList, "class".toList]

omit hdurations in
theorem keys_settingFields (part : Section) (draft : Draft) :
    List.Sublist ((settingFields part draft).map Prod.fst)
      (settingKeys part) := by
  rw [settingFields, settingKeys]
  split_ifs
  · rw [List.map_append, List.map_append]
    exact ((List.Sublist.refl _).append (keys_optionalEntry _ _)).append
      (keys_optionalEntry _ _)
  · rw [List.map_append, List.map_append]
    exact ((keys_optionalEntry _ _).append (keys_optionalEntry _ _)).append
      (List.Sublist.refl _)

omit hdurations in
theorem keys_routeFields (entry : Section × GeneratedRoute) :
    ("id".toList :: (routeFields entry).map Prod.fst).Nodup := by
  have hkeys : ∀ part, ("id".toList :: (["match".toList] ++ settingKeys part ++
      ["cache".toList] ++ ["coalesce".toList])).Nodup := by
    intro part
    cases part <;> decide
  refine List.Nodup.sublist (List.Sublist.cons_cons _ ?_) (hkeys entry.1)
  rw [routeFields, List.map_append, List.map_append, List.map_append]
  exact (((List.Sublist.refl _).append (keys_settingFields _ _)).append
    (keys_optionalEntry _ _)).append (keys_optionalEntry _ _)

end Routes

theorem isSequence_routeLines {entry : Section × GeneratedRoute}
    (h : ∀ text ∈ entry.2.durations, Writes text (.plain text)) :
    IsSequence 2 (routeLines entry) [routeEvents entry] := by
  have hfields := (((isMapping_emitMatch entry.2.path entry.2.methods).append
    (isMapping_settingLines entry.1 entry.2.toDraft)).append
    (isMapping_cacheLines h)).append
    (isMapping_coalesceLines entry.2.coalesce)
  exact isSequence_mapping (by decide) (writes_quote entry.2.id) hfields
    (keys_routeFields entry)

theorem printable_sectionComment (part : Section) :
    (part.comment.all fun c => isNbChar c || c == '\n') = true := by
  cases part <;>
    (unfold Section.comment
     simp only [String.toList_append, List.all_append, Bool.and_eq_true,
       -String.reduceAppend, -String.reduceToList]
     and_intros) <;> exact all_toList_ofList _ (by decide +kernel)

theorem isSequence_sectionLines {routes : List (Section × GeneratedRoute)}
    (h : ∀ entry ∈ routes, ∀ text ∈ entry.2.durations,
      Writes text (.plain text)) (part : Section) :
    IsSequence 2 (sectionLines routes part)
      ((routes.filter fun entry => entry.1 = part).map routeEvents) := by
  rw [sectionLines]
  split_ifs with hempty
  · rw [List.isEmpty_iff.mp hempty]
    exact isSequence_of_comments 2 (by simp)
  · have hcomment : IsSequence 2 ([] :: comment part.comment 2) [] := by
      refine isSequence_of_comments 2 fun line hline => ?_
      rcases List.mem_cons.mp hline with rfl | hmem
      · rfl
      · exact isComment_of_mem_comment (printable_sectionComment part) hmem
    have hroutes : IsSequence 2
        ((routes.filter fun entry => entry.1 = part).flatMap routeLines)
        ((routes.filter fun entry => entry.1 = part).flatMap
          fun entry => [routeEvents entry]) :=
      isSequence_flatMap fun entry hentry =>
        isSequence_routeLines (h entry (List.mem_filter.mp hentry).1)
    rw [List.map_eq_flatMap]
    exact hcomment.append hroutes

/-! ## The lines of the file -/

theorem isMapping_commented {text : Str} {lines : List Str} {fields : Fields}
    (htext : (text.all fun c => isNbChar c || c == '\n') = true)
    (h : IsMapping 0 lines fields) :
    IsMapping 0 ([] :: (comment text 0 ++ lines)) fields := by
  have hcomment : IsMapping 0 ([] :: comment text 0) [] := by
    refine isMapping_of_comments 0 fun line hline => ?_
    rcases List.mem_cons.mp hline with rfl | hmem
    · rfl
    · exact isComment_of_mem_comment htext hmem
  exact hcomment.append h

namespace Configuration

variable (c : Configuration)

theorem isMapping_rolloutLines :
    IsMapping 0 c.rolloutLines c.rolloutFields := by
  have htext : ∀ rollout, (("Rollout stage: ".toList ++ rolloutText rollout ++
      ". Response caching remains globally disabled.".toList).all
        fun c => isNbChar c || c == '\n') = true := by
    intro rollout
    cases rollout <;>
      (unfold rolloutText
       simp only [List.all_append, Bool.and_eq_true, -String.reduceToList]
       and_intros) <;> exact all_toList_ofList _ (by decide +kernel)
  have hcache := isMapping_heading (by decide : isAtom "cache".toList = true)
    (isMapping_plain (by decide : isAtom "enabled".toList = true) 2
      (by decide : isAtom "false".toList = true)) (List.nodup_singleton _)
  have hcoalesce := isMapping_heading
    (by decide : isAtom "coalesce".toList = true)
    (isMapping_plain (by decide : isAtom "enabled".toList = true) 2
      (isAtom_boolText (c.rollout = .coalesce))) (List.nodup_singleton _)
  rw [rolloutLines, rolloutFields]
  split_ifs
  · exact isMapping_commented (htext c.rollout) (hcache.append hcoalesce)
  · exact isMapping_of_comments 0 (by simp)

theorem isNbChar_comments : [deploymentComment, originComment,
    groupComment].Forall fun text =>
      (text.all fun c => isNbChar c || c == '\n') = true := by
  unfold deploymentComment originComment groupComment
  simp only [List.Forall, String.toList_append, List.all_append,
    Bool.and_eq_true, -String.reduceAppend, -String.reduceToList]
  and_intros <;> exact all_toList_ofList _ (by decide +kernel)

theorem isMapping_deploymentLines :
    IsMapping 0 c.deploymentLines c.deploymentFields := by
  have hdeployment := isMapping_heading
    (by decide : isAtom "deployment".toList = true)
    (isMapping_field (by decide : isAtom "id".toList = true) 2
      (writes_quote c.identity)) (List.nodup_singleton _)
  rw [deploymentLines, deploymentFields]
  split_ifs
  · exact isMapping_commented isNbChar_comments.1 hdeployment
  · exact isMapping_of_comments 0 (by simp)

theorem isMapping_priorityLines (low : Option ℕ) :
    IsMapping 2 (priorityLines low) (optionalEntry "priorities".toList
      (low.map fun low =>
        mappingOf [("low".toList, [.plain (decimal low)])])) := by
  cases low with
  | none => exact isMapping_of_comments 2 (by simp [priorityLines])
  | some low =>
      exact isMapping_heading (by decide)
        (isMapping_plain (by decide) 4 (isAtom_decimal low))
        (List.nodup_singleton _)

theorem isMapping_originLines : IsMapping 0 c.originLines c.originFields := by
  have hconcurrency := isMapping_heading
    (by decide : isAtom "concurrency".toList = true)
    (isMapping_plain (by decide : isAtom "max".toList = true) 4
      (isAtom_decimal c.capacity.concurrency)) (List.nodup_singleton _)
  have hfields := ((isMapping_field
    (by decide : isAtom "upstreams".toList = true) 2
    (writes_inlineList c.upstreams)).append hconcurrency).append
      (isMapping_priorityLines c.lowPriority)
  have hkeys : ["upstreams".toList, "concurrency".toList,
      "priorities".toList].Nodup := by decide
  rw [originLines, originFields]
  split_ifs
  · exact isMapping_of_comments 0 (by simp)
  · refine isMapping_commented isNbChar_comments.2.1
      (isMapping_heading (by decide) hfields (List.Nodup.sublist ?_ hkeys))
    rw [List.map_append]
    exact (List.Sublist.refl _).append (keys_optionalEntry _ _)

theorem isMapping_groupLines : IsMapping 0 c.groupLines c.groupFields := by
  have hkeys : ["global_max".toList, "replicas".toList].Nodup := by decide
  rw [groupLines, groupFields]
  cases c.capacity.group with
  | none => exact isMapping_of_comments 0 (by simp)
  | some group =>
      have hfields := (isMapping_plain
        (by decide : isAtom "global_max".toList = true) 2
        (isAtom_decimal group.1)).append
          (isMapping_plain (by decide : isAtom "replicas".toList = true) 2
            (isAtom_decimal group.2))
      exact isMapping_commented isNbChar_comments.2.2
        (isMapping_heading (by decide) hfields hkeys)

theorem isMapping_routes (h : c.PlainDurations) :
    IsMapping 0
      ([] :: heading 0 "routes".toList ::
        Section.all.flatMap (sectionLines c.routes))
      [("routes".toList, sequenceOf (c.entries.map routeEvents))] := by
  have hblank : IsMapping 0 [[]] [] := isMapping_of_comments 0 (by simp; rfl)
  have hsections : IsSequence 2
      (Section.all.flatMap (sectionLines c.routes))
      (Section.all.flatMap fun part =>
        (c.routes.filter fun entry => entry.1 = part).map routeEvents) :=
    isSequence_flatMap fun part _ => isSequence_sectionLines h part
  rw [entries, List.map_flatMap]
  exact hblank.append (isMapping_sequence (by decide) hsections)

/-- Every line below the comment at the top is read as it was meant. -/
theorem isMapping_bodyLines (h : c.PlainDurations) :
    IsMapping 0 c.bodyLines c.fields := by
  have hversion := isMapping_plain
    (by decide : isAtom "version".toList = true) 0
    (by decide : isAtom "1".toList = true)
  have hmode := isMapping_plain (by decide : isAtom "mode".toList = true) 0
    (isAtom_modeText c.rollout)
  exact hversion.append (hmode.append
    ((((c.isMapping_rolloutLines.append c.isMapping_deploymentLines).append
      c.isMapping_originLines).append c.isMapping_groupLines).append
      (c.isMapping_routes h)))

theorem keys_fields : (c.fields.map Prod.fst).Nodup := by
  have hkeys : ("version".toList :: "mode".toList ::
      (["cache".toList, "coalesce".toList] ++ ["deployment".toList] ++
        ["origin".toList] ++ ["capacity".toList] ++
        ["routes".toList])).Nodup := by decide
  have hrollout : List.Sublist (c.rolloutFields.map Prod.fst)
      ["cache".toList, "coalesce".toList] := by
    rw [rolloutFields]
    split_ifs
    · exact List.Sublist.refl _
    · exact List.nil_sublist _
  refine List.Nodup.sublist ?_ hkeys
  refine List.Sublist.cons_cons _ (List.Sublist.cons_cons _ ?_)
  rw [List.map_append, List.map_append, List.map_append, List.map_append]
  exact (((hrollout.append (keys_optionalEntry _ _)).append
    (keys_optionalEntry _ _)).append (keys_optionalEntry _ _)).append
      (List.Sublist.refl _)

end Configuration

end Harmost.Next
