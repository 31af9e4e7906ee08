import Harmost.Next.Document
import Harmost.Next.PolicyLimits
import Harmost.Support.Yaml.Stream

/-!
# What strings can do to a generated configuration

Strings of the build reach the file in two ways.  In quotes they are read back
as they are.  In the comment at the top they are cut into lines at line feeds,
but for YAML a line also ends at a carriage return: what follows one is outside
of the comment.
-/

namespace Harmost.Next

open Harmost.Support
open Harmost.Support.Yaml

/-! ## Strings in a comment -/

/-- The lines of a string in a comment, as far as the comment goes. -/
def shown (text : Str) : List Str :=
  (text.splitOn '\n').map fun line => line.takeWhile (· != '\r')

/-- The lines of a string that no comment sign begins. -/
def loose (text : Str) : List Str :=
  (text.splitOn '\n').flatMap fun line => (line.splitOn '\r').tail

/-- Strings that leave a comment as it is: what they show may stand in a
comment, and what is loose may stand before a document. -/
def Inert (texts : List Str) : Prop :=
  (∀ text ∈ texts, ∀ line ∈ shown text, line.all isNbChar = true) ∧
    ∃ p, (texts.flatMap loose).foldlM Prologue.step {} = some p ∧
      p.directives = false

theorem splitOn_eq_cons (sep : Char) (text : Str) :
    text.splitOn sep =
      text.takeWhile (· != sep) :: (text.splitOn sep).tail := by
  induction text with
  | nil => rfl
  | cons c text ih =>
      rw [List.splitOn_cons_eq_if_modifyHead]
      split_ifs with hc
      · rw [List.takeWhile_cons_of_neg (by simpa using hc)]
        rfl
      · rw [List.takeWhile_cons_of_pos (by simpa using hc)]
        conv_lhs => rw [ih]
        rw [List.modifyHead_cons, List.tail_modifyHead]

/-- A comment sign in front of a line makes a comment of what it shows. -/
theorem splitOn_hash (line : Str) :
    ∃ text, ('#' :: text) :: (line.splitOn '\r').tail =
        (if line.isEmpty then List.replicate 0 ' ' ++ ['#']
          else List.replicate 0 ' ' ++ '#' :: ' ' :: line).splitOn '\r' ∧
      text.all isNbChar = (line.takeWhile (· != '\r')).all isNbChar := by
  cases line with
  | nil => exact ⟨[], rfl, rfl⟩
  | cons c line =>
      have hsign : '\r' ∉ ['#', ' '] := by decide
      refine ⟨' ' :: (c :: line).takeWhile (· != '\r'), ?_, rfl⟩
      have hsplit := splitOn_append_of_notMem hsign (c :: line)
      rw [splitOn_eq_cons '\r' (c :: line)] at hsplit
      exact hsplit.symm

theorem foldlM_comment (lines : List Str) (p p' : Prologue) :
    ((lines.map fun line =>
        if line.isEmpty then List.replicate 0 ' ' ++ ['#']
        else List.replicate 0 ' ' ++ '#' :: ' ' :: line).flatMap
          fun line => line.splitOn '\r').foldlM Prologue.step p = some p' ↔
      (∀ line ∈ lines, (line.takeWhile (· != '\r')).all isNbChar = true) ∧
        (lines.flatMap fun line => (line.splitOn '\r').tail).foldlM
          Prologue.step p = some p' := by
  induction lines generalizing p with
  | nil => simp
  | cons line lines ih =>
      obtain ⟨text, hsplit, hshown⟩ := splitOn_hash line
      rw [List.map_cons, List.flatMap_cons, ← hsplit, List.cons_append,
        List.foldlM_cons, Prologue.step_hash, hshown, List.forall_mem_cons,
        List.flatMap_cons, List.foldlM_append]
      split_ifs with hnb
      · rw [Option.bind_eq_bind, Option.bind_some, List.foldlM_append]
        cases (line.splitOn '\r').tail.foldlM Prologue.step p with
        | none => simp
        | some q => simpa [hnb] using ih q
      · simp [hnb]

theorem loose_append {label : Str} (hlabel : isUnbroken label = true)
    (text : Str) : loose (label ++ text) = loose text := by
  obtain ⟨hfeed, hreturn⟩ := notMem_of_isUnbroken hlabel
  rw [loose, splitOn_append_of_notMem hfeed, loose,
    splitOn_eq_cons '\n' text, List.modifyHead_cons, List.flatMap_cons,
    List.flatMap_cons, splitOn_append_of_notMem hreturn, List.tail_modifyHead]

theorem shown_append {label : Str} (hlabel : label.all isNbChar = true)
    (text : Str) :
    (∀ line ∈ shown (label ++ text), line.all isNbChar = true) ↔
      ∀ line ∈ shown text, line.all isNbChar = true := by
  obtain ⟨hfeed, hreturn⟩ :=
    notMem_of_isUnbroken (isUnbroken_of_isNbChar hlabel)
  have htake : ∀ line : Str, (label ++ line).takeWhile (· != '\r') =
      label ++ line.takeWhile (· != '\r') := by
    intro line
    refine List.takeWhile_append_of_pos fun c hc => ?_
    rw [bne_iff_ne]
    rintro rfl
    exact hreturn hc
  rw [shown, splitOn_append_of_notMem hfeed, shown,
    splitOn_eq_cons '\n' text, List.modifyHead_cons, List.map_cons,
    List.map_cons, List.forall_mem_cons, List.forall_mem_cons, htake,
    List.all_append, hlabel, Bool.true_and]

/-- A string of one printable line shows itself. -/
theorem shown_of_printable {text : Str} (h : text.all isNbChar = true) :
    ∀ line ∈ shown text, line.all isNbChar = true := by
  have hshown := (shown_append h []).mpr (by decide)
  rwa [List.append_nil] at hshown

theorem loose_of_printable {text : Str} (h : text.all isNbChar = true) :
    loose text = [] := by
  have hloose := loose_append (isUnbroken_of_isNbChar h) []
  rwa [List.append_nil] at hloose

/-- Only strings with other characters matter. -/
theorem inert_filter (texts : List Str) :
    Inert (texts.filter fun text => !text.all isNbChar) ↔ Inert texts := by
  have hloose : (texts.filter fun text => !text.all isNbChar).flatMap loose =
      texts.flatMap loose := by
    induction texts with
    | nil => rfl
    | cons text texts ih =>
        rw [List.filter_cons]
        split_ifs with hother
        · rw [List.flatMap_cons, List.flatMap_cons, ih]
        · have hprintable : text.all isNbChar = true := by simpa using hother
          rw [List.flatMap_cons, loose_of_printable hprintable, ih]
          rfl
  rw [Inert, Inert, hloose]
  refine and_congr_left fun _ => ?_
  constructor
  · intro h text htext
    by_cases hprintable : text.all isNbChar = true
    · exact shown_of_printable hprintable
    · exact h text (List.mem_filter.mpr ⟨htext, by simpa using hprintable⟩)
  · intro h text htext
    exact h text (List.mem_filter.mp htext).1

theorem inert_of_printable {texts : List Str}
    (h : ∀ text ∈ texts, text.all isNbChar = true) : Inert texts := by
  have hnone : (texts.filter fun text => !text.all isNbChar) = [] :=
    List.filter_eq_nil_iff.mpr fun text htext => by simp [h text htext]
  rw [← inert_filter, hnone]
  exact ⟨by simp, {}, rfl, rfl⟩

/-! ## The comment at the top -/

theorem printable_of_isAtom {text : Str} (h : isAtom text = true) :
    text.all isNbChar = true := by
  rw [isAtom, Bool.and_eq_true] at h
  refine List.all_eq_true.mpr fun c hc => ?_
  have hns := (isAtomChar_spec (List.all_eq_true.mp h.2 c hc)).1
  exact (Bool.and_eq_true_iff.mp hns).1

namespace Configuration

variable (c : Configuration)

/-- The strings in the comment at the top. -/
def headerStrings : List Str :=
  [c.buildId, c.identity, c.fingerprint, c.policyFingerprint]

theorem printable_headerParts :
    ∀ part ∈ c.headerParts, part.1.all isNbChar = true := by
  simp only [headerParts, List.forall_mem_cons, List.not_mem_nil,
    false_imp_iff, implies_true, and_true, List.all_nil, true_and,
    -String.reduceToList]
  and_intros <;> exact all_toList_ofList _ (by decide +kernel)

/-- The versions of the manifests are the only other values. -/
theorem inert_headerParts :
    Inert (c.headerParts.map Prod.snd) ↔ Inert c.headerStrings := by
  have hversion : ∀ n, (decimal n).all isNbChar = true := fun n =>
    printable_of_isAtom (isAtom_decimal n)
  obtain ⟨text, htext, hvalues⟩ : ∃ text : Str, text.all isNbChar = true ∧
      c.headerParts.map Prod.snd = [[], [], [], []] ++ c.headerStrings ++
        [decimal c.routesVersion, text, [], [], [], [], [], []] := by
    refine ⟨_, ?_, rfl⟩
    cases c.prerenderVersion with
    | none => decide
    | some version =>
        rw [List.all_cons, hversion]
        rfl
  rw [← inert_filter, ← inert_filter c.headerStrings, hvalues,
    List.filter_append, List.filter_append]
  simp only [List.filter_cons, List.filter_nil, List.all_nil, hversion, htext,
    Bool.not_true, Bool.false_eq_true, if_false, List.nil_append,
    List.append_nil]

/-- What the comment at the top leaves before the content. -/
theorem foldlM_headerLines (p : Prologue) :
    (c.headerLines.flatMap fun line => line.splitOn '\r').foldlM
        Prologue.step {} = some p ↔
      (∀ value ∈ c.headerParts.map Prod.snd, ∀ line ∈ shown value,
          line.all isNbChar = true) ∧
        ((c.headerParts.map Prod.snd).flatMap loose).foldlM
          Prologue.step {} = some p := by
  have hne : (c.headerParts.map fun part => part.1 ++ part.2) ≠ [] :=
    List.cons_ne_nil _ _
  have hloose : ((c.headerParts.map fun part => part.1 ++ part.2).flatMap
      fun text => (text.splitOn '\n').flatMap
        fun line => (line.splitOn '\r').tail) =
      (c.headerParts.map Prod.snd).flatMap loose := by
    rw [List.flatMap_map, List.flatMap_map]
    refine List.flatMap_congr fun part hpart => ?_
    exact loose_append
      (isUnbroken_of_isNbChar (c.printable_headerParts part hpart)) part.2
  have hshown : (∀ line ∈ (c.headerParts.map fun part =>
      part.1 ++ part.2).flatMap fun text => text.splitOn '\n',
        (line.takeWhile (· != '\r')).all isNbChar = true) ↔
      ∀ value ∈ c.headerParts.map Prod.snd, ∀ line ∈ shown value,
        line.all isNbChar = true := by
    rw [List.forall_mem_flatMap, List.forall_mem_map, List.forall_mem_map]
    refine forall₂_congr fun part hpart => ?_
    rw [← shown_append (c.printable_headerParts part hpart), shown,
      List.forall_mem_map]
  rw [headerLines, comment, splitOn_join '\n' hne, foldlM_comment,
    List.flatMap_assoc, hloose, hshown]

theorem notMem_headerLines : ∀ line ∈ c.headerLines, '\n' ∉ line := by
  intro line hline
  obtain ⟨piece, hpiece, rfl⟩ := List.mem_map.mp hline
  have hfeed := notMem_of_mem_splitOn hpiece
  split_ifs
  · decide
  · simpa using hfeed

/-- The first line of content is not part of a prologue. -/
theorem step_version (p : Prologue) :
    p.step (field 0 "version".toList "1".toList) = none := by
  have hhead : (field 0 "version".toList "1".toList).head? = some 'v' := rfl
  have hcomment : isComment (field 0 "version".toList "1".toList) = false := by
    decide
  have hprintable :
      (field 0 "version".toList "1".toList).all isNbChar = true := by decide
  have hmarker : isMarker (field 0 "version".toList "1".toList) = false := by
    decide
  have hwords : Prologue.words (field 0 "version".toList "1".toList) =
      ["version:".toList, "1".toList] := by decide
  generalize field 0 "version".toList "1".toList = line at *
  rw [Prologue.step, if_neg (by simp [hhead]), Prologue.readLine, hcomment,
    hprintable, hmarker, hhead, hwords]
  simp [Prologue.readProperties, Prologue.isTag, Prologue.isAnchor]

/-! ## Reading the file -/

theorem lines_text (h : c.PlainDurations) :
    lines c.text =
      (c.headerLines.flatMap fun line => line.splitOn '\r') ++
        (c.bodyLines ++ [[]]) :=
  lines_join (List.cons_ne_nil _ _) c.notMem_headerLines
    (c.isMapping_bodyLines h).unbroken

theorem isMapping_content (h : c.PlainDurations) :
    IsMapping 0 (c.bodyLines ++ [[]]) c.fields := by
  have hblank : IsMapping 0 [[]] [] :=
    isMapping_of_comments 0 fun line hline =>
      List.mem_singleton.mp hline ▸ rfl
  simpa using (c.isMapping_bodyLines h).append hblank

/-- If the strings in the comment at the top are inert, the file says what was
written. -/
theorem parse_text (h : c.PlainDurations) (hinert : Inert c.headerStrings) :
    parse c.text = some c.events := by
  obtain ⟨hshown, p, hfold, hp⟩ := c.inert_headerParts.mpr hinert
  exact parse_of_prologue (c.lines_text h) step_version (c.isMapping_content h)
    c.keys_fields (List.cons_ne_nil _ _)
    ((c.foldlM_headerLines p).mpr ⟨hshown, hfold⟩) hp

/-- If the file has the keys that were written, the strings in the comment at
the top are inert. -/
theorem inert_of_parse (h : c.PlainDurations) {events : List Event}
    (hparse : parse c.text = some (.mapStart :: events))
    (hkeys : (Event.mapStart :: events).filterMap Event.key? =
      c.events.filterMap Event.key?) : Inert c.headerStrings := by
  obtain ⟨p, hfold, hp⟩ := prologue_of_parse (c.lines_text h) step_version
    (c.isMapping_content h) c.keys_fields hparse hkeys
  obtain ⟨hshown, hfold⟩ := (c.foldlM_headerLines p).mp hfold
  exact c.inert_headerParts.mp ⟨hshown, p, hfold, hp⟩

end Configuration

/-! ## Strings in quotes -/

section Quoted

theorem quotedIn_optionalEntry (key : Str) (value : Option (List Event)) :
    quotedIn (optionalEntry key value) = quotedOf (value.getD []) := by
  cases value with
  | none => rfl
  | some events => exact List.append_nil _

theorem quotedIn_optionalPlain (key : Str) (value : Option Str) :
    quotedIn (optionalPlain key value) = [] := by
  cases value <;> rfl

theorem quotedIn_flow (key : Str) (items : List Str) :
    quotedIn [(key, (Leaf.flow items).events)] = items :=
  (List.append_nil _).trans (quotedOf_leaf (.flow items))

theorem quotedIn_matchFields (path : Str) (methods : Option (List Str)) :
    quotedIn (matchFields path methods) = path :: methods.getD [] := by
  cases methods with
  | none => rfl
  | some methods =>
      have hmethods := quotedIn_flow "methods".toList methods
      have hinside := quotedOf_mappingOf
        [("path".toList, [.quoted path]),
          ("methods".toList, (Leaf.flow methods).events)]
      exact (List.append_nil _).trans
        (hinside.trans (congrArg (path :: ·) hmethods))

theorem quotedIn_settingFields (part : Section) (draft : Draft) :
    quotedIn (settingFields part draft) = [] := by
  rw [settingFields]
  split_ifs
  all_goals
    rw [quotedIn_append, quotedIn_append, quotedIn_optionalPlain,
      quotedIn_optionalPlain]
    rfl

theorem quotedIn_cacheFields (cache : GeneratedCache) :
    quotedIn (cacheFields cache) =
      cache.queryKeys.getD [] ++ cache.varyHeaders.getD [] := by
  have httl : quotedOf ((cache.ttlMax.map fun ttl =>
      mappingOf [("max".toList, [.plain ttl])]).getD []) = [] := by
    cases cache.ttlMax <;> rfl
  have hquery : quotedOf ((cache.queryKeys.map fun keys => mappingOf
      [("mode".toList, [.plain "include".toList]),
        ("keys".toList, (Leaf.flow keys).events)]).getD []) =
      cache.queryKeys.getD [] := by
    cases cache.queryKeys with
    | none => rfl
    | some keys =>
        rw [Option.map_some, Option.getD_some, quotedOf_mappingOf,
          ← List.singleton_append, quotedIn_append, quotedIn_flow]
        rfl
  have hvary : quotedOf ((cache.varyHeaders.map fun headers => mappingOf
      [("headers".toList, (Leaf.flow headers).events)]).getD []) =
      cache.varyHeaders.getD [] := by
    cases cache.varyHeaders with
    | none => rfl
    | some headers =>
        exact (quotedOf_mappingOf _).trans
          (quotedIn_flow "headers".toList headers)
  simp only [cacheFields, overrideFields, quotedIn_append,
    quotedIn_optionalPlain, quotedIn_optionalEntry, httl, hquery, hvary,
    List.nil_append, -String.reduceToList]

/-- The strings of a route that are written in quotes. -/
def quotedStrings (route : GeneratedRoute) : List Str :=
  route.id :: route.path ::
    (route.methods.getD [] ++
      ((route.cache.bind GeneratedCache.queryKeys).getD [] ++
        (route.cache.bind GeneratedCache.varyHeaders).getD []))

theorem quotedOf_routeEvents (entry : Section × GeneratedRoute) :
    quotedOf (routeEvents entry) = quotedStrings entry.2 := by
  have hcache : quotedOf ((entry.2.cache.map fun cache =>
      mappingOf (cacheFields cache)).getD []) =
      (entry.2.cache.bind GeneratedCache.queryKeys).getD [] ++
        (entry.2.cache.bind GeneratedCache.varyHeaders).getD [] := by
    cases entry.2.cache with
    | none => rfl
    | some cache =>
        exact (quotedOf_mappingOf _).trans (quotedIn_cacheFields cache)
  have hcoalesce : quotedOf ((entry.2.coalesce.map fun coalesce =>
      mappingOf (coalesceFields coalesce)).getD []) = [] := by
    cases entry.2.coalesce with
    | none => rfl
    | some coalesce =>
        exact (quotedOf_mappingOf (coalesceFields coalesce)).trans
          (quotedIn_optionalPlain _ _)
  have hfields : quotedIn (routeFields entry) =
      entry.2.path :: (entry.2.methods.getD [] ++
        ((entry.2.cache.bind GeneratedCache.queryKeys).getD [] ++
          (entry.2.cache.bind GeneratedCache.varyHeaders).getD [])) := by
    rw [routeFields, quotedIn_append, quotedIn_append, quotedIn_append,
      quotedIn_matchFields, quotedIn_settingFields, quotedIn_optionalEntry,
      quotedIn_optionalEntry, hcache, hcoalesce, List.append_nil,
      List.append_nil]
    rfl
  rw [routeEvents, quotedOf_mappingOf]
  exact congrArg (entry.2.id :: ·) hfields

end Quoted

namespace Configuration

variable (c : Configuration)

/-- The strings that are written in quotes, in file order. -/
def quotedStrings : List Str :=
  (if c.includeDeployment then [c.identity] else []) ++
    (c.upstreams ++ c.entries.flatMap fun entry => Next.quotedStrings entry.2)

theorem quotedIn_originFields : quotedIn c.originFields = c.upstreams := by
  have hlow : quotedOf ((c.lowPriority.map fun low =>
      mappingOf [("low".toList, [.plain (decimal low)])]).getD []) = [] := by
    cases c.lowPriority <;> rfl
  rw [originFields, quotedIn_optionalEntry]
  split_ifs with hempty
  · exact (List.isEmpty_iff.mp hempty).symm
  · rw [Option.getD_some, quotedOf_mappingOf, quotedIn_append,
      quotedIn_optionalEntry, hlow, List.append_nil]
    exact quotedIn_flow "upstreams".toList c.upstreams

/-- The quoted scalars of the file are what they were made from. -/
theorem quotedOf_events : quotedOf c.events = c.quotedStrings := by
  have hrollout : quotedIn c.rolloutFields = [] := by
    rw [rolloutFields]
    split_ifs <;> rfl
  have hdeployment : quotedIn c.deploymentFields =
      if c.includeDeployment then [c.identity] else [] := by
    rw [deploymentFields, quotedIn_optionalEntry]
    cases c.includeDeployment <;> rfl
  have hgroup : quotedIn c.groupFields = [] := by
    rw [groupFields, quotedIn_optionalEntry]
    cases c.capacity.group <;> rfl
  have hroutes : quotedIn
      [("routes".toList, sequenceOf (c.entries.map routeEvents))] =
      c.entries.flatMap fun entry => Next.quotedStrings entry.2 := by
    refine (List.append_nil _).trans ((quotedOf_sequenceOf _).trans ?_)
    rw [List.flatMap_map]
    exact List.flatMap_congr fun entry _ => quotedOf_routeEvents entry
  have hrest : quotedIn (c.rolloutFields ++ c.deploymentFields ++
      c.originFields ++ c.groupFields ++
      [("routes".toList, sequenceOf (c.entries.map routeEvents))]) =
      c.quotedStrings := by
    simp only [quotedIn_append, hrollout, hdeployment, c.quotedIn_originFields,
      hgroup, hroutes, List.nil_append, List.append_assoc,
      quotedStrings, -String.reduceToList]
  exact (quotedOf_mappingOf _).trans hrest

end Configuration

/-! ## Other strings in their place -/

def GeneratedRoute.rename (f : Str → Str) (route : GeneratedRoute) :
    GeneratedRoute :=
  { route with
    label := f route.label, path := f route.path, id := f route.id }

namespace Configuration

/-- The same configuration with other strings from the build. -/
def rename (f : Str → Str) (c : Configuration) : Configuration :=
  { c with
    buildId := f c.buildId
    identity := f c.identity
    fingerprint := f c.fingerprint
    policyFingerprint := f c.policyFingerprint
    routes := c.routes.map fun entry => (entry.1, entry.2.rename f) }

/-- Two configurations that differ in strings from the build only. -/
def SameShape (c c' : Configuration) : Prop :=
  c.rename (fun _ => []) = c'.rename fun _ => []

/-- The strings from the build are words. -/
def Harmless (c : Configuration) : Prop :=
  (∀ text ∈ c.headerStrings, text.all Char.isAlphanum = true) ∧
    ∀ entry ∈ c.routes, entry.2.id.all Char.isAlphanum = true ∧
      entry.2.path.all Char.isAlphanum = true

/-- Nothing gets into the file through its strings: it has the mappings,
sequences, keys and plain scalars it has with harmless strings, and its quoted
scalars are the strings they were made from. -/
def Uninjected (c : Configuration) : Prop :=
  ∃ events, parse c.text = some events ∧ quotedOf events = c.quotedStrings ∧
    ∀ c', c.SameShape c' → c'.Harmless →
      (parse c'.text).map eraseQuoted = some (eraseQuoted events)

theorem eraseQuoted_matchFields (f : Str → Str) (path : Str)
    (methods : Option (List Str)) :
    ((matchFields (f path) methods).map fun pair =>
        (pair.1, eraseQuoted pair.2)) =
      (matchFields path methods).map fun pair =>
        (pair.1, eraseQuoted pair.2) := by
  cases methods <;> rfl

theorem eraseQuoted_routeEvents (f : Str → Str)
    (entry : Section × GeneratedRoute) :
    eraseQuoted (routeEvents (entry.1, entry.2.rename f)) =
      eraseQuoted (routeEvents entry) := by
  rw [routeEvents, eraseQuoted_mappingOf, routeEvents, eraseQuoted_mappingOf]
  refine congrArg mappingOf (congrArg₂ List.cons rfl ?_)
  rw [routeFields, List.map_append, List.map_append, List.map_append,
    routeFields, List.map_append, List.map_append, List.map_append]
  exact congrArg (· ++ _ ++ _ ++ _)
    (eraseQuoted_matchFields f entry.2.path entry.2.methods)

theorem entries_rename (f : Str → Str) (c : Configuration) :
    (c.rename f).entries =
      c.entries.map fun entry => (entry.1, entry.2.rename f) := by
  rw [entries, entries, List.map_flatMap]
  refine List.flatMap_congr fun part _ => ?_
  rw [rename, List.filter_map]
  rfl

theorem eraseQuoted_rename (f : Str → Str) (c : Configuration) :
    eraseQuoted (c.rename f).events = eraseQuoted c.events := by
  have hdeployment : ((c.rename f).deploymentFields.map fun pair =>
        (pair.1, eraseQuoted pair.2)) =
      c.deploymentFields.map fun pair => (pair.1, eraseQuoted pair.2) := by
    rw [deploymentFields, deploymentFields, rename]
    cases c.includeDeployment <;> rfl
  have hroutes : eraseQuoted (sequenceOf
        ((c.rename f).entries.map routeEvents)) =
      eraseQuoted (sequenceOf (c.entries.map routeEvents)) := by
    rw [eraseQuoted_sequenceOf, eraseQuoted_sequenceOf, entries_rename,
      List.map_map, List.map_map, List.map_map]
    refine congrArg sequenceOf (List.map_congr_left fun entry _ => ?_)
    exact eraseQuoted_routeEvents f entry
  rw [events, eraseQuoted_mappingOf, events, eraseQuoted_mappingOf]
  refine congrArg mappingOf
    (congrArg₂ List.cons rfl (congrArg₂ List.cons rfl ?_))
  simp only [List.map_append, hdeployment, List.map_cons, List.map_nil,
    hroutes, -String.reduceToList]
  rfl

theorem plainDurations_rename (f : Str → Str) (c : Configuration) :
    (c.rename f).PlainDurations ↔ c.PlainDurations :=
  List.forall_mem_map

section SameShape

variable {c c' : Configuration} (hshape : c.SameShape c')
include hshape

theorem SameShape.plainDurations (h : c.PlainDurations) :
    c'.PlainDurations := by
  rw [← plainDurations_rename fun _ => []] at h ⊢
  rwa [← hshape]

theorem SameShape.eraseQuoted :
    Yaml.eraseQuoted c'.events = Yaml.eraseQuoted c.events := by
  rw [← eraseQuoted_rename (fun _ => []), ← eraseQuoted_rename (fun _ => []) c,
    hshape]

end SameShape

theorem Harmless.inert {c : Configuration} (h : c.Harmless) :
    Inert c.headerStrings := by
  refine inert_of_printable fun text htext => ?_
  have hwords := List.all_eq_true.mp (h.1 text htext)
  refine List.all_eq_true.mpr fun d hd => ?_
  have hatom : isAtomChar d = true := by rw [isAtomChar, hwords d hd]; rfl
  exact (Bool.and_eq_true_iff.mp (isAtomChar_spec hatom).1).1

theorem harmless_rename (c : Configuration) :
    (c.rename fun _ => []).Harmless := by
  refine ⟨by simp [headerStrings, rename], fun entry hentry => ?_⟩
  obtain ⟨entry, -, rfl⟩ := List.mem_map.mp hentry
  exact ⟨rfl, rfl⟩

theorem sameShape_rename (f : Str → Str) (c : Configuration) :
    c.SameShape (c.rename f) := by
  rw [SameShape, rename, rename, rename, List.map_map]
  rfl

/-- The strings in the comment at the top are the only way in. -/
theorem uninjected_iff_inert {c : Configuration} (h : c.PlainDurations) :
    c.Uninjected ↔ Inert c.headerStrings := by
  constructor
  · rintro ⟨events, hparse, -, hshape⟩
    have hplain := (plainDurations_rename (fun _ => []) c).mpr h
    have hblank := hshape _ (c.sameShape_rename _) c.harmless_rename
    rw [parse_text _ hplain c.harmless_rename.inert, Option.map_some,
      eraseQuoted_rename, Option.some.injEq] at hblank
    -- what is left of the events tells their keys and the first of them
    have hkeys := congrArg (List.filterMap Event.key?) hblank
    rw [filterMap_eraseQuoted, filterMap_eraseQuoted] at hkeys
    cases events with
    | nil => cases hblank
    | cons event events =>
        have hfirst : Event.mapStart = event.erase := (List.cons.inj hblank).1
        cases event <;> cases hfirst
        exact c.inert_of_parse h hparse hkeys.symm
  · intro hinert
    refine ⟨c.events, c.parse_text h hinert, c.quotedOf_events, ?_⟩
    intro c' hshape hharmless
    rw [c'.parse_text (hshape.plainDurations h) hharmless.inert,
      Option.map_some, hshape.eraseQuoted]

end Configuration

/-! ## Durations -/

theorem isAtom_of_isDuration {text : Str} (h : isDuration text = true) :
    isAtom text = true := by
  obtain ⟨hdigits, hunit⟩ := isDuration_split h
  have hletters : ∀ unit ∈ "d".toList :: Config.durationUnits,
      unit.all Char.isAlpha = true := by decide
  have hletter := List.all_eq_true.mp (hletters _ hunit)
  refine isAtom_of_isAlphanum ?_ fun c hc => Bool.or_eq_true_iff.mpr ?_
  · rintro rfl
    exact hdigits rfl
  · rw [← takeWhile_append_drop Char.isDigit text, List.mem_append] at hc
    rcases hc with hc | hc
    · exact .inr (List.mem_takeWhile_imp hc)
    · exact .inl (hletter c hc)

/-- A positive number is printed as a word: digits, with a point or an exponent,
or `Infinity`. -/
def JsNumber.IsWord (number : JsNumber) : Prop :=
  number.positive = true → isAtom number.text = true

theorem isAtom_prerenderTtl {build : Build} {route : Str}
    (h : ∀ number, build.prerendered.lookup route = some (some number) →
      number.IsWord) : isAtom (prerenderTtl build route) = true := by
  rw [prerenderTtl]
  cases hlookup : build.prerendered.lookup route with
  | none => decide
  | some value =>
      cases value with
      | none => decide
      | some number =>
          rw [Option.join_some]
          dsimp only
          split_ifs with hpositive
          · have hword := h number hlookup hpositive
            rw [isAtom, Bool.and_eq_true] at hword ⊢
            rw [List.all_append, hword.2]
            refine ⟨?_, rfl⟩
            cases htext : number.text with
            | nil =>
                rw [htext] at hword
                cases hword.1
            | cons c text =>
                rw [htext] at hword
                exact hword.1
          · decide

theorem isDuration_emitAssertion {js : Runtime} {label path text : Str}
    {rollout : Rollout} {assertion : Option Assertion}
    (hvalid : ∀ a ∈ assertion, a.Valid js)
    (htext : text ∈ (emitAssertion label path rollout assertion).durations) :
    isDuration text = true := by
  cases assertion with
  | none =>
      rw [durations_private rfl] at htext
      cases htext
  | some assertion =>
      have ha := hvalid assertion rfl
      rw [emitAssertion] at htext
      cases hprivacy : assertion.privacy with
      | privateRoute =>
          rw [hprivacy, durations_private rfl] at htext
          cases htext
      | publicRoute =>
          rw [hprivacy] at htext
          rcases List.mem_append.mp htext with hmem | hmem
          · exact ha.ttl text (Option.mem_toList.mp hmem)
          · exact ha.staleIfError text (Option.mem_toList.mp hmem)

section Generated

variable {js : Runtime} {build : Build} {options : Options}
  (hstale : Writes options.staleIfError (.plain options.staleIfError))
  (hnumbers : ∀ route number,
    build.prerendered.lookup route = some (some number) → number.IsWord)
include hstale hnumbers

theorem writes_durations {policy : Policy} {source : Source} {draft : Draft}
    (hpolicy : effectivePolicy js build options.policy = .ok policy)
    (h : emit build options policy source = .ok draft) :
    ∀ text ∈ draft.durations, Writes text (.plain text) := by
  have hvalid : ∀ page assertion, policy.assertion page = .ok assertion →
      ∀ a ∈ assertion, a.Valid js := by
    rintro page assertion hassertion a rfl
    obtain ⟨name, -, hlookup⟩ := map_eq_ok.mp hassertion
    exact (effectivePolicy_lookup hpolicy hlookup).1
  intro text htext
  cases source with
  | buildOutput =>
      cases h
      cases htext
  | image =>
      cases h
      obtain rfl := List.mem_singleton.mp htext
      exact writes_of_isAtom (by decide)
  | data page | page page =>
      obtain ⟨assertion, hassertion, rfl⟩ := map_eq_ok.mp h
      exact writes_of_isAtom (isAtom_of_isDuration
        (isDuration_emitAssertion (hvalid page assertion hassertion) htext))
  | prerendered route =>
      cases h
      rcases List.mem_cons.mp htext with rfl | hmem
      · exact writes_of_isAtom (isAtom_prerenderTtl (hnumbers route))
      · obtain rfl := List.mem_singleton.mp hmem
        exact hstale
  | handler route =>
      obtain ⟨assertion, -, rfl⟩ := map_eq_ok.mp h
      rw [durations_private rfl] at htext
      cases htext
  | rest =>
      cases h
      rw [durations_private rfl] at htext
      cases htext

theorem writes_generated {routes : List GeneratedRoute}
    (h : generateConfig js build options = .ok routes) :
    ∀ route ∈ routes, ∀ text ∈ route.durations, Writes text (.plain text) := by
  obtain ⟨policy, hpolicy, h⟩ := bind_eq_ok.mp h
  obtain ⟨drafts, hdrafts, rfl⟩ := map_eq_ok.mp h
  intro route hroute
  have hdraft : route.toDraft ∈ drafts := by
    rw [← assignIds_map [] drafts]
    exact List.mem_map_of_mem hroute
  obtain ⟨source, -, hemit⟩ := (mem_traverse (emit build options policy)
    (emitAll build options policy) rfl (fun _ _ => rfl) hdrafts).2 _ hdraft
  exact writes_durations hstale hnumbers hpolicy hemit

end Generated

/-! ## Generated files -/

/-- The strings that reach the comment at the top. -/
def headerTexts (digest : PolicyInput → Str) (build : AssembledBuild)
    (options : TextOptions) : List Str :=
  [build.buildId, build.identity.getD build.buildId,
    build.fingerprint.getD "unavailable".toList,
    policyFingerprint digest options.policy options.policyFingerprint]

theorem configure_spec {js : Runtime} {digest : PolicyInput → Str}
    {build : AssembledBuild} {options : TextOptions} {c : Configuration}
    (hstale : Writes options.staleIfError (.plain options.staleIfError))
    (hnumbers : ∀ route number,
      build.prerendered.lookup route = some (some number) → number.IsWord)
    (h : configure js digest build options = .ok c) :
    c.PlainDurations ∧ c.headerStrings = headerTexts digest build options := by
  obtain ⟨capacity, -, h⟩ := bind_eq_ok.mp h
  obtain ⟨routes, hroutes, rfl⟩ := map_eq_ok.mp h
  have hwrites := writes_generated (by exact hstale) hnumbers hroutes
  exact ⟨fun entry hentry => hwrites entry.2 (List.of_mem_zip hentry).2, rfl⟩

/-- A generated file is as with harmless strings exactly if those in the comment
at its top are inert. -/
theorem uninjected_iff {js : Runtime} {digest : PolicyInput → Str}
    {build : AssembledBuild} {options : TextOptions} {c : Configuration}
    (hstale : Writes options.staleIfError (.plain options.staleIfError))
    (hnumbers : ∀ route number,
      build.prerendered.lookup route = some (some number) → number.IsWord)
    (h : configure js digest build options = .ok c) :
    c.Uninjected ↔ Inert (headerTexts digest build options) := by
  obtain ⟨hplain, hstrings⟩ := configure_spec hstale hnumbers h
  rw [Configuration.uninjected_iff_inert hplain, hstrings]

/-- A build with one prerendered page. -/
def releaseBuild (buildId : Str) : AssembledBuild where
  buildId := buildId
  prerendered := AList.singleton "/".toList (some ⟨true, "60".toList⟩)
  routesVersion := 3

theorem isWord_releaseBuild (buildId : Str) : ∀ route number,
    (releaseBuild buildId).prerendered.lookup route = some (some number) →
      number.IsWord := by
  intro route number hlookup _
  have hentry := AssocMap.mem_entries_iff.mpr hlookup
  cases List.mem_singleton.mp hentry
  decide

theorem writes_staleIfError :
    Writes ({} : Options).staleIfError (.plain ({} : Options).staleIfError) :=
  writes_of_isAtom (by decide)

/-- Quotes and line feeds stay inside. -/
theorem uninjected_line_feed :
    ∃ c, configure asciiRuntime (fun _ => []) (releaseBuild "a\nb: \"".toList)
        {} = .ok c ∧ c.Uninjected := by
  refine ⟨_, rfl, (@uninjected_iff asciiRuntime (fun _ => [])
    (releaseBuild "a\nb: \"".toList) {} _ writes_staleIfError
    (isWord_releaseBuild _) rfl).mpr ?_⟩
  exact ⟨by decide, {}, by decide, rfl⟩

/-- What follows a carriage return in the build id is an entry of the file. -/
theorem injected_carriage_return :
    ∃ build c,
      assemble (fun _ => "f".toList) "x\rinjected: true".toList
        { version := 3 } none none none = .ok build ∧
      configure asciiRuntime (fun _ => []) build {} = .ok c ∧
      ¬c.Uninjected := by
  have hnone : ∀ build, assemble (fun _ => "f".toList)
      "x\rinjected: true".toList { version := 3 } none none none = .ok build →
      ∀ route number, build.prerendered.lookup route = some (some number) →
        number.IsWord := by
    rintro build ⟨⟩ route number hlookup
    simp at hlookup
  refine ⟨_, _, rfl, rfl, ?_⟩
  have hplain := (@configure_spec asciiRuntime (fun _ => []) _ {} _
    writes_staleIfError (hnone _ rfl) rfl).1
  rw [Configuration.uninjected_iff_inert hplain]
  rintro ⟨-, p, hfold, -⟩
  cases hfold

end Harmost.Next
