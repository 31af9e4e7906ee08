import Harmost.Next.PolicyText
import Harmost.Support.Lists

/-!
# What a policy file can say

A document that is read has every field in a place where the validation looks
for it, each at most once, with lists where lists belong.  Comments, empty
lines and the kind of line break do not matter, and an error is about the first
line that does not fit.
-/

namespace Harmost.Next

open Harmost.Support

/-! ## Well-formed documents -/

def Written.isList : Written → Bool
  | .list _ => true
  | _ => false

/-- The keys are among `allowed`, each at most once, and those in `lists` have
a list. -/
structure FieldsOk (allowed lists : List Str) (fields : List (Str × Written)) :
    Prop where
  allowed : ∀ field ∈ fields, field.1 ∈ allowed
  lists : ∀ field ∈ fields, field.2.isList = lists.contains field.1
  nodup : (fields.map Prod.fst).Nodup

namespace PolicyText

def plainFields : List Str :=
  routeFields.filter (· != "cache".toList)

end PolicyText

open PolicyText

structure WrittenRoute.WellFormed (route : WrittenRoute) : Prop where
  fields : FieldsOk plainFields ["methods".toList] route.fields
  cache : ∀ cache ∈ route.cache,
    FieldsOk cacheFields ["query".toList, "vary".toList] cache

/-- Routes have names of their own.  The prototype is not among them. -/
structure Document.WellFormed (document : Document) : Prop where
  version : document.version.isList = false
  named : ∀ entry ∈ document.routes, entry.1 ≠ [] ∧ entry.1 ≠ proto
  nodup : (document.routes.map Prod.fst).Nodup
  routes : ∀ entry ∈ document.routes, entry.2.WellFormed

theorem fieldsOk_nil {allowed lists : List Str} :
    FieldsOk allowed lists [] where
  allowed := nofun
  lists := nofun
  nodup := List.nodup_nil

theorem FieldsOk.concat {allowed lists : List Str}
    {fields : List (Str × Written)} (h : FieldsOk allowed lists fields)
    {key : Str} {value : Written} (hallowed : key ∈ allowed)
    (hlist : value.isList = lists.contains key)
    (hnew : ¬(fields.lookup key).isSome = true) :
    FieldsOk allowed lists (fields ++ [(key, value)]) where
  allowed := by
    intro field hfield
    rcases List.mem_append.mp hfield with hbefore | hlast
    · exact h.allowed field hbefore
    · obtain rfl := List.mem_singleton.mp hlast
      exact hallowed
  lists := by
    intro field hfield
    rcases List.mem_append.mp hfield with hbefore | hlast
    · exact h.lists field hbefore
    · obtain rfl := List.mem_singleton.mp hlast
      exact hlist
  nodup := nodup_keys_concat h.nodup hnew value

/-- A field in the middle is none of those before it. -/
theorem FieldsOk.middle {allowed lists : List Str} {field : Str × Written}
    {front back : List (Str × Written)}
    (h : FieldsOk allowed lists (front ++ field :: back)) :
    field.1 ∈ allowed ∧ field.2.isList = lists.contains field.1 ∧
      field.1 ∉ front.map Prod.fst := by
  have hmem : field ∈ front ++ field :: back :=
    List.mem_append_right _ List.mem_cons_self
  have hnodup := h.nodup
  rw [List.map_append, List.map_cons] at hnodup
  exact ⟨h.allowed field hmem, h.lists field hmem, fun hbefore =>
    List.disjoint_of_nodup_append hnodup hbefore List.mem_cons_self⟩

theorem wellFormed_empty : WrittenRoute.WellFormed {} where
  fields := fieldsOk_nil
  cache := nofun

namespace PolicyText

/-! ## Values -/

theorem isList_of_scalar {text : Str} {value : Written}
    (h : scalar text = .ok value) : value.isList = false := by
  unfold scalar at h
  split_ifs at h with hempty hdouble hsingle
  · cases h
    rfl
  · unfold doubleQuoted at h
    split at h <;> cases h
    rfl
  · unfold singleQuoted at h
    split_ifs at h
    cases h
    rfl
  · cases h
    unfold plain
    split_ifs <;> rfl

theorem isList_of_valueOf {isList : Bool} {text : Str} {value : Written}
    (h : valueOf isList text = .ok value) : value.isList = isList := by
  unfold valueOf at h
  split_ifs at h with hlist
  · obtain ⟨items, -, rfl⟩ := map_eq_ok.mp h
    exact hlist.symm
  · rw [isList_of_scalar h]
    exact (Bool.eq_false_iff.mpr hlist).symm

/-! ## The invariant of the loop -/

/-- The document so far is well formed, and so is what the prototype has. -/
structure Reading.Inv (reading : Reading) : Prop where
  document : reading.document.WellFormed
  hidden : reading.hidden.WellFormed

theorem Reading.Inv.fieldsOf {reading : Reading} (h : reading.Inv)
    (route : Str) : (reading.fieldsOf route).WellFormed := by
  unfold Reading.fieldsOf
  split_ifs with hproto
  · exact h.hidden
  · cases hlookup : reading.document.routes.lookup route with
    | none => exact wellFormed_empty
    | some fields => exact h.document.routes _ (mem_of_lookup hlookup)

theorem map_fst_setFields (routes : List (Str × WrittenRoute)) (route : Str)
    (fields : WrittenRoute) :
    (routes.map fun entry =>
        if entry.1 = route then (route, fields) else entry).map Prod.fst =
      routes.map Prod.fst := by
  rw [List.map_map]
  refine List.map_congr_left fun entry _ => ?_
  by_cases hroute : entry.1 = route <;> simp [hroute]

theorem Reading.Inv.setFields {reading : Reading} (h : reading.Inv)
    (route : Str) {fields : WrittenRoute} (hfields : fields.WellFormed) :
    (reading.setFields route fields).Inv := by
  unfold Reading.setFields
  split_ifs with hproto
  · exact ⟨h.document, hfields⟩
  · refine ⟨⟨h.document.version, ?_, ?_, ?_⟩, h.hidden⟩
    · intro entry hentry
      obtain ⟨before, hbefore, rfl⟩ := List.mem_map.mp hentry
      by_cases hroute : before.1 = route <;>
        simpa [hroute] using h.document.named before hbefore
    · dsimp only
      rw [map_fst_setFields]
      exact h.document.nodup
    · intro entry hentry
      obtain ⟨before, hbefore, rfl⟩ := List.mem_map.mp hentry
      by_cases hroute : before.1 = route
      · simpa [hroute] using hfields
      · simpa [hroute] using h.document.routes before hbefore

theorem Reading.Inv.congr {reading reading' : Reading} (h : reading.Inv)
    (hdocument : reading'.document = reading.document)
    (hhidden : reading'.hidden = reading.hidden) : reading'.Inv :=
  ⟨hdocument ▸ h.document, hhidden ▸ h.hidden⟩

variable {reading reading' : Reading} {route key valueText : Str}

theorem inv_readTop (h : reading.Inv)
    (hread : readTop reading key valueText = .ok reading') : reading'.Inv := by
  unfold readTop at hread
  split_ifs at hread with hversion hseen hroutes hvalue hagain
  · obtain ⟨version, hscalar, rfl⟩ := map_eq_ok.mp hread
    exact ⟨{ h.document with version := isList_of_scalar hscalar }, h.hidden⟩
  · cases hread
    exact h.congr rfl rfl

theorem inv_readRoute (h : reading.Inv) (hkey : key ≠ [])
    (hread : readRoute reading key valueText = .ok reading') :
    reading'.Inv := by
  unfold readRoute at hread
  split_ifs at hread with hvalue hknown hproto
  · cases hread
    exact ⟨h.document, wellFormed_empty⟩
  · cases hread
    refine ⟨⟨h.document.version, ?_,
      nodup_keys_concat h.document.nodup hknown _, ?_⟩, h.hidden⟩
    · intro entry hentry
      rcases List.mem_append.mp hentry with hbefore | hlast
      · exact h.document.named entry hbefore
      · obtain rfl := List.mem_singleton.mp hlast
        exact ⟨hkey, hproto⟩
    · intro entry hentry
      rcases List.mem_append.mp hentry with hbefore | hlast
      · exact h.document.routes entry hbefore
      · obtain rfl := List.mem_singleton.mp hlast
        exact wellFormed_empty

theorem inv_readField (h : reading.Inv)
    (hread : readField reading route key valueText = .ok reading') :
    reading'.Inv := by
  have hfields := h.fieldsOf route
  unfold readField at hread
  split_ifs at hread with hunknown hhas hcache hvalue
  · cases hread
    have hempty : WrittenRoute.WellFormed
        { reading.fieldsOf route with cache := some [] } := by
      refine ⟨hfields.fields, ?_⟩
      rintro _ ⟨⟩
      exact fieldsOk_nil
    exact (h.setFields route hempty).congr rfl rfl
  · obtain ⟨value, hvalueOf, rfl⟩ := map_eq_ok.mp hread
    have hplain : key ∈ plainFields :=
      List.mem_filter.mpr
        ⟨List.contains_iff_mem.mp hunknown, bne_iff_ne.mpr hcache⟩
    have hlist : value.isList = ["methods".toList].contains key := by
      rw [isList_of_valueOf hvalueOf, List.contains_cons, List.contains_nil,
        Bool.or_false]
    rw [WrittenRoute.has, if_neg hcache] at hhas
    have hmore : WrittenRoute.WellFormed
        { reading.fieldsOf route with
          fields := (reading.fieldsOf route).fields ++ [(key, value)] } :=
      ⟨hfields.fields.concat hplain hlist hhas, hfields.cache⟩
    exact (h.setFields route hmore).congr rfl rfl

theorem inv_readCacheField (h : reading.Inv)
    (hread : readCacheField reading route key valueText = .ok reading') :
    reading'.Inv := by
  have hfields := h.fieldsOf route
  have hcache : FieldsOk cacheFields ["query".toList, "vary".toList]
      ((reading.fieldsOf route).cache.getD []) := by
    cases hsome : (reading.fieldsOf route).cache with
    | none => exact fieldsOk_nil
    | some cache => exact hfields.cache cache hsome
  unfold readCacheField at hread
  dsimp only at hread
  split_ifs at hread with hunknown hhas
  obtain ⟨value, hvalueOf, rfl⟩ := map_eq_ok.mp hread
  have hlist : value.isList =
      ["query".toList, "vary".toList].contains key := by
    rw [isList_of_valueOf hvalueOf, List.contains_cons, List.contains_cons,
      List.contains_nil, Bool.or_false]
  refine h.setFields route ⟨hfields.fields, ?_⟩
  rintro _ ⟨⟩
  exact hcache.concat (List.contains_iff_mem.mp hunknown) hlist hhas

theorem key_ne_nil {text : Str} (h : keyOf text = .ok key) : key ≠ [] := by
  obtain ⟨value, -, hvalue⟩ := bind_eq_ok.mp h
  split at hvalue
  · split_ifs at hvalue with hempty
    cases hvalue
    exact hempty
  · cases hvalue

theorem entry_key_ne_nil {original : Str} {entry : Entry}
    (h : lineEntry original = .ok (some entry)) : entry.key ≠ [] := by
  unfold lineEntry at h
  split_ifs at h
  · cases h
  · obtain ⟨found, hfound, heq⟩ := map_eq_ok.mp h
    cases heq
    unfold entryOf at hfound
    dsimp only at hfound
    split_ifs at hfound
    obtain ⟨pair, -, hkey⟩ := bind_eq_ok.mp hfound
    obtain ⟨key, hkeyOf, rfl⟩ := map_eq_ok.mp hkey
    exact key_ne_nil hkeyOf

theorem inv_readEntry {entry : Entry} (h : reading.Inv)
    (hkey : entry.key ≠ []) (hread : readEntry reading entry = .ok reading') :
    reading'.Inv := by
  unfold readEntry at hread
  split_ifs at hread with htop hnested hroute
  · exact inv_readTop h hread
  · exact inv_readRoute h hkey hread
  · split at hread
    · cases hread
    · unfold readNested at hread
      split_ifs at hread with hfield hcache
      · exact inv_readField h hread
      · exact inv_readCacheField h hread

theorem inv_readLine {original : Str} (h : reading.Inv)
    (hread : readLine reading original = .ok reading') : reading'.Inv := by
  obtain ⟨found, hentry, hafter⟩ := bind_eq_ok.mp hread
  cases found with
  | none =>
      cases hafter
      exact h
  | some entry => exact inv_readEntry h (entry_key_ne_nil hentry) hafter

/-- A document is well formed after every line. -/
theorem inv_readLines {file : Str} {line : ℕ} {lines : List Str}
    (h : reading.Inv)
    (hread : readLines file line reading lines = .ok reading') :
    reading'.Inv := by
  induction lines generalizing line reading with
  | nil =>
      cases hread
      exact h
  | cons original rest ih =>
      obtain ⟨next, hnext, hrest⟩ := bind_eq_ok.mp hread
      exact ih (inv_readLine h (mapError_eq_ok.mp hnext)) hrest

theorem inv_start : Reading.Inv {} where
  document :=
    { version := rfl
      named := nofun
      nodup := List.nodup_nil
      routes := nofun }
  hidden := wellFormed_empty

theorem wellFormed_of_readDocument {file raw : Str} {document : Document}
    (h : readDocument file raw = .ok document) : document.WellFormed := by
  obtain ⟨reading, hread, rfl⟩ := map_eq_ok.mp h
  exact (inv_readLines inv_start hread).document

/-! ## The line an error is about -/

theorem readLines_append {file : Str} {line : ℕ} (front back : List Str) :
    readLines file line reading (front ++ back) =
      (readLines file line reading front).bind fun before =>
        readLines file (line + front.length) before back := by
  induction front generalizing line reading with
  | nil => rfl
  | cons original rest ih =>
      rw [List.cons_append, readLines, readLines]
      cases (readLine reading original).mapError (located file line) with
      | error e => rfl
      | ok next =>
          dsimp only [Except.bind]
          rw [ih, List.length_cons, Nat.add_right_comm, Nat.add_assoc]
          rfl

theorem readLines_eq_error {file e : Str} {line : ℕ} {lines : List Str}
    (h : readLines file line reading lines = .error e) :
    ∃ front original back before message,
      lines = front ++ original :: back ∧
        readLines file line reading front = .ok before ∧
        readLine before original = .error message ∧
        e = located file (line + front.length) message := by
  induction lines generalizing line reading with
  | nil => cases h
  | cons original rest ih =>
      rw [readLines] at h
      cases hline : readLine reading original with
      | error message =>
          rw [hline] at h
          cases h
          exact ⟨[], original, rest, reading, message, rfl, rfl, hline, rfl⟩
      | ok next =>
          rw [hline] at h
          obtain ⟨front, bad, back, before, message, rfl, hfront, hbad, rfl⟩ :=
            ih h
          refine ⟨original :: front, bad, back, before, message, rfl, ?_, hbad,
            ?_⟩
          · rwa [readLines, hline]
          · rw [List.length_cons, Nat.add_right_comm, Nat.add_assoc]

/-- An error names a line.  Without that line and what follows it the file is
read, and with it there is the same error whatever follows. -/
theorem error_names_first_line {file raw e : Str}
    (h : readDocument file raw = .error e) :
    ∃ front original back message,
      linesOf raw = front ++ original :: back ∧
        e = located file (front.length + 1) message ∧
        (∃ reading, readLines file 1 {} front = .ok reading) ∧
        ∀ other, readLines file 1 {} (front ++ original :: other) =
          .error e := by
  cases hread : readLines file 1 {} (linesOf raw) with
  | ok reading =>
      rw [readDocument, hread] at h
      cases h
  | error e' =>
      obtain ⟨front, original, back, before, message, hlines, hfront, hbad,
        rfl⟩ := readLines_eq_error hread
      rw [readDocument, hread] at h
      cases h
      refine ⟨front, original, back, message, hlines, ?_, ⟨before, hfront⟩, ?_⟩
      · rw [Nat.add_comm]
      · intro other
        rw [readLines_append, hfront]
        dsimp only [Except.bind]
        rw [readLines, hbad]
        rfl

theorem error_names_first_line_bogus :
    ∃ front original back message,
      linesOf "version: 1\nbogus: 2\nrest".toList =
          front ++ original :: back ∧
        "p:2: unknown top-level field `bogus`".toList =
          located "p".toList (front.length + 1) message ∧
        (∃ reading, readLines "p".toList 1 {} front = .ok reading) ∧
        ∀ other, readLines "p".toList 1 {} (front ++ original :: other) =
          .error "p:2: unknown top-level field `bogus`".toList :=
  error_names_first_line rfl

/-! ## Layout -/

/-- White space that may stand in a line. -/
def IsSpace (text : Str) : Prop :=
  ∀ c ∈ text, isJsSpace c = true ∧ c ≠ '\t'

/-- The quotes of a line are closed, at its end or where its comment begins. -/
def Complete (line : Str) : Prop :=
  Quoting.Passes startsComment {} none line → Quoting.scan {} line = {}

/-- The same lines with further comments and empty lines. -/
inductive Relaid : List Str → List Str → Prop
  | nil : Relaid [] []
  | same {lines lines' : List Str} (line : Str) (h : Relaid lines lines') :
      Relaid (line :: lines) (line :: lines')
  | empty {lines lines' : List Str} {space : Str} (hspace : IsSpace space)
      (h : Relaid lines lines') : Relaid lines (space :: lines')
  | remark {lines lines' : List Str} {space note : Str}
      (hspace : IsSpace space) (hnote : '\t' ∉ note)
      (h : Relaid lines lines') :
      Relaid lines ((space ++ '#' :: note) :: lines')
  | noted {lines lines' : List Str} {line space note : Str}
      (hline : Complete line) (hspace : IsSpace space) (hne : space ≠ [])
      (hnote : '\t' ∉ note) (h : Relaid lines lines') :
      Relaid (line :: lines) ((line ++ (space ++ '#' :: note)) :: lines')

variable {line space note : Str}

theorem isQuote_of_isJsSpace {c : Char} (h : isJsSpace c = true) :
    Quoting.isQuote c = false := by
  rw [Bool.eq_false_iff]
  intro hquote
  rcases (Bool.or_eq_true _ _).mp hquote with heq | heq
  all_goals
    rw [beq_iff_eq.mp heq] at h
    exact absurd h (by decide)

theorem clear_space (h : IsSpace space) :
    Quoting.Clear startsComment space := by
  refine Quoting.clear_of_forall fun c hc => ?_
  refine ⟨isQuote_of_isJsSpace (h c hc).1, fun before => ?_⟩
  have hne : c ≠ '#' := by
    rintro rfl
    exact absurd (h _ hc).1 (by decide)
  rw [startsComment, beq_false_of_ne hne, Bool.false_and]

section

variable (hspace : IsSpace space)
include hspace

/-- White space, and a comment after it. -/
theorem cut_remark {before : Option Char}
    (hbefore : (Quoting.lastOf before space).all isJsSpace = true) :
    (Quoting.cut startsComment {} before (space ++ '#' :: note)).1 = space := by
  have hclear := clear_space hspace
  rw [Quoting.cut_append (hclear.passes before), hclear.scan, Quoting.cut,
    startsComment, hbefore]
  exact List.append_nil space

theorem lastOf_space (hne : space ≠ []) (before : Option Char) :
    (Quoting.lastOf before space).all isJsSpace = true := by
  rw [Quoting.lastOf, List.getLast?_eq_some_getLast hne]
  exact (hspace _ (List.getLast_mem hne)).1

theorem rdropWhile_append_space (front : Str) :
    (front ++ space).rdropWhile isJsSpace = front.rdropWhile isJsSpace := by
  have hreverse : ∀ c ∈ space.reverse, isJsSpace c = true := fun c hc =>
    (hspace c (List.mem_reverse.mp hc)).1
  rw [List.rdropWhile, List.reverse_append,
    List.dropWhile_append_of_pos hreverse]
  rfl

theorem stripComment_noted (hline : Complete line) (hne : space ≠ []) :
    stripComment (line ++ (space ++ '#' :: note)) = stripComment line := by
  unfold stripComment
  cases hcut : (Quoting.cut startsComment {} none line).2 with
  | some rest => rw [Quoting.cut_append_of_some (by rw [hcut]; rfl)]
  | none =>
      rw [Quoting.cut_append hcut, hline hcut, Quoting.cut_of_passes hcut,
        cut_remark hspace (lastOf_space hspace hne _),
        rdropWhile_append_space hspace]

theorem stripComment_remark : stripComment (space ++ '#' :: note) = [] := by
  have hall : (Quoting.lastOf none space).all isJsSpace = true := by
    by_cases hne : space = []
    · rw [hne]
      rfl
    · exact lastOf_space hspace hne none
  rw [stripComment, cut_remark hspace hall]
  exact List.rdropWhile_eq_nil_iff.mpr fun c hc => (hspace c hc).1

theorem stripComment_space : stripComment space = [] := by
  rw [stripComment, Quoting.cut_of_passes ((clear_space hspace).passes none)]
  exact List.rdropWhile_eq_nil_iff.mpr fun c hc => (hspace c hc).1

end

theorem contains_tab_iff {text : Str} :
    text.contains '\t' = true ↔ '\t' ∈ text :=
  List.contains_iff_mem

theorem notMem_space (hspace : IsSpace space) : '\t' ∉ space :=
  fun hmem => (hspace _ hmem).2 rfl

theorem tab_notMem_remark (hspace : IsSpace space) (hnote : '\t' ∉ note) :
    '\t' ∉ space ++ '#' :: note := by
  simp [notMem_space hspace, hnote]

theorem readLine_of_stripComment_nil {text : Str} (htab : '\t' ∉ text)
    (h : stripComment text = []) (reading : Reading) :
    readLine reading text = .ok reading := by
  have hentry : lineEntry text = .ok none := by
    rw [lineEntry, if_neg (mt contains_tab_iff.mp htab), h]
    rfl
  rw [readLine, hentry]
  rfl

theorem readLine_noted (hline : Complete line) (hspace : IsSpace space)
    (hne : space ≠ []) (hnote : '\t' ∉ note) (reading : Reading) :
    readLine reading (line ++ (space ++ '#' :: note)) =
      readLine reading line := by
  have htab : (line ++ (space ++ '#' :: note)).contains '\t' =
      line.contains '\t' := by
    rw [Bool.eq_iff_iff, contains_tab_iff, contains_tab_iff, List.mem_append,
      or_iff_left (tab_notMem_remark hspace hnote)]
  rw [readLine, readLine, lineEntry, lineEntry, htab,
    stripComment_noted hspace hline hne]

theorem readLines_cons_eq_ok {file : Str} {n : ℕ} {original : Str}
    {lines : List Str} :
    readLines file n reading (original :: lines) = .ok reading' ↔
      ∃ next, readLine reading original = .ok next ∧
        readLines file (n + 1) next lines = .ok reading' := by
  rw [readLines, bind_eq_ok]
  simp only [mapError_eq_ok]

theorem Relaid.readLines {lines lines' : List Str} (h : Relaid lines lines')
    {file file' : Str} {n m : ℕ} :
    PolicyText.readLines file n reading lines = .ok reading' ↔
      PolicyText.readLines file' m reading lines' = .ok reading' := by
  induction h generalizing reading n m with
  | nil => exact Iff.rfl
  | same line h ih =>
      rw [readLines_cons_eq_ok, readLines_cons_eq_ok]
      exact exists_congr fun next => and_congr_right fun _ => ih
  | empty hspace h ih =>
      rw [readLines_cons_eq_ok, readLine_of_stripComment_nil
        (notMem_space hspace) (stripComment_space hspace)]
      simpa using ih
  | remark hspace hnote h ih =>
      rw [readLines_cons_eq_ok, readLine_of_stripComment_nil
        (tab_notMem_remark hspace hnote) (stripComment_remark hspace)]
      simpa using ih
  | noted hline hspace hne hnote h ih =>
      rw [readLines_cons_eq_ok, readLines_cons_eq_ok,
        readLine_noted hline hspace hne hnote]
      exact exists_congr fun next => and_congr_right fun _ => ih

/-- The line breaks of another system. -/
def dosBreaks (raw : Str) : Str :=
  raw.flatMap fun c => if c = '\n' then ['\r', '\n'] else [c]

theorem unixLines_cons {c : Char} (h : c ≠ '\r') (rest : Str) :
    unixLines (c :: rest) = c :: unixLines rest := by
  rw [unixLines]
  rintro rest' rfl
  exact absurd rfl h

theorem unixLines_eq_self {raw : Str} (h : '\r' ∉ raw) :
    unixLines raw = raw := by
  induction raw with
  | nil => rfl
  | cons c rest ih =>
      obtain ⟨hc, hrest⟩ := not_or.mp (mt List.mem_cons.mpr h)
      rw [unixLines_cons (Ne.symm hc), ih hrest]

theorem unixLines_dosBreaks {raw : Str} (h : '\r' ∉ raw) :
    unixLines (dosBreaks raw) = raw := by
  induction raw with
  | nil => rfl
  | cons c rest ih =>
      obtain ⟨hc, hrest⟩ := not_or.mp (mt List.mem_cons.mpr h)
      rw [dosBreaks, List.flatMap_cons, ← dosBreaks]
      by_cases hbreak : c = '\n'
      · rw [if_pos hbreak, hbreak, List.cons_append, List.singleton_append,
          unixLines, ih hrest]
      · rw [if_neg hbreak, List.singleton_append,
          unixLines_cons (Ne.symm hc), ih hrest]

/-- Comments and empty lines without tabs do not matter, nor does the kind of
line break. -/
theorem layout_does_not_matter {file file' raw raw' : Str}
    (hraw : '\r' ∉ raw) (hraw' : '\r' ∉ raw')
    (h : Relaid (raw.splitOn '\n') (raw'.splitOn '\n'))
    (document : Document) :
    readDocument file raw = .ok document ↔
      readDocument file' (dosBreaks raw') = .ok document := by
  rw [readDocument, readDocument, linesOf, linesOf, unixLines_eq_self hraw,
    unixLines_dosBreaks hraw', map_eq_ok, map_eq_ok]
  exact exists_congr fun reading => and_congr_left fun _ => h.readLines

theorem layout_does_not_matter_version :
    readDocument [] (dosBreaks "# policy\nversion: 1 # the first".toList) =
      .ok { version := .number (.ofNat 1) } := by
  have hempty : IsSpace [] := nofun
  have hspace : IsSpace [' '] := by
    intro c hc
    rw [List.mem_singleton.mp hc]
    decide
  have hlaid : Relaid ["version: 1".toList]
      ["# policy".toList, "version: 1 # the first".toList] :=
    .remark hempty (by decide : '\t' ∉ " policy".toList)
      (.noted (fun _ => rfl : Complete "version: 1".toList) hspace
        (List.cons_ne_nil _ _) (by decide : '\t' ∉ " the first".toList) .nil)
  have hsplit : "version: 1".toList.splitOn '\n' = ["version: 1".toList] := rfl
  have hsplit' : "# policy\nversion: 1 # the first".toList.splitOn '\n' =
      ["# policy".toList, "version: 1 # the first".toList] := rfl
  have hread : readDocument [] "version: 1".toList =
      .ok { version := .number (.ofNat 1) } := rfl
  rw [← hsplit, ← hsplit'] at hlaid
  exact (layout_does_not_matter (by decide) (by decide) hlaid _).mp hread

end PolicyText

end Harmost.Next
