import Harmost.Next.PolicyReading

/-!
# Every well-formed policy can be written

Any well-formed document can be written down, whatever is in its route names
and values: strings go between double quotes, escaped.  The comment stripper,
the splitter of pairs, the splitter of lists and the reader of values each look
for quotes on their own, so this is where they have to agree.
-/

namespace Harmost.Next

open Harmost.Support

namespace PolicyText

/-! ## Parts of a line -/

/-- There is nothing to trim. -/
def Tight (text : Str) : Prop :=
  (∀ c ∈ text.head?, isJsSpace c = false) ∧
    ∀ c ∈ text.getLast?, isJsSpace c = false

theorem rdropWhile_of_tight {text : Str} (h : Tight text) :
    text.rdropWhile isJsSpace = text := by
  cases text using List.reverseRecOn with
  | nil => rfl
  | append_singleton front last =>
      have hlast : isJsSpace last = false := h.2 last (by simp)
      exact List.rdropWhile_concat_neg _ _ _ (by simp [hlast])

theorem dropWhile_of_tight {text : Str} (h : Tight text) :
    text.dropWhile isJsSpace = text := by
  cases text with
  | nil => rfl
  | cons first others =>
      exact List.dropWhile_cons_of_neg (by simp [h.1 first rfl])

theorem jsTrim_of_tight {text : Str} (h : Tight text) : jsTrim text = text := by
  rw [jsTrim, trimMatches, dropWhile_of_tight h, rdropWhile_of_tight h]

/-- A text that can stand in a line. -/
structure Part (text : Str) : Prop where
  printable : Printable text
  tight : Tight text
  clear : Quoting.Clear startsComment text

theorem Part.notMem_tab {text : Str} (h : Part text) : '\t' ∉ text :=
  fun hmem => absurd (printable_iff.mp h.printable _ hmem)
    (by decide)

/-- A text that is read as a key. -/
structure KeyPart (text key : Str) : Prop extends Part text where
  colon : Quoting.Clear isColon text
  ne_nil : text ≠ []
  key : keyOf text = .ok key

/-! ## Lines -/

def entryLine (indent : ℕ) (keyText valueText : Str) : Str :=
  List.replicate indent ' ' ++ (keyText ++ ':' :: ' ' :: valueText)

theorem clear_spaces (n : ℕ) :
    Quoting.Clear startsComment (List.replicate n ' ') := by
  refine Quoting.clear_of_forall fun c hc => ?_
  rw [List.eq_of_mem_replicate hc]
  exact ⟨rfl, fun _ => rfl⟩

variable {indent : ℕ} {keyText key valueText : Str}

theorem clear_entryLine (hkey : Part keyText) (hvalue : Part valueText) :
    Quoting.Clear startsComment (entryLine indent keyText valueText) := by
  have hcolon : Quoting.Clear startsComment [':', ' '] :=
    Quoting.clear_of_forall fun c hc => by
      rcases List.mem_cons.mp hc with rfl | hspace
      · exact ⟨rfl, fun _ => rfl⟩
      · rw [List.mem_singleton.mp hspace]
        exact ⟨rfl, fun _ => rfl⟩
  exact (clear_spaces indent).append (hkey.clear.append
    (hcolon.append hvalue.clear))

/-- What follows the colon once the end of the line is trimmed. -/
def afterColon (valueText : Str) : Str :=
  (' ' :: valueText).rdropWhile isJsSpace

theorem jsTrim_afterColon (h : Tight valueText) :
    jsTrim (afterColon valueText) = valueText := by
  have hspace : isJsSpace ' ' = true := by decide
  cases valueText using List.reverseRecOn with
  | nil => rfl
  | append_singleton front last =>
      have hlast : isJsSpace last = false := h.2 last (by simp)
      have hafter :
          afterColon (front ++ [last]) = ' ' :: (front ++ [last]) := by
        rw [afterColon, ← List.cons_append]
        exact List.rdropWhile_concat_neg _ _ _ (by simp [hlast])
      rw [hafter, jsTrim, trimMatches, List.dropWhile_cons_of_pos hspace]
      exact jsTrim_of_tight h

theorem stripComment_entryLine (hkey : Part keyText) (hvalue : Part valueText) :
    stripComment (entryLine indent keyText valueText) =
      List.replicate indent ' ' ++
        (keyText ++ ':' :: afterColon valueText) := by
  have hcolon : isJsSpace ':' = false := by decide
  rw [stripComment, Quoting.cut_of_passes
    ((clear_entryLine hkey hvalue).passes none), entryLine,
    ← List.append_assoc, rdropWhile_append_cons hcolon, List.append_assoc]
  rfl

theorem dropWhile_spaces {rest : Str} (hne : rest ≠ [])
    (hhead : ∀ c ∈ rest.head?, isJsSpace c = false) (n : ℕ) :
    (List.replicate n ' ' ++ rest).takeWhile isJsSpace =
        List.replicate n ' ' ∧
      (List.replicate n ' ' ++ rest).dropWhile isJsSpace = rest := by
  have hspaces : ∀ c ∈ List.replicate n ' ', isJsSpace c = true := by
    intro c hc
    rw [List.eq_of_mem_replicate hc]
    decide
  obtain ⟨first, others, rfl⟩ := List.exists_cons_of_ne_nil hne
  have hfirst : ¬isJsSpace first = true := by simp [hhead first rfl]
  rw [List.takeWhile_append_of_pos hspaces,
    List.dropWhile_append_of_pos hspaces, List.takeWhile_cons_of_neg hfirst,
    List.dropWhile_cons_of_neg hfirst, List.append_nil]
  exact ⟨rfl, rfl⟩

theorem head_key (hkey : KeyPart keyText key) (rest : Str) :
    ∀ c ∈ (keyText ++ rest).head?, isJsSpace c = false := by
  obtain ⟨first, others, rfl⟩ := List.exists_cons_of_ne_nil hkey.ne_nil
  exact hkey.tight.1

theorem jsTrim_key (hkey : KeyPart keyText key) :
    jsTrim (List.replicate indent ' ' ++
        (keyText ++ ':' :: afterColon valueText)) =
      keyText ++ ':' :: afterColon valueText := by
  have hcolon : isJsSpace ':' = false := by decide
  rw [jsTrim, trimMatches,
    (dropWhile_spaces (by simp) (head_key hkey _) indent).2,
    rdropWhile_append_cons hcolon, afterColon, List.rdropWhile_idempotent]

/-- A line of a document is read as what is written on it. -/
theorem lineEntry_entryLine (hkey : KeyPart keyText key)
    (hvalue : Part valueText) (heven : indent % 2 = 0) :
    lineEntry (entryLine indent keyText valueText) =
      .ok (some ⟨indent, key, valueText⟩) := by
  have htab : ¬(entryLine indent keyText valueText).contains '\t' = true := by
    rw [contains_tab_iff, entryLine]
    simp [hkey.notMem_tab, hvalue.notMem_tab]
  have hindent : ((List.replicate indent ' ' ++
      (keyText ++ ':' :: afterColon valueText)).takeWhile isJsSpace).length =
        indent := by
    rw [(dropWhile_spaces (by simp) (head_key hkey _) indent).1,
      List.length_replicate]
  have hpair : splitPair (keyText ++ ':' :: afterColon valueText) =
      .ok (keyText, valueText) := by
    rw [splitPair, hkey.colon.cut rfl (fun _ => rfl)]
    dsimp only
    rw [jsTrim_of_tight hkey.tight, jsTrim_afterColon hvalue.tight]
  have hne :
      jsTrim (stripComment (entryLine indent keyText valueText)) ≠ [] := by
    rw [stripComment_entryLine hkey.toPart hvalue, jsTrim_key hkey]
    simp
  rw [lineEntry, if_neg htab, if_neg hne,
    stripComment_entryLine hkey.toPart hvalue, entryOf, hindent,
    if_neg (not_not.mpr heven), jsTrim_key hkey, hpair]
  dsimp only [Except.bind]
  rw [hkey.key]
  rfl

/-! ## Strings -/

theorem replicate_toDigits : ∀ n < 32,
    List.replicate (4 - (Nat.toDigits 16 n).length) '0' ++ Nat.toDigits 16 n =
      ['0', '0', Nat.digitChar (n / 16), Nat.digitChar (n % 16)] := by
  decide

theorem escapes_jsonEscape (c : Char) : Json.Escapes c (jsonEscape c) := by
  have hchar : ∀ {d : Char}, c.toNat = d.toNat → some d = some c :=
    fun h => congrArg some (Char.toNat_inj.mp h).symm
  unfold jsonEscape
  split_ifs with hquote hbackslash hb ht hn hf hr hcontrol
  · subst hquote
    exact .short (by decide) (by decide) rfl
  · subst hbackslash
    exact .short (by decide) (by decide) rfl
  · exact .short (by decide) (by decide) (hchar hb)
  · exact .short (by decide) (by decide) (hchar ht)
  · exact .short (by decide) (by decide) (hchar hn)
  · exact .short (by decide) (by decide) (hchar hf)
  · exact .short (by decide) (by decide) (hchar hr)
  · simp only [List.append_assoc, replicate_toDigits _ hcontrol]
    exact .unit hcontrol
  · exact .plain hbackslash hquote (Nat.le_of_not_lt hcontrol)

theorem jsonString_eq (text : Str) :
    jsonString text = '"' :: (text.flatMap jsonEscape ++ ['"']) :=
  rfl

theorem escaped_of_escapes {c : Char} {text : Str}
    (h : Json.Escapes c text) : Quoting.Escaped text := by
  cases h with
  | @short e hu hprintable hsimple => exact .inr ⟨e, [], rfl, nofun⟩
  | unit hcontrol =>
      have hdigits : ∀ n < 16,
          Nat.digitChar n ≠ '"' ∧ Nat.digitChar n ≠ '\\' := by
        decide
      have hhigh := hdigits (c.toNat / 16) (by omega)
      have hlow := hdigits (c.toNat % 16) (by omega)
      exact .inr ⟨'u', _, rfl, by simp [hhigh, hlow]⟩
  | plain hbackslash hquote hprintable =>
      exact .inl ⟨c, rfl, hquote, hbackslash⟩

theorem clear_jsonString (stop : Option Char → Char → Bool) (text : Str) :
    Quoting.Clear stop (jsonString text) :=
  Quoting.clear_quoted (fun c => escaped_of_escapes (escapes_jsonEscape c)) text

theorem tight_jsonString (text : Str) : Tight (jsonString text) := by
  constructor
  · rintro c ⟨⟩
    decide
  · intro c hc
    rw [jsonString_eq, ← List.cons_append, List.getLast?_concat] at hc
    cases hc
    decide

theorem part_jsonString (text : Str) : Part (jsonString text) where
  printable := by
    rw [jsonString_eq, printable_cons, printable_append]
    exact ⟨by decide, Json.printable_flatMap escapes_jsonEscape text, by decide⟩
  tight := tight_jsonString text
  clear := clear_jsonString _ text

theorem scalar_jsonString (text : Str) :
    scalar (jsonString text) = .ok (.text text) := by
  have hparse : Json.parse (jsonString text) = some (.string text) :=
    (Json.renders_string (Json.quotes_of_escapes escapes_jsonEscape)
      text).parse (Nat.le_add_left _ _)
  have hne : jsonString text ≠ [] := List.cons_ne_nil _ _
  have hhead : (jsonString text).head? = some '"' := rfl
  rw [scalar, if_neg hne, if_pos hhead, doubleQuoted, hparse]

theorem keyPart_jsonString {name : Str} (hne : name ≠ []) :
    KeyPart (jsonString name) name where
  toPart := part_jsonString name
  colon := clear_jsonString _ name
  ne_nil := List.cons_ne_nil _ _
  key := by
    rw [keyOf, scalar_jsonString]
    exact if_neg hne

/-! ## Lists -/

def isComma (_ : Option Char) (c : Char) : Bool :=
  c == ','

/-- Within an item the loop over a list only collects. -/
theorem listItems_append {q : Quoting} {before : Option Char} {text : Str}
    (h : Quoting.Passes isComma q before text) (item rest : Str) :
    listItems q item (text ++ rest) =
      listItems (q.scan text) (item ++ text) rest := by
  induction text generalizing q before item with
  | nil => rw [List.append_nil]; rfl
  | cons c text ih =>
      obtain ⟨hgo, hrest⟩ := Quoting.passes_cons.mp h
      have hgo' : (q.bare c && c == ',') = false := hgo
      rw [List.cons_append, listItems, hgo', ih hrest]
      simp

theorem listItem_jsonString (text : Str) :
    listItem (jsonString text) = .ok text := by
  have hne : jsonString text ≠ [] := List.cons_ne_nil _ _
  rw [listItem, jsTrim_of_tight (tight_jsonString text), if_neg hne,
    scalar_jsonString]
  rfl

theorem listItems_join (item : Str) (items : List Str) :
    listItems {} [] (join ',' ((item :: items).map jsonString)) =
      .ok (item :: items) := by
  have hclear := clear_jsonString isComma item
  induction items generalizing item with
  | nil =>
      have hread := listItems_append (hclear.passes none) [] []
      rw [List.append_nil] at hread
      rw [List.map_singleton, join_singleton, hread, hclear.scan,
        List.nil_append, listItems, if_neg (by decide), listItem_jsonString]
      rfl
  | cons next items ih =>
      rw [List.map_cons, List.map_cons, join_cons_cons,
        listItems_append (hclear.passes none), hclear.scan, List.nil_append,
        listItems, if_pos (by decide), listItem_jsonString, ← List.map_cons,
        ih next (clear_jsonString isComma next)]
      rfl

/-- A list as it is written. -/
def writeList (items : List Str) : Str :=
  '[' :: (join ',' (items.map jsonString) ++ [']'])

theorem join_ne_nil (item : Str) (items : List Str) :
    join ',' ((item :: items).map jsonString) ≠ [] := by
  cases items with
  | nil => exact List.cons_ne_nil _ _
  | cons next items =>
      rw [List.map_cons, List.map_cons, join_cons_cons]
      exact List.cons_ne_nil _ _

theorem part_join (items : List Str) :
    Part (join ',' (items.map jsonString)) := by
  induction items with
  | nil => exact ⟨rfl, ⟨nofun, nofun⟩, Quoting.clear_nil⟩
  | cons item items ih =>
      have hitem := part_jsonString item
      cases items with
      | nil => rwa [List.map_singleton, join_singleton]
      | cons next items =>
          rw [List.map_cons, List.map_cons, join_cons_cons, ← List.map_cons]
          refine ⟨?_, ⟨hitem.tight.1, fun c hc => ?_⟩, hitem.clear.append
            ((Quoting.clear_singleton rfl fun _ => rfl).append ih.clear)⟩
          · rw [printable_append, printable_cons]
            exact ⟨hitem.printable, by decide, ih.printable⟩
          · rw [← List.singleton_append, ← List.append_assoc,
              List.getLast?_append_of_ne_nil _ (join_ne_nil next items)] at hc
            exact ih.tight.2 c hc

theorem part_writeList (items : List Str) : Part (writeList items) where
  printable := by
    rw [writeList, printable_cons, printable_append]
    exact ⟨by decide, (part_join items).printable, by decide⟩
  tight := by
    constructor
    · rintro c ⟨⟩
      decide
    · intro c hc
      rw [writeList, ← List.cons_append, List.getLast?_concat] at hc
      cases hc
      decide
  clear :=
    (Quoting.clear_singleton rfl fun _ => rfl).append
      ((part_join items).clear.append
        (Quoting.clear_singleton rfl fun _ => rfl))

theorem list_writeList (items : List Str) :
    list (writeList items) = .ok items := by
  have hhead : (writeList items).head? = some '[' := rfl
  have hlast : (writeList items).getLast? = some ']' := by
    rw [writeList, ← List.cons_append, List.getLast?_concat]
  have hinner : inner (writeList items) = join ',' (items.map jsonString) :=
    List.dropLast_concat
  rw [list, if_neg (by simp [hhead, hlast]), hinner,
    jsTrim_of_tight (part_join items).tight]
  cases items with
  | nil => rfl
  | cons item items =>
      rw [if_neg (join_ne_nil item items)]
      exact listItems_join item items

/-! ## Values -/

def writeValue : Written → Str
  | .null => []
  | .text value => jsonString value
  | .bool value => if value then "true".toList else "false".toList
  | .number value => decimal value.toNat
  | .list items => writeList items

/-- A text of letters and digits. -/
def isWord (text : Str) : Bool :=
  text.all Char.isAlphanum

theorem graphic_of_isAlphanum {c : Char} (h : c.isAlphanum = true) :
    (0x30 ≤ c.toNat ∧ c.toNat ≤ 0x39) ∨ (0x41 ≤ c.toNat ∧ c.toNat ≤ 0x7a) := by
  rw [Char.isAlphanum, Bool.or_eq_true, isAlpha_iff_toNat] at h
  rcases h with halpha | hdigit
  · omega
  · exact .inl (Char.isDigit_iff_toNat.mp hdigit)

theorem ne_of_isAlphanum {c d : Char} (h : c.isAlphanum = true)
    (hd : d.isAlphanum = false) : c ≠ d := by
  rintro rfl
  rw [h] at hd
  cases hd

theorem isJsSpace_of_isAlphanum {c : Char} (h : c.isAlphanum = true) :
    isJsSpace c = false := by
  have hgraphic := graphic_of_isAlphanum h
  rw [isJsSpace, isWhitespace_eq_false_of_graphic (by omega) (by omega),
    Bool.false_and, Bool.false_or, beq_eq_false_iff_ne]
  omega

theorem part_word {text : Str} (h : isWord text = true) : Part text := by
  have hword := List.all_eq_true.mp h
  have hspace : ∀ c ∈ text, isJsSpace c = false := fun c hc =>
    isJsSpace_of_isAlphanum (hword c hc)
  refine ⟨?_, ⟨fun c hc => hspace c (List.mem_of_mem_head? hc), fun c hc =>
    hspace c (List.mem_of_mem_getLast? hc)⟩, ?_⟩
  · refine printable_iff.mpr fun c hc => ?_
    have := graphic_of_isAlphanum (hword c hc)
    omega
  · refine Quoting.clear_of_forall fun c hc => ?_
    have hne : ∀ {d : Char}, d.isAlphanum = false → c ≠ d :=
      ne_of_isAlphanum (hword c hc)
    rw [Quoting.isQuote, beq_false_of_ne (hne (by decide)),
      beq_false_of_ne (hne (by decide))]
    refine ⟨rfl, fun before => ?_⟩
    rw [startsComment, beq_false_of_ne (hne (by decide)), Bool.false_and]

theorem isWord_decimal (n : ℕ) : isWord (decimal n) = true := by
  refine List.all_eq_true.mpr fun c hc => ?_
  rw [Char.isAlphanum, isDigit_of_mem_decimal hc, Bool.or_true]

theorem part_writeValue (value : Written) : Part (writeValue value) := by
  cases value with
  | null => exact part_word rfl
  | text value => exact part_jsonString value
  | bool value => cases value <;> exact part_word (by decide)
  | number value => exact part_word (isWord_decimal _)
  | list items => exact part_writeList items

theorem scalar_decimal (n : ℕ) :
    scalar (decimal n) = .ok (.number (.ofNat n)) := by
  obtain ⟨first, others, hdecimal, hdigit, -⟩ := decimal_eq_cons n
  have hfirst : first.isAlphanum = true := by
    rw [Char.isAlphanum, hdigit, Bool.or_true]
  have hhead : (decimal n).head? = some first := by rw [hdecimal]; rfl
  have hdigits : (decimal n).all Char.isDigit = true :=
    List.all_eq_true.mpr fun c hc => isDigit_of_mem_decimal hc
  have hword : ∀ word : Str, word.all Char.isDigit = false →
      decimal n ≠ word := by
    rintro word hword rfl
    exact absurd hdigits (by simp [hword])
  have hquote : first ≠ '"' := ne_of_isAlphanum hfirst (by decide)
  have hsingle : first ≠ '\'' := ne_of_isAlphanum hfirst (by decide)
  rw [scalar, if_neg (decimal_ne_nil n), hhead,
    if_neg (fun h => hquote (Option.some.inj h)),
    if_neg (fun h => hsingle (Option.some.inj h)), plain,
    if_neg (hword _ (by decide)), if_neg (hword _ (by decide)),
    if_pos hdigits, digitsValue_decimal]

/-- A value is read back as what it was. -/
theorem valueOf_writeValue (value : Written) :
    valueOf value.isList (writeValue value) = .ok value := by
  cases value with
  | null => rfl
  | text value => exact scalar_jsonString value
  | bool value => cases value <;> rfl
  | number value => exact (scalar_decimal _).trans (by rw [value.ofNat_toNat])
  | list items =>
      rw [valueOf, writeValue, list_writeList]
      rfl

/-! ## Documents -/

/-- A line for a key and a value.  Every key is quoted. -/
def writeEntry (indent : ℕ) (key : Str) (value : Written) : Str :=
  entryLine indent (jsonString key) (writeValue value)

def fieldLines (indent : ℕ) (fields : List (Str × Written)) : List Str :=
  fields.map fun field => writeEntry indent field.1 field.2

def cacheLines : Option (List (Str × Written)) → List Str
  | none => []
  | some cache => writeEntry 4 "cache".toList .null :: fieldLines 6 cache

def routeLines (entry : Str × WrittenRoute) : List Str :=
  writeEntry 2 entry.1 .null ::
    (fieldLines 4 entry.2.fields ++ cacheLines entry.2.cache)

def documentLines (document : Document) : List Str :=
  writeEntry 0 "version".toList document.version ::
    writeEntry 0 "routes".toList .null :: document.routes.flatMap routeLines

def writeDocument (document : Document) : Str :=
  join '\n' (documentLines document)

/-! ## Reading a document back -/

/-- Wherever they stand, the lines lead from one state to the other; and they
are lines. -/
def Reads (lines : List Str) (reading reading' : Reading) : Prop :=
  (∀ line ∈ lines, Printable line) ∧
    ∀ file n, readLines file n reading lines = .ok reading'

theorem reads_nil (reading : Reading) : Reads [] reading reading :=
  ⟨List.forall_mem_nil _, fun _ _ => rfl⟩

theorem Reads.append {lines lines' : List Str}
    {reading reading' reading'' : Reading} (h : Reads lines reading reading')
    (h' : Reads lines' reading' reading'') :
    Reads (lines ++ lines') reading reading'' := by
  refine ⟨List.forall_mem_append.mpr ⟨h.1, h'.1⟩, fun file n => ?_⟩
  rw [readLines_append, h.2]
  exact h'.2 file _

theorem printable_entryLine (hkey : Part keyText) (hvalue : Part valueText) :
    Printable (entryLine indent keyText valueText) := by
  have hspaces : Printable (List.replicate indent ' ') :=
    printable_iff.mpr fun c hc => by
      rw [List.eq_of_mem_replicate hc]
      decide
  rw [entryLine, printable_append, printable_append, printable_cons,
    printable_cons]
  exact ⟨hspaces, hkey.printable, by decide, by decide, hvalue.printable⟩

theorem reads_writeEntry {reading reading' : Reading} {value : Written}
    (hne : key ≠ []) (heven : indent % 2 = 0)
    (hread : readEntry reading ⟨indent, key, writeValue value⟩ =
      .ok reading') : Reads [writeEntry indent key value] reading reading' := by
  have hkey := keyPart_jsonString hne
  have hvalue := part_writeValue value
  refine ⟨List.forall_mem_singleton.mpr
    (printable_entryLine hkey.toPart hvalue), fun file n => ?_⟩
  rw [readLines, readLine, writeEntry, lineEntry_entryLine hkey hvalue heven]
  dsimp only [Except.bind]
  rw [hread]
  rfl

/-- The state among the routes. -/
def among (version : Written) (routes : List (Str × WrittenRoute))
    (route : Option Str) (inCache : Bool) : Reading where
  document := { version, routes }
  inRoutes := true
  route := route
  inCache := inCache
  seenVersion := true
  seenRoutes := true

section Route

variable {version : Written} {done : List (Str × WrittenRoute)} {name : Str}
  {fields : WrittenRoute} {inCache : Bool}

section

variable (hproto : name ≠ proto) (hnew : name ∉ done.map Prod.fst)
include hproto hnew

theorem fieldsOf_among :
    (among version (done ++ [(name, fields)]) (some name) inCache).fieldsOf
      name = fields := by
  rw [Reading.fieldsOf, if_neg hproto, among, lookup_last hnew]
  rfl

theorem setFields_among (fields' : WrittenRoute) :
    (among version (done ++ [(name, fields)]) (some name) inCache).setFields
        name fields' =
      among version (done ++ [(name, fields')]) (some name) inCache := by
  have hdone : (done.map fun entry =>
      if entry.1 = name then (name, fields') else entry) = done := by
    refine (List.map_congr_left fun entry hentry => ?_).trans (List.map_id _)
    refine if_neg ?_
    rintro rfl
    exact hnew (List.mem_map_of_mem hentry)
  rw [Reading.setFields, if_neg hproto]
  simp [among, hdone]

theorem reads_route {route : Option Str} (hne : name ≠ []) :
    Reads [writeEntry 2 name .null] (among version done route inCache)
      (among version (done ++ [(name, ({} : WrittenRoute))]) (some name)
        false) := by
  refine reads_writeEntry hne rfl ?_
  have hunknown : ¬(done.lookup name).isSome = true :=
    mt isSome_lookup_iff.mp hnew
  have hread : readRoute (among version done route inCache) name [] =
      .ok (among version (done ++ [(name, ({} : WrittenRoute))]) (some name)
        false) := by
    rw [readRoute, if_neg (not_not.mpr rfl), among, if_neg hunknown,
      if_neg hproto]
    rfl
  exact hread

/-- The route that is being read gets one more field. -/
theorem reads_field {value : Written} (hkey : key ∈ plainFields)
    (hlist : value.isList = ["methods".toList].contains key)
    (hfresh : key ∉ fields.fields.map Prod.fst) :
    Reads [writeEntry 4 key value]
      (among version (done ++ [(name, fields)]) (some name) inCache)
      (among version (done ++
        [(name, { fields with fields := fields.fields ++ [(key, value)] })])
        (some name) false) := by
  obtain ⟨hallowed, hcache⟩ := List.mem_filter.mp hkey
  refine reads_writeEntry (fun hnil => ?_) rfl ?_
  · rw [hnil] at hallowed
    exact absurd hallowed (by decide)
  have hunseen : ¬(fields.fields.lookup key).isSome = true :=
    mt isSome_lookup_iff.mp hfresh
  have hmethods : (key == "methods".toList) = value.isList := by
    rw [hlist, List.contains_cons, List.contains_nil, Bool.or_false]
  have hread : readField
      (among version (done ++ [(name, fields)]) (some name) inCache) name key
      (writeValue value) = .ok (among version (done ++
        [(name, { fields with fields := fields.fields ++ [(key, value)] })])
        (some name) false) := by
    rw [readField, if_neg (not_not.mpr (List.contains_iff_mem.mpr hallowed)),
      fieldsOf_among hproto hnew, WrittenRoute.has,
      if_neg (bne_iff_ne.mp hcache), if_neg hunseen,
      if_neg (bne_iff_ne.mp hcache), hmethods, valueOf_writeValue]
    simp only [setFields_among hproto hnew]
    rfl
  exact hread

theorem reads_fields {more : List (Str × Written)}
    (hfields : FieldsOk plainFields ["methods".toList]
      (fields.fields ++ more)) :
    Reads (fieldLines 4 more)
      (among version (done ++ [(name, fields)]) (some name) false)
      (among version (done ++
        [(name, { fields with fields := fields.fields ++ more })])
        (some name) false) := by
  induction more generalizing fields with
  | nil =>
      rw [List.append_nil]
      exact reads_nil _
  | cons field more ih =>
      obtain ⟨hallowed, hlist, hfresh⟩ := hfields.middle
      rw [List.append_cons fields.fields] at hfields ⊢
      exact (reads_field hproto hnew hallowed hlist hfresh).append
        (@ih { fields with fields := fields.fields ++ [field] } hfields)

theorem reads_cache (hnone : fields.cache = none) :
    Reads [writeEntry 4 "cache".toList .null]
      (among version (done ++ [(name, fields)]) (some name) inCache)
      (among version (done ++ [(name, { fields with cache := some [] })])
        (some name) true) := by
  refine reads_writeEntry (by decide) rfl ?_
  have hread : readField
      (among version (done ++ [(name, fields)]) (some name) inCache) name
      "cache".toList [] = .ok (among version
        (done ++ [(name, { fields with cache := some [] })]) (some name)
        true) := by
    rw [readField, if_neg (by decide), fieldsOf_among hproto hnew,
      WrittenRoute.has, if_pos rfl, hnone, if_neg (by decide), if_pos rfl,
      if_neg (not_not.mpr rfl), setFields_among hproto hnew]
    rfl
  exact hread

theorem reads_cacheField {cache : List (Str × Written)}
    (hcache : fields.cache = some cache) {value : Written}
    (hkey : key ∈ cacheFields)
    (hlist : value.isList = ["query".toList, "vary".toList].contains key)
    (hfresh : key ∉ cache.map Prod.fst) :
    Reads [writeEntry 6 key value]
      (among version (done ++ [(name, fields)]) (some name) true)
      (among version (done ++
        [(name, { fields with cache := some (cache ++ [(key, value)]) })])
        (some name) true) := by
  refine reads_writeEntry (fun hnil => ?_) rfl ?_
  · rw [hnil] at hkey
    exact absurd hkey (by decide)
  have hunseen : ¬(cache.lookup key).isSome = true :=
    mt isSome_lookup_iff.mp hfresh
  have hlists : (key == "query".toList || key == "vary".toList) =
      value.isList := by
    rw [hlist, List.contains_cons, List.contains_cons, List.contains_nil,
      Bool.or_false]
  have hread : readCacheField
      (among version (done ++ [(name, fields)]) (some name) true) name key
      (writeValue value) = .ok (among version (done ++
        [(name, { fields with cache := some (cache ++ [(key, value)]) })])
        (some name) true) := by
    rw [readCacheField, fieldsOf_among hproto hnew, hcache]
    dsimp only [Option.getD_some]
    rw [if_neg (not_not.mpr (List.contains_iff_mem.mpr hkey)),
      if_neg hunseen, hlists, valueOf_writeValue]
    simp only [setFields_among hproto hnew]
    rfl
  exact hread

theorem reads_cacheFields {cache more : List (Str × Written)}
    (hcache : fields.cache = some cache)
    (hfields : FieldsOk cacheFields ["query".toList, "vary".toList]
      (cache ++ more)) :
    Reads (fieldLines 6 more)
      (among version (done ++ [(name, fields)]) (some name) true)
      (among version (done ++
        [(name, { fields with cache := some (cache ++ more) })])
        (some name) true) := by
  induction more generalizing fields cache with
  | nil =>
      rw [List.append_nil, ← hcache]
      exact reads_nil _
  | cons field more ih =>
      obtain ⟨hallowed, hlist, hfresh⟩ := hfields.middle
      rw [List.append_cons cache] at hfields ⊢
      exact (reads_cacheField hproto hnew hcache hallowed hlist hfresh).append
        (@ih { fields with cache := some (cache ++ [field]) } _ rfl hfields)

end

end Route

theorem reads_routeLines {version : Written}
    {done : List (Str × WrittenRoute)} {route : Option Str} {inCache : Bool}
    {entry : Str × WrittenRoute} (hne : entry.1 ≠ [])
    (hproto : entry.1 ≠ proto) (hnew : entry.1 ∉ done.map Prod.fst)
    (hentry : entry.2.WellFormed) :
    ∃ inCache', Reads (routeLines entry) (among version done route inCache)
      (among version (done ++ [entry]) (some entry.1) inCache') := by
  obtain ⟨name, ⟨fields, cache⟩⟩ := entry
  have hroute : Reads [writeEntry 2 name .null]
      (among version done route inCache)
      (among version (done ++ [(name, ({} : WrittenRoute))]) (some name)
        false) := reads_route hproto hnew hne
  have hfields : FieldsOk plainFields ["methods".toList]
      (({} : WrittenRoute).fields ++ fields) := hentry.fields
  have hname := hroute.append (reads_fields hproto hnew hfields)
  cases cache with
  | none =>
      refine ⟨false, ?_⟩
      rwa [routeLines, cacheLines, List.append_nil]
  | some cache =>
      refine ⟨true, ?_⟩
      have hcacheFields : FieldsOk cacheFields
          ["query".toList, "vary".toList] ([] ++ cache) :=
        hentry.cache cache rfl
      have hcache := hname.append ((reads_cache hproto hnew rfl).append
        (reads_cacheFields hproto hnew rfl hcacheFields))
      rwa [List.append_assoc] at hcache

theorem reads_routes {version : Written} {done more : List (Str × WrittenRoute)}
    {route : Option Str} {inCache : Bool}
    (hnamed : ∀ entry ∈ more, entry.1 ≠ [] ∧ entry.1 ≠ proto)
    (hnodup : ((done ++ more).map Prod.fst).Nodup)
    (hroutes : ∀ entry ∈ more, entry.2.WellFormed) :
    ∃ route' inCache', Reads (more.flatMap routeLines)
      (among version done route inCache)
      (among version (done ++ more) route' inCache') := by
  induction more generalizing done route inCache with
  | nil =>
      rw [List.append_nil]
      exact ⟨route, inCache, reads_nil _⟩
  | cons entry more ih =>
      obtain ⟨⟨hne, hproto⟩, hnamed'⟩ := List.forall_mem_cons.mp hnamed
      obtain ⟨hentry, hroutes'⟩ := List.forall_mem_cons.mp hroutes
      have hnew : entry.1 ∉ done.map Prod.fst := by
        rw [List.map_append, List.map_cons] at hnodup
        exact fun hbefore => List.disjoint_of_nodup_append hnodup hbefore
          List.mem_cons_self
      rw [List.append_cons] at hnodup ⊢
      obtain ⟨_, hfirst⟩ : ∃ inCache', Reads (routeLines entry)
          (among version done route inCache)
          (among version (done ++ [entry]) (some entry.1) inCache') :=
        reads_routeLines hne hproto hnew hentry
      obtain ⟨route', inCache', hrest⟩ := ih hnamed' hnodup hroutes'
      exact ⟨route', inCache', hfirst.append hrest⟩

theorem reads_documentLines {document : Document} (h : document.WellFormed) :
    ∃ reading, Reads (documentLines document) {} reading ∧
      reading.document = document := by
  obtain ⟨version, routes⟩ := document
  have hversion : Reads [writeEntry 0 "version".toList version] {}
      { document := { version }, seenVersion := true } := by
    refine reads_writeEntry (by decide) rfl ?_
    have hscalar : scalar (writeValue version) = .ok version := by
      have hvalue := valueOf_writeValue version
      rwa [h.version] at hvalue
    have hread : readTop {} "version".toList (writeValue version) =
        .ok { document := { version }, seenVersion := true } := by
      rw [readTop, if_pos rfl, hscalar]
      rfl
    exact hread
  have hroutes : Reads [writeEntry 0 "routes".toList .null]
      { document := { version }, seenVersion := true }
      (among version [] none false) :=
    reads_writeEntry (by decide) rfl rfl
  obtain ⟨_, _, hrest⟩ : ∃ route' inCache', Reads (routes.flatMap routeLines)
      (among version [] none false)
      (among version ([] ++ routes) route' inCache') :=
    reads_routes h.named h.nodup h.routes
  exact ⟨_, hversion.append (hroutes.append hrest), rfl⟩

/-! ## Lines and text -/

theorem linesOf_join {lines : List Str} (hne : lines ≠ [])
    (h : ∀ line ∈ lines, Printable line) :
    linesOf (join '\n' lines) = lines := by
  have hcontrol : ∀ line ∈ lines, ∀ c : Char, c.toNat < 0x20 → c ∉ line :=
    fun line hline c hc hmem => absurd
      (printable_iff.mp (h line hline) c hmem) (by omega)
  have hreturn : '\r' ∉ join '\n' lines := by
    intro hmem
    rcases mem_join hmem with heq | ⟨line, hline, hmem⟩
    · exact absurd heq (by decide)
    · exact hcontrol line hline '\r' (by decide) hmem
  rw [linesOf, unixLines_eq_self hreturn]
  exact List.splitOn_intercalate '\n'
    (fun line hline => hcontrol line hline '\n' (by decide)) hne

/-- What is written is read back. -/
theorem readDocument_writeDocument (file : Str) {document : Document}
    (h : document.WellFormed) :
    readDocument file (writeDocument document) = .ok document := by
  obtain ⟨reading, hreads, rfl⟩ := reads_documentLines h
  have hlines : linesOf (writeDocument reading.document) =
      documentLines reading.document :=
    linesOf_join (List.cons_ne_nil _ _) hreads.1
  rw [readDocument, hlines, hreads.2]
  rfl

end PolicyText

end Harmost.Next
