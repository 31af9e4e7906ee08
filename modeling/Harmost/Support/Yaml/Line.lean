import Harmost.Support.Json

/-!
# Lines of YAML

What one line of a YAML 1.2 document says.  A line is a comment, or a key with
or without a value, or dashes that open entries of a sequence, or a scalar.
Scalars are plain or in double quotes, and a list of scalars in double quotes
may stand on one line in brackets.  Every node ends on its own line: scalars
that go on over several lines, block scalars, aliases, single quotes, explicit
keys and mappings in braces are refused, and so is a text that is no YAML.

The names in code font are the productions of the specification.
-/

namespace Harmost.Support.Yaml

/-! ## Characters -/

/-- `s-white`. -/
def isWhite (c : Char) : Bool :=
  c == ' ' || c == '\t'

/-- `nb-char`: printable, and neither a line break nor a byte order mark. -/
def isNbChar (c : Char) : Bool :=
  c == '\t' || (0x20 ≤ c.toNat && c.toNat ≤ 0x7e) || c.toNat == 0x85 ||
    (0xa0 ≤ c.toNat && c.toNat ≤ 0xfffd && c.toNat != 0xfeff) ||
    0x10000 ≤ c.toNat

/-- `ns-char`. -/
def isNsChar (c : Char) : Bool :=
  isNbChar c && !isWhite c

/-- `nb-json`. -/
def isNbJson (c : Char) : Bool :=
  c == '\t' || 0x20 ≤ c.toNat

/-- `c-indicator`. -/
def isIndicator (c : Char) : Bool :=
  "-?:,[]\x7b\x7d#&*!|>'\"%@`".toList.contains c

/-- Line breaks are line feeds and carriage returns.  A carriage return with a
line feed is a single break; taking it for two adds an empty line, and empty
lines are comments. -/
def lines (text : Str) : List Str :=
  (text.splitOn '\n').flatMap fun line => line.splitOn '\r'

/-- There is no line break in the text. -/
def isUnbroken (text : Str) : Bool :=
  text.all fun c => c != '\n' && c != '\r'

/-- White space or the end of the line comes first. -/
def endsToken (rest : Str) : Bool :=
  rest.head?.all isWhite

/-- `l-comment`: white space and a comment, either of which may be missing. -/
def isComment (line : Str) : Bool :=
  match line.dropWhile isWhite with
  | [] => true
  | c :: text => c == '#' && text.all isNbChar

/-- What may follow a scalar on its line: a comment needs white space before
it. -/
def isTrailing (rest : Str) : Bool :=
  endsToken rest && isComment rest

/-! ## Scalars -/

/-- The escapes of one character. -/
def escapes : List (Char × Char) :=
  [('0', '\x00'), ('a', '\x07'), ('b', '\x08'), ('t', '\t'), ('\t', '\t'),
    ('n', '\n'), ('v', '\x0b'), ('f', '\x0c'), ('r', '\r'), ('e', '\x1b'),
    (' ', ' '), ('"', '"'), ('/', '/'), ('\\', '\\'), ('N', '\u0085'),
    ('_', '\u00a0'), ('L', '\u2028'), ('P', '\u2029')]

/-- A number in this many hexadecimal digits. -/
def readHex : ℕ → ℕ → Reader ℕ
  | 0, value, rest => some (value, rest)
  | _ + 1, _, [] => none
  | digits + 1, value, c :: rest =>
      (hexDigit c).bind fun digit =>
        readHex digits (value * 16 + digit) rest

def readCode (digits : ℕ) (text : Str) : Option (Char × Str) :=
  (readHex digits 0 text).bind fun (code, rest) =>
    if code.isValidChar then some (Char.ofNat code, rest) else none

/-- After a backslash. -/
def readEscape : Reader Char
  | [] => none
  | c :: rest =>
      if c = 'x' then readCode 2 rest
      else if c = 'u' then readCode 4 rest
      else if c = 'U' then readCode 8 rest
      else (escapes.lookup c).map fun c => (c, rest)

/-- `nb-double-char`. -/
def readChar : Reader Char
  | [] => none
  | c :: rest =>
      if c = '\\' then readEscape rest
      else if isNbJson c ∧ c ≠ '"' then some (c, rest)
      else none

/-- `ns-plain-first` outside of brackets. -/
def isPlainFirst : Str → Bool
  | [] => false
  | c :: rest =>
      isNsChar c && (!isIndicator c ||
        ("-?:".toList.contains c && rest.head?.any isNsChar))

/-- A plain scalar ends before a colon that white space follows, and before a
comment. -/
def plainCut : Str → Str × Str
  | [] => ([], [])
  | c :: rest =>
      if (c = ':' ∧ endsToken rest) ∨ (isWhite c ∧ rest.head? = some '#') then
        ([], c :: rest)
      else
        let (front, rest) := plainCut rest
        (c :: front, rest)

/-- `ns-plain` on one line. -/
def readPlain (text : Str) : Option (Str × Str) :=
  let (front, rest) := plainCut text
  let scalar := front.rdropWhile isWhite
  if isPlainFirst scalar && scalar.all isNbChar then some (scalar, rest)
  else none

/-- A node that is written on one line. -/
inductive Leaf where
  | plain (text : Str)
  | quoted (text : Str)
  /-- A flow sequence of quoted scalars. -/
  | flow (items : List Str)
  deriving DecidableEq

def readLeaf : Reader Leaf
  | [] => none
  | c :: rest =>
      if c = '"' then
        (readQuoted readChar rest).map fun (text, rest) => (.quoted text, rest)
      else if c = '[' then
        (readList (List.dropWhile isWhite)
          (fun text => (expect ['"'] text).bind (readQuoted readChar))
          ']' rest).map fun (items, rest) => (.flow items, rest)
      else
        (readPlain (c :: rest)).map fun (text, rest) => (.plain text, rest)

/-! ## Lines -/

/-- What a line says at some indentation. -/
inductive Item where
  /-- A key, with its value if that is on the same line. -/
  | key (name : Str) (value : Option Leaf)
  /-- A dash. -/
  | entry
  | leaf (leaf : Leaf)
  deriving DecidableEq

structure Token where
  indent : ℕ
  item : Item
  deriving DecidableEq

/-- The value after a colon, if there is one on this line. -/
def readValue (text : Str) : Option (Option Leaf) :=
  if isComment text then some none
  else
    (readLeaf (text.dropWhile isWhite)).bind fun (leaf, rest) =>
      if isTrailing rest then some (some leaf) else none

/-- A leaf, as a key. -/
def Leaf.key? : Leaf → Option Str
  | .plain text => some text
  | .quoted text => some text
  | .flow _ => none

/-- A leaf, and whether it is a key. -/
def readItem (text : Str) : Option Item :=
  (readLeaf text).bind fun (leaf, rest) =>
    match leaf.key?, rest.dropWhile isWhite with
    | some name, ':' :: value =>
        if endsToken value then (readValue value).map (.key name) else none
    | _, _ => if isTrailing rest then some (.leaf leaf) else none

/-- The dashes of a line and the item behind them, each at its own
indentation. -/
def readItems : ℕ → ℕ → Str → Option (List Token)
  | 0, _, _ => none
  | _ + 1, _, [] => none
  | fuel + 1, indent, c :: rest =>
      if c = '-' ∧ endsToken rest then
        if isComment rest then some [⟨indent, .entry⟩]
        else
          let spaces := (rest.takeWhile (· == ' ')).length
          (readItems fuel (indent + 1 + spaces) (rest.drop spaces)).map
            (⟨indent, .entry⟩ :: ·)
      else (readItem (c :: rest)).map fun item => [⟨indent, item⟩]

/-- `---` or `...`, which delimit documents. -/
def isMarker (line : Str) : Bool :=
  (line.take 3 == "---".toList || line.take 3 == "...".toList) &&
    endsToken (line.drop 3)

/-- A line that is no comment. -/
def readLine (line : Str) : Option (List Token) :=
  if isMarker line then none
  else
    let indent := (line.takeWhile (· == ' ')).length
    readItems line.length indent (line.drop indent)

/-- What the lines of a document say. -/
def content : List Str → Option (List Token)
  | [] => some []
  | line :: rest =>
      if isComment line then content rest
      else
        (readLine line).bind fun tokens =>
          (content rest).map (tokens ++ ·)

theorem content_cons_of_comment {line : Str} (h : isComment line = true)
    (rest : List Str) : content (line :: rest) = content rest :=
  if_pos h

theorem content_append (front rest : List Str) :
    content (front ++ rest) =
      (content front).bind fun tokens =>
        (content rest).map (tokens ++ ·) := by
  induction front with
  | nil => simp [content]
  | cons line front ih =>
      rw [List.cons_append, content, content, ih]
      split_ifs with hcomment
      · rfl
      · cases readLine line <;> cases content front <;>
          cases content rest <;> simp

/-! ## Line breaks -/

section Breaks

theorem isUnbroken_append (text text' : Str) :
    isUnbroken (text ++ text') = (isUnbroken text && isUnbroken text') :=
  List.all_append

theorem isUnbroken_cons (c : Char) (text : Str) :
    isUnbroken (c :: text) = ((c != '\n' && c != '\r') && isUnbroken text) :=
  rfl

theorem notMem_of_isUnbroken {text : Str} (h : isUnbroken text = true) :
    '\n' ∉ text ∧ '\r' ∉ text := by
  rw [isUnbroken, List.all_eq_true] at h
  constructor
  all_goals
    intro hmem
    cases h _ hmem

theorem isUnbroken_of_isNbChar {text : Str} (h : text.all isNbChar = true) :
    isUnbroken text = true := by
  refine List.all_eq_true.mpr fun c hc => ?_
  have hnb := List.all_eq_true.mp h c hc
  rw [Bool.and_eq_true, bne_iff_ne, bne_iff_ne]
  constructor
  all_goals
    rintro rfl
    cases hnb

theorem isUnbroken_of_isComment {line : Str} (h : isComment line = true) :
    isUnbroken line = true := by
  have hwhite : ∀ c, isWhite c = true → isNbChar c = true := by
    intro c hc
    rw [isWhite, Bool.or_eq_true, beq_iff_eq, beq_iff_eq] at hc
    rcases hc with rfl | rfl <;> rfl
  refine isUnbroken_of_isNbChar ?_
  rw [← List.takeWhile_append_dropWhile (p := isWhite) (l := line),
    List.all_append, Bool.and_eq_true]
  constructor
  · refine List.all_eq_true.mpr fun c hc => ?_
    exact hwhite c (List.mem_takeWhile_imp hc)
  · rw [isComment] at h
    split at h
    next hnil => rw [hnil]; rfl
    next c text hcons =>
      rw [Bool.and_eq_true, beq_iff_eq] at h
      rw [hcons, h.1, List.all_cons, h.2]
      rfl

theorem join_append_newline {parts : List Str} (hne : parts ≠ []) :
    join '\n' parts ++ ['\n'] = join '\n' (parts ++ [[]]) := by
  induction parts with
  | nil => exact (hne rfl).elim
  | cons part parts ih =>
      cases parts with
      | nil => rw [join_singleton, List.singleton_append, join_cons_cons,
          join_singleton]
      | cons next parts =>
          rw [join_cons_cons, List.append_assoc, List.cons_append,
            ih (List.cons_ne_nil _ _)]
          simp only [List.cons_append, join_cons_cons]

/-- Lines that are written are read back, with an empty one at the end. -/
theorem lines_join {front rest : List Str} (hne : rest ≠ [])
    (hfront : ∀ line ∈ front, '\n' ∉ line)
    (hrest : ∀ line ∈ rest, isUnbroken line = true) :
    lines (join '\n' (front ++ rest) ++ ['\n']) =
      (front.flatMap fun line => line.splitOn '\r') ++ (rest ++ [[]]) := by
  have hunbroken : ∀ line ∈ rest ++ [[]], isUnbroken line = true := by
    intro line hline
    rcases List.mem_append.mp hline with hmem | hnil
    · exact hrest line hmem
    · obtain rfl := List.mem_singleton.mp hnil
      rfl
  have hfeed : ∀ line ∈ front ++ (rest ++ [[]]), '\n' ∉ line := by
    intro line hline
    rcases List.mem_append.mp hline with hmem | hmem
    · exact hfront line hmem
    · exact (notMem_of_isUnbroken (hunbroken line hmem)).1
  have hreturn : ∀ {texts : List Str},
      (∀ line ∈ texts, isUnbroken line = true) →
        (texts.flatMap fun line => line.splitOn '\r') = texts := by
    intro texts htexts
    rw [List.flatMap_congr fun line hline => List.splitOn_eq_singleton
      (notMem_of_isUnbroken (htexts line hline)).2]
    exact List.flatMap_singleton' texts
  rw [lines, join_append_newline (by simp [hne]), List.append_assoc,
    join, List.splitOn_intercalate '\n' hfeed (by simp), List.flatMap_append,
    hreturn hunbroken]

end Breaks

/-! ## What is written in one line -/

section Comments

variable {text : Str}

theorem dropWhile_replicate_append (n : ℕ) (text : Str) :
    (List.replicate n ' ' ++ text).dropWhile isWhite =
      text.dropWhile isWhite := by
  induction n with
  | zero => rfl
  | succ n ih => exact ih

theorem isComment_replicate (n : ℕ) (text : Str) :
    isComment (List.replicate n ' ' ++ '#' :: text) = text.all isNbChar := by
  rw [isComment, dropWhile_replicate_append]
  rfl

theorem plainCut_append (text : Str) :
    (plainCut text).1 ++ (plainCut text).2 = text := by
  induction text with
  | nil => rfl
  | cons c rest ih =>
      rw [plainCut]
      split_ifs with hcut
      · rfl
      · exact congrArg (c :: ·) ih

theorem prefix_of_readPlain {scalar rest : Str}
    (h : readPlain text = some (scalar, rest)) :
    isPlainFirst scalar = true ∧ scalar <+: text := by
  rw [readPlain] at h
  dsimp only at h
  split_ifs at h with hplain
  cases h
  rw [Bool.and_eq_true] at hplain
  refine ⟨hplain.1, (List.rdropWhile_prefix isWhite _).trans ?_⟩
  exact ⟨(plainCut text).2, plainCut_append text⟩

theorem isPlainFirst_cons {c : Char} {rest : Str}
    (h : isPlainFirst (c :: rest) = true) : isWhite c = false ∧ c ≠ '#' := by
  rw [isPlainFirst, Bool.and_eq_true, isNsChar, Bool.and_eq_true] at h
  refine ⟨by simpa using h.1.2, ?_⟩
  rintro rfl
  cases h.2

/-- A leaf begins with what no comment begins with. -/
theorem exists_eq_cons_of_readLeaf {leaf : Leaf} {rest : Str}
    (h : readLeaf text = some (leaf, rest)) :
    ∃ c others, text = c :: others ∧ isWhite c = false ∧ c ≠ '#' := by
  cases text with
  | nil => cases h
  | cons c others =>
      refine ⟨c, others, rfl, ?_⟩
      rw [readLeaf] at h
      split_ifs at h with hquote hbracket
      · subst hquote
        decide
      · subst hbracket
        decide
      · obtain ⟨⟨scalar, rest'⟩, hplain, -⟩ := Option.map_eq_some_iff.mp h
        obtain ⟨hfirst, hprefix⟩ := prefix_of_readPlain hplain
        cases scalar with
        | nil => cases hfirst
        | cons d scalar =>
            obtain ⟨rfl, -⟩ := List.cons_prefix_cons.mp hprefix
            exact isPlainFirst_cons hfirst

/-- A value on the line of its key. -/
theorem readValue_cons {leaf : Leaf} (h : readLeaf text = some (leaf, [])) :
    readValue (' ' :: text) = some (some leaf) := by
  obtain ⟨c, others, rfl, hwhite, hne⟩ := exists_eq_cons_of_readLeaf h
  have hdrop : (' ' :: c :: others).dropWhile isWhite = c :: others := by
    rw [List.dropWhile_cons_of_pos rfl,
      List.dropWhile_cons_of_neg (ne_true_of_eq_false hwhite)]
  have hcomment : isComment (' ' :: c :: others) = false := by
    rw [isComment, hdrop]
    simp [hne]
  rw [readValue, hcomment, hdrop, h]
  rfl

end Comments

section Atoms

/-- What words and numbers are made of. -/
def isAtomChar (c : Char) : Bool :=
  c.isAlphanum || "._+-".toList.contains c

/-- A word or a number. -/
def isAtom (text : Str) : Bool :=
  text.head?.any Char.isAlphanum && text.all isAtomChar

theorem toNat_lt_of_isAlphanum {c : Char} (h : c.isAlphanum = true) :
    c.toNat < 0x80 := by
  have hcases : c.isAlpha = true ∨ c.isDigit = true := Bool.or_eq_true _ _ ▸ h
  rcases hcases with hletter | hdigit
  · have hrange := isAlpha_iff_toNat.mp hletter
    omega
  · have hnine : '9'.toNat = 57 := rfl
    have hrange := Char.isDigit_iff_toNat.mp hdigit
    omega

theorem toNat_lt_of_isAtomChar {c : Char} (h : isAtomChar c = true) :
    c.toNat < 0x80 := by
  rw [isAtomChar, Bool.or_eq_true] at h
  rcases h with halnum | hsign
  · exact toNat_lt_of_isAlphanum halnum
  · have hall : ("._+-".toList.all fun c => decide (c.toNat < 0x80)) = true :=
      by decide
    exact of_decide_eq_true (List.all_eq_true.mp hall c (by simpa using hsign))

theorem isAtomChar_spec {c : Char} (h : isAtomChar c = true) :
    isNsChar c = true ∧ c ≠ ':' ∧ c ≠ '\n' ∧ c ≠ '\r' := by
  have hascii : ∀ n < 0x80, isAtomChar (Char.ofNat n) = true →
      isNsChar (Char.ofNat n) = true ∧ Char.ofNat n ≠ ':' ∧
        Char.ofNat n ≠ '\n' ∧ Char.ofNat n ≠ '\r' := by decide +kernel
  have hc := hascii c.toNat (toNat_lt_of_isAtomChar h)
  rw [Char.ofNat_toNat] at hc
  exact hc h

theorem isPlainFirst_of_isAlphanum {c : Char} (h : c.isAlphanum = true)
    (rest : Str) : isPlainFirst (c :: rest) = true := by
  have hascii : ∀ n < 0x80, (Char.ofNat n).isAlphanum = true →
      isNsChar (Char.ofNat n) = true ∧ isIndicator (Char.ofNat n) = false := by
    decide +kernel
  have hc := hascii c.toNat (toNat_lt_of_isAlphanum h)
  rw [Char.ofNat_toNat] at hc
  rw [isPlainFirst, (hc h).1, (hc h).2]
  rfl

/-- Nothing in front of the rest ends a plain scalar. -/
theorem plainCut_of_isAtomChar {text rest : Str}
    (htext : ∀ c ∈ text, isAtomChar c = true)
    (hrest : plainCut rest = ([], rest)) :
    plainCut (text ++ rest) = (text, rest) := by
  induction text with
  | nil => exact hrest
  | cons c text ih =>
      obtain ⟨hns, hcolon, -⟩ := isAtomChar_spec (htext c List.mem_cons_self)
      have hwhite : isWhite c = false := by
        rw [isNsChar, Bool.and_eq_true] at hns
        simpa using hns.2
      rw [List.cons_append, plainCut, if_neg (by simp [hcolon, hwhite]),
        ih fun d hd => htext d (List.mem_cons_of_mem c hd)]

theorem readPlain_of_isAtom {text rest : Str} (h : isAtom text = true)
    (hrest : plainCut rest = ([], rest)) :
    readPlain (text ++ rest) = some (text, rest) := by
  rw [isAtom, Bool.and_eq_true, List.all_eq_true] at h
  obtain ⟨hfirst, hall⟩ := h
  have hns : ∀ c ∈ text, isNsChar c = true := fun c hc =>
    (isAtomChar_spec (hall c hc)).1
  have htrim : text.rdropWhile isWhite = text := by
    rw [List.rdropWhile_eq_self_iff]
    intro hne
    have hlast := hns _ (List.getLast_mem hne)
    rw [isNsChar, Bool.and_eq_true] at hlast
    simpa using hlast.2
  have hnb : text.all isNbChar = true := by
    refine List.all_eq_true.mpr fun c hc => ?_
    have hc := hns c hc
    rw [isNsChar, Bool.and_eq_true] at hc
    exact hc.1
  have hplain : isPlainFirst text = true := by
    cases text with
    | nil => cases hfirst
    | cons c text => exact isPlainFirst_of_isAlphanum hfirst text
  rw [readPlain, plainCut_of_isAtomChar hall hrest]
  dsimp only
  rw [htrim, hplain, hnb]
  rfl

end Atoms

/-! ## Leaves -/

section Leaves

theorem ne_of_isAtom {c d : Char} {text : Str} (h : isAtom (c :: text) = true)
    (hd : d.isAlphanum = false) : c ≠ d := by
  rintro rfl
  rw [isAtom, Bool.and_eq_true] at h
  exact absurd (h.1.symm.trans hd) (by decide)

theorem readLeaf_of_isAtom {text : Str} (h : isAtom text = true) :
    readLeaf text = some (.plain text, []) := by
  have hend : plainCut [] = ([], []) := rfl
  have hread := readPlain_of_isAtom h hend
  cases text with
  | nil => cases h
  | cons c text =>
      rw [List.append_nil] at hread
      rw [readLeaf, if_neg (ne_of_isAtom h rfl), if_neg (ne_of_isAtom h rfl),
        hread]
      rfl

variable {encode : Char → Str} (hquotes : Quotes encode readChar)
include hquotes

theorem readLeaf_quoted (text rest : Str) :
    readLeaf ('"' :: (text.flatMap encode ++ '"' :: rest)) =
      some (.quoted text, rest) := by
  rw [readLeaf, if_pos rfl, hquotes.readQuoted]
  rfl

theorem readLeaf_flow (items : List Str) (rest : Str) :
    readLeaf ('[' :: (commaSeparated " ".toList (items.map fun text =>
        '"' :: (text.flatMap encode ++ ['"'])) ++ ']' :: rest)) =
      some (.flow items, rest) := by
  have hlists : Lists (List.dropWhile isWhite)
      (fun text => (expect ['"'] text).bind (readQuoted readChar)) ']'
      " ".toList (items.map fun text =>
        (text, '"' :: (text.flatMap encode ++ ['"']))) := by
    refine ⟨by decide, ?_, ?_, ?_, fun _ => rfl, ?_⟩
    · intro entry hentry c rest _
      obtain ⟨text, -, rfl⟩ := List.mem_map.mp hentry
      dsimp only
      rw [List.cons_append, List.append_assoc, expect, if_pos rfl, expect,
        Option.bind_some]
      exact hquotes.readQuoted text (c :: rest)
    · intro entry hentry
      obtain ⟨text, -, rfl⟩ := List.mem_map.mp hentry
      exact ⟨'"', _, rfl, by decide⟩
    · intro entry hentry rest
      obtain ⟨text, -, rfl⟩ := List.mem_map.mp hentry
      rfl
    · rintro c rest (rfl | rfl) <;> rfl
  have hitems : (items.map fun text =>
      (text, '"' :: (text.flatMap encode ++ ['"']))).map Prod.fst = items := by
    rw [List.map_map]
    exact List.map_id items
  have hread := hlists.readList rest
  rw [hitems, List.map_map] at hread
  rw [readLeaf, if_neg (by decide), if_pos rfl]
  exact congrArg (Option.map _) hread

end Leaves

/-! ## Keys and dashes -/

/-- An item begins with what no comment begins with. -/
theorem exists_eq_cons_of_readItems {fuel indent : ℕ} {text : Str}
    {tokens : List Token} (h : readItems fuel indent text = some tokens) :
    (∃ c others, text = c :: others ∧ isWhite c = false ∧ c ≠ '#') ∧
      tokens ≠ [] := by
  cases fuel with
  | zero => cases h
  | succ fuel =>
      cases text with
      | nil => cases h
      | cons c others =>
          rw [readItems] at h
          split_ifs at h with hdash hcomment
          · cases h
            obtain ⟨rfl, -⟩ := hdash
            exact ⟨⟨'-', others, rfl, by decide, by decide⟩, by simp⟩
          · obtain ⟨inner, -, rfl⟩ := Option.map_eq_some_iff.mp h
            obtain ⟨rfl, -⟩ := hdash
            exact ⟨⟨'-', others, rfl, by decide, by decide⟩, by simp⟩
          · obtain ⟨item, hitem, rfl⟩ := Option.map_eq_some_iff.mp h
            obtain ⟨leaf, hleaf, -⟩ := Option.bind_eq_some_iff.mp hitem
            exact ⟨exists_eq_cons_of_readLeaf hleaf, by simp⟩

/-- A line that says something is no comment. -/
theorem isComment_of_readLine {line : Str} {tokens : List Token}
    (h : readLine line = some tokens) :
    isComment line = false ∧ tokens ≠ [] := by
  rw [readLine] at h
  split_ifs at h
  obtain ⟨⟨c, others, hdrop, hwhite, hne⟩, htokens⟩ :=
    exists_eq_cons_of_readItems h
  refine ⟨?_, htokens⟩
  have hsplit := List.take_append_drop
    (line.takeWhile (· == ' ')).length line
  have hspaces : ∀ d ∈ line.take (line.takeWhile (· == ' ')).length,
      isWhite d = true := by
    intro d hd
    have hprefix : line.takeWhile (· == ' ') <+: line := List.takeWhile_prefix _
    rw [← List.prefix_iff_eq_take.mp hprefix] at hd
    have hspace := List.mem_takeWhile_imp hd
    rw [isWhite, hspace, Bool.true_or]
  rw [isComment, ← hsplit, List.dropWhile_append_of_pos hspaces, hdrop,
    List.dropWhile_cons_of_neg (ne_true_of_eq_false hwhite)]
  simp [hne]

section Keys

theorem isMarker_cons {c : Char} {rest : Str} (hdash : c ≠ '-')
    (hpoint : c ≠ '.') : isMarker (c :: rest) = false := by
  simp [isMarker, hdash, hpoint]

/-- A line begins at its indentation. -/
theorem readLine_replicate (n : ℕ) {c : Char} {rest : Str} (hspace : c ≠ ' ')
    (hmarker : isMarker (c :: rest) = false) :
    readLine (List.replicate n ' ' ++ c :: rest) =
      readItems (n + rest.length + 1) n (c :: rest) := by
  have hfree : isMarker (List.replicate n ' ' ++ c :: rest) = false := by
    cases n with
    | zero => exact hmarker
    | succ n => exact isMarker_cons (by decide) (by decide)
  have htake : (List.replicate n ' ' ++ c :: rest).takeWhile (· == ' ') =
      List.replicate n ' ' := by
    rw [List.takeWhile_append_of_pos (by simp),
      List.takeWhile_cons_of_neg (by simpa using hspace), List.append_nil]
  rw [readLine, hfree, htake]
  simp [Nat.add_assoc]

variable {name value : Str} {leaf : Option Leaf} (hname : isAtom name = true)
  (hends : endsToken value = true) (hvalue : readValue value = some leaf)
include hname hends hvalue

theorem readItem_key :
    readItem (name ++ ':' :: value) = some (.key name leaf) := by
  have hcut : plainCut (':' :: value) = ([], ':' :: value) := by
    rw [plainCut, if_pos (.inl ⟨rfl, hends⟩)]
  have hread := readPlain_of_isAtom hname hcut
  cases name with
  | nil => cases hname
  | cons c name =>
      rw [List.cons_append] at hread ⊢
      rw [readItem, readLeaf, if_neg (ne_of_isAtom hname rfl),
        if_neg (ne_of_isAtom hname rfl), hread]
      dsimp only [Option.map_some, Option.bind_some, Leaf.key?]
      rw [List.dropWhile_cons_of_neg (by decide)]
      exact (if_pos hends).trans (congrArg (Option.map _) hvalue)

theorem readItems_key (fuel n : ℕ) :
    readItems (fuel + 1) n (name ++ ':' :: value) =
      some [⟨n, .key name leaf⟩] := by
  have hitem := readItem_key hname hends hvalue
  cases name with
  | nil => cases hname
  | cons c name =>
      rw [List.cons_append] at hitem ⊢
      rw [readItems, if_neg fun h => ne_of_isAtom hname rfl h.1, hitem]
      rfl

/-- A line with a key. -/
theorem readLine_key (n : ℕ) :
    readLine (List.replicate n ' ' ++ (name ++ ':' :: value)) =
      some [⟨n, .key name leaf⟩] := by
  have hitems := readItems_key hname hends hvalue
  cases name with
  | nil => cases hname
  | cons c name =>
      have hmarker : isMarker (c :: (name ++ ':' :: value)) = false :=
        isMarker_cons (ne_of_isAtom hname rfl) (ne_of_isAtom hname rfl)
      rw [List.cons_append,
        readLine_replicate n (ne_of_isAtom hname rfl) hmarker]
      exact hitems _ n

/-- A line with a key behind a dash. -/
theorem readLine_entry (n : ℕ) :
    readLine (List.replicate n ' ' ++ '-' :: ' ' :: (name ++ ':' :: value)) =
      some [⟨n, .entry⟩, ⟨n + 2, .key name leaf⟩] := by
  have hitems := readItems_key hname hends hvalue
  cases name with
  | nil => cases hname
  | cons c name =>
      have hspace : c ≠ ' ' := ne_of_isAtom hname rfl
      have hwhite : isWhite c = false := by
        simp [isWhite, hspace, ne_of_isAtom hname (d := '\t') rfl]
      have hcomment :
          isComment (' ' :: c :: (name ++ ':' :: value)) = false := by
        rw [isComment, List.dropWhile_cons_of_pos rfl,
          List.dropWhile_cons_of_neg (ne_true_of_eq_false hwhite)]
        simp [ne_of_isAtom hname (d := '#') rfl]
      have htake : (' ' :: c :: (name ++ ':' :: value)).takeWhile (· == ' ') =
          [' '] := by
        rw [List.takeWhile_cons_of_pos rfl,
          List.takeWhile_cons_of_neg (by simpa using hspace)]
      rw [List.cons_append, readLine_replicate n (by decide) rfl, readItems,
        if_pos ⟨rfl, rfl⟩, hcomment, htake]
      exact congrArg (Option.map _) (hitems _ (n + 2))

end Keys

end Harmost.Support.Yaml
