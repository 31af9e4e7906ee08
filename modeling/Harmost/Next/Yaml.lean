import Harmost.Support.Yaml.Layout

/-!
# Writing YAML

Just enough YAML to emit a configuration.  Strings are written in double quotes
and escaped, and are read back as they were; comments are cut into lines at line
feeds only.
-/

namespace Harmost.Next

open Harmost.Support

/-! ## Scalars -/

/-- `String.prototype.replace` of every occurrence of a character. -/
def replaceChar (c : Char) (replacement text : Str) : Str :=
  text.flatMap fun d => if d = c then replacement else [d]

/-- What is not printable becomes an escape. -/
def escapeControl (text : Str) : Str :=
  text.flatMap fun c =>
    if c.toNat ≤ 0x1f ∨ c.toNat = 0x7f then
      '\\' :: 'x' :: List.leftpad 2 '0' (Nat.toDigits 16 c.toNat)
    else [c]

/-- Double-quote and escape a scalar. -/
def quote (value : Str) : Str :=
  let escaped := escapeControl
    (replaceChar '\t' ['\\', 't']
      (replaceChar '\r' ['\\', 'r']
        (replaceChar '\n' ['\\', 'n']
          (replaceChar '"' ['\\', '"']
            (replaceChar '\\' ['\\', '\\'] value)))))
  '"' :: (escaped ++ ['"'])

/-- A list of strings on one line. -/
def inlineList (values : List Str) : Str :=
  '[' :: (commaSeparated [' '] (values.map quote) ++ [']'])

example : quote "a\"\n    class: static".toList =
    "\"a\\\"\\n    class: static\"".toList := by decide +kernel

/-! ## Lines -/

/-- `key: value` at some indentation. -/
def field (indent : ℕ) (key value : Str) : Str :=
  List.replicate indent ' ' ++ (key ++ ':' :: ' ' :: value)

/-- `key:` at some indentation. -/
def heading (indent : ℕ) (key : Str) : Str :=
  List.replicate indent ' ' ++ (key ++ [':'])

/-- `Lines.comment`. -/
def comment (text : Str) (indent : ℕ) : List Str :=
  (text.splitOn '\n').map fun line =>
    if line.isEmpty then List.replicate indent ' ' ++ ['#']
    else List.replicate indent ' ' ++ '#' :: ' ' :: line

/-- `Lines.toString`. -/
def linesText (lines : List Str) : Str :=
  join '\n' lines ++ ['\n']

/-! ## Reading back -/

/-- The escape of one character. -/
def quoteChar (c : Char) : Str :=
  if c = '\\' then ['\\', '\\']
  else if c = '"' then ['\\', '"']
  else if c = '\n' then ['\\', 'n']
  else if c = '\r' then ['\\', 'r']
  else if c = '\t' then ['\\', 't']
  else if c.toNat ≤ 0x1f ∨ c.toNat = 0x7f then
    '\\' :: 'x' :: List.leftpad 2 '0' (Nat.toDigits 16 c.toNat)
  else [c]

/-- No replacement touches what an earlier one has written. -/
theorem quote_eq (value : Str) :
    quote value = '"' :: (value.flatMap quoteChar ++ ['"']) := by
  simp only [quote, escapeControl, replaceChar, List.flatMap_assoc]
  refine congrArg (fun text => '"' :: (text ++ ['"'])) ?_
  refine List.flatMap_congr fun c _ => ?_
  unfold quoteChar
  split_ifs with hbackslash hquote hnewline hreturn htab hcontrol
  · subst hbackslash
    rfl
  · subst hquote
    rfl
  · subst hnewline
    rfl
  · subst hreturn
    rfl
  · subst htab
    rfl
  · simp [hquote, hnewline, hreturn, htab, hcontrol]
  · simp [hquote, hnewline, hreturn, htab, hcontrol]

theorem leftpad_toDigits_two : ∀ n < 0x80,
    List.leftpad 2 '0' (Nat.toDigits 16 n) =
      [Nat.digitChar (n / 16), Nat.digitChar (n % 16)] := by
  decide

/-- How one character is escaped. -/
theorem quoteChar_cases (c : Char) :
    (∃ e, quoteChar c = ['\\', e] ∧ e ≠ 'x' ∧ e ≠ 'u' ∧ e ≠ 'U' ∧
        0x20 ≤ e.toNat ∧ Yaml.escapes.lookup e = some c) ∨
      (c.toNat < 0x80 ∧ quoteChar c =
        '\\' :: 'x' :: List.leftpad 2 '0' (Nat.toDigits 16 c.toNat)) ∨
      (quoteChar c = [c] ∧ c ≠ '\\' ∧ c ≠ '"' ∧ 0x20 ≤ c.toNat) := by
  unfold quoteChar
  split_ifs with hbackslash hquote hnewline hreturn htab hcontrol
  · subst hbackslash
    exact .inl ⟨'\\', rfl, by decide⟩
  · subst hquote
    exact .inl ⟨'"', rfl, by decide⟩
  · subst hnewline
    exact .inl ⟨'n', rfl, by decide⟩
  · subst hreturn
    exact .inl ⟨'r', rfl, by decide⟩
  · subst htab
    exact .inl ⟨'t', rfl, by decide⟩
  · exact .inr (.inl ⟨by omega, rfl⟩)
  · exact .inr (.inr ⟨rfl, hbackslash, hquote, by omega⟩)

theorem readCode_control {c : Char} (h : c.toNat < 0x80) (rest : Str) :
    Yaml.readCode 2
        (List.leftpad 2 '0' (Nat.toDigits 16 c.toNat) ++ rest) =
      some (c, rest) := by
  have hvalue : (0 * 16 + c.toNat / 16) * 16 + c.toNat % 16 = c.toNat := by
    omega
  have hvalid : c.toNat.isValidChar := .inl (by omega)
  rw [leftpad_toDigits_two c.toNat h]
  simp only [Yaml.readCode, Yaml.readHex, List.cons_append, List.nil_append,
    hexDigit_digitChar (c.toNat / 16) (by omega),
    hexDigit_digitChar (c.toNat % 16) (by omega), Option.bind_some,
    hvalue]
  rw [if_pos hvalid, Char.ofNat_toNat]

theorem readChar_quoteChar (c : Char) (rest : Str) :
    Yaml.readChar (quoteChar c ++ rest) = some (c, rest) := by
  rcases quoteChar_cases c with ⟨e, he, hx, hu, hU, -, hlookup⟩ |
    ⟨hcontrol, he⟩ | ⟨he, hbackslash, hquote, hprintable⟩
  · rw [he, List.cons_append, List.singleton_append, Yaml.readChar,
      if_pos rfl, Yaml.readEscape, if_neg hx, if_neg hu, if_neg hU, hlookup,
      Option.map_some]
  · rw [he, List.cons_append, List.cons_append, Yaml.readChar, if_pos rfl,
      Yaml.readEscape, if_pos rfl, readCode_control hcontrol]
  · have hjson : Yaml.isNbJson c = true := by
      simp [Yaml.isNbJson, hprintable]
    rw [he, List.singleton_append, Yaml.readChar, if_neg hbackslash,
      if_pos ⟨hjson, hquote⟩]

theorem quotes_quoteChar : Quotes quoteChar Yaml.readChar where
  read := readChar_quoteChar
  head := by
    intro c
    rcases quoteChar_cases c with ⟨e, he, -⟩ | ⟨-, he⟩ | ⟨he, -, hquote, -⟩
    · exact ⟨'\\', [e], he, by decide⟩
    · exact ⟨'\\', _, he, by decide⟩
    · exact ⟨c, [], he, hquote⟩

/-! ## No line breaks -/

theorem isUnbroken_of_le {text : Str} (h : ∀ c ∈ text, 0x20 ≤ c.toNat) :
    Yaml.isUnbroken text = true := by
  refine List.all_eq_true.mpr fun c hc => ?_
  have hle := h c hc
  rw [Bool.and_eq_true, bne_iff_ne, bne_iff_ne]
  constructor
  all_goals
    rintro rfl
    exact absurd hle (by decide)

theorem isUnbroken_quoteChar (c : Char) :
    Yaml.isUnbroken (quoteChar c) = true := by
  have hdigit : ∀ n < 16, 0x20 ≤ (Nat.digitChar n).toNat := by decide
  rcases quoteChar_cases c with ⟨e, he, -, -, -, hprintable, -⟩ |
    ⟨hcontrol, he⟩ | ⟨he, -, -, hprintable⟩
  · rw [he]
    exact isUnbroken_of_le (by simp [hprintable])
  · rw [he, leftpad_toDigits_two _ hcontrol]
    exact isUnbroken_of_le (by
      simp [hdigit (c.toNat / 16) (by omega), hdigit (c.toNat % 16) (by omega)])
  · rw [he]
    exact isUnbroken_of_le (by simp [hprintable])

/-- Nothing in quotes breaks a line. -/
theorem isUnbroken_quote (value : Str) :
    Yaml.isUnbroken (quote value) = true := by
  have hinside : Yaml.isUnbroken (value.flatMap quoteChar) = true := by
    refine List.all_eq_true.mpr fun c hc => ?_
    obtain ⟨d, -, hmem⟩ := List.mem_flatMap.mp hc
    exact List.all_eq_true.mp (isUnbroken_quoteChar d) c hmem
  rw [quote_eq, Yaml.isUnbroken_cons, Yaml.isUnbroken_append, hinside]
  rfl

theorem writes_quote (value : Str) :
    Yaml.Writes (quote value) (.quoted value) where
  unbroken := isUnbroken_quote value
  read := by
    rw [quote_eq]
    exact Yaml.readLeaf_quoted quotes_quoteChar value []

theorem isUnbroken_commaSeparated {items : List Str}
    (h : ∀ item ∈ items, Yaml.isUnbroken item = true) :
    Yaml.isUnbroken (commaSeparated [' '] items) = true := by
  induction items with
  | nil => rfl
  | cons item items ih =>
      have hitem := h item List.mem_cons_self
      have hrest := ih fun other hother =>
        h other (List.mem_cons_of_mem _ hother)
      cases items with
      | nil => exact hitem
      | cons next items =>
          rw [commaSeparated, Yaml.isUnbroken_append, hitem,
            Yaml.isUnbroken_cons, Yaml.isUnbroken_append, hrest]
          rfl

theorem writes_inlineList (values : List Str) :
    Yaml.Writes (inlineList values) (.flow values) where
  unbroken := by
    have hitems : ∀ item ∈ values.map quote, Yaml.isUnbroken item = true := by
      intro item hitem
      obtain ⟨value, -, rfl⟩ := List.mem_map.mp hitem
      exact isUnbroken_quote value
    rw [inlineList, Yaml.isUnbroken_cons, Yaml.isUnbroken_append,
      isUnbroken_commaSeparated hitems]
    rfl
  read := by
    have hquote : values.map quote = values.map fun value =>
        '"' :: (value.flatMap quoteChar ++ ['"']) :=
      List.map_congr_left fun value _ => quote_eq value
    rw [inlineList, hquote]
    exact Yaml.readLeaf_flow quotes_quoteChar values []

/-! ## Comments -/

/-- A comment of characters that may stand in one has no other lines. -/
theorem isComment_of_mem_comment {text line : Str} {indent : ℕ}
    (h : (text.all fun c => Yaml.isNbChar c || c == '\n') = true)
    (hline : line ∈ comment text indent) : Yaml.isComment line = true := by
  obtain ⟨piece, hpiece, rfl⟩ := List.mem_map.mp hline
  have hnb : piece.all Yaml.isNbChar = true := by
    refine List.all_eq_true.mpr fun c hc => ?_
    have hmem := List.all_eq_true.mp h c (mem_of_mem_splitOn hpiece hc)
    have hne : c ≠ '\n' := by
      rintro rfl
      exact notMem_of_mem_splitOn hpiece hc
    simpa [hne] using hmem
  split_ifs
  · exact Yaml.isComment_replicate indent []
  · rw [Yaml.isComment_replicate, List.all_cons, hnb]
    rfl

end Harmost.Next
