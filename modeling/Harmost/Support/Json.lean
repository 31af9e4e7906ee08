import Harmost.Support.Reader

/-!
# JSON texts

The values of RFC 8259 and a parser of its grammar.  An escape of half a
surrogate pair stands for no character and is refused; the members of an object
are kept in order, repeated names included.

`Renders` says that a text is read as a value wherever a value may stand.  Its
rules put the texts of objects together from those of their members.
-/

namespace Harmost.Support

/-- A number, as its coefficient times a power of ten. -/
structure JsonNumber where
  negative : Bool
  coefficient : ℕ
  exponent : ℤ
  deriving DecidableEq

def JsonNumber.ofNat (n : ℕ) : JsonNumber :=
  ⟨false, n, 0⟩

inductive Json where
  | null
  | bool (b : Bool)
  | number (n : JsonNumber)
  | string (s : Str)
  | array (items : List Json)
  | object (members : List (Str × Json))

namespace Json

def isWs (c : Char) : Bool :=
  c == ' ' || c == '\t' || c == '\n' || c == '\r'

def skipWs (text : Str) : Str :=
  text.dropWhile isWs

/-! ## Strings -/

/-- A code unit in four hexadecimal digits. -/
def readUnit : Reader ℕ
  | a :: b :: c :: d :: rest =>
      (hexDigit a).bind fun a => (hexDigit b).bind fun b =>
        (hexDigit c).bind fun c => (hexDigit d).map fun d =>
          (((a * 16 + b) * 16 + c) * 16 + d, rest)
  | _ => none

/-- A character in one code unit, or in two that are a surrogate pair. -/
def readUnicode (text : Str) : Option (Char × Str) :=
  (readUnit text).bind fun (unit, rest) =>
    if 0xd800 ≤ unit ∧ unit < 0xdc00 then
      (expect ['\\', 'u'] rest).bind fun rest =>
        (readUnit rest).bind fun (low, rest) =>
          if 0xdc00 ≤ low ∧ low < 0xe000 then
            some (Char.ofNat (0x10000 + (unit - 0xd800) * 0x400 +
              (low - 0xdc00)), rest)
          else none
    else if 0xdc00 ≤ unit ∧ unit < 0xe000 then none
    else some (Char.ofNat unit, rest)

/-- The escapes of two characters. -/
def simpleEscape (c : Char) : Option Char :=
  if c = '"' then some '"'
  else if c = '\\' then some '\\'
  else if c = '/' then some '/'
  else if c = 'b' then some '\x08'
  else if c = 'f' then some '\x0c'
  else if c = 'n' then some '\n'
  else if c = 'r' then some '\r'
  else if c = 't' then some '\t'
  else none

/-- After a backslash. -/
def readEscape : Reader Char
  | [] => none
  | c :: rest =>
      if c = 'u' then readUnicode rest
      else (simpleEscape c).map fun c => (c, rest)

/-- One character of a string, escaped or not. -/
def readChar : Reader Char
  | [] => none
  | c :: rest =>
      if c = '\\' then readEscape rest
      else if c.toNat < 0x20 ∨ c = '"' then none
      else some (c, rest)

def readString (text : Str) : Option (Str × Str) :=
  (expect ['"'] text).bind (readQuoted readChar)

/-! ## Numbers -/

/-- The digits after a point, if there is one. -/
def readFraction : Reader Str
  | [] => some ([], [])
  | c :: rest =>
      if c = '.' then
        let (digits, rest) := readDigits rest
        if digits.isEmpty then none else some (digits, rest)
      else some ([], c :: rest)

/-- The sign of an exponent, if it has one. -/
def readSign : Str → Bool × Str
  | [] => (false, [])
  | c :: rest =>
      if c = '-' then (true, rest)
      else if c = '+' then (false, rest)
      else (false, c :: rest)

def readExponent : Reader ℤ
  | [] => some (0, [])
  | c :: rest =>
      if c = 'e' ∨ c = 'E' then
        let (negative, rest) := readSign rest
        let (digits, rest) := readDigits rest
        if digits.isEmpty then none
        else
          some (if negative then -(digitsValue digits : ℤ)
            else digitsValue digits, rest)
      else some (0, c :: rest)

/-- The digits before the point: no other digit follows a leading zero. -/
def readInt (text : Str) : Option (Str × Str) :=
  match readDigits text with
  | ([], _) => none
  | (first :: others, rest) =>
      if first = '0' ∧ others ≠ [] then none
      else some (first :: others, rest)

def readUnsigned (negative : Bool) (text : Str) : Option (JsonNumber × Str) :=
  (readInt text).bind fun (digits, rest) =>
    (readFraction rest).bind fun (fraction, rest) =>
      (readExponent rest).map fun (exponent, rest) =>
        (⟨negative, digitsValue (digits ++ fraction),
          exponent - fraction.length⟩, rest)

def readNumber : Reader JsonNumber
  | [] => none
  | c :: rest =>
      if c = '-' then readUnsigned true rest
      else readUnsigned false (c :: rest)

/-! ## Values -/

def readMember (value : Reader Json) (text : Str) :
    Option ((Str × Json) × Str) :=
  (readString text).bind fun (name, rest) =>
    (expect [':'] (skipWs rest)).bind fun rest =>
      (value (skipWs rest)).map fun (v, rest) => ((name, v), rest)

/-- A value that is nested less deep than this. -/
def value : ℕ → Reader Json
  | 0, _ => none
  | _ + 1, [] => none
  | depth + 1, c :: rest =>
      if c = '{' then
        (readList skipWs (readMember (value depth)) '}' rest).map
          fun (members, rest) => (.object members, rest)
      else if c = '[' then
        (readList skipWs (value depth) ']' rest).map
          fun (items, rest) => (.array items, rest)
      else if c = '"' then
        (readQuoted readChar rest).map fun (s, rest) => (.string s, rest)
      else if c = 't' then
        (expect ['r', 'u', 'e'] rest).map fun rest => (.bool true, rest)
      else if c = 'f' then
        (expect ['a', 'l', 's', 'e'] rest).map fun rest => (.bool false, rest)
      else if c = 'n' then
        (expect ['u', 'l', 'l'] rest).map fun rest => (.null, rest)
      else (readNumber (c :: rest)).map fun (n, rest) => (.number n, rest)

/-- `JSON-text = ws value ws`.  A text is nested less deep than it is long. -/
def parse (text : Str) : Option Json :=
  (value (text.length + 1) (skipWs text)).bind fun (v, rest) =>
    if (skipWs rest).isEmpty then some v else none

/-! ## Texts that are read back -/

/-- What may follow a value in a text without white space. -/
def Ends (rest : Str) : Prop :=
  ∀ c ∈ rest.head?, c = ',' ∨ c = '}' ∨ c = ']'

theorem ends_nil : Ends [] := by
  simp [Ends]

theorem ends_cons {c : Char} (h : c = ',' ∨ c = '}' ∨ c = ']') (rest : Str) :
    Ends (c :: rest) := by
  rintro d ⟨⟩
  exact h

/-- The text is read as the value. -/
structure Renders (text : Str) (v : Json) (depth : ℕ) : Prop where
  head : ∃ first others, text = first :: others ∧ isWs first = false ∧
    first ≠ '}' ∧ first ≠ ']'
  read : ∀ d, depth ≤ d → ∀ rest, Ends rest →
    value d (text ++ rest) = some (v, rest)

theorem skipWs_cons {c : Char} (h : isWs c = false) (rest : Str) :
    skipWs (c :: rest) = c :: rest :=
  List.dropWhile_cons_of_neg (ne_true_of_eq_false h)

variable {text : Str} {v : Json} {depth : ℕ}

theorem Renders.skipWs_append (h : Renders text v depth) (rest : Str) :
    skipWs (text ++ rest) = text ++ rest := by
  obtain ⟨first, others, rfl, hws, -⟩ := h.head
  exact skipWs_cons hws _

theorem Renders.parse (h : Renders text v depth)
    (hdepth : depth ≤ text.length + 1) : parse text = some v := by
  have hskip := h.skipWs_append []
  have hread := h.read _ hdepth [] ends_nil
  rw [List.append_nil] at hskip hread
  rw [Json.parse, hskip, hread]
  rfl

/-- The ways to write a character inside a string. -/
inductive Escapes (c : Char) : Str → Prop
  | short {e : Char} (hu : e ≠ 'u') (hprintable : 0x20 ≤ e.toNat)
      (hsimple : simpleEscape e = some c) : Escapes c ['\\', e]
  | unit (hcontrol : c.toNat < 0x20) :
      Escapes c ['\\', 'u', '0', '0', Nat.digitChar (c.toNat / 16),
        Nat.digitChar (c.toNat % 16)]
  | plain (hbackslash : c ≠ '\\') (hquote : c ≠ '"')
      (hprintable : 0x20 ≤ c.toNat) : Escapes c [c]

theorem readUnicode_control {c : Char} (h : c.toNat < 0x20) (rest : Str) :
    readUnicode ('0' :: '0' :: Nat.digitChar (c.toNat / 16) ::
      Nat.digitChar (c.toNat % 16) :: rest) = some (c, rest) := by
  have hvalue : ((0 * 16 + 0) * 16 + c.toNat / 16) * 16 + c.toNat % 16 =
      c.toNat := by omega
  have hzero : hexDigit '0' = some 0 := by decide
  simp only [readUnicode, readUnit, hzero,
    hexDigit_digitChar (c.toNat / 16) (by omega),
    hexDigit_digitChar (c.toNat % 16) (by omega), Option.bind_some,
    Option.map_some, hvalue]
  rw [if_neg (by omega), if_neg (by omega), Char.ofNat_toNat]

theorem quotes_of_escapes {encode : Char → Str}
    (h : ∀ c, Escapes c (encode c)) : Quotes encode readChar where
  read := by
    intro c rest
    generalize htext : encode c = text
    cases htext ▸ h c with
    | short hu hprintable hsimple =>
        rw [List.cons_append, List.singleton_append, readChar, if_pos rfl,
          readEscape, if_neg hu, hsimple, Option.map_some]
    | unit hcontrol =>
        simp only [List.cons_append, List.nil_append]
        rw [readChar, if_pos rfl, readEscape, if_pos rfl,
          readUnicode_control hcontrol]
    | plain hbackslash hquote hprintable =>
        rw [List.singleton_append, readChar, if_neg hbackslash, if_neg]
        rintro (hlow | heq)
        · omega
        · exact hquote heq
  head := by
    intro c
    generalize htext : encode c = text
    cases htext ▸ h c with
    | short hu hprintable hsimple => exact ⟨'\\', _, rfl, by decide⟩
    | unit hcontrol => exact ⟨'\\', _, rfl, by decide⟩
    | plain hbackslash hquote hprintable => exact ⟨c, [], rfl, hquote⟩

theorem Escapes.printable {c : Char} {text : Str} (h : Escapes c text) :
    Printable text := by
  have hdigit : ∀ n < 16, 0x20 ≤ (Nat.digitChar n).toNat := by decide
  cases h with
  | short hu hprintable hsimple =>
      rw [printable_cons, printable_cons]
      exact ⟨by decide, hprintable, rfl⟩
  | unit hcontrol =>
      simp only [printable_cons]
      exact ⟨by decide, by decide, by decide, by decide, hdigit _ (by omega),
        hdigit _ (by omega), rfl⟩
  | plain hbackslash hquote hprintable =>
      rw [printable_cons]
      exact ⟨hprintable, rfl⟩

/-- No control character is left in a text that is escaped. -/
theorem printable_flatMap {encode : Char → Str}
    (h : ∀ c, Escapes c (encode c)) (text : Str) :
    Printable (text.flatMap encode) := by
  refine printable_iff.mpr fun c hc => ?_
  obtain ⟨original, -, hmem⟩ := List.mem_flatMap.mp hc
  exact printable_iff.mp (h original).printable c hmem

theorem renders_string {encode : Char → Str} (h : Quotes encode readChar)
    (s : Str) : Renders ('"' :: (s.flatMap encode ++ ['"'])) (.string s) 1 where
  head := ⟨'"', _, rfl, by decide, by decide, by decide⟩
  read := by
    intro d hd rest _
    obtain ⟨d, rfl⟩ := Nat.exists_eq_succ_of_ne_zero (Nat.ne_of_gt hd)
    have hread := h.readQuoted s rest
    rw [List.cons_append, List.append_assoc, List.singleton_append, value,
      if_neg (by decide), if_neg (by decide), if_pos rfl, hread]
    rfl

theorem renders_bool (b : Bool) :
    Renders (if b then "true".toList else "false".toList) (.bool b) 1 := by
  cases b with
  | true =>
      refine ⟨⟨'t', _, rfl, by decide, by decide, by decide⟩, ?_⟩
      intro d hd rest _
      obtain ⟨d, rfl⟩ := Nat.exists_eq_succ_of_ne_zero (Nat.ne_of_gt hd)
      rfl
  | false =>
      refine ⟨⟨'f', _, rfl, by decide, by decide, by decide⟩, ?_⟩
      intro d hd rest _
      obtain ⟨d, rfl⟩ := Nat.exists_eq_succ_of_ne_zero (Nat.ne_of_gt hd)
      rfl

/-! ### Numbers -/

theorem ne_of_isDigit {c d : Char} (hc : c.isDigit = true)
    (hd : d.isDigit = false) : c ≠ d := by
  rintro rfl
  exact absurd (hc.symm.trans hd) (by decide)

theorem Ends.noDigit {rest : Str} (h : Ends rest) : NoDigit rest := by
  intro c hc
  rcases h c hc with rfl | rfl | rfl <;> rfl

theorem readInt_decimal (n : ℕ) {rest : Str} (hrest : NoDigit rest) :
    readInt (decimal n ++ rest) = some (decimal n, rest) := by
  obtain ⟨first, others, hdecimal, -, hzero⟩ := decimal_eq_cons n
  rw [readInt, readDigits_append (fun c => isDigit_of_mem_decimal) hrest,
    hdecimal]
  exact if_neg fun h => h.2 (hzero h.1)

theorem readFraction_of_ends {rest : Str} (h : Ends rest) :
    readFraction rest = some ([], rest) := by
  cases rest with
  | nil => rfl
  | cons c rest =>
      have hc : c ≠ '.' := by
        rcases h c rfl with rfl | rfl | rfl <;> decide
      rw [readFraction, if_neg hc]

theorem readExponent_of_ends {rest : Str} (h : Ends rest) :
    readExponent rest = some (0, rest) := by
  cases rest with
  | nil => rfl
  | cons c rest =>
      have hc : ¬(c = 'e' ∨ c = 'E') := by
        rcases h c rfl with rfl | rfl | rfl <;> decide
      rw [readExponent, if_neg hc]

theorem readUnsigned_decimal (n : ℕ) {rest : Str} (hrest : Ends rest) :
    readUnsigned false (decimal n ++ rest) = some (.ofNat n, rest) := by
  simp only [readUnsigned, readInt_decimal n hrest.noDigit,
    readFraction_of_ends hrest, readExponent_of_ends hrest, Option.bind_some,
    Option.map_some, List.append_nil, digitsValue_decimal]
  rfl

theorem renders_nat (n : ℕ) : Renders (decimal n) (.number (.ofNat n)) 1 := by
  obtain ⟨first, others, hdecimal, hdigit, -⟩ := decimal_eq_cons n
  have hne : ∀ d : Char, d.isDigit = false → first ≠ d :=
    fun d hd => ne_of_isDigit hdigit hd
  refine ⟨⟨first, others, hdecimal, ?_, hne _ rfl, hne _ rfl⟩, ?_⟩
  · simp [isWs, hne]
  · intro d hd rest hrest
    obtain ⟨d, rfl⟩ := Nat.exists_eq_succ_of_ne_zero (Nat.ne_of_gt hd)
    have hread := readUnsigned_decimal n hrest
    rw [hdecimal, List.cons_append] at hread ⊢
    rw [value, if_neg (hne _ rfl), if_neg (hne _ rfl), if_neg (hne _ rfl),
      if_neg (hne _ rfl), if_neg (hne _ rfl), if_neg (hne _ rfl), readNumber,
      if_neg (hne _ rfl), hread]
    rfl

/-! ### Objects -/

/-- A member with its name in quotes. -/
def memberText (encode : Char → Str) (name text : Str) : Str :=
  '"' :: (name.flatMap encode ++ '"' :: ':' :: text)

theorem readMember_memberText {encode : Char → Str}
    (hquotes : Quotes encode readChar) (name : Str)
    (h : Renders text v depth) {c : Char} (hc : c = ',' ∨ c = '}')
    (rest : Str) :
    readMember (value depth) (memberText encode name text ++ c :: rest) =
      some ((name, v), c :: rest) := by
  have hends : Ends (c :: rest) := ends_cons (hc.imp_right Or.inl) rest
  have hname := hquotes.readQuoted name (':' :: (text ++ c :: rest))
  have hstring : readString (memberText encode name text ++ c :: rest) =
      some (name, ':' :: (text ++ c :: rest)) := by
    rw [readString, memberText, List.cons_append, List.append_assoc,
      List.cons_append, List.cons_append, expect, if_pos rfl, expect,
      Option.bind_some, hname]
  rw [readMember, hstring]
  dsimp only [Option.bind_some]
  rw [skipWs_cons (by decide), expect, if_pos rfl, expect, Option.bind_some,
    h.skipWs_append, h.read depth le_rfl _ hends]
  rfl

/-- An object is written from its members. -/
theorem renders_object {encode : Char → Str} (hquotes : Quotes encode readChar)
    {members : List (Str × Json × Str)}
    (h : ∀ member ∈ members, Renders member.2.2 member.2.1 depth) :
    Renders
      ('{' :: (commaSeparated [] (members.map fun member =>
        memberText encode member.1 member.2.2) ++ ['}']))
      (.object (members.map fun member => (member.1, member.2.1)))
      (depth + 1) := by
  refine ⟨⟨'{', _, rfl, by decide, by decide, by decide⟩, ?_⟩
  intro d hd rest _
  obtain ⟨d, rfl⟩ :=
    Nat.exists_eq_succ_of_ne_zero (Nat.ne_of_gt (Nat.zero_lt_of_lt hd))
  have hlists : Lists skipWs (readMember (value d)) '}' []
      (members.map fun member =>
        ((member.1, member.2.1), memberText encode member.1 member.2.2)) := by
    refine ⟨by decide, ?_, ?_, ?_, fun _ => rfl, ?_⟩
    · intro entry hentry c rest hc
      obtain ⟨member, hmember, rfl⟩ := List.mem_map.mp hentry
      have hrenders := h member hmember
      exact readMember_memberText hquotes member.1
        ⟨hrenders.head, fun d' hd' => hrenders.read d' (by omega)⟩ hc rest
    · intro entry hentry
      obtain ⟨member, -, rfl⟩ := List.mem_map.mp hentry
      exact ⟨'"', _, rfl, by decide⟩
    · intro entry hentry rest
      obtain ⟨member, -, rfl⟩ := List.mem_map.mp hentry
      exact skipWs_cons (by decide) _
    · rintro c rest (rfl | rfl) <;> exact skipWs_cons (by decide) _
  have hread := hlists.readList rest
  rw [List.map_map, List.map_map] at hread
  rw [List.cons_append, List.append_assoc, List.singleton_append, value,
    if_pos rfl]
  exact congrArg (Option.map _) hread

/-! ### Arrays -/

theorem Renders.mono {depth' : ℕ} (h : Renders text v depth)
    (hle : depth ≤ depth') : Renders text v depth' where
  head := h.head
  read := fun d hd => h.read d (hle.trans hd)

/-- An array is written from its items. -/
theorem renders_array {items : List (Json × Str)}
    (h : ∀ item ∈ items, Renders item.2 item.1 depth) :
    Renders ('[' :: (commaSeparated [] (items.map Prod.snd) ++ [']']))
      (.array (items.map Prod.fst)) (depth + 1) := by
  refine ⟨⟨'[', _, rfl, by decide, by decide, by decide⟩, ?_⟩
  intro d hd rest _
  obtain ⟨d, rfl⟩ :=
    Nat.exists_eq_succ_of_ne_zero (Nat.ne_of_gt (Nat.zero_lt_of_lt hd))
  have hlists : Lists skipWs (value d) ']' [] items := by
    refine ⟨by decide, ?_, ?_, ?_, fun _ => rfl, ?_⟩
    · intro item hitem c rest hc
      exact (h item hitem).read d (by omega) _
        (ends_cons (hc.imp_right Or.inr) rest)
    · intro item hitem
      obtain ⟨first, others, htext, -, -, hne⟩ := (h item hitem).head
      exact ⟨first, others, htext, hne⟩
    · intro item hitem rest
      exact (h item hitem).skipWs_append rest
    · rintro c rest (rfl | rfl) <;> exact skipWs_cons (by decide) _
  rw [List.cons_append, List.append_assoc, List.singleton_append, value,
    if_neg (by decide), if_pos rfl]
  exact congrArg (Option.map _) (hlists.readList rest)

/-! ## Reading values -/

/-- The member of an object with this name. -/
def field? (name : Str) : Json → Option Json
  | .object members => members.lookup name
  | _ => none

def string? : Json → Option Str
  | .string s => some s
  | _ => none

def bool? : Json → Option Bool
  | .bool b => some b
  | _ => none

/-- A natural number, written without an exponent. -/
def nat? : Json → Option ℕ
  | .number n =>
      if n.negative = false ∧ n.exponent = 0 then some n.coefficient else none
  | _ => none

def items? : Json → Option (List Json)
  | .array items => some items
  | _ => none

theorem field?_object {members : List (Str × Json)} {name : Str}
    (hkeys : (members.map Prod.fst).Nodup) (h : (name, v) ∈ members) :
    (Json.object members).field? name = some v := by
  induction members with
  | nil => cases h
  | cons member members ih =>
      rw [List.map_cons, List.nodup_cons] at hkeys
      rw [field?, List.lookup_cons]
      rcases List.mem_cons.mp h with rfl | hmem
      · rw [beq_self_eq_true]
      · have hne : (name == member.1) = false := by
          rw [beq_eq_false_iff_ne]
          rintro rfl
          exact hkeys.1 (List.mem_map.mpr ⟨_, hmem, rfl⟩)
        rw [hne]
        exact ih hkeys.2 hmem

theorem field?_eq_none {members : List (Str × Json)} {name : Str}
    (h : name ∉ members.map Prod.fst) :
    (Json.object members).field? name = none := by
  refine List.lookup_eq_none_iff.mpr fun member hmember => ?_
  rw [bne_iff_ne]
  rintro rfl
  exact h (List.mem_map_of_mem hmember)

end Json

end Harmost.Support
