import Harmost.Support.PrefixCode
import Harmost.Support.Text
import Mathlib.Data.FinEnum

/-!
# Rust's `escape_ascii`

`<[u8]>::escape_ascii` renders arbitrary bytes as printable ASCII.  Printable
characters other than quotes and the backslash stand for themselves, the common
controls have two-character escapes, and every other byte becomes `\xNN`.

The rendering is a self-delimiting code, so it is injective.  Separators such
as the comma, the equals sign and the space are written by their own byte and
by no other, so splitting and trimming the rendering is splitting and trimming
the bytes.  Horizontal tabs are not among them.
-/

namespace Harmost.Support

/-- The character with the code of a byte. -/
def latin1Char (b : UInt8) : Char :=
  Char.ofNat b.toNat

/-- A byte string read one character per byte. -/
def latin1 (bytes : List UInt8) : Str :=
  bytes.map latin1Char

/-- The bytes of an ASCII text. -/
def asciiBytes (s : Str) : List UInt8 :=
  s.map fun c => UInt8.ofNat c.toNat

/-- The escape of one byte, as `core::ascii::escape_default` writes it. -/
def escapeByte (b : UInt8) : Str :=
  if b = 0x09 then ['\\', 't']
  else if b = 0x0d then ['\\', 'r']
  else if b = 0x0a then ['\\', 'n']
  else if b = 0x27 then ['\\', '\'']
  else if b = 0x22 then ['\\', '"']
  else if b = 0x5c then ['\\', '\\']
  else if 0x20 ≤ b ∧ b ≤ 0x7e then [latin1Char b]
  else
    ['\\', 'x', Nat.digitChar (b.toNat / 16), Nat.digitChar (b.toNat % 16)]

/-- `<[u8]>::escape_ascii`, rendered as a string. -/
def escapeAscii (bytes : List UInt8) : Str :=
  bytes.flatMap escapeByte

/-- The value of a lower-case hexadecimal digit, zero for anything else. -/
def hexValue (c : Char) : ℕ :=
  if '0' ≤ c ∧ c ≤ '9' then c.toNat - '0'.toNat
  else if 'a' ≤ c ∧ c ≤ 'f' then c.toNat - 'a'.toNat + 10
  else 0

/-- Read back the byte whose escape starts a text. -/
def unescapeByte : Str → Option UInt8
  | '\\' :: 't' :: _ => some 0x09
  | '\\' :: 'r' :: _ => some 0x0d
  | '\\' :: 'n' :: _ => some 0x0a
  | '\\' :: '\'' :: _ => some 0x27
  | '\\' :: '"' :: _ => some 0x22
  | '\\' :: '\\' :: _ => some 0x5c
  | '\\' :: 'x' :: high :: low :: _ =>
      some (UInt8.ofNat (16 * hexValue high + hexValue low))
  | c :: _ => some (UInt8.ofNat c.toNat)
  | [] => none

/-! ## Escapes are self-delimiting -/

theorem unescapeByte_cons_of_ne {c : Char} (hc : c ≠ '\\') (rest : Str) :
    unescapeByte (c :: rest) = some (UInt8.ofNat c.toNat) := by
  rw [unescapeByte]
  all_goals
    intros
    exact hc ‹_›

theorem hexValue_digitChar : ∀ n < 16, hexValue (Nat.digitChar n) = n := by
  decide

theorem hexValue_digits (b : UInt8) :
    UInt8.ofNat (16 * hexValue (Nat.digitChar (b.toNat / 16)) +
      hexValue (Nat.digitChar (b.toNat % 16))) = b := by
  rw [hexValue_digitChar _ (Nat.div_lt_of_lt_mul b.toNat_lt),
    hexValue_digitChar _ (Nat.mod_lt _ (by decide)), Nat.div_add_mod,
    UInt8.ofNat_toNat]

theorem ofNat_toNat_latin1Char (b : UInt8) :
    UInt8.ofNat (latin1Char b).toNat = b := by
  revert b
  decide +kernel

theorem latin1Char_injective : Function.Injective latin1Char := by
  intro b b' heq
  rw [← ofNat_toNat_latin1Char b, heq, ofNat_toNat_latin1Char]

/-- Splitting the text is splitting the bytes. -/
theorem splitOn_latin1 (sep : UInt8) (bytes : List UInt8) :
    (latin1 bytes).splitOn (latin1Char sep) =
      (bytes.splitOn sep).map latin1 := by
  have hmap : ∀ bytes : List UInt8,
      latin1 bytes = bytes.flatMap fun b => [latin1Char b] := fun bytes =>
    List.map_eq_flatMap
  have hother : ∀ b, b ≠ sep → latin1Char sep ∉ [latin1Char b] := by
    intro b hb hmem
    exact hb (latin1Char_injective (List.mem_singleton.mp hmem)).symm
  rw [hmap, splitOn_flatMap (f := fun b => [latin1Char b]) rfl hother]
  exact List.map_congr_left fun piece _ => (hmap piece).symm

theorem latin1Char_ne_backslash {b : UInt8} (hb : b ≠ 0x5c) :
    latin1Char b ≠ '\\' := by
  intro heq
  have hcode : latin1Char b = latin1Char 0x5c := heq
  exact hb (latin1Char_injective hcode)

theorem unescapeByte_escapeByte (b : UInt8) (rest : Str) :
    unescapeByte (escapeByte b ++ rest) = some b := by
  unfold escapeByte
  split
  · subst b
    rfl
  split
  · subst b
    rfl
  split
  · subst b
    rfl
  split
  · subst b
    rfl
  split
  · subst b
    rfl
  split
  · subst b
    rfl
  next hbackslash =>
    split
    · rw [List.singleton_append,
        unescapeByte_cons_of_ne (latin1Char_ne_backslash hbackslash),
        ofNat_toNat_latin1Char]
    · exact congrArg some (hexValue_digits b)

theorem escapeByte_selfDelimiting : SelfDelimiting escapeByte :=
  SelfDelimiting.of_reader unescapeByte_escapeByte

theorem escapeByte_ne_nil (b : UInt8) : escapeByte b ≠ [] := by
  intro hnil
  have hread := unescapeByte_escapeByte b []
  rw [hnil] at hread
  exact Option.some_ne_none b hread.symm

/-- Distinct byte strings have distinct renderings. -/
theorem escapeAscii_injective : Function.Injective escapeAscii :=
  escapeByte_selfDelimiting.flatMap_injective escapeByte_ne_nil

/-! ## Separators survive escaping -/

/-- Bytes which are escaped as themselves and occur in no other escape. -/
def IsSeparatorByte (b : UInt8) : Prop :=
  b = 0x20 ∨ b = 0x2c ∨ b = 0x3d

instance (b : UInt8) : Decidable (IsSeparatorByte b) :=
  inferInstanceAs (Decidable (_ ∨ _))

theorem escapeByte_separator {sep : UInt8} (hsep : IsSeparatorByte sep) :
    escapeByte sep = [latin1Char sep] := by
  rcases hsep with rfl | rfl | rfl <;> rfl

/-- Printable characters that separate nothing. -/
def isEscapeChar (c : Char) : Bool :=
  0x21 ≤ c.toNat && c.toNat ≤ 0x7e && c != ',' && c != '='

/-- A byte is escaped as its own printable character, or with a backslash and
without separators. -/
theorem escapeByte_cases (b : UInt8) :
    (escapeByte b = [latin1Char b] ∧ 0x20 ≤ (latin1Char b).toNat ∧
        (latin1Char b).toNat ≤ 0x7e) ∨
      ('\\' ∈ escapeByte b ∧ (escapeByte b).all isEscapeChar = true) := by
  revert b
  decide +kernel

theorem not_isEscapeChar_separator {sep : UInt8} (hsep : IsSeparatorByte sep) :
    isEscapeChar (latin1Char sep) = false := by
  rcases hsep with rfl | rfl | rfl <;> rfl

theorem bounds_of_isEscapeChar {c : Char} (hc : isEscapeChar c = true) :
    0x21 ≤ c.toNat ∧ c.toNat ≤ 0x7e := by
  simp only [isEscapeChar, Bool.and_eq_true, decide_eq_true_eq] at hc
  exact hc.1.1

theorem notMem_escapeByte_of_ne {sep : UInt8} (hsep : IsSeparatorByte sep)
    {b : UInt8} (hb : b ≠ sep) : latin1Char sep ∉ escapeByte b := by
  intro hmem
  rcases escapeByte_cases b with ⟨hplain, -, -⟩ | ⟨-, hall⟩
  · rw [hplain, List.mem_singleton] at hmem
    exact hb (latin1Char_injective hmem).symm
  · have hchar := List.all_eq_true.mp hall _ hmem
    rw [not_isEscapeChar_separator hsep] at hchar
    exact Bool.false_ne_true hchar

/-- Every escape is made of printable ASCII. -/
theorem printable_of_mem_escapeByte {b : UInt8} {c : Char}
    (hc : c ∈ escapeByte b) : 0x20 ≤ c.toNat ∧ c.toNat ≤ 0x7e := by
  rcases escapeByte_cases b with ⟨hplain, hbounds⟩ | ⟨-, hall⟩
  · rw [hplain, List.mem_singleton] at hc
    exact hc ▸ hbounds
  · have hbounds := bounds_of_isEscapeChar (List.all_eq_true.mp hall c hc)
    exact ⟨Nat.le_of_succ_le hbounds.1, hbounds.2⟩

theorem printable_of_mem_escapeAscii {bytes : List UInt8} {c : Char}
    (hc : c ∈ escapeAscii bytes) : 0x20 ≤ c.toNat ∧ c.toNat ≤ 0x7e := by
  obtain ⟨b, _, hb⟩ := List.mem_flatMap.mp hc
  exact printable_of_mem_escapeByte hb

/-- Splitting the rendering at a separator splits the bytes. -/
theorem splitOn_escapeAscii {sep : UInt8} (hsep : IsSeparatorByte sep)
    (bytes : List UInt8) :
    (escapeAscii bytes).splitOn (latin1Char sep) =
      (bytes.splitOn sep).map escapeAscii :=
  splitOn_flatMap (escapeByte_separator hsep)
    (fun _ hb => notMem_escapeByte_of_ne hsep hb) bytes

/-- What stands before a separator in the rendering is what stands before it
in the bytes. -/
theorem takeWhile_escapeAscii {sep : UInt8} (hsep : IsSeparatorByte sep)
    (bytes : List UInt8) :
    (escapeAscii bytes).takeWhile (· != latin1Char sep) =
      escapeAscii (bytes.takeWhile (· != sep)) := by
  apply takeWhile_flatMap
  · intro b hb c hc
    have hne : b ≠ sep := by simpa using hb
    have hcne : c ≠ latin1Char sep := by
      rintro rfl
      exact notMem_escapeByte_of_ne hsep hne hc
    simpa using hcne
  · intro b hb
    obtain rfl : b = sep := by simpa using hb
    exact ⟨latin1Char b, [], escapeByte_separator hsep, by simp⟩

theorem isWhitespace_of_mem_escapeByte {b : UInt8} (hb : b ≠ 0x20) {c : Char}
    (hc : c ∈ escapeByte b) : isWhitespace c = false := by
  have hspace : c.toNat ≠ 0x20 := by
    intro heq
    obtain rfl : c = latin1Char 0x20 := Char.toNat_inj.mp heq
    exact notMem_escapeByte_of_ne (.inl rfl) hb hc
  obtain ⟨hlow, hhigh⟩ := printable_of_mem_escapeByte hc
  exact isWhitespace_eq_false_of_graphic (by omega) hhigh

/-- The only white space of a rendering is the space, so trimming it strips
spaces and leaves every other byte in place, tabs included. -/
theorem trim_escapeAscii (bytes : List UInt8) :
    trim (escapeAscii bytes) =
      escapeAscii (trimMatches (· == 0x20) bytes) := by
  apply trimMatches_flatMap
  · intro b hb
    obtain rfl : b = 0x20 := by simpa using hb
    exact List.all_eq_true.mp (by decide)
  · intro b hb
    have hne : b ≠ 0x20 := by simpa using hb
    obtain ⟨c, rest, hescape⟩ :=
      List.exists_cons_of_ne_nil (escapeByte_ne_nil b)
    refine ⟨c, rest, hescape, isWhitespace_of_mem_escapeByte hne ?_⟩
    simp [hescape]
  · intro b hb
    have hne : b ≠ 0x20 := by simpa using hb
    refine ⟨_, _, (List.dropLast_concat_getLast (escapeByte_ne_nil b)).symm,
      isWhitespace_of_mem_escapeByte hne (List.getLast_mem _)⟩

/-! ## Escaping text that needs no escape -/

/-- Characters which stand for themselves in a rendering. -/
def IsUnescaped (c : Char) : Prop :=
  0x20 ≤ c.toNat ∧ c.toNat ≤ 0x7e ∧ c ≠ '\\' ∧ c ≠ '"' ∧ c ≠ '\''

instance (c : Char) : Decidable (IsUnescaped c) :=
  inferInstanceAs (Decidable (_ ∧ _))

theorem escapeByte_of_isUnescaped {b : UInt8}
    (hb : IsUnescaped (latin1Char b).toLower) :
    escapeByte b = [latin1Char b] := by
  revert b
  decide +kernel

theorem escapeByte_eq_or_backslash (b : UInt8) :
    escapeByte b = [latin1Char b] ∨ '\\' ∈ escapeByte b :=
  (escapeByte_cases b).imp And.left And.left

theorem escapeAscii_eq_latin1 {bytes : List UInt8}
    (h : ∀ b ∈ bytes, escapeByte b = [latin1Char b]) :
    escapeAscii bytes = latin1 bytes := by
  induction bytes with
  | nil => rfl
  | cons b bytes ih =>
      have htail := ih fun x hx => h x (by simp [hx])
      unfold escapeAscii latin1 at htail ⊢
      rw [List.flatMap_cons, List.map_cons, h b (by simp), htail]
      rfl

/-- A rendering equals an unescaped text, up to ASCII case, exactly when the
bytes themselves do. -/
theorem toAsciiLowercase_escapeAscii_eq_iff {text : Str}
    (htext : ∀ c ∈ text, IsUnescaped c) (bytes : List UInt8) :
    toAsciiLowercase (escapeAscii bytes) = text ↔
      toAsciiLowercase (latin1 bytes) = text := by
  constructor
  · intro h
    rw [← h, escapeAscii_eq_latin1]
    intro b hb
    rcases escapeByte_eq_or_backslash b with hplain | hbackslash
    · exact hplain
    · have hmem : '\\' ∈ text := by
        rw [← h]
        exact List.mem_map.mpr
          ⟨'\\', List.mem_flatMap.mpr ⟨b, hb, hbackslash⟩, by decide⟩
      exact ((htext _ hmem).2.2.1 rfl).elim
  · intro h
    rw [← h, escapeAscii_eq_latin1]
    intro b hb
    apply escapeByte_of_isUnescaped
    apply htext
    rw [← h]
    exact List.mem_map.mpr ⟨latin1Char b, List.mem_map.mpr ⟨b, hb, rfl⟩, rfl⟩

end Harmost.Support
