import Harmost.Support.Text
import Harmost.Support.Utf8
import Mathlib.Data.FinEnum

/-!
# Reading and writing a form-encoded text

The way a server reads one name or value of a query: `+` is a space, `%` and two
hexadecimal digits are one byte, and everything else stands for its UTF-8
encoding.  A `%` without its digits stands for itself.  A reader that only knows
escapes takes `+` for itself.

The way a browser writes a query: letters, digits and four marks as they are, a
space as `+`, and every other byte as an escape.
-/

namespace Harmost.Support

/-- Read escapes, with the bytes that `+` stands for. -/
def decodeEscapes (plus : List UInt8) : Str → List UInt8
  | '%' :: a :: b :: rest =>
      match hexDigit a, hexDigit b with
      | some x, some y => UInt8.ofNat (16 * x + y) :: decodeEscapes plus rest
      | _, _ => 0x25 :: decodeEscapes plus (a :: b :: rest)
  | '+' :: rest => plus ++ decodeEscapes plus rest
  | c :: rest => String.utf8EncodeChar c ++ decodeEscapes plus rest
  | [] => []

def formDecode : Str → List UInt8 :=
  decodeEscapes [0x20]

/-- `formDecode` without a meaning for `+`. -/
def percentDecode : Str → List UInt8 :=
  decodeEscapes [0x2b]

theorem percentDecode_escape {a b : Char} {x y : ℕ} (ha : hexDigit a = some x)
    (hb : hexDigit b = some y) (rest : Str) :
    percentDecode ('%' :: a :: b :: rest) =
      UInt8.ofNat (16 * x + y) :: percentDecode rest := by
  rw [percentDecode, decodeEscapes, ha, hb]

theorem percentDecode_plain {c : Char} (hpercent : c ≠ '%') (hplus : c ≠ '+')
    (rest : Str) : percentDecode (c :: rest) =
      String.utf8EncodeChar c ++ percentDecode rest := by
  rw [percentDecode, decodeEscapes]
  · rintro a b rest' rfl
    exact (hpercent rfl).elim
  · exact hplus

/-! ## Writing -/

/-- The bytes that are written as they are. -/
def isFormPlain (b : UInt8) : Bool :=
  let c := Char.ofNat b.toNat
  c.isAlphanum || c == '*' || c == '-' || c == '.' || c == '_'

def upperHex (n : ℕ) : Char :=
  (Nat.digitChar n).toUpper

def formSerializeByte (b : UInt8) : Str :=
  if b = 0x20 then ['+']
  else if isFormPlain b then [Char.ofNat b.toNat]
  else ['%', upperHex (b.toNat / 16), upperHex (b.toNat % 16)]

def formSerialize (text : Str) : Str :=
  (utf8 text).flatMap formSerializeByte

/-- The text of a query with these names and values. -/
def formSerializePairs (pairs : List (Str × Str)) : Str :=
  join '&' (pairs.map fun pair =>
    formSerialize pair.1 ++ '=' :: formSerialize pair.2)

/-- Spell every space as an escape. -/
def escapePlus (s : Str) : Str :=
  s.flatMap fun c => if c = '+' then "%20".toList else [c]

theorem escapePlus_append (s t : Str) :
    escapePlus (s ++ t) = escapePlus s ++ escapePlus t :=
  List.flatMap_append

theorem escapePlus_of_notMem {s : Str} (hs : '+' ∉ s) : escapePlus s = s := by
  induction s with
  | nil => rfl
  | cons c rest ih =>
      rw [List.mem_cons, not_or] at hs
      rw [escapePlus, List.flatMap_cons, ← escapePlus, ih hs.2,
        if_neg (Ne.symm hs.1)]
      rfl

theorem escapePlus_join (parts : List Str) :
    escapePlus (join '&' parts) = join '&' (parts.map escapePlus) := by
  induction parts with
  | nil => rfl
  | cons part rest ih =>
      cases rest with
      | nil => simp
      | cons next rest =>
          rw [join_cons_cons, escapePlus_append, List.map_cons, List.map_cons,
            join_cons_cons, ← List.map_cons, ← ih]
          rfl

theorem hexDigit_upperHex : ∀ n < 16, hexDigit (upperHex n) = some n := by
  decide

theorem upperHex_ne_plus : ∀ n < 16, upperHex n ≠ '+' := by
  decide

theorem plain_byte : ∀ b : UInt8, isFormPlain b = true →
    Char.ofNat b.toNat ≠ '+' ∧ Char.ofNat b.toNat ≠ '%' ∧
      String.utf8EncodeChar (Char.ofNat b.toNat) = [b] := by
  decide +kernel

/-- One byte is read back. -/
theorem percentDecode_escapePlus_byte (b : UInt8) (rest : Str) :
    percentDecode (escapePlus (formSerializeByte b) ++ rest) =
      b :: percentDecode rest := by
  rw [formSerializeByte]
  split_ifs with hspace hplain
  · subst hspace
    have htwo : hexDigit '2' = some 2 := rfl
    have hzero : hexDigit '0' = some 0 := rfl
    exact percentDecode_escape htwo hzero rest
  · obtain ⟨hplus, hpercent, hencode⟩ := plain_byte b hplain
    rw [escapePlus_of_notMem (by simpa using Ne.symm hplus),
      List.singleton_append, percentDecode_plain hpercent hplus, hencode]
    rfl
  · have hhigh : b.toNat / 16 < 16 := Nat.div_lt_of_lt_mul b.toNat_lt
    have hlow : b.toNat % 16 < 16 := Nat.mod_lt _ (by decide)
    have hplus : '+' ∉
        ['%', upperHex (b.toNat / 16), upperHex (b.toNat % 16)] := by
      simp [(upperHex_ne_plus _ hhigh).symm, (upperHex_ne_plus _ hlow).symm]
    rw [escapePlus_of_notMem hplus]
    refine (percentDecode_escape (hexDigit_upperHex _ hhigh)
      (hexDigit_upperHex _ hlow) rest).trans ?_
    rw [Nat.div_add_mod, UInt8.ofNat_toNat]

/-- A text is read back, whatever is in it. -/
theorem percentDecode_escapePlus (text : Str) :
    percentDecode (escapePlus (formSerialize text)) = utf8 text := by
  rw [formSerialize]
  induction utf8 text with
  | nil => rfl
  | cons b bytes ih =>
      rw [List.flatMap_cons, escapePlus_append, percentDecode_escapePlus_byte,
        ih]

/-- The separators of a query are never written as they are. -/
theorem notMem_escapePlus {sep : Char} (hsep : sep = '&' ∨ sep = '=')
    (text : Str) : sep ∉ escapePlus (formSerialize text) := by
  have hbyte : ∀ b : UInt8, (escapePlus (formSerializeByte b)).all
      (fun c => c != '&' && c != '=') = true := by
    decide +kernel
  rw [formSerialize]
  induction utf8 text with
  | nil => exact List.not_mem_nil
  | cons b bytes ih =>
      rw [List.flatMap_cons, escapePlus_append, List.mem_append, not_or]
      refine ⟨fun hmem => ?_, ih⟩
      have hplain := List.all_eq_true.mp (hbyte b) _ hmem
      rcases hsep with rfl | rfl <;> exact absurd hplain (by decide)

end Harmost.Support
