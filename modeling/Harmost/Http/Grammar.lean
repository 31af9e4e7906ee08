import Harmost.Http

/-!
# Tokens and quoted strings

The two forms an argument takes in the list-valued fields of RFC 9110.  A token
holds none of the characters such a list is cut at; a quoted string may hold all
of them.
-/

namespace Harmost.Http

open Harmost.Support

/-- At least one token character. -/
def isToken (s : Str) : Bool :=
  !s.isEmpty && s.all isTokenChar

/-- The characters that structure a field value. -/
def delimiters : Str :=
  ",;=\"".toList

theorem isTokenChar_iff {c : Char} :
    isTokenChar c = true ↔
      c.isAlpha = true ∨ c.isDigit = true ∨
        c ∈ "!#$%&'*+-.^_`|~".toList := by
  have hchar : isTokenChar c = ((c.isAlpha || c.isDigit) ||
      decide (c ∈ "!#$%&'*+-.^_`|~".toList)) := rfl
  rw [hchar, Bool.or_eq_true, Bool.or_eq_true, decide_eq_true_iff, or_assoc]

/-- A token character is visible and structures nothing. -/
theorem visible_of_isTokenChar {c : Char} (h : isTokenChar c = true) :
    0x21 ≤ c.toNat ∧ c.toNat ≤ 0x7e ∧ c ∉ delimiters := by
  have hdelimiter : c ∈ delimiters → c.toNat = 34 ∨ c.toNat = 44 ∨
      c.toNat = 59 ∨ c.toNat = 61 := by
    have hall : (delimiters.all fun d => decide (d.toNat = 34 ∨ d.toNat = 44 ∨
        d.toNat = 59 ∨ d.toNat = 61)) = true := by decide
    exact fun hc => of_decide_eq_true (List.all_eq_true.mp hall c hc)
  rcases isTokenChar_iff.mp h with halpha | hdigit | hsymbol
  · have hrange := isAlpha_iff_toNat.mp halpha
    refine ⟨by omega, by omega, fun hc => ?_⟩
    have hcode := hdelimiter hc
    omega
  · obtain ⟨hlow, hhigh⟩ := Char.isDigit_iff_toNat.mp hdigit
    have hzero : '0'.toNat = 48 := rfl
    have hnine : '9'.toNat = 57 := rfl
    refine ⟨by omega, by omega, fun hc => ?_⟩
    have hcode := hdelimiter hc
    omega
  · have hall : ("!#$%&'*+-.^_`|~".toList.all fun d =>
        decide (0x21 ≤ d.toNat ∧ d.toNat ≤ 0x7e ∧ d ∉ delimiters)) = true := by
      decide
    exact of_decide_eq_true (List.all_eq_true.mp hall c hsymbol)

section Token

variable {s : Str} (h : isToken s = true)

include h

theorem isTokenChar_of_mem {c : Char} (hc : c ∈ s) : isTokenChar c = true := by
  rw [isToken, Bool.and_eq_true] at h
  exact List.all_eq_true.mp h.2 c hc

theorem notMem_of_isToken {c : Char} (hc : c ∈ delimiters) : c ∉ s :=
  fun hmem => (visible_of_isTokenChar (isTokenChar_of_mem h hmem)).2.2 hc

theorem isWhitespace_of_mem_isToken {c : Char} (hc : c ∈ s) :
    isWhitespace c = false := by
  obtain ⟨hlow, hhigh, _⟩ := visible_of_isTokenChar (isTokenChar_of_mem h hc)
  exact isWhitespace_eq_false_of_graphic hlow hhigh

theorem trim_of_isToken : trim s = s :=
  trim_eq_self fun _ hc => isWhitespace_of_mem_isToken h hc

end Token

/-! ## Quoted strings -/

/-- A character that stands for itself between quotes: a blank, or anything
visible or beyond ASCII but the quote and the backslash. -/
def isQdtext (c : Char) : Bool :=
  (c.toNat == 0x09 || (0x20 ≤ c.toNat && c.toNat != 0x7f)) &&
    c != '"' && c != '\\'

/-- A character that may follow a backslash between quotes. -/
def isQuotable (c : Char) : Bool :=
  c.toNat == 0x09 || (0x20 ≤ c.toNat && c.toNat != 0x7f)

/-- One unit between the quotes. -/
inductive QuotedUnit where
  | plain (c : Char) (valid : isQdtext c = true)
  | pair (c : Char) (valid : isQuotable c = true)

def QuotedUnit.text : QuotedUnit → Str
  | .plain c _ => [c]
  | .pair c _ => ['\\', c]

def quotedString (units : List QuotedUnit) : Str :=
  '"' :: (units.flatMap QuotedUnit.text ++ ['"'])

/-- A text that needs no backslash between its quotes. -/
def plainUnits (s : Str) (h : s.all isQdtext = true) : List QuotedUnit :=
  s.pmap QuotedUnit.plain fun c hc => List.all_eq_true.mp h c hc

end Harmost.Http
