import Harmost.Config.Schema
import Harmost.Support.Checks
import Harmost.Support.Framing
import Harmost.Support.IpAddr

/-!
# Durations as a configuration file writes them

A duration is an unsigned 64-bit number and one of the units `ms`, `s`, `m` and
`h`.  Minutes and hours are counted in seconds, and the product has to fit 64
bits too.
-/

namespace Harmost.Config

open Harmost.Support

/-- The text of every message about a duration. -/
def durationText (s : Str) (message : String) : Str :=
  "duration `".toList ++ s ++ "` ".toList ++ message.toList

/-- A number of seconds that has to fit 64 bits. -/
def checkedSecs (s : Str) (secs : ℕ) : Except Str Duration :=
  if secs < 2 ^ 64 then .ok (Duration.fromSecs secs)
  else .error (durationText s "overflows")

/-- A number of some unit. -/
def durationOf (s : Str) (num : ℕ) (unit : Str) : Except Str Duration :=
  if unit = "ms".toList then .ok (num * 1000000)
  else if unit = "s".toList then .ok (Duration.fromSecs num)
  else if unit = "m".toList then checkedSecs s (num * 60)
  else if unit = "h".toList then checkedSecs s (num * 3600)
  else
    .error (durationText s "has unknown unit `" ++ unit ++
      "`; expected ms, s, m, or h".toList)

/-- `Dur::parse`. -/
def Dur.parse (text : Str) : Except Str Duration :=
  let s := trim text
  if s.isEmpty then .error "empty duration".toList
  else
    let num := s.takeWhile fun c => !c.isAlpha
    let unit := s.dropWhile fun c => !c.isAlpha
    if unit.isEmpty then
      .error (durationText s "has no unit; expected one of ms, s, m, h")
    else
      match parseUnsigned 64 (trim num) with
      | none => .error (durationText s "has a non-integer value")
      | some num => durationOf s num unit

example : Dur.parse " 5m".toList = .ok (Duration.fromSecs 300) := by decide

/-! ## What is accepted -/

/-- How many seconds a unit stands for, where they are counted. -/
def secondsPerUnit (unit : Str) : ℕ :=
  if unit = "m".toList then 60
  else if unit = "h".toList then 3600
  else 1

theorem secondsPerUnit_pos (unit : Str) : 0 < secondsPerUnit unit := by
  rw [secondsPerUnit]
  split_ifs <;> decide

def durationUnits : List Str :=
  ["ms".toList, "s".toList, "m".toList, "h".toList]

theorem durationOf_eq_ok_iff {s unit : Str} {num : ℕ} (hnum : num < 2 ^ 64) :
    (∃ d, durationOf s num unit = .ok d) ↔
      unit ∈ durationUnits ∧ num * secondsPerUnit unit < 2 ^ 64 := by
  have hchecked : ∀ secs, (∃ d, checkedSecs s secs = .ok d) ↔
      secs < 2 ^ 64 := by
    intro secs
    rw [checkedSecs]
    split_ifs with hfits
    · exact iff_of_true ⟨_, rfl⟩ hfits
    · exact iff_of_false (by simp) hfits
  rw [durationOf]
  split_ifs with hms hs hm hh
  · subst hms
    exact iff_of_true ⟨_, rfl⟩ ⟨by decide, (Nat.mul_one num).symm ▸ hnum⟩
  · subst hs
    exact iff_of_true ⟨_, rfl⟩ ⟨by decide, (Nat.mul_one num).symm ▸ hnum⟩
  · subst hm
    rw [hchecked]
    exact (and_iff_right (by decide)).symm
  · subst hh
    rw [hchecked]
    exact (and_iff_right (by decide)).symm
  · refine iff_of_false (by simp) fun h => ?_
    simp only [durationUnits, List.mem_cons, List.not_mem_nil, or_false] at h
    tauto

/-- A text is accepted for the number in front of its first letter and the unit
that starts there. -/
theorem parse_eq_ok_iff {text : Str} :
    (∃ d, Dur.parse text = .ok d) ↔
      ∃ num,
        parseUnsigned 64 (trim ((trim text).takeWhile fun c => !c.isAlpha)) =
          some num ∧
        ((trim text).dropWhile fun c => !c.isAlpha) ∈ durationUnits ∧
        num * secondsPerUnit ((trim text).dropWhile fun c => !c.isAlpha) <
          2 ^ 64 := by
  simp only [Dur.parse]
  split_ifs with hempty hunit
  · rw [List.isEmpty_iff] at hempty
    simp [hempty, durationUnits]
  · rw [List.isEmpty_iff] at hunit
    simp [hunit, durationUnits]
  · split
    · rename_i hnum
      simp [hnum]
    · rename_i num hnum
      rw [durationOf_eq_ok_iff (parseUnsigned_lt hnum)]
      simp [hnum]

/-! ## Reading what was written -/

/-- Digits and a unit are read as they are. -/
theorem parse_append {digits unit : Str} (hne : digits ≠ [])
    (hdigits : digits.all Char.isDigit = true) (hunit : unit ≠ [])
    (hletters : unit.all Char.isAlpha = true) :
    (∃ d, Dur.parse (digits ++ unit) = .ok d) ↔
      unit ∈ durationUnits ∧
        Nat.ofDigitChars 10 digits 0 * secondsPerUnit unit < 2 ^ 64 := by
  rw [List.all_eq_true] at hdigits hletters
  have hplain : ∀ c ∈ digits ++ unit, isWhitespace c = false := by
    intro c hc
    rcases List.mem_append.mp hc with hc | hc
    · have hzero : '0'.toNat = 48 := rfl
      have hnine : '9'.toNat = 57 := rfl
      have hrange := Char.isDigit_iff_toNat.mp (hdigits c hc)
      exact isWhitespace_eq_false_of_graphic (by omega) (by omega)
    · have hranges := isAlpha_iff_toNat.mp (hletters c hc)
      exact isWhitespace_eq_false_of_graphic (by omega) (by omega)
  have hfront : ∀ c ∈ digits, (!c.isAlpha) = true := fun c hc => by
    simp [isAlpha_eq_false_of_isDigit (hdigits c hc)]
  obtain ⟨letter, letters, rfl⟩ := List.exists_cons_of_ne_nil hunit
  have hletter : letter.isAlpha = true := hletters letter List.mem_cons_self
  have hnum : (digits ++ letter :: letters).takeWhile (fun c => !c.isAlpha) =
      digits := by
    rw [List.takeWhile_append_of_pos hfront, List.takeWhile_cons_of_neg]
    · rw [List.append_nil]
    · simp [hletter]
  have hrest : (digits ++ letter :: letters).dropWhile (fun c => !c.isAlpha) =
      letter :: letters := by
    rw [List.dropWhile_append_of_pos hfront, List.dropWhile_cons_of_neg]
    simp [hletter]
  rw [parse_eq_ok_iff, trim_eq_self hplain, hnum, hrest,
    trim_eq_self fun c hc => hplain c (List.mem_append_left _ hc),
    parseUnsigned_of_digits hne hdigits]
  have hpos := secondsPerUnit_pos (letter :: letters)
  constructor
  · rintro ⟨num, hread, hknown, hfits⟩
    split_ifs at hread
    cases hread
    exact ⟨hknown, hfits⟩
  · rintro ⟨hknown, hfits⟩
    have hlt := (Nat.le_mul_of_pos_right _ hpos).trans_lt hfits
    exact ⟨_, if_pos hlt, hknown, hfits⟩

/-- Nothing but digits, a sign, space and the letters of the units is ever
read. -/
theorem mem_of_parse {text : Str} {d : Duration} (h : Dur.parse text = .ok d) :
    ∀ c ∈ text, isWhitespace c = true ∨ c = '+' ∨ c.isDigit = true ∨
      c ∈ "msh".toList := by
  obtain ⟨num, hnum, hunit, -⟩ := parse_eq_ok_iff.mp ⟨d, h⟩
  intro c hc
  rcases mem_trim hc with hspace | hc
  · exact .inl hspace
  rw [← List.takeWhile_append_dropWhile (p := fun c => !c.isAlpha)
      (l := trim text), List.mem_append] at hc
  rcases hc with hc | hc
  · rcases mem_trim hc with hspace | hc
    · exact .inl hspace
    · exact .inr ((mem_of_parseUnsigned hnum c hc).imp_right .inl)
  · have hunits : ∀ unit ∈ durationUnits,
        (unit.all fun c => "msh".toList.contains c) = true := by
      decide
    have hletter := List.all_eq_true.mp (hunits _ hunit) c hc
    exact .inr (.inr (.inr (List.contains_iff_mem.mp hletter)))

end Harmost.Config
