import Harmost.Support.PrefixCode
import Harmost.Support.Text

/-!
# Length-prefixed frames

A frame is the decimal length of a text in bytes, a mark, the text itself and a
closing mark.  Because the length comes first, a frame is self-delimiting
whatever the text contains, the marks and digits included.
-/

namespace Harmost.Support

/-- `usize::to_string`. -/
def decimal (n : ℕ) : Str :=
  Nat.toDigits 10 n

theorem decimal_injective : Function.Injective decimal := by
  intro m n h
  have hread : ∀ k, Nat.ofDigitChars 10 (decimal k) 0 = k := by
    intro k
    exact Nat.ofDigitChars_toDigits (by decide) (by decide)
  rw [← hread m, h, hread n]

theorem isDigit_of_mem_decimal {n : ℕ} {c : Char} (hc : c ∈ decimal n) :
    c.isDigit = true :=
  Nat.isDigit_of_mem_toDigits (by decide) (by decide) hc

theorem decimal_ne_nil (n : ℕ) : decimal n ≠ [] :=
  Nat.toDigits_ne_nil

/-- One frame: length, mark, text, closing mark. -/
def frame (mark close : Char) (text : Str) : Str :=
  decimal (byteLen text) ++ mark :: (text ++ [close])

@[simp] theorem byteLen_nil : byteLen [] = 0 := rfl

@[simp] theorem byteLen_cons (c : Char) (s : Str) :
    byteLen (c :: s) = c.utf8Size + byteLen s := by
  simp [byteLen]

/-- Two texts of equal byte length at the front of one text are equal. -/
theorem append_inj_of_byteLen {s t rest rest' : Str}
    (hlen : byteLen s = byteLen t) (h : s ++ rest = t ++ rest') :
    s = t ∧ rest = rest' := by
  induction s generalizing t with
  | nil =>
      cases t with
      | nil => exact ⟨rfl, h⟩
      | cons d t =>
          have hd := d.utf8Size_pos
          simp only [byteLen_nil, byteLen_cons] at hlen
          omega
  | cons c s ih =>
      cases t with
      | nil =>
          have hc := c.utf8Size_pos
          simp only [byteLen_nil, byteLen_cons] at hlen
          omega
      | cons d t =>
          obtain ⟨rfl, htail⟩ := List.cons_eq_cons.mp h
          have hlen' : byteLen s = byteLen t := by
            simpa using hlen
          obtain ⟨rfl, hrest⟩ := ih hlen' htail
          exact ⟨rfl, hrest⟩

/-- A frame whose mark is not a digit is self-delimiting. -/
theorem frame_selfDelimiting {mark : Char} (close : Char)
    (hmark : mark.isDigit = false) : SelfDelimiting (frame mark close) := by
  have hnumeral : ∀ (n : ℕ) (rest : Str),
      (decimal n ++ mark :: rest).takeWhile (· != mark) = decimal n := by
    intro n rest
    rw [List.takeWhile_append_of_pos, List.takeWhile_cons_of_neg (by simp),
      List.append_nil]
    intro c hc
    have hne : c ≠ mark := by
      rintro rfl
      rw [isDigit_of_mem_decimal hc] at hmark
      cases hmark
    simpa using hne
  intro s t rest rest' h
  unfold frame at h
  simp only [List.append_assoc, List.cons_append, List.nil_append] at h
  have hdigits : decimal (byteLen s) = decimal (byteLen t) := by
    rw [← hnumeral (byteLen s) (s ++ close :: rest), h, hnumeral]
  have hlen : byteLen s = byteLen t := decimal_injective hdigits
  rw [hdigits, List.append_cancel_left_eq, List.cons_eq_cons] at h
  obtain ⟨rfl, htail⟩ := append_inj_of_byteLen hlen h.2
  exact ⟨rfl, (List.cons_eq_cons.mp htail).2⟩

theorem frame_ne_nil (mark close : Char) (text : Str) :
    frame mark close text ≠ [] := by
  simp [frame]

end Harmost.Support
