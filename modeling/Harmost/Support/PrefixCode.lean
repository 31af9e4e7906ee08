import Mathlib.Data.List.Infix
import Mathlib.Logic.Function.Basic

/-!
# Self-delimiting codes

A code word is self-delimiting when it can be split off the front of any
longer text.  Concatenating self-delimiting words loses nothing: the sequence
of encoded values is recovered from the text alone.  Both facts are stated for
an arbitrary alphabet, so they serve byte escapes and length-prefixed frames
alike.
-/

namespace Harmost.Support

/-- Every word of `encode` can be split off the front of a longer text. -/
def SelfDelimiting {α σ : Type*} (encode : α → List σ) : Prop :=
  ∀ a b rest rest', encode a ++ rest = encode b ++ rest' →
    a = b ∧ rest = rest'

namespace SelfDelimiting

variable {α σ : Type*} {encode : α → List σ}

/-- A reader which returns the encoded value from every text starting with its
word makes the code self-delimiting. -/
theorem of_reader {read : List σ → Option α}
    (hread : ∀ a rest, read (encode a ++ rest) = some a) :
    SelfDelimiting encode := by
  intro a b rest rest' h
  have ha : some a = some b := by
    rw [← hread a rest, h, hread b rest']
  obtain rfl : a = b := Option.some.inj ha
  exact ⟨rfl, List.append_cancel_left h⟩

/-- Concatenated words determine the sequence of encoded values, provided no
word is empty. -/
theorem flatMap_injective (hcode : SelfDelimiting encode)
    (hne : ∀ a, encode a ≠ []) :
    Function.Injective (fun values : List α => values.flatMap encode) := by
  intro xs
  induction xs with
  | nil =>
      intro ys h
      cases ys with
      | nil => rfl
      | cons y ys =>
          have hy : encode y = [] := by
            have h' : ([] : List σ) = encode y ++ ys.flatMap encode := by
              simpa using h
            exact (List.append_eq_nil_iff.mp h'.symm).1
          exact (hne y hy).elim
  | cons x xs ih =>
      intro ys h
      cases ys with
      | nil =>
          have hx : encode x = [] := by
            have h' : encode x ++ xs.flatMap encode = [] := by
              simpa using h
            exact (List.append_eq_nil_iff.mp h').1
          exact (hne x hx).elim
      | cons y ys =>
          have h' : encode x ++ xs.flatMap encode =
              encode y ++ ys.flatMap encode := by
            simpa using h
          obtain ⟨rfl, htail⟩ := hcode x y _ _ h'
          rw [ih htail]

end SelfDelimiting

end Harmost.Support
