import Mathlib.Data.List.Infix

/-!
# Pieces at fixed positions

A format with fields at fixed offsets is read by slices and single elements.
What stands at a position can be put together piece by piece.
-/

namespace Harmost.Support

variable {α : Type*} {list piece piece' : List α} {start : ℕ}

/-- The list has this piece at a position. -/
def StandsAt (list : List α) (start : ℕ) (piece : List α) : Prop :=
  piece <+: list.drop start

/-- `slice::get` of a range. -/
def slice (list : List α) (start stop : ℕ) : Option (List α) :=
  if start ≤ stop ∧ stop ≤ list.length then
    some ((list.take stop).drop start)
  else
    none

theorem standsAt_append :
    StandsAt list start (piece ++ piece') ↔
      StandsAt list start piece ∧
        StandsAt list (start + piece.length) piece' := by
  rw [StandsAt, StandsAt, StandsAt, ← List.drop_drop]
  constructor
  · rintro ⟨rest, hrest⟩
    rw [← hrest, List.append_assoc, List.drop_left]
    exact ⟨List.prefix_append _ _, List.prefix_append _ _⟩
  · rintro ⟨⟨rest, hrest⟩, hpiece⟩
    rw [← hrest, List.drop_left] at hpiece
    rw [← hrest]
    exact (List.prefix_append_right_inj piece).mpr hpiece

theorem standsAt_singleton {a : α} :
    StandsAt list start [a] ↔ list[start]? = some a := by
  rw [← List.head?_drop, StandsAt]
  cases list.drop start with
  | nil => simp
  | cons b rest => simp [List.cons_prefix_cons, eq_comm]

theorem StandsAt.le_length (h : StandsAt list start piece)
    (hne : piece ≠ []) : start + piece.length ≤ list.length := by
  have hle := h.length_le
  have hpos := List.length_pos_iff.mpr hne
  rw [List.length_drop] at hle
  omega

theorem slice_eq_some {n : ℕ} (hn : 0 < n) :
    slice list start (start + n) = some piece ↔
      piece.length = n ∧ StandsAt list start piece := by
  rw [slice]
  split_ifs with hrange
  · have hwindow : (list.take (start + n)).drop start =
        (list.drop start).take n := by
      rw [List.drop_take, Nat.add_sub_cancel_left]
    rw [hwindow, Option.some.injEq]
    constructor
    · rintro rfl
      refine ⟨?_, List.take_prefix _ _⟩
      rw [List.length_take, List.length_drop]
      omega
    · rintro ⟨rfl, hpiece⟩
      exact (List.prefix_iff_eq_take.mp hpiece).symm
  · refine iff_of_false (by simp) ?_
    rintro ⟨rfl, hpiece⟩
    have hle := hpiece.le_length (List.length_pos_iff.mp hn)
    omega

end Harmost.Support
