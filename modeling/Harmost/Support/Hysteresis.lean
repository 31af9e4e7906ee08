import Mathlib.Data.List.DropRight
import Mathlib.Order.Bounds.Basic

/-!
# Hysteresis

A switch that is driven by a history of good and bad signs: so many good ones in
a row turn it on, so many bad ones in a row turn it off.  Its position is a
property of the whole history, and how it changes with one more sign depends
only on the length of the last run.
-/

namespace Harmost.Support

/-- How many of the last signs are all of this kind. -/
def streak (sign : Bool) (history : List Bool) : ℕ :=
  (history.rtakeWhile (· == sign)).length

@[simp] theorem streak_nil (sign : Bool) : streak sign [] = 0 := by
  simp [streak]

@[simp] theorem streak_concat_self (sign : Bool) (history : List Bool) :
    streak sign (history ++ [sign]) = streak sign history + 1 := by
  rw [streak, List.rtakeWhile_concat, if_pos (beq_self_eq_true sign),
    List.length_append]
  rfl

@[simp] theorem streak_concat_not (sign : Bool) (history : List Bool) :
    streak sign (history ++ [!sign]) = 0 := by
  rw [streak, List.rtakeWhile_concat, if_neg (by cases sign <;> decide)]
  rfl

theorem streak_le_length (sign : Bool) (history : List Bool) :
    streak sign history ≤ history.length :=
  (List.rtakeWhile_suffix _ history).length_le

theorem replicate_suffix_iff {k : ℕ} {sign : Bool} {history : List Bool} :
    List.replicate k sign <:+ history ↔ k ≤ streak sign history := by
  constructor
  · rintro ⟨before, rfl⟩
    induction k with
    | zero => exact Nat.zero_le _
    | succ k ih =>
        rw [List.replicate_succ', ← List.append_assoc, streak_concat_self]
        exact Nat.succ_le_succ ih
  · intro h
    have hall : history.rtakeWhile (· == sign) =
        List.replicate (streak sign history) sign := by
      refine List.eq_replicate_iff.mpr ⟨rfl, fun s hs => ?_⟩
      simpa using List.mem_rtakeWhile_imp hs
    have hsuffix : List.replicate (streak sign history) sign <:+ history :=
      hall ▸ List.rtakeWhile_suffix _ history
    rw [← Nat.sub_add_cancel h, List.replicate_add] at hsuffix
    exact (List.suffix_append _ _).trans hsuffix

/-- A run of this length and kind is complete after so many signs. -/
def Completes (k : ℕ) (sign : Bool) (history : List Bool) (i : ℕ) : Prop :=
  i ≤ history.length ∧ List.replicate k sign <:+ history.take i

theorem completes_length {k : ℕ} {sign : Bool} {history : List Bool} :
    Completes k sign history history.length ↔ k ≤ streak sign history := by
  rw [Completes, List.take_length, replicate_suffix_iff]
  exact and_iff_right le_rfl

theorem completes_concat {k : ℕ} {sign next : Bool} {history : List Bool}
    (hshort : streak sign (history ++ [next]) < k) (i : ℕ) :
    Completes k sign (history ++ [next]) i ↔ Completes k sign history i := by
  rcases Nat.lt_or_ge history.length i with hlt | hle
  · refine iff_of_false (fun h => ?_) fun h => absurd h.1 (Nat.not_le.mpr hlt)
    have hlast : i = (history ++ [next]).length := by
      have hbound := h.1
      simp only [List.length_append, List.length_singleton] at hbound ⊢
      omega
    rw [hlast, completes_length] at h
    omega
  · rw [Completes, Completes, List.take_append_of_le_length hle,
      List.length_append, List.length_singleton]
    exact and_congr_left' ⟨fun _ => hle, fun h => Nat.le_succ_of_le h⟩

/-- The switch is on: a run of good signs has been completed, and no run of bad
ones after the latest such. -/
def On (up down : ℕ) (history : List Bool) : Prop :=
  ∃ i, IsGreatest {i | Completes up true history i} i ∧
    ∀ j, i < j → ¬Completes down false history j

variable {up down : ℕ} {history : List Bool}

theorem not_on_nil (hup : 0 < up) : ¬On up down [] := by
  rintro ⟨i, ⟨⟨hi, hrun⟩, -⟩, -⟩
  rw [List.take_nil, replicate_suffix_iff, streak_nil] at hrun
  omega

theorem on_of_streak (h : up ≤ streak true history) : On up down history := by
  refine ⟨history.length, ⟨completes_length.mpr h, fun i hi => hi.1⟩, ?_⟩
  intro j hj hcompletes
  exact absurd hcompletes.1 (Nat.not_le.mpr hj)

/-- Two runs of different kinds do not end at the same sign. -/
theorem streak_true_eq_zero (h : 0 < streak false history) :
    streak true history = 0 := by
  induction history using List.reverseRecOn with
  | nil => exact streak_nil true
  | append_singleton history next =>
      cases next with
      | false => exact streak_concat_not true history
      | true =>
          have hzero : streak false (history ++ [true]) = 0 :=
            streak_concat_not false history
          omega

theorem not_on_of_streak (hup : 0 < up) (hdown : 0 < down)
    (h : down ≤ streak false history) : ¬On up down history := by
  rintro ⟨i, ⟨hup', -⟩, hnone⟩
  have hi : i ≤ history.length := hup'.1
  rcases Nat.lt_or_eq_of_le hi with hlt | rfl
  · exact hnone history.length hlt (completes_length.mpr h)
  · have htrue : up ≤ streak true history := completes_length.mp hup'
    have hzero : streak true history = 0 := streak_true_eq_zero (by omega)
    omega

/-- A sign that completes neither run leaves the switch where it is. -/
theorem on_concat {next : Bool} (htrue : streak true (history ++ [next]) < up)
    (hfalse : streak false (history ++ [next]) < down) :
    On up down (history ++ [next]) ↔ On up down history := by
  simp only [On, completes_concat htrue, completes_concat hfalse]

end Harmost.Support
