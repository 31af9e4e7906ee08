import Harmost.Support.CountBy
import Harmost.Upstream.Window
import Mathlib.Algebra.BigOperators.Group.Finset.Sigma
import Mathlib.Order.Interval.Finset.Nat

/-!
# What the ring counts

The ring has ten slots for all epochs.  As long as times do not decrease, it
counts what a table with one counter for each epoch would: of the last ten
epochs it has every event, and a slot that holds an older epoch is as good as
empty.
-/

namespace Harmost.Upstream

open Harmost.Support

/-- How many of the times are of each epoch. -/
def perEpoch (bucketMs : ℕ) (times : List ℕ) : ℕ → ℕ :=
  countBy (· / bucketMs) times

/-- Counting epoch by epoch is counting what lies in the window. -/
theorem sum_perEpoch (bucketMs : ℕ) (times : List ℕ) (epoch : ℕ) :
    ∑ e ∈ Finset.Icc (epoch - (BUCKETS - 1)) epoch, perEpoch bucketMs times e =
      times.countP fun t =>
        epoch - (BUCKETS - 1) ≤ t / bucketMs ∧ t / bucketMs ≤ epoch := by
  refine (sum_countBy (· / bucketMs) _ times).trans ?_
  refine List.countP_congr fun t _ => ?_
  rw [decide_eq_true_iff, decide_eq_true_iff, Finset.mem_Icc]

namespace RollingRatio

/-- The ring has so many events of each of the ten epochs that end at `last`,
and nothing later. -/
structure Counts (w : RollingRatio) (last : ℕ) (total flagged : ℕ → ℕ) :
    Prop where
  current_eq : ∀ epoch, last < epoch + BUCKETS →
    w.current epoch = ⟨epoch, total epoch, flagged epoch⟩
  later : ∀ epoch, last < epoch → total epoch = 0 ∧ flagged epoch = 0

variable {w : RollingRatio} {last : ℕ} {total flagged : ℕ → ℕ}

/-! ## Slots -/

theorem slot_eq_iff {epoch epoch' : ℕ} :
    slot epoch = slot epoch' ↔ epoch % BUCKETS = epoch' % BUCKETS :=
  Fin.ext_iff

theorem current_count_of_ne {epoch epoch' : ℕ}
    (hslot : slot epoch' ≠ slot epoch) (onTotal onFlagged : ℕ → ℕ) :
    (w.count epoch onTotal onFlagged).current epoch' = w.current epoch' := by
  have hbucket : (w.count epoch onTotal onFlagged).buckets (slot epoch') =
      w.buckets (slot epoch') :=
    Function.update_of_ne hslot _ _
  rw [current, current, hbucket]

/-- The slot of an epoch has been taken by another one. -/
theorem current_count_of_taken {epoch epoch' : ℕ}
    (hslot : slot epoch' = slot epoch) (hne : epoch ≠ epoch')
    (onTotal onFlagged : ℕ → ℕ) :
    (w.count epoch onTotal onFlagged).current epoch' = ⟨epoch', 0, 0⟩ := by
  have hbucket : ((w.count epoch onTotal onFlagged).buckets
      (slot epoch')).epoch = epoch := by
    rw [hslot]
    simp only [count, Function.update_self]
  rw [current, hbucket, if_pos hne]

/-! ## Operations -/

theorem counts_of_empty (hempty : ∀ k, w.buckets k = {}) (last : ℕ) :
    w.Counts last (fun _ => 0) (fun _ => 0) where
  current_eq := by
    intro epoch _
    rw [current, hempty]
    split_ifs with hepoch
    · rfl
    · rw [← not_not.mp hepoch]
  later := fun _ _ => ⟨rfl, rfl⟩

theorem Counts.mono (h : w.Counts last total flagged) {last' : ℕ}
    (hle : last ≤ last') : w.Counts last' total flagged where
  current_eq := fun epoch hepoch =>
    h.current_eq epoch (hle.trans_lt hepoch)
  later := fun epoch hepoch => h.later epoch (hle.trans_lt hepoch)

/-- A change of the counters of an epoch that is not before the last one. -/
theorem Counts.count (h : w.Counts last total flagged) {epoch : ℕ}
    (hle : last ≤ epoch) (onTotal onFlagged : ℕ → ℕ) :
    (w.count epoch onTotal onFlagged).Counts epoch
      (Function.update total epoch (onTotal (total epoch)))
      (Function.update flagged epoch (onFlagged (flagged epoch))) where
  current_eq := by
    intro epoch' hrecent
    have hhere := h.current_eq epoch (Nat.lt_of_le_of_lt hle (by simp))
    by_cases heq : epoch' = epoch
    · subst heq
      rw [current_count, hhere, Function.update_self, Function.update_self]
    · rw [Function.update_of_ne heq, Function.update_of_ne heq]
      by_cases hslot : slot epoch' = slot epoch
      · -- A recent epoch with the same slot is still to come.
        have hlater : last < epoch' := by
          rw [slot_eq_iff] at hslot
          simp only [BUCKETS] at hslot hrecent
          omega
        rw [current_count_of_taken hslot (Ne.symm heq),
          (h.later epoch' hlater).1, (h.later epoch' hlater).2]
      · rw [current_count_of_ne hslot]
        exact h.current_eq epoch' (hle.trans_lt hrecent)
  later := by
    intro epoch' hepoch'
    rw [Function.update_of_ne hepoch'.ne', Function.update_of_ne hepoch'.ne']
    exact h.later epoch' (hle.trans_lt hepoch')

/-! ## Totals -/

/-- One counter, summed over the slots in the window and over the epochs of
the window. -/
theorem sum_inWindow (f : Bucket → ℕ) (hf : ∀ epoch, f ⟨epoch, 0, 0⟩ = 0)
    (epoch : ℕ) :
    (∑ k, if (w.buckets k).InWindow epoch then f (w.buckets k) else 0) =
      ∑ e ∈ Finset.Icc (epoch - (BUCKETS - 1)) epoch, f (w.current e) := by
  have hcurrent : ∀ e, f (w.current e) =
      ∑ k, if slot e = k then
        (if (w.buckets k).epoch = e then f (w.buckets k) else 0) else 0 := by
    intro e
    rw [Finset.sum_ite_eq, if_pos (Finset.mem_univ _), current]
    by_cases hepoch : (w.buckets (slot e)).epoch = e
    · rw [if_neg (not_not.mpr hepoch), if_pos hepoch]
    · rw [if_pos hepoch, if_neg hepoch]
      exact hf e
  rw [Finset.sum_congr rfl fun e _ => hcurrent e, Finset.sum_comm]
  refine Finset.sum_congr rfl fun k _ => ?_
  have hswap : ∀ e, (if slot e = k then
      (if (w.buckets k).epoch = e then f (w.buckets k) else 0) else 0) =
        if (w.buckets k).epoch = e then
          (if slot e = k then f (w.buckets k) else 0) else 0 := by
    intro e
    split_ifs <;> rfl
  rw [Finset.sum_congr rfl fun e _ => hswap e, Finset.sum_ite_eq]
  rcases w.fits k with hfits | ⟨htotal, hflagged⟩
  · have hslot : slot (w.buckets k).epoch = k := Fin.ext hfits
    rw [if_pos hslot]
    exact if_congr Finset.mem_Icc.symm rfl rfl
  · have hzero : f (w.buckets k) = 0 := by
      generalize w.buckets k = bucket at htotal hflagged ⊢
      obtain ⟨bucketEpoch, total, flagged⟩ := bucket
      obtain rfl : total = 0 := htotal
      obtain rfl : flagged = 0 := hflagged
      exact hf bucketEpoch
    simp only [hzero, ite_self]

theorem Counts.totalsAt (h : w.Counts last total flagged) {epoch : ℕ}
    (hle : last ≤ epoch) :
    w.totalsAt epoch =
      (∑ e ∈ Finset.Icc (epoch - (BUCKETS - 1)) epoch, total e,
        ∑ e ∈ Finset.Icc (epoch - (BUCKETS - 1)) epoch, flagged e) := by
  have hcurrent : ∀ e ∈ Finset.Icc (epoch - (BUCKETS - 1)) epoch,
      w.current e = ⟨e, total e, flagged e⟩ := by
    intro e he
    have hlow := (Finset.mem_Icc.mp he).1
    refine h.current_eq e ?_
    simp only [BUCKETS] at hlow ⊢
    omega
  rw [RollingRatio.totalsAt, sum_inWindow Bucket.total fun _ => rfl,
    sum_inWindow Bucket.flagged fun _ => rfl,
    Finset.sum_congr rfl fun e he => congrArg Bucket.total (hcurrent e he),
    Finset.sum_congr rfl fun e he => congrArg Bucket.flagged (hcurrent e he)]

end RollingRatio

end Harmost.Upstream
