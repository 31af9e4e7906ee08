import Harmost.Config.Schema
import Mathlib.Algebra.BigOperators.Group.Finset.Basic
import Mathlib.Data.Fintype.Basic

/-!
# A ratio over a sliding window

A ring of ten buckets, each with the counters of one slice of time, its epoch.
A slot is cleared as it comes to be used for a new epoch, and a bucket whose
epoch has left the window is not counted any more.
-/

namespace Harmost.Upstream

open Harmost.Config

abbrev BUCKETS : ℕ := 10

/-- `fetch_add` of one on a 32-bit counter. -/
def fetchAdd (n : ℕ) : ℕ :=
  (n + 1) % 2 ^ 32

theorem fetchAdd_of_lt {n : ℕ} (h : n + 1 < 2 ^ 32) : fetchAdd n = n + 1 :=
  Nat.mod_eq_of_lt h

structure Bucket where
  epoch : ℕ := 0
  total : ℕ := 0
  flagged : ℕ := 0

/-- The epoch of a used bucket falls on its slot of the ring. -/
def Bucket.Fits (bucket : Bucket) (slot : Fin BUCKETS) : Prop :=
  bucket.epoch % BUCKETS = slot ∨ bucket.total = 0 ∧ bucket.flagged = 0

/-- Is the bucket one of the ten that end at this epoch? -/
def Bucket.InWindow (bucket : Bucket) (epoch : ℕ) : Prop :=
  epoch - (BUCKETS - 1) ≤ bucket.epoch ∧ bucket.epoch ≤ epoch

instance (bucket : Bucket) (epoch : ℕ) : Decidable (bucket.InWindow epoch) :=
  inferInstanceAs (Decidable (_ ∧ _))

structure RollingRatio where
  bucketMs : ℕ
  buckets : Fin BUCKETS → Bucket
  bucketMs_pos : 0 < bucketMs
  fits : ∀ slot, (buckets slot).Fits slot

namespace RollingRatio

def new (window : Duration) : RollingRatio where
  bucketMs := max (millis window / BUCKETS) 1
  buckets := fun _ => {}
  bucketMs_pos := lt_max_of_lt_right Nat.one_pos
  fits := fun _ => .inr ⟨rfl, rfl⟩

variable (w : RollingRatio)

def epochOf (nowMs : ℕ) : ℕ :=
  nowMs / w.bucketMs

def slot (epoch : ℕ) : Fin BUCKETS :=
  Fin.ofNat BUCKETS epoch

/-- The bucket for an epoch, cleared first if it still holds an older slice.
The clearing happens under the lock of the slot, and no counter of the slot is
read or written in the new epoch before it. -/
def current (epoch : ℕ) : Bucket :=
  if (w.buckets (slot epoch)).epoch ≠ epoch then { epoch }
  else w.buckets (slot epoch)

/-- Change the counters of the bucket for an epoch. -/
def count (epoch : ℕ) (onTotal onFlagged : ℕ → ℕ) : RollingRatio where
  bucketMs := w.bucketMs
  buckets := Function.update w.buckets (slot epoch)
    ⟨epoch, onTotal (w.current epoch).total,
      onFlagged (w.current epoch).flagged⟩
  bucketMs_pos := w.bucketMs_pos
  fits := by
    intro k
    by_cases hk : k = slot epoch
    · subst hk
      rw [Function.update_self]
      exact .inl rfl
    · rw [Function.update_of_ne hk]
      exact w.fits k

/-- Count one event, and whether it was of the flagged kind. -/
def record (nowMs : ℕ) (flagged : Bool) : RollingRatio :=
  w.count (w.epochOf nowMs) fetchAdd (if flagged then fetchAdd else id)

/-- `(total, flagged)` of the ten epochs that end at this one. -/
def totalsAt (epoch : ℕ) : ℕ × ℕ :=
  (∑ k, if (w.buckets k).InWindow epoch then (w.buckets k).total else 0,
    ∑ k, if (w.buckets k).InWindow epoch then (w.buckets k).flagged else 0)

/-- `(total, flagged)` still inside the window. -/
def totals (nowMs : ℕ) : ℕ × ℕ :=
  w.totalsAt (w.epochOf nowMs)

/-- The increment of `flag`. -/
def mark (nowMs : ℕ) : RollingRatio :=
  w.count (w.epochOf nowMs) id fetchAdd

/-- Flag an event that was already counted, and read how many of the window
are flagged with it. -/
def flag (nowMs : ℕ) : RollingRatio × ℕ :=
  (w.mark nowMs, ((w.mark nowMs).totals nowMs).2)

/-- Give back a `flag` that was not used. -/
def unflag (nowMs : ℕ) : RollingRatio :=
  w.count (w.epochOf nowMs) id (· - 1)

/-- Forget everything. -/
def reset : RollingRatio where
  bucketMs := w.bucketMs
  buckets := fun _ => {}
  bucketMs_pos := w.bucketMs_pos
  fits := fun _ => .inr ⟨rfl, rfl⟩

/-! ## What is in the window -/

variable {w}

/-- A stale bucket of the slot of an epoch is no longer in the window. -/
theorem flagged_slot (epoch : ℕ) :
    (if (w.buckets (slot epoch)).InWindow epoch then
      (w.buckets (slot epoch)).flagged else 0) =
        (w.current epoch).flagged := by
  by_cases heq : (w.buckets (slot epoch)).epoch = epoch
  · have hin : (w.buckets (slot epoch)).InWindow epoch :=
      ⟨heq.symm ▸ Nat.sub_le _ _, heq.le⟩
    rw [if_pos hin, current, if_neg (not_not.mpr heq)]
  · rw [current, if_pos heq]
    split
    · rename_i hin
      rcases w.fits (slot epoch) with hfits | hzero
      · have hslot : (slot epoch : ℕ) = epoch % BUCKETS := rfl
        simp only [Bucket.InWindow, BUCKETS] at hin hfits hslot
        omega
      · exact hzero.2
    · rfl

theorem sum_update (f : Bucket → ℕ) (buckets : Fin BUCKETS → Bucket)
    (slot : Fin BUCKETS) (bucket : Bucket) :
    ∑ k, f (Function.update buckets slot bucket k) + f (buckets slot) =
      ∑ k, f (buckets k) + f bucket := by
  have hrest : ∑ k ∈ Finset.univ.erase slot,
      f (Function.update buckets slot bucket k) =
        ∑ k ∈ Finset.univ.erase slot, f (buckets k) := by
    refine Finset.sum_congr rfl fun k hk => ?_
    rw [Function.update_of_ne (Finset.ne_of_mem_erase hk)]
  rw [← Finset.add_sum_erase _ _ (Finset.mem_univ slot), hrest,
    ← Finset.add_sum_erase _ (fun k => f (buckets k)) (Finset.mem_univ slot),
    Function.update_self]
  omega

/-- Changing the counters of an epoch moves what is flagged by the
difference. -/
theorem flagged_count (epoch : ℕ) (onTotal onFlagged : ℕ → ℕ) :
    ((w.count epoch onTotal onFlagged).totalsAt epoch).2 +
        (w.current epoch).flagged =
      (w.totalsAt epoch).2 + onFlagged (w.current epoch).flagged := by
  have hsum := sum_update
    (fun b => if b.InWindow epoch then b.flagged else 0) w.buckets (slot epoch)
    ⟨epoch, onTotal (w.current epoch).total,
      onFlagged (w.current epoch).flagged⟩
  have hin : Bucket.InWindow ⟨epoch, onTotal (w.current epoch).total,
      onFlagged (w.current epoch).flagged⟩ epoch :=
    ⟨Nat.sub_le _ _, le_rfl⟩
  rwa [flagged_slot, if_pos hin] at hsum

theorem epochOf_count (epoch : ℕ) (onTotal onFlagged : ℕ → ℕ) (nowMs : ℕ) :
    (w.count epoch onTotal onFlagged).epochOf nowMs = w.epochOf nowMs :=
  rfl

@[simp] theorem current_count (epoch : ℕ) (onTotal onFlagged : ℕ → ℕ) :
    (w.count epoch onTotal onFlagged).current epoch =
      ⟨epoch, onTotal (w.current epoch).total,
        onFlagged (w.current epoch).flagged⟩ := by
  have hslot : (w.count epoch onTotal onFlagged).buckets (slot epoch) =
      ⟨epoch, onTotal (w.current epoch).total,
        onFlagged (w.current epoch).flagged⟩ :=
    Function.update_self _ _ _
  rw [current, hslot, if_neg (not_not.mpr rfl)]

section Epoch

variable {nowMs epoch : ℕ} (hepoch : w.epochOf nowMs = epoch)

include hepoch

/-- An event of the other kind leaves what is flagged as it is. -/
theorem flagged_record :
    ((w.record nowMs false).totalsAt epoch).2 = (w.totalsAt epoch).2 ∧
      ((w.record nowMs false).current epoch).flagged =
        (w.current epoch).flagged := by
  subst hepoch
  constructor
  · exact Nat.add_right_cancel (flagged_count _ fetchAdd id)
  · rw [record, current_count]
    rfl

theorem flagged_mark (hroom : (w.current epoch).flagged + 1 < 2 ^ 32) :
    ((w.mark nowMs).totalsAt epoch).2 = (w.totalsAt epoch).2 + 1 ∧
      ((w.mark nowMs).current epoch).flagged =
        (w.current epoch).flagged + 1 := by
  subst hepoch
  have hcount := flagged_count (w := w) (w.epochOf nowMs) id fetchAdd
  rw [fetchAdd_of_lt hroom] at hcount
  rw [mark, current_count]
  exact ⟨by omega, fetchAdd_of_lt hroom⟩

theorem flagged_unflag (hflagged : 0 < (w.current epoch).flagged) :
    ((w.unflag nowMs).totalsAt epoch).2 + 1 = (w.totalsAt epoch).2 ∧
      ((w.unflag nowMs).current epoch).flagged + 1 =
        (w.current epoch).flagged := by
  subst hepoch
  have hcount := flagged_count (w := w) (w.epochOf nowMs) id (· - 1)
  rw [unflag, current_count]
  dsimp only at hcount ⊢
  omega

end Epoch

end RollingRatio

end Harmost.Upstream
