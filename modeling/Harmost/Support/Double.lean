import Mathlib.Algebra.Order.Ring.Nat

/-!
# Whole numbers as doubles

A double has 53 bits for the digits of a number.  A whole number that needs
more is rounded to one that does not, of two that are equally near to the one
whose last bit is zero; and from about `2 ^ 1024` on there is only infinity.
-/

namespace Harmost.Support

/-- How far apart the doubles around a number are. -/
def spacing (n : ℕ) : ℕ :=
  2 ^ (n.log2 - 52)

/-- A whole number in units of `gap`, rounded. -/
def roundTo (gap n : ℕ) : ℕ :=
  if gap < 2 * (n % gap) ∨ gap = 2 * (n % gap) ∧ n / gap % 2 = 1 then
    n / gap + 1
  else n / gap

/-- No double but infinity is as large as this. -/
@[irreducible] def doubleBound : ℕ :=
  2 ^ 1024

/-- The double nearest to a whole number, unless that is infinity. -/
def toDouble (n : ℕ) : Option ℕ :=
  let rounded := roundTo (spacing n) n * spacing n
  if rounded < doubleBound then some rounded else none

example : toDouble 9007199254740993 = some 9007199254740992 := by
  decide +kernel

theorem toDouble_of_dvd {n : ℕ} (hdvd : spacing n ∣ n) (hlt : n < doubleBound) :
    toDouble n = some n := by
  have hpos : 0 < spacing n := Nat.two_pow_pos _
  have hround : roundTo (spacing n) n = n / spacing n := by
    rw [roundTo, Nat.mod_eq_zero_of_dvd hdvd, if_neg (by omega)]
  simp only [toDouble, hround, Nat.div_mul_cancel hdvd, if_pos hlt]

theorem roundTo_spacing_le (n : ℕ) : roundTo (spacing n) n ≤ 2 ^ 53 := by
  have hunits : n / spacing n < 2 ^ 53 := by
    have hpos : 0 < spacing n := Nat.two_pow_pos _
    rw [Nat.div_lt_iff_lt_mul hpos, spacing, ← Nat.pow_add]
    exact Nat.lt_of_lt_of_le Nat.lt_log2_self
      (Nat.pow_le_pow_right Nat.two_pos (by omega))
  unfold roundTo
  split_ifs
  · exact hunits
  · exact hunits.le

/-- A double is rounded to itself. -/
theorem toDouble_eq_some {n m : ℕ} (h : toDouble n = some m) :
    toDouble m = some m := by
  simp only [toDouble] at h
  split_ifs at h with hlt
  cases h
  refine toDouble_of_dvd ?_ hlt
  generalize hunits : roundTo (spacing n) n = units
  have hle : units ≤ 2 ^ 53 := hunits ▸ roundTo_spacing_le n
  generalize hshift : n.log2 - 52 = shift
  have hgap : spacing n = 2 ^ shift := by rw [spacing, hshift]
  rw [hgap]
  rcases Nat.lt_or_eq_of_le hle with hless | rfl
  · -- There are as many bits as before, or fewer.
    have hlog : (units * 2 ^ shift).log2 - 52 ≤ shift := by
      by_cases hzero : units * 2 ^ shift = 0
      · simp [hzero]
      · have hbits : (units * 2 ^ shift).log2 < 53 + shift := by
          rw [Nat.log2_lt hzero, Nat.pow_add]
          exact Nat.mul_lt_mul_of_pos_right hless (Nat.two_pow_pos _)
        omega
    exact (Nat.pow_dvd_pow 2 hlog).trans (Nat.dvd_mul_left _ _)
  · rw [← Nat.pow_add, spacing, Nat.log2_two_pow]
    exact Nat.pow_dvd_pow 2 (by omega)

/-- A whole number that a double holds, or infinity. -/
@[ext]
structure Double where
  value : Option ℕ
  exact : ∀ n ∈ value, toDouble n = some n
  deriving DecidableEq

def Double.ofNat (n : ℕ) : Double where
  value := toDouble n
  exact := fun _ h => toDouble_eq_some h

theorem Double.value_ofNat (n : ℕ) : (Double.ofNat n).value = toDouble n :=
  rfl

/-- A number that is rounded to a double. -/
def Double.toNat (d : Double) : ℕ :=
  match d.value with
  | some n => n
  | none => doubleBound

theorem toDouble_doubleBound : toDouble doubleBound = none := by
  decide +kernel

theorem Double.ofNat_toNat (d : Double) : Double.ofNat d.toNat = d := by
  have hvalue : toDouble d.toNat = d.value := by
    unfold Double.toNat
    split
    · next n hn => rw [d.exact n hn, hn]
    · next hnone => rw [toDouble_doubleBound, hnone]
  exact Double.ext ((value_ofNat _).trans hvalue)

end Harmost.Support
