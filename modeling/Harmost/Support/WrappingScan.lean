import Mathlib.Data.Fintype.EquivFin

/-!
# Scans from a wrapping offset

A ring of `n` positions is scanned with a counter that wraps at `word`: step
`s` visits `(offset + s) % word % n`.  The scan is complete when the counter
does not wrap on the way, or when `n` divides `word`.  Otherwise two of its `n`
steps, one before and one after the wrap, visit the same position.
-/

namespace Harmost.Support

/-- The position that a step of the scan visits. -/
def wrappingVisit (offset n word step : ℕ) : ℕ :=
  (offset + step) % word % n

variable {offset n word : ℕ}

theorem wrappingVisit_of_lt {step : ℕ} (hlt : offset + step < word) :
    wrappingVisit offset n word step = (offset + step) % n := by
  rw [wrappingVisit, Nat.mod_eq_of_lt hlt]

theorem wrappingVisit_of_le {step : ℕ} (hle : word ≤ offset + step)
    (hlt : offset + step - word < word) (hn : offset + step - word < n) :
    wrappingVisit offset n word step = offset + step - word := by
  rw [wrappingVisit, Nat.mod_eq_sub_mod hle, Nat.mod_eq_of_lt hlt,
    Nat.mod_eq_of_lt hn]

/-- The residues just below the range of the counter. -/
theorem mod_sub_of_lt {k : ℕ} (hk : k < word % n) :
    (word - 1 - k) % n = word % n - 1 - k := by
  have hdiv := Nat.div_add_mod word n
  have hsplit : word - 1 - k = n * (word / n) + (word % n - 1 - k) := by
    omega
  rw [hsplit, Nat.mul_add_mod]
  rcases Nat.eq_zero_or_pos n with rfl | hn
  · simp
  · have hlt := Nat.mod_lt word hn
    exact Nat.mod_eq_of_lt (by omega)

/-- A scan that wraps at a range `n` does not divide visits some position
twice. -/
theorem exists_visited_twice (hoffset : offset < word)
    (hwrap : word < offset + n) (hndvd : ¬n ∣ word) :
    ∃ first second, first < second ∧ second < n ∧
      wrappingVisit offset n word first =
        wrappingVisit offset n word second := by
  have hn : 0 < n := by omega
  have hr : 0 < word % n := Nat.pos_of_ne_zero
    fun hzero => hndvd (Nat.dvd_of_mod_eq_zero hzero)
  have hrlt : word % n < n := Nat.mod_lt _ hn
  have hrle : word % n ≤ word := Nat.mod_le _ _
  by_cases hshort : word % n - 1 < n - (word - offset)
  · -- The last step before the wrap is met again at its residue.
    refine ⟨word - offset - 1, word - offset + (word % n - 1), by omega,
      by omega, ?_⟩
    rw [wrappingVisit_of_lt (by omega), wrappingVisit_of_le (by omega)
      (by omega) (by omega)]
    have hlast : offset + (word - offset - 1) = word - 1 - 0 := by omega
    rw [hlast, mod_sub_of_lt hr]
    omega
  · -- The scan ends before it gets that far, at an earlier residue.
    have hk : word % n - (n - (word - offset)) < word % n := by omega
    refine ⟨word - offset - 1 - (word % n - (n - (word - offset))), n - 1,
      by omega, by omega, ?_⟩
    rw [wrappingVisit_of_lt (by omega), wrappingVisit_of_le (by omega)
      (by omega) (by omega)]
    have hlast : offset +
        (word - offset - 1 - (word % n - (n - (word - offset)))) =
          word - 1 - (word % n - (n - (word - offset))) := by omega
    rw [hlast, mod_sub_of_lt hk]
    omega

/-- Some step reaches a position, modulo `n`. -/
theorem exists_step_mod (offset : ℕ) {p : ℕ} (hp : p < n) :
    ∃ step < n, (offset + step) % n = p := by
  have hn : 0 < n := by omega
  refine ⟨(p + (n - offset % n)) % n, Nat.mod_lt _ hn, ?_⟩
  have hdiv := Nat.div_add_mod offset n
  have hlt := Nat.mod_lt offset hn
  have hsum : offset + (p + (n - offset % n)) = p + n * (offset / n + 1) := by
    rw [Nat.mul_add, Nat.mul_one]
    omega
  rw [Nat.add_mod_mod, hsum, Nat.add_mul_mod_self_left, Nat.mod_eq_of_lt hp]

/-- The scan visits every position exactly when the counter does not wrap on
the way or `n` divides its range. -/
theorem wrappingVisit_covers_iff (hoffset : offset < word) :
    (∀ p < n, ∃ step < n, wrappingVisit offset n word step = p) ↔
      offset + n ≤ word ∨ n ∣ word := by
  constructor
  · intro hcovers
    by_contra hwraps
    obtain ⟨hwrap, hndvd⟩ := not_or.mp hwraps
    obtain ⟨first, second, hlt, hsecond, hsame⟩ :=
      exists_visited_twice hoffset (not_le.mp hwrap) hndvd
    have hn : 0 < n := by omega
    let visit : Fin n → Fin n := fun step =>
      ⟨wrappingVisit offset n word step, Nat.mod_lt _ hn⟩
    have hsurjective : Function.Surjective visit := by
      intro p
      obtain ⟨step, hstep, hp⟩ := hcovers p p.isLt
      exact ⟨⟨step, hstep⟩, Fin.ext hp⟩
    have hinjective := Finite.injective_iff_surjective.mpr hsurjective
    have hindex : (⟨first, hlt.trans hsecond⟩ : Fin n) = ⟨second, hsecond⟩ :=
      hinjective (Fin.ext hsame)
    exact hlt.ne (congrArg Fin.val hindex)
  · intro hfits p hp
    obtain ⟨step, hstep, hmod⟩ := exists_step_mod offset hp
    refine ⟨step, hstep, ?_⟩
    rcases hfits with hroom | hdvd
    · rw [wrappingVisit_of_lt (by omega), hmod]
    · rw [wrappingVisit, Nat.mod_mod_of_dvd _ hdvd, hmod]

end Harmost.Support
