import Mathlib.Data.List.Basic

/-!
# The bits of bytes

Bytes as a string of bits, the highest bit of each byte first.  A prefix of the
bits is a prefix of the bytes and the high bits of one byte more, and those are
what a mask of leading ones leaves.
-/

namespace Harmost.Support

def bitsOf (byte : UInt8) : List Bool :=
  (List.range 8).map byte.toBitVec.getMsbD

def bits (bytes : List UInt8) : List Bool :=
  bytes.flatMap bitsOf

/-! ## One byte -/

@[simp] theorem length_bitsOf (byte : UInt8) : (bitsOf byte).length = 8 :=
  rfl

theorem take_bitsOf_eq_iff {n : ℕ} (hn : n ≤ 8) {a b : UInt8} :
    (bitsOf a).take n = (bitsOf b).take n ↔
      ∀ i < n, a.toBitVec.getMsbD i = b.toBitVec.getMsbD i := by
  rw [bitsOf, bitsOf, ← List.map_take, ← List.map_take, List.take_range,
    Nat.min_eq_left hn, List.map_inj_left]
  simp only [List.mem_range]

theorem eq_iff_getMsbD {a b : UInt8} :
    a = b ↔ ∀ i < 8, a.toBitVec.getMsbD i = b.toBitVec.getMsbD i := by
  constructor
  · rintro rfl i _
    rfl
  · intro h
    exact UInt8.toBitVec_inj.mp (BitVec.eq_of_getMsbD_eq h)

theorem bitsOf_inj {a b : UInt8} : bitsOf a = bitsOf b ↔ a = b := by
  have htake := take_bitsOf_eq_iff (Nat.le_refl 8) (a := a) (b := b)
  rw [List.take_of_length_le (Nat.le_of_eq (length_bitsOf a)),
    List.take_of_length_le (Nat.le_of_eq (length_bitsOf b))] at htake
  exact htake.trans eq_iff_getMsbD.symm

/-- A byte of so many leading ones. -/
def leadingOnes (n : ℕ) : UInt8 :=
  0xff <<< UInt8.ofNat (8 - n)

theorem getMsbD_leadingOnes : ∀ n < 8, 0 < n → ∀ i < 8,
    (leadingOnes n).toBitVec.getMsbD i = decide (i < n) := by
  decide

theorem and_leadingOnes_eq_iff {n : ℕ} (hn : n < 8) (hpos : 0 < n)
    {a b : UInt8} :
    a &&& leadingOnes n = b &&& leadingOnes n ↔
      (bitsOf a).take n = (bitsOf b).take n := by
  rw [eq_iff_getMsbD, take_bitsOf_eq_iff (Nat.le_of_lt hn)]
  simp only [UInt8.toBitVec_and, BitVec.getMsbD_and]
  constructor
  · intro h i hi
    have hbit := h i (Nat.lt_trans hi hn)
    rw [getMsbD_leadingOnes n hn hpos i (Nat.lt_trans hi hn), decide_eq_true hi,
      Bool.and_true, Bool.and_true] at hbit
    exact hbit
  · intro h i hi
    rw [getMsbD_leadingOnes n hn hpos i hi]
    by_cases hin : i < n
    · rw [h i hin]
    · rw [decide_eq_false hin, Bool.and_false, Bool.and_false]

/-! ## Several bytes -/

theorem bits_cons (byte : UInt8) (bytes : List UInt8) :
    bits (byte :: bytes) = bitsOf byte ++ bits bytes :=
  rfl

theorem length_bits (bytes : List UInt8) :
    (bits bytes).length = 8 * bytes.length := by
  induction bytes with
  | nil => rfl
  | cons byte bytes ih =>
      rw [bits_cons, List.length_append, length_bitsOf, ih,
        List.length_cons, Nat.mul_succ, Nat.add_comm]

theorem bits_injective : Function.Injective bits := by
  intro a
  induction a with
  | nil =>
      intro b h
      have hlength := congrArg List.length h
      rw [length_bits, length_bits] at hlength
      exact (List.eq_nil_of_length_eq_zero
        (Nat.eq_of_mul_eq_mul_left (by decide) hlength).symm).symm
  | cons x a ih =>
      intro b h
      cases b with
      | nil => cases h
      | cons y b =>
          obtain ⟨hbyte, hbits⟩ := List.append_inj h rfl
          rw [bitsOf_inj.mp hbyte, ih hbits]

/-- Some whole bytes, and some bits after them. -/
theorem take_bits {bytes : List UInt8} {whole : ℕ}
    (hwhole : whole ≤ bytes.length) (leftover : ℕ) :
    (bits bytes).take (8 * whole + leftover) =
      bits (bytes.take whole) ++ (bits (bytes.drop whole)).take leftover := by
  have hsplit : bits bytes =
      bits (bytes.take whole) ++ bits (bytes.drop whole) := by
    rw [bits, bits, bits, ← List.flatMap_append, List.take_append_drop]
  have hlength : (bits (bytes.take whole)).length = 8 * whole := by
    rw [length_bits, List.length_take, Nat.min_eq_left hwhole]
  rw [hsplit, ← hlength, List.take_length_add_append]

theorem take_bits_eq_iff {a b : List UInt8} (hlength : a.length = b.length)
    {whole : ℕ} (hwhole : whole ≤ a.length) (leftover : ℕ) :
    (bits a).take (8 * whole + leftover) =
        (bits b).take (8 * whole + leftover) ↔
      a.take whole = b.take whole ∧
        (bits (a.drop whole)).take leftover =
          (bits (b.drop whole)).take leftover := by
  rw [take_bits hwhole, take_bits (hlength ▸ hwhole)]
  constructor
  · intro h
    have hbytes : (bits (a.take whole)).length =
        (bits (b.take whole)).length := by
      rw [length_bits, length_bits, List.length_take, List.length_take, hlength]
    obtain ⟨htake, hdrop⟩ := List.append_inj h hbytes
    exact ⟨bits_injective htake, hdrop⟩
  · rintro ⟨htake, hdrop⟩
    rw [htake, hdrop]

/-- The bits that lie in one byte. -/
theorem take_bits_drop {bytes : List UInt8} {whole : ℕ}
    (hwhole : whole < bytes.length) {leftover : ℕ} (hleftover : leftover ≤ 8) :
    (bits (bytes.drop whole)).take leftover =
      (bitsOf (bytes.getD whole 0)).take leftover := by
  rw [List.drop_eq_getElem_cons hwhole, bits_cons,
    List.take_append_of_le_length hleftover,
    List.getD_eq_getElem?_getD, List.getElem?_eq_getElem hwhole,
    Option.getD_some]

end Harmost.Support
