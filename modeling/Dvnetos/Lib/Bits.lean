import Mathlib.Algebra.Group.Nat.Defs
import Mathlib.Tactic.Common

/-!
# Masks

Facts about words that are put together from fields by `&&&` and `|||`.
-/

namespace Bits

variable {width : ℕ} {word mask bits : BitVec width}

theorem and_eq_zero_of_within (clear : word &&& mask = BitVec.ofNat width 0)
    (within : mask &&& bits = bits) :
    word &&& bits = BitVec.ofNat width 0 := by
  rw [← within, ← BitVec.and_assoc, clear, BitVec.zero_and]

theorem and_or_and_not (word mask : BitVec width) :
    (word &&& mask) ||| (word &&& ~~~mask) = word := by
  rw [← BitVec.and_or_distrib_left, BitVec.or_not_self, BitVec.and_allOnes]

theorem and_not_eq_self (clear : word &&& mask = BitVec.ofNat width 0) :
    word &&& ~~~mask = word := by
  have both := and_or_and_not word mask
  rwa [clear, BitVec.zero_or] at both

theorem or_and_of_clear (clear : word &&& mask = BitVec.ofNat width 0) (bits : BitVec width) :
    (word ||| bits) &&& mask = bits &&& mask := by
  rw [BitVec.and_or_distrib_right, clear, BitVec.zero_or]

/-- Bits that a mask clears do not show under it. -/
theorem or_and_of_added_clear (word : BitVec width) (clear : bits &&& mask = BitVec.ofNat width 0) :
    (word ||| bits) &&& mask = word &&& mask := by
  rw [BitVec.and_or_distrib_right, clear, BitVec.or_zero]

theorem and_single_of_ne_zero {bit : BitVec width} {place : ℕ}
    (single : bit = BitVec.twoPow width place) (set : word &&& bit ≠ BitVec.ofNat width 0) :
    word &&& bit = bit := by
  rw [single, BitVec.and_twoPow] at set ⊢
  split_ifs at set ⊢ with isSet
  · rfl
  · exact absurd rfl set

theorem and_not_eq_self_iff :
    word &&& ~~~mask = word ↔ word &&& mask = BitVec.ofNat width 0 := by
  constructor
  · intro same
    calc word &&& mask = word &&& (~~~mask &&& mask) := by rw [← BitVec.and_assoc, same]
      _ = BitVec.ofNat width 0 := by simp
  · exact and_not_eq_self

theorem toNat_ushiftRight_and (word : BitVec width) (shift : ℕ) {size : ℕ}
    (fits : size ≤ width) :
    (word >>> shift &&& BitVec.ofNat width (2 ^ size - 1)).toNat =
      word.toNat / 2 ^ shift % 2 ^ size := by
  have small : 2 ^ size - 1 < 2 ^ width := by
    have := Nat.pow_le_pow_right (n := 2) (by decide) fits
    have := Nat.two_pow_pos size
    omega
  rw [BitVec.toNat_and, BitVec.toNat_ushiftRight, BitVec.toNat_ofNat, Nat.mod_eq_of_lt small,
    Nat.shiftRight_eq_div_pow, Nat.and_two_pow_sub_one_eq_mod]

theorem toNat_and_low (word : BitVec width) {size : ℕ} (fits : size ≤ width) :
    (word &&& BitVec.ofNat width (2 ^ size - 1)).toNat = word.toNat % 2 ^ size := by
  simpa using toNat_ushiftRight_and word 0 fits

theorem toNat_and_not_low (word : BitVec width) {size : ℕ} (fits : size ≤ width) :
    (word &&& ~~~BitVec.ofNat width (2 ^ size - 1)).toNat = word.toNat / 2 ^ size * 2 ^ size := by
  have low := toNat_and_low word fits
  generalize BitVec.ofNat width (2 ^ size - 1) = mask at low ⊢
  have apart : (word &&& mask) &&& (word &&& ~~~mask) = BitVec.ofNat width 0 := by
    ext place inside
    simp only [BitVec.getElem_and, BitVec.getElem_not, BitVec.getElem_zero]
    cases word[place] <;> cases mask[place] <;> rfl
  have sum := BitVec.toNat_add_of_and_eq_zero apart
  rw [BitVec.add_eq_or_of_and_eq_zero _ _ apart, and_or_and_not, low] at sum
  have parts := Nat.mod_add_div' word.toNat (2 ^ size)
  omega

end Bits
