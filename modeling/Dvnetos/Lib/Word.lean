import Mathlib.Data.Int.ModEq
import Mathlib.Tactic.NormNum
import Mathlib.Tactic.Ring
import Mathlib.Tactic.Tauto

/-!
# Machine integers

The fixed-width integers of the C++ data model on 64-bit targets, as numbers
with explicit wrap-around: `int` is 32 bits wide and signed, `size_t` and
`uint64_t` are 64 bits wide and unsigned. An `int` compared with a `size_t` is
first converted to `size_t`.
-/

namespace Word

/-- The value an `int` holds after a computation with this mathematical result. -/
def int32 (value : ℤ) : ℤ := value.bmod (2 ^ 32)

/-- Conversion of an `int` to `size_t`. -/
def sizeT (value : ℤ) : ℕ := (value % 2 ^ 64).toNat

/-- Addition of `size_t` values. -/
def add64 (left right : ℕ) : ℕ := (left + right) % 2 ^ 64

/-- Subtraction of `size_t` values. -/
def sub64 (left right : ℕ) : ℕ := (left + (2 ^ 64 - right % 2 ^ 64)) % 2 ^ 64

/-- Multiplication of `size_t` values. -/
def mul64 (left right : ℕ) : ℕ := (left * right) % 2 ^ 64

theorem int32_of_fits {value : ℤ} (lower : -2 ^ 31 ≤ value) (upper : value < 2 ^ 31) :
    int32 value = value := by
  simp only [int32]
  rw [Int.bmod_def]
  omega

/-- Counting on from a natural number. -/
theorem int32_succ {count : ℕ} (fits : count + 1 < 2 ^ 31) :
    int32 ((count : ℤ) + 1) = (count + 1 : ℕ) := by
  rw [int32_of_fits (by omega) (by omega)]
  push_cast
  rfl

theorem sizeT_natCast {count : ℕ} (fits : count < 2 ^ 64) : sizeT count = count := by
  rw [sizeT]
  omega

theorem int32_lower (value : ℤ) : -2 ^ 31 ≤ int32 value := by
  simp only [int32]
  rw [Int.bmod_def]
  omega

theorem int32_upper (value : ℤ) : int32 value < 2 ^ 31 := by
  simp only [int32]
  rw [Int.bmod_def]
  omega

@[simp]
theorem int32_int32_add (left right : ℤ) : int32 (int32 left + right) = int32 (left + right) := by
  simp only [int32]
  exact Int.bmod_add_bmod

@[simp]
theorem int32_add_int32 (left right : ℤ) : int32 (left + int32 right) = int32 (left + right) := by
  simp only [int32]
  exact Int.add_bmod_bmod

@[simp]
theorem int32_int32 (value : ℤ) : int32 (int32 value) = int32 value := by
  simp only [int32]
  exact Int.bmod_bmod

theorem add64_of_lt {left right : ℕ} (fits : left + right < 2 ^ 64) :
    add64 left right = left + right :=
  Nat.mod_eq_of_lt fits

theorem sub64_of_le {left right : ℕ} (fits : left < 2 ^ 64) (le : right ≤ left) :
    sub64 left right = left - right := by
  simp only [sub64]
  omega

theorem mul64_of_lt {left right : ℕ} (fits : left * right < 2 ^ 64) :
    mul64 left right = left * right :=
  Nat.mod_eq_of_lt fits

theorem add64_lt (left right : ℕ) : add64 left right < 2 ^ 64 :=
  Nat.mod_lt _ (by norm_num)

theorem sub64_lt (left right : ℕ) : sub64 left right < 2 ^ 64 :=
  Nat.mod_lt _ (by norm_num)

end Word
