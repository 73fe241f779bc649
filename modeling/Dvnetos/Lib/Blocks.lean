import Mathlib.Tactic.Common

/-!
# Blocks of a range

A line of numbers is cut into blocks of one size. A range touches the blocks from that of its
first number to that of its last one.
-/

namespace Blocks

variable {block start size : ℕ}

/-- A number of the range lies in the block. -/
def Touched (block start size number : ℕ) : Prop :=
  ∃ place, start ≤ place ∧ place < start + size ∧ place / block = number

/-- The number of blocks that a range touches. -/
def count (block start size : ℕ) : ℕ := (start + size - 1) / block + 1 - start / block

theorem start_add_count (nonempty : 0 < size) :
    start / block + count block start size = (start + size - 1) / block + 1 := by
  have ordered : start / block ≤ (start + size - 1) / block := Nat.div_le_div_right (by omega)
  rw [count]
  omega

theorem touched_iff (positive : 0 < block) (nonempty : 0 < size) (number : ℕ) :
    Touched block start size number ↔
      start / block ≤ number ∧ number < start / block + count block start size := by
  rw [start_add_count nonempty, Nat.lt_succ_iff]
  constructor
  · rintro ⟨place, first, last, rfl⟩
    exact ⟨Nat.div_le_div_right first, Nat.div_le_div_right (by omega)⟩
  · rintro ⟨first, last⟩
    -- the first number of the block, or that of the range
    refine ⟨max start (number * block), Nat.le_max_left _ _, ?_, ?_⟩
    · have inside := (Nat.le_div_iff_mul_le positive).mp last
      omega
    · have next := Nat.lt_mul_of_div_lt (Nat.lt_succ_of_le first) positive
      have own : number * block < (number + 1) * block :=
        Nat.mul_lt_mul_of_pos_right (Nat.lt_succ_self _) positive
      exact Nat.div_eq_of_lt_le (Nat.le_max_right _ _) (Nat.max_lt.mpr ⟨next, own⟩)

/-- On a circle, a run of blocks is an unwrapped run exactly if it has the same length. -/
theorem run_eq_iff {circle first long short : ℕ} (fits : first + long ≤ circle)
    (atMost : short ≤ circle) :
    (∀ number, (∃ i < short, (first + i) % circle = number) ↔
        first ≤ number ∧ number < first + long) ↔ short = long := by
  constructor
  · intro same
    by_contra different
    rcases Nat.lt_or_gt_of_ne different with less | more
    · rcases (same (first + short)).mpr ⟨by omega, by omega⟩ with ⟨i, inside, meets⟩
      rw [Nat.mod_eq_of_lt (by omega)] at meets
      omega
    · have outside := (same ((first + long) % circle)).mp ⟨long, more, rfl⟩
      have wraps : (first + long) % circle ≤ first + long := Nat.mod_le _ _
      rcases Nat.lt_or_ge (first + long) circle with inside | exact
      · rw [Nat.mod_eq_of_lt inside] at outside
        omega
      · have full : first + long = circle := by omega
        rw [full, Nat.mod_self] at outside
        omega
  · rintro rfl number
    constructor
    · rintro ⟨i, inside, rfl⟩
      rw [Nat.mod_eq_of_lt (by omega)]
      omega
    · rintro ⟨start, stop⟩
      exact ⟨number - first, by omega, by rw [Nat.mod_eq_of_lt (by omega)]; omega⟩

end Blocks
