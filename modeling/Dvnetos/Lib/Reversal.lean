import Dvnetos.Lib.TracedStore

/-!
# Reversing in place

Two pointers move towards each other and swap what they point to. Behind them the values are
in the reverse order, and between them they are still the old ones.
-/

universe u

namespace TracedStore

variable {Value : Type u}

/-- `while (left < right) { value = *right; *right-- = *left; *left++ = value; }`. -/
def reverseBetween (memory : TracedStore ℕ Value) (left right : ℕ) : TracedStore ℕ Value :=
  if left < right then
    let value := memory.cells right
    reverseBetween ((memory.store right (memory.cells left)).store left value) (left + 1)
      (right - 1)
  else memory
termination_by right - left

theorem cells_reverseBetween (memory : TracedStore ℕ Value) (left right address : ℕ) :
    (memory.reverseBetween left right).cells address =
      if left ≤ address ∧ address ≤ right then memory.cells (left + right - address)
      else memory.cells address := by
  rw [reverseBetween]
  split_ifs with apart inside inside
  · rw [cells_reverseBetween]
    by_cases atLeft : address = left
    · rw [atLeft, if_neg (by omega), cells_store_same, Nat.add_sub_cancel_left]
    · by_cases atRight : address = right
      · rw [atRight, if_neg (by omega), cells_store_of_ne _ _ (by omega), cells_store_same,
          Nat.add_sub_cancel]
      · rw [if_pos (by omega), cells_store_of_ne _ _ (by omega), cells_store_of_ne _ _ (by omega)]
        congr 1
        omega
  · rw [cells_reverseBetween, if_neg (by omega), cells_store_of_ne _ _ (by omega),
      cells_store_of_ne _ _ (by omega)]
  · congr 1
    omega
  · rfl
termination_by right - left

/-- The places below a bound are reversed as a whole. -/
theorem cells_reverseBetween_of_lt (memory : TracedStore ℕ Value) {count i : ℕ}
    (inside : i < count) :
    (memory.reverseBetween 0 (count - 1)).cells i = memory.cells (count - 1 - i) := by
  rw [cells_reverseBetween, if_pos (by omega), Nat.zero_add]

end TracedStore
