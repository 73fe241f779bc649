import Dvnetos.Smbios.Table

/-!
# The scan for the double NUL

`smbiosStructLen` stops at the first two NULs that stand next to each other behind the formatted
area. It reads nothing behind them, and without them it reads on and on.
-/

namespace Dvnetos.Smbios

variable {memory : Memory}

/-- A NUL at index `i - 1` and another one at index `i`. -/
def DoubleNul (memory : Memory) (strtab i : ℕ) : Prop :=
  memory (strtab + i - 1) = 0 ∧ memory (strtab + i) = 0

/-- The double NUL at which the scan ends. -/
structure ClosedAt (memory : Memory) (strtab i : ℕ) : Prop where
  positive : 1 ≤ i
  closed : DoubleNul memory strtab i
  first : ∀ k, 1 ≤ k → k < i → ¬DoubleNul memory strtab k

/-- A scan that has not passed the double NUL stops there, and reads nothing behind it. -/
theorem scanStrings_of_closedAt {strtab i : ℕ} (closed : ClosedAt memory strtab i) (fuel : ℕ)
    {k : ℕ} (positive : 1 ≤ k) (before : k ≤ i) :
    ((scanStrings memory strtab fuel k).1 = none ∨
        (scanStrings memory strtab fuel k).1 = some i) ∧
      ∀ address ∈ (scanStrings memory strtab fuel k).2,
        strtab ≤ address ∧ address ≤ strtab + i := by
  induction fuel generalizing k with
  | zero => exact ⟨Or.inl rfl, by simp [scanStrings]⟩
  | succ fuel ih =>
      by_cases last : k = i
      · subst last
        rcases closed.closed with ⟨first, second⟩
        rw [scanStrings, if_neg (not_not.mpr first), if_neg (not_not.mpr second)]
        refine ⟨Or.inr rfl, fun address mem => ?_⟩
        simp only [List.mem_cons, List.not_mem_nil, or_false] at mem
        omega
      · rcases ih (k := k + 1) (by omega) (by omega) with ⟨final, reads⟩
        have unclosed := closed.first k positive (by omega)
        rw [scanStrings]
        split_ifs with first second
        · refine ⟨final, fun address mem => ?_⟩
          rcases List.mem_cons.mp mem with rfl | later
          · omega
          · exact reads address later
        · refine ⟨final, fun address mem => ?_⟩
          rcases List.mem_cons.mp mem with rfl | later
          · omega
          · rcases List.mem_cons.mp later with rfl | later
            · omega
            · exact reads address later
        · exact absurd ⟨not_not.mp first, not_not.mp second⟩ unclosed

/-- A scan with enough fuel reaches the double NUL. -/
theorem scanStrings_finds {strtab i : ℕ} (closed : ClosedAt memory strtab i) (fuel : ℕ)
    {k : ℕ} (positive : 1 ≤ k) (before : k ≤ i) (enough : i - k < fuel) :
    (scanStrings memory strtab fuel k).1 = some i ∧
      strtab + i ∈ (scanStrings memory strtab fuel k).2 := by
  induction fuel generalizing k with
  | zero => omega
  | succ fuel ih =>
      by_cases last : k = i
      · subst last
        rcases closed.closed with ⟨first, second⟩
        rw [scanStrings, if_neg (not_not.mpr first), if_neg (not_not.mpr second)]
        exact ⟨rfl, by simp⟩
      · rcases ih (k := k + 1) (by omega) (by omega) (by omega) with ⟨final, reads⟩
        have unclosed := closed.first k positive (by omega)
        rw [scanStrings]
        split_ifs with first second
        · exact ⟨final, List.mem_cons_of_mem _ reads⟩
        · exact ⟨final, List.mem_cons_of_mem _ (List.mem_cons_of_mem _ reads)⟩
        · exact absurd ⟨not_not.mp first, not_not.mp second⟩ unclosed

/-- A scan that meets no double NUL reads on and on. -/
theorem scanStrings_reads_on (steps : ℕ) {strtab k : ℕ}
    (unclosed : ∀ i, k ≤ i → i < k + steps → ¬DoubleNul memory strtab i) :
    strtab + (k + steps) - 1 ∈ (scanStrings memory strtab (steps + 1) k).2 := by
  induction steps generalizing k with
  | zero =>
      rw [scanStrings]
      split_ifs <;> simp
  | succ steps ih =>
      have later := ih (k := k + 1) fun i from_k below => unclosed i (by omega) (by omega)
      rw [show k + 1 + steps = k + (steps + 1) by omega] at later
      rw [scanStrings]
      split_ifs with first second
      · exact List.mem_cons_of_mem _ later
      · exact List.mem_cons_of_mem _ (List.mem_cons_of_mem _ later)
      · exact absurd ⟨not_not.mp first, not_not.mp second⟩ (unclosed k (Nat.le_refl k) (by omega))

/-- The length of a structure, if the scan has ended. -/
theorem smbiosStructLen_final (memory : Memory) (fuel hd : ℕ) :
    (smbiosStructLen memory fuel hd).1 = (scanStrings memory (strtab memory hd) fuel 1).1.map
      fun i => (memory (hd + 1)).toNat + i + 1 := rfl

end Dvnetos.Smbios
