import Dvnetos.Lib.TracedStore
import Dvnetos.Lib.Word

/-!
# Memory functions

The byte loops `memset` and `memmove` of `utils/cstring.cpp`, over a memory of
64-bit addresses. A recursion on the length runs the iterations of the source's
loop in the source's order.
-/

namespace Dvnetos.Cstring

open Word

/-- The memory the functions work on. -/
abbrev Memory := TracedStore ℕ UInt8

/-- `for (i = 0; i < n; i++) p[i] = c`. -/
def memset (memory : Memory) (s : ℕ) (c : UInt8) : ℕ → Memory
  | 0 => memory
  | n + 1 => (memset memory s c n).store (add64 s n) c

/-- `for (i = 0; i < n; i++) pdest[i] = psrc[i]`. -/
def copyForward (memory : Memory) (dest src : ℕ) : ℕ → Memory
  | 0 => memory
  | n + 1 =>
      let copied := copyForward memory dest src n
      copied.store (add64 dest n) (copied.cells (add64 src n))

/-- `for (i = n; i > 0; i--) pdest[i - 1] = psrc[i - 1]`. -/
def copyBackward (memory : Memory) (dest src : ℕ) : ℕ → Memory
  | 0 => memory
  | n + 1 =>
      copyBackward (memory.store (add64 dest n) (memory.cells (add64 src n))) dest src n

/-- `memmove(dest, src, n)`. -/
def memmove (memory : Memory) (dest src n : ℕ) : Memory :=
  if dest < src then copyForward memory dest src n
  else if src < dest then copyBackward memory dest src n
  else memory

variable {inside : ℕ → Prop}

theorem memset_within {memory : Memory} (s : ℕ) (c : UInt8) {n : ℕ} (start : memory.Within inside)
    (bytes : ∀ i < n, inside (add64 s i)) : (memset memory s c n).Within inside := by
  induction n with
  | zero => exact start
  | succ n ih =>
      rw [memset, TracedStore.within_store]
      exact ⟨bytes n (by omega), ih fun i bound => bytes i (by omega)⟩

theorem copyForward_within {memory : Memory} (dest src : ℕ) {n : ℕ} (start : memory.Within inside)
    (bytes : ∀ i < n, inside (add64 dest i)) : (copyForward memory dest src n).Within inside := by
  induction n with
  | zero => exact start
  | succ n ih =>
      rw [copyForward, TracedStore.within_store]
      exact ⟨bytes n (by omega), ih fun i bound => bytes i (by omega)⟩

theorem copyBackward_within {memory : Memory} (dest src : ℕ) {n : ℕ} (start : memory.Within inside)
    (bytes : ∀ i < n, inside (add64 dest i)) : (copyBackward memory dest src n).Within inside := by
  induction n generalizing memory with
  | zero => exact start
  | succ n ih =>
      rw [copyBackward]
      refine ih ?_ fun i bound => bytes i (by omega)
      exact (TracedStore.within_store ..).mpr ⟨bytes n (by omega), start⟩

theorem memmove_within {memory : Memory} (dest src : ℕ) {n : ℕ} (start : memory.Within inside)
    (bytes : ∀ i < n, inside (add64 dest i)) : (memmove memory dest src n).Within inside := by
  simp only [memmove]
  split_ifs
  · exact copyForward_within dest src start bytes
  · exact copyBackward_within dest src start bytes
  · exact start

theorem memset_footprint_subset (memory : Memory) (s : ℕ) (c : UInt8) (n : ℕ) :
    memory.footprint ⊆ (memset memory s c n).footprint := by
  induction n with
  | zero => exact List.Subset.refl _
  | succ n ih => exact fun address before => List.mem_cons_of_mem _ (ih before)

theorem copyForward_footprint_subset (memory : Memory) (dest src n : ℕ) :
    memory.footprint ⊆ (copyForward memory dest src n).footprint := by
  induction n with
  | zero => exact List.Subset.refl _
  | succ n ih => exact fun address before => List.mem_cons_of_mem _ (ih before)

theorem copyBackward_footprint_subset (memory : Memory) (dest src n : ℕ) :
    memory.footprint ⊆ (copyBackward memory dest src n).footprint := by
  induction n generalizing memory with
  | zero => exact List.Subset.refl _
  | succ n ih => exact fun address before => ih _ (List.mem_cons_of_mem _ before)

theorem memmove_footprint_subset (memory : Memory) (dest src n : ℕ) :
    memory.footprint ⊆ (memmove memory dest src n).footprint := by
  simp only [memmove]
  split_ifs
  · exact copyForward_footprint_subset ..
  · exact copyBackward_footprint_subset ..
  · exact List.Subset.refl _

/-- A copy to lower addresses stores last to the last byte. -/
theorem last_mem_memmove_footprint (memory : Memory) {dest src : ℕ} (lower : dest < src) (n : ℕ) :
    add64 dest n ∈ (memmove memory dest src (n + 1)).footprint := by
  rw [memmove, if_pos lower, copyForward]
  exact List.mem_cons_self

theorem memset_cells (memory : Memory) {s n : ℕ} (c : UInt8) (fits : s + n ≤ 2 ^ 64)
    (address : ℕ) :
    (memset memory s c n).cells address =
      if s ≤ address ∧ address < s + n then c else memory.cells address := by
  induction n with
  | zero =>
      rw [memset, if_neg]
      omega
  | succ n ih =>
      rw [memset, add64_of_lt (by omega)]
      by_cases last : address = s + n
      · rw [last, TracedStore.cells_store_same, if_pos]
        omega
      · rw [TracedStore.cells_store_of_ne _ _ last, ih (by omega)]
        congr 1
        rw [eq_iff_iff]
        omega

/-- A copy to lower addresses reads every byte before it is overwritten. -/
theorem copyForward_cells (memory : Memory) {dest src n : ℕ} (lower : dest < src)
    (fits : src + n ≤ 2 ^ 64) (address : ℕ) :
    (copyForward memory dest src n).cells address =
      if dest ≤ address ∧ address < dest + n then memory.cells (address - dest + src)
      else memory.cells address := by
  induction n generalizing address with
  | zero =>
      rw [copyForward, if_neg]
      omega
  | succ n ih =>
      have source : (copyForward memory dest src n).cells (src + n) = memory.cells (src + n) := by
        rw [ih (by omega), if_neg]
        omega
      rw [copyForward, add64_of_lt (by omega), add64_of_lt (by omega), source]
      by_cases last : address = dest + n
      · rw [last, TracedStore.cells_store_same, if_pos (by omega)]
        congr 1
        omega
      · rw [TracedStore.cells_store_of_ne _ _ last, ih (by omega)]
        congr 1
        rw [eq_iff_iff]
        omega

/-- A copy to higher addresses overwrites every byte after it has been read. -/
theorem copyBackward_cells (memory : Memory) {dest src n : ℕ} (higher : src < dest)
    (fits : dest + n ≤ 2 ^ 64) (address : ℕ) :
    (copyBackward memory dest src n).cells address =
      if dest ≤ address ∧ address < dest + n then memory.cells (address - dest + src)
      else memory.cells address := by
  induction n generalizing memory with
  | zero =>
      rw [copyBackward, if_neg]
      omega
  | succ n ih =>
      rw [copyBackward, add64_of_lt (by omega), add64_of_lt (by omega), ih _ (by omega)]
      by_cases last : address = dest + n
      · rw [last, if_neg (by omega), TracedStore.cells_store_same, if_pos (by omega)]
        congr 1
        omega
      · rw [TracedStore.cells_store_of_ne _ _ last]
        by_cases inside : dest ≤ address ∧ address < dest + n
        · rw [if_pos inside, if_pos (by omega), TracedStore.cells_store_of_ne]
          omega
        · rw [if_neg inside, if_neg (by omega)]

/-- The bytes from `src` on are at `dest`, and no other byte has changed. -/
structure Copied (dest src n : ℕ) (before after : Memory) : Prop where
  copied : ∀ i < n, after.cells (dest + i) = before.cells (src + i)
  frame : ∀ address, ¬(dest ≤ address ∧ address < dest + n) →
    after.cells address = before.cells address

theorem copied_of_cells {dest src n : ℕ} {before after : Memory}
    (cells : ∀ address, after.cells address =
      if dest ≤ address ∧ address < dest + n then before.cells (address - dest + src)
      else before.cells address) :
    Copied dest src n before after := by
  constructor
  · intro i inside
    rw [cells, if_pos (by omega), Nat.add_sub_cancel_left, Nat.add_comm i]
  · intro address outside
    rw [cells, if_neg outside]

/-- `memmove` copies as if through a temporary, however the ranges overlap. -/
theorem memmove_copied (memory : Memory) {dest src n : ℕ} (destFits : dest + n ≤ 2 ^ 64)
    (srcFits : src + n ≤ 2 ^ 64) : Copied dest src n memory (memmove memory dest src n) := by
  rcases Nat.lt_trichotomy dest src with lower | rfl | higher
  · rw [memmove, if_pos lower]
    exact copied_of_cells (copyForward_cells memory lower srcFits)
  · rw [memmove, if_neg (Nat.lt_irrefl _), if_neg (Nat.lt_irrefl _)]
    exact ⟨fun _ _ => rfl, fun _ _ => rfl⟩
  · rw [memmove, if_neg (Nat.lt_asymm higher), if_pos higher]
    exact copied_of_cells (copyBackward_cells memory higher destFits)

/-- Ten bytes moved by one place, to overlapping ranges on either side. -/
theorem memmove_copied_byOne :
    let memory : Memory := .fresh fun address => UInt8.ofNat address
    Copied 100 101 10 memory (memmove memory 100 101 10) ∧
      Copied 101 100 10 memory (memmove memory 101 100 10) :=
  ⟨memmove_copied _ (by decide) (by decide), memmove_copied _ (by decide) (by decide)⟩

end Dvnetos.Cstring
