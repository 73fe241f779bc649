import Dvnetos.Lib.TracedStore
import Mathlib.Data.Nat.Find

/-!
# Loops that store

A loop with a counter that stores one value in each iteration. If it stores to an address more
than once, the last iteration that does decides what is there.
-/

universe u v

namespace TracedStore

variable {Addr : Type u} {Value : Type v} [DecidableEq Addr]

/-- `for (k = 0; k < count; k++) memory[place(k)] = value(k)`. -/
def storeEach (memory : TracedStore Addr Value) (place : ℕ → Addr) (value : ℕ → Value) :
    ℕ → TracedStore Addr Value
  | 0 => memory
  | count + 1 => (storeEach memory place value count).store (place count) (value count)

variable {memory : TracedStore Addr Value} {place : ℕ → Addr} {value : ℕ → Value} {count : ℕ}

theorem storeEach_add (memory : TracedStore Addr Value) (place : ℕ → Addr) (value : ℕ → Value)
    (first second : ℕ) :
    storeEach memory place value (first + second) =
      storeEach (storeEach memory place value first) (fun k => place (first + k))
        (fun k => value (first + k)) second := by
  induction second with
  | zero => rfl
  | succ second ih => rw [← Nat.add_assoc, storeEach, storeEach, ih]

/-- The first iteration in front of the others. -/
theorem storeEach_succ (memory : TracedStore Addr Value) (place : ℕ → Addr) (value : ℕ → Value)
    (count : ℕ) :
    storeEach memory place value (count + 1) =
      storeEach (memory.store (place 0) (value 0)) (fun k => place (k + 1))
        (fun k => value (k + 1)) count := by
  rw [Nat.add_comm count, storeEach_add]
  simp only [Nat.add_comm 1]
  rfl

theorem storeEach_congr {other : ℕ → Addr} {otherValue : ℕ → Value}
    (samePlace : ∀ k < count, place k = other k) (sameValue : ∀ k < count, value k = otherValue k) :
    storeEach memory place value count = storeEach memory other otherValue count := by
  induction count with
  | zero => rfl
  | succ count ih =>
      rw [storeEach, storeEach, samePlace count (Nat.lt_succ_self _),
        sameValue count (Nat.lt_succ_self _),
        ih (fun k below => samePlace k (Nat.lt_succ_of_lt below))
          fun k below => sameValue k (Nat.lt_succ_of_lt below)]

theorem cells_storeEach_of_ne {address : Addr} (apart : ∀ k < count, place k ≠ address) :
    (storeEach memory place value count).cells address = memory.cells address := by
  induction count with
  | zero => rfl
  | succ count ih =>
      rw [storeEach, cells_store_of_ne _ _ (apart count (Nat.lt_succ_self _)).symm]
      exact ih fun k below => apart k (Nat.lt_succ_of_lt below)

theorem mem_footprint_storeEach {address : Addr} :
    address ∈ (storeEach memory place value count).footprint ↔
      (∃ k < count, place k = address) ∨ address ∈ memory.footprint := by
  induction count with
  | zero => simp [storeEach]
  | succ count ih =>
      rw [storeEach, footprint_store, List.mem_cons, ih, ← or_assoc]
      apply or_congr_left
      constructor
      · rintro (rfl | ⟨k, below, rfl⟩)
        · exact ⟨count, Nat.lt_succ_self _, rfl⟩
        · exact ⟨k, Nat.lt_succ_of_lt below, rfl⟩
      · rintro ⟨k, below, rfl⟩
        rcases Nat.lt_succ_iff_lt_or_eq.mp below with earlier | rfl
        · exact .inr ⟨k, earlier, rfl⟩
        · exact .inl rfl

/-- The last of the iterations that store to the place of one of them. -/
def StoredLast (place : ℕ → Addr) (count k last : ℕ) : Prop :=
  last < count ∧ place last = place k ∧ ∀ other < count, place other = place k → other ≤ last

theorem exists_storedLast (place : ℕ → Addr) {k : ℕ} (inside : k < count) :
    ∃ last, StoredLast place count k last := by
  let stores (other : ℕ) : Prop := other < count ∧ place other = place k
  have found : stores (Nat.findGreatest stores count) :=
    Nat.findGreatest_spec (Nat.le_of_lt inside) ⟨inside, rfl⟩
  exact ⟨_, found.1, found.2, fun other below same =>
    Nat.le_findGreatest (Nat.le_of_lt below) ⟨below, same⟩⟩

/-- What is at an address is what has been stored there last. -/
theorem cells_storeEach {k last : ℕ} (isLast : StoredLast place count k last) :
    (storeEach memory place value count).cells (place k) = value last := by
  induction count with
  | zero => exact absurd isLast.1 (Nat.not_lt_zero _)
  | succ count ih =>
      rcases isLast with ⟨inside, same, latest⟩
      rw [storeEach]
      by_cases atEnd : last = count
      · rw [← atEnd, ← same, cells_store_same]
      · have below : last < count := by omega
        have apart : place k ≠ place count := by
          intro stored
          have le := latest count (Nat.lt_succ_self _) stored.symm
          omega
        rw [cells_store_of_ne _ _ apart]
        exact ih ⟨below, same, fun other inside => latest other (Nat.lt_succ_of_lt inside)⟩

/-- The row and the column of a numbered place. -/
theorem cell_place {size cell offset : ℕ} (inside : offset < size) :
    (cell * size + offset) / size = cell ∧ (cell * size + offset) % size = offset := by
  constructor
  · rw [Nat.add_comm, Nat.add_mul_div_right _ _ (Nat.zero_lt_of_lt inside),
      Nat.div_eq_of_lt inside, Nat.zero_add]
  · rw [Nat.add_comm, Nat.add_mul_mod_self_right, Nat.mod_eq_of_lt inside]

/-- A loop over rows with a loop over columns in it, with the iterations numbered through. -/
def storeGrid (memory : TracedStore Addr Value) (place : ℕ → ℕ → Addr) (value : ℕ → ℕ → Value)
    (width rows : ℕ) : TracedStore Addr Value :=
  storeEach memory (fun k => place (k / width) (k % width)) (fun k => value (k / width) (k % width))
    (rows * width)

/-- The first row in front of the others. -/
theorem storeGrid_succ (memory : TracedStore Addr Value) (place : ℕ → ℕ → Addr)
    (value : ℕ → ℕ → Value) (width rows : ℕ) :
    storeGrid memory place value width (rows + 1) =
      storeGrid (storeEach memory (place 0) (value 0) width) (fun i => place (i + 1))
        (fun i => value (i + 1)) width rows := by
  have firstRow (k : ℕ) (inRow : k < width) : k / width = 0 ∧ k % width = k :=
    ⟨Nat.div_eq_of_lt inRow, Nat.mod_eq_of_lt inRow⟩
  have nextRow (k : ℕ) (below : k < rows * width) :
      (width + k) / width = k / width + 1 ∧ (width + k) % width = k % width :=
    ⟨Nat.add_div_left k (Nat.pos_of_mul_pos_left (Nat.zero_lt_of_lt below)),
      Nat.add_mod_left width k⟩
  have first : storeEach memory (fun k => place (k / width) (k % width))
      (fun k => value (k / width) (k % width)) width =
        storeEach memory (place 0) (value 0) width := by
    apply storeEach_congr
    · intro k inRow
      rw [(firstRow k inRow).1, (firstRow k inRow).2]
    · intro k inRow
      rw [(firstRow k inRow).1, (firstRow k inRow).2]
  rw [storeGrid, storeGrid, Nat.succ_mul, Nat.add_comm (rows * width), storeEach_add, first]
  apply storeEach_congr
  · intro k below
    rw [(nextRow k below).1, (nextRow k below).2]
  · intro k below
    rw [(nextRow k below).1, (nextRow k below).2]

/-- The iteration of a column in a row. -/
theorem cells_storeGrid {place : ℕ → ℕ → Addr} {value : ℕ → ℕ → Value} {width rows i j last : ℕ}
    (column : j < width)
    (isLast : StoredLast (fun k => place (k / width) (k % width)) (rows * width) (i * width + j)
      last) :
    (storeGrid memory place value width rows).cells (place i j) =
      value (last / width) (last % width) := by
  rcases @cell_place width i j column with ⟨row, inRow⟩
  have cells : (storeGrid memory place value width rows).cells
      (place ((i * width + j) / width) ((i * width + j) % width)) =
        value (last / width) (last % width) := cells_storeEach isLast
  rwa [row, inRow] at cells

end TracedStore
