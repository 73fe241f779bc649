import Dvnetos.Lib.StoreLoops
import Mathlib.Tactic.Common

/-!
# Painting a picture

A step paints a region of a picture if it stores in the region only and leaves the values of
the picture there. Steps that paint the same picture may overlap, and a run of them paints the
union of their regions.
-/

universe u v w

namespace TracedStore

variable {Addr : Type u} {Value : Type v}

/-- The region shows the picture, and nothing else has changed. -/
structure Paints (picture : Addr → Value) (region : Addr → Prop)
    (before after : TracedStore Addr Value) : Prop where
  painted : ∀ address, region address → after.cells address = picture address
  frame : Frame region before after

namespace Paints

variable {picture : Addr → Value} {region other : Addr → Prop}
variable {before between after : TracedStore Addr Value}

theorem refl (memory : TracedStore Addr Value) : Paints picture (fun _ => False) memory memory :=
  ⟨fun _ inside => inside.elim, Frame.refl memory⟩

theorem store [DecidableEq Addr] {address : Addr} {value : Value}
    (memory : TracedStore Addr Value) (shows : picture address = value) :
    Paints picture (· = address) memory (memory.store address value) := by
  refine ⟨?_, Frame.store memory value rfl⟩
  rintro _ rfl
  rw [cells_store_same, shows]

theorem trans (first : Paints picture region before between)
    (second : Paints picture other between after) :
    Paints picture (fun address => region address ∨ other address) before after := by
  constructor
  · intro address inside
    by_cases again : other address
    · exact second.painted address again
    · rw [second.frame.cells address again]
      exact first.painted address (inside.resolve_right again)
  · exact (first.frame.mono fun _ => Or.inl).trans (second.frame.mono fun _ => Or.inr)

/-- A later picture covers an earlier one of the same region. -/
theorem repaint {later : Addr → Value} (first : Paints picture region before between)
    (second : Paints later region between after) : Paints later region before after :=
  ⟨second.painted, first.frame.trans second.frame⟩

theorem congr (paints : Paints picture region before after)
    (same : ∀ address, region address ↔ other address) : Paints picture other before after :=
  ⟨fun address inside => paints.painted address ((same address).mpr inside),
    paints.frame.mono fun address => (same address).mp⟩

/-- A loop that stores the values of the picture. -/
theorem storeEach [DecidableEq Addr] {place : ℕ → Addr} {value : ℕ → Value} {count : ℕ}
    (shows : ∀ k < count, picture (place k) = value k) (memory : TracedStore Addr Value) :
    Paints picture (fun address => ∃ k < count, address = place k) memory
      (memory.storeEach place value count) := by
  constructor
  · rintro _ ⟨k, inside, rfl⟩
    rcases exists_storedLast place inside with ⟨last, isLast⟩
    rw [cells_storeEach isLast, ← shows last isLast.1, isLast.2.1]
  · constructor
    · intro address outside
      exact cells_storeEach_of_ne fun k inside same => outside ⟨k, inside, same.symm⟩
    · intro address stored
      rcases mem_footprint_storeEach.mp stored with ⟨k, inside, same⟩ | earlier
      · exact .inl ⟨k, inside, same.symm⟩
      · exact .inr earlier

theorem storeGrid [DecidableEq Addr] {place : ℕ → ℕ → Addr} {value : ℕ → ℕ → Value}
    {width rows : ℕ} (shows : ∀ i < rows, ∀ j < width, picture (place i j) = value i j)
    (memory : TracedStore Addr Value) :
    Paints picture (fun address => ∃ i < rows, ∃ j < width, address = place i j) memory
      (memory.storeGrid place value width rows) := by
  have row {k : ℕ} (inside : k < rows * width) : k / width < rows :=
    Nat.div_lt_of_lt_mul (by rwa [Nat.mul_comm])
  have column {k : ℕ} (inside : k < rows * width) : k % width < width :=
    Nat.mod_lt _ (Nat.pos_of_mul_pos_left (Nat.zero_lt_of_lt inside))
  refine (storeEach (fun k inside => shows _ (row inside) _ (column inside)) memory).congr ?_
  intro address
  constructor
  · rintro ⟨k, inside, rfl⟩
    exact ⟨k / width, row inside, k % width, column inside, rfl⟩
  · rintro ⟨i, inRows, j, inRow, rfl⟩
    rcases @cell_place width i j inRow with ⟨rowOf, columnOf⟩
    refine ⟨i * width + j, ?_, by rw [rowOf, columnOf]⟩
    calc i * width + j < (i + 1) * width := by
          rw [Nat.succ_mul]
          omega
      _ ≤ rows * width := Nat.mul_le_mul_right _ inRows

/-- A run paints what one of its steps paints. -/
theorem foldl {Step : Type w} {step : TracedStore Addr Value → Step → TracedStore Addr Value}
    {regionOf : Step → Addr → Prop} {steps : List Step}
    (each : ∀ item ∈ steps, ∀ memory, Paints picture (regionOf item) memory (step memory item))
    (memory : TracedStore Addr Value) :
    Paints picture (fun address => ∃ item ∈ steps, regionOf item address) memory
      (steps.foldl step memory) := by
  induction steps generalizing memory with
  | nil => exact (refl memory).congr (by simp)
  | cons item rest ih =>
      have first := each item (List.mem_cons_self ..) memory
      have later := ih (fun next member => each next (List.mem_cons_of_mem _ member))
        (step memory item)
      exact (first.trans later).congr (by simp)

end Paints

end TracedStore
