import Dvnetos.Lib.Regions
import Mathlib.Data.List.Pairwise

/-!
# Maximal runs

The addresses that some regions contain fall into maximal runs. Disjoint regions of
which none ends where another starts are the maximal runs of what they contain.
-/

namespace Regions

/-- One of the regions contains the address. -/
def Covered (regions : List Region) (address : ℕ) : Prop :=
  ∃ region ∈ regions, region.Contains address

/-- A run of covered addresses that neither of its neighbours extends. -/
structure MaximalRun (regions : List Region) (run : Region) : Prop where
  nonempty : 0 < run.bytes
  covered : ∀ address, run.Contains address → Covered regions address
  begins : ∀ address, address + 1 = run.start → ¬Covered regions address
  stops : ¬Covered regions (run.start + run.bytes)

/-- The regions have no address in common and none of the two ends where the other starts. -/
structure Region.Apart (first second : Region) : Prop where
  disjoint : first.Disjoint second
  before : first.start + first.bytes ≠ second.start
  behind : second.start + second.bytes ≠ first.start

instance : Std.Symm Region.Apart where
  symm _ _ apart := ⟨apart.disjoint.symm, apart.behind, apart.before⟩

section

variable {regions pieces : List Region} {first second run : Region}

/-- A run does not start inside another one. -/
theorem MaximalRun.start_le {address : ℕ} (isFirst : MaximalRun regions first)
    (isSecond : MaximalRun regions second) (inFirst : first.Contains address)
    (inSecond : second.Contains address) : first.start ≤ second.start := by
  simp only [Region.Contains] at inFirst inSecond
  by_contra later
  apply isFirst.begins (first.start - 1) (by omega)
  apply isSecond.covered
  constructor <;> omega

theorem MaximalRun.end_le {address : ℕ} (isFirst : MaximalRun regions first)
    (isSecond : MaximalRun regions second) (inFirst : first.Contains address)
    (inSecond : second.Contains address) :
    first.start + first.bytes ≤ second.start + second.bytes := by
  simp only [Region.Contains] at inFirst inSecond
  by_contra later
  apply isSecond.stops
  apply isFirst.covered
  constructor <;> omega

/-- Maximal runs with a common address are the same. -/
theorem MaximalRun.eq_of_common {address : ℕ} (isFirst : MaximalRun regions first)
    (isSecond : MaximalRun regions second) (inFirst : first.Contains address)
    (inSecond : second.Contains address) : first = second := by
  have starts := Nat.le_antisymm (isFirst.start_le isSecond inFirst inSecond)
    (isSecond.start_le isFirst inSecond inFirst)
  have ends := Nat.le_antisymm (isFirst.end_le isSecond inFirst inSecond)
    (isSecond.end_le isFirst inSecond inFirst)
  cases first
  cases second
  simp only [Region.mk.injEq] at starts ends ⊢
  omega

variable (same : ∀ address, Covered pieces address ↔ Covered regions address)
variable (apart : pieces.Pairwise Region.Apart) (nonempty : ∀ piece ∈ pieces, 0 < piece.bytes)

include same apart nonempty

theorem maximalRun_of_mem (pieceMem : run ∈ pieces) : MaximalRun regions run := by
  have positive := nonempty run pieceMem
  have apartFrom : ∀ other ∈ pieces, other ≠ run → run.Apart other := by
    intro other otherMem different
    exact apart.forall pieceMem otherMem different.symm
  refine ⟨positive, ?_, ?_, ?_⟩
  · intro address contains
    exact (same address).mp ⟨run, pieceMem, contains⟩
  · intro address before covered
    rcases (same address).mpr covered with ⟨other, otherMem, contains⟩
    have different : other ≠ run := by
      rintro rfl
      simp only [Region.Contains] at contains
      omega
    rcases apartFrom other otherMem different with ⟨disjoint, _, behind⟩
    -- a region that reaches the byte in front of the run ends there
    apply disjoint run.start
    · constructor <;> omega
    · simp only [Region.Contains] at contains ⊢
      omega
  · intro covered
    rcases (same _).mpr covered with ⟨other, otherMem, contains⟩
    have different : other ≠ run := by
      rintro rfl
      simp only [Region.Contains] at contains
      omega
    rcases apartFrom other otherMem different with ⟨disjoint, before, _⟩
    apply disjoint (run.start + run.bytes - 1)
    · constructor <;> omega
    · simp only [Region.Contains] at contains ⊢
      omega

/-- Disjoint regions that do not touch are exactly the maximal runs. -/
theorem mem_iff_maximalRun : run ∈ pieces ↔ MaximalRun regions run := by
  constructor
  · exact maximalRun_of_mem same apart nonempty
  · intro maximal
    have positive := maximal.nonempty
    have start : run.Contains run.start := ⟨Nat.le_refl _, by omega⟩
    rcases (same run.start).mpr (maximal.covered _ start) with ⟨piece, pieceMem, contains⟩
    have pieceMaximal := maximalRun_of_mem same apart nonempty pieceMem
    rw [maximal.eq_of_common pieceMaximal start contains]
    exact pieceMem

end

end Regions
