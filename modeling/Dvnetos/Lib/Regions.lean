import Mathlib.Algebra.BigOperators.Group.Finset.Basic
import Mathlib.Algebra.BigOperators.Intervals
import Mathlib.Algebra.Order.BigOperators.Group.Finset
import Mathlib.Order.Interval.Finset.Nat
import Mathlib.Tactic.Common

/-!
# Regions of an address space

A region is a half-open range of addresses. How a list of regions lies in the
address space is described by its coverage, the number of regions that contain
an address: it does not change when a region is cut in two or two neighbours are
joined, regions with a coverage of at most one are disjoint, and its sum is
their total length.
-/

namespace Regions

/-- Consecutive addresses. -/
structure Region where
  start : ℕ
  bytes : ℕ
  deriving DecidableEq

namespace Region

/-- The address lies in the region. -/
def Contains (region : Region) (address : ℕ) : Prop :=
  region.start ≤ address ∧ address < region.start + region.bytes

instance (region : Region) (address : ℕ) : Decidable (region.Contains address) :=
  inferInstanceAs (Decidable (_ ∧ _))

/-- No address lies in both. -/
def Disjoint (first second : Region) : Prop :=
  ∀ address, first.Contains address → ¬second.Contains address

theorem Disjoint.symm {first second : Region} (disjoint : first.Disjoint second) :
    second.Disjoint first := by
  intro address inSecond inFirst
  exact disjoint address inFirst inSecond

/-- The region lies in the addresses from `1` to `limit - 1`. -/
structure Placed (limit : ℕ) (region : Region) : Prop where
  positive : 0 < region.start
  fits : region.start + region.bytes ≤ limit

end Region

/-- How many of the regions contain the address. -/
def coverage (regions : List Region) (address : ℕ) : ℕ :=
  regions.countP fun region => decide (region.Contains address)

@[simp]
theorem coverage_nil (address : ℕ) : coverage [] address = 0 := rfl

theorem coverage_cons (region : Region) (regions : List Region) (address : ℕ) :
    coverage (region :: regions) address =
      coverage regions address + if region.Contains address then 1 else 0 := by
  simp [coverage, List.countP_cons]

theorem coverage_append (first second : List Region) (address : ℕ) :
    coverage (first ++ second) address = coverage first address + coverage second address :=
  List.countP_append

theorem coverage_perm {first second : List Region} (perm : first.Perm second) (address : ℕ) :
    coverage first address = coverage second address :=
  perm.countP_eq _

/-- Two neighbours cover what the region made of both covers. -/
theorem coverage_join (start first second : ℕ) (regions : List Region) (address : ℕ) :
    coverage (⟨start, first + second⟩ :: regions) address =
      coverage (⟨start, first⟩ :: ⟨start + first, second⟩ :: regions) address := by
  have either : Region.Contains ⟨start, first + second⟩ address ↔
      Region.Contains ⟨start, first⟩ address ∨ Region.Contains ⟨start + first, second⟩ address := by
    simp only [Region.Contains]
    omega
  have apart : Region.Contains ⟨start, first⟩ address →
      ¬Region.Contains ⟨start + first, second⟩ address := by
    simp only [Region.Contains]
    omega
  simp only [coverage_cons, either]
  by_cases inFirst : Region.Contains ⟨start, first⟩ address
  · simp [inFirst, apart inFirst]
  · simp [inFirst]

theorem coverage_pos_iff {regions : List Region} {address : ℕ} :
    0 < coverage regions address ↔ ∃ region ∈ regions, region.Contains address := by
  simp [coverage, List.countP_pos_iff]

theorem pairwise_disjoint_of_coverage {regions : List Region}
    (once : ∀ address, coverage regions address ≤ 1) : regions.Pairwise Region.Disjoint := by
  induction regions with
  | nil => exact List.Pairwise.nil
  | cons region regions ih =>
      apply List.Pairwise.cons
      · intro other otherMem address inRegion inOther
        have counted : 0 < coverage regions address :=
          coverage_pos_iff.mpr ⟨other, otherMem, inOther⟩
        have twice := once address
        rw [coverage_cons, if_pos inRegion] at twice
        omega
      · apply ih
        intro address
        have := once address
        rw [coverage_cons] at this
        omega

theorem coverage_le_one_of_pairwise {regions : List Region}
    (disjoint : regions.Pairwise Region.Disjoint) (address : ℕ) : coverage regions address ≤ 1 := by
  induction disjoint with
  | nil => exact Nat.zero_le 1
  | @cons region regions apart _ ih =>
      rw [coverage_cons]
      split_ifs with inRegion
      · have uncovered : ¬0 < coverage regions address := by
          intro covered
          rcases coverage_pos_iff.mp covered with ⟨other, otherMem, inOther⟩
          exact apart other otherMem address inRegion inOther
        omega
      · exact ih

theorem sum_bytes_eq {limit : ℕ} {regions : List Region}
    (placed : ∀ region ∈ regions, region.Placed limit) :
    (regions.map Region.bytes).sum =
      ∑ address ∈ Finset.Ico 1 limit, coverage regions address := by
  induction regions with
  | nil => simp
  | cons region regions ih =>
      have own : ∑ address ∈ Finset.Ico 1 limit, (if region.Contains address then 1 else 0) =
          region.bytes := by
        have inside := placed region (by simp)
        have positive := inside.positive
        have fits := inside.fits
        rw [← Finset.card_filter]
        have whole : (Finset.Ico 1 limit).filter region.Contains =
            Finset.Ico region.start (region.start + region.bytes) := by
          ext address
          simp only [Finset.mem_filter, Finset.mem_Ico, Region.Contains]
          omega
        rw [whole, Nat.card_Ico]
        omega
      simp only [coverage_cons, Finset.sum_add_distrib, own, List.map_cons, List.sum_cons]
      rw [ih fun other otherMem => placed other (List.mem_cons_of_mem _ otherMem)]
      omega

/-- Disjoint regions are together shorter than the address space. -/
theorem sum_bytes_lt {limit : ℕ} (positive : 0 < limit) {regions : List Region}
    (placed : ∀ region ∈ regions, region.Placed limit)
    (once : ∀ address, coverage regions address ≤ 1) :
    (regions.map Region.bytes).sum < limit := by
  have total : ∑ address ∈ Finset.Ico 1 limit, coverage regions address ≤
      ∑ _address ∈ Finset.Ico 1 limit, 1 := by
    apply Finset.sum_le_sum
    intro address _
    exact once address
  rw [← sum_bytes_eq placed, ← Finset.card_eq_sum_ones, Nat.card_Ico] at total
  omega

end Regions
