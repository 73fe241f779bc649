import Dvnetos.Paging.Aarch64.Init
import Dvnetos.Paging.LosslessPlaces

/-!
# Lossless ranges on aarch64

The walk goes from the tables of the lower half on to those of the higher half, and does
not close the block between them. The reported ranges are the present leaves exactly if
the last page of the last half is not mapped and the first page of the higher half does
not continue the last one of the lower half.
-/

namespace Dvnetos.PageTables.Aarch64

open RunLength Tiling

section Conditions

variable (paging : Paging) (tables : Word64 → Index → Word64)

/-- The pages of one half, if there is a table for it. -/
def halfLeaves (half : Bool) : List Leaf :=
  if paging.root half = 0#64 then []
  else presentLeaves (walkFormat paging.higherHalfOffset) (paging.tree half) tables half

/-- The last page of the last half there is a table for is mapped. -/
def EndsInLeaf : Prop :=
  if paging.root2 = 0#64 then
    ∃ leaf ∈ halfLeaves paging tables false,
      leaf.virtualAddress + leaf.size = 0x1000000000000#64
  else
    ∃ leaf ∈ halfLeaves paging tables true,
      leaf.virtualAddress + leaf.size = paging.higherHalfOffset + 0x1000000000000#64

/-- The first page of the higher half continues the last page of the lower half. -/
def ContinuesOverRoots : Prop :=
  paging.higherHalfOffset ≠ 0x1000000000000#64 ∧
    ∃ below ∈ halfLeaves paging tables false, ∃ above ∈ halfLeaves paging tables true,
      below.virtualAddress + below.size = 0x1000000000000#64 ∧
        above.virtualAddress = paging.higherHalfOffset ∧ below.Continues above

end Conditions

section Walk

variable {paging : Paging} {tables : Word64 → Index → Word64} {visit : Visit} {leaf : Leaf}
variable {half : Bool}

/-- Between the numbers of the two halves and their addresses lies this much. -/
def halfJump (paging : Paging) : Word64 := paging.higherHalfOffset - 0x1000000000000#64

/-- The places of the walk from the table of one half. -/
abbrev places (paging : Paging) (tables : Word64 → Index → Word64) (half : Bool) : List Visit :=
  paging.halfVisits (walkFormat paging.higherHalfOffset) tables (· + paging.pageTableOffset) half

theorem mem_places (visited : visit ∈ places paging tables half) :
    paging.root half ≠ 0#64 ∧ visit ∈ visitsL1 (walkFormat paging.higherHalfOffset) tables
      (· + paging.pageTableOffset) half (paging.root half) := by
  rw [places, Paging.halfVisits] at visited
  split_ifs at visited with missing
  · cases visited
  · exact ⟨missing, visited⟩

theorem add_halfJump (place offset : Word64) :
    place + offset = BitVec.ofNat 64 (2 ^ 36 * 4096) + place + (offset - 0x1000000000000#64) := by
  rw [show BitVec.ofNat 64 (2 ^ 36 * 4096) = 0x1000000000000#64 from rfl]
  bv_omega

theorem leafAt_places (visited : visit ∈ places paging tables half)
    (found : leaf ∈ visit.leaf? (walkFormat paging.higherHalfOffset)) :
    LeafAt (2 ^ 36) (halfJump paging) visit leaf := by
  have inHalf := (mem_places visited).2
  have isHalf := half_of_visitsL1 visit inHalf
  have sameFormat : (paging.tree half).format = (walkFormat paging.higherHalfOffset).format := rfl
  rcases leaf_of_leaf? found with ⟨entry, isLeaf⟩
  have level := (genuine_of_visitsL1 sameFormat visit inHalf entry isLeaf).length
  apply leafAt_of_visit found level
  have bound := pathNumber_lt level
  have bits :
      pageIndexBits visit.path.reverse = BitVec.ofNat 64 (pathNumber visit.path * 4096) := by
    apply BitVec.eq_of_toNat_eq
    rw [pageIndexBits_toNat level, BitVec.toNat_ofNat]
    omega
  rw [Visit.start, isHalf]
  cases half with
  | false =>
      rw [halfStart, if_neg Bool.false_ne_true, Nat.zero_add, if_pos bound, BitVec.add_zero]
      exact bits
  | true =>
      rw [halfStart, if_pos rfl, if_neg (by omega), halfJump]
      have virtual : (walkFormat paging.higherHalfOffset).pageIndexesToVirtual true
          visit.path.reverse = pageIndexBits visit.path.reverse + paging.higherHalfOffset := rfl
      rw [virtual, bits, Nat.add_mul, BitVec.ofNat_add]
      exact add_halfJump _ _

theorem bounds_places (visited : visit ∈ places paging tables half) :
    halfStart half ≤ visit.start ∧ visit.stop ≤ halfStart half + 2 ^ 36 := by
  have tiles := tiles_visitsL1 (walkFormat paging.higherHalfOffset) tables
    (· + paging.pageTableOffset) half (paging.root half)
  exact tiles.le_start (mem_places visited).2

/-- Where a page of the lower half ends, by its virtual address. -/
theorem low_address_iff (visited : visit ∈ places paging tables false)
    (found : leaf ∈ visit.leaf? (walkFormat paging.higherHalfOffset)) :
    leaf.virtualAddress + leaf.size = 0x1000000000000#64 ↔ visit.stop = 2 ^ 36 := by
  have bounds := bounds_places visited
  rw [halfStart, if_neg Bool.false_ne_true] at bounds
  have inside : visit.start < visit.stop := Nat.lt_add_of_pos_right visit.extent_pos
  rw [(leafAt_places visited found).address_end, if_pos (by omega), BitVec.add_zero,
    ← BitVec.toNat_inj, BitVec.toNat_ofNat, BitVec.toNat_ofNat]
  omega

/-- Where a page of the higher half ends and starts, by its virtual address. -/
theorem high_address_iff (visited : visit ∈ places paging tables true)
    (found : leaf ∈ visit.leaf? (walkFormat paging.higherHalfOffset)) :
    (leaf.virtualAddress + leaf.size = paging.higherHalfOffset + 0x1000000000000#64 ↔
        visit.stop = 2 ^ 37) ∧
      (leaf.virtualAddress = paging.higherHalfOffset ↔ visit.start = 2 ^ 36) := by
  have bounds := bounds_places visited
  rw [halfStart, if_pos rfl] at bounds
  have inside : visit.start < visit.stop := Nat.lt_add_of_pos_right visit.extent_pos
  have at_ := leafAt_places visited found
  have shifted : ∀ place shift offset : Word64,
      place + (offset - 0x1000000000000#64) = offset + shift ↔
        place = shift + 0x1000000000000#64 := by
    intro place shift offset
    constructor
    · intro same
      bv_omega
    · rintro rfl
      bv_omega
  rw [at_.address_end, at_.virtual, if_neg (by omega), halfJump, shifted]
  have start := shifted (BitVec.ofNat 64 (visit.start * 4096)) 0#64 paging.higherHalfOffset
  rw [BitVec.add_zero] at start
  rw [start]
  simp only [← BitVec.toNat_inj, BitVec.toNat_add, BitVec.toNat_ofNat]
  omega

section Supported

variable (supported : ∀ half, paging.root half ≠ 0#64 →
  Supported (walkFormat paging.higherHalfOffset) (paging.tree half) tables)

include supported

theorem leaves_places (half : Bool) :
    (places paging tables half).filterMap (Visit.leaf? (walkFormat paging.higherHalfOffset)) =
      halfLeaves paging tables half := by
  rw [places, Paging.halfVisits, halfLeaves]
  split_ifs with missing
  · rfl
  · have sameFormat : (paging.tree half).format = (walkFormat paging.higherHalfOffset).format := rfl
    exact @leaves_visitsL1 _ (paging.tree half) tables half sameFormat (supported half missing)

theorem mem_halfLeaves : leaf ∈ halfLeaves paging tables half ↔
    ∃ visit ∈ places paging tables half,
      leaf ∈ visit.leaf? (walkFormat paging.higherHalfOffset) := by
  rw [← leaves_places supported half]
  exact List.mem_filterMap

/-- The last place of the walk is a page. -/
theorem endsInLeaf_iff : EndsInLeaf paging tables ↔
    ∃ visit ∈ places paging tables false ++ places paging tables true,
      ∃ leaf ∈ visit.leaf? (walkFormat paging.higherHalfOffset), visit.stop = paging.walkEnd := by
  rw [EndsInLeaf, Paging.walkEnd]
  by_cases missing2 : paging.root2 = 0#64
  · have noHigh : places paging tables true = [] := if_pos missing2
    rw [if_pos missing2, if_pos missing2, noHigh, List.append_nil]
    constructor
    · rintro ⟨leaf, member, ends⟩
      rcases (mem_halfLeaves supported).mp member with ⟨visit, visited, found⟩
      have missing1 : paging.root1 ≠ 0#64 := (mem_places visited).1
      rw [if_neg missing1]
      exact ⟨visit, visited, leaf, found, (low_address_iff visited found).mp ends⟩
    · rintro ⟨visit, visited, leaf, found, ends⟩
      have missing1 : paging.root1 ≠ 0#64 := (mem_places visited).1
      rw [if_neg missing1] at ends
      exact ⟨leaf, (mem_halfLeaves supported).mpr ⟨visit, visited, found⟩,
        (low_address_iff visited found).mpr ends⟩
  · rw [if_neg missing2, if_neg missing2]
    constructor
    · rintro ⟨leaf, member, ends⟩
      rcases (mem_halfLeaves supported).mp member with ⟨visit, visited, found⟩
      exact ⟨visit, List.mem_append_right _ visited, leaf, found,
        (high_address_iff visited found).1.mp ends⟩
    · rintro ⟨visit, visited, leaf, found, ends⟩
      rcases List.mem_append.mp visited with low | high
      · have bounds := (bounds_places low).2
        rw [halfStart, if_neg Bool.false_ne_true] at bounds
        omega
      · exact ⟨leaf, (mem_halfLeaves supported).mpr ⟨visit, high, found⟩,
          (high_address_iff high found).1.mpr ends⟩

/-- Two pages at the border, of which the second continues the first. -/
theorem continuesOverRoots_iff : ContinuesOverRoots paging tables ↔
    halfJump paging ≠ 0#64 ∧
      ∃ visit ∈ places paging tables false ++ places paging tables true,
      ∃ leaf ∈ visit.leaf? (walkFormat paging.higherHalfOffset),
      ∃ later ∈ places paging tables false ++ places paging tables true,
      ∃ other ∈ later.leaf? (walkFormat paging.higherHalfOffset),
        visit.stop = 2 ^ 36 ∧ later.start = 2 ^ 36 ∧ leaf.Continues other := by
  have noJump : halfJump paging = 0#64 ↔ paging.higherHalfOffset = 0x1000000000000#64 := by
    rw [halfJump]
    constructor
    · intro isZero
      bv_omega
    · intro same
      rw [same, BitVec.sub_self]
  rw [ContinuesOverRoots, Ne, Ne, noJump]
  apply and_congr_right
  intro _
  constructor
  · rintro ⟨below, belowMember, above, aboveMember, ends, starts, continues⟩
    rcases (mem_halfLeaves supported).mp belowMember with ⟨visit, visited, found⟩
    rcases (mem_halfLeaves supported).mp aboveMember with ⟨later, laterVisited, otherFound⟩
    exact ⟨visit, List.mem_append_left _ visited, below, found, later,
      List.mem_append_right _ laterVisited, above, otherFound,
      (low_address_iff visited found).mp ends,
      (high_address_iff laterVisited otherFound).2.mp starts, continues⟩
  · rintro ⟨visit, visited, below, found, later, laterVisited, above, otherFound, stops, starts,
      continues⟩
    have inLow : visit ∈ places paging tables false := by
      rcases List.mem_append.mp visited with low | high
      · exact low
      · have bounds := (bounds_places high).1
        have positive := visit.extent_pos
        rw [halfStart, if_pos rfl] at bounds
        rw [Visit.stop] at stops
        omega
    have inHigh : later ∈ places paging tables true := by
      rcases List.mem_append.mp laterVisited with low | high
      · have bounds := (bounds_places low).2
        have positive := later.extent_pos
        rw [halfStart, if_neg Bool.false_ne_true, Visit.stop] at bounds
        omega
      · exact high
    exact ⟨below, (mem_halfLeaves supported).mpr ⟨visit, inLow, found⟩, above,
      (mem_halfLeaves supported).mpr ⟨later, inHigh, otherFound⟩,
      (low_address_iff inLow found).mpr stops, (high_address_iff inHigh otherFound).2.mpr starts,
      continues⟩

/-- The ranges on aarch64. -/
theorem lossless_iff :
    Lossless (walkFormat paging.higherHalfOffset) tables (· + paging.pageTableOffset) paging.roots
        (halfLeaves paging tables false ++ halfLeaves paging tables true) ↔
      ¬EndsInLeaf paging tables ∧ ¬ContinuesOverRoots paging tables := by
  rcases tiles_visits paging (walkFormat paging.higherHalfOffset) tables
    (· + paging.pageTableOffset) with ⟨lower, tiles⟩
  have bound : paging.walkEnd < 2 ^ 64 := Nat.lt_of_le_of_lt paging.walkEnd_le (by decide)
  have goesOn : ∀ visit ∈ visits (walkFormat paging.higherHalfOffset) tables
      (· + paging.pageTableOffset) paging.roots, ∀ panic, visit.found ≠ .unsupported panic := by
    intro visit visited panic
    rw [visits_roots] at visited
    rcases List.mem_append.mp visited with low | high
    · exact supported_visitsL1 (supported false (mem_places low).1) visit (mem_places low).2
    · exact supported_visitsL1 (supported true (mem_places high).1) visit (mem_places high).2
  have leafAt : ∀ visit ∈ visits (walkFormat paging.higherHalfOffset) tables
      (· + paging.pageTableOffset) paging.roots,
      ∀ leaf ∈ visit.leaf? (walkFormat paging.higherHalfOffset),
        LeafAt (2 ^ 36) (halfJump paging) visit leaf := by
    intro visit visited leaf found
    rw [visits_roots] at visited
    rcases List.mem_append.mp visited with low | high
    · exact leafAt_places low found
    · exact leafAt_places high found
  have byPlaces := lossless_iff_visits (by decide) tiles bound goesOn leafAt
  rw [visits_roots, List.filterMap_append, leaves_places supported, leaves_places supported]
    at byPlaces
  rw [byPlaces, endsInLeaf_iff supported, continuesOverRoots_iff supported]
  apply and_congr
  · simp only [not_exists, not_and, ne_eq]
  · constructor
    · rintro noJump ⟨jumps, visit, visited, leaf, found, later, laterVisited, other, otherFound,
        stops, starts, continues⟩
      exact jumps (noJump visit visited leaf found later laterVisited other otherFound stops starts
        continues)
    · intro noMerge visit visited leaf found later laterVisited other otherFound stops starts
        continues
      by_contra jumps
      exact noMerge ⟨jumps, visit, visited, leaf, found, later, laterVisited, other, otherFound,
        stops, starts, continues⟩

end Supported

end Walk

end Dvnetos.PageTables.Aarch64
