import Dvnetos.Paging.LosslessPlaces
import Dvnetos.Paging.X86.Init

/-!
# Lossless ranges on x86_64

The virtual addresses of the walk jump over those that are not canonical. The reported
ranges are the present leaves exactly if the last page of the address space is not mapped
and no page behind the jump continues the one in front of it.
-/

namespace Dvnetos.PageTables.X86

open RunLength Tiling

/-- The last page of the address space is mapped. -/
def EndsInLeaf (leaves : List Leaf) : Prop :=
  ∃ leaf ∈ leaves, leaf.virtualAddress + leaf.size = 0#64

/-- A page behind the addresses that are not canonical continues the one in front of them. -/
def ContinuesOverHole (leaves : List Leaf) : Prop :=
  ∃ below ∈ leaves, ∃ above ∈ leaves, below.virtualAddress + below.size = 0x800000000000#64 ∧
    above.virtualAddress = 0xFFFF800000000000#64 ∧ below.Continues above

section Walk

variable {paging : Paging} {tables : Word64 → Index → Word64} {visit : Visit} {leaf : Leaf}

theorem visits_eq : visits walkFormat tables (· + paging.pageTableOffset) [(false, paging.root)] =
    visitsL1 walkFormat tables (· + paging.pageTableOffset) false paging.root := by
  simp [visits]

theorem tiles_walk : Tiles Visit.start Visit.extent 0
    (visitsL1 walkFormat tables (· + paging.pageTableOffset) false paging.root) (2 ^ 36) := by
  simpa [halfStart] using
    tiles_visitsL1 walkFormat tables (· + paging.pageTableOffset) false paging.root

theorem leafAt_walk
    (visited : visit ∈ visitsL1 walkFormat tables (· + paging.pageTableOffset) false paging.root)
    (found : leaf ∈ visit.leaf? walkFormat) :
    LeafAt (2 ^ 35) 0xFFFF000000000000#64 visit leaf := by
  have lower := half_of_visitsL1 visit visited
  have sameFormat : paging.tree.format = walkFormat.format := rfl
  rcases leaf_of_leaf? found with ⟨entry, isLeaf⟩
  have level := (genuine_of_visitsL1 sameFormat visit visited entry isLeaf).length
  apply leafAt_of_visit found level
  have start : visit.start = pathNumber visit.path := by
    rw [Visit.start, lower, halfStart, if_neg Bool.false_ne_true, Nat.zero_add]
  have bound := pathNumber_lt level
  apply BitVec.eq_of_toNat_eq
  rw [BitVec.toNat_add, BitVec.toNat_ofNat, start]
  refine (pageIndexesToVirtual_toNat level).trans ?_
  split_ifs with low
  · rw [show (0#64).toNat = 0 from rfl]
    omega
  · rw [show (0xFFFF000000000000#64).toNat = 2 ^ 64 - 2 ^ 48 from rfl]
    omega

/-- Where a page ends and starts, by its virtual address. -/
theorem address_iff (at_ : LeafAt (2 ^ 35) 0xFFFF000000000000#64 visit leaf)
    (stop : visit.stop ≤ 2 ^ 36) :
    (leaf.virtualAddress + leaf.size = 0#64 ↔ visit.stop = 2 ^ 36) ∧
      (leaf.virtualAddress + leaf.size = 0x800000000000#64 ↔ visit.stop = 2 ^ 35) ∧
      (leaf.virtualAddress = 0xFFFF800000000000#64 ↔ visit.start = 2 ^ 35) := by
  have positive := visit.extent_pos
  have inside : visit.start < visit.stop := Nat.lt_add_of_pos_right positive
  rw [at_.address_end, at_.virtual]
  simp only [← BitVec.toNat_inj, BitVec.toNat_add, BitVec.toNat_ofNat]
  rcases at_.side (by decide) with before | behind
  · rw [if_pos (by omega)]
    simp only [BitVec.toNat_ofNat]
    omega
  · rw [if_neg (by omega)]
    simp only [BitVec.toNat_ofNat]
    omega

/-- The ranges on x86_64. -/
theorem lossless_iff (supported : Supported walkFormat paging.tree tables) :
    Lossless walkFormat tables (· + paging.pageTableOffset) [(false, paging.root)]
        (presentLeaves walkFormat paging.tree tables false) ↔
      ¬EndsInLeaf (presentLeaves walkFormat paging.tree tables false) ∧
        ¬ContinuesOverHole (presentLeaves walkFormat paging.tree tables false) := by
  have sameFormat : paging.tree.format = walkFormat.format := rfl
  have tiles : Tiles Visit.start Visit.extent 0
      (visits walkFormat tables (· + paging.pageTableOffset) [(false, paging.root)]) (2 ^ 36) := by
    rw [visits_eq]
    exact tiles_walk
  have goesOn : ∀ visit ∈ visits walkFormat tables (· + paging.pageTableOffset)
      [(false, paging.root)], ∀ panic, visit.found ≠ .unsupported panic := by
    intro visit visited panic
    rw [visits_eq] at visited
    exact supported_visitsL1 supported visit visited
  have leafAt : ∀ visit ∈ visits walkFormat tables (· + paging.pageTableOffset)
      [(false, paging.root)], ∀ leaf ∈ visit.leaf? walkFormat,
        LeafAt (2 ^ 35) 0xFFFF000000000000#64 visit leaf := by
    intro visit visited leaf found
    rw [visits_eq] at visited
    exact leafAt_walk visited found
  have places := lossless_iff_visits (by decide) tiles (by decide) goesOn leafAt
  have leaves : (visits walkFormat tables (· + paging.pageTableOffset)
      [(false, paging.root)]).filterMap (Visit.leaf? walkFormat) =
        presentLeaves walkFormat paging.tree tables false := by
    rw [visits_eq]
    exact @leaves_visitsL1 walkFormat paging.tree tables false sameFormat supported
  have addresses := fun visit visited leaf found =>
    address_iff (leafAt visit visited leaf found) (tiles.le_start visited).2
  rw [leaves] at places
  rw [places, ← leaves]
  apply and_congr
  · constructor
    · rintro noEnd ⟨leaf, member, ends⟩
      rcases List.mem_filterMap.mp member with ⟨visit, visited, found⟩
      exact noEnd visit visited leaf found ((addresses visit visited leaf found).1.mp ends)
    · intro noEnd visit visited leaf found stops
      apply noEnd
      refine ⟨leaf, List.mem_filterMap.mpr ⟨visit, visited, found⟩, ?_⟩
      exact (addresses visit visited leaf found).1.mpr stops
  · constructor
    · rintro noJump ⟨below, belowMember, above, aboveMember, ends, starts, continues⟩
      rcases List.mem_filterMap.mp belowMember with ⟨visit, visited, found⟩
      rcases List.mem_filterMap.mp aboveMember with ⟨later, laterVisited, laterFound⟩
      have isZero := noJump visit visited below found later laterVisited above laterFound
        ((addresses visit visited below found).2.1.mp ends)
        ((addresses later laterVisited above laterFound).2.2.mp starts) continues
      exact absurd isZero (by decide)
    · intro noMerge visit visited leaf found later laterVisited other otherFound stops starts
        continues
      apply absurd _ noMerge
      refine ⟨leaf, List.mem_filterMap.mpr ⟨visit, visited, found⟩, other,
        List.mem_filterMap.mpr ⟨later, laterVisited, otherFound⟩, ?_, ?_, continues⟩
      · exact (addresses visit visited leaf found).2.1.mpr stops
      · exact (addresses later laterVisited other otherFound).2.2.mpr starts

end Walk

end Dvnetos.PageTables.X86
