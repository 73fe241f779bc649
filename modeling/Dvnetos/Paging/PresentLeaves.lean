import Dvnetos.Paging.HardwareWalk
import Dvnetos.Paging.RangeRuns

/-!
# The present leaves of a tree

All pages a tree maps, in the order of their indexes and as the walk of the architecture
describes them. The walk comes by each of them once, and by no other page.
-/

namespace Dvnetos.PageTables

/-- A page, with the flags that `pageTableToRanges` keeps. -/
structure Leaf where
  virtualAddress : Word64
  physicalAddress : Word64
  size : Word64
  flags : Word64

/-- The page that an entry maps, as the walk reports it. -/
def leafOf (walk : WalkFormat) (higherHalf : Bool) (path : List Index) (entry : Word64) : Leaf :=
  { virtualAddress := walk.pageIndexesToVirtual higherHalf path.reverse
    physicalAddress :=
      if path.length = 3 then walk.blockAddress entry else entry &&& ~~~pageFlagsMask
    size := if path.length = 3 then hugePageSize else pageSize
    flags := walk.rangeFlags
      (if path.length = 3 then walk.blockFlags entry else walk.pageFlags entry) }

section Leaves

variable (walk : WalkFormat) (tree : PageTree) (tables : Word64 → Index → Word64)
variable (higherHalf : Bool)

/-- The pages below a table of level 4. -/
def leavesL4 (i j k : Index) : List Leaf :=
  (List.finRange 512).flatMap fun l =>
    ((tree.leaf tables [l, k, j, i]).map (leafOf walk higherHalf [l, k, j, i])).toList

/-- The pages below a table of level 3, in the order of their addresses. -/
def leavesL3 (i j : Index) : List Leaf :=
  (List.finRange 512).flatMap fun k =>
    match tree.leaf tables [k, j, i] with
    | some entry => [leafOf walk higherHalf [k, j, i] entry]
    | none => leavesL4 walk tree tables higherHalf i j k

/-- The pages of the tree in the order of their indexes, those of 2 MiB and those of 4 KiB. -/
def presentLeaves : List Leaf :=
  (List.finRange 512).flatMap fun i =>
    (List.finRange 512).flatMap fun j => leavesL3 walk tree tables higherHalf i j

/-- No entry stops the walk. -/
structure Supported : Prop where
  level1 : ∀ i entry, tree.entry tables [i] = some entry → Present entry →
    walk.unsupportedL1 entry = none
  level2 : ∀ i j entry, tree.entry tables [j, i] = some entry → Present entry →
    walk.unsupportedL2 entry = none

variable {walk tree tables higherHalf}

/-- The present leaves are the pages of the tree. -/
theorem mem_presentLeaves_iff {leaf : Leaf} :
    leaf ∈ presentLeaves walk tree tables higherHalf ↔ ∃ path entry,
      tree.leaf tables path = some entry ∧ leaf = leafOf walk higherHalf path entry := by
  simp only [presentLeaves, List.mem_flatMap, List.mem_finRange, true_and]
  constructor
  · rintro ⟨i, j, member⟩
    rw [leavesL3, List.mem_flatMap] at member
    rcases member with ⟨k, -, member⟩
    split at member
    · next entry found => exact ⟨_, entry, found, List.mem_singleton.mp member⟩
    · rw [leavesL4, List.mem_flatMap] at member
      rcases member with ⟨l, -, member⟩
      rw [Option.mem_toList, Option.map_eq_some_iff] at member
      rcases member with ⟨entry, found, isLeaf⟩
      exact ⟨_, entry, found, isLeaf.symm⟩
  · rintro ⟨path, entry, found, rfl⟩
    rcases (PageTree.leaf_eq_some_iff.mp found).2.2 with four | ⟨three, -⟩
    · rcases List.length_eq_four.mp four with ⟨l, k, j, i, rfl⟩
      refine ⟨i, j, List.mem_flatMap.mpr ⟨k, List.mem_finRange k, ?_⟩⟩
      rw [PageTree.leaf_above rfl found]
      refine List.mem_flatMap.mpr ⟨l, List.mem_finRange l, ?_⟩
      simp [found]
    · rcases List.length_eq_three.mp three with ⟨k, j, i, rfl⟩
      refine ⟨i, j, List.mem_flatMap.mpr ⟨k, List.mem_finRange k, ?_⟩⟩
      simp [found]

theorem leavesL4_of_no_table {i j k : Index} (closed : tree.table tables [k, j, i] = none) :
    leavesL4 walk tree tables higherHalf i j k = [] := by
  rw [leavesL4, List.flatMap_eq_nil_iff]
  intro l _
  rw [PageTree.leaf_of_no_table closed l]
  rfl

theorem leavesL3_of_no_table {i j : Index} (closed : tree.table tables [j, i] = none) :
    leavesL3 walk tree tables higherHalf i j = [] := by
  rw [leavesL3, List.flatMap_eq_nil_iff]
  intro k _
  rw [PageTree.leaf_of_no_table closed k]
  exact leavesL4_of_no_table (PageTree.table_of_no_table closed k)

theorem leavesL2_of_no_table {i : Index} (closed : tree.table tables [i] = none) :
    ((List.finRange 512).flatMap fun j => leavesL3 walk tree tables higherHalf i j) = [] := by
  rw [List.flatMap_eq_nil_iff]
  intro j _
  exact leavesL3_of_no_table (PageTree.table_of_no_table closed j)

/-- The page the walk finds at a place. -/
def Visit.leaf? (walk : WalkFormat) (visit : Visit) : Option Leaf :=
  match visit.found with
  | .leaf entry => some (leafOf walk visit.higherHalf visit.path entry)
  | .missing => none
  | .unsupported _ => none

theorem leaves_visitsL4 {i j k : Index} {l4Table : Word64}
    (reached : tree.table tables [k, j, i] = some l4Table) :
    (visitsL4 tables higherHalf i j k l4Table).filterMap (Visit.leaf? walk) =
      leavesL4 walk tree tables higherHalf i j k := by
  rw [visitsL4, leavesL4, List.filterMap_flatMap]
  apply List.flatMap_congr
  intro l _
  by_cases present : Present (tables l4Table l)
  · rw [PageTree.leaf_of_page rfl reached present]
    simp [Visit.leaf?, present]
  · rw [PageTree.no_leaf_of_absent reached present]
    simp [Visit.leaf?, present]

variable (sameFormat : tree.format = walk.format)

include sameFormat

theorem leaves_visitsL3 {i j : Index} {l3Table : Word64}
    (reached : tree.table tables [j, i] = some l3Table) :
    (visitsL3 walk tables (· + tree.pageTableOffset) higherHalf i j l3Table).filterMap
      (Visit.leaf? walk) = leavesL3 walk tree tables higherHalf i j := by
  rw [visitsL3, leavesL3, List.filterMap_flatMap]
  apply List.flatMap_congr
  intro k _
  by_cases present : Present (tables l3Table k)
  · by_cases block : walk.format.block (tables l3Table k) = true
    · have leaf := PageTree.leaf_of_block rfl reached present (sameFormat ▸ block)
      simp only [if_pos present, if_pos block, leaf]
      rfl
    · have link : tree.format.block (tables l3Table k) = false := by
        rw [sameFormat]
        exact Bool.eq_false_iff.mpr block
      have below := PageTree.table_below reached k (by simp) present fun _ => link
      simp only [if_pos present, if_neg block, PageTree.no_leaf_of_link (by simp) reached link]
      exact leaves_visitsL4 below
  · have closed := PageTree.no_table_below reached present
    simp only [if_neg present, PageTree.no_leaf_of_absent reached present,
      leavesL4_of_no_table closed]
    rfl

variable (supported : Supported walk tree tables)

include supported

theorem leaves_visitsL2 {i : Index} {l2Table : Word64}
    (reached : tree.table tables [i] = some l2Table) :
    (visitsL2 walk tables (· + tree.pageTableOffset) higherHalf i l2Table).filterMap
      (Visit.leaf? walk) =
        (List.finRange 512).flatMap fun j => leavesL3 walk tree tables higherHalf i j := by
  rw [visitsL2, List.filterMap_flatMap]
  apply List.flatMap_congr
  intro j _
  by_cases present : Present (tables l2Table j)
  · have goesOn := supported.level2 i j _ (PageTree.entry_of_table reached j) present
    have below := PageTree.table_below reached j (by simp) present (by intro two; cases two)
    simp only [if_pos present, goesOn]
    exact leaves_visitsL3 sameFormat below
  · have closed := PageTree.no_table_below reached present
    simp only [if_neg present, leavesL3_of_no_table closed]
    rfl

/-- The walk from a root finds the pages of the tree. -/
theorem leaves_visitsL1 :
    (visitsL1 walk tables (· + tree.pageTableOffset) higherHalf tree.root).filterMap
      (Visit.leaf? walk) = presentLeaves walk tree tables higherHalf := by
  have reached : tree.table tables [] = some tree.root := rfl
  rw [visitsL1, presentLeaves, List.filterMap_flatMap]
  apply List.flatMap_congr
  intro i _
  by_cases present : Present (tables tree.root i)
  · have goesOn := supported.level1 i _ (PageTree.entry_of_table reached i) present
    have below := PageTree.table_below reached i (by decide) present (by intro two; cases two)
    simp only [if_pos present, goesOn]
    exact leaves_visitsL2 sameFormat supported below
  · have closed := PageTree.no_table_below reached present
    simp only [if_neg present, leavesL2_of_no_table closed]
    rfl

omit sameFormat supported in
theorem supported_visitsL4 {i j k : Index} {l4Table : Word64} {panic : Panic} :
    ∀ visit ∈ visitsL4 tables higherHalf i j k l4Table, visit.found ≠ .unsupported panic := by
  intro visit visited
  rw [visitsL4, List.mem_flatMap] at visited
  rcases visited with ⟨l, _, here⟩
  rw [List.mem_singleton.mp here]
  dsimp only
  split_ifs <;> simp

omit sameFormat supported in
theorem supported_visitsL3 {mapFunc : Word64 → Word64} {i j : Index} {l3Table : Word64}
    {panic : Panic} : ∀ visit ∈ visitsL3 walk tables mapFunc higherHalf i j l3Table,
      visit.found ≠ .unsupported panic := by
  intro visit visited
  rw [visitsL3, List.mem_flatMap] at visited
  rcases visited with ⟨k, _, here⟩
  dsimp only at here
  split_ifs at here
  · simp [List.mem_singleton.mp here]
  · exact supported_visitsL4 visit here
  · simp [List.mem_singleton.mp here]

omit sameFormat in
/-- The walk stops nowhere. -/
theorem supported_visitsL1 {panic : Panic} :
    ∀ visit ∈ visitsL1 walk tables (· + tree.pageTableOffset) higherHalf tree.root,
      visit.found ≠ .unsupported panic := by
  have reached : tree.table tables [] = some tree.root := rfl
  intro visit visited
  rw [visitsL1, List.mem_flatMap] at visited
  rcases visited with ⟨i, _, here⟩
  dsimp only at here
  split_ifs at here with present1
  · have goesOn1 := supported.level1 i _ (PageTree.entry_of_table reached i) present1
    have below := PageTree.table_below reached i (by decide) present1 (by intro two; cases two)
    rw [goesOn1] at here
    dsimp only at here
    rw [visitsL2, List.mem_flatMap] at here
    rcases here with ⟨j, _, here⟩
    dsimp only at here
    split_ifs at here with present2
    · have goesOn2 := supported.level2 i j _ (PageTree.entry_of_table below j) present2
      rw [goesOn2] at here
      exact supported_visitsL3 visit here
    · simp [List.mem_singleton.mp here]
  · simp [List.mem_singleton.mp here]

end Leaves

end Dvnetos.PageTables
