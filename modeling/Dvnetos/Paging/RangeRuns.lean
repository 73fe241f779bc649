import Dvnetos.Lib.Tiling
import Dvnetos.Paging.PageNumbers
import Dvnetos.Paging.PageTree
import Dvnetos.Paging.Ranges

/-!
# The ranges of a walk

The walk through the tables is one loop over the places it visits, and these places
tile the address space. So the pages of a reported range follow each other without
a gap, and each of them is a page of the tables that are walked.
-/

namespace Dvnetos.PageTables

open Fallible Tiling

/-- What the walk finds at a place. -/
inductive Found
  | leaf (entry : Word64)
  | missing
  | unsupported (panic : Panic)

/-- A place the walk visits, by its path with the deepest index first. -/
structure Visit where
  higherHalf : Bool
  path : List Index
  found : Found

/-- The number of the first page of a half. -/
def halfStart (higherHalf : Bool) : ℕ := if higherHalf then 2 ^ 36 else 0

namespace Visit

/-- The number of the first page that a visit is about. -/
def start (visit : Visit) : ℕ := halfStart visit.higherHalf + pathNumber visit.path

/-- How many pages of 4 KiB a visit is about. -/
def extent (visit : Visit) : ℕ := 512 ^ (4 - visit.path.length)

end Visit

section Visits

variable (walk : WalkFormat) (tables : Word64 → Index → Word64) (mapFunc : Word64 → Word64)

/-- The visits of a table of level 4. -/
def visitsL4 (higherHalf : Bool) (i j k : Index) (l4Table : Word64) : List Visit :=
  (List.finRange 512).flatMap fun l =>
    let entry := tables l4Table l
    [⟨higherHalf, [l, k, j, i], if Present entry then .leaf entry else .missing⟩]

/-- The visits of a table of level 3 and of those below it. -/
def visitsL3 (higherHalf : Bool) (i j : Index) (l3Table : Word64) : List Visit :=
  (List.finRange 512).flatMap fun k =>
    let entry := tables l3Table k
    if Present entry then
      if walk.format.block entry then [⟨higherHalf, [k, j, i], .leaf entry⟩]
      else visitsL4 tables higherHalf i j k (mapFunc (entry &&& ~~~pageFlagsMask))
    else [⟨higherHalf, [k, j, i], .missing⟩]

/-- The visits of a table of level 2 and of those below it. -/
def visitsL2 (higherHalf : Bool) (i : Index) (l2Table : Word64) : List Visit :=
  (List.finRange 512).flatMap fun j =>
    let entry := tables l2Table j
    if Present entry then
      match walk.unsupportedL2 entry with
      | some panic => [⟨higherHalf, [j, i], .unsupported panic⟩]
      | none => visitsL3 walk tables mapFunc higherHalf i j (mapFunc (entry &&& ~~~pageFlagsMask))
    else [⟨higherHalf, [j, i], .missing⟩]

/-- The visits of a table of level 1 and of those below it. -/
def visitsL1 (higherHalf : Bool) (table : Word64) : List Visit :=
  (List.finRange 512).flatMap fun i =>
    let entry := tables table i
    if Present entry then
      match walk.unsupportedL1 entry with
      | some panic => [⟨higherHalf, [i], .unsupported panic⟩]
      | none => visitsL2 walk tables mapFunc higherHalf i (mapFunc (entry &&& ~~~pageFlagsMask))
    else [⟨higherHalf, [i], .missing⟩]

/-- The visits of all roots, one after another. -/
def visits (roots : List (Bool × Word64)) : List Visit :=
  roots.flatMap fun (higherHalf, root) => visitsL1 walk tables mapFunc higherHalf root

end Visits

section Loop

variable {State : Type} (walk : WalkFormat) (tables : Word64 → Index → Word64)
variable (mapFunc : Word64 → Word64)
variable (leafCallback : Word64 → Word64 → Word64 → Word64 → State → Except Panic (Bool × State))
variable (missingCallback : Word64 → State → Except Panic (Bool × State))

/-- What the walk does at a place. -/
def Visit.run (visit : Visit) (state : State) : Except Panic (Bool × State) :=
  let virtual := walk.pageIndexesToVirtual visit.higherHalf visit.path.reverse
  match visit.found with
  | .leaf entry =>
      if visit.path.length = 3 then
        leafCallback virtual (walk.blockAddress entry) (walk.blockFlags entry) hugePageSize state
      else
        leafCallback virtual (entry &&& ~~~pageFlagsMask) (walk.pageFlags entry) pageSize state
  | .missing => missingCallback virtual state
  | .unsupported panic => .error panic

theorem Visit.run_huge {path : List Index} (three : path.length = 3) (higherHalf : Bool)
    (entry : Word64) :
    Visit.run walk leafCallback missingCallback ⟨higherHalf, path, .leaf entry⟩ =
      leafCallback (walk.pageIndexesToVirtual higherHalf path.reverse) (walk.blockAddress entry)
        (walk.blockFlags entry) hugePageSize := by
  funext state
  simp only [Visit.run, if_pos three]

theorem Visit.run_small {path : List Index} (notThree : path.length ≠ 3) (higherHalf : Bool)
    (entry : Word64) :
    Visit.run walk leafCallback missingCallback ⟨higherHalf, path, .leaf entry⟩ =
      leafCallback (walk.pageIndexesToVirtual higherHalf path.reverse)
        (entry &&& ~~~pageFlagsMask) (walk.pageFlags entry) pageSize := by
  funext state
  simp only [Visit.run, if_neg notThree]

theorem walkL4_eq (higherHalf : Bool) (i j k : Index) (l4Table : Word64) :
    walkL4 walk tables leafCallback missingCallback higherHalf i j k l4Table =
      forEach (Visit.run walk leafCallback missingCallback)
        (visitsL4 tables higherHalf i j k l4Table) := by
  funext state
  rw [walkL4, visitsL4, forEach_flatMap]
  congr 1
  funext l state
  rw [forEach_singleton]
  by_cases present : Present (tables l4Table l)
  · simp [Visit.run, present]
  · simp [Visit.run, present]

theorem walkL3_eq (higherHalf : Bool) (i j : Index) (l3Table : Word64) :
    walkL3 walk tables mapFunc leafCallback missingCallback higherHalf i j l3Table =
      forEach (Visit.run walk leafCallback missingCallback)
        (visitsL3 walk tables mapFunc higherHalf i j l3Table) := by
  funext state
  rw [walkL3, visitsL3, forEach_flatMap]
  congr 1
  funext k state
  by_cases present : Present (tables l3Table k)
  · by_cases block : walk.format.block (tables l3Table k) = true
    · simp only [if_pos present, if_pos block, forEach_singleton]
      rfl
    · simp only [if_pos present, if_neg block, walkL4_eq]
  · simp only [if_neg present, forEach_singleton]
    rfl

theorem walkL2_eq (higherHalf : Bool) (i : Index) (l2Table : Word64) :
    walkL2 walk tables mapFunc leafCallback missingCallback higherHalf i l2Table =
      forEach (Visit.run walk leafCallback missingCallback)
        (visitsL2 walk tables mapFunc higherHalf i l2Table) := by
  funext state
  rw [walkL2, visitsL2, forEach_flatMap]
  congr 1
  funext j state
  by_cases present : Present (tables l2Table j)
  · simp only [if_pos present]
    cases walk.unsupportedL2 (tables l2Table j) with
    | some panic => rw [forEach_singleton]; rfl
    | none => simp only [walkL3_eq]
  · simp only [if_neg present, forEach_singleton]
    rfl

theorem walkL1_eq (higherHalf : Bool) (table : Word64) :
    walkL1 walk tables mapFunc leafCallback missingCallback higherHalf table =
      forEach (Visit.run walk leafCallback missingCallback)
        (visitsL1 walk tables mapFunc higherHalf table) := by
  funext state
  rw [walkL1, visitsL1, forEach_flatMap]
  congr 1
  funext i state
  by_cases present : Present (tables table i)
  · simp only [if_pos present]
    cases walk.unsupportedL1 (tables table i) with
    | some panic => rw [forEach_singleton]; rfl
    | none => simp only [walkL2_eq]
  · simp only [if_neg present, forEach_singleton]
    rfl

theorem walkPageTableLeaf_eq (roots : List (Bool × Word64)) :
    walkPageTableLeaf walk tables mapFunc leafCallback missingCallback roots =
      forEach (Visit.run walk leafCallback missingCallback)
        (visits walk tables mapFunc roots) := by
  funext state
  rw [walkPageTableLeaf, visits, forEach_flatMap]
  simp only [walkL1_eq]

end Loop

section Tile

variable (walk : WalkFormat) (tables : Word64 → Index → Word64) (mapFunc : Word64 → Word64)

theorem tiles_place (higherHalf : Bool) (index : Index) (path : List Index) (found : Found)
    (width : ℕ) (size : 512 ^ (4 - (path.length + 1)) = width) (base : ℕ)
    (first : base = halfStart higherHalf + pathDigits path * 512 * width) :
    Tiles Visit.start Visit.extent (base + index.val * width)
      [⟨higherHalf, index :: path, found⟩] (base + (index.val + 1) * width) := by
  apply tiles_singleton
  · rw [Visit.start, pathNumber, pathDigits, List.length_cons, size, first]
    ring
  · rw [Visit.extent, List.length_cons, size]
    ring

theorem tiles_visitsL4 (higherHalf : Bool) (i j k : Index) (l4Table : Word64) :
    let base := halfStart higherHalf + pathDigits [k, j, i] * 512
    Tiles Visit.start Visit.extent base (visitsL4 tables higherHalf i j k l4Table)
      (base + 512 * 1) := by
  rw [visitsL4]
  apply tiles_flatMap_finRange 512 1
  intro l
  exact tiles_place higherHalf l [k, j, i] _ 1 rfl _ (by simp)

theorem tiles_visitsL3 (higherHalf : Bool) (i j : Index) (l3Table : Word64) :
    let base := halfStart higherHalf + pathDigits [j, i] * 512 * 512
    Tiles Visit.start Visit.extent base (visitsL3 walk tables mapFunc higherHalf i j l3Table)
      (base + 512 * 512) := by
  rw [visitsL3]
  apply tiles_flatMap_finRange 512 512
  intro k
  have place := fun found => tiles_place higherHalf k [j, i] found 512 rfl _ rfl
  dsimp only
  split_ifs
  · exact place _
  · have below :=
      tiles_visitsL4 tables higherHalf i j k (mapFunc (tables l3Table k &&& ~~~pageFlagsMask))
    convert below using 1
    · simp only [pathDigits]
      ring
    · simp only [pathDigits]
      ring
  · exact place _

theorem tiles_visitsL2 (higherHalf : Bool) (i : Index) (l2Table : Word64) :
    let base := halfStart higherHalf + pathDigits [i] * 512 * 512 ^ 2
    Tiles Visit.start Visit.extent base (visitsL2 walk tables mapFunc higherHalf i l2Table)
      (base + 512 * 512 ^ 2) := by
  rw [visitsL2]
  apply tiles_flatMap_finRange 512 (512 ^ 2)
  intro j
  have place := fun found => tiles_place higherHalf j [i] found (512 ^ 2) rfl _ rfl
  dsimp only
  split_ifs
  · cases walk.unsupportedL2 (tables l2Table j) with
    | some panic => exact place _
    | none =>
        have below := tiles_visitsL3 walk tables mapFunc higherHalf i j
          (mapFunc (tables l2Table j &&& ~~~pageFlagsMask))
        convert below using 1
        · simp only [pathDigits]
          ring
        · simp only [pathDigits]
          ring
  · exact place _

theorem tiles_visitsL1 (higherHalf : Bool) (table : Word64) :
    Tiles Visit.start Visit.extent (halfStart higherHalf)
      (visitsL1 walk tables mapFunc higherHalf table) (halfStart higherHalf + 2 ^ 36) := by
  have whole : Tiles Visit.start Visit.extent (halfStart higherHalf)
      (visitsL1 walk tables mapFunc higherHalf table)
      (halfStart higherHalf + 512 * 512 ^ 3) := by
    rw [visitsL1]
    apply tiles_flatMap_finRange 512 (512 ^ 3)
    intro i
    have place := fun found => tiles_place higherHalf i [] found (512 ^ 3) rfl
      (halfStart higherHalf) (by rw [pathDigits]; ring)
    dsimp only
    split_ifs
    · cases walk.unsupportedL1 (tables table i) with
      | some panic => exact place _
      | none =>
          have below := tiles_visitsL2 walk tables mapFunc higherHalf i
            (mapFunc (tables table i &&& ~~~pageFlagsMask))
          convert below using 1
          · simp only [pathDigits]
            ring
          · simp only [pathDigits]
            ring
    · exact place _
  exact whole

end Tile

section Halves

variable {walk : WalkFormat} {tables : Word64 → Index → Word64} {mapFunc : Word64 → Word64}
variable {half : Bool}

theorem half_of_visitsL4 {i j k : Index} {l4Table : Word64} :
    ∀ visit ∈ visitsL4 tables half i j k l4Table, visit.higherHalf = half := by
  intro visit visited
  rw [visitsL4, List.mem_flatMap] at visited
  rcases visited with ⟨l, _, here⟩
  rw [List.mem_singleton.mp here]

theorem half_of_visitsL3 {i j : Index} {l3Table : Word64} :
    ∀ visit ∈ visitsL3 walk tables mapFunc half i j l3Table, visit.higherHalf = half := by
  intro visit visited
  rw [visitsL3, List.mem_flatMap] at visited
  rcases visited with ⟨k, _, here⟩
  dsimp only at here
  split_ifs at here
  · rw [List.mem_singleton.mp here]
  · exact half_of_visitsL4 visit here
  · rw [List.mem_singleton.mp here]

theorem half_of_visitsL2 {i : Index} {l2Table : Word64} :
    ∀ visit ∈ visitsL2 walk tables mapFunc half i l2Table, visit.higherHalf = half := by
  intro visit visited
  rw [visitsL2, List.mem_flatMap] at visited
  rcases visited with ⟨j, _, here⟩
  dsimp only at here
  split_ifs at here
  · cases supported : walk.unsupportedL2 (tables l2Table j) with
    | some panic =>
        rw [supported] at here
        rw [List.mem_singleton.mp here]
    | none =>
        rw [supported] at here
        exact half_of_visitsL3 visit here
  · rw [List.mem_singleton.mp here]

theorem half_of_visitsL1 {table : Word64} :
    ∀ visit ∈ visitsL1 walk tables mapFunc half table, visit.higherHalf = half := by
  intro visit visited
  rw [visitsL1, List.mem_flatMap] at visited
  rcases visited with ⟨i, _, here⟩
  dsimp only at here
  split_ifs at here
  · cases supported : walk.unsupportedL1 (tables table i) with
    | some panic =>
        rw [supported] at here
        rw [List.mem_singleton.mp here]
    | none =>
        rw [supported] at here
        exact half_of_visitsL2 visit here
  · rw [List.mem_singleton.mp here]

end Halves

/-- The path leads to a page that the walk reports and does not stop at. -/
structure Genuine (walk : WalkFormat) (tree : PageTree) (tables : Word64 → Index → Word64)
    (path : List Index) (entry : Word64) : Prop where
  leaf : tree.leaf tables path = some entry
  supported : ∃ front i j, path = front ++ [j, i] ∧ front ≠ [] ∧
    (∀ above, tree.entry tables [i] = some above → walk.unsupportedL1 above = none) ∧
    (∀ above, tree.entry tables [j, i] = some above → walk.unsupportedL2 above = none)

section Found

variable {walk : WalkFormat} {tree : PageTree} {tables : Word64 → Index → Word64}
variable (sameFormat : tree.format = walk.format)
variable {higherHalf : Bool}

theorem leaf_of_visitsL4 {i j k : Index} {l4Table : Word64}
    (reached : tree.table tables [k, j, i] = some l4Table) :
    ∀ visit ∈ visitsL4 tables higherHalf i j k l4Table, ∀ entry, visit.found = .leaf entry →
      tree.leaf tables visit.path = some entry ∧ ∃ l, visit.path = [l, k, j, i] := by
  intro visit visited entry found
  rw [visitsL4, List.mem_flatMap] at visited
  rcases visited with ⟨l, _, here⟩
  rw [List.mem_singleton] at here
  subst here
  dsimp only at found
  split_ifs at found with present
  cases found
  refine ⟨?_, l, rfl⟩
  rw [PageTree.leaf_of_table reached, if_pos]
  exact ⟨present, Or.inl rfl⟩

include sameFormat

theorem leaf_of_visitsL3 {i j : Index} {l3Table : Word64}
    (reached : tree.table tables [j, i] = some l3Table) :
    ∀ visit ∈ visitsL3 walk tables (· + tree.pageTableOffset) higherHalf i j l3Table, ∀ entry,
      visit.found = .leaf entry →
      tree.leaf tables visit.path = some entry ∧
        ∃ front, visit.path = front ++ [j, i] ∧ front ≠ [] := by
  intro visit visited entry found
  rw [visitsL3, List.mem_flatMap] at visited
  rcases visited with ⟨k, _, here⟩
  dsimp only at here
  split_ifs at here with present block
  · rw [List.mem_singleton] at here
    subst here
    cases found
    refine ⟨?_, [k], rfl, by simp⟩
    rw [PageTree.leaf_of_table reached, if_pos]
    exact ⟨present, Or.inr ⟨rfl, by rw [sameFormat]; exact block⟩⟩
  · have below := PageTree.table_below reached k (by simp) present (fun _ => by
      rw [sameFormat]
      exact Bool.eq_false_iff.mpr block)
    rcases leaf_of_visitsL4 below visit here entry found with ⟨isLeaf, l, path⟩
    exact ⟨isLeaf, [l, k], path, by simp⟩
  · rw [List.mem_singleton] at here
    subst here
    cases found

theorem leaf_of_visitsL2 {i : Index} {l2Table : Word64}
    (reached : tree.table tables [i] = some l2Table) :
    ∀ visit ∈ visitsL2 walk tables (· + tree.pageTableOffset) higherHalf i l2Table, ∀ entry,
      visit.found = .leaf entry →
      tree.leaf tables visit.path = some entry ∧
        ∃ front j, visit.path = front ++ [j, i] ∧ front ≠ [] ∧
          (∀ above, tree.entry tables [j, i] = some above → walk.unsupportedL2 above = none) := by
  intro visit visited entry found
  rw [visitsL2, List.mem_flatMap] at visited
  rcases visited with ⟨j, _, here⟩
  dsimp only at here
  split_ifs at here with present
  · cases supported : walk.unsupportedL2 (tables l2Table j) with
    | some panic =>
        rw [supported, List.mem_singleton] at here
        subst here
        cases found
    | none =>
        rw [supported] at here
        have below := PageTree.table_below reached j (by simp) present (by intro two; cases two)
        rcases leaf_of_visitsL3 sameFormat below visit here entry found with
          ⟨isLeaf, front, path, notEmpty⟩
        refine ⟨isLeaf, front, j, path, notEmpty, ?_⟩
        intro above foundAbove
        rw [PageTree.entry_of_table reached] at foundAbove
        cases foundAbove
        exact supported
  · rw [List.mem_singleton] at here
    subst here
    cases found

theorem genuine_of_visitsL1 :
    ∀ visit ∈ visitsL1 walk tables (· + tree.pageTableOffset) higherHalf tree.root, ∀ entry,
      visit.found = .leaf entry → Genuine walk tree tables visit.path entry := by
  intro visit visited entry found
  have reached : tree.table tables [] = some tree.root := rfl
  rw [visitsL1, List.mem_flatMap] at visited
  rcases visited with ⟨i, _, here⟩
  dsimp only at here
  split_ifs at here with present
  · cases supported : walk.unsupportedL1 (tables tree.root i) with
    | some panic =>
        rw [supported, List.mem_singleton] at here
        subst here
        cases found
    | none =>
        rw [supported] at here
        have below := PageTree.table_below reached i (by decide) present (by intro two; cases two)
        rcases leaf_of_visitsL2 sameFormat below visit here entry found with
          ⟨isLeaf, front, j, path, notEmpty, supportedL2⟩
        refine ⟨isLeaf, front, i, j, path, notEmpty, ?_, supportedL2⟩
        intro above foundAbove
        rw [PageTree.entry_of_table reached] at foundAbove
        cases foundAbove
        exact supported
  · rw [List.mem_singleton] at here
    subst here
    cases found

end Found

end Dvnetos.PageTables
