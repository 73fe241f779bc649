import Dvnetos.Paging.RangeRuns

/-!
# The reported ranges

Whatever the callback of `pageTableToRanges` does, it is called on the same ranges.
A reported range describes pages of the tables that follow each other: the number of
the page, the virtual and the physical address all grow by one page from one page to
the next.
-/

namespace Dvnetos.PageTables

open Fallible Tiling

section Reports

variable {State : Type} {walk : WalkFormat}
variable {callback : PageTableRangeData → State → Except Panic State}
variable {state after : RangeState State}

/-- The same state of the loop with the ranges that have been reported. -/
def RangeState.remembering (state : RangeState State) (ranges : List PageTableRangeData) :
    RangeState (List PageTableRangeData) :=
  { currentBlock := state.currentBlock, inBlock := state.inBlock, data := ranges }

/-- One part of the loop reports some ranges, whichever callback it has. -/
def Reports (callback : PageTableRangeData → State → Except Panic State)
    (part : RangeState (List PageTableRangeData) →
      Except Panic (Bool × RangeState (List PageTableRangeData)))
    (before after : RangeState State) : Prop :=
  ∀ front, ∃ reported,
    part (before.remembering front) = .ok (true, after.remembering (front ++ reported)) ∧
      reported.foldlM (fun data range => callback range data) before.data = .ok after.data

theorem closeBlock_reports {data : State} (closed : closeBlock callback state = .ok data)
    (front : List PageTableRangeData) :
    ∃ reported, closeBlock remember (state.remembering front) = .ok (front ++ reported) ∧
      reported.foldlM (fun data range => callback range data) state.data = .ok data := by
  rcases state with ⟨block, inBlock, before⟩
  cases inBlock with
  | true =>
      refine ⟨[block], rfl, ?_⟩
      simp only [closeBlock, if_true] at closed
      simp only [List.foldlM_cons, closed]
      rfl
  | false =>
      cases closed
      exact ⟨[], by rw [List.append_nil]; rfl, rfl⟩

theorem rangeLeaf_reports {virtualAddress physicalAddress flags size : Word64} {goOn : Bool}
    (ran : rangeLeaf walk callback virtualAddress physicalAddress flags size state =
      .ok (goOn, after)) :
    goOn = true ∧
      Reports callback (rangeLeaf walk remember virtualAddress physicalAddress flags size) state
        after := by
  simp only [rangeLeaf] at ran
  split_ifs at ran with continues
  · cases ran
    refine ⟨rfl, fun front => ⟨[], ?_, rfl⟩⟩
    have same : (state.remembering front).Continues physicalAddress (walk.rangeFlags flags) size :=
      continues
    simp only [rangeLeaf, if_pos same, List.append_nil]
    rfl
  · rw [bind_eq_ok_iff] at ran
    rcases ran with ⟨data, closed, returned⟩
    cases returned
    refine ⟨rfl, fun front => ?_⟩
    rcases closeBlock_reports closed front with ⟨reported, remembered, folded⟩
    refine ⟨reported, ?_, folded⟩
    have different :
        ¬(state.remembering front).Continues physicalAddress (walk.rangeFlags flags) size :=
      continues
    simp only [rangeLeaf, if_neg different, remembered]
    rfl

theorem rangeMissing_reports (virtualAddress : Word64) {goOn : Bool}
    (ran : rangeMissing callback virtualAddress state = .ok (goOn, after)) :
    goOn = true ∧ Reports callback (rangeMissing remember virtualAddress) state after := by
  rw [rangeMissing, bind_eq_ok_iff] at ran
  rcases ran with ⟨data, closed, returned⟩
  cases returned
  refine ⟨rfl, fun front => ?_⟩
  rcases closeBlock_reports closed front with ⟨reported, remembered, folded⟩
  refine ⟨reported, ?_, folded⟩
  simp only [rangeMissing, remembered]
  rfl

theorem run_reports {visit : Visit} {goOn : Bool}
    (ran : visit.run walk (rangeLeaf walk callback) (rangeMissing callback) state =
      .ok (goOn, after)) :
    goOn = true ∧
      Reports callback (visit.run walk (rangeLeaf walk remember) (rangeMissing remember)) state
        after := by
  rcases visit with ⟨higherHalf, path, found⟩
  cases found with
  | leaf entry =>
      by_cases three : path.length = 3
      · rw [Visit.run_huge _ _ _ three] at ran ⊢
        exact rangeLeaf_reports ran
      · rw [Visit.run_small _ _ _ three] at ran ⊢
        exact rangeLeaf_reports ran
  | missing =>
      exact rangeMissing_reports (walk.pageIndexesToVirtual higherHalf path.reverse) ran
  | unsupported panic => cases ran

theorem forEach_reports {visits : List Visit} {goOn : Bool}
    (ran : forEach (Visit.run walk (rangeLeaf walk callback) (rangeMissing callback)) visits state =
      .ok (goOn, after)) :
    Reports callback
      (forEach (Visit.run walk (rangeLeaf walk remember) (rangeMissing remember)) visits) state
      after := by
  induction visits generalizing state with
  | nil =>
      cases ran
      exact fun front => ⟨[], by rw [List.append_nil]; rfl, rfl⟩
  | cons visit rest ih =>
      rw [forEach, bind_eq_ok_iff] at ran
      rcases ran with ⟨⟨goOnFirst, between⟩, first, ran⟩
      rcases run_reports first with ⟨rfl, reportsFirst⟩
      have reportsRest := ih ran
      intro front
      rcases reportsFirst front with ⟨reportedFirst, rememberedFirst, foldedFirst⟩
      rcases reportsRest (front ++ reportedFirst) with ⟨reportedRest, rememberedRest, foldedRest⟩
      refine ⟨reportedFirst ++ reportedRest, ?_, ?_⟩
      · rw [forEach, rememberedFirst, ok_bind, ← List.append_assoc]
        exact rememberedRest
      · rw [List.foldlM_append, foldedFirst]
        exact foldedRest

end Reports

/-- `pageTableToRanges` is its callback on the reported ranges, in their order. -/
theorem pageTableToRanges_eq {State : Type} {walk : WalkFormat}
    {callback : PageTableRangeData → State → Except Panic State}
    {tables : Word64 → Index → Word64} {mapFunc : Word64 → Word64}
    {roots : List (Bool × Word64)} {before after : State}
    (ran : pageTableToRanges walk callback tables mapFunc roots before = .ok after) :
    ∃ ranges, reportedRanges walk tables mapFunc roots = .ok ranges ∧
      ranges.foldlM (fun data range => callback range data) before = .ok after := by
  rw [pageTableToRanges, bind_eq_ok_iff] at ran
  rcases ran with ⟨⟨goOn, state⟩, walked, returned⟩
  cases returned
  rw [walkPageTableLeaf_eq] at walked
  rcases forEach_reports walked [] with ⟨ranges, remembered, folded⟩
  refine ⟨ranges, ?_, folded⟩
  rw [reportedRanges, pageTableToRanges, walkPageTableLeaf_eq]
  simp only [RangeState.remembering] at remembered
  rw [remembered]
  rfl

/-- How many 4 KiB pages a page of this size spans. -/
def extentOf (size : Word64) : ℕ := if size = hugePageSize then 512 else 1

theorem extentOf_huge : extentOf hugePageSize = 512 := if_pos rfl

theorem extentOf_small : extentOf pageSize = 1 := if_neg (by decide)

section Describes

variable (walk : WalkFormat) (trees : Bool → PageTree) (tables : Word64 → Index → Word64)

/-- A page of the tables, by the number it starts at, as the walk reports it. -/
def PageAt (number : ℕ) (size virtualAddress physicalAddress flags : Word64) : Prop :=
  ∃ higherHalf path entry, Genuine walk (trees higherHalf) tables path entry ∧
    number = halfStart higherHalf + pathNumber path ∧
    virtualAddress = walk.pageIndexesToVirtual higherHalf path.reverse ∧
    (path.length = 3 ∧ size = hugePageSize ∧ physicalAddress = walk.blockAddress entry ∧
        flags = walk.rangeFlags (walk.blockFlags entry) ∨
      path.length = 4 ∧ size = pageSize ∧ physicalAddress = entry &&& ~~~pageFlagsMask ∧
        flags = walk.rangeFlags (walk.pageFlags entry))

/-- The pages of the range are pages of the tables that follow each other. -/
structure Describes (range : PageTableRangeData) (start : ℕ) : Prop where
  pages : ∀ number < range.pageCount.toNat, ∃ virtualAddress,
    PageAt walk trees tables (start + number * extentOf range.pageSize) range.pageSize
      virtualAddress (range.physicalStart + BitVec.ofNat 64 number * range.pageSize) range.flags ∧
    (number = 0 → range.virtualStart = virtualAddress) ∧
    (number + 1 = range.pageCount.toNat →
      range.virtualEnd = virtualAddress + range.pageSize - 1#64)
  positive : 0 < range.pageCount.toNat
  physicalEnd : range.physicalEnd + 1#64 =
    range.physicalStart + range.pageCount * range.pageSize

/-- The number behind the last page of a range. -/
def rangeStop (range : PageTableRangeData) (start : ℕ) : ℕ :=
  start + range.pageCount.toNat * extentOf range.pageSize

variable {walk trees tables}

theorem describes_startBlock {number : ℕ} {size virtualAddress physicalAddress flags : Word64}
    (page : PageAt walk trees tables number size virtualAddress physicalAddress flags) :
    Describes walk trees tables (startBlock virtualAddress physicalAddress flags size) number := by
  constructor
  · intro first below
    have zero : first = 0 := by
      change first < 1 at below
      omega
    subst zero
    refine ⟨virtualAddress, ?_, fun _ => rfl, fun _ => rfl⟩
    simpa [startBlock] using page
  · exact Nat.one_pos
  · change physicalAddress + size - 1#64 + 1#64 = physicalAddress + 1#64 * size
    rw [BitVec.sub_add_cancel, BitVec.one_mul]

theorem describes_extend {range : PageTableRangeData} {start : ℕ}
    {virtualAddress physicalAddress : Word64} (describes : Describes walk trees tables range start)
    (page : PageAt walk trees tables (rangeStop range start) range.pageSize virtualAddress
      physicalAddress range.flags)
    (goesOn : range.physicalEnd + 1#64 = physicalAddress)
    (bound : rangeStop range start + 1 < 2 ^ 64) :
    Describes walk trees tables (range.extend virtualAddress physicalAddress range.pageSize) start ∧
      rangeStop (range.extend virtualAddress physicalAddress range.pageSize) start =
        rangeStop range start + extentOf range.pageSize := by
  have extentPos : 1 ≤ extentOf range.pageSize := by
    rw [extentOf]
    split_ifs <;> decide
  have small : range.pageCount.toNat + 1 < 2 ^ 64 := by
    have := Nat.mul_le_mul_left range.pageCount.toNat extentPos
    rw [rangeStop] at bound
    omega
  have count : (range.pageCount + 1#64).toNat = range.pageCount.toNat + 1 := by
    rw [BitVec.toNat_add]
    exact Nat.mod_eq_of_lt small
  have address : range.physicalStart +
      BitVec.ofNat 64 range.pageCount.toNat * range.pageSize = physicalAddress := by
    rw [BitVec.ofNat_toNat, BitVec.setWidth_eq, ← describes.physicalEnd, goesOn]
  constructor
  · constructor
    · intro number below
      change number < (range.pageCount + 1#64).toNat at below
      change ∃ virtual, _ ∧ (number = 0 → range.virtualStart = virtual) ∧
        (number + 1 = (range.pageCount + 1#64).toNat →
          virtualAddress + range.pageSize - 1#64 = virtual + range.pageSize - 1#64)
      rw [count] at below ⊢
      by_cases last : number = range.pageCount.toNat
      · subst last
        refine ⟨virtualAddress, ?_, ?_, fun _ => rfl⟩
        · change PageAt walk trees tables (rangeStop range start) range.pageSize virtualAddress
            (range.physicalStart + BitVec.ofNat 64 range.pageCount.toNat * range.pageSize)
            range.flags
          rw [address]
          exact page
        · intro zero
          have := describes.positive
          omega
      · rcases describes.pages number (by omega) with ⟨virtual, here, first, _⟩
        exact ⟨virtual, here, first, fun isLast => absurd isLast (by omega)⟩
    · change 0 < (range.pageCount + 1#64).toNat
      omega
    · change physicalAddress + range.pageSize - 1#64 + 1#64 =
        range.physicalStart + (range.pageCount + 1#64) * range.pageSize
      rw [BitVec.sub_add_cancel, BitVec.add_mul, BitVec.one_mul, ← BitVec.add_assoc,
        ← describes.physicalEnd, goesOn]
  · change start + (range.pageCount + 1#64).toNat * extentOf range.pageSize = _
    rw [count, rangeStop]
    ring

/-- What holds between two places of the walk: the open block stops at the next place. -/
structure RangeInvariant (walk : WalkFormat) (trees : Bool → PageTree)
    (tables : Word64 → Index → Word64) (position : ℕ)
    (state : RangeState (List PageTableRangeData)) : Prop where
  openBlock : state.inBlock = true → ∃ start,
    Describes walk trees tables state.currentBlock start ∧
      rangeStop state.currentBlock start = position
  reported : ∀ range ∈ state.data, ∃ start, Describes walk trees tables range start ∧
    rangeStop range start ≤ position

theorem RangeInvariant.closeBlock {position : ℕ} {state : RangeState (List PageTableRangeData)}
    {ranges : List PageTableRangeData} (invariant : RangeInvariant walk trees tables position state)
    (closed : PageTables.closeBlock remember state = .ok ranges) :
    ∀ range ∈ ranges, ∃ start, Describes walk trees tables range start ∧
      rangeStop range start ≤ position := by
  rw [PageTables.closeBlock] at closed
  split_ifs at closed with isOpen
  · cases closed
    intro range reported
    rcases List.mem_append.mp reported with earlier | last
    · exact invariant.reported range earlier
    · rw [List.mem_singleton] at last
      subst last
      rcases invariant.openBlock isOpen with ⟨start, describes, stop⟩
      exact ⟨start, describes, Nat.le_of_eq stop⟩
  · cases closed
    exact invariant.reported

theorem RangeInvariant.rangeLeaf {position : ℕ} {state after : RangeState (List PageTableRangeData)}
    {size virtualAddress physicalAddress flags : Word64} {goOn : Bool}
    (invariant : RangeInvariant walk trees tables position state) (bound : position + 1 < 2 ^ 64)
    (page : PageAt walk trees tables position size virtualAddress physicalAddress
      (walk.rangeFlags flags))
    (ran : PageTables.rangeLeaf walk remember virtualAddress physicalAddress flags size state =
      .ok (goOn, after)) :
    RangeInvariant walk trees tables (position + extentOf size) after := by
  simp only [PageTables.rangeLeaf] at ran
  split_ifs at ran with continues
  · cases ran
    rcases continues with ⟨isOpen, goesOn, sameFlags, sameSize⟩
    rcases invariant.openBlock isOpen with ⟨start, describes, stop⟩
    rw [← stop, ← sameFlags, ← sameSize] at page
    rcases describes_extend describes page goesOn (by rw [stop]; exact bound) with
      ⟨extended, stopExtended⟩
    rw [sameSize] at extended stopExtended
    constructor
    · intro _
      exact ⟨start, extended, by rw [stopExtended, stop]⟩
    · intro range reported
      rcases invariant.reported range reported with ⟨start, describes, below⟩
      exact ⟨start, describes, Nat.le_trans below (Nat.le_add_right _ _)⟩
  · rw [bind_eq_ok_iff] at ran
    rcases ran with ⟨ranges, closed, returned⟩
    cases returned
    constructor
    · intro _
      refine ⟨position, describes_startBlock page, ?_⟩
      change position + 1 * extentOf size = _
      rw [Nat.one_mul]
    · intro range reported
      rcases invariant.closeBlock closed range reported with ⟨start, describes, below⟩
      exact ⟨start, describes, Nat.le_trans below (Nat.le_add_right _ _)⟩

theorem RangeInvariant.rangeMissing {position later : ℕ}
    {state after : RangeState (List PageTableRangeData)} {goOn : Bool} (virtualAddress : Word64)
    (invariant : RangeInvariant walk trees tables position state) (advance : position ≤ later)
    (ran : PageTables.rangeMissing remember virtualAddress state = .ok (goOn, after)) :
    RangeInvariant walk trees tables later after := by
  rw [PageTables.rangeMissing, bind_eq_ok_iff] at ran
  rcases ran with ⟨ranges, closed, returned⟩
  cases returned
  constructor
  · intro isOpen
    cases isOpen
  · intro range reported
    rcases invariant.closeBlock closed range reported with ⟨start, describes, below⟩
    exact ⟨start, describes, Nat.le_trans below advance⟩

theorem Genuine.length {tree : PageTree} {path : List Index} {entry : Word64}
    (genuine : Genuine walk tree tables path entry) : path.length = 3 ∨ path.length = 4 := by
  rcases (PageTree.leaf_eq_some_iff.mp genuine.leaf).2.2 with four | ⟨three, _⟩
  · exact Or.inr four
  · exact Or.inl three

/-- One place of the walk. -/
theorem RangeInvariant.run {visit : Visit} {state after : RangeState (List PageTableRangeData)}
    {goOn : Bool} (invariant : RangeInvariant walk trees tables visit.start state)
    (bound : visit.start + 1 < 2 ^ 64)
    (genuine : ∀ entry, visit.found = .leaf entry →
      Genuine walk (trees visit.higherHalf) tables visit.path entry)
    (ran : visit.run walk (PageTables.rangeLeaf walk remember) (PageTables.rangeMissing remember)
      state = .ok (goOn, after)) :
    RangeInvariant walk trees tables (visit.start + visit.extent) after := by
  rcases visit with ⟨higherHalf, path, found⟩
  cases found with
  | leaf entry =>
      have here := genuine entry rfl
      by_cases three : path.length = 3
      · rw [Visit.run_huge _ _ _ three] at ran
        have extent : Visit.extent ⟨higherHalf, path, .leaf entry⟩ = extentOf hugePageSize := by
          rw [Visit.extent, three]
          rfl
        rw [extent]
        exact invariant.rangeLeaf bound
          ⟨higherHalf, path, entry, here, rfl, rfl, Or.inl ⟨three, rfl, rfl, rfl⟩⟩ ran
      · have four : path.length = 4 := here.length.resolve_left three
        rw [Visit.run_small _ _ _ three] at ran
        have extent : Visit.extent ⟨higherHalf, path, .leaf entry⟩ = extentOf pageSize := by
          rw [Visit.extent, four]
          decide
        rw [extent]
        exact invariant.rangeLeaf bound
          ⟨higherHalf, path, entry, here, rfl, rfl, Or.inr ⟨four, rfl, rfl, rfl⟩⟩ ran
  | missing =>
      exact RangeInvariant.rangeMissing (walk.pageIndexesToVirtual higherHalf path.reverse)
        invariant
        (Nat.le_add_right _ _) ran
  | unsupported panic => cases ran

theorem RangeInvariant.forEach {visits : List Visit} {lower upper : ℕ}
    {state after : RangeState (List PageTableRangeData)} {goOn : Bool}
    (invariant : RangeInvariant walk trees tables lower state)
    (tiles : Tiles Visit.start Visit.extent lower visits upper) (bound : upper + 1 < 2 ^ 64)
    (genuine : ∀ visit ∈ visits, ∀ entry, visit.found = .leaf entry →
      Genuine walk (trees visit.higherHalf) tables visit.path entry)
    (ran : Fallible.forEach
      (Visit.run walk (PageTables.rangeLeaf walk remember) (PageTables.rangeMissing remember))
      visits
      state = .ok (goOn, after)) :
    RangeInvariant walk trees tables upper after := by
  induction tiles generalizing state with
  | nil =>
      cases ran
      exact invariant
  | @cons visit rest upper tiles ih =>
      rw [Fallible.forEach, bind_eq_ok_iff] at ran
      rcases ran with ⟨⟨goOnFirst, between⟩, first, ran⟩
      rcases run_reports first with ⟨rfl, -⟩
      have next := invariant.run (by have := tiles.le; omega)
        (genuine visit (List.mem_cons_self ..)) first
      exact ih next bound (fun other otherMem => genuine other (List.mem_cons_of_mem _ otherMem))
        ran

/-- Every reported range describes pages that follow each other. -/
theorem reportedRanges_describe {mapFunc : Word64 → Word64} {roots : List (Bool × Word64)}
    {ranges : List PageTableRangeData} {upper : ℕ}
    (reported : reportedRanges walk tables mapFunc roots = .ok ranges)
    (tiles : ∃ lower, Tiles Visit.start Visit.extent lower (visits walk tables mapFunc roots) upper)
    (bound : upper + 1 < 2 ^ 64)
    (genuine : ∀ visit ∈ visits walk tables mapFunc roots, ∀ entry, visit.found = .leaf entry →
      Genuine walk (trees visit.higherHalf) tables visit.path entry) :
    ∀ range ∈ ranges, ∃ start, Describes walk trees tables range start ∧
      rangeStop range start ≤ upper := by
  rw [reportedRanges, pageTableToRanges, bind_eq_ok_iff] at reported
  rcases reported with ⟨⟨goOn, state⟩, walked, returned⟩
  cases returned
  rw [walkPageTableLeaf_eq] at walked
  rcases tiles with ⟨lower, tiles⟩
  have initial : RangeInvariant walk trees tables lower
      ⟨⟨0#64, 0#64, 0#64, 0#64, 0#64, 0#64, 0#64⟩, false, []⟩ := by
    constructor
    · intro isOpen
      cases isOpen
    · intro range reported
      cases reported
  exact (initial.forEach tiles bound genuine walked).reported

end Describes

end Dvnetos.PageTables
