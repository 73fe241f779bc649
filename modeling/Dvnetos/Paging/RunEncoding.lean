import Dvnetos.Lib.RunLength
import Dvnetos.Paging.PresentLeaves
import Dvnetos.Paging.ReportedRanges

/-!
# pageTableToRanges as a run-length encoder

The callbacks of `pageTableToRanges` encode the pages of a walk: the ranges it reports are
the runs of pages that follow each other in physical memory with one size and one set of
flags. A page of a run is expected one page behind the page in front of it, in virtual
memory too.
-/

namespace Dvnetos.PageTables

open Fallible RunLength

namespace Leaf

/-- The page goes on where another ends, with its flags and its size. -/
def Continues (last leaf : Leaf) : Prop :=
  last.physicalAddress + last.size = leaf.physicalAddress ∧ last.flags = leaf.flags ∧
    last.size = leaf.size

instance : DecidableRel Continues :=
  fun _ _ => inferInstanceAs (Decidable (_ ∧ _))

/-- The page behind this one in both address spaces. -/
def next (leaf : Leaf) : Leaf :=
  { leaf with
    virtualAddress := leaf.virtualAddress + leaf.size
    physicalAddress := leaf.physicalAddress + leaf.size }

theorem eq_next_iff {last leaf : Leaf} (continues : last.Continues leaf) :
    leaf = last.next ↔ leaf.virtualAddress = last.virtualAddress + last.size := by
  rcases last with ⟨lastVirtual, lastPhysical, lastSize, lastFlags⟩
  rcases leaf with ⟨virtual, physical, size, flags⟩
  rcases continues with ⟨goesOn, sameFlags, sameSize⟩
  simp only at goesOn sameFlags sameSize
  subst goesOn sameFlags sameSize
  simp [next]

theorem iterate_next (leaf : Leaf) (number : ℕ) :
    next^[number] leaf =
      { leaf with
        virtualAddress := leaf.virtualAddress + BitVec.ofNat 64 number * leaf.size
        physicalAddress := leaf.physicalAddress + BitVec.ofNat 64 number * leaf.size } := by
  induction number with
  | zero => simp
  | succ number ih =>
      rw [Function.iterate_succ_apply', ih, next, BitVec.ofNat_add, BitVec.add_mul,
        BitVec.one_mul, BitVec.add_assoc, BitVec.add_assoc]

end Leaf

/-- The pages of a range, from both of its starts on. -/
def PageTableRangeData.expand (range : PageTableRangeData) : List Leaf :=
  (List.range range.pageCount.toNat).map fun number =>
    { virtualAddress := range.virtualStart + BitVec.ofNat 64 number * range.pageSize
      physicalAddress := range.physicalStart + BitVec.ofNat 64 number * range.pageSize
      size := range.pageSize
      flags := range.flags }

/-- The range of a run of pages. -/
def rangeOf (run : Run Leaf) : PageTableRangeData :=
  { virtualStart := run.first.virtualAddress
    virtualEnd := run.last.virtualAddress + run.last.size - 1#64
    physicalStart := run.first.physicalAddress
    physicalEnd := run.last.physicalAddress + run.last.size - 1#64
    flags := run.first.flags
    pageCount := BitVec.ofNat 64 run.count
    pageSize := run.first.size }

theorem expand_rangeOf {run : Run Leaf} (small : run.count < 2 ^ 64) :
    (rangeOf run).expand = run.expand Leaf.next := by
  have count : (rangeOf run).pageCount.toNat = run.count := Nat.mod_eq_of_lt small
  rw [PageTableRangeData.expand, count, Run.expand, ← List.range_map_iterate]
  apply List.map_congr_left
  intro number _
  rw [Leaf.iterate_next]
  rfl

/-- All pages of a run have the flags and the size of the first one. -/
def Uniform (run : Run Leaf) : Prop :=
  run.last.flags = run.first.flags ∧ run.last.size = run.first.size

/-- The loop is in the block that the encoder has open. -/
def InBlock (state : RangeState (List PageTableRangeData)) : Option (Run Leaf) → Prop
  | none => state.inBlock = false
  | some run => state.inBlock = true ∧ state.currentBlock = rangeOf run ∧ Uniform run

theorem InBlock.continues_iff {state : RangeState (List PageTableRangeData)} {run : Run Leaf}
    (inBlock : InBlock state (some run)) (leaf : Leaf) :
    state.Continues leaf.physicalAddress leaf.flags leaf.size ↔ run.last.Continues leaf := by
  rcases inBlock with ⟨isOpen, block, sameFlags, sameSize⟩
  have behind : (rangeOf run).physicalEnd + 1#64 = run.last.physicalAddress + run.first.size := by
    rw [rangeOf, sameSize, BitVec.sub_add_cancel]
  rw [RangeState.Continues, Leaf.Continues, isOpen, block, sameFlags, sameSize, behind]
  exact and_iff_right rfl

section Loop

variable {walk : WalkFormat} {state : RangeState (List PageTableRangeData)}
variable {opened : Option (Run Leaf)}

theorem closeBlock_of_inBlock (inBlock : InBlock state opened) :
    closeBlock remember state = .ok (state.data ++ opened.toList.map rangeOf) := by
  cases opened with
  | none =>
      have closed : state.inBlock = false := inBlock
      simp [closeBlock, closed]
  | some run =>
      rcases inBlock with ⟨isOpen, block, -⟩
      simp [closeBlock, isOpen, block, remember]

theorem startBlock_eq (leaf : Leaf) :
    startBlock leaf.virtualAddress leaf.physicalAddress leaf.flags leaf.size =
      rangeOf (.single leaf) := rfl

theorem extend_eq (run : Run Leaf) (leaf : Leaf) :
    (rangeOf run).extend leaf.virtualAddress leaf.physicalAddress leaf.size =
      rangeOf (run.extend leaf) := by
  simp [rangeOf, PageTableRangeData.extend, Run.extend, BitVec.ofNat_add]

/-- The loop has gone on from one place like the encoder. -/
def Follows (state : RangeState (List PageTableRangeData)) (opened : Option (Run Leaf))
    (place : Option Leaf) (after : RangeState (List PageTableRangeData)) : Prop :=
  ∃ between, InBlock after between ∧ ∀ rest,
    after.data ++ (encode Leaf.Continues between rest).map rangeOf =
      state.data ++ (encode Leaf.Continues opened (place :: rest)).map rangeOf

theorem rangeLeaf_follows (leaf : Leaf) {flags : Word64} (kept : walk.rangeFlags flags = leaf.flags)
    (inBlock : InBlock state opened) :
    ∃ after,
      rangeLeaf walk remember leaf.virtualAddress leaf.physicalAddress flags leaf.size state =
      .ok (true, after) ∧ Follows state opened (some leaf) after := by
  cases opened with
  | none =>
      have closed : ¬state.Continues leaf.physicalAddress leaf.flags leaf.size := by
        rintro ⟨isOpen, -⟩
        have notOpen : state.inBlock = false := inBlock
        rw [notOpen] at isOpen
        cases isOpen
      simp only [rangeLeaf, kept, if_neg closed, closeBlock_of_inBlock inBlock, ok_bind]
      refine ⟨_, rfl, some (.single leaf), ⟨rfl, startBlock_eq leaf, rfl, rfl⟩, ?_⟩
      intro rest
      simp [encode]
  | some run =>
      by_cases continues : run.last.Continues leaf
      · have goesOn := (inBlock.continues_iff leaf).mpr continues
        simp only [rangeLeaf, kept, if_pos goesOn]
        rcases inBlock with ⟨isOpen, block, sameFlags, sameSize⟩
        refine ⟨_, rfl, some (run.extend leaf), ⟨isOpen, ?_, ?_, ?_⟩, ?_⟩
        · rw [block]
          exact extend_eq run leaf
        · exact continues.2.1.symm.trans sameFlags
        · exact continues.2.2.symm.trans sameSize
        · intro rest
          rw [encode, if_pos continues]
      · have stops := fun goesOn => continues ((inBlock.continues_iff leaf).mp goesOn)
        simp only [rangeLeaf, kept, if_neg stops, closeBlock_of_inBlock inBlock, ok_bind]
        refine ⟨_, rfl, some (.single leaf), ⟨rfl, startBlock_eq leaf, rfl, rfl⟩, ?_⟩
        intro rest
        rw [encode, if_neg continues]
        simp

theorem rangeMissing_follows (virtualAddress : Word64) (inBlock : InBlock state opened) :
    ∃ after, rangeMissing remember virtualAddress state = .ok (true, after) ∧
      Follows state opened none after := by
  simp only [rangeMissing, closeBlock_of_inBlock inBlock, ok_bind]
  refine ⟨_, rfl, none, rfl, ?_⟩
  intro rest
  simp [encode]

theorem run_follows (visit : Visit) (supported : ∀ panic, visit.found ≠ .unsupported panic)
    (inBlock : InBlock state opened) :
    ∃ after, visit.run walk (rangeLeaf walk remember) (rangeMissing remember) state =
      .ok (true, after) ∧ Follows state opened (visit.leaf? walk) after := by
  rcases visit with ⟨higherHalf, path, found⟩
  cases found with
  | leaf entry =>
      have ran := @rangeLeaf_follows walk state opened (leafOf walk higherHalf path entry) _ rfl
        inBlock
      by_cases three : path.length = 3
      · rw [Visit.run_huge _ _ _ three]
        simpa only [Visit.leaf?, leafOf, if_pos three] using ran
      · rw [Visit.run_small _ _ _ three]
        simpa only [Visit.leaf?, leafOf, if_neg three] using ran
  | missing =>
      exact rangeMissing_follows (walk.pageIndexesToVirtual higherHalf path.reverse) inBlock
  | unsupported panic => exact absurd rfl (supported panic)

/-- The loop over the places reports the runs that the encoder gives away. -/
theorem forEach_encode {visits : List Visit}
    (supported : ∀ visit ∈ visits, ∀ panic, visit.found ≠ .unsupported panic)
    (inBlock : InBlock state opened) :
    ∃ after, forEach (Visit.run walk (rangeLeaf walk remember) (rangeMissing remember)) visits
        state = .ok (true, after) ∧
      after.data = state.data ++
        (encode Leaf.Continues opened (visits.map (Visit.leaf? walk))).map rangeOf := by
  induction visits generalizing state opened with
  | nil =>
      refine ⟨state, rfl, ?_⟩
      simp [encode]
  | cons visit rest ih =>
      rcases run_follows visit (supported visit (List.mem_cons_self ..)) inBlock with
        ⟨between, ran, openedBetween, inBlockBetween, follows⟩
      rcases ih (fun other later => supported other (List.mem_cons_of_mem visit later))
        inBlockBetween with ⟨after, rest_ran, data⟩
      refine ⟨after, ?_, ?_⟩
      · rw [forEach, ran, ok_bind]
        exact rest_ran
      · rw [data, List.map_cons, follows]

end Loop

/-- The reported ranges are the runs of the pages of the walk. -/
theorem reportedRanges_eq_encode {walk : WalkFormat} {tables : Word64 → Index → Word64}
    {mapFunc : Word64 → Word64} {roots : List (Bool × Word64)}
    (supported : ∀ visit ∈ visits walk tables mapFunc roots, ∀ panic,
      visit.found ≠ .unsupported panic) :
    reportedRanges walk tables mapFunc roots =
      .ok ((encode Leaf.Continues none
        ((visits walk tables mapFunc roots).map (Visit.leaf? walk))).map rangeOf) := by
  let start : RangeState (List PageTableRangeData) :=
    { currentBlock := ⟨0#64, 0#64, 0#64, 0#64, 0#64, 0#64, 0#64⟩, inBlock := false, data := [] }
  have inBlock : InBlock start none := rfl
  rcases forEach_encode supported inBlock with ⟨after, ran, data⟩
  rw [reportedRanges, pageTableToRanges, walkPageTableLeaf_eq, ran, ok_bind, pure_eq_ok_iff, data]
  rfl

end Dvnetos.PageTables
