import Dvnetos.Lib.Fallible
import Dvnetos.Paging.PageTables

/-!
# Walking page tables and collecting ranges

This file models `walkPageTableLeaf` and `pageTableToRanges` of the two `paging.h`,
and the choice of `Paging::init` among the ranges. The walks of the two
architectures are the same loops over entries that are read differently, and the
walk on aarch64 goes through two roots. The walk reads tables of the boot loader,
which are not in the pool.
-/

namespace Dvnetos.PageTables

open Fallible

/-- What the walk of an architecture makes of the entries and indexes. -/
structure WalkFormat where
  format : Format
  unsupportedL1 : Word64 → Option Panic
  unsupportedL2 : Word64 → Option Panic
  blockAddress : Word64 → Word64
  blockFlags : Word64 → Word64
  pageFlags : Word64 → Word64
  /-- What the leaf callback of `pageTableToRanges` keeps of the flags. -/
  rangeFlags : Word64 → Word64
  /-- The address behind the indexes, in the lower half or the higher half. -/
  pageIndexesToVirtual : Bool → List Index → Word64

section Walk

variable {State : Type} (walk : WalkFormat) (tables : Word64 → Index → Word64)
variable (mapFunc : Word64 → Word64)
variable (leafCallback : Word64 → Word64 → Word64 → Word64 → State → Except Panic (Bool × State))
variable (missingCallback : Word64 → State → Except Panic (Bool × State))

/-- The loop over a table of level 4. -/
def walkL4 (higherHalf : Bool) (i j k : Index) (l4Table : Word64) :
    State → Except Panic (Bool × State) :=
  forEach (fun l state =>
    let virtual := walk.pageIndexesToVirtual higherHalf [i, j, k, l]
    let entry := tables l4Table l
    if Present entry then
      leafCallback virtual (entry &&& ~~~pageFlagsMask) (walk.pageFlags entry) pageSize state
    else missingCallback virtual state) (List.finRange 512)

/-- The loop over a table of level 3. -/
def walkL3 (higherHalf : Bool) (i j : Index) (l3Table : Word64) :
    State → Except Panic (Bool × State) :=
  forEach (fun k state =>
    let virtual := walk.pageIndexesToVirtual higherHalf [i, j, k]
    let entry := tables l3Table k
    if Present entry then
      if walk.format.block entry then
        leafCallback virtual (walk.blockAddress entry) (walk.blockFlags entry) hugePageSize state
      else
        walkL4 walk tables leafCallback missingCallback higherHalf i j k
          (mapFunc (entry &&& ~~~pageFlagsMask)) state
    else missingCallback virtual state) (List.finRange 512)

/-- The loop over a table of level 2. -/
def walkL2 (higherHalf : Bool) (i : Index) (l2Table : Word64) :
    State → Except Panic (Bool × State) :=
  forEach (fun j state =>
    let entry := tables l2Table j
    if Present entry then
      match walk.unsupportedL2 entry with
      | some panic => .error panic
      | none =>
          walkL3 walk tables mapFunc leafCallback missingCallback higherHalf i j
            (mapFunc (entry &&& ~~~pageFlagsMask)) state
    else missingCallback (walk.pageIndexesToVirtual higherHalf [i, j]) state) (List.finRange 512)

/-- `walkPageTableLeaf` from one root. -/
def walkL1 (higherHalf : Bool) (table : Word64) : State → Except Panic (Bool × State) :=
  forEach (fun i state =>
    let entry := tables table i
    if Present entry then
      match walk.unsupportedL1 entry with
      | some panic => .error panic
      | none =>
          walkL2 walk tables mapFunc leafCallback missingCallback higherHalf i
            (mapFunc (entry &&& ~~~pageFlagsMask)) state
    else missingCallback (walk.pageIndexesToVirtual higherHalf [i]) state) (List.finRange 512)

/-- `walkPageTableLeaf` from all roots, each with the half it is for. -/
def walkPageTableLeaf (roots : List (Bool × Word64)) : State → Except Panic (Bool × State) :=
  forEach (fun (higherHalf, root) =>
    walkL1 walk tables mapFunc leafCallback missingCallback higherHalf root) roots

end Walk

/-- Pages that follow each other in both kinds of addresses. -/
structure PageTableRangeData where
  virtualStart : Word64
  virtualEnd : Word64
  physicalStart : Word64
  physicalEnd : Word64
  flags : Word64
  pageCount : Word64
  pageSize : Word64
  deriving DecidableEq

/-- The block of a first page. -/
def startBlock (virtualAddress physicalAddress flags size : Word64) : PageTableRangeData :=
  { physicalStart := physicalAddress
    physicalEnd := physicalAddress + size - 1#64
    virtualStart := virtualAddress
    virtualEnd := virtualAddress + size - 1#64
    pageCount := 1#64
    pageSize := size
    flags }

/-- The block with one page more. -/
def PageTableRangeData.extend (block : PageTableRangeData)
    (virtualAddress physicalAddress size : Word64) : PageTableRangeData :=
  { block with
    physicalEnd := physicalAddress + size - 1#64
    virtualEnd := virtualAddress + size - 1#64
    pageCount := block.pageCount + 1#64 }

/-- The `Data` of `pageTableToRanges`. -/
structure RangeState (State : Type) where
  currentBlock : PageTableRangeData
  inBlock : Bool
  data : State

/-- The page goes on where the open block ends, with its flags and its size. -/
def RangeState.Continues {State : Type} (state : RangeState State)
    (physicalAddress flags size : Word64) : Prop :=
  state.inBlock = true ∧ state.currentBlock.physicalEnd + 1#64 = physicalAddress ∧
    state.currentBlock.flags = flags ∧ state.currentBlock.pageSize = size

instance {State : Type} (state : RangeState State) (physicalAddress flags size : Word64) :
    Decidable (state.Continues physicalAddress flags size) :=
  inferInstanceAs (Decidable (_ ∧ _))

section Ranges

variable {State : Type} (walk : WalkFormat)
variable (callback : PageTableRangeData → State → Except Panic State)

/-- Report the block that is open, if one is. -/
def closeBlock (state : RangeState State) : Except Panic State :=
  if state.inBlock then callback state.currentBlock state.data else .ok state.data

/-- The callback for a page: it goes on with the block, or closes it and starts another. -/
def rangeLeaf (virtualAddress physicalAddress flags size : Word64) (state : RangeState State) :
    Except Panic (Bool × RangeState State) := do
  let flags := walk.rangeFlags flags
  if state.Continues physicalAddress flags size then
    return (true, { state with
      currentBlock := state.currentBlock.extend virtualAddress physicalAddress size })
  else
    let data ← closeBlock callback state
    return (true, {
      currentBlock := startBlock virtualAddress physicalAddress flags size
      inBlock := true
      data })

/-- The callback for an entry that is not present: it closes the block. -/
def rangeMissing (_virtualAddress : Word64) (state : RangeState State) :
    Except Panic (Bool × RangeState State) := do
  let data ← closeBlock callback state
  return (true, { state with inBlock := false, data })

/-- A range that is still open at the end is not reported. -/
def pageTableToRanges (tables : Word64 → Index → Word64) (mapFunc : Word64 → Word64)
    (roots : List (Bool × Word64)) (data : State) : Except Panic State := do
  let (_, state) ← walkPageTableLeaf walk tables mapFunc (rangeLeaf walk callback)
    (rangeMissing callback) roots {
      currentBlock := ⟨0#64, 0#64, 0#64, 0#64, 0#64, 0#64, 0#64⟩
      inBlock := false
      data }
  return state.data

end Ranges

/-- The callback that remembers the ranges it is handed. -/
def remember (range : PageTableRangeData) (ranges : List PageTableRangeData) :
    Except Panic (List PageTableRangeData) :=
  .ok (ranges ++ [range])

/-- The ranges `pageTableToRanges` hands to its callback. -/
def reportedRanges (walk : WalkFormat) (tables : Word64 → Index → Word64)
    (mapFunc : Word64 → Word64) (roots : List (Bool × Word64)) :
    Except Panic (List PageTableRangeData) :=
  pageTableToRanges walk remember tables mapFunc roots []

/-- The mode in the response to the paging request. -/
inductive PagingMode
  | fourLevel
  | other

/-- The types of the memory map that `isTypeToMap` knows, and the others. -/
inductive MemmapType
  | bootloaderReclaimable
  | kernelAndModules
  | framebuffer
  | other
  deriving DecidableEq

/-- An entry of the memory map of Limine. -/
structure MemmapEntry where
  base : Word64
  length : Word64
  type : MemmapType

/-- `isTypeToMap(type)`. -/
def isTypeToMap (type : MemmapType) : Bool :=
  type = .bootloaderReclaimable || type = .kernelAndModules || type = .framebuffer

/-- `rangesOverlap(range, entry)`. -/
def rangesOverlap (range : PageTableRangeData) (entry : MemmapEntry) : Bool :=
  (range.physicalStart ≤ entry.base + entry.length && range.physicalEnd ≥ entry.base) ||
    (range.physicalStart ≤ entry.base && range.physicalEnd ≥ entry.base) ||
    (range.physicalStart ≤ entry.base + entry.length &&
      range.physicalEnd ≥ entry.base + entry.length)

/-- The callback of `Paging::init` maps the range. -/
def isMapped (mappings : List MemmapEntry) (range : PageTableRangeData) : Bool :=
  mappings.any fun entry => rangesOverlap range entry && isTypeToMap entry.type

/-- The callback of `Paging::init`, with its call of `mapMemory`. -/
def initCallback (mapRange : PageTableRangeData → TableMemory → Except Panic TableMemory)
    (mappings : List MemmapEntry) (range : PageTableRangeData) (memory : TableMemory) :
    Except Panic TableMemory :=
  if isMapped mappings range then mapRange range memory else .ok memory

/-- The arguments of that call. -/
def rangeRequest (range : PageTableRangeData) : Request :=
  { physicalAddress := range.physicalStart
    virtualAddress := range.virtualStart
    size := range.pageSize
    numPages := range.pageCount
    flags := range.flags }

end Dvnetos.PageTables
