import Dvnetos.Lib.Fallible
import Dvnetos.Paging.PageNumbers
import Dvnetos.Paging.PageTree

/-!
# Mapping memory on aarch64

This file models `Paging::mapMemory` and `Paging::setPageTableEntry` of
`arch/aarch64/memory/paging.cpp`, with the choice of the root table in
`virtualToPageIndexes`. The member `tcr_el1` is left out: nothing reads it.
-/

namespace Dvnetos.PageTables.Aarch64

/-- The bit of an entry that leads to a table, or of a page of 4 KiB. -/
def pageTable : Word64 := 1#64 <<< 1

/-- The table bit of an entry. -/
def Table (entry : Word64) : Prop := entry &&& pageTable ≠ 0#64

instance (entry : Word64) : Decidable (Table entry) := inferInstanceAs (Decidable (_ ≠ _))

/-- How the entries of aarch64 link to tables. -/
def format : Format where
  linkFlags := pagePresent ||| pageTable
  block entry := decide (¬Table entry)
  linkFlags_present := by decide
  linkFlags_within := by decide
  block_link := by
    intro frame framed
    have clear : frame &&& pageTable = 0#64 := Bits.and_eq_zero_of_within framed (by decide)
    rw [decide_eq_false_iff_not, not_not, Table, Bits.or_and_of_clear clear]
    decide

/-- The members of `Paging` with their initial values. -/
structure Paging where
  root1 : Word64 := 0#64
  root2 : Word64 := 0#64
  pageTableOffset : Word64 := 0#64
  higherHalfOffset : Word64 := 0#64

/-- The member `higherHalf` of the result of `virtualToPageIndexes`. -/
def Paging.higherHalf (paging : Paging) (virtualAddress : Word64) : Bool :=
  decide (paging.higherHalfOffset ≤ virtualAddress)

/-- The root table of a half of the address space. -/
def Paging.root (paging : Paging) (higherHalf : Bool) : Word64 :=
  if higherHalf then paging.root2 else paging.root1

/-- The tree of a half of the address space. -/
def Paging.tree (paging : Paging) (higherHalf : Bool) : PageTree :=
  { format, pageTableOffset := paging.pageTableOffset, root := paging.root higherHalf }

/-- `newValue` of `setPageTableEntry`. -/
def newValue (level : ℕ) (physicalAddress flags : Word64) : Word64 :=
  (physicalAddress &&& pageAddrMask) ||| pagePresent ||| flags |||
    (if level = 4 then pageTable else 0#64)

/-- `setPageTableEntry`, which refuses an entry that is already there and differs. -/
def setPageTableEntry (memory : TableMemory) (table : Word64) (index : Index) (level : ℕ)
    (physicalAddress flags : Word64) : Except Panic TableMemory :=
  setEntry memory table index (newValue level physicalAddress flags)

section MapMemory

variable (paging : Paging) (pool : InitialPool paging.pageTableOffset) (size flags : Word64)

/-- The body of the loop of `mapMemory`. -/
def mapPage (state : LoopState) : Except Panic LoopState := do
  let idx := virtualToPageIndexes state.virtualAddress
  let root := paging.root (paging.higherHalf state.virtualAddress)
  let (memory, pdpt) ← nextTable format pool state.memory root idx.l1
  let (memory, pd) ← nextTable format pool memory pdpt idx.l2
  if size = hugePageSize then
    if state.virtualAddress % hugePageSize ≠ 0#64 then
      throw "huge page must be page aligned: %p 0x%x"
    if state.physicalAddress % hugePageSize ≠ 0#64 then
      throw "huge page must be page aligned: %p 0x%x"
    let memory ← setPageTableEntry memory pd idx.l3 3 state.physicalAddress flags
    return {
      memory
      physicalAddress := state.physicalAddress + size
      virtualAddress := state.virtualAddress + size }
  else if Present (memory.tables pd idx.l3) ∧ ¬Table (memory.tables pd idx.l3) then
    throw "huge page already mapped at %p"
  else
    let (memory, pt) ← nextTable format pool memory pd idx.l3
    let memory ← setPageTableEntry memory pt idx.l4 4 state.physicalAddress flags
    return {
      memory
      physicalAddress := state.physicalAddress + size
      virtualAddress := state.virtualAddress + size }

/-- The loop of `mapMemory`. -/
def mapPages : ℕ → LoopState → Except Panic LoopState
  | 0, state => .ok state
  | count + 1, state => do
      let state ← mapPage paging pool size flags state
      mapPages count state

end MapMemory

/-- `mapMemory(physicalAddress, virtualAddress, size, numPages, flags)`. -/
def mapMemory (paging : Paging) (pool : InitialPool paging.pageTableOffset)
    (memory : TableMemory) (request : Request) : Except Panic TableMemory := do
  if request.physicalAddress % request.size ≠ 0#64 then
    throw "physical address must be page aligned"
  if request.virtualAddress % request.size ≠ 0#64 then
    throw "virtual address(%p) must be page aligned"
  let state ← mapPages paging pool request.size request.flags request.numPages.toNat {
    memory
    physicalAddress := request.physicalAddress
    virtualAddress := request.virtualAddress }
  return state.memory

end Dvnetos.PageTables.Aarch64
