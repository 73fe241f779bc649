import Dvnetos.Paging.PageTree
import Dvnetos.Paging.PageNumbers

/-!
# Mapping memory on x86_64

This file models `Paging::mapMemory` and `Paging::setPageTableEntry` of
`arch/x86_64/memory/paging.cpp`.
-/

namespace Dvnetos.PageTables.X86

/-- The bit that allows stores. -/
def pageWrite : Word64 := 1#64 <<< 1

/-- The bit that allows user mode. -/
def pageUser : Word64 := 1#64 <<< 2

/-- The bit that the processor sets when it has used an entry. -/
def pageAccessed : Word64 := 1#64 <<< 5

/-- The bit that the processor sets when it has stored to a page. -/
def pageDirty : Word64 := 1#64 <<< 6

/-- The bit of an entry above level 4 that maps a page. -/
def pageSizeFlag : Word64 := 1#64 <<< 7

/-- The page size flag of an entry. -/
def Huge (entry : Word64) : Prop := entry &&& pageSizeFlag ≠ 0#64

instance (entry : Word64) : Decidable (Huge entry) := inferInstanceAs (Decidable (_ ≠ _))

/-- How the entries of x86 link to tables. -/
def format : Format where
  linkFlags := pagePresent ||| pageWrite ||| pageUser
  block entry := decide (Huge entry)
  linkFlags_present := by decide
  linkFlags_within := by decide
  block_link := by
    intro frame framed
    have clear : frame &&& pageSizeFlag = 0#64 := Bits.and_eq_zero_of_within framed (by decide)
    rw [decide_eq_false_iff_not, Huge, Bits.or_and_of_clear clear]
    decide

/-- The members of `Paging`. -/
structure Paging where
  root : Word64
  pageTableOffset : Word64

/-- The tree of the tables. -/
def Paging.tree (paging : Paging) : PageTree :=
  { format, pageTableOffset := paging.pageTableOffset, root := paging.root }

/-- `newValue` of `setPageTableEntry`. -/
def newValue (physicalAddress flags : Word64) : Word64 :=
  (physicalAddress &&& pageAddrMask) ||| pagePresent ||| flags

/-- `setPageTableEntry`, which refuses an entry that is already there and differs. -/
def setPageTableEntry (memory : TableMemory) (table : Word64) (index : Index)
    (physicalAddress flags : Word64) : Except Panic TableMemory :=
  setEntry memory table index (newValue physicalAddress flags)

section MapMemory

variable (paging : Paging) (pool : InitialPool paging.pageTableOffset) (size flags : Word64)

/-- The body of the loop of `mapMemory`. -/
def mapPage (state : LoopState) : Except Panic LoopState := do
  let idx := virtualToPageIndexes state.virtualAddress
  let (memory, pdpt) ← nextTable format pool state.memory paging.root idx.l1
  let (memory, pd) ← nextTable format pool memory pdpt idx.l2
  if size = hugePageSize then
    if state.virtualAddress % size ≠ 0#64 then
      throw "huge page must be page aligned: %p 0x%x"
    let memory ← setPageTableEntry memory pd idx.l3 state.physicalAddress (flags ||| pageSizeFlag)
    return {
      memory
      physicalAddress := state.physicalAddress + hugePageSize
      virtualAddress := state.virtualAddress + hugePageSize }
  else if Present (memory.tables pd idx.l3) ∧ Huge (memory.tables pd idx.l3) then
    -- `continue` leaves both addresses where they are
    return { state with memory }
  else
    let (memory, pt) ← nextTable format pool memory pd idx.l3
    let memory ← setPageTableEntry memory pt idx.l4 state.physicalAddress flags
    return {
      memory
      physicalAddress := state.physicalAddress + pageSize
      virtualAddress := state.virtualAddress + pageSize }

/-- The loop of `mapMemory`. -/
def mapPages : ℕ → LoopState → Except Panic LoopState
  | 0, state => .ok state
  | count + 1, state => do
      let state ← mapPage paging pool size flags state
      mapPages count state

end MapMemory

/-- `mapMemory(physicalAddress, virtualAddress, size, numPages, flags)`. -/
def mapMemory (paging : Paging) (pool : InitialPool paging.pageTableOffset)
    (memory : TableMemory) (request : Request) : Except Panic TableMemory := do
  if request.physicalAddress % pageSize ≠ 0#64 then
    throw "physical address must be page aligned"
  if request.virtualAddress % pageSize ≠ 0#64 then
    throw "virtual address %p is not page aligned %lu\n"
  let state ← mapPages paging pool request.size request.flags request.numPages.toNat {
    memory
    physicalAddress := request.physicalAddress
    virtualAddress := request.virtualAddress }
  return state.memory

end Dvnetos.PageTables.X86
