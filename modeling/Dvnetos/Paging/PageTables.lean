import Dvnetos.Lib.Bits
import Dvnetos.Lib.TableTree

/-!
# Page tables in memory

What `paging.cpp` and `paging.h` of the two architectures share: the constants,
the tables and the pool they are taken from, the index bits of an address, and
the two stores `mapMemory` makes, the link to a new table and the entry of a page.
The functions here are the same text in both directories, up to the names
`PAGE_PRESENT` and `PAGE_VALID` of bit 0.

A table is an array of 512 entries behind a pointer. The pool is the array
`initialPool`; its pages are different, and the physical address of each of them
fits the address bits of an entry.
-/

namespace Dvnetos.PageTables

open TableTree

/-- An entry, an address or a size. -/
abbrev Word64 := BitVec 64

/-- A position in a table. -/
abbrev Index := Fin 512

/-- The text of a `kpanic`, a `kpanicf` or a `kassertf` that fires. -/
abbrev Panic := String

/-- The size of a page of 4 KiB. -/
def pageSize : Word64 := 4096#64

/-- The number of entries in a table. -/
def pageEntries : Word64 := 512#64

/-- `PAGE_SIZE * PAGE_ENTRIES`. -/
def hugePageSize : Word64 := pageSize * pageEntries

/-- `PAGE_PRESENT` on x86_64, `PAGE_VALID` on aarch64. -/
def pagePresent : Word64 := 1#64

/-- The bits of an entry that hold an address. -/
def pageAddrMask : Word64 := 0x000FFFFFFFFFF000#64

/-- The bits of an entry that hold flags. -/
def pageFlagsMask : Word64 := 0xFFF#64 ||| 0xFFF#64 <<< 52

/-- The entry is in use. -/
def Present (entry : Word64) : Prop := entry &&& pagePresent ≠ 0#64

instance (entry : Word64) : Decidable (Present entry) := inferInstanceAs (Decidable (_ ≠ _))

/-- The indexes of an address in the tables of the four levels. -/
structure PageIndexes where
  l1 : Index
  l2 : Index
  l3 : Index
  l4 : Index

/-- Nine bits of an address. -/
def pageIndex (virtualAddress : Word64) (shift : ℕ) : Index :=
  ⟨(virtualAddress >>> shift &&& 0x1FF#64).toNat, by
    have := Bits.toNat_ushiftRight_and virtualAddress shift (show 9 ≤ 64 by decide)
    have := Nat.mod_lt (virtualAddress.toNat / 2 ^ shift) (show 0 < 2 ^ 9 by decide)
    change (virtualAddress >>> shift &&& BitVec.ofNat 64 (2 ^ 9 - 1)).toNat < 512
    omega⟩

/-- `virtualToPageIndexes(virtualAddress)`. -/
def virtualToPageIndexes (virtualAddress : Word64) : PageIndexes :=
  { l1 := pageIndex virtualAddress 39
    l2 := pageIndex virtualAddress 30
    l3 := pageIndex virtualAddress 21
    l4 := pageIndex virtualAddress 12 }

/-- A number as a position in a table. -/
def index (number : ℕ) : Index := Fin.ofNat 512 number

/-- The address bits `pageIndexesToVirtual` puts together from the indexes `l[0]`, `l[1]`, ... -/
def pageIndexBits : List Index → Word64
  | [] => 0#64
  | [l1] => BitVec.ofNat 64 l1 <<< 39
  | [l1, l2] => BitVec.ofNat 64 l1 <<< 39 ||| BitVec.ofNat 64 l2 <<< 30
  | [l1, l2, l3] =>
      BitVec.ofNat 64 l1 <<< 39 ||| BitVec.ofNat 64 l2 <<< 30 ||| BitVec.ofNat 64 l3 <<< 21
  | l1 :: l2 :: l3 :: l4 :: _ =>
      BitVec.ofNat 64 l1 <<< 39 ||| BitVec.ofNat 64 l2 <<< 30 ||| BitVec.ofNat 64 l3 <<< 21 |||
        BitVec.ofNat 64 l4 <<< 12

/-- The number of pages in the pool for tables. -/
def initialPoolSize : ℕ := 128

/-- The pages of the pool for tables: they differ, and their addresses fit into entries. -/
structure InitialPool (pageTableOffset : Word64) where
  page : Fin initialPoolSize → Word64
  distinct : Function.Injective page
  framed : ∀ number, (page number - pageTableOffset) &&& pageFlagsMask = 0#64

theorem InitialPool.ofArray_distinct (start : Word64) :
    Function.Injective fun number : Fin initialPoolSize =>
      start + BitVec.ofNat 64 (4096 * number.val) := by
  intro first second same
  have firstBound := first.isLt
  have secondBound := second.isLt
  simp only [initialPoolSize] at firstBound secondBound
  apply Fin.ext
  bv_omega

theorem framed_of_aligned {frame : Word64} (aligned : frame.toNat % 4096 = 0)
    (below : frame.toNat < 2 ^ 52) : frame &&& pageFlagsMask = 0#64 := by
  rw [pageFlagsMask, BitVec.and_or_distrib_left, BitVec.or_eq_zero_iff]
  constructor
  · apply BitVec.eq_of_toNat_eq
    rw [BitVec.toNat_and]
    change frame.toNat &&& (2 ^ 12 - 1) = 0
    rw [Nat.and_two_pow_sub_one_eq_mod]
    exact aligned
  · apply BitVec.eq_of_getLsbD_eq
    intro bit _
    rw [BitVec.getLsbD_and, BitVec.getLsbD_zero]
    by_cases low : bit < 52
    · rw [BitVec.getLsbD_shiftLeft]
      simp [low]
    · have high : frame.getLsbD bit = false := by
        apply Nat.testBit_lt_two_pow
        apply Nat.lt_of_lt_of_le below
        exact Nat.pow_le_pow_right (by decide) (Nat.le_of_not_lt low)
      rw [high, Bool.false_and]

theorem InitialPool.ofArray_framed {start pageTableOffset : Word64}
    (aligned : (start - pageTableOffset).toNat % 4096 = 0)
    (below : (start - pageTableOffset).toNat + 4096 * 128 ≤ 2 ^ 52)
    (number : Fin initialPoolSize) :
    (start + BitVec.ofNat 64 (4096 * number.val) - pageTableOffset) &&& pageFlagsMask = 0#64 := by
  have bound := number.isLt
  simp only [initialPoolSize] at bound
  have apart : start + BitVec.ofNat 64 (4096 * number.val) - pageTableOffset =
      start - pageTableOffset + BitVec.ofNat 64 (4096 * number.val) := by
    bv_omega
  have value : (start - pageTableOffset + BitVec.ofNat 64 (4096 * number.val)).toNat =
      (start - pageTableOffset).toNat + 4096 * number.val := by
    rw [BitVec.toNat_add, BitVec.toNat_ofNat]
    omega
  rw [apart]
  apply framed_of_aligned
  · omega
  · omega

/-- The pool as the source declares it, an array of pages. -/
def InitialPool.ofArray (start pageTableOffset : Word64)
    (aligned : (start - pageTableOffset).toNat % 4096 = 0)
    (below : (start - pageTableOffset).toNat + 4096 * 128 ≤ 2 ^ 52) :
    InitialPool pageTableOffset where
  page number := start + BitVec.ofNat 64 (4096 * number.val)
  distinct := ofArray_distinct start
  framed := ofArray_framed aligned below

/-- A pool at the start of the kernel, which lies 2 MiB up in physical memory. -/
def kernelPool : InitialPool 0xFFFFFFFF7FE00000#64 :=
  InitialPool.ofArray 0xFFFFFFFF80000000#64 0xFFFFFFFF7FE00000#64 (by decide) (by decide)

/-- The tables by their pointers, and how many pages of the pool are used. -/
structure TableMemory where
  tables : Word64 → Index → Word64
  initialPoolUsedCount : Fin initialPoolSize

/-- How an architecture writes a link, and which entries of level 3 are pages of 2 MiB. -/
structure Format where
  linkFlags : Word64
  block : Word64 → Bool
  linkFlags_present : linkFlags &&& pagePresent = pagePresent
  linkFlags_within : pageFlagsMask &&& linkFlags = linkFlags
  block_link : ∀ frame, frame &&& pageFlagsMask = 0#64 → block (frame ||| linkFlags) = false

section Operations

variable {pageTableOffset : Word64} (format : Format) (pool : InitialPool pageTableOffset)

/-- `GetPagePtr(1)`, which is `initialPoolGetPage(1)`. -/
def getPage (memory : TableMemory) : Except Panic (TableMemory × Word64) :=
  if room : memory.initialPoolUsedCount + 1 < initialPoolSize then
    .ok ({ memory with initialPoolUsedCount := ⟨memory.initialPoolUsedCount + 1, room⟩ },
      pool.page memory.initialPoolUsedCount)
  else .error "out of initial pool"

/-- A page from the pool with `memset(page, 0, PAGE_SIZE)`. -/
def newTable (memory : TableMemory) : Except Panic (TableMemory × Word64) := do
  let (memory, table) ← getPage pool memory
  return ({ memory with tables := fill memory.tables table 0#64 }, table)

/-- Link a new table at an index of a table. -/
def linkNewTable (memory : TableMemory) (table : Word64) (index : Index) :
    Except Panic TableMemory := do
  let (memory, new) ← newTable pool memory
  return { memory with
    tables := store memory.tables table index ((new - pageTableOffset) ||| format.linkFlags) }

/-- The table an index of a table leads to, linked first if there is none. -/
def nextTable (memory : TableMemory) (table : Word64) (index : Index) :
    Except Panic (TableMemory × Word64) := do
  let memory ←
    if Present (memory.tables table index) then pure memory
    else linkNewTable format pool memory table index
  return (memory, (memory.tables table index &&& ~~~pageFlagsMask) + pageTableOffset)

end Operations

/-- `setPageTableEntry` behind its computation of `newValue`. -/
def setEntry (memory : TableMemory) (table : Word64) (index : Index) (newValue : Word64) :
    Except Panic TableMemory :=
  if memory.tables table index ≠ 0#64 ∧ memory.tables table index ≠ newValue then
    .error "page table entry already exists"
  else .ok { memory with tables := store memory.tables table index newValue }

/-- The arguments of `mapMemory`. -/
structure Request where
  physicalAddress : Word64
  virtualAddress : Word64
  size : Word64
  numPages : Word64
  flags : Word64

/-- The local variables of `mapMemory` that its loop changes, with the tables. -/
structure LoopState where
  memory : TableMemory
  physicalAddress : Word64
  virtualAddress : Word64

/-- The address is in the range of the call. -/
def Request.Covers (request : Request) (address : Word64) : Prop :=
  request.virtualAddress.toNat ≤ address.toNat ∧
    address.toNat <
      request.virtualAddress.toNat + request.numPages.toNat * request.size.toNat

instance (request : Request) (address : Word64) : Decidable (request.Covers address) :=
  inferInstanceAs (Decidable (_ ∧ _))

end Dvnetos.PageTables
