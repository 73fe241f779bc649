import Dvnetos.Lib.Blocks
import Dvnetos.Paging.Aarch64.MapMemory
import Dvnetos.Paging.PageNumbers
import Dvnetos.Paging.X86.MapMemory

/-!
# Mapping a range of bytes

This file models `mapPartial`, which is the same text on both architectures. The size is
rounded up to the next page even if it is a whole number of pages, so a range of whole pages
gets one page more than it has.
-/

namespace Dvnetos.PageTables

/-- `makePageAligned(address)`. -/
def makePageAligned (address : Word64) : Word64 := address &&& ~~~0xFFF#64

/-- The arguments with which `mapPartial` calls `mapMemory`. -/
def partialRequest (physicalAddress virtualAddress size flags : Word64) : Request :=
  let newPhysicalAddress := makePageAligned physicalAddress
  let newVirtualAddress := makePageAligned virtualAddress
  let newSize := size + pageSize - size % pageSize
  let newSize :=
    if newPhysicalAddress + newSize < physicalAddress + size then newSize + pageSize else newSize
  { physicalAddress := newPhysicalAddress
    virtualAddress := newVirtualAddress
    size := pageSize
    numPages := newSize / pageSize
    flags }

/-- `mapPartial(physicalAddress, virtualAddress, size, flags)` on x86. -/
def X86.mapPartial (paging : X86.Paging) (pool : InitialPool paging.pageTableOffset)
    (memory : TableMemory) (physicalAddress virtualAddress size flags : Word64) :
    Except Panic TableMemory :=
  X86.mapMemory paging pool memory (partialRequest physicalAddress virtualAddress size flags)

/-- `mapPartial(physicalAddress, virtualAddress, size, flags)` on aarch64. -/
def Aarch64.mapPartial (paging : Aarch64.Paging) (pool : InitialPool paging.pageTableOffset)
    (memory : TableMemory) (physicalAddress virtualAddress size flags : Word64) :
    Except Panic TableMemory :=
  Aarch64.mapMemory paging pool memory (partialRequest physicalAddress virtualAddress size flags)

theorem makePageAligned_toNat (address : Word64) :
    (makePageAligned address).toNat = address.toNat / 4096 * 4096 :=
  @Bits.toNat_and_not_low 64 address 12 (by decide)

/-- The number of pages as a computation with numbers. -/
def pageCount (physicalAddress size : ℕ) : ℕ :=
  let newPhysicalAddress := physicalAddress / 4096 * 4096
  let newSize := (size / 4096 + 1) * 4096 % 2 ^ 64
  if (newPhysicalAddress + newSize) % 2 ^ 64 < (physicalAddress + size) % 2 ^ 64 then
    (newSize + 4096) % 2 ^ 64 / 4096
  else newSize / 4096

theorem partialRequest_numPages (physicalAddress virtualAddress size flags : Word64) :
    (partialRequest physicalAddress virtualAddress size flags).numPages.toNat =
      pageCount physicalAddress.toNat size.toNat := by
  have aligned := makePageAligned_toNat physicalAddress
  have newSize : (size + pageSize - size % pageSize).toNat =
      (size.toNat / 4096 + 1) * 4096 % 2 ^ 64 := by
    rw [BitVec.toNat_sub, BitVec.toNat_add, BitVec.toNat_umod, show pageSize.toNat = 4096 from rfl]
    have := size.isLt
    omega
  simp only [partialRequest, pageCount, BitVec.toNat_udiv, show pageSize.toNat = 4096 from rfl,
    BitVec.lt_def, BitVec.toNat_add, newSize, aligned]
  split_ifs
  · rw [BitVec.toNat_add, newSize]
    rfl
  · rw [newSize]

theorem count_eq {page offset pages rest : ℕ} (inPage : offset < 4096)
    (nonempty : 0 < 4096 * pages + rest) :
    Blocks.count 4096 (4096 * page + offset) (4096 * pages + rest) =
      pages + (offset + rest + 4095) / 4096 := by
  rw [Blocks.count]
  omega

/-- One page is too many if the address and the size are whole pages; at the end of the address
space the sums wrap. -/
theorem pageCount_eq_iff {physicalAddress size : ℕ} (nonempty : 0 < size)
    (fits : physicalAddress + size ≤ 2 ^ 64) :
    pageCount physicalAddress size = Blocks.count 4096 physicalAddress size ↔
      physicalAddress % 4096 + size % 4096 ≠ 0 ∧
        (physicalAddress + size ≤ 2 ^ 64 - 4096 ∨
          4096 ≤ physicalAddress ∧
            (4096 < physicalAddress % 4096 + size % 4096 ∨ physicalAddress + size = 2 ^ 64)) := by
  rcases (⟨_, _, Nat.mod_lt _ (by decide), (Nat.div_add_mod physicalAddress 4096).symm⟩ :
    ∃ page offset, offset < 4096 ∧ physicalAddress = 4096 * page + offset) with
    ⟨page, offset, inPage, rfl⟩
  rcases (⟨_, _, Nat.mod_lt _ (by decide), (Nat.div_add_mod size 4096).symm⟩ :
    ∃ pages rest, rest < 4096 ∧ size = 4096 * pages + rest) with ⟨pages, rest, inLastPage, rfl⟩
  have start : (4096 * page + offset) / 4096 = page := by omega
  have whole : (4096 * pages + rest) / 4096 = pages := by omega
  have offsetMod : (4096 * page + offset) % 4096 = offset := by omega
  have restMod : (4096 * pages + rest) % 4096 = rest := by omega
  rw [count_eq inPage nonempty, pageCount, start, whole, offsetMod, restMod]
  clear start whole offsetMod restMod
  rcases Nat.eq_or_lt_of_le fits with top | below
  · -- the end of the range wraps to zero
    rw [top, Nat.mod_self, if_neg (Nat.not_lt_zero _)]
    omega
  rw [Nat.mod_eq_of_lt below]
  by_cases apart : page + pages + 1 < 2 ^ 52
  · have newSize : (pages + 1) * 4096 % 2 ^ 64 = (pages + 1) * 4096 := Nat.mod_eq_of_lt (by omega)
    have newEnd : (page * 4096 + (pages + 1) * 4096) % 2 ^ 64 =
        page * 4096 + (pages + 1) * 4096 := Nat.mod_eq_of_lt (by omega)
    rw [newSize, newEnd]
    split_ifs with more
    · omega
    · omega
  · -- the range ends in the last page, behind which the new end wraps
    have last : page + pages + 1 = 2 ^ 52 := by omega
    have newEnd : (page * 4096 + (pages + 1) * 4096 % 2 ^ 64) % 2 ^ 64 = 0 := by omega
    rw [newEnd, if_pos (by omega)]
    omega

/-- The request starts at the pages of the addresses, and maps the pages of the range. -/
structure MapsTouched (request : Request) (physicalAddress virtualAddress size : Word64) :
    Prop where
  pages : request.size = pageSize
  physicalStart : request.physicalAddress.toNat = physicalAddress.toNat / 4096 * 4096
  virtualStart : request.virtualAddress.toNat = virtualAddress.toNat / 4096 * 4096
  touched : ∀ number,
    (∃ i < request.numPages.toNat,
        (pageAddress request.size request.physicalAddress i).toNat / 4096 = number) ↔
      Blocks.Touched 4096 physicalAddress.toNat size.toNat number

theorem pageAddress_number {start : Word64} (aligned : start.toNat % 4096 = 0) (i : ℕ) :
    (pageAddress pageSize start i).toNat / 4096 = (start.toNat / 4096 + i) % 2 ^ 52 := by
  rw [pageAddress, stepSize_eq (.inl rfl), BitVec.toNat_add, BitVec.toNat_mul, BitVec.toNat_ofNat,
    show pageSize.toNat = 4096 from rfl]
  omega

/-- When `mapPartial` maps the pages with a byte of the range and no others. -/
theorem partialRequest_mapsTouched_iff (virtualAddress flags : Word64)
    {physicalAddress size : Word64} (nonempty : 1 ≤ size.toNat)
    (fits : physicalAddress.toNat + size.toNat ≤ 2 ^ 64) :
    MapsTouched (partialRequest physicalAddress virtualAddress size flags) physicalAddress
        virtualAddress size ↔
      physicalAddress.toNat % 4096 + size.toNat % 4096 ≠ 0 ∧
        (physicalAddress.toNat + size.toNat ≤ 2 ^ 64 - 4096 ∨
          4096 ≤ physicalAddress.toNat ∧
            (4096 < physicalAddress.toNat % 4096 + size.toNat % 4096 ∨
              physicalAddress.toNat + size.toNat = 2 ^ 64)) := by
  rw [← pageCount_eq_iff nonempty fits, ← partialRequest_numPages _ virtualAddress _ flags]
  have start := makePageAligned_toNat physicalAddress
  have inSpace : physicalAddress.toNat / 4096 +
      Blocks.count 4096 physicalAddress.toNat size.toNat ≤ 2 ^ 52 := by
    rw [Blocks.start_add_count nonempty]
    omega
  have short :
      (partialRequest physicalAddress virtualAddress size flags).numPages.toNat ≤ 2 ^ 52 := by
    simp only [partialRequest, BitVec.toNat_udiv, show pageSize.toNat = 4096 from rfl]
    omega
  have numbers (i : ℕ) : (pageAddress pageSize (makePageAligned physicalAddress) i).toNat / 4096 =
      (physicalAddress.toNat / 4096 + i) % 2 ^ 52 := by
    rw [pageAddress_number (by omega), start]
    congr 2
    omega
  have mapped (number : ℕ) :
      (∃ i < (partialRequest physicalAddress virtualAddress size flags).numPages.toNat,
        (pageAddress pageSize (makePageAligned physicalAddress) i).toNat / 4096 = number) ↔
      ∃ i < (partialRequest physicalAddress virtualAddress size flags).numPages.toNat,
        (physicalAddress.toNat / 4096 + i) % 2 ^ 52 = number :=
    exists_congr fun i => and_congr_right fun _ => by rw [numbers i]
  rw [← Blocks.run_eq_iff inSpace short]
  constructor
  · intro maps number
    rw [← mapped number, ← Blocks.touched_iff (by decide) nonempty]
    exact maps.touched number
  · intro run
    refine ⟨rfl, start, makePageAligned_toNat virtualAddress, fun number => ?_⟩
    rw [Blocks.touched_iff (by decide) nonempty, ← run number]
    exact mapped number

/-- 512 bytes that lie in two pages. -/
theorem partialRequest_mapsTouched_iff_twoPages :
    MapsTouched (partialRequest 0x1F00#64 0x2F00#64 0x200#64 0#64) 0x1F00#64 0x2F00#64 0x200#64 :=
  (partialRequest_mapsTouched_iff 0x2F00#64 0#64 (by decide) (by decide)).mpr
    ⟨by decide, .inl (by decide)⟩

/-- One whole page is mapped as two. -/
theorem partialRequest_maps_extra :
    (partialRequest 0x1000#64 0x1000#64 0x1000#64 0#64).numPages = 2#64 ∧
      ¬MapsTouched (partialRequest 0x1000#64 0x1000#64 0x1000#64 0#64) 0x1000#64 0x1000#64
        0x1000#64 := by
  refine ⟨by decide, fun maps => ?_⟩
  rcases (maps.touched 2).mp ⟨1, by decide, by decide⟩ with ⟨byte, -, below, page⟩
  have last : byte < 8192 := below
  omega

end Dvnetos.PageTables
