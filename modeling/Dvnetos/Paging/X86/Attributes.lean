import Dvnetos.Paging.X86.Rebuild

/-!
# Attributes of the rebuilt pages

The bits of a leaf reach the rebuilt tables through the masks of the walk, the flags of
a range and `newValue`. All of them arrive but the access bits and those that no mask
keeps: the cache type bit of a small page, which is the size flag of a huge one, and the
bits of a huge page between its flags and its address.
-/

namespace Dvnetos.PageTables.X86

/-- The bits of a leaf that no mask of `init` keeps. -/
def lostBits (level : ℕ) : Word64 :=
  if level = 3 then ~~~pageFlagsMask &&& pageAddrMask &&& ~~~pageAddrMask3 else pageSizeFlag

/-- The tables have this leaf with all its bits, up to those the processor sets. -/
def KeepsAttributes (tree : PageTree) (tables : Word64 → Index → Word64) (path : List Index)
    (original : Word64) : Prop :=
  ∃ rebuilt, tree.leaf tables path = some rebuilt ∧
    rebuilt &&& ~~~accessBits = original &&& ~~~accessBits

section Masks

variable {entry : Word64}

/-- Masks that keep parts of an entry, and a bit that it has, keep the union of the parts. -/
theorem kept_and {bit : Word64} (set : entry &&& bit = bit) (address flags mask : Word64) :
    ((entry &&& address) ||| bit ||| (entry &&& flags)) &&& mask =
      entry &&& ((address ||| bit ||| flags) &&& mask) := by
  calc ((entry &&& address) ||| bit ||| (entry &&& flags)) &&& mask
      = ((entry &&& address) ||| (entry &&& bit) ||| (entry &&& flags)) &&& mask := by rw [set]
    _ = entry &&& ((address ||| bit ||| flags) &&& mask) := by
        simp only [← BitVec.and_or_distrib_left, BitVec.and_assoc]

theorem presentBit (present : Present entry) : entry &&& pagePresent = pagePresent :=
  Bits.and_single_of_ne_zero (show pagePresent = BitVec.twoPow 64 0 from rfl) present

theorem sizeBit (huge : Huge entry) : entry &&& pageSizeFlag = pageSizeFlag :=
  Bits.and_single_of_ne_zero (show pageSizeFlag = BitVec.twoPow 64 7 from rfl) huge

/-- A small page loses no bits but the access bits and the lost bits. -/
theorem rebuiltEntry_small_and (present : Present entry) :
    rebuiltEntry 4 entry &&& ~~~accessBits = entry &&& ~~~accessBits &&& ~~~lostBits 4 := by
  let address := ~~~pageFlagsMask &&& pageAddrMask
  let flags := pageFlagsMask &&& ~~~pageSizeFlag &&& ~~~accessBits
  have masks : (address ||| pagePresent ||| flags) &&& ~~~accessBits =
      ~~~accessBits &&& ~~~lostBits 4 := by
    decide
  calc rebuiltEntry 4 entry &&& ~~~accessBits
      = ((entry &&& ~~~pageFlagsMask &&& pageAddrMask) ||| pagePresent |||
          (entry &&& pageFlagsMask &&& ~~~pageSizeFlag &&& ~~~accessBits)) &&& ~~~accessBits := rfl
    _ = ((entry &&& address) ||| pagePresent ||| (entry &&& flags)) &&& ~~~accessBits := by
        simp only [address, flags, BitVec.and_assoc]
    _ = entry &&& ~~~accessBits &&& ~~~lostBits 4 := by
        rw [kept_and (presentBit present), masks, BitVec.and_assoc]

theorem rebuiltEntry_huge_and (present : Present entry) (huge : Huge entry) :
    rebuiltEntry 3 entry &&& ~~~accessBits = entry &&& ~~~accessBits &&& ~~~lostBits 3 := by
  let address := pageAddrMask3 &&& pageAddrMask
  let flags := pageFlagsMask &&& ~~~pageSizeFlag &&& ~~~accessBits
  have set : entry &&& (pagePresent ||| pageSizeFlag) = pagePresent ||| pageSizeFlag := by
    rw [BitVec.and_or_distrib_left, presentBit present, sizeBit huge]
  have masks : (address ||| (pagePresent ||| pageSizeFlag) ||| flags) &&& ~~~accessBits =
      ~~~accessBits &&& ~~~lostBits 3 := by
    decide
  calc rebuiltEntry 3 entry &&& ~~~accessBits
      = ((entry &&& pageAddrMask3 &&& pageAddrMask) ||| pagePresent |||
          ((entry &&& pageFlagsMask &&& ~~~pageSizeFlag &&& ~~~accessBits) ||| pageSizeFlag)) &&&
            ~~~accessBits := rfl
    _ = ((entry &&& address) ||| (pagePresent ||| pageSizeFlag) ||| (entry &&& flags)) &&&
          ~~~accessBits := by
        simp only [address, flags, BitVec.and_assoc]
        ac_rfl
    _ = entry &&& ~~~accessBits &&& ~~~lostBits 3 := by
        rw [kept_and set, masks, BitVec.and_assoc]

/-- A leaf is rebuilt with all its attributes if it has none of the lost bits. -/
theorem rebuiltEntry_and_eq_iff {level : ℕ} (present : Present entry)
    (kind : level = 3 ∧ Huge entry ∨ level = 4) :
    rebuiltEntry level entry &&& ~~~accessBits = entry &&& ~~~accessBits ↔
      entry &&& lostBits level = 0#64 := by
  have loses : rebuiltEntry level entry &&& ~~~accessBits =
      entry &&& ~~~accessBits &&& ~~~lostBits level := by
    rcases kind with ⟨rfl, huge⟩ | rfl
    · exact rebuiltEntry_huge_and present huge
    · exact rebuiltEntry_small_and present
  have apart : ~~~accessBits &&& lostBits level = lostBits level := by
    rcases kind with ⟨rfl, _⟩ | rfl <;> decide
  rw [loses, Bits.and_not_eq_self_iff, BitVec.and_assoc, apart]

end Masks

section Init

variable {response : Option PagingMode} {cr3 hhdmVirtualOffset kernelVirtualOffset : Word64}
variable {bootTables : Word64 → Index → Word64} {mappings : List MemmapEntry}
variable {pool : InitialPool kernelVirtualOffset} {memory finished : TableMemory}
variable {paging : Paging} {ranges : List PageTableRangeData}
variable {range : PageTableRangeData} {path : List Index} {original : Word64}

theorem init_leaf
    (built : init response cr3 bootTables mappings hhdmVirtualOffset kernelVirtualOffset pool
      memory = .ok (paging, finished))
    (reported : bootRanges cr3 hhdmVirtualOffset bootTables = .ok ranges)
    (rangeMem : range ∈ ranges) (mapped : isMapped mappings range = true)
    (inRange : rangePaths range path)
    (bootLeaf : (bootPaging cr3 hhdmVirtualOffset).tree.leaf bootTables path = some original) :
    paging.tree.leaf finished.tables path = some (rebuiltEntry path.length original) :=
  ((init_rebuilt built reported).2 path _).mpr
    ⟨⟨range, rangeMem, mapped, inRange⟩, original, bootLeaf, rfl⟩

/--
A leaf of the boot loader in a mapped range is in the tables of `init` with all its attributes
exactly if it has none of the lost bits: the cache type of a small page in bit 7, that of a huge
page in bit 12.
-/
theorem init_keepsAttributes_iff
    (built : init response cr3 bootTables mappings hhdmVirtualOffset kernelVirtualOffset pool
      memory = .ok (paging, finished))
    (reported : bootRanges cr3 hhdmVirtualOffset bootTables = .ok ranges)
    (rangeMem : range ∈ ranges) (mapped : isMapped mappings range = true)
    (inRange : rangePaths range path)
    (bootLeaf : (bootPaging cr3 hhdmVirtualOffset).tree.leaf bootTables path = some original) :
    KeepsAttributes paging.tree finished.tables path original ↔
      original &&& lostBits path.length = 0#64 := by
  have here := init_leaf built reported rangeMem mapped inRange bootLeaf
  rcases PageTree.leaf_eq_some_iff.mp bootLeaf with ⟨_, present, kind⟩
  have level : path.length = 3 ∧ Huge original ∨ path.length = 4 := by
    rcases kind with four | ⟨three, huge⟩
    · exact Or.inr four
    · exact Or.inl ⟨three, of_decide_eq_true huge⟩
  rw [← rebuiltEntry_and_eq_iff present level]
  constructor
  · rintro ⟨entry, found, same⟩
    rw [here] at found
    cases found
    exact same
  · intro same
    exact ⟨_, here, same⟩

end Init

/-- Tables that map a page of 4 KiB at 0x3000 with the cache type that bit 7 selects. -/
def cachedPageTables : Word64 → Index → Word64 :=
  TableTree.store twoPagesTables 0xFFFF800000103000#64 (index 3) 0x50E3#64

theorem bootRanges_cachedPage :
    bootRanges 0x100000#64 0xFFFF800000000000#64 cachedPageTables = .ok twoPagesRanges := by
  decide +kernel

/-- The path to the page at 0x3000. -/
def smallPagePath : List Index := smallPath 0x3000#64

theorem init_keepsAttributes_twoPages :
    ∃ paging finished, init (some .fourLevel) 0x100000#64 twoPagesTables twoPagesMap
        0xFFFF800000000000#64 0xFFFFFFFF7FE00000#64 kernelPool
          ⟨fun _ _ => 0#64, ⟨0, by decide⟩⟩ = .ok (paging, finished) ∧
      (KeepsAttributes paging.tree finished.tables smallPagePath 0x5063#64 ↔
        0x5063#64 &&& lostBits 4 = 0#64) := by
  rcases Fallible.exists_of_isOk (show (init (some .fourLevel) 0x100000#64 twoPagesTables
      twoPagesMap 0xFFFF800000000000#64 0xFFFFFFFF7FE00000#64 kernelPool
      ⟨fun _ _ => 0#64, ⟨0, by decide⟩⟩).isOk = true by decide +kernel) with
    ⟨⟨paging, finished⟩, built⟩
  refine ⟨paging, finished, built, ?_⟩
  exact init_keepsAttributes_iff built bootRanges_twoPages (List.mem_cons_self ..)
    (by decide +kernel) ⟨0, by decide, by decide +kernel⟩ (by decide +kernel)

/-- The page is in a range that is mapped, and loses bit 7. -/
theorem init_loses_cacheType :
    ∃ paging finished range, init (some .fourLevel) 0x100000#64 cachedPageTables twoPagesMap
        0xFFFF800000000000#64 0xFFFFFFFF7FE00000#64 kernelPool
          ⟨fun _ _ => 0#64, ⟨0, by decide⟩⟩ = .ok (paging, finished) ∧
      bootRanges 0x100000#64 0xFFFF800000000000#64 cachedPageTables = .ok twoPagesRanges ∧
      range ∈ twoPagesRanges ∧ isMapped twoPagesMap range = true ∧
      rangePaths range smallPagePath ∧
      (bootPaging 0x100000#64 0xFFFF800000000000#64).tree.leaf cachedPageTables smallPagePath =
        some 0x50E3#64 ∧
      ¬KeepsAttributes paging.tree finished.tables smallPagePath 0x50E3#64 := by
  rcases Fallible.exists_of_isOk (show (init (some .fourLevel) 0x100000#64 cachedPageTables
      twoPagesMap 0xFFFF800000000000#64 0xFFFFFFFF7FE00000#64 kernelPool
      ⟨fun _ _ => 0#64, ⟨0, by decide⟩⟩).isOk = true by decide +kernel) with
    ⟨⟨paging, finished⟩, built⟩
  have rangeMem : twoPagesRanges.head (by decide) ∈ twoPagesRanges := List.head_mem _
  have mapped : isMapped twoPagesMap (twoPagesRanges.head (by decide)) = true := by
    decide +kernel
  have inRange : rangePaths (twoPagesRanges.head (by decide)) smallPagePath :=
    ⟨0, by decide, by decide +kernel⟩
  have bootLeaf : (bootPaging 0x100000#64 0xFFFF800000000000#64).tree.leaf cachedPageTables
      smallPagePath = some 0x50E3#64 := by
    decide +kernel
  have leaf := init_leaf built bootRanges_cachedPage rangeMem mapped inRange bootLeaf
  refine ⟨paging, finished, _, built, bootRanges_cachedPage, rangeMem, mapped, inRange, bootLeaf,
    ?_⟩
  rintro ⟨entry, here, same⟩
  rw [leaf] at here
  cases here
  revert same
  decide

end Dvnetos.PageTables.X86
