import Dvnetos.Paging.X86.Init
import Dvnetos.Paging.X86.MapRange

/-!
# The rebuilt tables translate as before

The tables that `init` has built map exactly the pages of the ranges its callback
maps, each with the address bits of the boot loader's entry.
-/

namespace Dvnetos.PageTables.X86

section Addresses

variable {cr3 hhdmVirtualOffset : Word64} {bootTables : Word64 → Index → Word64}
variable {range : PageTableRangeData} {start : ℕ} {address : Word64}

/-- The page behind an address that the range covers is one of its pages. -/
theorem rangePaths_of_covers (boot : BootRange cr3 hhdmVirtualOffset bootTables range start)
    (noSpan : ¬SpansHole range) (covers : range.Covers address) :
    rangePaths range (pagePath range.pageSize address) := by
  rcases (covers_iff boot noSpan).mp covers with ⟨_, from_, below⟩
  exact boot.rangePaths_pagePath walkFormat_numbered from_ below

theorem covers_of_rangePaths (boot : BootRange cr3 hhdmVirtualOffset bootTables range start)
    (noSpan : ¬SpansHole range) (canonical : Canonical address) {path : List Index}
    (inRange : rangePaths range path) (here : path = hugePath address ∨ path = smallPath address) :
    range.Covers address :=
  (covers_iff boot noSpan).mpr
    ⟨canonical, boot.pageNumber_bounds walkFormat_numbered inRange here⟩

end Addresses

/-- The entry that `init` makes of an entry of the boot loader. -/
def rebuiltEntry (level : ℕ) (entry : Word64) : Word64 :=
  if level = 3 then
    newValue (walkFormat.blockAddress entry)
      (walkFormat.rangeFlags (walkFormat.blockFlags entry) ||| pageSizeFlag)
  else newValue (entry &&& ~~~pageFlagsMask) (walkFormat.rangeFlags (walkFormat.pageFlags entry))

section Rebuild

variable {cr3 hhdmVirtualOffset : Word64} {bootTables : Word64 → Index → Word64}
variable {paging : Paging} {pool : InitialPool paging.pageTableOffset}
variable {memory memory' : TableMemory} {done : List Index → Prop}

theorem rangeEntry_eq {tree : PageTree} {range : PageTableRangeData} {page number : ℕ}
    {path : List Index} {entry : Word64}
    (here : RangePage walkFormat bootTables tree range page
      (range.physicalStart + BitVec.ofNat 64 number * range.pageSize) path entry) :
    rangeEntry range.pageSize range.physicalStart range.flags number =
      rebuiltEntry path.length entry := by
  rw [rangeEntry, pageAddress, stepSize_eq here.sizes]
  rcases here.kind with ⟨three, size, physical, flags⟩ | ⟨four, size, physical, flags⟩
  · rw [physical, entryFlags, if_pos size, flags, rebuiltEntry, if_pos three]
  · rw [physical, entryFlags, size, if_neg (by decide), flags, rebuiltEntry,
      if_neg (by omega)]

/-- A range of the boot loader's tables adds its pages to the new tree. -/
theorem mapRange_rebuilt {range : PageTableRangeData} {start : ℕ}
    (boot : BootRange cr3 hhdmVirtualOffset bootTables range start)
    (rebuilt : Rebuilt paging.tree (bootPaging cr3 hhdmVirtualOffset).tree bootTables rebuiltEntry
      done memory.tables)
    (sound : paging.tree.Sound pool memory)
    (mapped : mapRange paging pool range memory = .ok memory') :
    paging.tree.Stepped pool memory memory' ∧
      Rebuilt paging.tree (bootPaging cr3 hhdmVirtualOffset).tree bootTables rebuiltEntry
        (fun path => done path ∨ rangePaths range path) memory'.tables := by
  rcases mapMemory_cases mapped with ⟨_, _, state, pages, rfl⟩
  rcases mapPages_frame sound pages with ⟨stepped, keeps, frame, _⟩
  have mappedAs := mapPages_mapped sound pages
  refine ⟨stepped, rebuilt.extend keeps ?_ ?_⟩
  · intro path outside
    exact frame path fun number below same => outside ⟨number, below, same⟩
  rintro path ⟨number, below, rfl⟩
  have uncovered : Uncovered paging state.memory.tables range.pageSize range.virtualStart
      number := by
    intro earlier earlierBelow
    rcases boot.page (Nat.lt_of_le_of_lt earlierBelow below) with ⟨path, entry, page, -⟩
    have pathEq := boot.pagePath_eq walkFormat_numbered page
    by_cases isHuge : range.pageSize = hugePageSize
    · exact Or.inl isHuge
    · right
      rw [pagePath, if_neg isHuge] at pathEq
      have unchanged := frame
        (hugePath (pageAddress range.pageSize range.virtualStart earlier)) (by
          intro other _
          change _ ≠ pagePath range.pageSize _
          rw [pagePath, if_neg isHuge]
          exact hugePath_ne_smallPath _ _)
      rw [unchanged, Option.eq_none_iff_forall_ne_some]
      -- a page of 2 MiB here would be one of the boot loader's as well
      intro covering found
      rcases ((rebuilt _ _).mp found).2 with ⟨original, bootHuge, _⟩
      have bootSmall := page.genuine.leaf
      rw [← pathEq, smallPath_eq_cons] at bootSmall
      rw [PageTree.leaf_above rfl bootSmall] at bootHuge
      cases bootHuge
  rcases boot.page below with ⟨path, entry, page, -⟩
  have here := mappedAs number below uncovered
  have value : rangeEntry range.pageSize range.physicalStart range.flags number =
      rebuiltEntry path.length entry := rangeEntry_eq page
  rw [boot.pagePath_eq walkFormat_numbered page]
  refine ⟨entry, page.genuine.leaf, ?_⟩
  rw [← value, ← boot.pagePath_eq walkFormat_numbered page]
  exact here

end Rebuild

theorem newValue_and {frame flags : Word64} (inAddress : pageAddrMask &&& frame = frame)
    (flagsClear : flags &&& frame = 0#64) (physicalAddress : Word64) :
    newValue physicalAddress flags &&& frame = physicalAddress &&& frame := by
  have present : pagePresent &&& frame = 0#64 := Bits.and_eq_zero_of_within (by decide) inAddress
  rw [newValue, Bits.or_and_of_added_clear _ flagsClear, Bits.or_and_of_added_clear _ present,
    BitVec.and_assoc, inAddress]

theorem keptFlags_and {frame : Word64} (inAddress : pageAddrMask &&& frame = frame)
    (entry : Word64) :
    walkFormat.rangeFlags (walkFormat.blockFlags entry) &&& frame = 0#64 := by
  have flags : pageFlagsMask &&& frame = 0#64 := Bits.and_eq_zero_of_within (by decide) inAddress
  calc entry &&& pageFlagsMask &&& ~~~pageSizeFlag &&& ~~~(pageAccessed ||| pageDirty) &&& frame
      = (pageFlagsMask &&& frame) &&&
          (entry &&& ~~~pageSizeFlag &&& ~~~(pageAccessed ||| pageDirty)) := by ac_rfl
    _ = 0#64 := by rw [flags, BitVec.zero_and]

/-- A rebuilt entry leads to the physical page of the boot loader's entry. -/
theorem physicalAddress_rebuilt_huge (entry address : Word64) :
    (leafTranslation hugePageSize (rebuiltEntry 3 entry) address).physicalAddress =
      (leafTranslation hugePageSize entry address).physicalAddress := by
  have inAddress : pageAddrMask &&& (pageAddrMask &&& ~~~(hugePageSize - 1#64)) =
      pageAddrMask &&& ~~~(hugePageSize - 1#64) := by decide
  have inMask3 : pageAddrMask3 &&& (pageAddrMask &&& ~~~(hugePageSize - 1#64)) =
      pageAddrMask &&& ~~~(hugePageSize - 1#64) := by decide
  have flagsClear : (walkFormat.rangeFlags (walkFormat.blockFlags entry) ||| pageSizeFlag) &&&
      (pageAddrMask &&& ~~~(hugePageSize - 1#64)) = 0#64 := by
    rw [BitVec.and_or_distrib_right, keptFlags_and inAddress]
    decide
  have frame : rebuiltEntry 3 entry &&& (pageAddrMask &&& ~~~(hugePageSize - 1#64)) =
      entry &&& (pageAddrMask &&& ~~~(hugePageSize - 1#64)) := by
    rw [rebuiltEntry, if_pos rfl, newValue_and inAddress flagsClear]
    change entry &&& pageAddrMask3 &&& _ = _
    rw [BitVec.and_assoc, inMask3]
  simp only [leafTranslation, frame]

theorem physicalAddress_rebuilt_small (entry address : Word64) :
    (leafTranslation pageSize (rebuiltEntry 4 entry) address).physicalAddress =
      (leafTranslation pageSize entry address).physicalAddress := by
  have inAddress : pageAddrMask &&& (pageAddrMask &&& ~~~(pageSize - 1#64)) =
      pageAddrMask &&& ~~~(pageSize - 1#64) := by decide
  have outsideFlags : ~~~pageFlagsMask &&& (pageAddrMask &&& ~~~(pageSize - 1#64)) =
      pageAddrMask &&& ~~~(pageSize - 1#64) := by decide
  have flagsClear : walkFormat.rangeFlags (walkFormat.pageFlags entry) &&&
      (pageAddrMask &&& ~~~(pageSize - 1#64)) = 0#64 := keptFlags_and inAddress entry
  have frame : rebuiltEntry 4 entry &&& (pageAddrMask &&& ~~~(pageSize - 1#64)) =
      entry &&& (pageAddrMask &&& ~~~(pageSize - 1#64)) := by
    rw [rebuiltEntry, if_neg (by decide), newValue_and inAddress flagsClear, BitVec.and_assoc,
      outsideFlags]
  simp only [leafTranslation, frame]

section Init

variable {response : Option PagingMode} {cr3 hhdmVirtualOffset kernelVirtualOffset : Word64}
variable {bootTables : Word64 → Index → Word64} {mappings : List MemmapEntry}
variable {pool : InitialPool kernelVirtualOffset} {memory finished : TableMemory}
variable {paging : Paging} {ranges : List PageTableRangeData}

theorem init_cases
    (built : init response cr3 bootTables mappings hhdmVirtualOffset kernelVirtualOffset pool
      memory = .ok (paging, finished)) :
    ∃ root rootMemory, paging = { root, pageTableOffset := kernelVirtualOffset } ∧
      newTable pool memory = .ok (rootMemory, root) ∧
      pageTableToRanges walkFormat
        (initCallback (mapRange { root, pageTableOffset := kernelVirtualOffset } pool) mappings)
        bootTables (· + hhdmVirtualOffset) [(false, cr3 + hhdmVirtualOffset)] rootMemory =
          .ok finished := by
  unfold init at built
  split_ifs at built with misaligned
  · cases built
  · cases response with
    | none => cases built
    | some mode =>
        cases mode with
        | other => cases built
        | fourLevel =>
            simp only [Fallible.bind_eq_ok_iff, Prod.exists] at built
            rcases built with ⟨rootMemory, root, made, memory, walked, returned⟩
            cases returned
            exact ⟨root, rootMemory, rfl, made, walked⟩

/-- After `init` the tables map the pages of the mapped ranges and no other. -/
theorem init_rebuilt
    (built : init response cr3 bootTables mappings hhdmVirtualOffset kernelVirtualOffset pool
      memory = .ok (paging, finished))
    (reported : bootRanges cr3 hhdmVirtualOffset bootTables = .ok ranges) :
    (∀ index path entry, path.length = 1 →
        paging.tree.entry finished.tables (index :: path) = some entry → Present entry →
          ¬Huge entry) ∧
      Rebuilt paging.tree (bootPaging cr3 hhdmVirtualOffset).tree bootTables rebuiltEntry
        (fun path => ∃ range ∈ ranges, isMapped mappings range = true ∧ rangePaths range path)
        finished.tables := by
  rcases init_cases built with ⟨root, rootMemory, rfl, made, walked⟩
  rcases pageTableToRanges_eq walked with ⟨sameRanges, sameReported, folded⟩
  rw [bootRanges, sameReported] at reported
  cases reported
  let paging : Paging := { root, pageTableOffset := kernelVirtualOffset }
  rcases PageTree.sound_newTable paging.tree made with ⟨soundRoot, empty⟩
  have described := bootRanges_describe sameReported
  have rebuiltRoot : Rebuilt paging.tree (bootPaging cr3 hhdmVirtualOffset).tree bootTables
      rebuiltEntry (fun _ => False) rootMemory.tables := by
    intro path entry
    rw [empty path]
    simp
  have last := mapRanges_induction
    (motive := fun done memory => paging.tree.Sound pool memory ∧
      Rebuilt paging.tree (bootPaging cr3 hhdmVirtualOffset).tree bootTables rebuiltEntry done
        memory.tables) (fun _ => False) folded ⟨soundRoot, rebuiltRoot⟩ (by
    rintro range rangeMem - done before after ⟨sound, rebuilt⟩ mapped
    rcases described range rangeMem with ⟨start, boot⟩
    rcases mapRange_rebuilt boot rebuilt sound mapped with ⟨stepped, rebuiltAfter⟩
    exact ⟨stepped.sound, rebuiltAfter⟩)
  simp only [false_or] at last
  exact ⟨sound_noGiant last.1, last.2⟩

/-- The boot loader's tables lead past the entries above a page that the walk reports. -/
theorem boot_noGiant {path : List Index} {entry address : Word64}
    (genuine : Genuine walkFormat (bootPaging cr3 hhdmVirtualOffset).tree bootTables path entry)
    (here : path = hugePath address ∨ path = smallPath address) :
    let idx := virtualToPageIndexes address
    ∀ above,
      (bootPaging cr3 hhdmVirtualOffset).tree.entry bootTables [idx.l2, idx.l1] = some above →
      Present above → ¬Huge above := by
  intro idx above found _ huge
  rcases genuine.supported with ⟨front, i, j, path, _, _, supported⟩
  rcases indexes_of_path here path with ⟨rfl, rfl⟩
  have none := supported above found
  simp only [walkFormat, if_pos huge] at none
  cases none

/--
After `init` every address of a mapped range translates to the physical address the boot loader's
tables give it, through a page of the same size, and every other address does not translate.
-/
theorem init_translates
    (built : init response cr3 bootTables mappings hhdmVirtualOffset kernelVirtualOffset pool
      memory = .ok (paging, finished))
    (reported : bootRanges cr3 hhdmVirtualOffset bootTables = .ok ranges)
    (noSpan : ∀ range ∈ ranges, ¬SpansHole range) (address : Word64) :
    (∀ range ∈ ranges, isMapped mappings range = true → range.Covers address →
        ∃ before after,
          translate (bootPaging cr3 hhdmVirtualOffset) bootTables address = some before ∧
          translate paging finished.tables address = some after ∧
          after.physicalAddress = before.physicalAddress ∧ after.size = before.size) ∧
      ((∀ range ∈ ranges, isMapped mappings range = true → ¬range.Covers address) →
        translate paging finished.tables address = none) := by
  rcases init_rebuilt built reported with ⟨noGiant, rebuilt⟩
  have described := bootRanges_describe reported
  constructor
  · intro range rangeMem mapped covers
    rcases described range rangeMem with ⟨start, boot⟩
    have inRange := rangePaths_of_covers boot (noSpan range rangeMem) covers
    have canonical := ((covers_iff boot (noSpan range rangeMem)).mp covers).1
    rcases inRange with ⟨number, below, pathEq⟩
    rcases boot.page below with ⟨path, entry, page, -⟩
    have pageEq := boot.pagePath_eq walkFormat_numbered page
    rw [pageEq] at pathEq
    have rebuiltHere := (rebuilt path (rebuiltEntry path.length entry)).mpr
      ⟨⟨range, rangeMem, mapped, number, below, pageEq.symm⟩, entry, page.genuine.leaf, rfl⟩
    have bootHere := page.genuine.leaf
    rcases page.kind with ⟨three, size, _⟩ | ⟨four, size, _⟩
    · rw [pagePath, if_pos size] at pathEq
      refine ⟨leafTranslation hugePageSize entry address,
        leafTranslation hugePageSize (rebuiltEntry 3 entry) address, ?_, ?_,
        physicalAddress_rebuilt_huge entry address, rfl⟩
      · rw [translate_eq (boot_noGiant page.genuine (Or.inl pathEq.symm)), if_pos canonical,
          pathEq, bootHere]
      · rw [translate_eq fun above => noGiant _ _ above rfl, if_pos canonical, pathEq,
          rebuiltHere, three]
    · rw [pagePath, size, if_neg (by decide)] at pathEq
      have bootAbove : (bootPaging cr3 hhdmVirtualOffset).tree.leaf bootTables (hugePath address) =
          none := PageTree.leaf_above rfl (pathEq ▸ bootHere)
      have rebuiltAbove : paging.tree.leaf finished.tables (hugePath address) = none :=
        PageTree.leaf_above rfl (pathEq ▸ rebuiltHere)
      refine ⟨leafTranslation pageSize entry address,
        leafTranslation pageSize (rebuiltEntry 4 entry) address, ?_, ?_,
        physicalAddress_rebuilt_small entry address, rfl⟩
      · rw [translate_eq (boot_noGiant page.genuine (Or.inr pathEq.symm)), if_pos canonical,
          bootAbove, pathEq, bootHere]
        rfl
      · rw [translate_eq fun above => noGiant _ _ above rfl, if_pos canonical, rebuiltAbove,
          pathEq, rebuiltHere, four]
        rfl
  · intro outside
    rw [translate_eq fun above => noGiant _ _ above rfl]
    split_ifs with canonical
    · have vacant : ∀ path, path = hugePath address ∨ path = smallPath address →
          paging.tree.leaf finished.tables path = none := by
        intro path here
        rw [Option.eq_none_iff_forall_ne_some]
        intro entry found
        rcases ((rebuilt path entry).mp found).1 with ⟨range, rangeMem, mapped, inRange⟩
        rcases described range rangeMem with ⟨start, boot⟩
        exact outside range rangeMem mapped
          (covers_of_rangePaths boot (noSpan range rangeMem) canonical inRange here)
      rw [vacant _ (Or.inl rfl), vacant _ (Or.inr rfl)]
      rfl
    · rfl

end Init

/-- Tables that map a page of 4 KiB at 0x3000 and one of 2 MiB at 0x200000. -/
def twoPagesTables : Word64 → Index → Word64 :=
  let tables := TableTree.store (fun _ _ => 0#64) 0xFFFF800000100000#64 (index 0) 0x101003#64
  let tables := TableTree.store tables 0xFFFF800000101000#64 (index 0) 0x102003#64
  let tables := TableTree.store tables 0xFFFF800000102000#64 (index 0) 0x103003#64
  let tables := TableTree.store tables 0xFFFF800000102000#64 (index 1) 0x4000E3#64
  TableTree.store tables 0xFFFF800000103000#64 (index 3) 0x5063#64

/-- Ranges of one page of each size. -/
def twoPagesRanges : List PageTableRangeData :=
  [⟨0x3000#64, 0x3FFF#64, 0x5000#64, 0x5FFF#64, 3#64, 1#64, pageSize⟩,
    ⟨0x200000#64, 0x3FFFFF#64, 0x400000#64, 0x5FFFFF#64, 3#64, 1#64, hugePageSize⟩]

/-- The memory map selects the page of 4 KiB only. -/
def twoPagesMap : List MemmapEntry := [⟨0x5000#64, 0x1000#64, .kernelAndModules⟩]

theorem bootRanges_twoPages :
    bootRanges 0x100000#64 0xFFFF800000000000#64 twoPagesTables = .ok twoPagesRanges := by
  decide +kernel

theorem init_translates_twoPages :
    ∃ paging finished, init (some .fourLevel) 0x100000#64 twoPagesTables twoPagesMap
        0xFFFF800000000000#64 0xFFFFFFFF7FE00000#64 kernelPool ⟨fun _ _ => 0#64, ⟨0, by decide⟩⟩ =
          .ok (paging, finished) ∧
      (∃ after, translate paging finished.tables 0x3123#64 = some after ∧
        after.physicalAddress = 0x5123#64 ∧ after.size = pageSize) ∧
      translate paging finished.tables 0x200000#64 = none := by
  rcases Fallible.exists_of_isOk (show (init (some .fourLevel) 0x100000#64 twoPagesTables
      twoPagesMap 0xFFFF800000000000#64 0xFFFFFFFF7FE00000#64 kernelPool
      ⟨fun _ _ => 0#64, ⟨0, by decide⟩⟩).isOk = true by decide +kernel) with
    ⟨⟨paging, finished⟩, built⟩
  have translates := fun address =>
    init_translates built bootRanges_twoPages (by decide +kernel) address
  refine ⟨paging, finished, built, ?_, (translates 0x200000#64).2 (by decide +kernel)⟩
  rcases (translates 0x3123#64).1 _ (List.mem_cons_self ..) (by decide +kernel) (by decide +kernel)
    with ⟨before, after, original, found, address, size⟩
  have value : translate (bootPaging 0x100000#64 0xFFFF800000000000#64) twoPagesTables 0x3123#64 =
      some ⟨0x5123#64, pageSize, 0x63#64⟩ := by decide +kernel
  rw [value] at original
  cases original
  exact ⟨after, found, address, size⟩
end Dvnetos.PageTables.X86
