import Dvnetos.Paging.Aarch64.Init

/-!
# What the rebuilt tables translate

`init` walks the tables with an object that knows where the higher half starts and
maps with one that does not. All pages go into the tree of `root2`: those of the
higher half translate as before, and the table of `root1` stays empty.
-/

namespace Dvnetos.PageTables.Aarch64

/-- The entry that `init` makes of an entry of the boot loader. -/
def rebuiltEntry (level : ℕ) (entry : Word64) : Word64 :=
  let walk := walkFormat higherHalfStart
  if level = 3 then newValue 3 (walk.blockAddress entry) (walk.blockFlags entry)
  else newValue 4 (entry &&& ~~~pageFlagsMask) (walk.pageFlags entry)

theorem newValue_and {frame flags : Word64} (inAddress : pageAddrMask &&& frame = frame)
    (flagsClear : flags &&& frame = 0#64) (level : ℕ) (physicalAddress : Word64) :
    newValue level physicalAddress flags &&& frame = physicalAddress &&& frame := by
  have present : pagePresent &&& frame = 0#64 := Bits.and_eq_zero_of_within (by decide) inAddress
  have table : (if level = 4 then pageTable else 0#64) &&& frame = 0#64 := by
    split_ifs
    · exact Bits.and_eq_zero_of_within (by decide) inAddress
    · rw [BitVec.zero_and]
  rw [newValue, Bits.or_and_of_added_clear _ table, Bits.or_and_of_added_clear _ flagsClear,
    Bits.or_and_of_added_clear _ present, BitVec.and_assoc, inAddress]

/-- A rebuilt entry has the address bits of the boot loader's entry. -/
theorem rebuiltEntry_and {frame : Word64} (inAddress : pageAddrMask &&& frame = frame) (level : ℕ)
    (entry : Word64) : rebuiltEntry level entry &&& frame = entry &&& frame := by
  have flags : pageFlagsMask &&& frame = 0#64 := Bits.and_eq_zero_of_within (by decide) inAddress
  rw [rebuiltEntry]
  split_ifs
  · have clear : entry &&& pageFlagsMask &&& frame = 0#64 := by
      rw [BitVec.and_assoc, flags, BitVec.and_zero]
    change newValue 3 (entry &&& pageAddrMask) (entry &&& pageFlagsMask) &&& frame = _
    rw [newValue_and inAddress clear, BitVec.and_assoc, inAddress]
  · have clear : entry &&& pageFlagsMask &&& ~~~pagePresent &&& ~~~pageTable &&& frame = 0#64 := by
      calc entry &&& pageFlagsMask &&& ~~~pagePresent &&& ~~~pageTable &&& frame
          = (pageFlagsMask &&& frame) &&& (entry &&& ~~~pagePresent &&& ~~~pageTable) := by ac_rfl
        _ = 0#64 := by rw [flags, BitVec.zero_and]
    change newValue 4 (entry &&& ~~~pageFlagsMask)
      (entry &&& pageFlagsMask &&& ~~~pagePresent &&& ~~~pageTable) &&& frame = _
    rw [newValue_and inAddress clear, BitVec.and_assoc,
      show ~~~pageFlagsMask = pageAddrMask by decide, inAddress]

theorem physicalAddress_rebuilt {size : Word64} (sizes : size = pageSize ∨ size = hugePageSize)
    (level : ℕ) (entry address : Word64) :
    (leafTranslation size (rebuiltEntry level entry) address).physicalAddress =
      (leafTranslation size entry address).physicalAddress := by
  have inAddress : pageAddrMask &&& (pageAddrMask &&& ~~~(size - 1#64)) =
      pageAddrMask &&& ~~~(size - 1#64) := by
    rcases sizes with rfl | rfl <;> decide
  simp only [leafTranslation, rebuiltEntry_and inAddress]

theorem table_rebuilt (entry : Word64) : Table (rebuiltEntry 4 entry) := by
  rw [rebuiltEntry, if_neg (by decide)]
  exact table_newValue_four _ _

section Ranges

variable {ttbr0 ttbr1 : Word64} {bootTables : Word64 → Index → Word64}
variable {range : PageTableRangeData} {start : ℕ}

theorem BootRange.sizes (boot : BootRange ttbr0 ttbr1 bootTables range start) :
    range.pageSize = pageSize ∨ range.pageSize = hugePageSize := by
  rcases boot.describes.pages 0 boot.describes.positive with
    ⟨_, ⟨_, _, _, _, _, _, ⟨_, size, _⟩ | ⟨_, size, _⟩⟩, _⟩
  · exact Or.inr size
  · exact Or.inl size

theorem BootRange.noTable (boot : BootRange ttbr0 ttbr1 bootTables range start)
    (isHuge : range.pageSize = hugePageSize) : range.flags &&& pageTable = 0#64 := by
  rcases boot.describes.pages 0 boot.describes.positive with
    ⟨_, ⟨half, path, entry, genuine, _, _, ⟨three, _, _, flags⟩ | ⟨_, size, _⟩⟩, _⟩
  · rcases (PageTree.leaf_eq_some_iff.mp genuine.leaf).2.2 with four | ⟨_, block⟩
    · omega
    · have clear : entry &&& pageTable = 0#64 := not_not.mp (of_decide_eq_true block)
      calc range.flags &&& pageTable = entry &&& pageFlagsMask &&& pageTable := by rw [flags]; rfl
        _ = pageFlagsMask &&& (entry &&& pageTable) := by ac_rfl
        _ = 0#64 := by rw [clear, BitVec.and_zero]
  · rw [isHuge] at size
    exact absurd size (by decide)

theorem rangeEntry_eq {tree : PageTree} {page number : ℕ} {path : List Index} {entry : Word64}
    (here : RangePage (walkFormat higherHalfStart) bootTables tree range page
      (range.physicalStart + BitVec.ofNat 64 number * range.pageSize) path entry) :
    rangeEntry range.pageSize range.physicalStart range.flags number =
      rebuiltEntry path.length entry := by
  rw [rangeEntry, pageAddress, stepSize_eq here.sizes]
  rcases here.kind with ⟨three, size, physical, flags⟩ | ⟨four, size, physical, flags⟩
  · rw [physical, pageLevel, if_pos size, flags, rebuiltEntry, if_pos three]
    rfl
  · rw [physical, pageLevel, size, if_neg (by decide), flags, rebuiltEntry, if_neg (by omega)]
    rfl

section Mapping

variable {paging : Paging} {pool : InitialPool paging.pageTableOffset}
variable {memory memory' : TableMemory} (unset : paging.higherHalfOffset = 0#64)
variable (sound : (paging.tree true).Sound pool memory)
variable (mapped : mapRange paging pool range memory = .ok memory')

include unset sound mapped

/-- What the call for a range does to the tree of `root2`, which it takes for every address. -/
theorem mapRange_pages (boot : BootRange ttbr0 ttbr1 bootTables range start) :
    (paging.tree true).Stepped pool memory memory' ∧
      (∀ path entry, (paging.tree true).leaf memory.tables path = some entry →
        (paging.tree true).leaf memory'.tables path = some entry) ∧
      (∀ path, (∀ number < range.pageCount.toNat,
          path ≠ pagePath range.pageSize
            (pageAddress range.pageSize range.virtualStart number)) →
        (paging.tree true).leaf memory'.tables path =
          (paging.tree true).leaf memory.tables path) ∧
      (∀ number < range.pageCount.toNat, (paging.tree true).leaf memory'.tables
          (pagePath range.pageSize (pageAddress range.pageSize range.virtualStart number)) =
        some (rangeEntry range.pageSize range.physicalStart range.flags number)) := by
  rcases mapMemory_cases mapped with ⟨state, pages, rfl⟩
  refine mapPages_mapped boot.sizes boot.noTable ?_ sound pages
  intro number _
  exact Paging.higherHalf_of_unset unset _

theorem mapRange_stepped (boot : BootRange ttbr0 ttbr1 bootTables range start) :
    (paging.tree true).Stepped pool memory memory' :=
  (mapRange_pages unset sound mapped boot).1

/-- A range of the higher half adds its pages to the tree of `root2`. -/
theorem mapRange_rebuilt {done : List Index → Prop}
    (boot : BootRange ttbr0 ttbr1 bootTables range start)
    (high : 2 ^ 48 ≤ range.virtualStart.toNat)
    (rebuilt : Rebuilt (paging.tree true) (bootTree ttbr0 ttbr1 true) bootTables rebuiltEntry done
      memory.tables) :
    Rebuilt (paging.tree true) (bootTree ttbr0 ttbr1 true) bootTables rebuiltEntry
      (fun path => done path ∨ rangePaths range path) memory'.tables := by
  rcases mapRange_pages unset sound mapped boot with ⟨_, keeps, frame, mappedPages⟩
  have inHigh := (boot.higherHalf high).2
  apply rebuilt.extend keeps
  · intro path outside
    exact frame path fun number below same => outside ⟨number, below, same⟩
  · rintro path ⟨number, below, rfl⟩
    rcases inHigh.page below with ⟨path, entry, page, -⟩
    have here := mappedPages number below
    have value : rangeEntry range.pageSize range.physicalStart range.flags number =
        rebuiltEntry path.length entry := rangeEntry_eq page
    have pathEq := inHigh.pagePath_eq (walkFormat_numbered true) page
    rw [pathEq]
    refine ⟨entry, page.genuine.leaf, ?_⟩
    rw [← value, ← pathEq]
    exact here

end Mapping

end Ranges

section Init

variable {response : Option PagingMode} {ttbr0 ttbr1 kernelVirtualOffset : Word64}
variable {bootTables : Word64 → Index → Word64} {mappings : List MemmapEntry}
variable {pool : InitialPool kernelVirtualOffset} {memory finished : TableMemory}
variable {paging : Paging} {ranges : List PageTableRangeData}

theorem getPage_cases {memory' : TableMemory} {table : Word64}
    (taken : getPage pool memory = .ok (memory', table)) :
    memory'.tables = memory.tables ∧
      memory'.initialPoolUsedCount.val = memory.initialPoolUsedCount.val + 1 ∧
      table = pool.page memory.initialPoolUsedCount := by
  rw [getPage] at taken
  split_ifs at taken
  cases taken
  exact ⟨rfl, rfl, rfl⟩

/-- The memory with the two empty roots. -/
theorem init_cases
    (built : init response ttbr0 ttbr1 bootTables mappings higherHalfStart kernelVirtualOffset pool
      memory = .ok (paging, finished)) :
    ∃ root1 root2 rootMemory,
      paging = { root1, root2, pageTableOffset := kernelVirtualOffset } ∧
      (∃ before : TableMemory, newTable pool before = .ok (rootMemory, root2) ∧
        before.tables root1 = (fun _ => 0#64) ∧
        ∃ number, number.val < before.initialPoolUsedCount.val ∧ pool.page number = root1) ∧
      pageTableToRanges (walkFormat higherHalfStart)
        (initCallback
          (mapRange { root1, root2, pageTableOffset := kernelVirtualOffset } pool) mappings)
        bootTables (· + higherHalfStart) (bootPaging ttbr0 ttbr1 higherHalfStart).roots
        rootMemory = .ok finished := by
  unfold init at built
  split_ifs at built with misaligned
  · cases built
  · cases response with
    | none => cases built
    | some mode =>
        cases mode with
        | other => cases built
        | fourLevel =>
            simp only [Fallible.bind_eq_ok_iff, Prod.exists] at built
            rcases built with
              ⟨memory1, root1, taken1, memory2, root2, taken2, last, walked, returned⟩
            cases returned
            rcases getPage_cases taken1 with ⟨same, used, page⟩
            rcases getPage_cases taken2 with ⟨same2, _, _⟩
            refine ⟨root1, root2, _, rfl, ⟨{ memory1 with
              tables := TableTree.fill memory1.tables root1 0#64 }, ?_, ?_, ?_⟩, walked⟩
            · rw [getPage] at taken2
              split_ifs at taken2 with room
              cases taken2
              simp only [newTable, getPage, dif_pos room, Fallible.ok_bind]
              rfl
            · funext index
              simp [TableTree.fill]
            · exact ⟨_, by simp [used], page.symm⟩

section Built

variable (built : init response ttbr0 ttbr1 bootTables mappings higherHalfStart kernelVirtualOffset
  pool memory = .ok (paging, finished))

include built

/-- The calls in the callback go into the tree of `root2`, so the table of `root1` stays empty. -/
theorem init_root1 : finished.tables paging.root1 = fun _ => 0#64 := by
  rcases init_cases built with
    ⟨root1, root2, rootMemory, rfl, ⟨before, made, empty, number, earlier, isRoot1⟩, walked⟩
  rcases pageTableToRanges_eq walked with ⟨ranges, reported, folded⟩
  have described := bootRanges_describe reported
  let paging : Paging := { root1, root2, pageTableOffset := kernelVirtualOffset }
  have soundRoot := (PageTree.sound_newTable (paging.tree true) made).1
  have stepped := mapRanges_induction
    (motive := fun _ memory => (paging.tree true).Stepped pool rootMemory memory)
    (fun _ => False) folded (PageTree.Stepped.refl soundRoot) (by
    intro range rangeMem _ done between after steppedBetween mapped
    rcases described range rangeMem with ⟨start, boot⟩
    exact steppedBetween.trans (mapRange_stepped rfl steppedBetween.sound mapped boot))
  rcases newTable_cases made with ⟨room, isRoot2, rfl⟩
  have notHanded : ¬HandedOut pool root2 finished root1 := by
    rintro ⟨first, position, firstPage, order, _, positionPage⟩
    have firstEq := pool.distinct (firstPage.trans isRoot2)
    have positionEq := pool.distinct (positionPage.trans isRoot1.symm)
    rw [firstEq, positionEq] at order
    omega
  calc finished.tables root1
      = TableTree.fill before.tables root2 0#64 root1 := stepped.outside root1 notHanded
    _ = fun _ => 0#64 := by
        funext index
        rw [TableTree.fill, empty]
        exact ite_self _

theorem init_rebuilt (reported : bootRanges ttbr0 ttbr1 higherHalfStart bootTables = .ok ranges)
    (high : ∀ range ∈ ranges, isMapped mappings range = true → 2 ^ 48 ≤ range.virtualStart.toNat) :
    (∀ index path entry, path.length ≤ 1 →
        (paging.tree true).entry finished.tables (index :: path) = some entry → Present entry →
          Table entry) ∧
      Rebuilt (paging.tree true) (bootTree ttbr0 ttbr1 true) bootTables rebuiltEntry
        (fun path => ∃ range ∈ ranges, isMapped mappings range = true ∧ rangePaths range path)
        finished.tables := by
  rcases init_cases built with ⟨root1, root2, rootMemory, rfl, ⟨before, made, _⟩, walked⟩
  rcases pageTableToRanges_eq walked with ⟨sameRanges, sameReported, folded⟩
  rw [bootRanges, sameReported] at reported
  cases reported
  have described := bootRanges_describe sameReported
  let paging : Paging := { root1, root2, pageTableOffset := kernelVirtualOffset }
  rcases PageTree.sound_newTable (paging.tree true) made with ⟨soundRoot, empty⟩
  have rebuiltRoot : Rebuilt (paging.tree true) (bootTree ttbr0 ttbr1 true) bootTables
      rebuiltEntry (fun _ => False) rootMemory.tables := by
    intro path entry
    rw [empty path]
    simp
  have last := mapRanges_induction
    (motive := fun done memory => (paging.tree true).Sound pool memory ∧
      Rebuilt (paging.tree true) (bootTree ttbr0 ttbr1 true) bootTables rebuiltEntry done
        memory.tables) (fun _ => False) folded ⟨soundRoot, rebuiltRoot⟩ (by
    rintro range rangeMem isMapped done between after ⟨sound, rebuilt⟩ mapped
    rcases described range rangeMem with ⟨start, boot⟩
    exact ⟨(mapRange_stepped rfl sound mapped boot).sound,
      mapRange_rebuilt rfl sound mapped boot (high range rangeMem isMapped) rebuilt⟩)
  simp only [false_or] at last
  refine ⟨?_, last.2⟩
  intro index path entry bound found present
  have link := last.1.directories (index :: path) entry (by rw [List.length_cons]; omega) found
    present
  exact not_not.mp (of_decide_eq_false link)

end Built

/-- The boot loader's entries above a page that the walk reports have their table bits. -/
theorem boot_table {half : Bool} {path : List Index} {entry address : Word64}
    (genuine : Genuine (walkFormat higherHalfStart) (bootTree ttbr0 ttbr1 half) bootTables path
      entry)
    (here : path = hugePath address ∨ path = smallPath address) :
    let idx := virtualToPageIndexes address
    (∀ above, (bootTree ttbr0 ttbr1 half).entry bootTables [idx.l1] = some above → Table above) ∧
      ∀ above, (bootTree ttbr0 ttbr1 half).entry bootTables [idx.l2, idx.l1] = some above →
        Table above := by
  intro idx
  rcases genuine.supported with ⟨front, i, j, path, _, supported1, supported2⟩
  rcases indexes_of_path here path with ⟨rfl, rfl⟩
  constructor
  · intro above found
    by_contra noTable
    have none := supported1 above found
    simp only [walkFormat, if_neg noTable] at none
    cases none
  · intro above found
    by_contra noTable
    have none := supported2 above found
    simp only [walkFormat, if_neg noTable] at none
    cases none

/-- Every page of 4 KiB in the boot loader's tables has its table bit. -/
def SmallPagesValid (ttbr0 ttbr1 : Word64) (bootTables : Word64 → Index → Word64) : Prop :=
  ∀ half path entry, path.length = 4 →
    (bootTree ttbr0 ttbr1 half).leaf bootTables path = some entry → Table entry

/--
After `init` all addresses of the mapped ranges translate to the physical addresses the boot
loader's tables give them exactly if no mapped range starts in the lower half.
-/
theorem init_translates_iff
    (built : init response ttbr0 ttbr1 bootTables mappings higherHalfStart kernelVirtualOffset pool
      memory = .ok (paging, finished))
    (reported : bootRanges ttbr0 ttbr1 higherHalfStart bootTables = .ok ranges)
    (valid : SmallPagesValid ttbr0 ttbr1 bootTables) :
    (∀ range ∈ ranges, isMapped mappings range = true → ∀ address, range.Covers address →
        ∃ before after,
          translate (bootPaging ttbr0 ttbr1 higherHalfStart) bootTables address = some before ∧
          translate paging finished.tables address = some after ∧
          after.physicalAddress = before.physicalAddress) ↔
      ∀ range ∈ ranges, isMapped mappings range = true → 2 ^ 48 ≤ range.virtualStart.toNat := by
  have described := bootRanges_describe reported
  constructor
  · intro translates range rangeMem mapped
    rcases described range rangeMem with ⟨start, boot⟩
    by_contra low
    rcases translates range rangeMem mapped range.virtualStart
      ⟨Nat.le_refl _, boot.virtualStart_le_virtualEnd⟩ with ⟨_, after, _, found, _⟩
    have vacant : ¬Present (finished.tables (paging.tree false).root
        (virtualToPageIndexes range.virtualStart).l1) := by
      change ¬Present (finished.tables paging.root1 _)
      rw [init_root1 built]
      change ¬Present 0#64
      decide
    rw [translate, if_pos (Nat.lt_of_not_le low), PageTree.translate] at found
    simp only [if_neg fun both => vacant (And.left both)] at found
    cases found
  · intro high range rangeMem mapped address covers
    rcases described range rangeMem with ⟨start, boot⟩
    have isHigh := high range rangeMem mapped
    have inHigh := (boot.higherHalf isHigh).2
    rcases init_rebuilt built reported high with ⟨tables, rebuilt⟩
    rcases (boot.covers_iff isHigh).mp covers with ⟨above, from_, below⟩
    rcases inHigh.rangePaths_pagePath (walkFormat_numbered true) from_ below with
      ⟨number, inside, pathEq⟩
    rcases inHigh.page inside with ⟨path, entry, page, -⟩
    have pageEq := inHigh.pagePath_eq (walkFormat_numbered true) page
    rw [pageEq] at pathEq
    have bootHere := page.genuine.leaf
    have rebuiltHere := (rebuilt path (rebuiltEntry path.length entry)).mpr
      ⟨⟨range, rangeMem, mapped, number, inside, pageEq.symm⟩, entry, bootHere, rfl⟩
    have here : path = hugePath address ∨ path = smallPath address := by
      rw [pagePath] at pathEq
      split_ifs at pathEq
      · exact Or.inl pathEq.symm
      · exact Or.inr pathEq.symm
    have bootTable := boot_table page.genuine here
    have walkBoot := PageTree.translate_eq reserved (bootTree ttbr0 ttbr1 true) bootTables address
      (fun above found _ => decide_eq_false (not_not.mpr (bootTable.1 above found)))
      (fun above found _ => decide_eq_false (not_not.mpr (bootTable.2 above found)))
    have walkRebuilt := PageTree.translate_eq reserved (paging.tree true) finished.tables address
      (fun above found present =>
        decide_eq_false (not_not.mpr (tables _ _ above (by decide) found present)))
      (fun above found present =>
        decide_eq_false (not_not.mpr (tables _ _ above (by simp) found present)))
    rw [translate_of_high above, translate_of_high above, walkBoot, walkRebuilt]
    rcases here with rfl | rfl
    · rw [bootHere, rebuiltHere]
      exact ⟨_, _, rfl, rfl, physicalAddress_rebuilt (Or.inr rfl) _ entry address⟩
    · have bootAbove : (bootTree ttbr0 ttbr1 true).leaf bootTables (hugePath address) = none :=
        PageTree.leaf_above rfl bootHere
      have rebuiltAbove : (paging.tree true).leaf finished.tables (hugePath address) = none :=
        PageTree.leaf_above rfl rebuiltHere
      have bootValid : reserved entry = false :=
        decide_eq_false (not_not.mpr (valid true _ entry rfl bootHere))
      have rebuiltValid : reserved (rebuiltEntry 4 entry) = false :=
        decide_eq_false (not_not.mpr (table_rebuilt entry))
      rw [bootAbove, rebuiltAbove, bootHere, rebuiltHere]
      change ∃ before after,
        ((some entry).filter fun entry => !reserved entry).map _ = some before ∧
          ((some (rebuiltEntry 4 entry)).filter fun entry => !reserved entry).map _ = some after ∧ _
      rw [Option.filter_some_pos (by rw [bootValid]; rfl),
        Option.filter_some_pos (by rw [rebuiltValid]; rfl)]
      exact ⟨_, _, rfl, rfl, physicalAddress_rebuilt (Or.inl rfl) _ entry address⟩

end Init

theorem smallPagesValid_of_all {ttbr0 ttbr1 : Word64} {bootTables : Word64 → Index → Word64}
    (all : ∀ table index, Present (bootTables table index) → Table (bootTables table index)) :
    SmallPagesValid ttbr0 ttbr1 bootTables := by
  intro half path entry four found
  rcases PageTree.leaf_eq_some_iff.mp found with ⟨foundEntry, isLeaf⟩
  cases path with
  | nil => cases four
  | cons index path =>
      rcases PageTree.table_of_entry foundEntry with ⟨table, _, rfl⟩
      exact all table index isLeaf.1

/-- A page at 0x3000 behind `ttbr0` and one at 0xFFFF000000003000 behind `ttbr1`. -/
def twoPagesTables : Word64 → Index → Word64 :=
  let tables := TableTree.store (fun _ _ => 0#64) 0xFFFF000000100000#64 (index 0) 0x101003#64
  let tables := TableTree.store tables 0xFFFF000000101000#64 (index 0) 0x102003#64
  let tables := TableTree.store tables 0xFFFF000000102000#64 (index 0) 0x103003#64
  let tables := TableTree.store tables 0xFFFF000000103000#64 (index 3) 0x5403#64
  let tables := TableTree.store tables 0xFFFF000000104000#64 (index 0) 0x105003#64
  let tables := TableTree.store tables 0xFFFF000000105000#64 (index 0) 0x106003#64
  let tables := TableTree.store tables 0xFFFF000000106000#64 (index 0) 0x107003#64
  TableTree.store tables 0xFFFF000000107000#64 (index 3) 0x7403#64

/-- Ranges of one page in each half. -/
def twoPagesRanges : List PageTableRangeData :=
  [⟨0x3000#64, 0x3FFF#64, 0x5000#64, 0x5FFF#64, 0x400#64, 1#64, pageSize⟩,
    ⟨0xFFFF000000003000#64, 0xFFFF000000003FFF#64, 0x7000#64, 0x7FFF#64, 0x400#64, 1#64, pageSize⟩]

theorem bootRanges_twoPages :
    bootRanges 0x100000#64 0x104000#64 higherHalfStart twoPagesTables = .ok twoPagesRanges := by
  decide +kernel

theorem smallPagesValid_twoPages : SmallPagesValid 0x100000#64 0x104000#64 twoPagesTables := by
  apply smallPagesValid_of_all
  intro table index
  simp only [twoPagesTables, TableTree.store]
  split_ifs <;> decide

/-- `init` on these tables, with a memory map of one page of the kernel. -/
def twoPagesInit (kernelPage : Word64) : Except Panic (Paging × TableMemory) :=
  init (some .fourLevel) 0x100000#64 0x104000#64 twoPagesTables
    [⟨kernelPage, 0x1000#64, .kernelAndModules⟩] higherHalfStart 0xFFFFFFFF7FE00000#64 kernelPool
    ⟨fun _ _ => 0#64, ⟨0, by decide⟩⟩

/-- With the high page in the memory map, it translates as before. -/
theorem init_translates_iff_highPage :
    ∃ paging finished, twoPagesInit 0x7000#64 = .ok (paging, finished) ∧
      ∃ after, translate paging finished.tables 0xFFFF000000003123#64 = some after ∧
        after.physicalAddress = 0x7123#64 := by
  rcases Fallible.exists_of_isOk (show (twoPagesInit 0x7000#64).isOk = true by decide +kernel) with
    ⟨⟨paging, finished⟩, built⟩
  have translates := (init_translates_iff built bootRanges_twoPages smallPagesValid_twoPages).mpr
    (by decide +kernel)
  rcases translates _ (List.mem_cons_of_mem _ (List.mem_cons_self ..)) (by decide +kernel)
    0xFFFF000000003123#64 (by decide +kernel) with ⟨before, after, original, found, address⟩
  have value : translate (bootPaging 0x100000#64 0x104000#64 higherHalfStart) twoPagesTables
      0xFFFF000000003123#64 = some ⟨0x7123#64, pageSize, 0x403#64⟩ := by decide +kernel
  rw [value] at original
  cases original
  exact ⟨paging, finished, built, after, found, address⟩

/-- With the low page in the memory map, `init` finishes and the page is lost. -/
theorem init_loses_lowPage :
    bootRanges 0x100000#64 0x104000#64 higherHalfStart twoPagesTables = .ok twoPagesRanges ∧
      SmallPagesValid 0x100000#64 0x104000#64 twoPagesTables ∧
      ∃ paging finished, twoPagesInit 0x5000#64 = .ok (paging, finished) ∧
        (∃ range ∈ twoPagesRanges,
          isMapped [⟨0x5000#64, 0x1000#64, .kernelAndModules⟩] range = true ∧
            range.Covers 0x3123#64) ∧
        translate (bootPaging 0x100000#64 0x104000#64 higherHalfStart) twoPagesTables 0x3123#64 =
          some ⟨0x5123#64, pageSize, 0x403#64⟩ ∧
        translate paging finished.tables 0x3123#64 = none := by
  refine ⟨bootRanges_twoPages, smallPagesValid_twoPages, ?_⟩
  have loses : ((twoPagesInit 0x5000#64).toOption.map fun (paging, finished) =>
      translate paging finished.tables 0x3123#64) = some none := by decide +kernel
  cases built : twoPagesInit 0x5000#64 with
  | error panic =>
      rw [built] at loses
      cases loses
  | ok result =>
      rw [built] at loses
      exact ⟨_, _, rfl, ⟨_, List.mem_cons_self .., by decide +kernel⟩, by decide +kernel,
        Option.some.inj loses⟩

end Dvnetos.PageTables.Aarch64
