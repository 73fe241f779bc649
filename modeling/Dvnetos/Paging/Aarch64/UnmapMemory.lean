import Dvnetos.Paging.Aarch64.Init

/-!
# Unmapping memory on aarch64

This file models `Paging::unmapMemory` and `Paging::clearPageTableEntry` of
`arch/aarch64/memory/paging.cpp` and proves that a call undoes a call of `mapMemory`
on the same range. The tables that `mapMemory` has linked stay, but lead to no page.
-/

namespace Dvnetos.PageTables.Aarch64

/-- `clearPageTableEntry`. -/
def clearPageTableEntry (memory : TableMemory) (table : Word64) (index : Index) : TableMemory :=
  { memory with tables := TableTree.store memory.tables table index 0#64 }

section UnmapMemory

variable (paging : Paging) (size : Word64)

/-- The body of the loop of `unmapMemory`. -/
def unmapPage (memory : TableMemory) (virtualAddress : Word64) : Except Panic TableMemory := do
  let idx := virtualToPageIndexes virtualAddress
  let root := paging.root (paging.higherHalf virtualAddress)
  let behind entry := (entry &&& ~~~pageFlagsMask) + paging.pageTableOffset
  if ¬Present (memory.tables root idx.l1) then return memory
  let pdpt := behind (memory.tables root idx.l1)
  if ¬Present (memory.tables pdpt idx.l2) then return memory
  let pd := behind (memory.tables pdpt idx.l2)
  if size = hugePageSize then
    if virtualAddress % size ≠ 0#64 then
      throw "huge page must be page aligned: %p 0x%x"
    if Table (memory.tables pd idx.l3) then
      throw "huge page must not have a page table: %p"
    return clearPageTableEntry memory pd idx.l3
  else if ¬Present (memory.tables pd idx.l3) then return memory
  else if ¬Table (memory.tables pd idx.l3) then return memory
  else
    let pt := behind (memory.tables pd idx.l3)
    return clearPageTableEntry memory pt idx.l4

/-- The loop of `unmapMemory`. -/
def unmapPages : ℕ → Word64 → TableMemory → Except Panic TableMemory
  | 0, _, memory => .ok memory
  | count + 1, virtualAddress, memory => do
      let memory ← unmapPage paging size memory virtualAddress
      unmapPages count (virtualAddress + size) memory

end UnmapMemory

/-- `unmapMemory(virtualAddress, numPages, size)`. -/
def unmapMemory (paging : Paging) (memory : TableMemory) (virtualAddress numPages size : Word64) :
    Except Panic TableMemory := do
  if virtualAddress % pageSize ≠ 0#64 then
    throw "virtual address must be page aligned"
  unmapPages paging size numPages.toNat virtualAddress memory

section Removing

variable {paging : Paging} {pool : InitialPool paging.pageTableOffset} {size : Word64}

/-- The path maps no page afterwards, and every other path what it mapped before. -/
structure Removed (paging : Paging) (pool : InitialPool paging.pageTableOffset)
    (before after : TableMemory) (path : List Index) : Prop where
  stepped : (paging.tree true).Stepped pool before after
  leaves : (paging.tree true).leaf after.tables =
    Function.update ((paging.tree true).leaf before.tables) path none

theorem Removed.of_none {memory : TableMemory} (sound : (paging.tree true).Sound pool memory)
    {path : List Index} (vacant : (paging.tree true).leaf memory.tables path = none) :
    Removed paging pool memory memory path :=
  ⟨PageTree.Stepped.refl sound, (Function.update_eq_self_iff.mpr vacant.symm).symm⟩

/-- The entry of a page leads to no table, and no entry does either. -/
theorem child_of_clear {path : List Index} {entry offset : Word64} (deep : 2 ≤ path.length)
    (page : path.length = 2 → ¬Table entry) (shallow : path.length < 3) :
    child format offset path.length 0#64 = child format offset path.length entry := by
  have two : path.length = 2 := by omega
  rw [child_blank, two]
  exact (child_of_block (decide_eq_true (page two))).symm

theorem Removed.of_clear {memory : TableMemory} (sound : (paging.tree true).Sound pool memory)
    {path : List Index} {table : Word64} {index : Index} (deep : 2 ≤ path.length)
    (bound : path.length ≤ 3)
    (reached : (paging.tree true).table memory.tables path = some table)
    (page : path.length = 2 → ¬Table (memory.tables table index)) :
    Removed paging pool memory (clearPageTableEntry memory table index) (index :: path) := by
  have noLeaf : ¬IsLeaf (paging.tree true).format (path.length + 1) 0#64 := by
    rintro ⟨present, -⟩
    exact absurd present (by decide)
  rcases sound.storeEntry deep bound reached (child_of_clear deep page) with ⟨stepped, leaves⟩
  refine ⟨stepped, ?_⟩
  rwa [if_neg noLeaf] at leaves

/-- No page of either size lies behind a missing table of level 3. -/
theorem leaf_pagePath_of_no_pd {half : Bool} {tables : Word64 → Index → Word64}
    {virtualAddress : Word64}
    (closed : (paging.tree half).table tables [(virtualToPageIndexes virtualAddress).l2,
      (virtualToPageIndexes virtualAddress).l1] = none) :
    (paging.tree half).leaf tables (pagePath size virtualAddress) = none := by
  rw [pagePath]
  split_ifs
  · exact PageTree.leaf_of_no_table closed _
  · exact PageTree.leaf_of_no_table (PageTree.table_of_no_table closed _) _

theorem table_behind {half : Bool} {tables : Word64 → Index → Word64} {path : List Index}
    {table : Word64} {index : Index}
    (reached : (paging.tree half).table tables path = some table)
    (bound : path.length < 3) (present : Present (tables table index))
    (link : path.length = 2 → Table (tables table index)) :
    (paging.tree half).table tables (index :: path) =
      some ((tables table index &&& ~~~pageFlagsMask) + paging.pageTableOffset) :=
  PageTree.table_below reached index bound present fun two =>
    decide_eq_false (not_not.mpr (link two))

theorem leaf_of_no_link {half : Bool} {tables : Word64 → Index → Word64} {l2 l1 l3 l4 : Index}
    {pd : Word64} (reached : (paging.tree half).table tables [l2, l1] = some pd)
    (noLink : ¬(Present (tables pd l3) ∧ Table (tables pd l3))) :
    (paging.tree half).leaf tables [l4, l3, l2, l1] = none := by
  apply PageTree.leaf_of_no_table
  rw [PageTree.table_cons, PageTree.entry_of_table reached, Option.bind_some, child, if_neg]
  rintro ⟨-, present, link⟩
  exact noLink ⟨present, not_not.mp (of_decide_eq_false (link rfl))⟩

/-- One iteration finds no page, or clears the entry of one in the tree of its half. -/
inductive UnmapOutcome (paging : Paging) (size virtualAddress : Word64) (half : Bool)
    (memory : TableMemory) : TableMemory → Prop
  | absent (vacant : (paging.tree half).leaf memory.tables (pagePath size virtualAddress) = none) :
      UnmapOutcome paging size virtualAddress half memory memory
  | cleared {path : List Index} {table : Word64} {index : Index} (deep : 2 ≤ path.length)
      (bound : path.length ≤ 3)
      (reached : (paging.tree half).table memory.tables path = some table)
      (page : path.length = 2 → ¬Table (memory.tables table index))
      (isPath : pagePath size virtualAddress = index :: path) :
      UnmapOutcome paging size virtualAddress half memory (clearPageTableEntry memory table index)

theorem unmapPage_outcome {half : Bool} {memory memory' : TableMemory} {virtualAddress : Word64}
    (inHalf : paging.higherHalf virtualAddress = half)
    (unmapped : unmapPage paging size memory virtualAddress = .ok memory') :
    UnmapOutcome paging size virtualAddress half memory memory' := by
  simp only [unmapPage, inHalf] at unmapped
  have rootTable : (paging.tree half).table memory.tables [] = some (paging.root half) := rfl
  generalize indexes : virtualToPageIndexes virtualAddress = idx at unmapped
  have path : hugePath virtualAddress = [idx.l3, idx.l2, idx.l1] := by
    rw [hugePath, indexes]
  by_cases present1 : Present (memory.tables (paging.root half) idx.l1)
  · have pdptTable := table_behind rootTable (by decide) present1 (by intro two; cases two)
    simp only [if_neg (not_not.mpr present1)] at unmapped
    generalize (memory.tables (paging.root half) idx.l1 &&& ~~~pageFlagsMask) +
      paging.pageTableOffset = pdpt at pdptTable unmapped
    by_cases present2 : Present (memory.tables pdpt idx.l2)
    · have pdTable := table_behind pdptTable (by simp) present2 (by intro two; cases two)
      simp only [if_neg (not_not.mpr present2)] at unmapped
      generalize (memory.tables pdpt idx.l2 &&& ~~~pageFlagsMask) +
        paging.pageTableOffset = pd at pdTable unmapped
      by_cases isHuge : size = hugePageSize
      · have isPath : pagePath size virtualAddress = [idx.l3, idx.l2, idx.l1] := by
          rw [pagePath, if_pos isHuge, path]
        by_cases aligned : virtualAddress % size = 0#64
        · by_cases link : Table (memory.tables pd idx.l3)
          · simp only [if_pos isHuge, if_neg (not_not.mpr aligned), if_pos link] at unmapped
            cases unmapped
          · simp only [if_pos isHuge, if_neg (not_not.mpr aligned), if_neg link] at unmapped
            cases unmapped
            exact .cleared (by simp) (by simp) pdTable (fun _ => link) isPath
        · simp only [if_pos isHuge, if_pos aligned] at unmapped
          cases unmapped
      · simp only [if_neg isHuge] at unmapped
        have isPath : pagePath size virtualAddress = [idx.l4, idx.l3, idx.l2, idx.l1] := by
          rw [pagePath, if_neg isHuge, smallPath_eq_cons, path, indexes]
        by_cases leads : Present (memory.tables pd idx.l3) ∧ Table (memory.tables pd idx.l3)
        · have ptTable := table_behind pdTable (by simp) leads.1 fun _ => leads.2
          simp only [if_neg (not_not.mpr leads.1), if_neg (not_not.mpr leads.2)] at unmapped
          cases unmapped
          exact .cleared (by simp) (by simp) ptTable (by intro two; cases two) isPath
        · have same : memory' = memory := by
            by_cases present3 : Present (memory.tables pd idx.l3)
            · have block : ¬Table (memory.tables pd idx.l3) := fun link => leads ⟨present3, link⟩
              simp only [if_neg (not_not.mpr present3), if_pos block] at unmapped
              exact (Except.ok.inj unmapped).symm
            · simp only [if_pos present3] at unmapped
              exact (Except.ok.inj unmapped).symm
          subst same
          apply UnmapOutcome.absent
          rw [isPath]
          exact leaf_of_no_link pdTable leads
    · simp only [if_pos present2] at unmapped
      cases unmapped
      have closed := PageTree.no_table_below pdptTable present2
      rw [← indexes] at closed
      exact .absent (leaf_pagePath_of_no_pd closed)
  · simp only [if_pos present1] at unmapped
    cases unmapped
    have closed := PageTree.table_of_no_table (PageTree.no_table_below rootTable present1) idx.l2
    rw [← indexes] at closed
    exact .absent (leaf_pagePath_of_no_pd closed)

/-- One iteration removes one page, if it is mapped. -/
theorem unmapPage_removed {memory memory' : TableMemory} {virtualAddress : Word64}
    (higher : paging.higherHalf virtualAddress = true)
    (sound : (paging.tree true).Sound pool memory)
    (unmapped : unmapPage paging size memory virtualAddress = .ok memory') :
    Removed paging pool memory memory' (pagePath size virtualAddress) := by
  rcases unmapPage_outcome higher unmapped with vacant | ⟨deep, bound, reached, page, isPath⟩
  · exact Removed.of_none sound vacant
  · rw [isPath]
    exact Removed.of_clear sound deep bound reached page

/-- A whole loop: the pages of the range are not mapped, and all others are as before. -/
theorem unmapPages_removed {count : ℕ} {memory memory' : TableMemory} {virtualAddress : Word64}
    (sizes : size = pageSize ∨ size = hugePageSize)
    (higher : ∀ number < count,
      paging.higherHalf (pageAddress size virtualAddress number) = true)
    (sound : (paging.tree true).Sound pool memory)
    (unmapped : unmapPages paging size count virtualAddress memory = .ok memory') :
    (paging.tree true).Stepped pool memory memory' ∧
      (∀ path, (∀ number < count, path ≠ pagePath size (pageAddress size virtualAddress number)) →
        (paging.tree true).leaf memory'.tables path =
          (paging.tree true).leaf memory.tables path) ∧
      (∀ path, (paging.tree true).leaf memory.tables path = none →
        (paging.tree true).leaf memory'.tables path = none) ∧
      ∀ number < count, (paging.tree true).leaf memory'.tables
        (pagePath size (pageAddress size virtualAddress number)) = none := by
  induction count generalizing memory virtualAddress with
  | zero =>
      cases unmapped
      refine ⟨PageTree.Stepped.refl sound, fun _ _ => rfl, fun _ vacant => vacant, ?_⟩
      intro number below
      exact absurd below (Nat.not_lt_zero number)
  | succ count ih =>
      rw [unmapPages, Fallible.bind_eq_ok_iff] at unmapped
      rcases unmapped with ⟨between, first, rest⟩
      have higherFirst := higher 0 (Nat.succ_pos count)
      rw [pageAddress_zero] at higherFirst
      rcases unmapPage_removed higherFirst sound first with ⟨stepped, leaves⟩
      have step : virtualAddress + size = virtualAddress + stepSize size := by
        rw [stepSize_eq sizes]
      have higherRest : ∀ number < count,
          paging.higherHalf (pageAddress size (virtualAddress + size) number) = true := by
        intro number below
        have later := higher (number + 1) (Nat.succ_lt_succ below)
        rwa [pageAddress_succ, ← step] at later
      rcases ih higherRest stepped.sound rest with ⟨steppedRest, frame, vacant, removed⟩
      refine ⟨stepped.trans steppedRest, ?_, ?_, ?_⟩
      · intro path outside
        have notFirst := outside 0 (Nat.succ_pos count)
        rw [pageAddress_zero] at notFirst
        rw [frame, leaves, Function.update_of_ne notFirst]
        intro number below
        have other := outside (number + 1) (Nat.succ_lt_succ below)
        rwa [pageAddress_succ, ← step] at other
      · intro path absent
        apply vacant
        rw [leaves]
        by_cases same : path = pagePath size virtualAddress
        · rw [same, Function.update_self]
        · rw [Function.update_of_ne same, absent]
      · intro number below
        cases number with
        | zero =>
            apply vacant
            rw [pageAddress_zero, leaves, Function.update_self]
        | succ number =>
            rw [pageAddress_succ, ← step]
            exact removed number (Nat.lt_of_succ_lt_succ below)

theorem unmapMemory_cases {memory memory' : TableMemory} {virtualAddress numPages : Word64}
    (unmapped : unmapMemory paging memory virtualAddress numPages size = .ok memory') :
    unmapPages paging size numPages.toNat virtualAddress memory = .ok memory' := by
  by_cases aligned : virtualAddress % pageSize = 0#64
  · simpa only [unmapMemory, if_neg (not_not.mpr aligned)] using unmapped
  · simp only [unmapMemory, if_pos aligned] at unmapped
    cases unmapped

end Removing

/-- A range of the higher half that does not wrap around. -/
structure HighRange (virtualAddress numPages size : Word64) : Prop where
  sizes : size = pageSize ∨ size = hugePageSize
  high : higherHalfStart ≤ virtualAddress
  noWrap : virtualAddress.toNat + numPages.toNat * size.toNat ≤ 2 ^ 64

section Reaching

variable (paging : Paging) (pool : InitialPool paging.pageTableOffset)

/-- The tables after `init` has taken both roots from the pool and after calls behind it. -/
inductive Reachable : TableMemory → Prop where
  | roots {memory memory1 memory2 : TableMemory}
      (first : newTable pool memory = .ok (memory1, paging.root1))
      (second : newTable pool memory1 = .ok (memory2, paging.root2)) : Reachable memory2
  | map {memory memory' : TableMemory} {request : Request} (reachable : Reachable memory)
      (range : HighRange request.virtualAddress request.numPages request.size)
      (noTable : request.size = hugePageSize → request.flags &&& pageTable = 0#64)
      (mapped : mapMemory paging pool memory request = .ok memory') : Reachable memory'
  | unmap {memory memory' : TableMemory} {virtualAddress numPages size : Word64}
      (reachable : Reachable memory) (range : HighRange virtualAddress numPages size)
      (unmapped : unmapMemory paging memory virtualAddress numPages size = .ok memory') :
      Reachable memory'

/-- The tree of `root2` is sound, and `root1` is an empty table outside of it. -/
structure Intact (memory : TableMemory) : Prop where
  sound : (paging.tree true).Sound pool memory
  apart : ∀ later, ¬HandedOut pool paging.root2 later paging.root1
  empty : memory.tables paging.root1 = fun _ => 0#64

end Reaching

section Calls

variable {paging : Paging} {pool : InitialPool paging.pageTableOffset}
variable {memory memory' : TableMemory}

theorem Intact.stepped (intact : Intact paging pool memory)
    (stepped : (paging.tree true).Stepped pool memory memory') : Intact paging pool memory' :=
  { sound := stepped.sound
    apart := intact.apart
    empty := (stepped.outside paging.root1 (intact.apart memory')).trans intact.empty }

theorem Intact.roots {memory1 memory2 : TableMemory}
    (first : newTable pool memory = .ok (memory1, paging.root1))
    (second : newTable pool memory1 = .ok (memory2, paging.root2)) :
    Intact paging pool memory2 := by
  have sound := (PageTree.sound_newTable (paging.tree true) second).1
  rcases newTable_cases first with ⟨room1, isRoot1, rfl⟩
  rcases newTable_cases second with ⟨room2, isRoot2, rfl⟩
  refine ⟨sound, ?_, ?_⟩
  · rintro later ⟨start, number, startPage, order, -, numberPage⟩
    have startEq := pool.distinct (startPage.trans isRoot2)
    have numberEq := pool.distinct (numberPage.trans isRoot1)
    rw [startEq, numberEq] at order
    simp at order
  · funext index
    simp [TableTree.fill]

theorem HighRange.mul_lt {virtualAddress numPages size : Word64} {number : ℕ}
    (range : HighRange virtualAddress numPages size) (below : number < numPages.toNat) :
    number * size.toNat < numPages.toNat * size.toNat := by
  apply Nat.mul_lt_mul_of_pos_right below
  rcases range.sizes with rfl | rfl <;> decide

theorem HighRange.toNat_pageAddress {virtualAddress numPages size : Word64} {number : ℕ}
    (range : HighRange virtualAddress numPages size) (below : number < numPages.toNat) :
    (pageAddress size virtualAddress number).toNat =
      virtualAddress.toNat + number * size.toNat := by
  apply pageAddress_toNat range.sizes
  exact (Nat.add_lt_add_left (range.mul_lt below) _).trans_le range.noWrap

theorem HighRange.le_pageAddress {virtualAddress numPages size : Word64} {number : ℕ}
    (range : HighRange virtualAddress numPages size) (below : number < numPages.toNat) :
    higherHalfStart ≤ pageAddress size virtualAddress number := by
  have high : higherHalfStart.toNat ≤ virtualAddress.toNat := range.high
  apply BitVec.le_def.mpr
  rw [range.toNat_pageAddress below]
  omega

theorem HighRange.covers {request : Request} {number : ℕ}
    (range : HighRange request.virtualAddress request.numPages request.size)
    (below : number < request.numPages.toNat) :
    request.Covers (pageAddress request.size request.virtualAddress number) := by
  simp only [Request.Covers, range.toNat_pageAddress below]
  exact ⟨Nat.le_add_right _ _, Nat.add_lt_add_left (range.mul_lt below) _⟩

theorem HighRange.higherHalf {virtualAddress numPages size : Word64}
    (range : HighRange virtualAddress numPages size)
    (offset : paging.higherHalfOffset ≤ higherHalfStart) (number : ℕ)
    (below : number < numPages.toNat) :
    paging.higherHalf (pageAddress size virtualAddress number) = true :=
  decide_eq_true (BitVec.le_trans offset (range.le_pageAddress below))

/-- The walk of the processor in a sound tree. -/
theorem translate_of_sound {half : Bool} (sound : (paging.tree half).Sound pool memory)
    (virtualAddress : Word64) :
    (paging.tree half).translate reserved memory.tables virtualAddress =
      match (paging.tree half).leaf memory.tables (hugePath virtualAddress) with
      | some entry => some (leafTranslation hugePageSize entry virtualAddress)
      | none =>
          (((paging.tree half).leaf memory.tables (smallPath virtualAddress)).filter
            fun entry => !reserved entry).map
              fun entry => leafTranslation pageSize entry virtualAddress :=
  PageTree.translate_eq reserved (paging.tree half) memory.tables virtualAddress
    (fun entry found present => sound.directories _ entry (by simp) found present)
    (fun entry found present => sound.directories _ entry (by simp) found present)

theorem Intact.translate_low (intact : Intact paging pool memory) (virtualAddress : Word64) :
    (paging.tree false).translate reserved memory.tables virtualAddress = none := by
  have absent : ¬Present (memory.tables (paging.tree false).root
      (virtualToPageIndexes virtualAddress).l1) := by
    change ¬Present (memory.tables paging.root1 _)
    rw [intact.empty]
    change ¬Present 0#64
    decide
  simp only [PageTree.translate, if_neg fun both => absent (And.left both)]

/-- Trees of `root2` with the same pages translate every address alike. -/
theorem Intact.translate_eq (before : Intact paging pool memory)
    (after : Intact paging pool memory')
    (leaves : (paging.tree true).leaf memory'.tables = (paging.tree true).leaf memory.tables)
    (virtualAddress : Word64) :
    translate paging memory'.tables virtualAddress =
      translate paging memory.tables virtualAddress := by
  simp only [translate, before.translate_low, after.translate_low, translate_of_sound before.sound,
    translate_of_sound after.sound, leaves]

section Offset

variable (offset : paging.higherHalfOffset ≤ higherHalfStart)

include offset

theorem Reachable.intact (reachable : Reachable paging pool memory) :
    Intact paging pool memory := by
  induction reachable with
  | roots first second => exact Intact.roots first second
  | map _ range noTable mapped ih =>
    rcases mapMemory_cases mapped with ⟨state, pages, rfl⟩
    exact ih.stepped
      (mapPages_mapped range.sizes noTable (range.higherHalf offset) ih.sound pages).1
  | unmap _ range unmapped ih =>
    exact ih.stepped (unmapPages_removed range.sizes (range.higherHalf offset) ih.sound
      (unmapMemory_cases unmapped)).1

/-- A page that does not translate and can be mapped has no entry. -/
theorem leaf_of_untranslated {request : Request} (intact : Intact paging pool memory)
    (range : HighRange request.virtualAddress request.numPages request.size)
    (noTable : request.size = hugePageSize → request.flags &&& pageTable = 0#64)
    (mapped : mapMemory paging pool memory request = .ok memory') {number : ℕ}
    (below : number < request.numPages.toNat)
    (untranslated : translate paging memory.tables
      (pageAddress request.size request.virtualAddress number) = none) :
    (paging.tree true).leaf memory.tables
      (pagePath request.size (pageAddress request.size request.virtualAddress number)) = none := by
  rcases mapMemory_cases mapped with ⟨state, pages, rfl⟩
  rcases mapPages_mapped range.sizes noTable (range.higherHalf offset) intact.sound pages with
    ⟨-, keeps, -, entries⟩
  have entry := entries number below
  have above := range.le_pageAddress below
  rw [rangeEntry] at entry
  generalize pageAddress request.size request.virtualAddress number = address
    at untranslated entry above ⊢
  rw [translate_of_high above, translate_of_sound intact.sound] at untranslated
  by_contra present
  rcases Option.ne_none_iff_exists'.mp present with ⟨old, found⟩
  have same := keeps _ old found
  rw [entry] at same
  rw [← Option.some.inj same] at found
  rw [pagePath] at found
  split_ifs at found with isHuge
  · simp [found] at untranslated
  · have level : pageLevel request.size = 4 := if_neg isHuge
    have hugeVacant : (paging.tree true).leaf memory.tables (hugePath address) = none :=
      PageTree.leaf_above rfl found
    have valid : ∀ physicalAddress flags, reserved (newValue 4 physicalAddress flags) = false :=
      fun _ _ => decide_eq_false (not_not.mpr (table_newValue_four _ _))
    simp [hugeVacant, found, level, valid] at untranslated

end Offset

end Calls

/-- `unmapMemory` undoes `mapMemory` on a range none of whose pages has been translated. -/
theorem unmapMemory_undoes {paging : Paging} {pool : InitialPool paging.pageTableOffset}
    {memory mapped unmapped : TableMemory} {request : Request}
    (offset : paging.higherHalfOffset ≤ higherHalfStart)
    (reachable : Reachable paging pool memory)
    (range : HighRange request.virtualAddress request.numPages request.size)
    (noTable : request.size = hugePageSize → request.flags &&& pageTable = 0#64)
    (untranslated : ∀ address, request.Covers address →
      translate paging memory.tables address = none)
    (maps : mapMemory paging pool memory request = .ok mapped)
    (unmaps : unmapMemory paging mapped request.virtualAddress request.numPages request.size =
      .ok unmapped) (virtualAddress : Word64) :
    translate paging unmapped.tables virtualAddress =
      translate paging memory.tables virtualAddress := by
  have intact := reachable.intact offset
  have vacant : ∀ number < request.numPages.toNat, (paging.tree true).leaf memory.tables
      (pagePath request.size (pageAddress request.size request.virtualAddress number)) = none := by
    intro number below
    apply leaf_of_untranslated offset intact range noTable maps below
    exact untranslated _ (range.covers below)
  have higher := range.higherHalf offset
  rcases mapMemory_cases maps with ⟨state, pages, rfl⟩
  rcases mapPages_mapped range.sizes noTable higher intact.sound pages with
    ⟨steppedMap, -, frameMap, -⟩
  rcases unmapPages_removed range.sizes higher steppedMap.sound (unmapMemory_cases unmaps) with
    ⟨steppedUnmap, frameUnmap, -, removed⟩
  apply intact.translate_eq (intact.stepped (steppedMap.trans steppedUnmap))
  funext path
  by_cases inRange : ∃ number < request.numPages.toNat,
      path = pagePath request.size (pageAddress request.size request.virtualAddress number)
  · rcases inRange with ⟨number, below, rfl⟩
    rw [removed number below, vacant number below]
  · have outside : ∀ number < request.numPages.toNat,
        path ≠ pagePath request.size (pageAddress request.size request.virtualAddress number) :=
      fun number below same => inRange ⟨number, below, same⟩
    rw [frameUnmap path outside, frameMap path outside]

/-- Nothing is translated before the first call of `mapMemory`. -/
theorem translate_roots {paging : Paging} {pool : InitialPool paging.pageTableOffset}
    {memory memory1 memory2 : TableMemory}
    (first : newTable pool memory = .ok (memory1, paging.root1))
    (second : newTable pool memory1 = .ok (memory2, paging.root2)) (virtualAddress : Word64) :
    translate paging memory2.tables virtualAddress = none := by
  have intact := Intact.roots first second
  have vacant := (PageTree.sound_newTable (paging.tree true) second).2
  rw [translate, intact.translate_low, translate_of_sound intact.sound, vacant, vacant]
  simp

/-- A `Paging` whose roots are the first pages of the pool. -/
def twoRoots : Paging :=
  { root1 := 0xFFFFFFFF80000000#64, root2 := 0xFFFFFFFF80001000#64
    pageTableOffset := 0xFFFFFFFF7FE00000#64 }

/-- Two pages of 4 KiB in different tables of level 4. -/
def twoPages : Request :=
  { physicalAddress := 0x5000#64, virtualAddress := 0xFFFF0000001FF000#64, size := pageSize
    numPages := 2#64, flags := 0x400#64 }

/-- The tables after `init` has taken both roots. -/
def twoTables : TableMemory :=
  { tables := TableTree.fill (TableTree.fill (fun _ _ => 0#64) twoRoots.root1 0#64)
      twoRoots.root2 0#64
    initialPoolUsedCount := ⟨2, by decide⟩ }

/-- The call of `mapMemory` for both pages, on empty tables. -/
def mapTwoPages : Except Panic TableMemory := mapMemory twoRoots kernelPool twoTables twoPages

theorem unmapMemory_undoes_twoPages :
    ∃ mapped unmapped, mapTwoPages = .ok mapped ∧
      unmapMemory twoRoots mapped twoPages.virtualAddress twoPages.numPages twoPages.size =
        .ok unmapped ∧
      translate twoRoots mapped.tables 0xFFFF000000200123#64 =
        some ⟨0x6123#64, pageSize, 0x403#64⟩ ∧
      translate twoRoots unmapped.tables 0xFFFF000000200123#64 = none := by
  have first : newTable kernelPool ⟨fun _ _ => 0#64, ⟨0, by decide⟩⟩ =
      .ok (⟨TableTree.fill (fun _ _ => 0#64) twoRoots.root1 0#64, ⟨1, by decide⟩⟩,
        twoRoots.root1) := rfl
  have second : newTable kernelPool
      ⟨TableTree.fill (fun _ _ => 0#64) twoRoots.root1 0#64, ⟨1, by decide⟩⟩ =
        .ok (twoTables, twoRoots.root2) := rfl
  have translates : (mapTwoPages.toOption.map fun mapped =>
      translate twoRoots mapped.tables 0xFFFF000000200123#64) =
        some (some ⟨0x6123#64, pageSize, 0x403#64⟩) := by decide +kernel
  rcases Fallible.exists_of_isOk (show (mapTwoPages >>= fun mapped => unmapMemory twoRoots mapped
    twoPages.virtualAddress twoPages.numPages twoPages.size).isOk = true by decide +kernel) with
    ⟨unmapped, both⟩
  rcases Fallible.bind_eq_ok_iff.mp both with ⟨mapped, maps, unmaps⟩
  rw [maps] at translates
  refine ⟨mapped, unmapped, maps, unmaps, Option.some.inj translates, ?_⟩
  have undone := unmapMemory_undoes (by decide) (.roots first second)
    (⟨Or.inl rfl, by decide, by decide⟩) (fun isHuge => absurd isHuge (by decide))
    (fun address _ => translate_roots first second address) maps unmaps 0xFFFF000000200123#64
  exact undone.trans (translate_roots first second _)

end Dvnetos.PageTables.Aarch64
