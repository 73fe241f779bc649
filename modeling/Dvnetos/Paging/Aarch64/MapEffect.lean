import Dvnetos.Paging.Aarch64.BothHalves

/-!
# What a call of mapMemory does

A call on a range of the higher half that returns has mapped the whole range and has
left every other address as it was. It does not return if a page of the range has been
translated in another way, so what has been translated stays as it is.
-/

namespace Dvnetos.PageTables.Aarch64

/-- What the address at an offset into the range is to translate to. -/
def wanted (request : Request) (offset : ℕ) : Translation where
  physicalAddress := BitVec.ofNat 64 ((request.physicalAddress.toNat + offset) % 2 ^ 52)
  size := request.size
  flags := pagePresent ||| request.flags |||
    if request.size = hugePageSize then 0#64 else pageTable

section Entries

variable {size physical flags : Word64}

theorem table_rangeEntry (notHuge : size ≠ hugePageSize) (number : ℕ) :
    Table (rangeEntry size physical flags number) := by
  rw [rangeEntry, pageLevel, if_neg notHuge]
  exact table_newValue_four _ _

theorem leafTranslation_rangeEntry (sizes : size = pageSize ∨ size = hugePageSize)
    (within : flags &&& ~~~pageFlagsMask = 0#64) (aligned : physical.toNat % size.toNat = 0)
    (number : ℕ) (virtualAddress : Word64) :
    leafTranslation size (rangeEntry size physical flags number) virtualAddress =
      { physicalAddress := BitVec.ofNat 64
          ((physical.toNat + number * size.toNat) % 2 ^ 52 + virtualAddress.toNat % size.toNat)
        size
        flags := pagePresent ||| flags ||| if size = hugePageSize then 0#64 else pageTable } := by
  rcases pageAddress_mod sizes aligned number with ⟨pageAligned, pageMod⟩
  have tableBit : (if pageLevel size = 4 then pageTable else 0#64) =
      if size = hugePageSize then 0#64 else pageTable := by
    rw [pageLevel]
    split_ifs <;> simp_all
  have clear : (pagePresent ||| flags ||| if size = hugePageSize then 0#64 else pageTable) &&&
      pageAddrMask = 0#64 := by
    have flagsClear : flags &&& pageAddrMask = 0#64 :=
      Bits.and_eq_zero_of_within within (by decide)
    rw [BitVec.and_or_distrib_right, BitVec.and_or_distrib_right, flagsClear]
    split_ifs <;> decide
  rw [rangeEntry, newValue, tableBit, BitVec.or_assoc, BitVec.or_assoc,
    ← BitVec.or_assoc pagePresent, leafTranslation_entry sizes pageAligned clear, pageMod]

end Entries

theorem mapMemory_aligned {paging : Paging} {pool : InitialPool paging.pageTableOffset}
    {memory memory' : TableMemory} {request : Request}
    (mapped : mapMemory paging pool memory request = .ok memory') :
    request.physicalAddress.toNat % request.size.toNat = 0 ∧
      request.virtualAddress.toNat % request.size.toNat = 0 := by
  by_cases physical : request.physicalAddress % request.size = 0#64
  · by_cases virtual : request.virtualAddress % request.size = 0#64
    · constructor
      · simpa using congrArg BitVec.toNat physical
      · simpa using congrArg BitVec.toNat virtual
    · simp only [mapMemory, if_neg (not_not.mpr physical), if_pos virtual] at mapped
      cases mapped
  · simp only [mapMemory, if_pos physical] at mapped
    cases mapped

theorem page_lt {numPages size : Word64} {offset : ℕ}
    (below : offset < numPages.toNat * size.toNat) : offset / size.toNat < numPages.toNat := by
  apply Nat.div_lt_of_lt_mul
  rwa [Nat.mul_comm]

namespace HighRange

variable {virtualAddress numPages size address : Word64} {offset : ℕ}

theorem toNat_add_offset (range : HighRange virtualAddress numPages size)
    (below : offset < numPages.toNat * size.toNat) :
    (virtualAddress + BitVec.ofNat 64 offset).toNat = virtualAddress.toNat + offset := by
  have noWrap := range.noWrap
  rw [BitVec.toNat_add, BitVec.toNat_ofNat, Nat.add_mod_mod, Nat.mod_eq_of_lt]
  omega

theorem le_add_offset (range : HighRange virtualAddress numPages size)
    (below : offset < numPages.toNat * size.toNat) :
    higherHalfStart ≤ virtualAddress + BitVec.ofNat 64 offset := by
  have high : higherHalfStart.toNat ≤ virtualAddress.toNat := range.high
  apply BitVec.le_def.mpr
  rw [range.toNat_add_offset below]
  omega

/-- An address of the range lies on the page with the number of its offset. -/
theorem pagePath_add_offset (range : HighRange virtualAddress numPages size)
    (aligned : virtualAddress.toNat % size.toNat = 0)
    (below : offset < numPages.toNat * size.toNat) :
    pagePath size (virtualAddress + BitVec.ofNat 64 offset) =
      pagePath size (pageAddress size virtualAddress (offset / size.toNat)) := by
  have start := range.toNat_pageAddress (page_lt below)
  have here := range.toNat_add_offset below
  rw [pagePath_eq_iff range.sizes, start, here]
  rcases size_toNat range.sizes with bytes | bytes
  · rw [bytes] at aligned ⊢
    omega
  · rw [bytes] at aligned ⊢
    omega

/-- An address of the higher half on a page of the range is covered. -/
theorem covers_of_pagePath {request : Request} {number : ℕ}
    (range : HighRange request.virtualAddress request.numPages request.size)
    (aligned : request.virtualAddress.toNat % request.size.toNat = 0)
    (below : number < request.numPages.toNat) (high : higherHalfStart ≤ address)
    (same : pagePath request.size address =
      pagePath request.size (pageAddress request.size request.virtualAddress number)) :
    request.Covers address := by
  have start := range.toNat_pageAddress below
  have startHigh : 2 ^ 64 - 2 ^ 48 ≤ request.virtualAddress.toNat := range.high
  have addressHigh : 2 ^ 64 - 2 ^ 48 ≤ address.toNat := high
  have inRange := range.mul_lt below
  rw [pagePath_eq_iff range.sizes, start] at same
  rw [Request.Covers]
  rcases size_toNat range.sizes with bytes | bytes
  · simp only [bytes] at *
    omega
  · simp only [bytes] at *
    omega

end HighRange

section Translations

variable {paging : Paging} {pool : InitialPool paging.pageTableOffset}
variable {memory memory' : TableMemory} {size entry address : Word64}

theorem translate_of_leaf (sound : (paging.tree true).Sound pool memory)
    (sizes : size = pageSize ∨ size = hugePageSize) (high : higherHalfStart ≤ address)
    (found : (paging.tree true).leaf memory.tables (pagePath size address) = some entry)
    (valid : size ≠ hugePageSize → Table entry) :
    translate paging memory.tables address = some (leafTranslation size entry address) := by
  rw [translate_of_high high, translate_of_sound sound]
  rcases sizes with rfl | rfl
  · rw [pagePath, if_neg (by decide)] at found
    have noHuge : (paging.tree true).leaf memory.tables (hugePath address) = none :=
      PageTree.leaf_above rfl found
    have notReserved : reserved entry = false :=
      decide_eq_false (not_not.mpr (valid (by decide)))
    simp [noHuge, found, notReserved]
  · rw [pagePath, if_pos rfl] at found
    simp [found]

/-- Pages that stay mapped go on translating. -/
theorem translate_keeps (before : (paging.tree true).Sound pool memory)
    (after : (paging.tree true).Sound pool memory') (high : higherHalfStart ≤ address)
    (keeps : ∀ path entry, (paging.tree true).leaf memory.tables path = some entry →
      (paging.tree true).leaf memory'.tables path = some entry) {translation : Translation}
    (translates : translate paging memory.tables address = some translation) :
    translate paging memory'.tables address = some translation := by
  rw [translate_of_high high, translate_of_sound before] at translates
  rw [translate_of_high high, translate_of_sound after]
  cases huge : (paging.tree true).leaf memory.tables (hugePath address) with
  | some entry =>
      rw [huge] at translates
      rw [keeps _ entry huge]
      exact translates
  | none =>
      rw [huge] at translates
      cases small : (paging.tree true).leaf memory.tables (smallPath address) with
      | none =>
          rw [small] at translates
          cases translates
      | some entry =>
          rw [small] at translates
          have keptSmall := keeps _ entry small
          have noHuge : (paging.tree true).leaf memory'.tables (hugePath address) = none :=
            PageTree.leaf_above rfl keptSmall
          rw [noHuge, keptSmall]
          exact translates

end Translations

section Call

variable {paging : Paging} {pool : InitialPool paging.pageTableOffset}
variable {memory memory' : TableMemory} {request : Request} {address : Word64}
variable (offset : paging.higherHalfOffset ≤ higherHalfStart)
variable (both : BothSound paging pool memory)
variable (range : HighRange request.virtualAddress request.numPages request.size)
variable (noTable : request.size = hugePageSize → request.flags &&& pageTable = 0#64)
variable (mapped : mapMemory paging pool memory request = .ok memory')

include offset both range noTable mapped

theorem translate_mapped (within : request.flags &&& ~~~pageFlagsMask = 0#64) {place : ℕ}
    (below : place < request.numPages.toNat * request.size.toNat) :
    translate paging memory'.tables (request.virtualAddress + BitVec.ofNat 64 place) =
      some (wanted request place) := by
  rcases mapMemory_aligned mapped with ⟨physicalAligned, virtualAligned⟩
  rcases mapMemory_cases mapped with ⟨state, pages, rfl⟩
  rcases mapPages_mapped range.sizes noTable (range.higherHalf offset) (both.sound true) pages with
    ⟨stepped, -, -, entries⟩
  have entry := entries (place / request.size.toNat) (page_lt below)
  rw [← range.pagePath_add_offset virtualAligned below] at entry
  rw [translate_of_leaf stepped.sound range.sizes (range.le_add_offset below) entry
    fun notHuge => table_rangeEntry notHuge _]
  rw [leafTranslation_rangeEntry range.sizes within physicalAligned, wanted,
    range.toNat_add_offset below]
  congr 2
  rcases range.sizes with size | size
  · simp only [size, show pageSize.toNat = 4096 from rfl] at *
    congr 1
    omega
  · simp only [size, show hugePageSize.toNat = 2097152 from rfl] at *
    congr 1
    omega

/-- No path of an address that is not covered is that of a page of the range. -/
theorem translate_of_not_covered (outside : ¬request.Covers address) :
    translate paging memory'.tables address = translate paging memory.tables address := by
  have virtualAligned := (mapMemory_aligned mapped).2
  rcases mapMemory_cases mapped with ⟨state, pages, rfl⟩
  rcases mapPages_mapped range.sizes noTable (range.higherHalf offset) (both.sound true) pages with
    ⟨stepped, -, frame, -⟩
  have bothAfter := both.mapPages noTable pages
  have low := both.mapPages_low range.sizes noTable (range.higherHalf offset) pages
  by_cases isLow : address.toNat < 2 ^ 48
  · simp only [translate, if_pos isLow, translate_of_sound (both.sound false),
      translate_of_sound (bothAfter.sound false), low]
  · by_cases high : higherHalfStart ≤ address
    · have elsewhere : ∀ path, path = hugePath address ∨ path = smallPath address →
          (paging.tree true).leaf state.memory.tables path =
            (paging.tree true).leaf memory.tables path := by
        intro path here
        apply frame
        intro number below same
        apply outside
        exact range.covers_of_pagePath virtualAligned below high (pagePath_of_path here same)
      have huge := elsewhere _ (Or.inl rfl)
      have small := elsewhere _ (Or.inr rfl)
      rw [translate_of_high high, translate_of_high high, translate_of_sound (both.sound true),
        translate_of_sound stepped.sound, huge, small]
    · simp only [translate, if_neg isLow, if_neg high]

theorem translate_kept (high : higherHalfStart ≤ address) {translation : Translation}
    (translates : translate paging memory.tables address = some translation) :
    translate paging memory'.tables address = some translation := by
  rcases mapMemory_cases mapped with ⟨state, pages, rfl⟩
  rcases mapPages_mapped range.sizes noTable (range.higherHalf offset) (both.sound true) pages with
    ⟨stepped, keeps, -, -⟩
  exact translate_keeps (both.sound true) stepped.sound high keeps translates

end Call

/--
A call that returns maps the whole range, with the address bits that an entry has a place for, and
nothing else. A call that finds another translation in its range does not return.
-/
theorem mapMemory_effect {paging : Paging} {pool : InitialPool paging.pageTableOffset}
    {memory : TableMemory} {request : Request}
    (offset : paging.higherHalfOffset ≤ higherHalfStart)
    (calls : AfterCalls paging pool memory)
    (range : HighRange request.virtualAddress request.numPages request.size)
    (within : request.flags &&& ~~~pageFlagsMask = 0#64)
    (noTable : request.size = hugePageSize → request.flags &&& pageTable = 0#64) :
    (∀ memory', mapMemory paging pool memory request = .ok memory' →
      (∀ place < request.numPages.toNat * request.size.toNat,
        translate paging memory'.tables (request.virtualAddress + BitVec.ofNat 64 place) =
          some (wanted request place)) ∧
      ∀ address, ¬request.Covers address →
        translate paging memory'.tables address = translate paging memory.tables address) ∧
    ((∃ place < request.numPages.toNat * request.size.toNat, ∃ translation,
        translate paging memory.tables (request.virtualAddress + BitVec.ofNat 64 place) =
          some translation ∧ translation ≠ wanted request place) →
      ∃ panic, mapMemory paging pool memory request = .error panic) := by
  have both := calls.bothSound
  constructor
  · intro memory' mapped
    constructor
    · intro place below
      exact translate_mapped offset both range noTable mapped within below
    · intro address outside
      exact translate_of_not_covered offset both range noTable mapped outside
  · rintro ⟨place, below, translation, translates, different⟩
    cases mapped : mapMemory paging pool memory request with
    | error panic => exact ⟨panic, rfl⟩
    | ok memory' =>
        have high := range.le_add_offset below
        have kept := translate_kept offset both range noTable mapped high translates
        have new := translate_mapped offset both range noTable mapped within below
        rw [new] at kept
        exact absurd (Option.some.inj kept).symm different

theorem afterCalls_twoTables : AfterCalls twoRoots kernelPool twoTables :=
  .roots
    (show newTable kernelPool ⟨fun _ _ => 0#64, ⟨0, by decide⟩⟩ =
      .ok (⟨TableTree.fill (fun _ _ => 0#64) twoRoots.root1 0#64, ⟨1, by decide⟩⟩,
        twoRoots.root1) from rfl)
    (show newTable kernelPool ⟨TableTree.fill (fun _ _ => 0#64) twoRoots.root1 0#64,
      ⟨1, by decide⟩⟩ = .ok (twoTables, twoRoots.root2) from rfl)

/-- The pages are mapped, and do not give way to the same pages with other flags. -/
theorem mapMemory_effect_twoPages :
    ∃ memory', mapTwoPages = .ok memory' ∧
      translate twoRoots memory'.tables (twoPages.virtualAddress + 0x1123#64) =
        some ⟨0x6123#64, pageSize, 0x403#64⟩ ∧
      ∃ panic, mapMemory twoRoots kernelPool memory' { twoPages with flags := 0#64 } =
        .error panic := by
  rcases Fallible.exists_of_isOk (show mapTwoPages.isOk = true by decide +kernel) with
    ⟨memory', mapped⟩
  have offset : twoRoots.higherHalfOffset ≤ higherHalfStart := by decide
  have range : HighRange twoPages.virtualAddress twoPages.numPages twoPages.size :=
    ⟨Or.inl rfl, by decide, by decide⟩
  have small : twoPages.size ≠ hugePageSize := by decide
  have effect := mapMemory_effect offset afterCalls_twoTables range (by decide)
    fun isHuge => absurd isHuge small
  have translates := (effect.1 memory' mapped).1 0x1123 (by decide)
  have calls := AfterCalls.map afterCalls_twoTables (fun isHuge => absurd isHuge small) mapped
  refine ⟨memory', mapped, translates, ?_⟩
  have again := @mapMemory_effect twoRoots kernelPool memory' { twoPages with flags := 0#64 }
    offset calls range (by decide) fun isHuge => absurd isHuge small
  exact again.2 ⟨0x1123, by decide, _, translates, by decide⟩

/-- A page frame above the address bits of an entry. -/
def highFrame : Request :=
  { twoPages with physicalAddress := 0x10000000000000#64 }

theorem mapMemory_drops_high_bits :
    AfterCalls twoRoots kernelPool twoTables ∧ twoRoots.higherHalfOffset ≤ higherHalfStart ∧
      HighRange highFrame.virtualAddress highFrame.numPages highFrame.size ∧
      highFrame.flags &&& ~~~pageFlagsMask = 0#64 ∧
      ∃ memory', mapMemory twoRoots kernelPool twoTables highFrame = .ok memory' ∧
        translate twoRoots memory'.tables highFrame.virtualAddress =
          some ⟨0#64, pageSize, 0x403#64⟩ ∧
        highFrame.physicalAddress ≠ 0#64 := by
  have translates : ((mapMemory twoRoots kernelPool twoTables highFrame).toOption.map
      fun memory' => translate twoRoots memory'.tables highFrame.virtualAddress) =
        some (some ⟨0#64, pageSize, 0x403#64⟩) := by decide +kernel
  refine ⟨afterCalls_twoTables, by decide, ⟨Or.inl rfl, by decide, by decide⟩, by decide, ?_⟩
  cases mapped : mapMemory twoRoots kernelPool twoTables highFrame with
  | error panic =>
      rw [mapped] at translates
      cases translates
  | ok memory' =>
      rw [mapped] at translates
      exact ⟨memory', rfl, Option.some.inj translates, by decide⟩

end Dvnetos.PageTables.Aarch64
