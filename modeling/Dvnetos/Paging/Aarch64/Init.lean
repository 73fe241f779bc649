import Dvnetos.Paging.Aarch64.MapRange
import Dvnetos.Paging.HardwareWalk
import Dvnetos.Paging.Rebuilding

/-!
# Rebuilding the tables on aarch64

This file models `Paging::init` of `arch/aarch64/memory/paging.cpp` with the parts of
the walk that belong to the architecture, says how the processor reads the two
roots, and which addresses a reported range covers.
-/

namespace Dvnetos.PageTables.Aarch64

/-- What `parsePageTable` needs to know of the format of the entries. -/
def walkFormat (higherHalfOffset : Word64) : WalkFormat where
  format := format
  unsupportedL1 entry := if Table entry then none else some "unsupported huge page"
  unsupportedL2 entry := if Table entry then none else some "unsupported 1GB page"
  blockAddress entry := entry &&& pageAddrMask
  blockFlags entry := entry &&& pageFlagsMask
  pageFlags entry := entry &&& pageFlagsMask &&& ~~~pagePresent &&& ~~~pageTable
  rangeFlags flags := flags
  pageIndexesToVirtual higherHalf l :=
    if higherHalf then pageIndexBits l + higherHalfOffset else pageIndexBits l

/-- The tables that `walkPageTableLeaf` goes through. -/
def Paging.roots (paging : Paging) : List (Bool × Word64) :=
  [(false, paging.root1), (true, paging.root2)].filter fun root => root.2 ≠ 0#64

/-- The call of `mapMemory` in the callback of `init`. -/
def mapRange (paging : Paging) (pool : InitialPool paging.pageTableOffset)
    (range : PageTableRangeData) (memory : TableMemory) : Except Panic TableMemory :=
  mapMemory paging pool memory (rangeRequest range)

/-- `tmpPaging` of `init`. -/
def bootPaging (ttbr0 ttbr1 hhdmVirtualOffset : Word64) : Paging :=
  { root1 := ttbr0 + hhdmVirtualOffset
    root2 := ttbr1 + hhdmVirtualOffset
    pageTableOffset := hhdmVirtualOffset
    higherHalfOffset := hhdmVirtualOffset }

/--
`init` on the object as it is constructed, with the values of the two registers and the tables of
the boot loader. It does not set `higherHalfOffset`.
-/
def init (response : Option PagingMode) (ttbr0 ttbr1 : Word64)
    (bootTables : Word64 → Index → Word64) (mappings : List MemmapEntry)
    (hhdmVirtualOffset kernelVirtualOffset : Word64) (pool : InitialPool kernelVirtualOffset)
    (memory : TableMemory) : Except Panic (Paging × TableMemory) := do
  if hhdmVirtualOffset % pageSize ≠ 0#64 then
    throw "virtual offset must be page aligned"
  match response with
  | none => throw "paging request not set"
  | some .other => throw "paging mode not supported"
  | some .fourLevel =>
      let tmpPaging := bootPaging ttbr0 ttbr1 hhdmVirtualOffset
      let (memory, root1) ← getPage pool memory
      let (memory, root2) ← getPage pool memory
      let paging : Paging := { root1, root2, pageTableOffset := kernelVirtualOffset }
      let tables := TableTree.fill (TableTree.fill memory.tables root1 0#64) root2 0#64
      let memory ← pageTableToRanges (walkFormat tmpPaging.higherHalfOffset)
        (initCallback (mapRange paging pool) mappings) bootTables (· + hhdmVirtualOffset)
        tmpPaging.roots { memory with tables }
      return (paging, memory)

/-- The ranges that `pageTableToRanges` passes to the callback of `init`. -/
def bootRanges (ttbr0 ttbr1 hhdmVirtualOffset : Word64) (bootTables : Word64 → Index → Word64) :
    Except Panic (List PageTableRangeData) :=
  reportedRanges (walkFormat hhdmVirtualOffset) bootTables (· + hhdmVirtualOffset)
    (bootPaging ttbr0 ttbr1 hhdmVirtualOffset).roots

/-- Without the table bit an entry of the first or the last level leads nowhere. -/
def reserved (entry : Word64) : Bool := decide (¬Table entry)

/-- Where the addresses of the higher half start. -/
def higherHalfStart : Word64 := 0xFFFF000000000000#64

/-- The processor reads the tables of `root1` for low addresses and those of `root2` for high
ones. -/
def translate (paging : Paging) (tables : Word64 → Index → Word64) (virtualAddress : Word64) :
    Option Translation :=
  if virtualAddress.toNat < 2 ^ 48 then
    (paging.tree false).translate reserved tables virtualAddress
  else if higherHalfStart ≤ virtualAddress then
    (paging.tree true).translate reserved tables virtualAddress
  else none

theorem translate_of_high {virtualAddress : Word64}
    (high : 2 ^ 64 - 2 ^ 48 ≤ virtualAddress.toNat) (paging : Paging)
    (tables : Word64 → Index → Word64) :
    translate paging tables virtualAddress =
      (paging.tree true).translate reserved tables virtualAddress := by
  have above : higherHalfStart ≤ virtualAddress := high
  rw [translate, if_neg (by omega), if_pos above]

theorem pageIndexesToVirtual_toNat {path : List Index} (half : Bool)
    (level : path.length = 3 ∨ path.length = 4) :
    ((walkFormat higherHalfStart).pageIndexesToVirtual half path.reverse).toNat =
      pathNumber path * 4096 + if half then 2 ^ 64 - 2 ^ 48 else 0 := by
  have bits := pageIndexBits_toNat level
  have bound := pathNumber_lt level
  cases half with
  | false =>
      simp only [walkFormat, Bool.false_eq_true, if_false, Nat.add_zero]
      exact bits
  | true =>
      simp only [walkFormat, if_true]
      rw [BitVec.toNat_add, bits, show higherHalfStart.toNat = 2 ^ 64 - 2 ^ 48 from rfl]
      omega

theorem walkFormat_numbered (half : Bool) : (walkFormat higherHalfStart).Numbered half := by
  intro path level
  have bound := pathNumber_lt level
  rw [pageNumber, pageIndexesToVirtual_toNat half level]
  cases half <;> simp <;> omega

section Ranges

variable {ttbr0 ttbr1 : Word64} {bootTables : Word64 → Index → Word64}

/-- The tables of the boot loader. -/
abbrev bootTree (ttbr0 ttbr1 : Word64) (half : Bool) : PageTree :=
  (bootPaging ttbr0 ttbr1 higherHalfStart).tree half

/-- The places of the walk from the table of one half. -/
def Paging.halfVisits (paging : Paging) (walk : WalkFormat) (tables : Word64 → Index → Word64)
    (mapFunc : Word64 → Word64) (half : Bool) : List Visit :=
  if paging.root half = 0#64 then []
  else visitsL1 walk tables mapFunc half (paging.root half)

theorem visits_roots (paging : Paging) (walk : WalkFormat) (tables : Word64 → Index → Word64)
    (mapFunc : Word64 → Word64) :
    visits walk tables mapFunc paging.roots =
      paging.halfVisits walk tables mapFunc false ++
        paging.halfVisits walk tables mapFunc true := by
  by_cases low : paging.root1 = 0#64
  · by_cases high : paging.root2 = 0#64
    · simp [visits, Paging.roots, Paging.halfVisits, Paging.root, low, high]
    · simp [visits, Paging.roots, Paging.halfVisits, Paging.root, low, high]
  · by_cases high : paging.root2 = 0#64
    · simp [visits, Paging.roots, Paging.halfVisits, Paging.root, low, high]
    · simp [visits, Paging.roots, Paging.halfVisits, Paging.root, low, high]

/-- The number behind the last place of the walk. -/
def Paging.walkEnd (paging : Paging) : ℕ :=
  if paging.root2 = 0#64 then if paging.root1 = 0#64 then 0 else 2 ^ 36 else 2 ^ 37

theorem Paging.walkEnd_le (paging : Paging) : paging.walkEnd ≤ 2 ^ 37 := by
  rw [walkEnd]
  split_ifs <;> decide

theorem tiles_visits (paging : Paging) (walk : WalkFormat) (tables : Word64 → Index → Word64)
    (mapFunc : Word64 → Word64) :
    ∃ lower, Tiling.Tiles Visit.start Visit.extent lower (visits walk tables mapFunc paging.roots)
      paging.walkEnd := by
  have lowTiles := tiles_visitsL1 walk tables mapFunc false paging.root1
  have highTiles := tiles_visitsL1 walk tables mapFunc true paging.root2
  simp only [halfStart, Bool.false_eq_true, if_false, if_true] at lowTiles highTiles
  rw [visits_roots, Paging.walkEnd]
  by_cases low : paging.root1 = 0#64
  · by_cases high : paging.root2 = 0#64
    · refine ⟨0, ?_⟩
      simpa [Paging.halfVisits, Paging.root, low, high] using Tiling.Tiles.nil 0
    · refine ⟨2 ^ 36, ?_⟩
      simpa [Paging.halfVisits, Paging.root, low, high] using highTiles
  · by_cases high : paging.root2 = 0#64
    · refine ⟨0, ?_⟩
      simpa [Paging.halfVisits, Paging.root, low, high] using lowTiles
    · refine ⟨0, ?_⟩
      have both := lowTiles.append highTiles
      simpa [Paging.halfVisits, Paging.root, low, high] using both

theorem genuine_visits : ∀ visit ∈ visits (walkFormat higherHalfStart) bootTables
      (· + higherHalfStart) (bootPaging ttbr0 ttbr1 higherHalfStart).roots, ∀ entry,
    visit.found = .leaf entry →
      Genuine (walkFormat higherHalfStart) (bootTree ttbr0 ttbr1 visit.higherHalf) bootTables
        visit.path entry := by
  intro visit visited entry found
  rw [visits, List.mem_flatMap] at visited
  rcases visited with ⟨⟨half, root⟩, isRoot, here⟩
  have rootEq : root = (bootTree ttbr0 ttbr1 half).root := by
    rw [Paging.roots, List.mem_filter] at isRoot
    rcases List.mem_cons.mp isRoot.1 with low | high
    · cases low
      rfl
    · cases List.mem_singleton.mp high
      rfl
  rw [half_of_visitsL1 visit here]
  rw [rootEq] at here
  have sameFormat : (bootTree ttbr0 ttbr1 half).format = (walkFormat higherHalfStart).format := rfl
  exact genuine_of_visitsL1 sameFormat visit here entry found

/-- A range that the walk reports, by the number of its first page in both halves. -/
structure BootRange (ttbr0 ttbr1 : Word64) (bootTables : Word64 → Index → Word64)
    (range : PageTableRangeData) (start : ℕ) : Prop where
  describes : Describes (walkFormat higherHalfStart) (bootTree ttbr0 ttbr1) bootTables range start
  stop : rangeStop range start ≤ 2 ^ 37

theorem bootRanges_describe {ranges : List PageTableRangeData}
    (reported : bootRanges ttbr0 ttbr1 higherHalfStart bootTables = .ok ranges) :
    ∀ range ∈ ranges, ∃ start, BootRange ttbr0 ttbr1 bootTables range start := by
  rcases tiles_visits (bootPaging ttbr0 ttbr1 higherHalfStart) (walkFormat higherHalfStart)
    bootTables
    (· + higherHalfStart) with ⟨lower, tiles⟩
  have bound := (bootPaging ttbr0 ttbr1 higherHalfStart).walkEnd_le
  intro range rangeMem
  rcases reportedRanges_describe reported ⟨lower, tiles⟩ (by omega) genuine_visits range rangeMem
    with ⟨start, describes, stop⟩
  exact ⟨start, describes, Nat.le_trans stop bound⟩

/-- The first address of the page with this number, in the lower half and then in the higher. -/
def numberAddress (number : ℕ) : ℕ :=
  if number < 2 ^ 36 then number * 4096 else (number - 2 ^ 36) * 4096 + (2 ^ 64 - 2 ^ 48)

variable {trees : Bool → PageTree} {number : ℕ} {range : PageTableRangeData} {start : ℕ}
variable {size virtualAddress physicalAddress flags address : Word64}

theorem virtualAddress_of_pageAt (page : PageAt (walkFormat higherHalfStart) trees bootTables number
    size virtualAddress physicalAddress flags) : virtualAddress.toNat = numberAddress number := by
  rcases page with ⟨half, path, entry, genuine, rfl, rfl, _⟩
  have bound := pathNumber_lt genuine.length
  rw [pageIndexesToVirtual_toNat half genuine.length, numberAddress]
  cases half with
  | false =>
      rw [halfStart, if_neg Bool.false_ne_true, if_neg Bool.false_ne_true, if_pos (by omega)]
      omega
  | true =>
      rw [halfStart, if_pos rfl, if_pos rfl, if_neg (by omega)]
      omega

theorem size_of_pageAt (page : PageAt (walkFormat higherHalfStart) trees bootTables number
    size virtualAddress physicalAddress flags) : size.toNat = extentOf size * 4096 := by
  rcases page with ⟨_, _, _, _, _, _, ⟨_, rfl, _⟩ | ⟨_, rfl, _⟩⟩
  · rw [extentOf_huge]
    rfl
  · rw [extentOf_small]
    rfl

namespace BootRange

theorem virtualStart_eq (boot : BootRange ttbr0 ttbr1 bootTables range start) :
    range.virtualStart.toNat = numberAddress start := by
  rcases boot.describes.pages 0 boot.describes.positive with ⟨virtual, page, first, -⟩
  rw [first rfl, virtualAddress_of_pageAt page, Nat.zero_mul, Nat.add_zero]

/-- The number of the last page. -/
theorem virtualEnd_eq (boot : BootRange ttbr0 ttbr1 bootTables range start) :
    range.virtualEnd.toNat + 1 =
      numberAddress (start + (range.pageCount.toNat - 1) * extentOf range.pageSize) +
        extentOf range.pageSize * 4096 := by
  have positive := boot.describes.positive
  rcases boot.describes.pages _ (Nat.sub_one_lt_of_lt positive) with ⟨virtual, page, -, last⟩
  have address := virtualAddress_of_pageAt page
  have bytes := size_of_pageAt page
  have extentPos := extentOf_pos range.pageSize
  have extentBound : extentOf range.pageSize ≤ 512 := by
    rw [extentOf]
    split_ifs <;> decide
  have stop := boot.stop
  have whole : (range.pageCount.toNat - 1) * extentOf range.pageSize + extentOf range.pageSize =
      range.pageCount.toNat * extentOf range.pageSize := by
    rw [← Nat.succ_mul, Nat.succ_eq_add_one, Nat.sub_add_cancel positive]
  rw [rangeStop] at stop
  rw [last (by omega), BitVec.toNat_sub, BitVec.toNat_add, address, bytes,
    show (1#64).toNat = 1 from rfl]
  rw [numberAddress]
  split_ifs <;> omega

theorem virtualStart_le_virtualEnd (boot : BootRange ttbr0 ttbr1 bootTables range start) :
    range.virtualStart.toNat ≤ range.virtualEnd.toNat := by
  have first := boot.virtualStart_eq
  have last := boot.virtualEnd_eq
  have extentPos := extentOf_pos range.pageSize
  rw [numberAddress] at first last
  split_ifs at first last <;> omega

/-- A range that starts in the higher half stays in it. -/
theorem higherHalf (boot : BootRange ttbr0 ttbr1 bootTables range start)
    (high : 2 ^ 48 ≤ range.virtualStart.toNat) :
    2 ^ 36 ≤ start ∧ HalfRange (walkFormat higherHalfStart) (bootTree ttbr0 ttbr1) bootTables true
      range (start - 2 ^ 36) := by
  have first := boot.virtualStart_eq
  have stop := boot.stop
  have inHigh : 2 ^ 36 ≤ start := by
    rw [numberAddress] at first
    split_ifs at first <;> omega
  refine ⟨inHigh, ?_, ?_⟩
  · rw [halfStart, if_pos rfl, Nat.add_sub_cancel' inHigh]
    exact boot.describes
  · rw [rangeStop] at stop ⊢
    omega

/-- The addresses a range of the higher half covers are those of its pages. -/
theorem covers_iff (boot : BootRange ttbr0 ttbr1 bootTables range start)
    (high : 2 ^ 48 ≤ range.virtualStart.toNat) :
    range.Covers address ↔
      2 ^ 64 - 2 ^ 48 ≤ address.toNat ∧ start - 2 ^ 36 ≤ pageNumber address ∧
        pageNumber address < rangeStop range (start - 2 ^ 36) := by
  have first := boot.virtualStart_eq
  have last := boot.virtualEnd_eq
  have inHigh := (boot.higherHalf high).1
  have positive := boot.describes.positive
  have stop := boot.stop
  have bound := address.isLt
  have whole : (range.pageCount.toNat - 1) * extentOf range.pageSize + extentOf range.pageSize =
      range.pageCount.toNat * extentOf range.pageSize := by
    rw [← Nat.succ_mul, Nat.succ_eq_add_one, Nat.sub_add_cancel positive]
  rw [numberAddress, if_neg (by omega)] at first last
  rw [rangeStop] at stop ⊢
  rw [PageTableRangeData.Covers, pageNumber]
  omega

end BootRange

end Ranges

end Dvnetos.PageTables.Aarch64
