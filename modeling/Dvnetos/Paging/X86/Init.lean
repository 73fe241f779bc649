import Dvnetos.Paging.Rebuilding
import Dvnetos.Paging.X86.Translate

/-!
# Rebuilding the tables on x86_64

This file models `Paging::init` of `arch/x86_64/memory/paging.cpp` with the parts of
the walk that belong to the architecture, and says which addresses a reported range
covers.
-/

namespace Dvnetos.PageTables.X86

/-- The bits of an entry that hold the address of a page of 2 MiB, as `init` takes them. -/
def pageAddrMask3 : Word64 := 0x000FFFFFFFF00000#64

/-- `pageIndexesToVirtual(l)`, which extends the sign. -/
def pageIndexesToVirtual (l : List Index) : Word64 :=
  let address := pageIndexBits l
  if address &&& 1#64 <<< 47 ≠ 0#64 then address ||| 0xFFFF000000000000#64 else address

/-- What `parsePageTable` needs to know of the format of the entries. -/
def walkFormat : WalkFormat where
  format := format
  unsupportedL1 _ := none
  unsupportedL2 entry := if Huge entry then some "unsupported 1GB page" else none
  blockAddress entry := entry &&& pageAddrMask3
  blockFlags entry := entry &&& pageFlagsMask &&& ~~~pageSizeFlag
  pageFlags entry := entry &&& pageFlagsMask &&& ~~~pageSizeFlag
  rangeFlags flags := flags &&& ~~~(pageAccessed ||| pageDirty)
  pageIndexesToVirtual _ l := pageIndexesToVirtual l

/-- The call of `mapMemory` in the callback of `init`. -/
def mapRange (paging : Paging) (pool : InitialPool paging.pageTableOffset)
    (range : PageTableRangeData) (memory : TableMemory) : Except Panic TableMemory :=
  mapMemory paging pool memory (rangeRequest range)

/-- `init`, with the value of `cr3` and the tables of the boot loader. -/
def init (response : Option PagingMode) (cr3 : Word64) (bootTables : Word64 → Index → Word64)
    (mappings : List MemmapEntry) (hhdmVirtualOffset kernelVirtualOffset : Word64)
    (pool : InitialPool kernelVirtualOffset) (memory : TableMemory) :
    Except Panic (Paging × TableMemory) := do
  if hhdmVirtualOffset % pageSize ≠ 0#64 then
    throw "virtual offset must be page aligned"
  match response with
  | none => throw "paging request not set"
  | some .other => throw "paging mode not supported"
  | some .fourLevel =>
      let (memory, root) ← newTable pool memory
      let paging : Paging := { root, pageTableOffset := kernelVirtualOffset }
      let memory ← pageTableToRanges walkFormat
        (initCallback (mapRange paging pool) mappings) bootTables (· + hhdmVirtualOffset)
        [(false, cr3 + hhdmVirtualOffset)] memory
      return (paging, memory)

/-- The tables of the boot loader as the walk reads them. -/
def bootPaging (cr3 hhdmVirtualOffset : Word64) : Paging :=
  { root := cr3 + hhdmVirtualOffset, pageTableOffset := hhdmVirtualOffset }

/-- The ranges that `pageTableToRanges` passes to the callback of `init`. -/
def bootRanges (cr3 hhdmVirtualOffset : Word64) (bootTables : Word64 → Index → Word64) :
    Except Panic (List PageTableRangeData) :=
  reportedRanges walkFormat bootTables (· + hhdmVirtualOffset) [(false, cr3 + hhdmVirtualOffset)]

/-- The range starts in front of the addresses that are not canonical and ends behind them. -/
def SpansHole (range : PageTableRangeData) : Prop :=
  range.virtualStart.toNat < 2 ^ 47 ∧ 2 ^ 47 ≤ range.virtualEnd.toNat

instance (range : PageTableRangeData) : Decidable (SpansHole range) :=
  inferInstanceAs (Decidable (_ ∧ _))

theorem bit47_iff {address : Word64} (bound : address.toNat < 2 ^ 48) :
    address &&& 1#64 <<< 47 ≠ 0#64 ↔ 2 ^ 47 ≤ address.toNat := by
  have bit : address.getLsbD 47 = decide (2 ^ 47 ≤ address.toNat) := by
    rw [BitVec.getLsbD, Nat.testBit_eq_decide_div_mod_eq, decide_eq_decide]
    omega
  rw [show 1#64 <<< 47 = BitVec.twoPow 64 47 from rfl, BitVec.and_twoPow, bit]
  by_cases high : 2 ^ 47 ≤ address.toNat
  · rw [decide_eq_true high, if_pos rfl]
    exact ⟨fun _ => high, fun _ => by decide⟩
  · rw [decide_eq_false high, if_neg Bool.false_ne_true]
    exact ⟨fun set => absurd rfl set, fun set => absurd set high⟩

theorem pageIndexesToVirtual_toNat {path : List Index}
    (level : path.length = 3 ∨ path.length = 4) :
    (pageIndexesToVirtual path.reverse).toNat =
      pathNumber path * 4096 + if pathNumber path < 2 ^ 35 then 0 else 2 ^ 64 - 2 ^ 48 := by
  have bits := pageIndexBits_toNat level
  have bound := pathNumber_lt level
  have test := bit47_iff (show (pageIndexBits path.reverse).toNat < 2 ^ 48 by omega)
  rw [pageIndexesToVirtual]
  by_cases low : pathNumber path < 2 ^ 35
  · rw [if_neg (fun set => absurd (test.mp set) (by omega)), if_pos low, bits, Nat.add_zero]
  · rw [if_pos (test.mpr (by omega)), if_neg low, BitVec.toNat_or, bits, Nat.or_comm]
    rw [show (0xFFFF000000000000#64).toNat = 2 ^ 64 - 2 ^ 48 from rfl,
      or_eq_add 48 (by omega) ⟨2 ^ 16 - 1, by norm_num⟩]
    omega

theorem walkFormat_numbered : walkFormat.Numbered false := by
  intro path level
  change pageNumber (pageIndexesToVirtual path.reverse) = pathNumber path
  have bound := pathNumber_lt level
  rw [pageNumber, pageIndexesToVirtual_toNat level]
  split_ifs <;> omega

/-- The walk of the boot loader's tables. -/
abbrev bootTrees (cr3 hhdmVirtualOffset : Word64) (_higherHalf : Bool) : PageTree :=
  (bootPaging cr3 hhdmVirtualOffset).tree

section Ranges

variable {cr3 hhdmVirtualOffset : Word64} {bootTables : Word64 → Index → Word64}

/-- A range that the walk reports, by the number of its first page. -/
abbrev BootRange (cr3 hhdmVirtualOffset : Word64) (bootTables : Word64 → Index → Word64)
    (range : PageTableRangeData) (start : ℕ) : Prop :=
  HalfRange walkFormat (bootTrees cr3 hhdmVirtualOffset) bootTables false range start

theorem bootRanges_describe {ranges : List PageTableRangeData}
    (reported : bootRanges cr3 hhdmVirtualOffset bootTables = .ok ranges) :
    ∀ range ∈ ranges, ∃ start, BootRange cr3 hhdmVirtualOffset bootTables range start := by
  have tiles : Tiling.Tiles Visit.start Visit.extent 0
      (visits walkFormat bootTables (· + hhdmVirtualOffset) [(false, cr3 + hhdmVirtualOffset)])
      (2 ^ 36) := by
    have lower := tiles_visitsL1 walkFormat bootTables (· + hhdmVirtualOffset) false
      (cr3 + hhdmVirtualOffset)
    simpa [visits, halfStart] using lower
  have genuine : ∀ visit ∈ visits walkFormat bootTables (· + hhdmVirtualOffset)
      [(false, cr3 + hhdmVirtualOffset)], ∀ entry, visit.found = .leaf entry →
        Genuine walkFormat (bootTrees cr3 hhdmVirtualOffset visit.higherHalf) bootTables visit.path
          entry := by
    intro visit visited
    simp only [visits, List.flatMap_cons, List.flatMap_nil, List.append_nil] at visited
    have sameFormat : (bootPaging cr3 hhdmVirtualOffset).tree.format = walkFormat.format := rfl
    exact genuine_of_visitsL1 sameFormat visit visited
  intro range rangeMem
  rcases reportedRanges_describe reported ⟨0, tiles⟩ (by decide) genuine range rangeMem with
    ⟨start, describes, stop⟩
  refine ⟨start, ?_, stop⟩
  rw [halfStart, if_neg Bool.false_ne_true, Nat.zero_add]
  exact describes

theorem between_iff {start last extent lower upper address : ℕ} (order : start ≤ last)
    (positive : 0 < extent) (stop : last + extent ≤ 2 ^ 36) (bound : address < 2 ^ 64)
    (lowerEq : lower = start * 4096 + if start < 2 ^ 35 then 0 else 2 ^ 64 - 2 ^ 48)
    (upperEq : upper + 1 = (last + extent) * 4096 + if last < 2 ^ 35 then 0 else 2 ^ 64 - 2 ^ 48)
    (noSpan : ¬(lower < 2 ^ 47 ∧ 2 ^ 47 ≤ upper)) :
    lower ≤ address ∧ address ≤ upper ↔
      (address < 2 ^ 47 ∨ 2 ^ 64 - 2 ^ 47 ≤ address) ∧ start ≤ address / 4096 % 2 ^ 36 ∧
        address / 4096 % 2 ^ 36 < last + extent := by
  by_cases low : start < 2 ^ 35
  · rw [if_pos low] at lowerEq
    have lastLow : last < 2 ^ 35 := by
      split_ifs at upperEq with isLow
      · exact isLow
      · omega
    rw [if_pos lastLow] at upperEq
    omega
  · rw [if_neg low] at lowerEq
    rw [if_neg (by omega)] at upperEq
    omega

/-- The addresses a range covers are those of its pages. -/
theorem covers_iff {range : PageTableRangeData} {start : ℕ} {address : Word64}
    (boot : BootRange cr3 hhdmVirtualOffset bootTables range start) (noSpan : ¬SpansHole range) :
    range.Covers address ↔
      Canonical address ∧ start ≤ pageNumber address ∧
        pageNumber address < rangeStop range start := by
  have positive := boot.positive
  rcases boot.page positive with ⟨first, _, firstPage, virtualStart, -⟩
  rcases boot.page (Nat.sub_one_lt_of_lt positive) with
    ⟨last, _, lastPage, -, virtualEnd⟩
  have startValue := congrArg BitVec.toNat (virtualStart rfl)
  have endValue := congrArg BitVec.toNat (virtualEnd (by omega))
  simp only [walkFormat] at startValue endValue
  rw [pageIndexesToVirtual_toNat firstPage.genuine.length, firstPage.number_eq] at startValue
  rw [BitVec.toNat_sub, BitVec.toNat_add, pageIndexesToVirtual_toNat lastPage.genuine.length,
    lastPage.number_eq] at endValue
  have lastBound := pathNumber_lt lastPage.genuine.length
  rw [lastPage.number_eq] at lastBound
  have stop : rangeStop range start =
      start + (range.pageCount.toNat - 1) * extentOf range.pageSize +
        extentOf range.pageSize := by
    rw [rangeStop, Nat.add_assoc, ← Nat.succ_mul, Nat.succ_eq_add_one, Nat.sub_add_cancel positive]
  have stopBound := boot.stop
  rw [stop] at stopBound ⊢
  apply between_iff (Nat.le_add_right _ _) _ stopBound address.isLt
  · simpa using startValue
  · rw [endValue]
    rcases lastPage.kind with ⟨_, size, _⟩ | ⟨_, size, _⟩
    · rw [size, extentOf_huge] at stopBound ⊢
      rw [show hugePageSize.toNat = 2097152 from rfl, show (1#64).toNat = 1 from rfl]
      split_ifs <;> omega
    · rw [size, extentOf_small] at stopBound ⊢
      rw [show pageSize.toNat = 4096 from rfl, show (1#64).toNat = 1 from rfl]
      split_ifs <;> omega
  · exact noSpan
  · rw [extentOf]
    split_ifs <;> decide

end Ranges

end Dvnetos.PageTables.X86
