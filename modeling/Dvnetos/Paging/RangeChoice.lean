import Dvnetos.Paging.Aarch64.Init
import Dvnetos.Paging.X86.Init

/-!
# The choice among the ranges

`Paging::init` maps the ranges that overlap an entry of a type to map. `rangesOverlap`
compares with the end of the entry as if the entry had a byte there, and this end wraps
to zero if the entry goes up to the end of the address space.
-/

namespace Dvnetos.PageTables

open Fallible

/-- `pageTableToRanges` hands the range to its callback: when that panics, so does the walk. -/
def IsReported (walk : WalkFormat) (tables : Word64 → Index → Word64) (mapFunc : Word64 → Word64)
    (roots : List (Bool × Word64)) (range : PageTableRangeData) : Prop :=
  ∀ panic : Panic,
    pageTableToRanges walk (fun other () => if other = range then .error panic else .ok ()) tables
      mapFunc roots () = .error panic

/-- The physical addresses of a block do not wrap. -/
structure Placed (block : PageTableRangeData) : Prop where
  ordered : block.physicalStart.toNat ≤ block.physicalEnd.toNat
  bounded : block.physicalEnd.toNat < 2 ^ 53

/-- The block that is open, if one is, does not wrap. -/
def OpenPlaced {State : Type} (state : RangeState State) : Prop :=
  state.inBlock = true → Placed state.currentBlock

/-- A leaf is at an address of 52 bits. -/
def Framed (walk : WalkFormat) : Prop := ∀ entry, (walk.blockAddress entry).toNat < 2 ^ 52

theorem toNat_and_lt {mask : Word64} (framed : mask.toNat < 2 ^ 52) (entry : Word64) :
    (entry &&& mask).toNat < 2 ^ 52 := by
  rw [BitVec.toNat_and]
  exact lt_of_le_of_lt Nat.and_le_right framed

theorem X86.walkFormat_framed : Framed X86.walkFormat := toNat_and_lt (by decide)

theorem Aarch64.walkFormat_framed (higherHalfOffset : Word64) :
    Framed (Aarch64.walkFormat higherHalfOffset) := toNat_and_lt (by decide)

section Blocks

variable {physicalAddress size : Word64} (framed : physicalAddress.toNat < 2 ^ 52)
variable (sizes : size = pageSize ∨ size = hugePageSize)
include framed sizes

theorem lastByte_toNat :
    physicalAddress.toNat ≤ (physicalAddress + size - 1#64).toNat ∧
      (physicalAddress + size - 1#64).toNat < 2 ^ 53 := by
  rcases sizes with rfl | rfl
  · rw [show pageSize = 0x1000#64 from rfl]
    constructor <;> bv_omega
  · rw [show hugePageSize = 0x200000#64 from rfl]
    constructor <;> bv_omega

theorem placed_startBlock (virtualAddress flags : Word64) :
    Placed (startBlock virtualAddress physicalAddress flags size) :=
  ⟨(lastByte_toNat framed sizes).1, (lastByte_toNat framed sizes).2⟩

theorem Placed.extend {block : PageTableRangeData} (placed : Placed block)
    (next : block.physicalEnd + 1#64 = physicalAddress) (virtualAddress : Word64) :
    Placed (block.extend virtualAddress physicalAddress size) := by
  have last := lastByte_toNat framed sizes
  have after : physicalAddress.toNat = block.physicalEnd.toNat + 1 := by
    have := placed.bounded
    rw [← next]
    bv_omega
  exact ⟨by simp only [PageTableRangeData.extend]; have := placed.ordered; omega, last.2⟩

end Blocks

section Callbacks

variable {State : Type} {walk : WalkFormat}
variable {callback other : PageTableRangeData → State → Except Panic State}
variable {state : RangeState State}

theorem closeBlock_congr
    (agree : ∀ block, Placed block → ∀ data, callback block data = other block data)
    (placed : OpenPlaced state) : closeBlock callback state = closeBlock other state := by
  simp only [closeBlock]
  split_ifs with inBlock
  · exact agree state.currentBlock (placed inBlock) state.data
  · rfl

theorem rangeLeaf_congr
    (agree : ∀ block, Placed block → ∀ data, callback block data = other block data)
    (placed : OpenPlaced state) (virtualAddress physicalAddress flags size : Word64) :
    rangeLeaf walk callback virtualAddress physicalAddress flags size state =
      rangeLeaf walk other virtualAddress physicalAddress flags size state := by
  simp only [rangeLeaf, closeBlock_congr agree placed]

theorem rangeLeaf_placed {virtualAddress physicalAddress flags size : Word64} {goOn : Bool}
    {after : RangeState State} (placed : OpenPlaced state)
    (framed : physicalAddress.toNat < 2 ^ 52) (sizes : size = pageSize ∨ size = hugePageSize)
    (ran : rangeLeaf walk other virtualAddress physicalAddress flags size state =
      .ok (goOn, after)) : OpenPlaced after := by
  intro _
  simp only [rangeLeaf] at ran
  split_ifs at ran with continues
  · cases ran
    exact (placed continues.1).extend framed sizes continues.2.1 virtualAddress
  · rw [bind_eq_ok_iff] at ran
    rcases ran with ⟨data, -, returned⟩
    cases returned
    exact placed_startBlock framed sizes virtualAddress (walk.rangeFlags flags)

theorem run_congr
    (agree : ∀ block, Placed block → ∀ data, callback block data = other block data)
    (visit : Visit) (placed : OpenPlaced state) :
    visit.run walk (rangeLeaf walk callback) (rangeMissing callback) state =
      visit.run walk (rangeLeaf walk other) (rangeMissing other) state := by
  simp only [Visit.run, rangeLeaf_congr agree placed, rangeMissing, closeBlock_congr agree placed]

theorem run_placed (addresses : Framed walk) {visit : Visit} {goOn : Bool}
    {after : RangeState State} (placed : OpenPlaced state)
    (ran : visit.run walk (rangeLeaf walk other) (rangeMissing other) state = .ok (goOn, after)) :
    OpenPlaced after := by
  rcases visit with ⟨higherHalf, path, found⟩
  cases found with
  | leaf entry =>
      by_cases three : path.length = 3
      · rw [Visit.run_huge _ _ _ three] at ran
        exact rangeLeaf_placed placed (addresses entry) (.inr rfl) ran
      · rw [Visit.run_small _ _ _ three] at ran
        exact rangeLeaf_placed placed (toNat_and_lt (by decide) entry) (.inl rfl) ran
  | missing =>
      simp only [Visit.run, rangeMissing, bind_eq_ok_iff] at ran
      rcases ran with ⟨data, -, returned⟩
      cases returned
      intro closed
      cases closed
  | unsupported panic => cases ran

theorem visits_congr (addresses : Framed walk)
    (agree : ∀ block, Placed block → ∀ data, callback block data = other block data)
    (visits : List Visit) (placed : OpenPlaced state) :
    forEach (Visit.run walk (rangeLeaf walk callback) (rangeMissing callback)) visits state =
      forEach (Visit.run walk (rangeLeaf walk other) (rangeMissing other)) visits state := by
  refine forEach_congr ?_ ?_ visits placed
  · intro visit state placed
    exact run_congr agree visit placed
  · intro visit state goOn after placed ran
    exact run_placed addresses placed ran

/-- What the callback does with blocks that wrap does not matter. -/
theorem pageTableToRanges_congr (addresses : Framed walk)
    (agree : ∀ block, Placed block → ∀ data, callback block data = other block data)
    (tables : Word64 → Index → Word64) (mapFunc : Word64 → Word64)
    (roots : List (Bool × Word64)) (data : State) :
    pageTableToRanges walk callback tables mapFunc roots data =
      pageTableToRanges walk other tables mapFunc roots data := by
  simp only [pageTableToRanges, walkPageTableLeaf_eq]
  rw [visits_congr addresses agree]
  intro closed
  cases closed

end Callbacks

theorem IsReported.placed {walk : WalkFormat} (addresses : Framed walk)
    {tables : Word64 → Index → Word64} {mapFunc : Word64 → Word64} {roots : List (Bool × Word64)}
    {range : PageTableRangeData} (reported : IsReported walk tables mapFunc roots range) :
    Placed range := by
  by_contra wraps
  -- a callback that panics at this range only would not be noticed
  have unnoticed (panic : Panic) :
      pageTableToRanges walk (fun _ () => .ok ()) tables mapFunc roots () = .error panic := by
    rw [← reported panic]
    apply pageTableToRanges_congr addresses
    rintro block placed ⟨⟩
    rw [if_neg]
    rintro rfl
    exact wraps placed
  have twice := (unnoticed "first").symm.trans (unnoticed "second")
  exact absurd (Except.error.inj twice) (by decide)

/-- A byte of the range lies in the entry. -/
def Meets (range : PageTableRangeData) (entry : MemmapEntry) : Prop :=
  ∃ byte : ℕ, range.physicalStart.toNat ≤ byte ∧ byte ≤ range.physicalEnd.toNat ∧
    entry.base.toNat ≤ byte ∧ byte < entry.base.toNat + entry.length.toNat

/-- The range has no byte of the entry, but its end: the range starts behind it, or around the
empty entry, or at zero, where the end of the last entry has wrapped to. -/
def Touches (range : PageTableRangeData) (entry : MemmapEntry) : Prop :=
  entry.base.toNat + entry.length.toNat = range.physicalStart.toNat ∨
    entry.length.toNat = 0 ∧ range.physicalStart.toNat ≤ entry.base.toNat ∧
      entry.base.toNat ≤ range.physicalEnd.toNat ∨
    entry.base.toNat + entry.length.toNat = 2 ^ 64 ∧ range.physicalStart.toNat = 0 ∧
      range.physicalEnd.toNat < entry.base.toNat

/-- The entry goes up to the end of the address space from below the range. -/
def Surrounds (entry : MemmapEntry) (range : PageTableRangeData) : Prop :=
  entry.base.toNat + entry.length.toNat = 2 ^ 64 ∧
    entry.base.toNat < range.physicalStart.toNat

theorem meets_iff {range : PageTableRangeData} {entry : MemmapEntry}
    (ordered : range.physicalStart.toNat ≤ range.physicalEnd.toNat) :
    Meets range entry ↔
      0 < entry.length.toNat ∧ entry.base.toNat ≤ range.physicalEnd.toNat ∧
        range.physicalStart.toNat < entry.base.toNat + entry.length.toNat := by
  constructor
  · rintro ⟨byte, above, below, inEntry, beforeEnd⟩
    omega
  · rintro ⟨nonempty, starts, ends⟩
    refine ⟨max range.physicalStart.toNat entry.base.toNat, ?_⟩
    omega

theorem rangesOverlap_iff {range : PageTableRangeData} {entry : MemmapEntry} (placed : Placed range)
    (inSpace : entry.base.toNat + entry.length.toNat ≤ 2 ^ 64) :
    rangesOverlap range entry = true ↔
      Meets range entry ∧ ¬Surrounds entry range ∨ Touches range entry := by
  have ordered := placed.ordered
  have bounded := placed.bounded
  simp only [rangesOverlap, Bool.or_eq_true, Bool.and_eq_true, decide_eq_true_eq, BitVec.le_def,
    ge_iff_le, BitVec.toNat_add, meets_iff ordered, Touches, Surrounds]
  rcases Nat.eq_or_lt_of_le inSpace with top | below
  · rw [top, Nat.mod_self]
    omega
  · rw [Nat.mod_eq_of_lt below]
    omega

/-- An entry of a type to map has the property. -/
def AnyToMap (mappings : List MemmapEntry) (property : MemmapEntry → Prop) : Prop :=
  ∃ entry ∈ mappings, isTypeToMap entry.type = true ∧ property entry

theorem isMapped_iff {range : PageTableRangeData} {mappings : List MemmapEntry}
    (placed : Placed range)
    (inSpace : ∀ entry ∈ mappings, entry.base.toNat + entry.length.toNat ≤ 2 ^ 64) :
    isMapped mappings range = true ↔
      AnyToMap mappings (fun entry => Meets range entry ∧ ¬Surrounds entry range) ∨
        AnyToMap mappings (Touches range) := by
  simp only [isMapped, List.any_eq_true, Bool.and_eq_true, AnyToMap]
  constructor
  · rintro ⟨entry, member, overlap, toMap⟩
    rcases (rangesOverlap_iff placed (inSpace entry member)).mp overlap with meets | touches
    · exact .inl ⟨entry, member, toMap, meets⟩
    · exact .inr ⟨entry, member, toMap, touches⟩
  · rintro (⟨entry, member, toMap, meets⟩ | ⟨entry, member, toMap, touches⟩)
    · exact ⟨entry, member, (rangesOverlap_iff placed (inSpace entry member)).mpr (.inl meets),
        toMap⟩
    · exact
        ⟨entry, member, (rangesOverlap_iff placed (inSpace entry member)).mpr (.inr touches), toMap⟩

theorem anyToMap_meets_iff {range : PageTableRangeData} {mappings : List MemmapEntry} :
    AnyToMap mappings (Meets range) ↔
      AnyToMap mappings (fun entry => Meets range entry ∧ ¬Surrounds entry range) ∨
        AnyToMap mappings (fun entry => Meets range entry ∧ Surrounds entry range) := by
  constructor
  · rintro ⟨entry, member, toMap, meets⟩
    by_cases surrounds : Surrounds entry range
    · exact .inr ⟨entry, member, toMap, meets, surrounds⟩
    · exact .inl ⟨entry, member, toMap, meets, surrounds⟩
  · rintro (⟨entry, member, toMap, meets, -⟩ | ⟨entry, member, toMap, meets, -⟩)
    · exact ⟨entry, member, toMap, meets⟩
    · exact ⟨entry, member, toMap, meets⟩

/-- When the callback of `init` maps a range if and only if it has a byte to map. -/
theorem isMapped_exact_iff {walk : WalkFormat} {tables : Word64 → Index → Word64}
    {mapFunc : Word64 → Word64} {roots : List (Bool × Word64)} {range : PageTableRangeData}
    {mappings : List MemmapEntry}
    (architecture : walk = X86.walkFormat ∨ ∃ offset, walk = Aarch64.walkFormat offset)
    (reported : IsReported walk tables mapFunc roots range)
    (inSpace : ∀ entry ∈ mappings, entry.base.toNat + entry.length.toNat ≤ 2 ^ 64) :
    (isMapped mappings range = true ↔ AnyToMap mappings (Meets range)) ↔
      AnyToMap mappings (fun entry => Meets range entry ∧ ¬Surrounds entry range) ∨
        (AnyToMap mappings (Touches range) ↔
          AnyToMap mappings fun entry => Meets range entry ∧ Surrounds entry range) := by
  have addresses : Framed walk := by
    rcases architecture with rfl | ⟨offset, rfl⟩
    · exact X86.walkFormat_framed
    · exact Aarch64.walkFormat_framed offset
  rw [isMapped_iff (reported.placed addresses) inSpace, anyToMap_meets_iff]
  tauto

/-- Tables with one page, of the second 2 MiB, at address zero. -/
def hugePageTables (table : Word64) (index : Index) : Word64 :=
  if index.val ≠ 0 then 0#64
  else if table = 0x1000#64 then 0x2001#64
  else if table = 0x2000#64 then 0x3001#64
  else 0x200081#64

/-- A range of one page of 2 MiB. -/
def hugePageRange : PageTableRangeData :=
  { virtualStart := 0#64
    virtualEnd := 0x1FFFFF#64
    physicalStart := 0x200000#64
    physicalEnd := 0x3FFFFF#64
    flags := 1#64
    pageCount := 1#64
    pageSize := hugePageSize }

theorem hugePageRange_reported :
    IsReported X86.walkFormat hugePageTables id [(false, 0x1000#64)] hugePageRange := by
  intro panic
  have indexes : ∃ later, List.finRange 512 = 0 :: 1 :: later := by
    rw [List.finRange_succ, List.finRange_succ, List.map_cons]
    exact ⟨_, rfl⟩
  rcases indexes with ⟨later, indexes⟩
  simp only [pageTableToRanges, walkPageTableLeaf, walkL1, walkL2, walkL3, indexes]
  rfl

/-- A frame buffer inside the page. -/
theorem isMapped_exact_iff_inside :
    isMapped [⟨0x300000#64, 0x1000#64, .framebuffer⟩] hugePageRange = true ↔
      AnyToMap [⟨0x300000#64, 0x1000#64, .framebuffer⟩] (Meets hugePageRange) := by
  apply (isMapped_exact_iff (.inl rfl) hugePageRange_reported (by decide)).mpr
  refine .inl ⟨_, List.mem_singleton_self _, rfl, ?_, ?_⟩
  · exact ⟨0x300000, by decide, by decide, by decide, by decide⟩
  · rintro ⟨top, -⟩
    exact absurd top (by decide)

/-- A frame buffer that ends where the page starts has no byte of it, and the page is mapped. -/
theorem isMapped_touching :
    IsReported X86.walkFormat hugePageTables id [(false, 0x1000#64)] hugePageRange ∧
      isMapped [⟨0x100000#64, 0x100000#64, .framebuffer⟩] hugePageRange = true ∧
      ¬AnyToMap [⟨0x100000#64, 0x100000#64, .framebuffer⟩] (Meets hugePageRange) := by
  refine ⟨hugePageRange_reported, by decide, ?_⟩
  rintro ⟨entry, member, -, byte, starts, -, -, ends⟩
  cases List.mem_singleton.mp member
  have behind : 2097152 ≤ byte := starts
  have below : byte < 2097152 := ends
  omega

end Dvnetos.PageTables
