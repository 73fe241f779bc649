import Dvnetos.Paging.LosslessRanges

/-!
# Huge pages read back

`walkPageTableLeaf` reads the entries that `mapMemory` writes. The entry of a page of 2 MiB is
written under `PAGE_ADDR_MASK` and read under `PAGE_ADDR_MASK3`, which starts at bit 20, and
the check of the physical address is commented out.
-/

namespace Dvnetos.PageTables

/-- A leaf callback that remembers what it is handed. -/
def rememberLeaf (virtualAddress physicalAddress flags size : Word64) (leaves : List Leaf) :
    Except Panic (Bool × List Leaf) :=
  .ok (true, leaves ++ [⟨virtualAddress, physicalAddress, size, flags⟩])

/-- The leaves `walkPageTableLeaf` reports. -/
def walkedLeaves (walk : WalkFormat) (tables : Word64 → Index → Word64)
    (mapFunc : Word64 → Word64) (roots : List (Bool × Word64)) :
    Except Panic (Bool × List Leaf) :=
  walkPageTableLeaf walk tables mapFunc rememberLeaf (fun _ leaves => .ok (true, leaves)) roots []

/-- The walk with leaves that have all the flags of the callback. -/
def WalkFormat.keepingFlags (walk : WalkFormat) : WalkFormat := { walk with rangeFlags := id }

theorem visitsL1_keepingFlags (walk : WalkFormat) (tables : Word64 → Index → Word64)
    (mapFunc : Word64 → Word64) (higherHalf : Bool) (table : Word64) :
    visitsL1 walk.keepingFlags tables mapFunc higherHalf table =
      visitsL1 walk tables mapFunc higherHalf table := rfl

theorem run_rememberLeaf (walk : WalkFormat) {visit : Visit} (leaves : List Leaf)
    (goesOn : ∀ panic, visit.found ≠ .unsupported panic) :
    visit.run walk rememberLeaf (fun _ leaves => .ok (true, leaves)) leaves =
      .ok (true, leaves ++ (visit.leaf? walk.keepingFlags).toList) := by
  rcases visit with ⟨higherHalf, path, found⟩
  cases found with
  | leaf entry =>
      by_cases three : path.length = 3
      · simp [Visit.run_huge _ _ _ three, rememberLeaf, Visit.leaf?, leafOf, three,
          WalkFormat.keepingFlags]
      · simp [Visit.run_small _ _ _ three, rememberLeaf, Visit.leaf?, leafOf, three,
          WalkFormat.keepingFlags]
  | missing => simp [Visit.run, Visit.leaf?]
  | unsupported panic => exact absurd rfl (goesOn panic)

theorem forEach_rememberLeaf (walk : WalkFormat) {visits : List Visit} (leaves : List Leaf)
    (goesOn : ∀ visit ∈ visits, ∀ panic, visit.found ≠ .unsupported panic) :
    Fallible.forEach (Visit.run walk rememberLeaf fun _ leaves => .ok (true, leaves)) visits
      leaves = .ok (true, leaves ++ visits.filterMap (Visit.leaf? walk.keepingFlags)) := by
  induction visits generalizing leaves with
  | nil => simp [Fallible.forEach]
  | cons visit rest ih =>
      have here := goesOn visit (List.mem_cons_self ..)
      have there := fun leaves => ih leaves fun visit member =>
        goesOn visit (List.mem_cons_of_mem _ member)
      rw [Fallible.forEach, run_rememberLeaf walk leaves here, Fallible.ok_bind]
      simp only [if_true, there, List.filterMap_cons]
      cases visit.leaf? walk.keepingFlags with
      | none => simp
      | some leaf => simp

/-- The walk reports the present leaves of the tree. -/
theorem walkedLeaves_eq {walk : WalkFormat} {tree : PageTree} {tables : Word64 → Index → Word64}
    (higherHalf : Bool) (sameFormat : tree.format = walk.format)
    (supported : Supported walk tree tables) :
    walkedLeaves walk tables (· + tree.pageTableOffset) [(higherHalf, tree.root)] =
      .ok (true, presentLeaves walk.keepingFlags tree tables higherHalf) := by
  have oneRoot : visits walk tables (· + tree.pageTableOffset) [(higherHalf, tree.root)] =
      visitsL1 walk tables (· + tree.pageTableOffset) higherHalf tree.root := by
    simp [visits]
  have keeping : Supported walk.keepingFlags tree tables := ⟨supported.level1, supported.level2⟩
  have leaves := @leaves_visitsL1 walk.keepingFlags tree tables higherHalf sameFormat keeping
  rw [visitsL1_keepingFlags] at leaves
  rw [walkedLeaves, walkPageTableLeaf_eq, oneRoot, forEach_rememberLeaf, leaves, List.nil_append]
  intro visit visited panic
  exact supported_visitsL1 supported visit visited

end Dvnetos.PageTables

namespace Dvnetos.PageTables.X86

section Entry

variable {flags : Word64} (within : flags &&& ~~~pageFlagsMask = 0#64)

include within

theorem hugeEntry_address (physicalAddress : Word64) :
    newValue physicalAddress (flags ||| pageSizeFlag) &&& pageAddrMask3 =
      physicalAddress &&& pageAddrMask3 := by
  have flagsClear : (flags ||| pageSizeFlag) &&& pageAddrMask3 = 0#64 := by
    rw [Bits.or_and_of_clear (Bits.and_eq_zero_of_within within (by decide))]
    decide
  have presentClear : pagePresent &&& pageAddrMask3 = 0#64 := by decide
  have masks : pageAddrMask &&& pageAddrMask3 = pageAddrMask3 := by decide
  rw [newValue, Bits.or_and_of_added_clear _ flagsClear, Bits.or_and_of_added_clear _ presentClear,
    BitVec.and_assoc, masks]

theorem hugeEntry_flags (physicalAddress : Word64) :
    newValue physicalAddress (flags ||| pageSizeFlag) &&& pageFlagsMask &&& ~~~pageSizeFlag =
      (flags ||| pagePresent) &&& ~~~pageSizeFlag := by
  have clear : physicalAddress &&& pageAddrMask &&& pageFlagsMask = 0#64 := by
    rw [BitVec.and_assoc, show pageAddrMask &&& pageFlagsMask = 0#64 from by decide,
      BitVec.and_zero]
  have kept : (flags ||| pagePresent) &&& pageFlagsMask = flags ||| pagePresent := by
    have := Bits.and_or_and_not flags pageFlagsMask
    rw [within, BitVec.or_zero] at this
    rw [BitVec.and_or_distrib_right, this]
    congr 1
  calc newValue physicalAddress (flags ||| pageSizeFlag) &&& pageFlagsMask &&& ~~~pageSizeFlag
      = ((physicalAddress &&& pageAddrMask) ||| (flags ||| pagePresent ||| pageSizeFlag)) &&&
          pageFlagsMask &&& ~~~pageSizeFlag := by
        rw [newValue]
        congr 2
        ac_rfl
    _ = (flags ||| pagePresent ||| pageSizeFlag) &&& pageFlagsMask &&& ~~~pageSizeFlag := by
        rw [Bits.or_and_of_clear clear]
    _ = (flags ||| pagePresent) &&& ~~~pageSizeFlag := by
        rw [BitVec.and_or_distrib_right, kept, BitVec.and_or_distrib_right]
        rw [show pageSizeFlag &&& pageFlagsMask &&& ~~~pageSizeFlag = 0#64 from by decide,
          BitVec.or_zero]

end Entry

variable {paging : Paging} {pool : InitialPool paging.pageTableOffset}
variable {memory memory' : TableMemory} {request : Request}

/-- The walk through the tables reports the leaf. -/
def Reports (paging : Paging) (tables : Word64 → Index → Word64) (leaf : Leaf) : Prop :=
  ∃ leaves, walkedLeaves walkFormat tables (· + paging.pageTableOffset) [(false, paging.root)] =
    .ok (true, leaves) ∧ leaf ∈ leaves

/-- The leaf of 2 MiB that a call asks for. -/
def requestLeaf (request : Request) (number : ℕ) : Leaf :=
  { virtualAddress := pageAddress request.size request.virtualAddress number
    physicalAddress := pageAddress request.size request.physicalAddress number
    size := hugePageSize
    flags := request.flags ||| pagePresent }

theorem reports_iff (sound : paging.tree.Sound pool memory) {leaf : Leaf} :
    Reports paging memory.tables leaf ↔ ∃ path entry,
      paging.tree.leaf memory.tables path = some entry ∧
        leaf = leafOf walkFormat.keepingFlags false path entry := by
  have sameFormat : paging.tree.format = walkFormat.format := rfl
  have walked := walkedLeaves_eq false sameFormat (supported_of_sound sound)
  rw [← mem_presentLeaves_iff, Reports]
  constructor
  · rintro ⟨leaves, same, member⟩
    have both := (Prod.mk.inj (Except.ok.inj (walked.symm.trans same))).2
    rwa [both]
  · intro member
    exact ⟨_, walked, member⟩

/-- What is true of every reported leaf of 2 MiB. -/
theorem Reports.hugeLeaf (sound : paging.tree.Sound pool memory) {leaf : Leaf}
    (reports : Reports paging memory.tables leaf) (huge : leaf.size = hugePageSize) :
    Canonical leaf.virtualAddress ∧ leaf.physicalAddress &&& pageAddrMask3 = leaf.physicalAddress ∧
      leaf.flags &&& pageSizeFlag = 0#64 := by
  rcases (reports_iff sound).mp reports with ⟨path, entry, found, rfl⟩
  have three : path.length = 3 := by
    by_contra notThree
    simp only [leafOf, if_neg notThree] at huge
    exact absurd huge (by decide)
  simp only [leafOf, if_pos three, WalkFormat.keepingFlags, walkFormat, id]
  refine ⟨?_, ?_, ?_⟩
  · have bound := pathNumber_lt (.inl three)
    rw [Canonical, pageIndexesToVirtual_toNat (.inl three)]
    split_ifs <;> omega
  · rw [BitVec.and_assoc, BitVec.and_self]
  · rw [BitVec.and_assoc, show ~~~pageSizeFlag &&& pageSizeFlag = 0#64 from by decide,
      BitVec.and_zero]

theorem virtual_hugePath {virtualAddress : Word64} (canonical : Canonical virtualAddress)
    (aligned : virtualAddress.toNat % hugePageSize.toNat = 0) :
    pageIndexesToVirtual (hugePath virtualAddress).reverse = virtualAddress := by
  apply BitVec.eq_of_toNat_eq
  have bound := virtualAddress.isLt
  rw [pageIndexesToVirtual_toNat (.inl rfl), pathNumber_hugePath, pageNumber]
  rw [show hugePageSize.toNat = 2097152 from rfl] at aligned
  rcases canonical with low | high
  · rw [if_pos (by omega)]
    omega
  · rw [if_neg (by omega)]
    omega

section Call

variable (reachable : Reachable paging pool memory) (huge : request.size = hugePageSize)
variable (within : request.flags &&& ~~~pageFlagsMask = 0#64)
variable (mapped : mapMemory paging pool memory request = .ok memory')

include reachable huge within mapped

/-- When the walk reports a page of the call as the call has it. -/
theorem reports_requestLeaf_iff {number : ℕ} (below : number < request.numPages.toNat) :
    Reports paging memory'.tables (requestLeaf request number) ↔
      Canonical (pageAddress request.size request.virtualAddress number) ∧
        pageAddress request.size request.physicalAddress number &&& pageAddrMask3 =
          pageAddress request.size request.physicalAddress number ∧
        request.flags &&& pageSizeFlag = 0#64 := by
  have sound := (mapMemory_stepped reachable.sound mapped).sound
  constructor
  · intro reports
    rcases reports.hugeLeaf sound rfl with ⟨canonical, frame, flags⟩
    refine ⟨canonical, frame, ?_⟩
    rwa [requestLeaf, Bits.or_and_of_added_clear _ (by decide)] at flags
  · rintro ⟨canonical, frame, flags⟩
    rcases mapMemory_cases mapped with ⟨-, -, state, pages, rfl⟩
    rw [huge] at pages canonical frame
    have start := (mapPages_frame reachable.sound pages).2.2.2 rfl (Nat.zero_lt_of_lt below)
    have aligned : request.virtualAddress.toNat % hugePageSize.toNat = 0 := by
      simpa using congrArg BitVec.toNat start
    have here := mapPages_mapped reachable.sound pages number below fun _ _ => .inl rfl
    refine (reports_iff sound).mpr ⟨_, _, here, ?_⟩
    have three : (pagePath hugePageSize
        (pageAddress hugePageSize request.virtualAddress number)).length = 3 := rfl
    have noSize : (request.flags ||| pagePresent) &&& pageSizeFlag = 0#64 := by
      rw [Bits.or_and_of_clear flags]
      decide
    simp only [requestLeaf, leafOf, if_pos three, WalkFormat.keepingFlags, walkFormat, id, huge,
      rangeEntry, entryFlags, if_true, hugeEntry_address within, hugeEntry_flags within, frame,
      Bits.and_not_eq_self noSize]
    rw [pagePath, if_pos rfl,
      virtual_hugePath canonical (pageAddress_mod (.inr rfl) aligned number).1]

/-- When the huge pages of a call read back as the call has them. -/
theorem mapMemory_readBack_iff :
    (∀ number < request.numPages.toNat,
        Reports paging memory'.tables (requestLeaf request number)) ↔
      ∀ number < request.numPages.toNat,
        Canonical (pageAddress request.size request.virtualAddress number) ∧
          pageAddress request.size request.physicalAddress number &&& pageAddrMask3 =
            pageAddress request.size request.physicalAddress number ∧
          request.flags &&& pageSizeFlag = 0#64 :=
  forall₂_congr fun _ below => reports_requestLeaf_iff reachable huge within mapped below

end Call

/-- A call for two pages of 2 MiB. -/
def twoHugePages : Request :=
  { physicalAddress := 0x400000#64
    virtualAddress := 0x200000#64
    size := hugePageSize
    numPages := 2#64
    flags := pageWrite }

theorem mapMemory_readBack_iff_twoHugePages :
    ∃ memory', mapMemory kernelPaging kernelPool emptyTables twoHugePages = .ok memory' ∧
      ∀ number < 2, Reports kernelPaging memory'.tables (requestLeaf twoHugePages number) := by
  rcases Fallible.exists_of_isOk (show
    (mapMemory kernelPaging kernelPool emptyTables twoHugePages).isOk = true by decide) with
    ⟨memory', mapped⟩
  refine ⟨memory', mapped, ?_⟩
  exact (mapMemory_readBack_iff reachable_emptyTables rfl (by decide) mapped).mpr (by decide)

/-- A page whose frame is not on a multiple of 1 MiB. -/
def unevenHugePage : Request := { twoHugePages with physicalAddress := 0x1000#64, numPages := 1#64 }

/-- The call returns, and the walk reports the page at another physical address. -/
theorem mapMemory_moves_uneven :
    ∃ memory', mapMemory kernelPaging kernelPool emptyTables unevenHugePage = .ok memory' ∧
      Reports kernelPaging memory'.tables
        { requestLeaf unevenHugePage 0 with physicalAddress := 0#64 } ∧
      ¬Reports kernelPaging memory'.tables (requestLeaf unevenHugePage 0) := by
  rcases Fallible.exists_of_isOk (show
    (mapMemory kernelPaging kernelPool emptyTables unevenHugePage).isOk = true by decide) with
    ⟨memory', mapped⟩
  refine ⟨memory', mapped, ?_, ?_⟩
  · have sound := (mapMemory_stepped reachable_emptyTables.sound mapped).sound
    rcases mapMemory_cases mapped with ⟨-, -, state, pages, rfl⟩
    have here := mapPages_mapped reachable_emptyTables.sound pages 0 (by decide) fun _ _ => .inl rfl
    exact (reports_iff sound).mpr ⟨_, _, here, rfl⟩
  · rw [reports_requestLeaf_iff reachable_emptyTables rfl (by decide) mapped (by decide)]
    decide

end Dvnetos.PageTables.X86
