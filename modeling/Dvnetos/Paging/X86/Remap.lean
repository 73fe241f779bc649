import Dvnetos.Paging.X86.MapRange

/-!
# Repeating a call of mapMemory

`setPageTableEntry` compares the entry in the table with the new one bit by bit, so
a call can be repeated exactly while the processor has set no accessed or dirty bit
in the pages it compares. Such a repeated call stores nothing new.
-/

namespace Dvnetos.PageTables.X86

variable {paging : Paging} {pool : InitialPool paging.pageTableOffset}
variable {size flags : Word64}

theorem nextTable_of_table (pool : InitialPool paging.pageTableOffset) {memory : TableMemory}
    {path : List Index} {index : Index} {next : Word64}
    (reached : paging.tree.table memory.tables (index :: path) = some next) :
    ∃ table, paging.tree.table memory.tables path = some table ∧
      Present (memory.tables table index) ∧
      (path.length = 2 → ¬Huge (memory.tables table index)) ∧
      nextTable format pool memory table index = .ok (memory, next) := by
  rw [PageTree.table_cons, Option.bind_eq_some_iff] at reached
  rcases reached with ⟨entry, found, leads⟩
  rcases PageTree.table_of_entry found with ⟨table, reached, rfl⟩
  simp only [child] at leads
  split_ifs at leads with conditions
  rcases conditions with ⟨_, present, link⟩
  refine ⟨table, reached, present, fun two => of_decide_eq_false (link two), ?_⟩
  simp only [nextTable, if_pos present]
  exact congrArg (fun address => Except.ok (memory, address)) (Option.some.inj leads)

theorem setEntry_same {memory : TableMemory} {table : Word64} {index : Index} {entry : Word64}
    (same : memory.tables table index = entry) :
    setEntry memory table index entry = .ok memory := by
  rw [setEntry, if_neg fun clash => clash.2 same, ← same, TableTree.store_self]

theorem nextTables_of_pd (pool : InitialPool paging.pageTableOffset) {memory : TableMemory}
    {idx : PageIndexes} {pd : Word64}
    (reached : paging.tree.table memory.tables [idx.l2, idx.l1] = some pd) :
    ∃ pdpt, nextTable format pool memory paging.root idx.l1 = .ok (memory, pdpt) ∧
      nextTable format pool memory pdpt idx.l2 = .ok (memory, pd) := by
  rcases nextTable_of_table pool reached with ⟨pdpt, reachedPdpt, _, _, toPd⟩
  rcases nextTable_of_table pool reachedPdpt with ⟨root, isRoot, _, _, toPdpt⟩
  cases isRoot
  exact ⟨pdpt, toPdpt, toPd⟩

/-- An iteration over a page that is mapped as it should be stores nothing new. -/
theorem mapPage_again {state : LoopState}
    (aligned : size = hugePageSize → state.virtualAddress % hugePageSize = 0#64)
    (mapped : size = hugePageSize ∨
        paging.tree.leaf state.memory.tables (hugePath state.virtualAddress) = none →
      paging.tree.leaf state.memory.tables (pagePath size state.virtualAddress) =
        some (newValue state.physicalAddress (entryFlags size flags))) :
    mapPage paging pool size flags state =
      if size = hugePageSize ∨
          paging.tree.leaf state.memory.tables (hugePath state.virtualAddress) = none then
        .ok {
          memory := state.memory
          physicalAddress := state.physicalAddress + stepSize size
          virtualAddress := state.virtualAddress + stepSize size }
      else .ok state := by
  rw [mapPage]
  by_cases isHuge : size = hugePageSize
  · have found := mapped (Or.inl isHuge)
    rw [pagePath, if_pos isHuge, PageTree.leaf_eq_some_iff, entryFlags, if_pos isHuge] at found
    rcases PageTree.table_of_entry found.1 with ⟨pd, reached, same⟩
    rcases nextTables_of_pd pool reached with ⟨pdpt, toPdpt, toPd⟩
    have modulus : ¬state.virtualAddress % size ≠ 0#64 := by
      rw [isHuge]
      exact not_not.mpr (aligned isHuge)
    simp only [toPdpt, toPd, Fallible.ok_bind, if_neg modulus, setPageTableEntry,
      setEntry_same same, stepSize, if_pos isHuge, if_pos (Or.inl isHuge)]
    rfl
  · by_cases vacant : paging.tree.leaf state.memory.tables (hugePath state.virtualAddress) = none
    · have found := mapped (Or.inr vacant)
      rw [pagePath, if_neg isHuge, PageTree.leaf_eq_some_iff, entryFlags, if_neg isHuge] at found
      rcases PageTree.table_of_entry found.1 with ⟨pt, reachedPt, same⟩
      rcases nextTable_of_table pool reachedPt with ⟨pd, reached, _, link, toPt⟩
      rcases nextTables_of_pd pool reached with ⟨pdpt, toPdpt, toPd⟩
      have notCovered : ¬(Present (state.memory.tables pd
            (virtualToPageIndexes state.virtualAddress).l3) ∧
          Huge (state.memory.tables pd (virtualToPageIndexes state.virtualAddress).l3)) :=
        fun covered => link rfl covered.2
      simp only [toPdpt, toPd, toPt, Fallible.ok_bind, if_neg isHuge, if_neg notCovered,
        setPageTableEntry, setEntry_same same, stepSize, if_pos (Or.inr vacant)]
      rfl
    · rcases Option.ne_none_iff_exists'.mp vacant with ⟨entry, found⟩
      rw [PageTree.leaf_eq_some_iff] at found
      rcases PageTree.table_of_entry found.1 with ⟨pd, reached, same⟩
      rcases nextTables_of_pd pool reached with ⟨pdpt, toPdpt, toPd⟩
      have covered : Present (state.memory.tables pd
            (virtualToPageIndexes state.virtualAddress).l3) ∧
          Huge (state.memory.tables pd (virtualToPageIndexes state.virtualAddress).l3) := by
        rw [same]
        rcases found.2.2 with four | ⟨_, block⟩
        · cases four
        · exact ⟨found.2.1, of_decide_eq_true block⟩
      have neither : ¬(size = hugePageSize ∨
          paging.tree.leaf state.memory.tables (hugePath state.virtualAddress) = none) :=
        not_or.mpr ⟨isHuge, vacant⟩
      simp only [toPdpt, toPd, Fallible.ok_bind, if_neg isHuge, if_pos covered, if_neg neither]
      rfl

theorem huge_aligned_add {virtualAddress : Word64}
    (aligned : virtualAddress % hugePageSize = 0#64) :
    (virtualAddress + hugePageSize) % hugePageSize = 0#64 := by
  have value := congrArg BitVec.toNat aligned
  apply BitVec.eq_of_toNat_eq
  rw [BitVec.toNat_umod, show hugePageSize.toNat = 2097152 from rfl, BitVec.toNat_ofNat] at value ⊢
  rw [BitVec.toNat_add, show hugePageSize.toNat = 2097152 from rfl]
  omega

theorem mapPages_again (pool : InitialPool paging.pageTableOffset) {count : ℕ} (state : LoopState)
    (aligned : size = hugePageSize → 0 < count → state.virtualAddress % hugePageSize = 0#64)
    (mapped : MappedAs paging state.memory.tables size flags count state.physicalAddress
      state.virtualAddress) :
    ∃ after, mapPages paging pool size flags count state = .ok after ∧
      after.memory = state.memory := by
  induction count generalizing state with
  | zero => exact ⟨state, rfl, rfl⟩
  | succ count ih =>
      have first : size = hugePageSize ∨
          paging.tree.leaf state.memory.tables (hugePath state.virtualAddress) = none →
          paging.tree.leaf state.memory.tables (pagePath size state.virtualAddress) =
            some (newValue state.physicalAddress (entryFlags size flags)) := by
        intro compared
        have here := mapped 0 (Nat.succ_pos count) (by
          intro earlier below
          rw [Nat.le_zero.mp below, pageAddress_zero]
          exact compared)
        rwa [rangeEntry, pageAddress_zero, pageAddress_zero] at here
      have alignedHere := fun isHuge => aligned isHuge (Nat.succ_pos count)
      rw [mapPages, mapPage_again alignedHere first]
      split_ifs with compared
      · apply ih _
        · intro isHuge _
          rw [stepSize, if_pos isHuge]
          exact huge_aligned_add (alignedHere isHuge)
        · intro number below uncovered
          have later := mapped (number + 1) (Nat.succ_lt_succ below)
            (uncovered_succ.mpr ⟨compared, uncovered⟩)
          rwa [rangeEntry, pageAddress_succ, pageAddress_succ] at later
      · apply ih _ fun isHuge _ => alignedHere isHuge
        intro number below uncovered
        have here := uncovered 0 (Nat.zero_le _)
        rw [pageAddress_zero] at here
        exact absurd here compared

/-- The entries that the call compares have not changed. -/
def Untouched (paging : Paging) (request : Request) (before after : Word64 → Index → Word64) :
    Prop :=
  ∀ number < request.numPages.toNat,
    Uncovered paging before request.size request.virtualAddress number →
      let path := pagePath request.size (pageAddress request.size request.virtualAddress number)
      paging.tree.leaf after path = paging.tree.leaf before path

/--
A call that has returned can be repeated, and then leaves every translation as it is, exactly if
the processor has set no bit in the entries of the pages that the call compares.
-/
theorem mapMemory_again_iff {memory memory' : TableMemory} {request : Request}
    {tables : Word64 → Index → Word64} (reachable : Reachable paging pool memory)
    (mapped : mapMemory paging pool memory request = .ok memory')
    (sets : SetsAccessBits memory'.tables tables) :
    (∃ again, mapMemory paging pool { memory' with tables } request = .ok again ∧
        ∀ address, (translate paging again.tables address).map Translation.withoutAccess =
          (translate paging memory'.tables address).map Translation.withoutAccess) ↔
      Untouched paging request memory'.tables tables := by
  have sound' := (reachable.map mapped).sound
  have soundTables : paging.tree.Sound pool { memory' with tables } := sets.sound sound'
  rcases mapMemory_cases mapped with ⟨physicalAligned, virtualAligned, state, pages, rfl⟩
  have mappedAs := mapPages_mapped reachable.sound pages
  constructor
  · rintro ⟨again, repeated, -⟩
    rcases mapMemory_cases repeated with ⟨_, _, stateAgain, pagesAgain, rfl⟩
    have mappedAgain := mapPages_mapped soundTables pagesAgain
    have keeps := (mapPages_frame soundTables pagesAgain).2.1
    have kept : ∀ path entry, paging.tree.leaf state.memory.tables path = some entry →
        ∃ bits, paging.tree.leaf tables path = some (entry ||| bits) ∧
          paging.tree.leaf stateAgain.memory.tables path = some (entry ||| bits) := by
      intro path entry found
      rcases sets.leaf paging path with ⟨vacant, -⟩ | ⟨old, bits, _, before, after⟩
      · rw [vacant] at found
        cases found
      · rw [before] at found
        cases found
        exact ⟨bits, after, keeps _ _ after⟩
    intro number below uncovered
    have here := mappedAs number below uncovered
    have uncoveredAgain : Uncovered paging stateAgain.memory.tables request.size
        request.virtualAddress number := by
      intro earlier earlierBelow
      by_cases isHuge : request.size = hugePageSize
      · exact Or.inl isHuge
      · right
        have small := mappedAs earlier (by omega) fun first firstBelow =>
          uncovered first (by omega)
        rw [pagePath, if_neg isHuge] at small
        rcases kept _ _ small with ⟨bits, -, keptSmall⟩
        exact PageTree.leaf_above rfl keptSmall
    have hereAgain := mappedAgain number below uncoveredAgain
    rcases kept _ _ here with ⟨bits, after, keptHere⟩
    exact after.trans (keptHere.symm.trans (hereAgain.trans here.symm))
  · intro untouched
    have aligned := (mapPages_frame reachable.sound pages).2.2.2
    have mappedAgain : MappedAs paging tables request.size request.flags request.numPages.toNat
        request.physicalAddress request.virtualAddress := by
      intro number below uncovered
      have uncoveredBefore : Uncovered paging state.memory.tables request.size
          request.virtualAddress number := by
        intro earlier earlierBelow
        exact (uncovered earlier earlierBelow).imp id (sets.leaf_eq_none_iff paging _).mp
      exact (untouched number below uncoveredBefore).trans (mappedAs number below uncoveredBefore)
    rcases mapPages_again pool
      ⟨{ state.memory with tables }, request.physicalAddress, request.virtualAddress⟩
      aligned mappedAgain with ⟨after, returned, same⟩
    refine ⟨after.memory, ?_, ?_⟩
    · simp only [mapMemory, if_neg (not_not.mpr physicalAligned),
        if_neg (not_not.mpr virtualAligned), returned]
      rfl
    · intro address
      rw [same]
      exact sets.translate (sound_noGiant sound') address

theorem mapMemory_again_onePage :
    (∃ again, mapMemory kernelPaging kernelPool
          { onePageTables with tables := onePageTables.tables } onePage = .ok again ∧
        ∀ address, (translate kernelPaging again.tables address).map Translation.withoutAccess =
          (translate kernelPaging onePageTables.tables address).map Translation.withoutAccess) ↔
      Untouched kernelPaging onePage onePageTables.tables onePageTables.tables :=
  mapMemory_again_iff reachable_emptyTables mapMemory_onePage fun _ _ => Or.inl rfl

/-- The same tables with the accessed bit in the entry of the page. -/
def accessedTables : Word64 → Index → Word64 :=
  let table := kernelPool.page ⟨3, by decide⟩
  TableTree.store onePageTables.tables table (index 1)
    (onePageTables.tables table (index 1) ||| pageAccessed)

/-- After the page has been read, mapping it again stops the kernel. -/
theorem mapMemory_again_clash :
    Reachable kernelPaging kernelPool emptyTables ∧
      mapMemory kernelPaging kernelPool emptyTables onePage = .ok onePageTables ∧
      SetsAccessBits onePageTables.tables accessedTables ∧
      mapMemory kernelPaging kernelPool { onePageTables with tables := accessedTables } onePage =
        .error "page table entry already exists" := by
  refine ⟨reachable_emptyTables, mapMemory_onePage, ?_, rfl⟩
  intro table position
  by_cases same : table = kernelPool.page ⟨3, by decide⟩ ∧ position = index 1
  · right
    rw [same.1, same.2]
    exact ⟨by decide, pageAccessed, by decide, TableTree.store_same _ _ _ _⟩
  · left
    exact if_neg same

end Dvnetos.PageTables.X86
