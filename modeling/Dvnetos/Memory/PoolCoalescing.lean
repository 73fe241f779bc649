import Dvnetos.Lib.RegionRuns
import Dvnetos.Memory.PoolSessions

/-!
# Freed blocks coalesce

`addFreeBlock` merges a block with all its neighbours in the free list, so that the
list never has two blocks of which one ends where the other starts. When no block is
in use the list has one block for each maximal run of the pages, in whatever order
the blocks were freed.
-/

namespace Dvnetos.MemPool

open Word Regions

theorem findFirst_sublist {size : ℕ} {list others : List MemBlock} {block : MemBlock}
    (found : findFirst size list = some (block, others)) : others.Sublist list := by
  induction list generalizing others with
  | nil => cases found
  | cons first rest ih =>
      rw [findFirst] at found
      split_ifs at found with large
      · cases found
        exact List.sublist_cons_self _ _
      · rcases Option.map_eq_some_iff.mp found with ⟨⟨later, left⟩, laterFound, same⟩
        cases same
        exact (ih laterFound).cons_cons first

theorem mergePass_kept_sublist (list : List MemBlock) (block : MemBlock) (sizeFree : ℕ)
    (merged : Bool) (index addAt : ℕ) :
    (mergePass list block sizeFree merged index addAt).kept.Sublist list := by
  induction list generalizing block sizeFree merged index addAt with
  | nil => exact List.Sublist.refl []
  | cons n rest ih =>
      rw [mergePass]
      cases mergeIfPossible n block with
      | some block' => exact (ih block' (sub64 sizeFree n.size) true index addAt).cons n
      | none => exact (ih _ _ _ _ _).cons_cons n

/-- What an operation on the pool has to do for a property of the free list to hold always. -/
structure FreeListProperty (property : List MemBlock → Prop) : Prop where
  nil : property []
  sublist : ∀ {list others : List MemBlock}, property list → others.Sublist list → property others
  addFreeBlock : ∀ (pool : Pool) (block : MemBlock),
    property pool.freeBlocks → property (addFreeBlock pool block).freeBlocks

namespace FreeListProperty

variable {property : List MemBlock → Prop}

theorem split (always : FreeListProperty property) (pool : Pool) (block : MemBlock) (size : ℕ)
    (holds : property pool.freeBlocks) : property (split pool block size).2.freeBlocks := by
  rw [MemPool.split]
  split_ifs
  · exact always.addFreeBlock _ _ holds
  · exact holds

theorem allocLoop (always : FreeListProperty property) (source : PageSource)
    (size iterations : ℕ) (pool : Pool) (log : List PageRequest)
    (holds : property pool.freeBlocks) :
    property (allocLoop source size iterations pool log).pool.freeBlocks := by
  induction iterations generalizing pool log with
  | zero => exact holds
  | succ iterations ih =>
      cases found : findExistingFreeBlock pool size with
      | some result =>
          rw [allocLoop_of_found iterations found]
          apply always.split
          rcases Option.map_eq_some_iff.mp found with ⟨⟨first, others⟩, firstFound, rfl⟩
          exact always.sublist holds (findFirst_sublist firstFound)
      | none =>
          cases reply : source.getPage log (pagesFor size) with
          | none =>
              rw [allocLoop_of_refused iterations found reply]
              exact holds
          | some page =>
              rw [allocLoop_of_page iterations found reply]
              apply ih
              exact always.addFreeBlock _ _ holds

theorem free (always : FreeListProperty property) (pool : Pool) (block : MemBlock)
    (holds : property pool.freeBlocks) : property (free pool block).freeBlocks := by
  rw [MemPool.free]
  split_ifs
  · exact always.addFreeBlock _ _ holds
  · exact holds

/-- The property holds in every reachable state. -/
theorem reachable (always : FreeListProperty property) {source : PageSource} {world : World}
    (reachable : Reachable source world) : property world.pool.freeBlocks := by
  induction reachable with
  | initial => exact always.nil
  | step _ step ih =>
      cases step with
      | alloc size sizeFits => exact always.allocLoop source size 2 _ _ ih
      | freeNull => exact ih
      | free inUse released => exact always.free _ _ ih
      | freeIgnored inUse ignored => exact always.free _ _ ih

end FreeListProperty

/-- No two blocks can be merged. -/
def NoNeighbours (blocks : List MemBlock) : Prop :=
  blocks.Pairwise fun first second => mergeIfPossible first second = none

theorem mergeIfPossible_eq_none_iff {first second : MemBlock} :
    mergeIfPossible first second = none ↔
      add64 (add64 first.addr first.size) memBlockHeaderSize ≠ second.addr ∧
        add64 (add64 second.addr second.size) memBlockHeaderSize ≠ first.addr := by
  rw [mergeIfPossible]
  split_ifs with firstEnds secondEnds
  · simp [firstEnds]
  · simp [secondEnds]
  · simp [firstEnds, secondEnds]

theorem mergeIfPossible_eq_none_comm {first second : MemBlock}
    (unmergeable : mergeIfPossible first second = none) : mergeIfPossible second first = none :=
  mergeIfPossible_eq_none_iff.mpr (mergeIfPossible_eq_none_iff.mp unmergeable).symm

theorem mergePass_merged {list : List MemBlock} {block : MemBlock} {sizeFree index addAt : ℕ} :
    (mergePass list block sizeFree true index addAt).merged = true := by
  induction list generalizing block sizeFree index addAt with
  | nil => rfl
  | cons n rest ih =>
      rw [mergePass]
      cases mergeIfPossible n block with
      | some block' => exact ih
      | none => exact ih

theorem apart_of_unmerged {n : MemBlock} {rest : List MemBlock} {block : MemBlock}
    {sizeFree index addAt : ℕ}
    (unmerged : (mergePass (n :: rest) block sizeFree false index addAt).merged = false) :
    mergeIfPossible n block = none := by
  cases possible : mergeIfPossible n block with
  | none => rfl
  | some block' =>
      simp only [mergePass, possible, mergePass_merged] at unmerged
      cases unmerged

/-- A pass that merges nothing has compared the block with the whole list. -/
theorem mergePass_unmerged {list : List MemBlock} {block : MemBlock}
    {sizeFree index addAt : ℕ}
    (unmerged : (mergePass list block sizeFree false index addAt).merged = false) :
    (mergePass list block sizeFree false index addAt).kept = list ∧
      (mergePass list block sizeFree false index addAt).block = block ∧
      ∀ n ∈ list, mergeIfPossible n block = none := by
  induction list generalizing index addAt with
  | nil => simp [mergePass]
  | cons n rest ih =>
      have possible := apart_of_unmerged unmerged
      simp only [mergePass, possible] at unmerged ⊢
      rcases ih unmerged with ⟨kept, same, apart⟩
      refine ⟨by rw [kept], same, ?_⟩
      simpa [possible] using apart

theorem noNeighbours_addFreeBlock (pool : Pool) (block : MemBlock)
    (noNeighbours : NoNeighbours pool.freeBlocks) :
    NoNeighbours (addFreeBlock pool block).freeBlocks := by
  induction pool, block using addFreeBlock.induct with
  | case1 pool block pass merged ih =>
      rw [addFreeBlock, dif_pos merged]
      apply ih
      exact noNeighbours.sublist (mergePass_kept_sublist _ _ _ _ _ _)
  | case2 pool block pass unmerged =>
      rw [addFreeBlock, dif_neg unmerged]
      rcases mergePass_unmerged (Bool.eq_false_iff.mpr unmerged) with ⟨kept, same, apart⟩
      have perm : (insert pool (addPass pool block)).freeBlocks.Perm
          (block :: pool.freeBlocks) := by
        refine List.perm_middle.trans ?_
        rw [List.take_append_drop, addPass, kept, same]
      apply (perm.pairwise_iff mergeIfPossible_eq_none_comm).mpr
      apply List.Pairwise.cons
      · intro n inList
        exact mergeIfPossible_eq_none_comm (apart n inList)
      · exact noNeighbours

theorem noNeighbours_always : FreeListProperty NoNeighbours where
  nil := List.Pairwise.nil
  sublist := fun holds sublist => holds.sublist sublist
  addFreeBlock := noNeighbours_addFreeBlock

section

variable {source : PageSource} {allowed : ℕ → Prop} {session : Session}

theorem run_noNeighbours (run : Run source allowed session) :
    NoNeighbours session.pool.freeBlocks := by
  induction run with
  | initial => exact List.Pairwise.nil
  | alloc run sizeFits isAllowed ih => exact noNeighbours_always.allocLoop _ _ _ _ _ ih
  | freeNull run ih => exact ih
  | free run isHeld ih => exact noNeighbours_always.free _ _ ih

/-- With no block in use, the free blocks are the maximal runs of the pages. -/
theorem freeBlocks_maximalRuns (run : Run source allowed session)
    (noneLive : session.world.live = []) (region : Region) :
    region ∈ regions session.pool.freeBlocks ↔ MaximalRun (pages session.log) region := by
  have represents := run_represents run
  have wellFormed := represents.wellFormed
  have blocksEq : session.world.blocks = session.pool.freeBlocks := by
    rw [World.blocks, noneLive]
    rfl
  have placed := represents.placed
  have disjoint := wellFormed.disjoint
  have cover := wellFormed.cover
  rw [List.nil_append] at placed
  rw [blocksEq] at placed disjoint cover
  have apart : (regions session.pool.freeBlocks).Pairwise Region.Apart := by
    apply List.pairwise_map.mpr
    have noNeighbours := run_noNeighbours run
    apply ((List.pairwise_map.mp disjoint).and noNeighbours).imp_of_mem
    rintro first second firstMem secondMem ⟨disjoint, unmergeable⟩
    rcases mergeIfPossible_eq_none_iff.mp unmergeable with ⟨before, behind⟩
    have firstFits := (placed first firstMem).fits
    have secondFits := (placed second secondMem).fits
    have firstPositive := (placed first firstMem).positive
    have secondPositive := (placed second secondMem).positive
    simp only [MemBlock.region, memBlockHeaderSize, add64] at *
    refine ⟨disjoint, ?_, ?_⟩
    · intro touches
      apply before
      simp only at touches
      omega
    · intro touches
      apply behind
      simp only at touches
      omega
  apply mem_iff_maximalRun _ apart
  · intro piece pieceMem
    rcases List.mem_map.mp pieceMem with ⟨block, _, rfl⟩
    exact Nat.succ_pos _
  · intro address
    refine Iff.trans ?_ (cover address)
    simp [Covered, regions]

theorem region_injective : Function.Injective MemBlock.region := by
  rintro ⟨firstAddr, firstSize⟩ ⟨secondAddr, secondSize⟩ same
  simp only [MemBlock.region, Region.mk.injEq, Nat.add_right_cancel_iff] at same
  rw [same.1, same.2]


/-- `free` of the data of one block after the other. -/
def freeAll (pool : Pool) (order : List Allocation) : Pool :=
  order.foldl (fun pool allocation => free pool allocation.block) pool

/-- Freeing all blocks that are held, in any order, ends a session. -/
theorem run_freeAll {order : List Allocation} (run : Run source allowed session)
    (perm : order.Perm session.held) :
    Run source allowed
      { session with
        pool := freeAll session.pool order
        held := []
        freed := order.reverse ++ session.freed } := by
  induction order generalizing session with
  | nil =>
      rcases session with ⟨pool, log, held, freed, allocs⟩
      have noneHeld : held = [] := perm.nil_eq.symm
      subst noneHeld
      exact run
  | cons allocation rest ih =>
      have isHeld : allocation ∈ session.held := perm.subset (List.mem_cons_self ..)
      rcases List.append_of_mem isHeld with ⟨before, after, heldEq⟩
      rw [heldEq] at perm
      have restPerm : rest.Perm (before ++ after) := (perm.trans List.perm_middle).cons_inv
      have freed := ih (run.free heldEq) restPerm
      rw [List.reverse_cons, List.append_assoc]
      exact freed

theorem free_allocCount (pool : Pool) (block : MemBlock) :
    (MemPool.free pool block).allocCount = pool.allocCount := by
  rw [MemPool.free]
  split_ifs
  · exact addFreeBlock_allocCount _ _
  · rfl

theorem freeAll_allocCount (order : List Allocation) (pool : Pool) :
    (freeAll pool order).allocCount = pool.allocCount := by
  induction order generalizing pool with
  | nil => rfl
  | cons allocation rest ih =>
      rw [freeAll, List.foldl_cons, ← freeAll, ih, free_allocCount]

theorem run_requested {least : ℕ} (run : Run source (least ≤ ·) session) :
    ∀ allocation ∈ session.held, least ≤ allocation.requested := by
  induction run with
  | initial => simp [Session.initial]
  | @alloc session size run sizeFits isAllowed ih =>
      intro allocation allocationMem
      rcases List.mem_append.mp allocationMem with given | older
      · rcases Option.map_eq_some_iff.mp (Option.mem_toList.mp given) with ⟨block, _, rfl⟩
        exact isAllowed
      · exact ih allocation older
  | freeNull run ih => exact ih
  | @free session before after allocation run isHeld ih =>
      intro other otherMem
      apply ih
      rw [isHeld]
      simp only [Session.free, List.mem_append, List.mem_cons] at otherMem ⊢
      tauto

/-- No block that is at least as long as a header is left alone by `free`. -/
theorem run_ignored (run : Run source (memBlockHeaderSize ≤ ·) session) :
    session.ignored = [] := by
  induction run with
  | initial => rfl
  | alloc run sizeFits isAllowed ih => exact ih
  | freeNull run ih => exact ih
  | @free session before after allocation run isHeld ih =>
      have heldMem : allocation ∈ session.held := by simp [isHeld]
      have requested := run_requested run allocation heldMem
      have fits := (run_represents run).requested allocation (List.mem_append_left _ heldMem)
      rw [Session.ignored_free_of_released (Nat.not_lt.mpr (Nat.le_trans requested fits)), ih]

theorem noneLive_of_run (run : Run source (memBlockHeaderSize ≤ ·) session)
    (noneHeld : session.held = []) : session.world.live = [] := by
  rw [Session.world, noneHeld, run_ignored run]
  rfl

/-- The free list is one block for each maximal run of the pages. -/
structure Coalesced (log : List PageRequest) (pool : Pool) : Prop where
  nodup : pool.freeBlocks.Nodup
  runs : ∀ run, MaximalRun (pages log) run ↔
    ∃ block ∈ pool.freeBlocks,
      block.addr = run.start ∧ block.size + memBlockHeaderSize = run.bytes
  usedSize : pool.sizeInUse = 0
  freeSize : pool.sizeFree = totalSize pool.freeBlocks

theorem coalesced_of_run (run : Run source (memBlockHeaderSize ≤ ·) session)
    (noneHeld : session.held = []) : Coalesced session.log session.pool := by
  have wellFormed := (run_represents run).wellFormed
  have noneLive := noneLive_of_run run noneHeld
  refine ⟨?_, ?_, ?_, wellFormed.sizeFree⟩
  · have disjoint := wellFormed.disjoint
    rw [World.blocks, noneLive] at disjoint
    apply (List.pairwise_map.mp disjoint).imp
    rintro first _ apart rfl
    have header : first.region.Contains first.addr := by
      simp [Region.Contains, MemBlock.region, memBlockHeaderSize]
    exact apart _ header header
  · intro region
    rw [← freeBlocks_maximalRuns run noneLive, regions, List.mem_map]
    cases region
    simp only [MemBlock.region, Region.mk.injEq]
  · have counted := wellFormed.sizeInUse
    rw [noneLive] at counted
    exact counted

/--
If all requests are of at least eight bytes and the blocks in use are then freed in any order, the
free list has one block for each maximal run of the pages, and neither its blocks nor the counters
depend on the order.
-/
theorem freeAll_coalesces (run : Run source (memBlockHeaderSize ≤ ·) session)
    {order : List Allocation} (perm : order.Perm session.held) :
    Coalesced session.log (freeAll session.pool order) ∧
      ∀ other, other.Perm session.held →
        (freeAll session.pool other).freeBlocks.Perm (freeAll session.pool order).freeBlocks ∧
        (freeAll session.pool other).sizeInUse = (freeAll session.pool order).sizeInUse ∧
        (freeAll session.pool other).sizeFree = (freeAll session.pool order).sizeFree ∧
        (freeAll session.pool other).allocCount = (freeAll session.pool order).allocCount ∧
        (freeAll session.pool other).freeCount = (freeAll session.pool order).freeCount := by
  have coalesced := coalesced_of_run (run_freeAll run perm) rfl
  refine ⟨coalesced, ?_⟩
  intro other otherPerm
  have otherRun := run_freeAll run otherPerm
  have otherCoalesced := coalesced_of_run otherRun rfl
  have samePerm : (freeAll session.pool other).freeBlocks.Perm
      (freeAll session.pool order).freeBlocks := by
    apply (List.perm_ext_iff_of_nodup otherCoalesced.nodup coalesced.nodup).mpr
    intro block
    have sameRegions := fun region =>
      (freeBlocks_maximalRuns otherRun (noneLive_of_run otherRun rfl) region).trans
        (freeBlocks_maximalRuns (run_freeAll run perm)
          (noneLive_of_run (run_freeAll run perm) rfl) region).symm
    simpa only [regions, List.mem_map_of_injective region_injective] using
      sameRegions block.region
  refine ⟨samePerm, ?_, ?_, ?_, ?_⟩
  · rw [otherCoalesced.usedSize, coalesced.usedSize]
  · rw [otherCoalesced.freeSize, coalesced.freeSize, totalSize_perm samePerm]
  · rw [freeAll_allocCount, freeAll_allocCount]
  · have counted := run_freeCount (run_freeAll run perm)
    have otherCounted := run_freeCount otherRun
    simp only at counted otherCounted
    rw [counted, otherCounted]
    congr 1
    apply List.Perm.countP_eq
    apply List.Perm.append_right
    exact (List.reverse_perm other).trans
      ((otherPerm.trans perm.symm).trans (List.reverse_perm order).symm)

end

/-- Two blocks of one page. -/
def twoBlocks : Session :=
  (Session.initial.alloc consecutivePages 10).alloc consecutivePages 20

theorem freeAll_coalesces_twoBlocks :
    Coalesced twoBlocks.log (freeAll twoBlocks.pool twoBlocks.held.reverse) ∧
      (freeAll twoBlocks.pool twoBlocks.held).freeBlocks.Perm
        (freeAll twoBlocks.pool twoBlocks.held.reverse).freeBlocks := by
  have run : Run consecutivePages (memBlockHeaderSize ≤ ·) twoBlocks :=
    .alloc (.alloc .initial (by decide) (by decide)) (by decide) (by decide)
  have both := freeAll_coalesces run (List.reverse_perm _)
  exact ⟨both.1, (both.2 _ (List.Perm.refl _)).1⟩

end Dvnetos.MemPool
