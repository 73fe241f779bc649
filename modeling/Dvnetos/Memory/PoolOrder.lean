import Dvnetos.Memory.PoolCoalescing

/-!
# The free list is sorted, and `alloc` is best fit

`addFreeBlock` looks for the place of the new block only in the pass that merges
nothing, when it knows the final size of the block: behind the last block that is
not larger. This keeps the free list in ascending order of size, so that the first
block that is large enough, which `findExistingFreeBlock` takes, is a smallest one.
-/

namespace Dvnetos.MemPool

open Word Regions

/-- The blocks are in ascending order of size. -/
def SortedBySize (blocks : List MemBlock) : Prop :=
  blocks.Pairwise fun first second => first.size ≤ second.size

/-- In a sorted list that starts with a larger block, all blocks are larger. -/
theorem SortedBySize.all_larger {n : MemBlock} {rest : List MemBlock}
    (sorted : SortedBySize (n :: rest)) {size : ℕ} (larger : ¬n.size ≤ size) :
    ∀ other ∈ n :: rest, size < other.size := by
  rcases List.pairwise_cons.mp sorted with ⟨smallest, -⟩
  intro other mem
  rcases List.mem_cons.mp mem with rfl | inRest
  · exact Nat.lt_of_not_le larger
  · exact Nat.lt_of_lt_of_le (Nat.lt_of_not_le larger) (smallest other inRest)

theorem SortedBySize.countP_eq_zero {n : MemBlock} {rest : List MemBlock}
    (sorted : SortedBySize (n :: rest)) {size : ℕ} (larger : ¬n.size ≤ size) :
    (n :: rest).countP (·.size ≤ size) = 0 := by
  apply List.countP_eq_zero.mpr
  intro other mem
  simpa using sorted.all_larger larger other mem

/-- A pass that merges nothing counts the blocks that are not larger than the new one. -/
theorem mergePass_addAt {list : List MemBlock} {block : MemBlock} {sizeFree index addAt : ℕ}
    (sorted : SortedBySize list)
    (unmerged : (mergePass list block sizeFree false index addAt).merged = false) :
    (mergePass list block sizeFree false index addAt).addAt =
      if list.countP (·.size ≤ block.size) = 0 then addAt
      else index + list.countP (·.size ≤ block.size) := by
  induction list generalizing index addAt with
  | nil => rfl
  | cons n rest ih =>
      have sortedRest := sorted.tail
      have possible := apart_of_unmerged unmerged
      simp only [mergePass, possible] at unmerged ⊢
      rw [ih sortedRest unmerged]
      by_cases small : n.size ≤ block.size
      · simp only [small, List.countP_cons, decide_true, Bool.not_false, Bool.and_self, if_true,
          Nat.succ_ne_zero, if_false]
        split <;> omega
      · have none := sorted.countP_eq_zero small
        rw [none]
        rw [List.countP_cons] at none
        simp [small, Nat.eq_zero_of_add_eq_zero_right none]

/-- A block behind all that are not larger leaves a sorted list sorted. -/
theorem SortedBySize.insert {list : List MemBlock} (sorted : SortedBySize list) (block : MemBlock) :
    SortedBySize (list.take (list.countP (·.size ≤ block.size)) ++
      block :: list.drop (list.countP (·.size ≤ block.size))) := by
  induction list with
  | nil => exact List.pairwise_singleton _ _
  | cons n rest ih =>
      rcases List.pairwise_cons.mp sorted with ⟨smallest, sortedRest⟩
      by_cases small : n.size ≤ block.size
      · have count : (n :: rest).countP (·.size ≤ block.size) =
            rest.countP (·.size ≤ block.size) + 1 := by
          simp [small]
        rw [count, List.take_succ_cons, List.drop_succ_cons, List.cons_append]
        apply List.Pairwise.cons
        · intro other mem
          have either : other ∈ block :: rest := by
            have perm := @List.perm_middle _ block (rest.take (rest.countP (·.size ≤ block.size)))
              (rest.drop (rest.countP (·.size ≤ block.size)))
            rw [List.take_append_drop] at perm
            exact perm.subset mem
          rcases List.mem_cons.mp either with rfl | inRest
          · exact small
          · exact smallest other inRest
        · exact ih sortedRest
      · rw [sorted.countP_eq_zero small, List.take_zero, List.drop_zero, List.nil_append]
        apply List.Pairwise.cons
        · intro other mem
          exact Nat.le_of_lt (sorted.all_larger small other mem)
        · exact sorted

theorem sorted_addFreeBlock (pool : Pool) (block : MemBlock)
    (sorted : SortedBySize pool.freeBlocks) :
    SortedBySize (addFreeBlock pool block).freeBlocks := by
  induction pool, block using addFreeBlock.induct with
  | case1 pool block pass merged ih =>
      rw [addFreeBlock, dif_pos merged]
      apply ih
      exact sorted.sublist (mergePass_kept_sublist _ _ _ _ _ _)
  | case2 pool block pass unmerged =>
      rw [addFreeBlock, dif_neg unmerged]
      have noMerge := Bool.eq_false_iff.mpr unmerged
      rcases mergePass_unmerged noMerge with ⟨kept, same, -⟩
      have place := mergePass_addAt sorted noMerge
      have addAt : (addPass pool block).addAt =
          pool.freeBlocks.countP (·.size ≤ block.size) := by
        rw [addPass, place]
        split <;> omega
      rw [MemPool.insert, addAt, addPass, kept, same]
      exact sorted.insert block

theorem sortedBySize_always : FreeListProperty SortedBySize where
  nil := List.Pairwise.nil
  sublist := fun sorted sublist => sorted.sublist sublist
  addFreeBlock := sorted_addFreeBlock

/-- `addFreeBlock` with a bound on the number of passes. -/
def addFreeBlockWithin : ℕ → Pool → MemBlock → Option Pool
  | 0, _, _ => none
  | passes + 1, pool, block =>
      let pass := addPass pool block
      if pass.merged = true then
        addFreeBlockWithin passes { pool with freeBlocks := pass.kept, sizeFree := pass.sizeFree }
          pass.block
      else some (insert pool pass)

/-- Every pass but the last shortens the list, so one pass for each block and one more are
enough. -/
theorem addFreeBlock_terminates (pool : Pool) (block : MemBlock) {passes : ℕ}
    (enough : pool.freeBlocks.length < passes) :
    addFreeBlockWithin passes pool block = some (addFreeBlock pool block) := by
  induction passes generalizing pool block with
  | zero => cases enough
  | succ passes ih =>
      by_cases merged : (addPass pool block).merged = true
      · have shorter := (mergePass_kept_length pool.freeBlocks block pool.sizeFree false 0 0).2 rfl
          merged
        rw [addFreeBlock, dif_pos merged]
        simp only [addFreeBlockWithin, merged, if_true]
        apply ih
        exact Nat.lt_of_lt_of_le shorter (Nat.le_of_lt_succ enough)
      · rw [addFreeBlock, dif_neg merged]
        simp [addFreeBlockWithin, merged]

/-- The first block of a sorted list that is large enough is a smallest one. -/
theorem findFirst_smallest {size : ℕ} {list others : List MemBlock} {block : MemBlock}
    (sorted : SortedBySize list) (found : findFirst size list = some (block, others)) :
    ∀ other ∈ list, size ≤ other.size → block.size ≤ other.size := by
  induction list generalizing others with
  | nil => cases found
  | cons first rest ih =>
      rw [findFirst] at found
      split_ifs at found with large
      · cases found
        intro other mem _
        rcases List.mem_cons.mp mem with rfl | inRest
        · exact Nat.le_refl _
        · exact (List.pairwise_cons.mp sorted).1 other inRest
      · rcases Option.map_eq_some_iff.mp found with ⟨⟨later, left⟩, laterFound, same⟩
        cases same
        intro other mem fits
        rcases List.mem_cons.mp mem with rfl | inRest
        · exact absurd fits large
        · exact ih sorted.tail laterFound other inRest fits

/-- What a successful `alloc(size)` takes from the free list and returns. -/
structure TakesBestFit (size : ℕ) (present : Pool) (block : MemBlock) : Prop where
  smallest : ∃ found left, findExistingFreeBlock present size = some (found, left) ∧
    present.freeBlocks.Perm (found :: left.freeBlocks) ∧ size ≤ found.size ∧
    (∀ other ∈ present.freeBlocks, size ≤ other.size → found.size ≤ other.size) ∧
    block.addr = found.addr
  least : size ≤ block.size
  most : block.size ≤ size + memBlockHeaderSize

theorem takesBestFit_of_found {size : ℕ} {pool left : Pool} {block : MemBlock}
    {live : List Allocation} {log : List PageRequest}
    (represents : Represents [] { pool, live, log })
    (sorted : SortedBySize pool.freeBlocks)
    (found : findExistingFreeBlock pool size = some (block, left)) :
    TakesBestFit size pool (split left block size).1 := by
  obtain ⟨positive, fits, large, inUse, inUseFits⟩ :=
    (represents.findExistingFreeBlock found).split_fits
  rcases Option.map_eq_some_iff.mp found with ⟨⟨first, others⟩, firstFound, same⟩
  rcases Prod.mk.inj same with ⟨rfl, rfl⟩
  rcases findFirst_eq_some firstFound with ⟨-, perm⟩
  have smallest := findFirst_smallest sorted firstFound
  by_cases larger : size + 8 < first.size
  · rw [split_of_lt fits larger inUse inUseFits]
    exact ⟨⟨first, _, found, perm, large, smallest, rfl⟩, Nat.le_refl _, Nat.le_add_right _ _⟩
  · rw [split_of_not_lt (by omega) larger]
    exact ⟨⟨first, _, found, perm, large, smallest, rfl⟩, large, Nat.le_of_not_lt larger⟩

/-- The pool in which `alloc(size)` finds a block: as it is, or with the pages it has fetched. -/
def SearchedBy (source : PageSource) (size : ℕ) (world : World) (present : Pool) : Prop :=
  present = world.pool ∨
    findExistingFreeBlock world.pool size = none ∧
      ∃ page, source.getPage world.log (pagesFor size) = some page ∧
        present = addFreeBlock world.pool (pageBlock page (pagesFor size))

/-- A successful `alloc` takes a smallest block that is large enough. -/
theorem alloc_takesBestFit {source : PageSource} {size : ℕ} {world : World} {block : MemBlock}
    (represents : Represents [] world) (sorted : SortedBySize world.pool.freeBlocks)
    (returned : (alloc source size world.pool world.log).block = some block) :
    ∃ present, SearchedBy source size world present ∧ TakesBestFit size present block := by
  rcases world with ⟨pool, live, log⟩
  unfold alloc at returned
  cases found : findExistingFreeBlock pool size with
  | some result =>
      rcases result with ⟨first, left⟩
      rw [allocLoop_of_found 1 found] at returned
      rcases Option.some.inj returned with rfl
      exact ⟨pool, Or.inl rfl, takesBestFit_of_found represents sorted found⟩
  | none =>
      cases reply : source.getPage log (pagesFor size) with
      | none =>
          rw [allocLoop_of_refused 1 found reply] at returned
          cases returned
      | some page =>
          have added := (represents.page pagesFor_pos reply).addFreeBlock
          have sortedAdded := sorted_addFreeBlock _ (pageBlock page (pagesFor size)) sorted
          rw [allocLoop_of_page 1 found reply] at returned
          generalize poolEq : addFreeBlock pool (pageBlock page (pagesFor size)) = present
            at returned sortedAdded
          simp only [poolEq] at added
          refine ⟨present, Or.inr ⟨found, page, reply, poolEq.symm⟩, ?_⟩
          cases foundNow : findExistingFreeBlock present size with
          | some result =>
              rcases result with ⟨first, left⟩
              rw [allocLoop_of_found 0 foundNow] at returned
              rcases Option.some.inj returned with rfl
              exact takesBestFit_of_found added sortedAdded foundNow
          | none =>
              cases replyNow : source.getPage
                  (log ++ [{ count := pagesFor size, reply := some page }]) (pagesFor size) with
              | none =>
                  rw [allocLoop_of_refused 0 foundNow replyNow] at returned
                  cases returned
              | some page =>
                  rw [allocLoop_of_page 0 foundNow replyNow] at returned
                  cases returned

/-- The second block starts where the first one ends. -/
def Adjacent (first second : MemBlock) : Prop :=
  first.addr + (first.size + memBlockHeaderSize) = second.addr

theorem not_adjacent_of_unmergeable {first second : MemBlock} (placed : second.Placed)
    (unmergeable : mergeIfPossible first second = none) : ¬Adjacent first second := by
  intro adjacent
  rcases mergeIfPossible_eq_none_iff.mp unmergeable with ⟨apart, -⟩
  have fits := placed.fits
  simp only [Adjacent, MemBlock.region, memBlockHeaderSize] at adjacent fits
  apply apart
  simp only [add64, memBlockHeaderSize]
  omega

/--
In every reachable state the free list is in ascending order of size and has no
two adjacent blocks, `addFreeBlock` terminates, and a successful `alloc(size)`
takes a smallest block of at least that size and returns one that is at most a
header longer than asked for.
-/
theorem reachable_bestFit {source : PageSource} {world : World}
    (reachable : Reachable source world) :
    SortedBySize world.pool.freeBlocks ∧
      (world.pool.freeBlocks.Pairwise fun first second =>
        ¬Adjacent first second ∧ ¬Adjacent second first) ∧
      (∀ block, ∃ passes,
        addFreeBlockWithin passes world.pool block = some (addFreeBlock world.pool block)) ∧
      ∀ size < 2 ^ 64, ∀ block, (alloc source size world.pool world.log).block = some block →
        ∃ present, SearchedBy source size world present ∧ TakesBestFit size present block := by
  have represents := reachable_represents reachable
  have sorted := sortedBySize_always.reachable reachable
  refine ⟨sorted, ?_, ?_, ?_⟩
  · have placed : ∀ block ∈ world.pool.freeBlocks, block.Placed := by
      intro block mem
      exact represents.placed block (by simp [World.blocks, mem])
    apply (noNeighbours_always.reachable reachable).imp_of_mem
    intro first second firstMem secondMem unmergeable
    exact ⟨not_adjacent_of_unmergeable (placed second secondMem) unmergeable,
      not_adjacent_of_unmergeable (placed first firstMem)
        (mergeIfPossible_eq_none_comm unmergeable)⟩
  · intro block
    exact ⟨_, addFreeBlock_terminates world.pool block (Nat.lt_succ_self _)⟩
  · intro size _ block returned
    exact alloc_takesBestFit represents sorted returned

theorem reachable_bestFit_mergedPages :
    SortedBySize mergedPages.pool.freeBlocks ∧
      (mergedPages.pool.freeBlocks.Pairwise fun first second =>
        ¬Adjacent first second ∧ ¬Adjacent second first) ∧
      (∀ block, ∃ passes, addFreeBlockWithin passes mergedPages.pool block =
        some (addFreeBlock mergedPages.pool block)) ∧
      ∀ size < 2 ^ 64, ∀ block,
        (alloc consecutivePages size mergedPages.pool mergedPages.log).block = some block →
        ∃ present,
          SearchedBy consecutivePages size mergedPages present ∧ TakesBestFit size present block :=
  reachable_bestFit reachable_mergedPages

end Dvnetos.MemPool
