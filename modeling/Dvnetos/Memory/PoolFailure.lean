import Dvnetos.Memory.PoolInvariant

/-!
# When `alloc` fails

`alloc` asks for enough pages for the block and its header, so that the second search
succeeds if the pages were granted: a request that fails has changed nothing. The
number of pages is computed with wrap-around, though. A request of 2^64 - 8 bytes or
more asks for one page, adds it to the pool, and does so again before it gives up.
-/

namespace Dvnetos.MemPool

open Word Regions

theorem mergeIfPossible_grows {b1 b2 merged : MemBlock} (firstPlaced : b1.Placed)
    (secondPlaced : b2.Placed) (possible : mergeIfPossible b1 b2 = some merged) :
    b2.size ≤ merged.size := by
  unfold mergeIfPossible at possible
  split_ifs at possible with b1First b2First
  · rcases neighbours_eq firstPlaced secondPlaced b1First with ⟨-, size⟩
    rw [← Option.some.inj possible, size]
    exact (Nat.le_add_right _ 8).trans (Nat.le_add_left _ _)
  · rcases neighbours_eq secondPlaced firstPlaced b2First with ⟨-, size⟩
    rw [← Option.some.inj possible, size]
    exact Nat.le_add_right _ _

/-- The block that a pass carries along only grows. -/
theorem mergePass_grows (list : List MemBlock) (block : MemBlock) (sizeFree : ℕ) (merged : Bool)
    (index addAt : ℕ) (placed : ∀ other ∈ block :: list, other.Placed) :
    block.size ≤ (mergePass list block sizeFree merged index addAt).block.size := by
  induction list generalizing block sizeFree merged index addAt with
  | nil => exact Nat.le_refl _
  | cons n rest ih =>
      have blockPlaced := placed block (by simp)
      have nPlaced := placed n (by simp)
      rw [mergePass]
      cases possible : mergeIfPossible n block with
      | some block' =>
          have joined := (retiles_mergeIfPossible possible) (by simp [blockPlaced, nPlaced])
          have later := ih block' (sub64 sizeFree n.size) true index addAt (by
            intro other mem
            rcases List.mem_cons.mp mem with rfl | inRest
            · exact joined.1 _ (List.mem_singleton_self _)
            · exact placed other (by simp [inRest]))
          exact (mergeIfPossible_grows nPlaced blockPlaced possible).trans later
      | none =>
          apply ih
          intro other mem
          rcases List.mem_cons.mp mem with rfl | inRest
          · exact blockPlaced
          · exact placed other (by simp [inRest])

/-- The free list has a block at least as large as the one that was added. -/
theorem exists_le_of_addFreeBlock (pool : Pool) (block : MemBlock)
    (placed : ∀ other ∈ block :: pool.freeBlocks, other.Placed) :
    ∃ other ∈ (addFreeBlock pool block).freeBlocks, block.size ≤ other.size := by
  induction pool, block using addFreeBlock.induct with
  | case1 pool block pass merged ih =>
      rw [addFreeBlock, dif_pos merged]
      rcases ih ((retiles_addPass pool block) placed).1 with ⟨other, mem, le⟩
      exact ⟨other, mem, (mergePass_grows _ _ _ _ _ _ placed).trans le⟩
  | case2 pool block pass unmerged =>
      rw [addFreeBlock, dif_neg unmerged]
      refine ⟨(addPass pool block).block, by simp [insert], ?_⟩
      exact mergePass_grows _ _ _ _ _ _ placed

theorem findFirst_isSome {size : ℕ} {list : List MemBlock} {block : MemBlock}
    (mem : block ∈ list) (large : size ≤ block.size) : (findFirst size list).isSome = true := by
  induction list with
  | nil => cases mem
  | cons first rest ih =>
      rw [findFirst]
      split_ifs with firstLarge
      · rfl
      · rcases List.mem_cons.mp mem with rfl | inRest
        · exact absurd large firstLarge
        · simpa using ih inRest

theorem findExistingFreeBlock_isSome {pool : Pool} {size : ℕ} {block : MemBlock}
    (mem : block ∈ pool.freeBlocks) (large : size ≤ block.size) :
    (findExistingFreeBlock pool size).isSome = true := by
  simpa [findExistingFreeBlock] using findFirst_isSome mem large

/-- The pages for a size that does not wrap hold a block of that size. -/
theorem size_le_pageBlock {source : PageSource} {log : List PageRequest} {size page : ℕ}
    (fits : size + 8 < 2 ^ 64) (granted : source.getPage log (pagesFor size) = some page) :
    size ≤ (pageBlock page (pagesFor size)).size := by
  rcases source.placed granted with ⟨positive, inSpace⟩
  have header : add64 size 8 = size + 8 := add64_of_lt fits
  have count : pagesFor size = (size + 8) / 4096 + 1 := by
    rw [pagesFor, memBlockHeaderSize, header, pageSize, add64_of_lt (by omega)]
  simp only [count, pageSize] at inSpace positive
  simp only [pageBlock, count, memBlockHeaderSize, pageSize]
  rw [mul64_of_lt (by omega), sub64_of_le (by omega) (by omega)]
  omega

/-- What a call of `alloc` that returns null is to have done: nothing but ask for pages in vain. -/
def FailsCleanly (world : World) (result : Alloc) : Prop :=
  (∃ made, result.log = world.log ++ made ∧ ∃ request ∈ made, request.reply = none) ∧
    result.pool = world.pool

theorem alloc_of_refused {source : PageSource} {size : ℕ} {world : World}
    (missing : findExistingFreeBlock world.pool size = none)
    (refused : source.getPage world.log (pagesFor size) = none) :
    FailsCleanly world (alloc source size world.pool world.log) := by
  rw [alloc, allocLoop_of_refused 1 missing refused]
  exact ⟨⟨_, rfl, _, List.mem_singleton_self _, rfl⟩, rfl⟩

/-- With the pages for a size that does not wrap, the second search succeeds. -/
theorem alloc_of_granted {source : PageSource} {size page : ℕ} {world : World}
    (represents : Represents [] world) (fits : size + 8 < 2 ^ 64)
    (missing : findExistingFreeBlock world.pool size = none)
    (granted : source.getPage world.log (pagesFor size) = some page) :
    (alloc source size world.pool world.log).block ≠ none := by
  have placed := (represents.page pagesFor_pos granted).placed
  obtain ⟨other, mem, le⟩ :=
    exists_le_of_addFreeBlock world.pool (pageBlock page (pagesFor size)) (by
    intro block inList
    apply placed
    rcases List.mem_cons.mp inList with rfl | isFree
    · simp
    · simp [World.blocks, isFree])
  have large := (size_le_pageBlock fits granted).trans le
  obtain ⟨⟨block, left⟩, found⟩ :=
    Option.isSome_iff_exists.mp (findExistingFreeBlock_isSome mem large)
  rw [alloc, allocLoop_of_page 1 missing granted, allocLoop_of_found 0 found]
  exact Option.some_ne_none _

/-- No block has 2^64 - 8 bytes. -/
theorem missing_of_overflow {world : World} (represents : Represents [] world) {size : ℕ}
    (overflows : 2 ^ 64 ≤ size + 8) : findExistingFreeBlock world.pool size = none := by
  cases found : findExistingFreeBlock world.pool size with
  | none => rfl
  | some result =>
      rcases result with ⟨block, left⟩
      rcases (represents.findExistingFreeBlock found).split_fits with ⟨positive, fits, large, -, -⟩
      omega

theorem addFreeBlock_ne {pool : Pool} {block : MemBlock}
    (placed : ∀ other ∈ block :: pool.freeBlocks, other.Placed) :
    addFreeBlock pool block ≠ pool := by
  intro same
  rcases retiles_addFreeBlock pool block placed with ⟨-, covers⟩
  have atBlock := covers block.addr
  have header : block.region.Contains block.addr := by
    simp [Region.Contains, MemBlock.region, memBlockHeaderSize]
  rw [same, regions_cons, coverage_cons, if_pos header] at atBlock
  omega

/-- A request whose size wraps around fails with a page added to the pool. -/
theorem alloc_of_overflow {source : PageSource} {size page : ℕ} {world : World}
    (represents : Represents [] world) (overflows : 2 ^ 64 ≤ size + 8)
    (granted : source.getPage world.log (pagesFor size) = some page) :
    (alloc source size world.pool world.log).block = none ∧
      ¬FailsCleanly world (alloc source size world.pool world.log) := by
  have missing := missing_of_overflow represents overflows
  have withPage := represents.page pagesFor_pos granted
  have missingNow := missing_of_overflow withPage.addFreeBlock overflows
  have changed : addFreeBlock world.pool (pageBlock page (pagesFor size)) ≠ world.pool := by
    apply addFreeBlock_ne
    intro block inList
    apply withPage.placed
    rcases List.mem_cons.mp inList with rfl | isFree
    · simp
    · simp [World.blocks, isFree]
  rw [alloc, allocLoop_of_page 1 missing granted]
  cases reply : source.getPage (world.log ++ [{ count := pagesFor size, reply := some page }])
      (pagesFor size) with
  | none =>
      rw [allocLoop_of_refused 0 missingNow reply]
      exact ⟨rfl, fun clean => changed clean.2⟩
  | some second =>
      rw [allocLoop_of_page 0 missingNow reply]
      refine ⟨rfl, ?_⟩
      rintro ⟨⟨made, log, request, mem, refused⟩, -⟩
      simp only [allocLoop, List.append_assoc, List.append_cancel_left_eq] at log
      rw [← log] at mem
      simp only [List.cons_append, List.nil_append, List.mem_cons, List.not_mem_nil,
        or_false] at mem
      rcases mem with rfl | rfl
      · cases refused
      · cases refused

/--
A failing `alloc(size)` was refused pages and leaves the pool as it was exactly if
the size and the header do not wrap around, or the first request for pages is refused.
-/
theorem alloc_failsCleanly_iff {source : PageSource} {world : World}
    (reachable : Reachable source world) (size : ℕ) :
    ((alloc source size world.pool world.log).block = none →
        FailsCleanly world (alloc source size world.pool world.log)) ↔
      size + memBlockHeaderSize < 2 ^ 64 ∨ source.getPage world.log (pagesFor size) = none := by
  have represents := reachable_represents reachable
  constructor
  · intro clean
    by_contra neither
    rcases not_or.mp neither with ⟨overflows, granted⟩
    rcases Option.ne_none_iff_exists'.mp granted with ⟨page, granted⟩
    rcases alloc_of_overflow represents (Nat.le_of_not_lt overflows) granted with ⟨null, changed⟩
    exact changed (clean null)
  · intro condition null
    cases found : findExistingFreeBlock world.pool size with
    | some result =>
        rw [alloc, allocLoop_of_found 1 found] at null
        cases null
    | none =>
        cases reply : source.getPage world.log (pagesFor size) with
        | none => exact alloc_of_refused found reply
        | some page =>
            rcases condition with fits | refused
            · exact absurd null (alloc_of_granted represents fits found reply)
            · rw [refused] at reply
              cases reply

end Dvnetos.MemPool
