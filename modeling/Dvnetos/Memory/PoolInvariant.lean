import Dvnetos.Memory.MemPool

/-!
# The invariant of the memory pool

The blocks of the pool, in use and free, are always a tiling of the pages that
`getPage` has handed out. Every operation only joins neighbours, cuts a block in
two, or moves a block between the two sides; such steps keep the coverage of the
address space. The counters are the sums of the sizes on either side, and no
sum can overflow, since disjoint blocks are together shorter than the address
space.
-/

namespace Dvnetos.MemPool

open Word Regions

/-- The block does not wrap and is not at address zero. -/
abbrev MemBlock.Placed (block : MemBlock) : Prop := block.region.Placed (2 ^ 64)

/-- The blocks with their headers. -/
def regions (blocks : List MemBlock) : List Region := blocks.map MemBlock.region

/-- The sum of the recorded sizes. -/
def totalSize (blocks : List MemBlock) : ℕ := (blocks.map MemBlock.size).sum

@[simp]
theorem regions_append (first second : List MemBlock) :
    regions (first ++ second) = regions first ++ regions second :=
  List.map_append

@[simp]
theorem regions_cons (block : MemBlock) (blocks : List MemBlock) :
    regions (block :: blocks) = block.region :: regions blocks := rfl

@[simp]
theorem totalSize_nil : totalSize [] = 0 := rfl

@[simp]
theorem totalSize_cons (block : MemBlock) (blocks : List MemBlock) :
    totalSize (block :: blocks) = block.size + totalSize blocks := rfl

@[simp]
theorem totalSize_append (first second : List MemBlock) :
    totalSize (first ++ second) = totalSize first + totalSize second := by
  simp [totalSize]

theorem totalSize_perm {first second : List MemBlock} (perm : first.Perm second) :
    totalSize first = totalSize second :=
  (perm.map MemBlock.size).sum_eq

theorem totalSize_le_sum_bytes (blocks : List MemBlock) :
    totalSize blocks ≤ ((regions blocks).map Region.bytes).sum := by
  induction blocks with
  | nil => exact Nat.le_refl 0
  | cons block blocks ih =>
      simp only [totalSize_cons, regions_cons, List.map_cons, List.sum_cons, MemBlock.region]
      omega

/-- Disjoint blocks have less than `2 ^ 64` bytes together. -/
theorem totalSize_lt {blocks : List MemBlock} (placed : ∀ block ∈ blocks, block.Placed)
    (once : ∀ address, coverage (regions blocks) address ≤ 1) : totalSize blocks < 2 ^ 64 := by
  have inSpace : ∀ region ∈ regions blocks, region.Placed (2 ^ 64) := by
    intro region regionMem
    rcases List.mem_map.mp regionMem with ⟨block, blockMem, rfl⟩
    exact placed block blockMem
  exact Nat.lt_of_le_of_lt (totalSize_le_sum_bytes blocks)
    (sum_bytes_lt (by norm_num) inSpace once)

/-- The blocks `after` can take the place of the blocks `before`. -/
def Retiles (before after : List MemBlock) : Prop :=
  (∀ block ∈ before, block.Placed) →
    (∀ block ∈ after, block.Placed) ∧
      ∀ address, coverage (regions after) address = coverage (regions before) address

namespace Retiles

variable {before between after : List MemBlock}

theorem of_perm (perm : before.Perm after) : Retiles before after := by
  intro placed
  constructor
  · intro block blockMem
    exact placed block (perm.mem_iff.mpr blockMem)
  · intro address
    exact (coverage_perm (perm.map MemBlock.region) address).symm

theorem trans (first : Retiles before between) (second : Retiles between after) :
    Retiles before after := by
  intro placed
  rcases first placed with ⟨placedBetween, sameBetween⟩
  rcases second placedBetween with ⟨placedAfter, sameAfter⟩
  refine ⟨placedAfter, ?_⟩
  intro address
  rw [sameAfter, sameBetween]

theorem append_left (others : List MemBlock) (retiles : Retiles before after) :
    Retiles (others ++ before) (others ++ after) := by
  intro placed
  rcases retiles (fun block blockMem => placed block (List.mem_append_right _ blockMem))
    with ⟨placedAfter, same⟩
  constructor
  · intro block blockMem
    rcases List.mem_append.mp blockMem with other | inAfter
    · exact placed block (List.mem_append_left _ other)
    · exact placedAfter block inAfter
  · intro address
    simp only [regions_append, coverage_append, same]

theorem cons (block : MemBlock) (retiles : Retiles before after) :
    Retiles (block :: before) (block :: after) :=
  retiles.append_left [block]

theorem append_right (others : List MemBlock) (retiles : Retiles before after) :
    Retiles (before ++ others) (after ++ others) :=
  ((of_perm List.perm_append_comm).trans (retiles.append_left others)).trans
    (of_perm List.perm_append_comm)

end Retiles

/-- The arithmetic of two neighbours: nothing wraps. -/
theorem neighbours_eq {first second : MemBlock} (firstPlaced : first.Placed)
    (secondPlaced : second.Placed)
    (adjacent : add64 (add64 first.addr first.size) memBlockHeaderSize = second.addr) :
    second.addr = first.addr + (first.size + 8) ∧
      add64 first.size (add64 second.size memBlockHeaderSize) = first.size + (second.size + 8) := by
  rcases firstPlaced with ⟨firstPositive, firstFits⟩
  rcases secondPlaced with ⟨secondPositive, secondFits⟩
  simp only [MemBlock.region, memBlockHeaderSize] at firstFits firstPositive
  simp only [MemBlock.region, memBlockHeaderSize] at secondFits secondPositive
  -- the end of the first block is not the end of the address space, where it would be zero
  have behind : second.addr = first.addr + (first.size + 8) := by
    simp only [add64, memBlockHeaderSize] at adjacent
    omega
  refine ⟨behind, ?_⟩
  simp only [add64, memBlockHeaderSize]
  omega

/-- Two blocks, one directly behind the other, and the block made of both. -/
theorem retiles_join {first second : MemBlock}
    (adjacent : add64 (add64 first.addr first.size) memBlockHeaderSize = second.addr) :
    Retiles [first, second]
      [⟨first.addr, add64 first.size (add64 second.size memBlockHeaderSize)⟩] := by
  intro placed
  rcases neighbours_eq (placed first (by simp)) (placed second (by simp)) adjacent
    with ⟨behind, size⟩
  rcases placed first (by simp) with ⟨firstPositive, firstFits⟩
  rcases placed second (by simp) with ⟨_, secondFits⟩
  simp only [MemBlock.region, memBlockHeaderSize] at firstFits firstPositive secondFits
  rw [size]
  constructor
  · intro block blockMem
    rw [List.mem_singleton] at blockMem
    subst blockMem
    constructor
    · exact firstPositive
    · simp only [MemBlock.region, memBlockHeaderSize]
      omega
  · intro address
    have join := coverage_join first.addr (first.size + 8) (second.size + 8) [] address
    simp only [regions, List.map_cons, List.map_nil, MemBlock.region, memBlockHeaderSize, behind]
    rw [← join, show first.size + (second.size + 8) + 8 = first.size + 8 + (second.size + 8) by
      omega]

/-- A block, and the two blocks it is cut into. -/
theorem retiles_cut (addr first second : ℕ) :
    Retiles [⟨addr, first + (second + memBlockHeaderSize)⟩]
      [⟨addr + (first + memBlockHeaderSize), second⟩, ⟨addr, first⟩] := by
  intro placed
  rcases placed _ (List.mem_singleton.mpr rfl) with ⟨positive, fits⟩
  simp only [MemBlock.region, memBlockHeaderSize] at fits positive
  constructor
  · intro block blockMem
    simp only [List.mem_cons, List.not_mem_nil, or_false] at blockMem
    rcases blockMem with rfl | rfl
    · constructor <;> simp only [MemBlock.region, memBlockHeaderSize] <;> omega
    · constructor <;> simp only [MemBlock.region, memBlockHeaderSize] <;> omega
  · intro address
    have join := coverage_join addr (first + 8) (second + 8) [] address
    rw [coverage_perm (List.Perm.swap _ _ _)] at join
    simp only [regions, List.map_cons, List.map_nil, MemBlock.region, memBlockHeaderSize]
    rw [← join, show first + (second + 8) + 8 = first + 8 + (second + 8) by omega]

theorem retiles_mergeIfPossible {b1 b2 merged : MemBlock}
    (possible : mergeIfPossible b1 b2 = some merged) : Retiles [b2, b1] [merged] := by
  unfold mergeIfPossible at possible
  split_ifs at possible with b1First b2First
  · rw [← Option.some.inj possible]
    exact (Retiles.of_perm (List.Perm.swap b1 b2 [])).trans (retiles_join b1First)
  · rw [← Option.some.inj possible]
    exact retiles_join b2First

theorem retiles_mergePass (list : List MemBlock) (block : MemBlock) (sizeFree : ℕ)
    (merged : Bool) (index addAt : ℕ) :
    Retiles (block :: list)
      ((mergePass list block sizeFree merged index addAt).block ::
        (mergePass list block sizeFree merged index addAt).kept) := by
  induction list generalizing block sizeFree merged index addAt with
  | nil => exact Retiles.of_perm (List.Perm.refl _)
  | cons n rest ih =>
      rw [mergePass]
      cases possible : mergeIfPossible n block with
      | some block' =>
          have join := (retiles_mergeIfPossible possible).append_right rest
          exact join.trans (ih block' (sub64 sizeFree n.size) true index addAt)
      | none =>
          have later := ih block sizeFree merged (index + 1)
            (if !merged && n.size ≤ block.size then index + 1 else addAt)
          have swapped := (Retiles.of_perm (List.Perm.swap n block rest)).trans (later.cons n)
          exact swapped.trans (Retiles.of_perm (List.Perm.swap _ n _))

theorem retiles_addPass (pool : Pool) (block : MemBlock) :
    Retiles (block :: pool.freeBlocks) ((addPass pool block).block :: (addPass pool block).kept) :=
  retiles_mergePass _ _ _ _ _ _

theorem retiles_addFreeBlock (pool : Pool) (block : MemBlock) :
    Retiles (block :: pool.freeBlocks) (addFreeBlock pool block).freeBlocks := by
  induction pool, block using addFreeBlock.induct with
  | case1 pool block pass merged ih =>
      rw [addFreeBlock, dif_pos merged]
      exact (retiles_addPass pool block).trans ih
  | case2 pool block pass unmerged =>
      rw [addFreeBlock, dif_neg unmerged]
      refine (retiles_addPass pool block).trans (Retiles.of_perm ?_)
      refine List.Perm.trans ?_ List.perm_middle.symm
      rw [List.take_append_drop]

theorem mergePass_sizeFree (list : List MemBlock) (block : MemBlock) (sizeFree : ℕ)
    (merged : Bool) (index addAt : ℕ) {others : ℕ} (counted : sizeFree = totalSize list + others)
    (fits : sizeFree < 2 ^ 64) :
    (mergePass list block sizeFree merged index addAt).sizeFree =
        totalSize (mergePass list block sizeFree merged index addAt).kept + others ∧
      (mergePass list block sizeFree merged index addAt).sizeFree ≤ sizeFree := by
  induction list generalizing block sizeFree merged index addAt others with
  | nil => exact ⟨counted, Nat.le_refl _⟩
  | cons n rest ih =>
      rw [totalSize_cons] at counted
      rw [mergePass]
      cases mergeIfPossible n block with
      | some block' =>
          have removed : sub64 sizeFree n.size = totalSize rest + others := by
            rw [sub64_of_le fits (by omega)]
            omega
          rcases ih block' (sub64 sizeFree n.size) true index addAt removed (by omega)
            with ⟨later, less⟩
          exact ⟨later, Nat.le_trans less (by omega)⟩
      | none =>
          rcases ih block sizeFree merged (index + 1)
            (if !merged && n.size ≤ block.size then index + 1 else addAt)
            (show sizeFree = totalSize rest + (n.size + others) by omega) fits with ⟨later, less⟩
          refine ⟨?_, less⟩
          simp only [totalSize_cons]
          omega

theorem addPass_sizeFree {pool : Pool} (block : MemBlock)
    (counted : pool.sizeFree = totalSize pool.freeBlocks) (fits : pool.sizeFree < 2 ^ 64) :
    (addPass pool block).sizeFree = totalSize (addPass pool block).kept ∧
      (addPass pool block).sizeFree ≤ pool.sizeFree := by
  have pass := mergePass_sizeFree pool.freeBlocks block pool.sizeFree false 0 0
    (counted.trans (Nat.add_zero _).symm) fits
  exact pass

theorem totalSize_insert (pool : Pool) (pass : Pass) :
    totalSize (insert pool pass).freeBlocks = totalSize pass.kept + pass.block.size := by
  have perm : (insert pool pass).freeBlocks.Perm (pass.block :: pass.kept) := by
    refine List.perm_middle.trans ?_
    rw [List.take_append_drop]
  rw [totalSize_perm perm, totalSize_cons]
  omega

theorem addFreeBlock_sizeFree (pool : Pool) (block : MemBlock)
    (counted : pool.sizeFree = totalSize pool.freeBlocks) (fits : pool.sizeFree < 2 ^ 64)
    (resultFits : totalSize (addFreeBlock pool block).freeBlocks < 2 ^ 64) :
    (addFreeBlock pool block).sizeFree = totalSize (addFreeBlock pool block).freeBlocks := by
  induction pool, block using addFreeBlock.induct with
  | case1 pool block pass merged ih =>
      rcases addPass_sizeFree block counted fits with ⟨passCounted, less⟩
      rw [addFreeBlock, dif_pos merged] at resultFits ⊢
      apply ih passCounted _ resultFits
      exact Nat.lt_of_le_of_lt less fits
  | case2 pool block pass unmerged =>
      rcases addPass_sizeFree block counted fits with ⟨passCounted, _⟩
      rw [addFreeBlock, dif_neg unmerged, totalSize_insert] at resultFits
      rw [addFreeBlock, dif_neg unmerged, totalSize_insert]
      rw [insert, passCounted, add64_of_lt resultFits]

@[simp]
theorem addFreeBlock_sizeInUse (pool : Pool) (block : MemBlock) :
    (addFreeBlock pool block).sizeInUse = pool.sizeInUse := by
  induction pool, block using addFreeBlock.induct with
  | case1 pool block pass merged ih =>
      rw [addFreeBlock, dif_pos merged]
      exact ih
  | case2 pool block pass unmerged =>
      rw [addFreeBlock, dif_neg unmerged, insert]

theorem findFirst_eq_some {size : ℕ} {list others : List MemBlock} {block : MemBlock}
    (found : findFirst size list = some (block, others)) :
    size ≤ block.size ∧ list.Perm (block :: others) := by
  induction list generalizing others with
  | nil => simp [findFirst] at found
  | cons first rest ih =>
      rw [findFirst] at found
      split_ifs at found with large
      · simp only [Option.some.injEq, Prod.mk.injEq] at found
        rcases found with ⟨rfl, rfl⟩
        exact ⟨large, List.Perm.refl _⟩
      · rcases Option.map_eq_some_iff.mp found with ⟨⟨later, left⟩, laterFound, same⟩
        simp only [Prod.mk.injEq] at same
        rcases same with ⟨rfl, rfl⟩
        rcases ih laterFound with ⟨large, perm⟩
        exact ⟨large, (perm.cons first).trans (List.Perm.swap _ _ _)⟩

/-- The arithmetic of cutting a block, which does not wrap. -/
structure CutFits (addr size requested : ℕ) : Prop where
  header : add64 requested memBlockHeaderSize = requested + 8
  data : add64 addr memBlockHeaderSize = addr + 8
  next : add64 (addr + 8) requested = addr + (requested + 8)
  left : sub64 (sub64 size requested) memBlockHeaderSize = size - requested - 8
  returned : add64 (size - requested - 8) memBlockHeaderSize = size - requested

theorem cutFits {addr size requested : ℕ} (fits : addr + (size + 8) ≤ 2 ^ 64)
    (larger : requested + 8 < size) : CutFits addr size requested := by
  constructor
  · exact add64_of_lt (show requested + 8 < 2 ^ 64 by omega)
  · exact add64_of_lt (show addr + 8 < 2 ^ 64 by omega)
  · rw [add64_of_lt (by omega)]
    omega
  · rw [sub64_of_le (show size < 2 ^ 64 by omega) (by omega), memBlockHeaderSize,
      sub64_of_le (by omega) (by omega)]
  · rw [memBlockHeaderSize, add64_of_lt (by omega)]
    omega

/-- A block that is cut keeps the first `size` bytes. -/
theorem split_of_lt {pool : Pool} {block : MemBlock} {size : ℕ}
    (fits : block.addr + (block.size + 8) ≤ 2 ^ 64) (larger : size + 8 < block.size)
    (inUse : block.size ≤ pool.sizeInUse) (inUseFits : pool.sizeInUse < 2 ^ 64) :
    MemPool.split pool block size =
      ({ block with size },
        addFreeBlock { pool with sizeInUse := pool.sizeInUse - (block.size - size) }
          ⟨block.addr + (size + 8), block.size - size - 8⟩) := by
  rcases cutFits fits larger with ⟨header, data, next, left, returned⟩
  simp only [MemPool.split, remainder, MemBlock.data, header, if_pos larger, data, next, left,
    returned, sub64_of_le inUseFits (show block.size - size ≤ pool.sizeInUse by omega)]

theorem split_of_not_lt {pool : Pool} {block : MemBlock} {size : ℕ} (fits : size + 8 < 2 ^ 64)
    (uncut : ¬size + 8 < block.size) : MemPool.split pool block size = (block, pool) := by
  have header : add64 size 8 = size + 8 := add64_of_lt fits
  simp only [MemPool.split, memBlockHeaderSize, header, if_neg uncut]

/--
The invariant while the allocator holds blocks that are neither in use nor in
the free list. Between two calls it holds none.
-/
structure Represents (held : List MemBlock) (world : World) : Prop where
  placed : ∀ block ∈ held ++ world.blocks, block.Placed
  tiles : ∀ address,
    coverage (regions (held ++ world.blocks)) address = coverage (pages world.log) address
  pagesDisjoint : (pages world.log).Pairwise Region.Disjoint
  sizeInUse : world.pool.sizeInUse = totalSize (world.live.map Allocation.block)
  sizeFree : world.pool.sizeFree = totalSize world.pool.freeBlocks
  requested : ∀ allocation ∈ world.live, allocation.requested ≤ allocation.block.size

namespace Represents

variable {held : List MemBlock} {world : World}

theorem once (represents : Represents held world) (address : ℕ) :
    coverage (regions (held ++ world.blocks)) address ≤ 1 := by
  rw [represents.tiles]
  exact coverage_le_one_of_pairwise represents.pagesDisjoint address

theorem totals (represents : Represents held world) :
    totalSize held + (world.pool.sizeInUse + world.pool.sizeFree) < 2 ^ 64 := by
  have total := totalSize_lt represents.placed represents.once
  simp only [World.blocks, totalSize_append] at total
  rw [represents.sizeInUse, represents.sizeFree]
  exact total

/-- Blocks change places; the pages stay as they are. -/
theorem retile {held' : List MemBlock} {pool : Pool} {live : List Allocation}
    (represents : Represents held world)
    (retiles : Retiles (held ++ world.blocks)
      (held' ++ (live.map Allocation.block ++ pool.freeBlocks)))
    (sizeInUse : pool.sizeInUse = totalSize (live.map Allocation.block))
    (sizeFree : pool.sizeFree = totalSize pool.freeBlocks)
    (requested : ∀ allocation ∈ live, allocation.requested ≤ allocation.block.size) :
    Represents held' { pool, live, log := world.log } := by
  rcases retiles represents.placed with ⟨placed, same⟩
  refine ⟨placed, ?_, represents.pagesDisjoint, sizeInUse, sizeFree, requested⟩
  intro address
  rw [← represents.tiles address, ← same address]
  rfl

theorem addFreeBlock {block : MemBlock} (represents : Represents [block] world) :
    Represents [] { world with pool := addFreeBlock world.pool block } := by
  have totals := represents.totals
  have retiles : Retiles ([block] ++ world.blocks)
      ([] ++ (world.live.map Allocation.block ++
        (MemPool.addFreeBlock world.pool block).freeBlocks)) := by
    have moved : (block :: world.blocks).Perm
        (world.live.map Allocation.block ++ block :: world.pool.freeBlocks) :=
      List.perm_middle.symm
    exact (Retiles.of_perm moved).trans
      ((retiles_addFreeBlock world.pool block).append_left _)
  rcases retiles represents.placed with ⟨placed, same⟩
  have total := totalSize_lt placed fun address => (same address).trans_le (represents.once address)
  simp only [List.nil_append, totalSize_append] at total
  apply represents.retile retiles
  · rw [addFreeBlock_sizeInUse, represents.sizeInUse]
  · exact addFreeBlock_sizeFree _ _ represents.sizeFree (by omega) (by omega)
  · exact represents.requested

theorem findExistingFreeBlock {size : ℕ} {block : MemBlock} {pool : Pool}
    (represents : Represents [] world)
    (found : MemPool.findExistingFreeBlock world.pool size = some (block, pool)) :
    Represents [] { pool, live := ⟨block, size⟩ :: world.live, log := world.log } := by
  have totals := represents.totals
  rcases Option.map_eq_some_iff.mp found with ⟨⟨first, others⟩, firstFound, same⟩
  simp only [Prod.mk.injEq] at same
  rcases same with ⟨rfl, rfl⟩
  rcases findFirst_eq_some firstFound with ⟨large, perm⟩
  have counted := represents.sizeFree
  rw [totalSize_perm perm, totalSize_cons] at counted
  apply represents.retile
  · apply Retiles.of_perm
    exact (perm.append_left _).trans List.perm_middle
  · rw [add64_of_lt (by omega), represents.sizeInUse]
    simp only [List.map_cons, totalSize_cons]
    omega
  · have removed : sub64 world.pool.sizeFree first.size = totalSize others := by
      rw [sub64_of_le (by omega) (by omega)]
      omega
    exact removed
  · intro allocation allocationMem
    rcases List.mem_cons.mp allocationMem with rfl | older
    · exact large
    · exact represents.requested allocation older

/-- The first block in use is cut behind the bytes that were asked for. -/
theorem cut {size : ℕ} {block : MemBlock} {pool : Pool} {live : List Allocation}
    {log : List PageRequest}
    (represents : Represents [] { pool, live := ⟨block, size⟩ :: live, log })
    (larger : size + 8 < block.size) :
    Represents [⟨block.addr + (size + 8), block.size - size - 8⟩]
      { pool := { pool with sizeInUse := pool.sizeInUse - (block.size - size) }
        live := ⟨{ block with size }, size⟩ :: live
        log } := by
  have counted := represents.sizeInUse
  simp only [List.map_cons, totalSize_cons] at counted
  have cutBlock : Retiles [block]
      [⟨block.addr + (size + 8), block.size - size - 8⟩, { block with size := size }] := by
    have cutEq := retiles_cut block.addr size (block.size - size - 8)
    simp only [memBlockHeaderSize] at cutEq
    rw [show size + (block.size - size - 8 + 8) = block.size by omega] at cutEq
    exact cutEq
  apply represents.retile
  · exact cutBlock.append_right _
  · simp only [List.map_cons, totalSize_cons]
    omega
  · exact represents.sizeFree
  · intro allocation allocationMem
    rcases List.mem_cons.mp allocationMem with rfl | older
    · exact Nat.le_refl _
    · exact represents.requested allocation (List.mem_cons_of_mem _ older)

/-- The bounds under which `split` does not wrap. -/
theorem split_fits {size : ℕ} {block : MemBlock} {pool : Pool} {live : List Allocation}
    {log : List PageRequest}
    (represents : Represents [] { pool, live := ⟨block, size⟩ :: live, log }) :
    0 < block.addr ∧ block.addr + (block.size + 8) ≤ 2 ^ 64 ∧ size ≤ block.size ∧
      block.size ≤ pool.sizeInUse ∧ pool.sizeInUse < 2 ^ 64 := by
  have totals := represents.totals
  have counted := represents.sizeInUse
  have large := represents.requested ⟨block, size⟩ (by simp)
  rcases represents.placed block (by simp [World.blocks]) with ⟨positive, fits⟩
  simp only [MemBlock.region, memBlockHeaderSize] at large positive fits
  simp only [List.map_cons, totalSize_cons, totalSize_nil] at counted totals
  exact ⟨positive, fits, large, by omega, by omega⟩

theorem split {size : ℕ} {block : MemBlock} {pool : Pool} {live : List Allocation}
    {log : List PageRequest}
    (represents : Represents [] { pool, live := ⟨block, size⟩ :: live, log }) :
    Represents []
      { pool := (MemPool.split pool block size).2
        live := ⟨(MemPool.split pool block size).1, size⟩ :: live
        log } := by
  rcases represents.split_fits with ⟨positive, fits, large, inUse, inUseFits⟩
  by_cases larger : size + 8 < block.size
  · rw [split_of_lt fits larger inUse inUseFits]
    exact (represents.cut larger).addFreeBlock
  · rw [split_of_not_lt (by omega) larger]
    exact represents

theorem page {source : PageSource} {count page : ℕ} (represents : Represents [] world)
    (positive : 0 < count) (reply : source.getPage world.log count = some page) :
    Represents [pageBlock page count]
      { world with log := world.log ++ [{ count, reply := some page }] } := by
  have placed := source.placed reply
  have newPages : pages (world.log ++ [{ count, reply := some page }]) =
      pages world.log ++ [⟨page, count * pageSize⟩] := by
    simp [pages]
  have region : (pageBlock page count).region = ⟨page, count * pageSize⟩ := by
    rcases placed with ⟨nonnull, fits⟩
    simp only [pageSize] at nonnull fits
    simp only [pageBlock, MemBlock.region, memBlockHeaderSize, pageSize, Region.mk.injEq]
    rw [mul64_of_lt (by omega), sub64_of_le (by omega) (by omega)]
    exact ⟨trivial, by omega⟩
  constructor
  · intro block blockMem
    rcases List.mem_cons.mp blockMem with rfl | older
    · rw [MemBlock.Placed, region]
      exact placed
    · exact represents.placed block older
  · intro address
    have older := represents.tiles address
    simp only [List.nil_append] at older
    rw [newPages, coverage_append, ← older]
    simp only [List.cons_append, List.nil_append, regions_cons, region]
    exact (coverage_append (regions world.blocks) [_] address ▸
      coverage_perm (List.perm_append_singleton _ _).symm address)
  · rw [newPages, List.pairwise_append]
    refine ⟨represents.pagesDisjoint, List.pairwise_singleton _ _, ?_⟩
    intro older olderMem new newMem
    rw [List.mem_singleton.mp newMem]
    exact (source.fresh reply older olderMem).symm
  · exact represents.sizeInUse
  · exact represents.sizeFree
  · exact represents.requested

theorem refused (represents : Represents [] world) (count : ℕ) :
    Represents [] { world with log := world.log ++ [{ count, reply := none }] } := by
  have noPage : pages (world.log ++ [{ count, reply := none }]) = pages world.log := by
    simp [pages]
  refine ⟨represents.placed, ?_, ?_, represents.sizeInUse, represents.sizeFree,
    represents.requested⟩
  · intro address
    rw [noPage]
    exact represents.tiles address
  · rw [noPage]
    exact represents.pagesDisjoint

theorem release {before after : List Allocation} {allocation : Allocation}
    (represents : Represents [] world) (inUse : world.live = before ++ allocation :: after) :
    Represents [allocation.block]
      { world with
        pool := { world.pool with
          sizeInUse := sub64 world.pool.sizeInUse allocation.block.size }
        live := before ++ after } := by
  have totals := represents.totals
  have counted := represents.sizeInUse
  simp only [inUse, List.map_append, List.map_cons, totalSize_append, totalSize_cons] at counted
  apply represents.retile
  · apply Retiles.of_perm
    simp only [World.blocks, inUse, List.map_append, List.map_cons, List.nil_append,
      List.append_assoc, List.cons_append]
    exact List.perm_middle
  · have removed : sub64 world.pool.sizeInUse allocation.block.size =
        totalSize ((before ++ after).map Allocation.block) := by
      rw [sub64_of_le (by omega) (by omega), List.map_append, totalSize_append]
      omega
    exact removed
  · exact represents.sizeFree
  · intro other otherMem
    apply represents.requested other
    rw [inUse]
    rcases List.mem_append.mp otherMem with inBefore | inAfter
    · exact List.mem_append_left _ inBefore
    · exact List.mem_append_right _ (List.mem_cons_of_mem _ inAfter)

end Represents

theorem pagesFor_pos {size : ℕ} : 0 < pagesFor size := by
  simp only [pagesFor, add64, pageSize]
  omega

theorem represents_allocLoop (source : PageSource) (size iterations : ℕ) {pool : Pool}
    {live : List Allocation} {log : List PageRequest}
    (represents : Represents [] { pool, live, log }) :
    Represents [] ((allocLoop source size iterations pool log).world size live) := by
  induction iterations generalizing pool log with
  | zero => exact represents
  | succ iterations ih =>
      cases found : findExistingFreeBlock pool size with
      | some result =>
          have cut := (represents.findExistingFreeBlock found).split
          rw [allocLoop_of_found iterations found]
          exact ⟨cut.placed, cut.tiles, cut.pagesDisjoint, cut.sizeInUse, cut.sizeFree,
            cut.requested⟩
      | none =>
          cases reply : source.getPage log (pagesFor size) with
          | none =>
              rw [allocLoop_of_refused iterations found reply]
              exact represents.refused (pagesFor size)
          | some page =>
              rw [allocLoop_of_page iterations found reply]
              exact ih (represents.page pagesFor_pos reply).addFreeBlock

theorem represents_initial : Represents [] World.initial := by
  refine ⟨?_, ?_, List.Pairwise.nil, rfl, rfl, ?_⟩
  · intro block blockMem
    cases blockMem
  · intro address
    rfl
  · intro allocation allocationMem
    cases allocationMem

theorem free_of_released {pool : Pool} {block : MemBlock}
    (released : memBlockHeaderSize ≤ block.size) :
    free pool block =
      { addFreeBlock { pool with sizeInUse := sub64 pool.sizeInUse block.size } block with
        freeCount := add64
          (addFreeBlock { pool with sizeInUse := sub64 pool.sizeInUse block.size } block).freeCount
          1 } :=
  if_pos released

theorem free_of_ignored {pool : Pool} {block : MemBlock}
    (ignored : block.size < memBlockHeaderSize) : free pool block = pool :=
  if_neg (Nat.not_le.mpr ignored)

theorem represents_step {source : PageSource} {world next : World}
    (represents : Represents [] world) (step : Step source world next) : Represents [] next := by
  cases step with
  | alloc size sizeFits => exact represents_allocLoop source size 2 represents
  | freeNull => exact represents
  | free inUse released =>
      have freed := (represents.release inUse).addFreeBlock
      rw [free_of_released released]
      exact ⟨freed.placed, freed.tiles, freed.pagesDisjoint, freed.sizeInUse, freed.sizeFree,
        freed.requested⟩
  | freeIgnored inUse ignored =>
      rw [free_of_ignored ignored]
      exact represents

theorem reachable_represents {source : PageSource} {world : World}
    (reachable : Reachable source world) : Represents [] world := by
  induction reachable with
  | initial => exact represents_initial
  | step _ step ih => exact represents_step ih step

/-- What holds of a pool between two calls. -/
structure WellFormed (world : World) : Prop where
  disjoint : (regions world.blocks).Pairwise Region.Disjoint
  cover : ∀ address, (∃ block ∈ world.blocks, block.region.Contains address) ↔
    ∃ page ∈ pages world.log, page.Contains address
  sizeInUse : world.pool.sizeInUse = totalSize (world.live.map Allocation.block)
  sizeFree : world.pool.sizeFree = totalSize world.pool.freeBlocks
  requested : ∀ allocation ∈ world.live, allocation.requested ≤ allocation.block.size

theorem Represents.wellFormed {world : World} (represents : Represents [] world) :
    WellFormed world := by
  refine ⟨pairwise_disjoint_of_coverage represents.once, ?_, represents.sizeInUse,
    represents.sizeFree, represents.requested⟩
  intro address
  have covered := represents.tiles address
  simp only [List.nil_append] at covered
  have inBlocks : (∃ block ∈ world.blocks, block.region.Contains address) ↔
      0 < coverage (regions world.blocks) address := by
    rw [coverage_pos_iff]
    simp [regions]
  rw [inBlocks, covered, coverage_pos_iff]

/--
The representation invariant: in every state that calls of `alloc` and `free`
reach from an empty pool, the blocks are disjoint and tile the pages, the
counters are the sums of the recorded sizes, and every block in use has at least
the size that was asked for.
-/
theorem reachable_wellFormed {source : PageSource} {world : World}
    (reachable : Reachable source world) : WellFormed world :=
  (reachable_represents reachable).wellFormed

/-- The first address behind all pages, but not the zero page. -/
def firstUnused (log : List PageRequest) : ℕ :=
  ((pages log).map fun page => page.start + page.bytes).foldr max pageSize

theorem end_le_firstUnused {log : List PageRequest} {page : Region} (pageMem : page ∈ pages log) :
    page.start + page.bytes ≤ firstUnused log := by
  simp only [firstUnused]
  generalize pages log = regions at pageMem
  induction regions with
  | nil => cases pageMem
  | cons first rest ih =>
      simp only [List.map_cons, List.foldr_cons]
      rcases List.mem_cons.mp pageMem with rfl | later
      · exact Nat.le_max_left _ _
      · exact Nat.le_trans (ih later) (Nat.le_max_right _ _)

theorem pageSize_le_firstUnused (log : List PageRequest) : pageSize ≤ firstUnused log := by
  simp only [firstUnused]
  induction pages log with
  | nil => exact Nat.le_refl _
  | cons first rest ih => exact Nat.le_trans ih (Nat.le_max_right _ _)

/-- The pages that `consecutivePages` hands out next, if the address space has room for them. -/
def nextPage (log : List PageRequest) (count : ℕ) : Option ℕ :=
  if firstUnused log + count * pageSize ≤ 2 ^ 64 then some (firstUnused log) else none

theorem nextPage_placed {log : List PageRequest} {count page : ℕ}
    (reply : nextPage log count = some page) :
    Region.Placed (2 ^ 64) ⟨page, count * pageSize⟩ := by
  rw [nextPage] at reply
  split_ifs at reply with fits
  rw [← Option.some.inj reply]
  exact ⟨Nat.lt_of_lt_of_le (by decide) (pageSize_le_firstUnused log), fits⟩

theorem nextPage_fresh {log : List PageRequest} {count page : ℕ}
    (reply : nextPage log count = some page) :
    ∀ region ∈ pages log, Region.Disjoint ⟨page, count * pageSize⟩ region := by
  intro older olderMem address inNew inOlder
  rw [nextPage] at reply
  split_ifs at reply with fits
  rw [← Option.some.inj reply] at inNew
  have behind := end_le_firstUnused olderMem
  simp only [Region.Contains] at inNew inOlder
  omega

/-- Pages one behind the other, as long as the address space has room. -/
def consecutivePages : PageSource where
  getPage := nextPage
  placed := nextPage_placed
  fresh := nextPage_fresh

/-- `free` of the data of a block in use. -/
def World.free (world : World) (allocation : Allocation) : World :=
  { world with
    pool := MemPool.free world.pool allocation.block
    live := world.live.erase allocation }

theorem Reachable.free {source : PageSource} {world : World} {allocation : Allocation}
    (reachable : Reachable source world) (inUse : allocation ∈ world.live)
    (released : memBlockHeaderSize ≤ allocation.block.size) :
    Reachable source (world.free allocation) := by
  rcases List.exists_erase_eq inUse with ⟨before, after, _, split, erased⟩
  rw [World.free, erased]
  exact .step reachable (.free split released)

/--
Two blocks of a page, of which the second is freed and merged with the rest of the page, and a
third one for which two more pages are fetched and merged with that.
-/
def mergedPages : World :=
  (((World.initial.alloc consecutivePages 10).alloc consecutivePages 20).free
    ⟨⟨4114, 20⟩, 20⟩).alloc consecutivePages 5000

theorem reachable_mergedPages : Reachable consecutivePages mergedPages := by
  have twoBlocks : Reachable consecutivePages
      ((World.initial.alloc consecutivePages 10).alloc consecutivePages 20) :=
    .step (.step .initial (.alloc _ 10 (by decide))) (.alloc _ 20 (by decide))
  have inUse : (⟨⟨4114, 20⟩, 20⟩ : Allocation) ∈
      ((World.initial.alloc consecutivePages 10).alloc consecutivePages 20).live := by
    decide +kernel
  exact .step (twoBlocks.free inUse (by decide)) (.alloc _ 5000 (by decide))

/-- The third block starts in the first page and ends in the others. -/
example : mergedPages.live.map Allocation.block = [⟨4114, 5000⟩, ⟨4096, 10⟩] ∧
    mergedPages.pool.freeBlocks = [⟨9122, 7254⟩] := by
  decide +kernel

theorem reachable_wellFormed_mergedPages : WellFormed mergedPages :=
  reachable_wellFormed reachable_mergedPages

end Dvnetos.MemPool
