import Dvnetos.Memory.PoolSimulation

/-!
# The stores of the pool stay inside its free blocks

In a run in which no `alloc` cuts off a rest that is too small for a link, the
byte model follows the block model, and every store of the allocator lies in the
pages and outside the blocks that stay in use. A rest of one to seven bytes is
linked all the same: its link then ends behind the block that was cut.
-/

namespace Dvnetos.MemPool.Bytes

open Word Regions TracedStore

/-- Where the allocator may store: in the pages, outside the blocks in use. -/
def Allowed (live : List Allocation) (log : List PageRequest) (address : ℕ) : Prop :=
  ¬Covered (live.map Allocation.block) address ∧ ∃ page ∈ pages log, page.Contains address

theorem allowed_append {live : List Allocation} {log : List PageRequest} (more : List PageRequest)
    {address : ℕ} (allowed : Allowed live log address) : Allowed live (log ++ more) address := by
  rcases allowed with ⟨unused, page, pageMem, inPage⟩
  refine ⟨unused, page, ?_, inPage⟩
  rw [pages, List.filterMap_append]
  exact List.mem_append_left _ pageMem

theorem covered_append {first second : List MemBlock} {address : ℕ} :
    Covered (first ++ second) address ↔ Covered first address ∨ Covered second address := by
  simp only [Covered, regions_append, coverage_append]
  omega

theorem covered_of_mem {blocks : List MemBlock} {block : MemBlock} {address : ℕ}
    (blockMem : block ∈ blocks) (contains : block.region.Contains address) :
    Covered blocks address :=
  coverage_pos_iff.mpr ⟨block.region, List.mem_map_of_mem blockMem, contains⟩

namespace Represented

variable {held : List MemBlock} {world : MemPool.World}

/-- The blocks of the allocator, held or free, are where it may store. -/
theorem allowed (represents : Represents held world) {address : ℕ}
    (covered : Covered (held ++ world.pool.freeBlocks) address) :
    Allowed world.live world.log address := by
  have once := represents.once address
  have tiles := represents.tiles address
  simp only [World.blocks, regions_append, coverage_append] at once tiles
  simp only [Covered, regions_append, coverage_append] at covered
  constructor
  · simp only [Covered]
    omega
  · apply coverage_pos_iff.mp
    omega

theorem sound (represents : Represents held world)
    (roomy : ∀ block ∈ held ++ world.pool.freeBlocks, memBlockHeaderSize ≤ block.size) :
    Sound (held ++ world.pool.freeBlocks) := by
  refine ⟨?_, ?_, roomy⟩
  · intro block blockMem
    apply represents.placed block
    rcases List.mem_append.mp blockMem with inHeld | inFree
    · exact List.mem_append_left _ inHeld
    · exact List.mem_append_right _ (List.mem_append_right _ inFree)
  · intro address
    have once := represents.once address
    simp only [World.blocks, regions_append, coverage_append] at once ⊢
    omega

end Represented

/-- The size words of the blocks in use are their recorded sizes. -/
def SizesStored (heap : Heap) (live : List Allocation) : Prop :=
  ∀ allocation ∈ live, heap.size allocation.block.addr = allocation.block.size

theorem SizesStored.frame {heap heap' : Heap} {live : List Allocation} {log : List PageRequest}
    (sizes : SizesStored heap live) (frame : Frame (Allowed live log) heap.memory heap'.memory) :
    SizesStored heap' live := by
  intro allocation allocationMem
  rw [← sizes allocation allocationMem]
  apply loadWord_congr
  intro i bound
  apply frame.cells
  intro allowed
  apply allowed.1
  apply covered_of_mem (List.mem_map_of_mem allocationMem)
  simp only [MemBlock.region, Region.Contains, memBlockHeaderSize]
  omega

/-- Every free block has room for its link. -/
def Roomy (pool : Pool) : Prop := ∀ block ∈ pool.freeBlocks, memBlockHeaderSize ≤ block.size

theorem roomy_addFreeBlock (pool : Pool) (block : MemBlock)
    (sound : Sound (block :: pool.freeBlocks)) :
    Roomy (MemPool.addFreeBlock pool block) := by
  induction pool, block using MemPool.addFreeBlock.induct with
  | case1 pool block pass merged ih =>
      rw [MemPool.addFreeBlock, dif_pos merged]
      exact ih sound.addPass
  | case2 pool block pass unmerged =>
      rw [MemPool.addFreeBlock, dif_neg unmerged]
      intro other otherMem
      apply sound.addPass.roomy other
      have perm : (MemPool.insert pool (addPass pool block)).freeBlocks.Perm
          ((addPass pool block).block :: (addPass pool block).kept) := by
        refine List.perm_middle.trans ?_
        rw [List.take_append_drop]
      exact perm.mem_iff.mp otherMem

/-- The heap represents the pool, with the size words of the blocks in use. -/
structure Simulated (heap : Heap) (world : MemPool.World) : Prop where
  models : Models heap world.pool
  sizes : SizesStored heap world.live
  represents : Represents [] world
  roomy : Roomy world.pool

/-- The block that the allocator holds becomes a free block. -/
theorem addFreeBlock_simulated (fuel : ℕ) (heap : Heap) (block : MemBlock)
    (world : MemPool.World) (models : Models heap world.pool)
    (size : heap.size block.addr = block.size)
    (sizes : SizesStored heap world.live) (represents : Represents [block] world)
    (roomy : Roomy world.pool) (room : memBlockHeaderSize ≤ block.size) :
    Returns (addFreeBlock fuel heap block.addr) (world.pool.freeBlocks.length + 1 < fuel)
      fun heap' =>
        Simulated heap' { world with pool := MemPool.addFreeBlock world.pool block } ∧
          Frame (Allowed world.live world.log) heap.memory heap'.memory := by
  have sound : Sound (block :: world.pool.freeBlocks) := by
    apply Represented.sound represents
    intro other otherMem
    rcases List.mem_cons.mp otherMem with rfl | inFree
    · exact room
    · exact roomy other inFree
  apply (addFreeBlock_models fuel models size sound
    fun address covered => Represented.allowed represents covered).imp id
  rintro heap' ⟨models', frame⟩
  exact ⟨⟨models', sizes.frame frame, represents.addFreeBlock, roomy_addFreeBlock _ _ sound⟩, frame⟩

theorem allowed_of_cons {allocation : Allocation} {live : List Allocation}
    {log : List PageRequest} {address : ℕ} (allowed : Allowed (allocation :: live) log address) :
    Allowed live log address := by
  refine ⟨fun covered => allowed.1 ?_, allowed.2⟩
  rw [List.map_cons, ← List.singleton_append, covered_append]
  exact Or.inr covered

/-- The block that `alloc` is about to return is not in use by others. -/
theorem allowed_of_head {pool : Pool} {allocation : Allocation} {live : List Allocation}
    {log : List PageRequest} (represents : Represents [] { pool, live := allocation :: live, log })
    {address : ℕ} (contains : allocation.block.region.Contains address) :
    Allowed live log address := by
  have once := represents.once address
  have tiles := represents.tiles address
  simp only [World.blocks, List.nil_append, List.map_cons, List.cons_append, regions_cons,
    regions_append, coverage_cons, coverage_append, if_pos contains] at once tiles
  constructor
  · simp only [Covered]
    omega
  · apply coverage_pos_iff.mp
    omega

/-- The rest of the block is large enough for a link, if there is one. -/
def LeavesRest (block : MemBlock) (size : ℕ) : Prop :=
  size + 8 < block.size → size + 16 ≤ block.size

section

variable {heap : Heap} {pool : Pool} {block : MemBlock} {size : ℕ} {live : List Allocation}
  {log : List PageRequest}

/-- The block behind the first `size` bytes. -/
def restBlock (block : MemBlock) (size : ℕ) : MemBlock :=
  ⟨block.addr + (size + 8), block.size - size - 8⟩

theorem restBlock_sound
    (simulated : Simulated heap { pool, live := ⟨block, size⟩ :: live, log })
    (larger : size + 8 < block.size) (rest : LeavesRest block size) :
    Sound (restBlock block size :: pool.freeBlocks) := by
  apply Represented.sound (simulated.represents.cut larger)
  intro other otherMem
  rcases List.mem_cons.mp otherMem with rfl | inFree
  · have room := rest larger
    simp only [memBlockHeaderSize]
    omega
  · exact simulated.roomy other inFree

/-- The size word of the rest is written, and the rest is no longer counted as in use. -/
def cutHeap (heap : Heap) (block : MemBlock) (size : ℕ) : Heap :=
  { heap.setSize (restBlock block size).addr (restBlock block size).size with
    sizeInUse := heap.sizeInUse - (block.size - size) }

theorem cutHeap_models
    (simulated : Simulated heap { pool, live := ⟨block, size⟩ :: live, log })
    (larger : size + 8 < block.size) (rest : LeavesRest block size) :
    Models (cutHeap heap block size)
        { pool with sizeInUse := pool.sizeInUse - (block.size - size) } ∧
      (cutHeap heap block size).size (restBlock block size).addr = (restBlock block size).size ∧
      Frame (Allowed live log) heap.memory (cutHeap heap block size).memory := by
  have cut := simulated.represents.cut larger
  have sound := restBlock_sound simulated larger rest
  have models := simulated.models
  have apart := (List.pairwise_cons.mp sound.headers.apart).1
  refine ⟨⟨?_, ?_, models.sizeFree, models.allocCount, models.freeCount⟩, ?_, ?_⟩
  · have linked := models.linked.setSize (restBlock block size).addr
      (restBlock block size).size (fun null => absurd rfl null)
      fun other otherMem => (apart other otherMem).sizeApart
    exact linked.of_eq rfl rfl
  · exact congrArg (· - (block.size - size)) models.sizeInUse
  · have fits : (restBlock block size).size < 2 ^ 64 := by
      rcases simulated.represents.split_fits with ⟨_, blockFits, _, _, _⟩
      simp only [restBlock]
      omega
    exact (Heap.size_eq rfl).trans (Heap.size_setSize_same fits)
  · apply frame_setSize heap
    intro address lower upper
    apply allowed_of_cons
    apply Represented.allowed cut
    apply sound.headerIn List.mem_cons_self address lower upper

/-- The size of the block that `alloc` returns is written last. -/
theorem setSize_simulated {addr : ℕ}
    (models : Models heap pool) (sizes : SizesStored heap live)
    (represents : Represents [] { pool, live := ⟨⟨addr, size⟩, size⟩ :: live, log })
    (roomy : Roomy pool) :
    Simulated (heap.setSize addr size) { pool, live := ⟨⟨addr, size⟩, size⟩ :: live, log } ∧
      Frame (Allowed live log) heap.memory (heap.setSize addr size).memory := by
  have placed := represents.placed ⟨addr, size⟩ (by simp [World.blocks])
  have fits : size < 2 ^ 64 := by
    have bound := placed.fits
    simp only [MemBlock.region, memBlockHeaderSize] at bound
    omega
  have disjoint := (List.pairwise_cons.mp (pairwise_disjoint_of_coverage represents.once)).1
  have apart : ∀ other ∈ pool.freeBlocks, SizeApart addr other.addr := by
    intro other otherMem
    have otherRegion : other.region ∈
        (live.map Allocation.block ++ pool.freeBlocks).map MemBlock.region :=
      List.mem_map_of_mem (List.mem_append_right _ otherMem)
    have common := disjoint other.region otherRegion (max addr other.addr)
    have room := roomy other otherMem
    simp only [MemBlock.region, Region.Contains, memBlockHeaderSize] at common room
    simp only [SizeApart]
    omega
  have frame : Frame (Allowed live log) heap.memory (heap.setSize addr size).memory := by
    apply frame_storeWord
    intro i bound
    apply allowed_of_head represents
    simp only [MemBlock.region, Region.Contains, memBlockHeaderSize]
    omega
  refine ⟨⟨?_, ?_, represents, roomy⟩, frame⟩
  · exact ⟨models.linked.setSize addr size (fun null => absurd rfl null) apart, models.sizeInUse,
      models.sizeFree, models.allocCount, models.freeCount⟩
  · intro allocation allocationMem
    rcases List.mem_cons.mp allocationMem with rfl | older
    · exact Heap.size_setSize_same fits
    · exact sizes.frame frame allocation older

theorem split_simulated (fuel : ℕ)
    (simulated : Simulated heap { pool, live := ⟨block, size⟩ :: live, log })
    (rest : LeavesRest block size) :
    Returns (split fuel heap block.addr size) (pool.freeBlocks.length + 1 < fuel) fun heap' =>
      Simulated heap'
          { pool := (MemPool.split pool block size).2
            live := ⟨(MemPool.split pool block size).1, size⟩ :: live
            log } ∧
        Frame (Allowed live log) heap.memory heap'.memory := by
  rcases simulated.represents.split_fits with ⟨positive, fits, large, inUse, inUseFits⟩
  have stored : heap.size block.addr = block.size := simulated.sizes ⟨block, size⟩ (by simp)
  by_cases larger : size + 8 < block.size
  · have cut := simulated.represents.cut larger
    have sound := restBlock_sound simulated larger rest
    rcases cutHeap_models simulated larger rest with ⟨models, restSize, cutFrame⟩
    rcases cutFits fits larger with ⟨header, data, next, left, returned⟩
    have added := addFreeBlock_models fuel models restSize sound fun address covered =>
      allowed_of_cons (Represented.allowed cut covered)
    have cutEq : split fuel heap block.addr size =
        (addFreeBlock fuel (cutHeap heap block size) (restBlock block size).addr).map
          fun heap => heap.setSize block.addr size := by
      have restFits : block.size - size - 8 < 2 ^ 64 := by omega
      have heapInUse : heap.sizeInUse = pool.sizeInUse := simulated.models.sizeInUse
      have written : (heap.setSize (block.addr + (size + 8)) (block.size - size - 8)).size
          (block.addr + (size + 8)) = block.size - size - 8 :=
        Heap.size_setSize_same restFits
      have inUseLeft : sub64 heap.sizeInUse (block.size - size) =
          heap.sizeInUse - (block.size - size) :=
        sub64_of_le (by omega) (by omega)
      simp only [memBlockHeaderSize] at header left returned
      simp only [split, memBlockHeaderSize, header, stored, if_pos larger, next, left, written,
        returned, Heap.sizeInUse_setSize, inUseLeft]
      rfl
    rw [cutEq, split_of_lt fits larger inUse inUseFits]
    apply added.map
    rintro heap₂ ⟨models₂, addFrame⟩
    have sizes : SizesStored heap live := fun allocation allocationMem =>
      simulated.sizes allocation (List.mem_cons_of_mem _ allocationMem)
    have toHeap₂ := cutFrame.trans addFrame
    rcases setSize_simulated models₂ (sizes.frame toHeap₂) cut.addFreeBlock
      (roomy_addFreeBlock _ _ sound) with ⟨simulated', frame'⟩
    exact ⟨simulated', toHeap₂.trans frame'⟩
  · have header : add64 size memBlockHeaderSize = size + 8 :=
      add64_of_lt (show size + 8 < 2 ^ 64 by omega)
    rw [split, header, stored, if_neg larger, split_of_not_lt (by omega) larger]
    exact Returns.of_some ⟨simulated, Frame.refl _⟩

theorem Simulated.sound {world : MemPool.World} (simulated : Simulated heap world) :
    Sound world.pool.freeBlocks :=
  Represented.sound simulated.represents simulated.roomy

/-- What `findExistingFreeBlock` returns, if the block model returns this. -/
def FindSimulated (heap : Heap) (size : ℕ) (live : List Allocation) (log : List PageRequest)
    (result : Heap × ℕ) : Option (MemBlock × Pool) → Prop
  | none => result = (heap, 0)
  | some (block, pool) =>
      result.2 = block.addr ∧
        Simulated result.1 { pool, live := ⟨block, size⟩ :: live, log } ∧
        Frame (Allowed live log) heap.memory result.1.memory

theorem findExistingFreeBlock_simulated (size fuel : ℕ)
    (simulated : Simulated heap { pool, live, log }) :
    Returns (findExistingFreeBlock size fuel heap heap.freeBlocks 0)
      (pool.freeBlocks.length < fuel) fun result =>
        FindSimulated heap size live log result (MemPool.findExistingFreeBlock pool size) := by
  have sound : Sound pool.freeBlocks := simulated.sound
  have models := simulated.models
  have first : heap.freeBlocks = headAddr pool.freeBlocks := models.linked.head
  have headersIn : ∀ other ∈ pool.freeBlocks, HeaderIn (Allowed live log) other.addr := by
    intro other otherMem address lower upper
    exact Represented.allowed simulated.represents (sound.headerIn otherMem address lower upper)
  rw [first]
  apply (findExistingFreeBlock_models size fuel [] pool.freeBlocks models.linked sound.headers
    headersIn).imp id
  rintro ⟨heap', ptr⟩ post
  cases found : findFirst size pool.freeBlocks with
  | none =>
      rw [found] at post
      rw [MemPool.findExistingFreeBlock, found]
      exact post
  | some result =>
      rcases result with ⟨block, others⟩
      rw [found] at post
      rcases post with ⟨isBlock, taken⟩
      have foundPool : MemPool.findExistingFreeBlock pool size = some (block,
          { pool with
            sizeInUse := add64 pool.sizeInUse block.size
            sizeFree := sub64 pool.sizeFree block.size
            freeBlocks := others }) := by
        rw [MemPool.findExistingFreeBlock, found]
        rfl
      rw [foundPool]
      refine ⟨isBlock, ⟨?_, ?_, simulated.represents.findExistingFreeBlock foundPool, ?_⟩,
        taken.frame⟩
      · constructor
        · exact taken.linked
        · rw [taken.sizeInUse, models.sizeInUse]
        · rw [taken.sizeFree, models.sizeFree]
        · exact taken.allocCount.trans models.allocCount
        · exact taken.freeCount.trans models.freeCount
      · intro allocation allocationMem
        rcases List.mem_cons.mp allocationMem with rfl | older
        · exact taken.size
        · exact simulated.sizes.frame taken.frame allocation older
      · intro other otherMem
        apply simulated.roomy other
        exact (findFirst_eq_some found).2.mem_iff.mpr (List.mem_cons_of_mem _ otherMem)

/-- The free block that `alloc` takes, in the last iterations of its loop. -/
def taken (source : PageSource) (size : ℕ) : ℕ → Pool → List PageRequest → Option MemBlock
  | 0, _, _ => none
  | iterations + 1, pool, log =>
      match findFirst size pool.freeBlocks with
      | some (block, _) => some block
      | none =>
          match source.getPage log (pagesFor size) with
          | none => none
          | some page =>
              taken source size iterations
                (MemPool.addFreeBlock pool (pageBlock page (pagesFor size)))
                (log ++ [{ count := pagesFor size, reply := some page }])

/-- The new pages become a free block. -/
theorem page_simulated (source : PageSource) {count page : ℕ} (positive : 0 < count)
    (reply : source.getPage log count = some page)
    (simulated : Simulated heap { pool, live, log }) (fuel : ℕ) :
    Returns
      (addFreeBlock fuel (heap.setSize page (sub64 (mul64 count pageSize) memBlockHeaderSize)) page)
      (pool.freeBlocks.length + 1 < fuel) fun heap' =>
        Simulated heap'
            { pool := MemPool.addFreeBlock pool (pageBlock page count)
              live
              log := log ++ [{ count, reply := some page }] } ∧
          Frame (Allowed live (log ++ [{ count, reply := some page }])) heap.memory
            heap'.memory := by
  have represents := simulated.represents.page positive reply
  have room : memBlockHeaderSize ≤ (pageBlock page count).size := by
    rcases source.placed reply with ⟨nonnull, fits⟩
    simp only [pageSize] at nonnull fits
    simp only [pageBlock, memBlockHeaderSize, pageSize]
    rw [mul64_of_lt (by omega), sub64_of_le (by omega) (by omega)]
    omega
  have sound : Sound (pageBlock page count :: pool.freeBlocks) := by
    apply Represented.sound represents
    intro other otherMem
    rcases List.mem_cons.mp otherMem with rfl | inFree
    · exact room
    · exact simulated.roomy other inFree
  have apart := (List.pairwise_cons.mp sound.headers.apart).1
  have written : Frame (Allowed live (log ++ [{ count, reply := some page }])) heap.memory
      (heap.setSize page (pageBlock page count).size).memory := by
    apply frame_setSize heap
    intro address lower upper
    exact Represented.allowed represents (sound.headerIn List.mem_cons_self address lower upper)
  have models : Models (heap.setSize page (pageBlock page count).size) pool :=
    ⟨simulated.models.linked.setSize page _ (fun null => absurd rfl null)
        fun other otherMem => (apart other otherMem).sizeApart,
      simulated.models.sizeInUse, simulated.models.sizeFree, simulated.models.allocCount,
      simulated.models.freeCount⟩
  have sizeFits : (pageBlock page count).size < 2 ^ 64 := by
    simp only [pageBlock]
    exact sub64_lt _ _
  have stored : (heap.setSize page (pageBlock page count).size).size page =
      (pageBlock page count).size :=
    Heap.size_setSize_same sizeFits
  have added := addFreeBlock_simulated fuel _ (pageBlock page count)
    { pool, live, log := log ++ [{ count, reply := some page }] } models stored
    (simulated.sizes.frame written) represents simulated.roomy room
  apply added.imp id
  rintro heap' ⟨simulated', frame⟩
  exact ⟨simulated', written.trans frame⟩

/-- What `alloc` leaves behind, if the block model leaves this behind. -/
structure AllocSimulated (heap : Heap) (size : ℕ) (live : List Allocation)
    (expected : MemPool.Alloc) (result : Alloc) : Prop where
  block : result.block = expected.block.map MemBlock.addr
  log : result.log = expected.log
  simulated : Simulated result.heap (expected.world size live)
  frame : Frame (Allowed live result.log) heap.memory result.heap.memory

theorem allocLoop_found (source : PageSource) (fuel iterations : ℕ) {left : Pool}
    (found : MemPool.findExistingFreeBlock pool size = some (block, left))
    (rest : LeavesRest block size) (simulated : Simulated heap { pool, live, log }) :
    Returns (allocLoop source fuel size (iterations + 1) heap log)
      (pool.freeBlocks.length + left.freeBlocks.length + 1 < fuel)
      (AllocSimulated heap size live
        (MemPool.allocLoop source size (iterations + 1) pool log)) := by
  have finds := findExistingFreeBlock_simulated size fuel simulated
  rw [found] at finds
  rw [allocLoop, allocLoop_of_found iterations found]
  cases result : findExistingFreeBlock size fuel heap heap.freeBlocks 0 with
  | none =>
      apply Returns.of_none
      intro enough
      exact finds.not_enough result (by omega)
  | some result' =>
      rcases result' with ⟨heap', ptr⟩
      rcases finds.2 _ result with ⟨isBlock, simulated', frame⟩
      simp only at isBlock
      subst isBlock
      have nonnull : block.addr ≠ 0 := Nat.ne_of_gt simulated'.represents.split_fits.1
      have cut := split_simulated fuel simulated' rest
      simp only [ne_eq, nonnull, not_false_eq_true, if_true]
      apply Returns.map
      · exact cut.imp (fun enough => by omega) fun _ post => post
      · rintro heap'' ⟨⟨models, sizes, represents, roomy⟩, frame'⟩
        have sameAddr : (MemPool.split left block size).1.addr = block.addr := by
          simp only [MemPool.split]
          split_ifs <;> rfl
        refine ⟨congrArg some sameAddr.symm, rfl, ⟨?_, ?_, ?_, roomy⟩, frame.trans frame'⟩
        · exact ⟨models.linked.of_eq rfl rfl, models.sizeInUse, models.sizeFree,
            congrArg (add64 · 1) models.allocCount, models.freeCount⟩
        · intro allocation allocationMem
          exact (Heap.size_eq rfl).trans (sizes allocation allocationMem)
        · exact ⟨represents.placed, represents.tiles, represents.pagesDisjoint,
            represents.sizeInUse, represents.sizeFree, represents.requested⟩

/-- An iteration that finds no block goes on with the reply of `getPage`. -/
theorem allocLoop_missing (source : PageSource) (fuel iterations : ℕ)
    (missing : MemPool.findExistingFreeBlock pool size = none)
    (simulated : Simulated heap { pool, live, log }) {enough : Prop} {expected : Alloc → Prop}
    (fuelEnough : enough → pool.freeBlocks.length < fuel)
    (refused : source.getPage log (pagesFor size) = none →
      expected
        { block := none, heap, log := log ++ [{ count := pagesFor size, reply := none }] })
    (granted : ∀ page heap', source.getPage log (pagesFor size) = some page →
      addFreeBlock fuel
        (heap.setSize page (sub64 (mul64 (pagesFor size) pageSize) memBlockHeaderSize)) page =
          some heap' →
      Returns (allocLoop source fuel size iterations heap'
        (log ++ [{ count := pagesFor size, reply := some page }])) enough expected)
    (added : ∀ page, source.getPage log (pagesFor size) = some page → enough →
      (addFreeBlock fuel
        (heap.setSize page (sub64 (mul64 (pagesFor size) pageSize) memBlockHeaderSize))
        page).isSome) :
    Returns (allocLoop source fuel size (iterations + 1) heap log) enough expected := by
  have finds := findExistingFreeBlock_simulated size fuel simulated
  rw [missing] at finds
  rw [allocLoop]
  cases result : findExistingFreeBlock size fuel heap heap.freeBlocks 0 with
  | none =>
      exact Returns.of_none fun isEnough => finds.not_enough result (fuelEnough isEnough)
  | some result' =>
      have same : result' = (heap, 0) := finds.2 _ result
      rw [same]
      simp only [ne_eq, not_true_eq_false, if_false]
      cases reply : source.getPage log (pagesFor size) with
      | none => exact Returns.of_some (refused reply)
      | some page =>
          simp only
          cases inserted : addFreeBlock fuel
              (heap.setSize page (sub64 (mul64 (pagesFor size) pageSize) memBlockHeaderSize))
              page with
          | none =>
              apply Returns.of_none
              intro isEnough
              have returned := added page reply isEnough
              rw [inserted] at returned
              exact absurd returned (by simp)
          | some heap' => exact granted page heap' reply inserted

theorem allocLoop_log (source : PageSource) (size iterations : ℕ) (pool : Pool)
    (log : List PageRequest) :
    ∃ more, (MemPool.allocLoop source size iterations pool log).log = log ++ more := by
  induction iterations generalizing pool log with
  | zero => exact ⟨[], (List.append_nil log).symm⟩
  | succ iterations ih =>
      cases found : MemPool.findExistingFreeBlock pool size with
      | some result =>
          rw [allocLoop_of_found iterations found]
          exact ⟨[], (List.append_nil log).symm⟩
      | none =>
          cases reply : source.getPage log (pagesFor size) with
          | none =>
              rw [allocLoop_of_refused iterations found reply]
              exact ⟨_, rfl⟩
          | some page =>
              rw [allocLoop_of_page iterations found reply]
              rcases ih (MemPool.addFreeBlock pool (pageBlock page (pagesFor size)))
                (log ++ [{ count := pagesFor size, reply := some page }]) with ⟨more, later⟩
              exact ⟨_, later.trans (List.append_assoc _ _ _)⟩

/-- With enough fuel, which depends on the free list only, `alloc` does what the block model
does. -/
theorem allocLoop_simulated (source : PageSource) (size iterations : ℕ) (pool : Pool)
    (live : List Allocation) (log : List PageRequest)
    (rest : ∀ block, taken source size iterations pool log = some block → LeavesRest block size) :
    ∃ bound, ∀ fuel heap, Simulated heap { pool, live, log } →
      Returns (allocLoop source fuel size iterations heap log) (bound < fuel)
        (AllocSimulated heap size live (MemPool.allocLoop source size iterations pool log)) := by
  induction iterations generalizing pool log with
  | zero =>
      refine ⟨0, ?_⟩
      intro fuel heap simulated
      exact Returns.of_some ⟨rfl, rfl, simulated, Frame.refl _⟩
  | succ iterations ih =>
      cases found : MemPool.findExistingFreeBlock pool size with
      | some result =>
          rcases result with ⟨block, left⟩
          have isTaken : taken source size (iterations + 1) pool log = some block := by
            rcases Option.map_eq_some_iff.mp found with ⟨⟨first, others⟩, firstFound, same⟩
            rw [taken, firstFound, ← (Prod.mk.inj same).1]
          refine ⟨pool.freeBlocks.length + left.freeBlocks.length + 1, ?_⟩
          intro fuel heap simulated
          exact allocLoop_found source fuel iterations found (rest block isTaken) simulated
      | none =>
          have missing : findFirst size pool.freeBlocks = none := Option.map_eq_none_iff.mp found
          cases reply : source.getPage log (pagesFor size) with
          | none =>
              refine ⟨pool.freeBlocks.length, ?_⟩
              intro fuel heap simulated
              rw [allocLoop_of_refused iterations found reply]
              apply allocLoop_missing source fuel iterations found simulated id
              · intro _
                exact ⟨rfl, rfl, ⟨simulated.models, simulated.sizes,
                  simulated.represents.refused (pagesFor size), simulated.roomy⟩, Frame.refl _⟩
              · intro page heap' granted
                exact absurd (reply.symm.trans granted) (by simp)
              · intro page granted
                exact absurd (reply.symm.trans granted) (by simp)
          | some page =>
              have later := ih (MemPool.addFreeBlock pool (pageBlock page (pagesFor size)))
                (log ++ [{ count := pagesFor size, reply := some page }]) (by
                  intro block isTaken
                  apply rest block
                  rw [taken, missing, reply]
                  exact isTaken)
              rcases later with ⟨bound, later⟩
              refine ⟨max bound (pool.freeBlocks.length + 1), ?_⟩
              intro fuel heap simulated
              have added := page_simulated source pagesFor_pos reply simulated fuel
              rw [allocLoop_of_page iterations found reply]
              apply allocLoop_missing source fuel iterations found simulated
              · intro enough
                omega
              · intro refused
                exact absurd (reply.symm.trans refused) (by simp)
              · intro page' heap' granted inserted
                rw [← Option.some.inj (reply.symm.trans granted)] at inserted ⊢
                rcases added.2 heap' inserted with ⟨simulated', frame⟩
                apply (later fuel heap' simulated').imp
                · intro enough
                  omega
                · intro result post
                  rcases allocLoop_log source size iterations
                    (MemPool.addFreeBlock pool (pageBlock page (pagesFor size)))
                    (log ++ [{ count := pagesFor size, reply := some page }]) with ⟨more, longer⟩
                  refine ⟨post.block, post.log, post.simulated, Frame.trans ?_ post.frame⟩
                  rw [post.log, longer]
                  exact frame.mono fun address => allowed_append more
              · intro page' granted enough
                rw [← Option.some.inj (reply.symm.trans granted)]
                exact added.1 (by omega)

/-- `free` finds the header of a block from its data. -/
theorem data_header {block : MemBlock} (placed : block.Placed) :
    sub64 (block.addr + memBlockHeaderSize) memBlockHeaderSize = block.addr := by
  have fits := placed.fits
  simp only [MemBlock.region] at fits
  simp only [sub64, memBlockHeaderSize] at *
  omega

/-- `free` of a block that is large enough to be freed. -/
theorem free_simulated {world : MemPool.World} {before after : List Allocation}
    {allocation : Allocation} (simulated : Simulated heap world)
    (inUse : world.live = before ++ allocation :: after)
    (released : memBlockHeaderSize ≤ allocation.block.size) (fuel : ℕ) :
    Returns (free fuel heap (allocation.block.addr + memBlockHeaderSize))
      (world.pool.freeBlocks.length + 1 < fuel) fun heap' =>
        Simulated heap'
            { world with
              pool := MemPool.free world.pool allocation.block
              live := before ++ after } ∧
          Frame (Allowed (before ++ after) world.log) heap.memory heap'.memory := by
  have represents := simulated.represents.release inUse
  have placed := represents.placed allocation.block (by simp)
  have stored : heap.size allocation.block.addr = allocation.block.size :=
    simulated.sizes allocation (by simp [inUse])
  have nonnull : allocation.block.addr + memBlockHeaderSize ≠ 0 := by
    simp only [memBlockHeaderSize]
    omega
  have added := addFreeBlock_simulated fuel
    { heap with sizeInUse := sub64 heap.sizeInUse allocation.block.size } allocation.block
    { world with
      pool := { world.pool with
        sizeInUse := sub64 world.pool.sizeInUse allocation.block.size }
      live := before ++ after }
    ⟨simulated.models.linked.of_eq rfl rfl,
      congrArg (sub64 · allocation.block.size) simulated.models.sizeInUse,
      simulated.models.sizeFree, simulated.models.allocCount, simulated.models.freeCount⟩
    ((Heap.size_eq rfl).trans stored)
    (fun other otherMem => (Heap.size_eq rfl).trans (simulated.sizes other (by
      rw [inUse]
      rcases List.mem_append.mp otherMem with inBefore | inAfter
      · exact List.mem_append_left _ inBefore
      · exact List.mem_append_right _ (List.mem_cons_of_mem _ inAfter))))
    represents simulated.roomy released
  rw [free, if_neg nonnull]
  simp only [data_header placed, stored, if_pos released]
  apply added.map
  rintro heap' ⟨⟨models, sizes, represents', roomy⟩, frame⟩
  rw [free_of_released released]
  refine ⟨⟨?_, ?_, ?_, roomy⟩, frame⟩
  · exact ⟨models.linked.of_eq rfl rfl, models.sizeInUse, models.sizeFree, models.allocCount,
      congrArg (add64 · 1) models.freeCount⟩
  · intro other otherMem
    exact (Heap.size_eq rfl).trans (sizes other otherMem)
  · exact ⟨represents'.placed, represents'.tiles, represents'.pagesDisjoint,
      represents'.sizeInUse, represents'.sizeFree, represents'.requested⟩

end

end Dvnetos.MemPool.Bytes
