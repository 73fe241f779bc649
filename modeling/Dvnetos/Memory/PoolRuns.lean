import Dvnetos.Memory.PoolCalls

/-!
# Runs of the pool on bytes

The claim about bytes is about runs: users store to the blocks they hold while
calls of `alloc` and `free` follow each other in any order. A run on bytes
follows a run on blocks, as long as no `alloc` cuts off a rest of one to seven
bytes.
-/

namespace Dvnetos.MemPool.Bytes

open Word Regions TracedStore

/--
The stores of the last call lie in the pages, and outside the size words and the
requested bytes of the blocks that were in use and still are.
-/
structure StoresInside (world next : World) : Prop where
  inPages : ∀ address ∈ next.heap.memory.footprint,
    ∃ page ∈ pages next.log, page.Contains address
  outsideLive : ∀ address ∈ next.heap.memory.footprint, ∀ allocation ∈ world.live,
    allocation ∈ next.live →
    ¬(allocation.block ≤ address ∧
      address < allocation.block + memBlockHeaderSize + allocation.requested)

/-- What users know of a block in use. -/
def Live.ofAllocation (allocation : Allocation) : Live :=
  ⟨allocation.block.addr, allocation.requested⟩

/-- The bytes represent a world of blocks that calls have reached. -/
structure Simulates (source : PageSource) (world : World) (blocks : MemPool.World) : Prop where
  heap : Simulated world.heap blocks
  log : world.log = blocks.log
  live : world.live = blocks.live.map Live.ofAllocation
  reachable : Reachable source blocks

theorem freeList_of_linked {heap : Heap} {blocks : List MemBlock} (slot : ℕ)
    (linked : Linked heap slot blocks) (nonnull : ∀ block ∈ blocks, block.addr ≠ 0) :
    heap.freeList (blocks.length + 1) (heap.link slot) = some blocks := by
  induction blocks generalizing slot with
  | nil => rw [Heap.freeList, linked, if_pos rfl]
  | cons block rest ih =>
      rcases linked with ⟨link, size, linked⟩
      have blockNonnull := nonnull block (by simp)
      have later := ih block.addr linked fun other otherMem => nonnull other (by simp [otherMem])
      rw [Heap.link, if_neg blockNonnull] at later
      rw [Heap.freeList, link, if_neg blockNonnull, List.length_cons, later, size]
      rfl

namespace Simulated

variable {heap : Heap} {world : MemPool.World}

theorem freeList (simulated : Simulated heap world) :
    heap.freeList (world.pool.freeBlocks.length + 1) heap.freeBlocks =
      some world.pool.freeBlocks :=
  freeList_of_linked 0 simulated.models.linked simulated.sound.headers.nonnull

theorem toPool (simulated : Simulated heap world) :
    heap.toPool world.pool.freeBlocks = world.pool := by
  simp only [Heap.toPool]
  rw [simulated.models.sizeInUse, simulated.models.sizeFree, simulated.models.allocCount,
    simulated.models.freeCount]

theorem of_cells {heap' : Heap} (simulated : Simulated heap world)
    (models : Models heap' world.pool)
    (sizes : ∀ allocation ∈ world.live,
      heap'.size allocation.block.addr = heap.size allocation.block.addr) :
    Simulated heap' world := by
  refine ⟨models, ?_, simulated.represents, simulated.roomy⟩
  intro allocation allocationMem
  exact (sizes allocation allocationMem).trans (simulated.sizes allocation allocationMem)

theorem untraced (simulated : Simulated heap world) : Simulated heap.untraced world := by
  apply simulated.of_cells
  · exact ⟨simulated.models.linked.of_eq rfl rfl, simulated.models.sizeInUse,
      simulated.models.sizeFree, simulated.models.allocCount, simulated.models.freeCount⟩
  · intro allocation _
    exact Heap.size_eq rfl

/-- A user stores behind the header of a block in use. -/
theorem store {allocation : Allocation} {address : ℕ} (value : UInt8)
    (simulated : Simulated heap world) (inUse : allocation ∈ world.live)
    (behindHeader : allocation.block.addr + memBlockHeaderSize ≤ address)
    (inRequested : address < allocation.block.addr + memBlockHeaderSize + allocation.requested) :
    Simulated { heap with memory := .fresh (heap.memory.store address value).cells } world := by
  have requested := simulated.represents.requested allocation inUse
  have contains : allocation.block.region.Contains address := by
    simp only [MemBlock.region, Region.Contains]
    simp only [memBlockHeaderSize] at *
    omega
  have word : ∀ block, (address < block ∨ block + 8 ≤ address) →
      loadWord (heap.memory.store address value).cells block 8 =
        loadWord heap.memory.cells block 8 := by
    intro block outside
    apply loadWord_congr
    intro i bound
    apply cells_store_of_ne
    omega
  have outsideFree : ∀ other ∈ world.pool.freeBlocks,
      address < other.addr ∨ other.addr + 16 ≤ address := by
    intro other otherMem
    by_contra inHeader
    have covered := simulated.sound.headerIn otherMem address (by omega) (by omega)
    exact (Represented.allowed simulated.represents covered).1
      (covered_of_mem (List.mem_map_of_mem inUse) contains)
  have models := simulated.models
  apply simulated.of_cells
  · refine ⟨models.linked.move ?_ ?_ ?_, models.sizeInUse, models.sizeFree, models.allocCount,
      models.freeCount⟩
    · rw [Heap.link_zero, Heap.link_zero]
    · intro other otherMem
      have outside := outsideFree other otherMem
      exact word other.addr (by omega)
    · intro other otherMem
      have outside := outsideFree other otherMem
      have nonnull := simulated.sound.headers.nonnull other otherMem
      simp only [Heap.link, if_neg nonnull, Heap.next, memBlockHeaderSize, TracedStore.fresh_cells]
      exact word (other.addr + 8) (by omega)
  · intro other otherMem
    apply word
    by_contra inSize
    have otherContains : other.block.region.Contains address := by
      simp only [MemBlock.region, Region.Contains, memBlockHeaderSize]
      omega
    have symmetric : Std.Symm Region.Disjoint := ⟨fun _ _ => Region.Disjoint.symm⟩
    have disjoint := pairwise_disjoint_of_coverage simulated.represents.once
    have regionMem : ∀ third ∈ world.live,
        third.block.region ∈ regions ([] ++ world.blocks) := by
      intro third thirdMem
      have inBlocks : third.block ∈ world.blocks :=
        List.mem_append_left _ (List.mem_map_of_mem thirdMem)
      exact List.mem_map_of_mem inBlocks
    by_cases same : other.block.region = allocation.block.region
    · have sameAddr : other.block.addr = allocation.block.addr := congrArg Region.start same
      simp only [memBlockHeaderSize] at behindHeader
      omega
    · exact disjoint.forall (regionMem other otherMem) (regionMem allocation inUse) same address
        otherContains contains

end Simulated

variable {source : PageSource} {world next : World} {blocks : MemPool.World}

/-- Blocks that are in use before and after the call are outside of what is allowed. -/
theorem storesInside_of_frame {survivors : List Allocation} {before : TracedStore ℕ UInt8}
    (frame : Frame (Allowed survivors next.log) before next.heap.memory)
    (untraced : before.footprint = [])
    (surviving : ∀ live ∈ world.live, live ∈ next.live →
      ∃ allocation ∈ survivors, Live.ofAllocation allocation = live)
    (requested : ∀ allocation ∈ survivors, allocation.requested ≤ allocation.block.size) :
    StoresInside world next := by
  have allowed : ∀ address ∈ next.heap.memory.footprint, Allowed survivors next.log address := by
    intro address stored
    rcases frame.footprint address stored with inside | earlier
    · exact inside
    · rw [untraced] at earlier
      cases earlier
  constructor
  · intro address stored
    exact (allowed address stored).2
  · rintro address stored live inUse still ⟨lower, upper⟩
    rcases surviving live inUse still with ⟨allocation, allocationMem, rfl⟩
    apply (allowed address stored).1
    apply covered_of_mem (List.mem_map_of_mem allocationMem)
    have enough := requested allocation allocationMem
    simp only [Live.ofAllocation] at lower upper
    simp only [MemBlock.region, Region.Contains]
    omega

theorem rest_of_leavesRoom {size : ℕ} (simulated : Simulated world.heap blocks)
    (log : world.log = blocks.log) (room : LeavesRoom source world (.alloc size)) :
    ∀ block, taken source size 2 blocks.pool blocks.log = some block → LeavesRest block size := by
  intro block isTaken
  apply room _ _ block simulated.freeList
  rw [simulated.toPool, log]
  exact isTaken

theorem alloc_simulates {size fuel : ℕ} {result : Alloc} (simulates : Simulates source world blocks)
    (room : LeavesRoom source world (.alloc size)) (sizeFits : size < 2 ^ 64)
    (returned : alloc source fuel size world.heap.untraced world.log = some result) :
    Simulates source
        { heap := result.heap
          live := (result.block.map fun block => ⟨block, size⟩).toList ++ world.live
          log := result.log }
        (blocks.alloc source size) ∧
      StoresInside world
        { heap := result.heap
          live := (result.block.map fun block => ⟨block, size⟩).toList ++ world.live
          log := result.log } := by
  rcases allocLoop_simulated source size 2 blocks.pool blocks.live blocks.log
    (rest_of_leavesRoom simulates.heap simulates.log room) with ⟨bound, returns⟩
  rw [alloc, simulates.log] at returned
  have post := (returns fuel world.heap.untraced simulates.heap.untraced).2 result returned
  constructor
  · refine ⟨post.simulated, post.log, ?_, simulates.reachable.step (.alloc blocks size sizeFits)⟩
    rw [post.block, simulates.live]
    cases returnedBlock : (MemPool.allocLoop source size 2 blocks.pool blocks.log).block with
    | none => simp [MemPool.World.alloc, MemPool.alloc, Alloc.world, returnedBlock]
    | some block =>
        simp [MemPool.World.alloc, MemPool.alloc, MemPool.Alloc.world, returnedBlock,
          Live.ofAllocation]
  · apply storesInside_of_frame post.frame rfl
    · intro live inUse _
      rw [simulates.live] at inUse
      exact List.mem_map.mp inUse
    · exact simulates.heap.represents.requested

/-- The block in use that the bytes show at some place of their list. -/
theorem live_split {before after : List Live} {live : Live}
    (simulates : Simulates source world blocks) (inUse : world.live = before ++ live :: after) :
    ∃ before' allocation after', blocks.live = before' ++ allocation :: after' ∧
      before'.map Live.ofAllocation = before ∧ Live.ofAllocation allocation = live ∧
      after'.map Live.ofAllocation = after := by
  rw [simulates.live] at inUse
  rcases List.map_eq_append_iff.mp inUse with ⟨before', rest, split, isBefore, isRest⟩
  rcases List.map_eq_cons_iff.mp isRest with ⟨allocation, after', isCons, isLive, isAfter⟩
  exact ⟨before', allocation, after', isCons ▸ split, isBefore, isLive, isAfter⟩

/-- A call that stores nothing. -/
theorem storesInside_untraced (footprint : next.heap.memory.footprint = []) :
    StoresInside world next := by
  constructor
  · intro address stored
    rw [footprint] at stored
    cases stored
  · intro address stored
    rw [footprint] at stored
    cases stored

theorem free_ignored (fuel : ℕ) {heap : Heap} {allocation : Allocation}
    (simulated : Simulated heap blocks) (inUse : allocation ∈ blocks.live)
    (ignored : allocation.block.size < memBlockHeaderSize) :
    free fuel heap (allocation.block.addr + memBlockHeaderSize) = some heap := by
  have inBlocks : allocation.block ∈ blocks.blocks :=
    List.mem_append_left _ (List.mem_map_of_mem inUse)
  have placed := simulated.represents.placed allocation.block inBlocks
  have nonnull : allocation.block.addr + memBlockHeaderSize ≠ 0 := by
    simp only [memBlockHeaderSize]
    omega
  rw [free, if_neg nonnull]
  simp only [data_header placed, simulated.sizes allocation inUse, if_neg (Nat.not_le.mpr ignored)]

theorem free_simulates {before after : List Live} {allocation : Live} {fuel : ℕ} {heap : Heap}
    (simulates : Simulates source world blocks)
    (inUse : world.live = before ++ allocation :: after)
    (returned : free fuel world.heap.untraced (allocation.block + memBlockHeaderSize) = some heap) :
    (∃ blocks', Simulates source
        { world with
          heap
          live :=
            if memBlockHeaderSize ≤ world.heap.size allocation.block then before ++ after
            else world.live } blocks') ∧
      StoresInside world
        { world with
          heap
          live :=
            if memBlockHeaderSize ≤ world.heap.size allocation.block then before ++ after
            else world.live } := by
  rcases live_split simulates inUse with ⟨before', held, after', split, rfl, rfl, rfl⟩
  have heldMem : held ∈ blocks.live := by simp [split]
  have stored : world.heap.size (Live.ofAllocation held).block = held.block.size :=
    simulates.heap.sizes held heldMem
  by_cases released' : memBlockHeaderSize ≤ world.heap.size (Live.ofAllocation held).block
  · have released := released'
    rw [stored] at released
    rw [if_pos released']
    rcases (free_simulated simulates.heap.untraced split released fuel).2 heap returned
      with ⟨simulated, frame⟩
    constructor
    · exact ⟨_, simulated, simulates.log, (List.map_append).symm,
        simulates.reachable.step (.free split released)⟩
    · apply storesInside_of_frame (simulates.log ▸ frame) rfl
      · intro live _ still
        exact List.mem_map.mp (List.map_append ▸ still)
      · exact simulated.represents.requested
  · have released := released'
    rw [stored] at released
    have ignored := free_ignored fuel simulates.heap.untraced heldMem (by omega)
    have same := Option.some.inj (ignored.symm.trans returned)
    subst same
    rw [if_neg released']
    constructor
    · have reachable := simulates.reachable.step (.freeIgnored heldMem (by omega))
      rw [free_of_ignored (by omega)] at reachable
      exact ⟨blocks, simulates.heap.untraced, simulates.log, simulates.live, reachable⟩
    · exact storesInside_untraced rfl

/-- One step keeps the simulation and stores only where it may. -/
theorem step_simulates {call : Call} (simulates : Simulates source world blocks)
    (step : Step source world call next) (room : LeavesRoom source world call) :
    (∃ blocks', Simulates source next blocks') ∧ StoresInside world next := by
  cases step with
  | alloc sizeFits returned =>
      rcases alloc_simulates simulates room sizeFits returned with ⟨simulates', inside⟩
      exact ⟨⟨_, simulates'⟩, inside⟩
  | freeNull =>
      exact ⟨⟨blocks, simulates.heap.untraced, simulates.log, simulates.live,
        simulates.reachable⟩, storesInside_untraced rfl⟩
  | free inUse returned => exact free_simulates simulates inUse returned
  | store value inUse behindHeader inRequested =>
      rw [simulates.live] at inUse
      rcases List.mem_map.mp inUse with ⟨allocation, allocationMem, rfl⟩
      exact ⟨⟨blocks, simulates.heap.store value allocationMem behindHeader inRequested,
        simulates.log, simulates.live, simulates.reachable⟩, storesInside_untraced rfl⟩

theorem simulates_initial (source : PageSource) (cells : ℕ → UInt8) :
    Simulates source (.initial cells) .initial := by
  refine ⟨⟨⟨?_, rfl, rfl, rfl, rfl⟩, ?_, represents_initial, ?_⟩, rfl, rfl, .initial⟩
  · exact Heap.link_zero _
  · intro allocation allocationMem
    cases allocationMem
  · intro block blockMem
    cases blockMem

/-- The run on bytes follows a run on blocks. -/
theorem run_simulates (run : Run source (LeavesRoom source) world) :
    ∃ blocks, Simulates source world blocks := by
  induction run with
  | initial cells => exact ⟨.initial, simulates_initial source cells⟩
  | step _ step admitted ih =>
      rcases ih with ⟨blocks, simulates⟩
      exact (step_simulates simulates step admitted).1

/--
In a run in which no `alloc` takes a block that is nine to fifteen bytes larger
than what is asked for, every call returns, and the allocator stores only inside
the pages and outside of what is in use.
-/
theorem run_storesInside (run : Run source (LeavesRoom source) world) :
    (∀ call next, Step source world call next → LeavesRoom source world call →
        StoresInside world next) ∧
      (∀ size < 2 ^ 64, LeavesRoom source world (.alloc size) →
        ∃ next, Step source world (.alloc size) next) ∧
      ∀ allocation ∈ world.live,
        ∃ next, Step source world (.free (allocation.block + memBlockHeaderSize)) next := by
  rcases run_simulates run with ⟨blocks, simulates⟩
  refine ⟨?_, ?_, ?_⟩
  · intro call next step room
    exact (step_simulates simulates step room).2
  · intro size sizeFits room
    rcases allocLoop_simulated source size 2 blocks.pool blocks.live blocks.log
      (rest_of_leavesRoom simulates.heap simulates.log room) with ⟨bound, returns⟩
    have returned := (returns (bound + 1) world.heap.untraced simulates.heap.untraced).1
      (Nat.lt_succ_self bound)
    rw [← simulates.log] at returned
    rcases Option.isSome_iff_exists.mp returned with ⟨result, isResult⟩
    exact ⟨_, .alloc sizeFits isResult⟩
  · intro live liveMem
    rcases List.append_of_mem liveMem with ⟨before, after, inUse⟩
    rcases live_split simulates inUse with ⟨before', allocation, after', split, _, rfl, _⟩
    by_cases released : memBlockHeaderSize ≤ allocation.block.size
    · have returned := (free_simulated simulates.heap.untraced split released
        (blocks.pool.freeBlocks.length + 2)).1 (Nat.lt_succ_self _)
      rcases Option.isSome_iff_exists.mp returned with ⟨heap, isHeap⟩
      exact ⟨_, .free inUse isHeap⟩
    · have allocationMem : allocation ∈ blocks.live := by simp [split]
      have returned := free_ignored 0 simulates.heap.untraced allocationMem (by omega)
      exact ⟨_, .free inUse returned⟩

/-- Two blocks, of which one is freed, and a third one for which more pages are fetched. -/
theorem runs_threeBlocks :
    ((World.runs consecutivePages 9 [.alloc 10, .alloc 20, .store 4106 7, .free 4122,
      .alloc 5000]).map fun world => (world.live, world.log.length)) =
        some ([⟨4114, 5000⟩, ⟨4096, 10⟩], 2) := by
  decide +kernel

/-- The freed block is merged with what is left of the page, and that with the new pages. -/
theorem run_storesInside_threeBlocks :
    ∃ world next, Run consecutivePages (LeavesRoom consecutivePages) world ∧
      world.log.length = 2 ∧ Step consecutivePages world (.free 4122) next ∧
      StoresInside world next := by
  rcases Option.map_eq_some_iff.mp runs_threeBlocks with ⟨world, ends, observed⟩
  rcases Prod.mk.inj observed with ⟨live, requests⟩
  have run := run_of_runs ends
  have inside := run_storesInside run
  rcases inside.2.2 ⟨4114, 5000⟩ (by simp [live]) with ⟨next, step⟩
  exact ⟨world, next, run, requests, step, inside.1 _ next step trivial⟩

/-- A run without any condition on the rest that is cut off. -/
abbrev AnyRun (source : PageSource) : World → Prop := Run source fun _ _ => True

theorem alloc_4079 :
    ((alloc consecutivePages 5 4079 (World.initial fun _ => 0).heap.untraced []).map fun result =>
      (decide (8192 ∈ result.heap.memory.footprint), pages result.log)) =
        some (true, [⟨4096, 4096⟩]) := by
  decide

/--
From a new page of 4096 bytes, `alloc(4079)` leaves a rest of one byte. Its link
ends seven bytes behind the page.
-/
theorem small_rest_outside :
    ¬∀ (source : PageSource) (world next : World) (call : Call), AnyRun source world →
      Step source world call next → StoresInside world next := by
  intro claim
  rcases Option.map_eq_some_iff.mp alloc_4079 with ⟨result, returned, observed⟩
  simp only [Prod.mk.injEq, decide_eq_true_eq] at observed
  have inside := claim consecutivePages _ _ _ (.initial fun _ => 0)
    (.alloc (show 4079 < 2 ^ 64 by decide) returned)
  rcases inside.inPages 8192 observed.1 with ⟨page, pageMem, contains⟩
  simp only [observed.2, List.mem_singleton] at pageMem
  subst pageMem
  simp [Region.Contains] at contains

end Dvnetos.MemPool.Bytes
