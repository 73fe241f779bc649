import Dvnetos.Memory.PoolInvariant

/-!
# What is freed comes back

A session is a run of a pool as its users see it: the blocks they have been given
and have not passed to `free` yet, and those they have passed to it. A block is
passed to `free` once. Whether it comes back depends on its recorded size.
-/

namespace Dvnetos.MemPool

open Word Regions

/-- `addFreeBlock` changes the free list and its size, and nothing else. -/
theorem addFreeBlock_eq (pool : Pool) (block : MemBlock) :
    addFreeBlock pool block =
      { pool with
        sizeFree := (addFreeBlock pool block).sizeFree
        freeBlocks := (addFreeBlock pool block).freeBlocks } := by
  induction pool, block using addFreeBlock.induct with
  | case1 pool block pass merged ih =>
      rw [addFreeBlock, dif_pos merged]
      exact ih
  | case2 pool block pass unmerged =>
      rw [addFreeBlock, dif_neg unmerged]
      rfl

@[simp]
theorem addFreeBlock_freeCount (pool : Pool) (block : MemBlock) :
    (addFreeBlock pool block).freeCount = pool.freeCount := by
  rw [addFreeBlock_eq]

@[simp]
theorem addFreeBlock_allocCount (pool : Pool) (block : MemBlock) :
    (addFreeBlock pool block).allocCount = pool.allocCount := by
  rw [addFreeBlock_eq]

@[simp]
theorem split_freeCount (pool : Pool) (block : MemBlock) (size : ℕ) :
    (split pool block size).2.freeCount = pool.freeCount := by
  rw [split]
  split_ifs
  · simp
  · rfl

theorem findExistingFreeBlock_freeCount {pool left : Pool} {size : ℕ} {block : MemBlock}
    (found : findExistingFreeBlock pool size = some (block, left)) :
    left.freeCount = pool.freeCount := by
  rcases Option.map_eq_some_iff.mp found with ⟨⟨first, others⟩, _, same⟩
  simp only [Prod.mk.injEq] at same
  rw [← same.2]

theorem allocLoop_freeCount (source : PageSource) (size iterations : ℕ) (pool : Pool)
    (log : List PageRequest) :
    (allocLoop source size iterations pool log).pool.freeCount = pool.freeCount := by
  induction iterations generalizing pool log with
  | zero => rfl
  | succ iterations ih =>
      cases found : findExistingFreeBlock pool size with
      | some result =>
          rw [allocLoop_of_found iterations found]
          simp only [split_freeCount]
          exact findExistingFreeBlock_freeCount found
      | none =>
          cases reply : source.getPage log (pagesFor size) with
          | none => rw [allocLoop_of_refused iterations found reply]
          | some page =>
              rw [allocLoop_of_page iterations found reply, ih]
              exact addFreeBlock_freeCount _ _

/-- A pool and what its users know of it. -/
structure Session where
  pool : Pool
  log : List PageRequest
  /-- The blocks that have not been passed to `free` yet. -/
  held : List Allocation
  /-- The blocks that have been passed to `free`. -/
  freed : List Allocation
  /-- How often `alloc` has returned a block. -/
  allocs : ℕ

/-- No calls have been made yet. -/
def Session.initial : Session := { pool := .empty, log := [], held := [], freed := [], allocs := 0 }

/-- `alloc(size)`. -/
def Session.alloc (session : Session) (source : PageSource) (size : ℕ) : Session :=
  let result := MemPool.alloc source size session.pool session.log
  let given := (result.block.map fun block => ⟨block, size⟩).toList
  { session with
    pool := result.pool
    log := result.log
    held := given ++ session.held
    allocs := session.allocs + given.length }

/-- `free` of the data of a block, which the user has in between `before` and `after`. -/
def Session.free (session : Session) (before : List Allocation) (allocation : Allocation)
    (after : List Allocation) : Session :=
  { session with
    pool := MemPool.free session.pool allocation.block
    held := before ++ after
    freed := allocation :: session.freed }

/--
The sessions that calls lead to, in any order. `alloc` is asked for sizes that are allowed, and
`free` is passed null or a block that has not been passed to it before.
-/
inductive Run (source : PageSource) (allowed : ℕ → Prop) : Session → Prop where
  | initial : Run source allowed .initial
  | alloc {session : Session} {size : ℕ} (run : Run source allowed session)
      (sizeFits : size < 2 ^ 64) (isAllowed : allowed size) :
      Run source allowed (session.alloc source size)
  | freeNull {session : Session} (run : Run source allowed session) : Run source allowed session
  | free {session : Session} {before after : List Allocation} {allocation : Allocation}
      (run : Run source allowed session) (isHeld : session.held = before ++ allocation :: after) :
      Run source allowed (session.free before allocation after)

/-- `free` leaves the block alone. -/
def Ignored (allocation : Allocation) : Prop := allocation.block.size < memBlockHeaderSize

instance : DecidablePred Ignored := fun _ => inferInstanceAs (Decidable (_ < _))

/-- The blocks that have been passed to `free`, which has left them alone. -/
def Session.ignored (session : Session) : List Allocation :=
  session.freed.filter fun allocation => decide (Ignored allocation)

/-- The blocks that `free` has left alone are still in use. -/
def Session.world (session : Session) : World :=
  { pool := session.pool, live := session.held ++ session.ignored, log := session.log }

/-- The blocks in use may be listed in any order. -/
theorem Represents.perm {pool : Pool} {live live' : List Allocation} {log : List PageRequest}
    (represents : Represents [] { pool, live, log }) (perm : live.Perm live') :
    Represents [] { pool, live := live', log } := by
  apply represents.retile
  · apply Retiles.of_perm
    exact (perm.map Allocation.block).append_right _
  · rw [represents.sizeInUse]
    exact totalSize_perm (perm.map Allocation.block)
  · exact represents.sizeFree
  · intro allocation allocationMem
    exact represents.requested allocation (perm.mem_iff.mpr allocationMem)

section

variable {source : PageSource} {allowed : ℕ → Prop} {session : Session}

theorem Session.ignored_free_of_ignored {before after : List Allocation} {allocation : Allocation}
    (ignored : Ignored allocation) :
    (session.free before allocation after).ignored = allocation :: session.ignored :=
  List.filter_cons_of_pos (decide_eq_true ignored)

theorem Session.ignored_free_of_released {before after : List Allocation}
    {allocation : Allocation} (released : ¬Ignored allocation) :
    (session.free before allocation after).ignored = session.ignored :=
  List.filter_cons_of_neg (by simp [released])

theorem run_represents (run : Run source allowed session) : Represents [] session.world := by
  induction run with
  | initial => exact represents_initial
  | @alloc session size run sizeFits isAllowed ih =>
      have allocated := represents_allocLoop source size 2 ih
      rw [Alloc.world, ← List.append_assoc] at allocated
      exact allocated
  | freeNull run ih => exact ih
  | @free session before after allocation run isHeld ih =>
      by_cases ignored : Ignored allocation
      · have unchanged : (session.free before allocation after).pool = session.pool :=
          free_of_ignored ignored
        rw [Session.world, unchanged, Session.ignored_free_of_ignored ignored]
        apply ih.perm
        simp only [isHeld, Session.free, List.append_assoc, List.cons_append]
        apply List.Perm.append_left
        exact List.Perm.symm List.perm_middle
      · have inUse : session.world.live =
            before ++ allocation :: (after ++ session.ignored) := by
          simp [Session.world, isHeld]
        have step : Step source session.world _ := .free inUse (Nat.not_lt.mp ignored)
        have stepped := represents_step ih step
        rw [Session.world, Session.ignored_free_of_released ignored]
        simpa [Session.free, Session.world] using stepped

/-- Every block that was given is held or has been passed to `free`. -/
theorem run_allocs (run : Run source allowed session) :
    session.allocs = session.held.length + session.freed.length := by
  induction run with
  | initial => rfl
  | alloc run sizeFits isAllowed ih =>
      simp only [Session.alloc, List.length_append]
      omega
  | freeNull run ih => exact ih
  | free run isHeld ih =>
      rw [isHeld] at ih
      simp only [Session.free, List.length_append, List.length_cons] at ih ⊢
      omega

theorem Session.free_freeCount (before after : List Allocation) {allocation : Allocation}
    (released : ¬Ignored allocation) :
    (session.free before allocation after).pool.freeCount = add64 session.pool.freeCount 1 := by
  have returned : (session.free before allocation after).pool = _ :=
    free_of_released (Nat.not_lt.mp released)
  rw [returned, addFreeBlock_freeCount]

/-- `countFree` counts the blocks that `free` has not left alone. -/
theorem run_freeCount (run : Run source allowed session) :
    session.pool.freeCount =
      session.freed.countP (fun allocation => decide ¬Ignored allocation) % 2 ^ 64 := by
  induction run with
  | initial => rfl
  | @alloc session size run sizeFits isAllowed ih =>
      have same : (session.alloc source size).pool.freeCount = session.pool.freeCount :=
        allocLoop_freeCount source size 2 session.pool session.log
      rw [same]
      exact ih
  | freeNull run ih => exact ih
  | @free session before after allocation run isHeld ih =>
      by_cases ignored : Ignored allocation
      · have unchanged : (session.free before allocation after).pool = session.pool :=
          free_of_ignored ignored
        rw [unchanged, ih]
        simp [Session.free, ignored]
      · rw [Session.free_freeCount before after ignored, ih]
        simp [Session.free, ignored, add64]

end

/-- All that users were given is back, and so is every byte of the pages. -/
structure NothingLeaked (session : Session) : Prop where
  usedSize : session.pool.sizeInUse = 0
  countFree : session.pool.freeCount = session.allocs % 2 ^ 64
  returned : ∀ address, (∃ page ∈ pages session.log, page.Contains address) ↔
    ∃ block ∈ session.pool.freeBlocks, block.region.Contains address

/--
Once every block that `alloc` has returned was passed to `free`, nothing is leaked if and only if
none of these blocks had a recorded size of less than eight bytes.
-/
theorem nothingLeaked_iff {source : PageSource} {session : Session}
    (run : Run source (fun _ => True) session) (allFreed : session.held = []) :
    NothingLeaked session ↔
      ∀ allocation ∈ session.freed, memBlockHeaderSize ≤ allocation.block.size := by
  have wellFormed := (run_represents run).wellFormed
  constructor
  · intro nothingLeaked allocation allocationMem
    by_contra tooSmall
    have inUse : allocation ∈ session.world.live := by
      apply List.mem_append_right
      exact List.mem_filter.mpr ⟨allocationMem, decide_eq_true (Nat.not_le.mp tooSmall)⟩
    have header : allocation.block.region.Contains allocation.block.addr := by
      simp [Region.Contains, MemBlock.region, memBlockHeaderSize]
    -- the header of the block is in a page, but in no free block
    have inPage := (wellFormed.cover allocation.block.addr).mp
      ⟨allocation.block, List.mem_append_left _ (List.mem_map_of_mem inUse), header⟩
    rcases (nothingLeaked.returned _).mp inPage with ⟨free, freeMem, inFree⟩
    have disjoint := wellFormed.disjoint
    rw [World.blocks, regions_append, List.pairwise_append] at disjoint
    exact disjoint.2.2 allocation.block.region
      (List.mem_map_of_mem (List.mem_map_of_mem inUse)) free.region (List.mem_map_of_mem freeMem)
      allocation.block.addr header inFree
  · intro released
    have noneIgnored : ∀ allocation ∈ session.freed, ¬Ignored allocation := by
      intro allocation allocationMem
      exact Nat.not_lt.mpr (released allocation allocationMem)
    have noneLive : session.world.live = [] := by
      simpa [Session.world, allFreed, Session.ignored] using noneIgnored
    refine ⟨?_, ?_, ?_⟩
    · have counted := wellFormed.sizeInUse
      rw [noneLive] at counted
      exact counted
    · have all : session.freed.countP (fun allocation => decide ¬Ignored allocation) =
          session.freed.length := by
        apply List.countP_eq_length.mpr
        intro allocation allocationMem
        exact decide_eq_true (noneIgnored allocation allocationMem)
      rw [run_freeCount run, all, run_allocs run, allFreed, List.length_nil, Nat.zero_add]
    · intro address
      have cover := wellFormed.cover address
      rw [World.blocks, noneLive] at cover
      exact cover.symm

end Dvnetos.MemPool
