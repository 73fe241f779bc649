import Dvnetos.Memory.PoolFailure
import Dvnetos.Memory.PoolRuns

/-!
# When `alloc` fails, in memory

A call of `alloc` that returns null has taken no block, whatever rest a block would have left. It
therefore does on bytes what it does on blocks, in every state that calls have reached which leave
room for a link.
-/

namespace Dvnetos.MemPool.Bytes

open Word Regions

/-- What a call of `alloc` that returns null is to have done: nothing but ask for pages in vain. -/
structure ChangesNothing (world : World) (result : Alloc) : Prop where
  refused : ∃ made, result.log = world.log ++ made ∧ ∃ request ∈ made, request.reply = none
  freeList : ∃ fuel blocks, world.heap.freeList fuel world.heap.freeBlocks = some blocks ∧
    result.heap.freeList fuel result.heap.freeBlocks = some blocks
  sizeInUse : result.heap.sizeInUse = world.heap.sizeInUse
  sizeFree : result.heap.sizeFree = world.heap.sizeFree
  allocCount : result.heap.allocCount = world.heap.allocCount
  freeCount : result.heap.freeCount = world.heap.freeCount

section

variable {source : PageSource} {size : ℕ}

/-- If nothing is returned on blocks, no block is taken. -/
theorem taken_of_null {iterations : ℕ} {pool : Pool} {log : List PageRequest}
    (null : (MemPool.allocLoop source size iterations pool log).block = none) :
    taken source size iterations pool log = none := by
  induction iterations generalizing pool log with
  | zero => rfl
  | succ iterations ih =>
      cases found : MemPool.findExistingFreeBlock pool size with
      | some result =>
          rw [allocLoop_of_found iterations found] at null
          cases null
      | none =>
          have missing : findFirst size pool.freeBlocks = none := Option.map_eq_none_iff.mp found
          rw [taken, missing]
          cases reply : source.getPage log (pagesFor size) with
          | none => rfl
          | some page =>
              rw [allocLoop_of_page iterations found reply] at null
              exact ih null

/-- If null is returned on bytes, no block is taken. -/
theorem allocLoop_taken (fuel iterations : ℕ) {heap : Heap} {pool : Pool} {live : List Allocation}
    {log : List PageRequest} (simulated : Simulated heap { pool, live, log }) :
    Returns (allocLoop source fuel size iterations heap log) False fun result =>
      result.block = none → taken source size iterations pool log = none := by
  induction iterations generalizing heap pool log with
  | zero => exact Returns.of_some fun _ => rfl
  | succ iterations ih =>
      cases found : MemPool.findExistingFreeBlock pool size with
      | some block =>
          have finds := findExistingFreeBlock_simulated size fuel simulated
          rw [found] at finds
          rw [allocLoop]
          cases search : findExistingFreeBlock size fuel heap heap.freeBlocks 0 with
          | none => exact Returns.of_none id
          | some result =>
              rcases finds.2 result search with ⟨isBlock, simulated', _⟩
              have nonnull : result.2 ≠ 0 :=
                isBlock ▸ Nat.ne_of_gt simulated'.represents.split_fits.1
              simp only [nonnull, ne_eq, not_false_eq_true, if_true]
              refine ⟨False.elim, ?_⟩
              intro result' returned null
              rcases Option.map_eq_some_iff.mp returned with ⟨_, _, rfl⟩
              cases null
      | none =>
          have missing : findFirst size pool.freeBlocks = none := Option.map_eq_none_iff.mp found
          apply allocLoop_missing source fuel iterations found simulated False.elim
          · intro refused _
            rw [taken, missing, refused]
          · intro page heap' granted inserted
            have added := page_simulated source pagesFor_pos granted simulated fuel
            apply (ih (added.2 heap' inserted).1).imp id
            intro result takesNone null
            rw [taken, missing, granted]
            exact takesNone null
          · intro page _ enough
            exact enough.elim

variable {world : World} {blocks : MemPool.World}

/-- A call that takes no block does on bytes what it does on blocks. -/
theorem alloc_simulated_of_null (simulates : Simulates source world blocks)
    (takesNone : taken source size 2 blocks.pool blocks.log = none) :
    ∃ bound, ∀ fuel, Returns (alloc source fuel size world.heap world.log) (bound < fuel)
      (AllocSimulated world.heap size blocks.live
        (MemPool.alloc source size blocks.pool blocks.log)) := by
  have noRest : ∀ block, taken source size 2 blocks.pool blocks.log = some block →
      LeavesRest block size := by
    intro block isTaken
    exact absurd (takesNone.symm.trans isTaken) (by simp)
  rcases allocLoop_simulated source size 2 blocks.pool blocks.live blocks.log noRest with
    ⟨bound, returns⟩
  rw [simulates.log]
  exact ⟨bound, fun fuel => returns fuel world.heap simulates.heap⟩

theorem changesNothing_iff_failsCleanly {expected : MemPool.Alloc} {result : Alloc}
    (simulates : Simulates source world blocks)
    (post : AllocSimulated world.heap size blocks.live expected result) :
    ChangesNothing world result ↔ FailsCleanly blocks expected := by
  have before := simulates.heap.models
  have after := post.simulated.models
  constructor
  · intro nothing
    refine ⟨?_, ?_⟩
    · rw [← simulates.log, ← post.log]
      exact nothing.refused
    · rcases nothing.freeList with ⟨fuel, list, isBefore, isAfter⟩
      have sameBefore := freeList_unique isBefore simulates.heap.freeList
      have sameAfter := freeList_unique isAfter post.simulated.freeList
      have samePool : result.heap.toPool list = world.heap.toPool list := by
        rw [Heap.toPool, Heap.toPool, nothing.sizeInUse, nothing.sizeFree, nothing.allocCount,
          nothing.freeCount]
      have poolAfter : result.heap.toPool list = expected.pool := by
        rw [sameAfter]
        exact post.simulated.toPool
      rw [← poolAfter, samePool, sameBefore]
      exact simulates.heap.toPool
  · rintro ⟨refused, samePool⟩
    have listAfter : result.heap.freeList (expected.pool.freeBlocks.length + 1)
        result.heap.freeBlocks = some expected.pool.freeBlocks := post.simulated.freeList
    rw [samePool] at listAfter
    refine ⟨?_, ⟨_, _, simulates.heap.freeList, listAfter⟩, ?_, ?_, ?_, ?_⟩
    · rw [post.log, simulates.log]
      exact refused
    · rw [after.sizeInUse, before.sizeInUse]
      exact congrArg Pool.sizeInUse samePool
    · rw [after.sizeFree, before.sizeFree]
      exact congrArg Pool.sizeFree samePool
    · rw [after.allocCount, before.allocCount]
      exact congrArg Pool.allocCount samePool
    · rw [after.freeCount, before.freeCount]
      exact congrArg Pool.freeCount samePool

/--
In every state that calls have reached which leave room for a link: a failing `alloc(size)` was
refused pages and leaves the free list and the counters as they were exactly if the size and the
header do not wrap around, or the first request for pages is refused.
-/
theorem alloc_changesNothing_iff (run : Run source (LeavesRoom source) world) :
    (∀ fuel result, alloc source fuel size world.heap world.log = some result →
        result.block = none → ChangesNothing world result) ↔
      size + memBlockHeaderSize < 2 ^ 64 ∨ source.getPage world.log (pagesFor size) = none := by
  rcases run_simulates run with ⟨blocks, simulates⟩
  have onBlocks := alloc_failsCleanly_iff simulates.reachable size
  rw [← simulates.log] at onBlocks
  rw [← onBlocks, simulates.log]
  constructor
  · intro nothing null
    rcases alloc_simulated_of_null simulates (taken_of_null null) with ⟨bound, returns⟩
    rw [simulates.log] at returns
    have returned := (returns (bound + 1)).1 (Nat.lt_succ_self bound)
    rcases Option.isSome_iff_exists.mp returned with ⟨result, isResult⟩
    have post := (returns (bound + 1)).2 result isResult
    have isNull : result.block = none := by rw [post.block, null, Option.map_none]
    exact (changesNothing_iff_failsCleanly simulates post).mp (nothing _ result isResult isNull)
  · intro clean fuel result isResult isNull
    have takesNone := (allocLoop_taken fuel 2 simulates.heap).2 result isResult isNull
    rcases alloc_simulated_of_null simulates takesNone with ⟨bound, returns⟩
    rw [simulates.log] at returns
    have post := (returns fuel).2 result isResult
    have null : (MemPool.alloc source size blocks.pool blocks.log).block = none :=
      Option.map_eq_none_iff.mp (post.block.symm.trans isNull)
    exact (changesNothing_iff_failsCleanly simulates post).mpr (clean null)

end

/-- A request for all 2^52 pages is refused, as they would leave no room for address zero. -/
theorem runs_allPages :
    ((World.runs consecutivePages 9 [.alloc 10, .alloc 20, .free 4122, .alloc 5000]).bind
      fun world => (alloc consecutivePages 9 (2 ^ 64 - 9) world.heap world.log).map fun result =>
        (world.log.length, result.block)) = some (2, none) := by
  decide +kernel

theorem alloc_changesNothing_allPages :
    ∃ world result, Run consecutivePages (LeavesRoom consecutivePages) world ∧
      world.log.length = 2 ∧
      alloc consecutivePages 9 (2 ^ 64 - 9) world.heap world.log = some result ∧
      result.block = none ∧ ChangesNothing world result := by
  rcases Option.bind_eq_some_iff.mp runs_allPages with ⟨world, ends, called⟩
  rcases Option.map_eq_some_iff.mp called with ⟨result, returned, observed⟩
  rcases Prod.mk.inj observed with ⟨requests, null⟩
  have run := run_of_runs ends
  have nothing := (alloc_changesNothing_iff run).mpr (Or.inl (by decide)) 9 result returned null
  exact ⟨world, result, run, requests, returned, null, nothing⟩

theorem alloc_wrapped :
    ((alloc consecutivePages 9 (2 ^ 64 - 1) (World.initial fun _ => 0).heap []).map fun result =>
      (result.block, result.heap.sizeFree)) = some (none, 8184) := by
  decide +kernel

/-- A request of 2^64 - 1 bytes fails and leaves pages in the pool. -/
theorem alloc_fails_with_pages :
    ¬∀ (source : PageSource) (world : World) (size fuel : ℕ) (result : Alloc),
      AnyRun source world → size < 2 ^ 64 →
      alloc source fuel size world.heap world.log = some result → result.block = none →
      ChangesNothing world result := by
  intro claim
  rcases Option.map_eq_some_iff.mp alloc_wrapped with ⟨result, returned, observed⟩
  rcases Prod.mk.inj observed with ⟨null, sizeFree⟩
  have nothing := claim consecutivePages _ (2 ^ 64 - 1) 9 result (.initial fun _ => 0) (by decide)
    returned null
  have unchanged : result.heap.sizeFree = 0 := nothing.sizeFree
  omega

end Dvnetos.MemPool.Bytes
