import Dvnetos.Memory.PoolRuns
import Dvnetos.Memory.PoolSessions

/-!
# What is freed comes back, in memory

A session on bytes: users store to the blocks they hold and pass each of them to `free` once.
Whether a block comes back depends on the size word that `free` finds in front of its data. As long
as every `alloc` leaves room for a link, a session on bytes follows one on blocks.
-/

namespace Dvnetos.MemPool.Bytes

open Word Regions

/-- The pool in memory and what its users know of it. -/
structure Session where
  /-- The blocks in use are those that have not been passed to `free` yet. -/
  world : World
  /-- The blocks that have been passed to `free`, each with its size word at that time. -/
  freed : List MemBlock
  /-- How often `alloc` has returned a block. -/
  allocs : ℕ

namespace Session

/-- An empty pool in a memory with any contents. -/
def initial (cells : ℕ → UInt8) : Session := { world := .initial cells, freed := [], allocs := 0 }

/-- What users know after a call that has led to the state `next`. -/
def after (session : Session) (next : World) : Call → Session
  | .alloc _ =>
      -- there is one more block in use if `alloc` has not returned null
      { session with
        world := next
        allocs := session.allocs + (next.live.length - session.world.live.length) }
  | .free ptr =>
      if ptr = 0 then { session with world := next }
      else
        let block := ptr - memBlockHeaderSize
        { session with
          world := { next with
            live := session.world.live.eraseP fun allocation => allocation.At ptr }
          freed := ⟨block, session.world.heap.size block⟩ :: session.freed }
  | .store _ _ => { session with world := next }

/-- What the call makes of the session, if it returns with this fuel. -/
def call (source : PageSource) (fuel : ℕ) (session : Session) (call : Call) : Option Session :=
  (session.world.call source fuel call).map fun next => session.after next call

/-- The sessions that calls of users lead to, where every call is admitted by `admits`. -/
inductive Run (source : PageSource) (admits : World → Call → Prop) : Session → Prop where
  | initial (cells : ℕ → UInt8) : Run source admits (.initial cells)
  | step {session next : Session} {call : Call} {fuel : ℕ} (run : Run source admits session)
      (legal : session.world.Legal call) (admitted : admits session.world call)
      (returned : session.call source fuel call = some next) : Run source admits next

theorem Run.mono {source : PageSource} {admits weaker : World → Call → Prop} {session : Session}
    (run : Run source admits session)
    (implies : ∀ world call, admits world call → weaker world call) :
    Run source weaker session := by
  induction run with
  | initial cells => exact .initial cells
  | step _ legal admitted returned ih => exact .step ih legal (implies _ _ admitted) returned

end Session

/-- The session on bytes shows the same as one on blocks. -/
structure Follows (source : PageSource) (session : Session) (blocks : MemPool.Session) :
    Prop where
  heap : Simulated session.world.heap blocks.world
  log : session.world.log = blocks.log
  held : session.world.live = blocks.held.map Live.ofAllocation
  freed : session.freed = blocks.freed.map Allocation.block
  allocs : session.allocs = blocks.allocs
  run : MemPool.Run source (fun _ => True) blocks

theorem Simulated.perm {heap : Heap} {pool : Pool} {live live' : List Allocation}
    {log : List PageRequest} (simulated : Simulated heap { pool, live, log })
    (perm : live.Perm live') : Simulated heap { pool, live := live', log } := by
  refine ⟨simulated.models, ?_, simulated.represents.perm perm, simulated.roomy⟩
  intro allocation allocationMem
  exact simulated.sizes allocation (perm.mem_iff.mpr allocationMem)

section

variable {source : PageSource} {session : Session} {blocks : MemPool.Session}

theorem follows_initial (source : PageSource) (cells : ℕ → UInt8) :
    Follows source (.initial cells) .initial :=
  ⟨(simulates_initial source cells).heap, rfl, rfl, rfl, rfl, .initial⟩

theorem follows_alloc {size fuel : ℕ} {result : Alloc} (follows : Follows source session blocks)
    (room : LeavesRoom source session.world (.alloc size)) (sizeFits : size < 2 ^ 64)
    (returned : alloc source fuel size session.world.heap.untraced session.world.log =
      some result) :
    Follows source
      (session.after
        { heap := result.heap
          live := (result.block.map fun block => ⟨block, size⟩).toList ++ session.world.live
          log := result.log } (.alloc size))
      (blocks.alloc source size) := by
  rcases allocLoop_simulated source size 2 blocks.pool blocks.world.live blocks.log
    (rest_of_leavesRoom follows.heap follows.log room) with ⟨bound, returns⟩
  rw [alloc, follows.log] at returned
  have post := (returns fuel session.world.heap.untraced follows.heap.untraced).2 result returned
  refine ⟨?_, post.log, ?_, follows.freed, ?_, .alloc follows.run sizeFits trivial⟩
  · have simulated := post.simulated
    rw [MemPool.Alloc.world, MemPool.Session.world, ← List.append_assoc] at simulated
    exact simulated
  · simp only [Session.after, MemPool.Session.alloc, MemPool.alloc, List.map_append, post.block,
      follows.held]
    cases (MemPool.allocLoop source size 2 blocks.pool blocks.log).block with
    | none => rfl
    | some block => rfl
  · simp only [Session.after, MemPool.Session.alloc, MemPool.alloc, follows.allocs, post.block,
      List.length_append, Nat.add_sub_cancel]
    cases (MemPool.allocLoop source size 2 blocks.pool blocks.log).block with
    | none => rfl
    | some block => rfl

/-- A block that `free` leaves alone stays in use, behind those that are held. -/
theorem free_world_of_ignored (before : List Allocation) (allocation : Allocation)
    (after : List Allocation) (ignored : Ignored allocation) :
    (blocks.free before allocation after).world =
      { pool := blocks.pool
        live := before ++ after ++ allocation :: blocks.ignored
        log := blocks.log } := by
  rw [MemPool.Session.world, Session.ignored_free_of_ignored ignored]
  simp [MemPool.Session.free, free_of_ignored ignored]

/-- `free` of a block that is held, whether it is left alone or not. -/
theorem follows_free {before after : List Live} {allocation : Live} {fuel : ℕ} {heap : Heap}
    (follows : Follows source session blocks)
    (isHeld : session.world.live = before ++ allocation :: after)
    (returned : free fuel session.world.heap.untraced (allocation.block + memBlockHeaderSize) =
      some heap) :
    ∃ blocks', Follows source
      { session with
        world := { session.world with heap, live := before ++ after }
        freed := ⟨allocation.block, session.world.heap.size allocation.block⟩ :: session.freed }
      blocks' := by
  rw [follows.held] at isHeld
  rcases List.map_eq_append_iff.mp isHeld with ⟨before', rest, split, rfl, isRest⟩
  rcases List.map_eq_cons_iff.mp isRest with ⟨held, after', rfl, rfl, rfl⟩
  have inUse : blocks.world.live = before' ++ held :: (after' ++ blocks.ignored) := by
    simp [MemPool.Session.world, split]
  have heldMem : held ∈ blocks.world.live := by simp [inUse]
  have stored : session.world.heap.size held.block.addr = held.block.size :=
    follows.heap.sizes held heldMem
  refine ⟨blocks.free before' held after', ?_, follows.log, List.map_append.symm, ?_,
    follows.allocs, .free follows.run split⟩
  · by_cases ignored : Ignored held
    · have unchanged := free_ignored fuel follows.heap.untraced heldMem ignored
      rw [← Option.some.inj (unchanged.symm.trans returned)]
      rw [free_world_of_ignored before' held after' ignored]
      apply follows.heap.untraced.perm
      rw [split, List.append_assoc, List.append_assoc]
      apply List.Perm.append_left
      exact List.perm_middle.symm
    · have released : memBlockHeaderSize ≤ held.block.size := Nat.not_lt.mp ignored
      have freed := ((free_simulated follows.heap.untraced inUse released fuel).2 heap returned).1
      rw [MemPool.Session.world, Session.ignored_free_of_released ignored]
      simpa [MemPool.Session.free, MemPool.Session.world] using freed
  · simp only [MemPool.Session.free, List.map_cons, follows.freed, Live.ofAllocation, stored]

theorem follows_call {next : Session} {call : Call} {fuel : ℕ}
    (follows : Follows source session blocks) (legal : session.world.Legal call)
    (room : LeavesRoom source session.world call)
    (returned : session.call source fuel call = some next) :
    ∃ blocks', Follows source next blocks' := by
  rcases Option.map_eq_some_iff.mp returned with ⟨world, made, rfl⟩
  cases call with
  | alloc size =>
      rcases Option.map_eq_some_iff.mp made with ⟨result, isResult, rfl⟩
      exact ⟨_, follows_alloc follows room legal isResult⟩
  | free ptr =>
      rw [World.call] at made
      by_cases null : ptr = 0
      · rw [if_pos null] at made
        rw [Session.after, if_pos null, ← Option.some.inj made]
        exact ⟨blocks, follows.heap.untraced, follows.log, follows.held, follows.freed,
          follows.allocs, follows.run⟩
      · rw [if_neg null] at made
        rcases Option.map_eq_some_iff.mp made with ⟨heap, isHeap, rfl⟩
        rcases eraseP_at (legal.resolve_left null) with
          ⟨before, allocation, after, isHeld, rfl, erased⟩
        rw [Session.after, if_neg null, erased]
        exact follows_free follows isHeld isHeap
  | store address value =>
      rw [← Option.some.inj made]
      rcases legal with ⟨allocation, inUse, behindHeader, inRequested⟩
      rw [follows.held] at inUse
      rcases List.mem_map.mp inUse with ⟨held, heldMem, rfl⟩
      have stored := follows.heap.store value (List.mem_append_left _ heldMem) behindHeader
        inRequested
      exact ⟨blocks, stored, follows.log, follows.held, follows.freed, follows.allocs, follows.run⟩

/-- A session in which every `alloc` leaves room follows a session on blocks. -/
theorem run_follows (run : Session.Run source (LeavesRoom source) session) :
    ∃ blocks, Follows source session blocks := by
  induction run with
  | initial cells => exact ⟨.initial, follows_initial source cells⟩
  | step _ legal room returned ih =>
      rcases ih with ⟨blocks, follows⟩
      exact follows_call follows legal room returned

end

/-- All that users were given is back, and the free list in memory has every byte of the pages. -/
structure AllReturned (session : Session) : Prop where
  usedSize : session.world.heap.sizeInUse = 0
  countFree : session.world.heap.freeCount = session.allocs % 2 ^ 64
  returned : ∃ fuel blocks,
    session.world.heap.freeList fuel session.world.heap.freeBlocks = some blocks ∧
      ∀ address, (∃ page ∈ pages session.world.log, page.Contains address) ↔
        ∃ block ∈ blocks, block.region.Contains address

theorem allReturned_iff_nothingLeaked {source : PageSource} {session : Session}
    {blocks : MemPool.Session} (follows : Follows source session blocks) :
    AllReturned session ↔ NothingLeaked blocks := by
  have models := follows.heap.models
  constructor
  · rintro ⟨usedSize, countFree, fuel, list, isList, covers⟩
    rw [freeList_unique isList follows.heap.freeList, follows.log] at covers
    refine ⟨models.sizeInUse.symm.trans usedSize, ?_, covers⟩
    rw [← follows.allocs, ← countFree]
    exact models.freeCount.symm
  · rintro ⟨usedSize, countFree, covers⟩
    refine ⟨models.sizeInUse.trans usedSize, ?_, _, _, follows.heap.freeList, ?_⟩
    · rw [follows.allocs, ← countFree]
      exact models.freeCount
    · rw [follows.log]
      exact covers

/--
Once every block that `alloc` has returned was passed to `free`, in a session in which every `alloc`
left room for a link: all is returned if and only if `free` has found a size of at least eight bytes
in front of each block.
-/
theorem allReturned_iff {source : PageSource} {session : Session}
    (run : Session.Run source (LeavesRoom source) session) (allFreed : session.world.live = []) :
    AllReturned session ↔ ∀ block ∈ session.freed, memBlockHeaderSize ≤ block.size := by
  rcases run_follows run with ⟨blocks, follows⟩
  have noneHeld : blocks.held = [] := by
    rw [follows.held] at allFreed
    exact List.map_eq_nil_iff.mp allFreed
  rw [allReturned_iff_nothingLeaked follows, nothingLeaked_iff follows.run noneHeld, follows.freed]
  simp only [List.forall_mem_map]

/-- Where calls lead from an empty pool in a memory of zeros. -/
def Session.runs (source : PageSource) (fuel : ℕ) (calls : List Call) : Option Session :=
  script (fun session => session.world.admits source fuel) (Session.call source fuel)
    (.initial fun _ => 0) calls

theorem session_of_runs {source : PageSource} {fuel : ℕ} {calls : List Call} {session : Session}
    (ends : Session.runs source fuel calls = some session) :
    Session.Run source (LeavesRoom source) session := by
  refine script_induction ?_ (Session.Run.initial fun _ => 0) ends
  intro state call next run checked made
  rcases Bool.and_eq_true_iff.mp checked with ⟨legal, room⟩
  exact .step run (of_decide_eq_true legal) (leavesRoom_of_found room) made

/-- Two blocks of the first page, one that starts there and ends in two more pages, all freed. -/
def threeBlocksFreed : List Call :=
  [.alloc 10, .alloc 20, .store 4106 7, .free 4122, .alloc 5000, .free 4104, .free 4122]

theorem runs_threeBlocksFreed :
    ((Session.runs consecutivePages 9 threeBlocksFreed).map fun session =>
      (session.world.live, session.freed, session.allocs)) =
        some ([], [⟨4114, 5000⟩, ⟨4096, 10⟩, ⟨4114, 20⟩], 3) := by
  decide +kernel

theorem allReturned_iff_threeBlocks :
    ∃ session, Session.Run consecutivePages (LeavesRoom consecutivePages) session ∧
      session.allocs = 3 ∧ AllReturned session := by
  rcases Option.map_eq_some_iff.mp runs_threeBlocksFreed with ⟨session, ends, observed⟩
  simp only [Prod.mk.injEq] at observed
  rcases observed with ⟨noneHeld, freed, allocs⟩
  have run := session_of_runs ends
  have large : ∀ block ∈ session.freed, memBlockHeaderSize ≤ block.size := by
    rw [freed]
    decide
  exact ⟨session, run, allocs, (allReturned_iff run noneHeld).mpr large⟩

theorem runs_oneByte :
    ((Session.runs consecutivePages 9 [.alloc 1, .free 4104]).map fun session =>
      (session.world.live, session.world.heap.sizeInUse)) = some ([], 1) := by
  decide +kernel

/-- `alloc(1)` returns a block of one byte, which `free` leaves alone. -/
theorem alloc_one_stays :
    ¬∀ (source : PageSource) (session : Session), Session.Run source (fun _ _ => True) session →
      session.world.live = [] → AllReturned session := by
  intro claim
  rcases Option.map_eq_some_iff.mp runs_oneByte with ⟨session, ends, observed⟩
  rcases Prod.mk.inj observed with ⟨noneHeld, usedSize⟩
  have run := (session_of_runs ends).mono fun _ _ _ => trivial
  have nothing := (claim _ session run noneHeld).usedSize
  omega

end Dvnetos.MemPool.Bytes
