import Dvnetos.Lib.Regions
import Dvnetos.Lib.Word

/-!
# The memory pool

This file models `MemPool` from `memory/memalloc.cpp` on blocks: a block is its
address and its recorded size, and the free list is a list of blocks. Sizes,
addresses and counters are of type `size_t`. The bytes of the headers and the
links are the subject of `PoolBytes`: on blocks, the link of a rest of one to
seven bytes overwrites nothing.

`getPage` is a parameter that may look at all earlier requests. What the pool
needs of it is a field of `PageSource`: a page that is handed out is not null,
does not wrap, and is disjoint from all earlier ones.
-/

namespace Dvnetos.MemPool

open Word Regions

/-- `PAGE_SIZE`. -/
def pageSize : ℕ := 4096

/-- `sizeof(MemBlock) - sizeof(decltype(MemBlock::next))`. -/
def memBlockHeaderSize : ℕ := 8

/-- A block, by the address of its header and the size recorded there. -/
structure MemBlock where
  addr : ℕ
  size : ℕ
  deriving DecidableEq

/-- The block with its header. -/
def MemBlock.region (block : MemBlock) : Region := ⟨block.addr, block.size + memBlockHeaderSize⟩

/-- `block->data`. -/
def MemBlock.data (block : MemBlock) : ℕ := add64 block.addr memBlockHeaderSize

/-- The members of `MemPool` that change. -/
structure Pool where
  sizeInUse : ℕ
  sizeFree : ℕ
  allocCount : ℕ
  freeCount : ℕ
  freeBlocks : List MemBlock

/-- A pool that has not been used yet. -/
def Pool.empty : Pool :=
  { sizeInUse := 0, sizeFree := 0, allocCount := 0, freeCount := 0, freeBlocks := [] }

/-- The block `mergeIfPossible(&b1, &b2, prev)` leaves in `b2` if it merges the two. -/
def mergeIfPossible (b1 b2 : MemBlock) : Option MemBlock :=
  if add64 (add64 b1.addr b1.size) memBlockHeaderSize = b2.addr then
    some { addr := b1.addr, size := add64 b1.size (add64 b2.size memBlockHeaderSize) }
  else if add64 (add64 b2.addr b2.size) memBlockHeaderSize = b1.addr then
    some { addr := b2.addr, size := add64 b2.size (add64 b1.size memBlockHeaderSize) }
  else none

/-- What one pass of `addFreeBlock` over the free list leaves behind. -/
structure Pass where
  kept : List MemBlock
  block : MemBlock
  sizeFree : ℕ
  merged : Bool
  /-- How many blocks of the list are in front of `*addAt`. -/
  addAt : ℕ

/--
The inner loop of `addFreeBlock` over the rest of the free list, behind `index`
blocks that it has kept. A block that is merged leaves the list.
-/
def mergePass : List MemBlock → MemBlock → ℕ → Bool → ℕ → ℕ → Pass
  | [], block, sizeFree, merged, _, addAt => { kept := [], block, sizeFree, merged, addAt }
  | n :: rest, block, sizeFree, merged, index, addAt =>
      match mergeIfPossible n block with
      | some block => mergePass rest block (sub64 sizeFree n.size) true index addAt
      | none =>
          let addAt := if !merged && n.size ≤ block.size then index + 1 else addAt
          let pass := mergePass rest block sizeFree merged (index + 1) addAt
          { pass with kept := n :: pass.kept }

theorem mergePass_kept_length (list : List MemBlock) (block : MemBlock) (sizeFree : ℕ)
    (merged : Bool) (index addAt : ℕ) :
    (mergePass list block sizeFree merged index addAt).kept.length ≤ list.length ∧
      (merged = false → (mergePass list block sizeFree merged index addAt).merged = true →
        (mergePass list block sizeFree merged index addAt).kept.length < list.length) := by
  induction list generalizing block sizeFree merged index addAt with
  | nil => simp [mergePass]
  | cons n rest ih =>
      rw [mergePass]
      cases mergeIfPossible n block with
      | some block' =>
          have shorter := (ih block' (sub64 sizeFree n.size) true index addAt).1
          simp only [List.length_cons]
          constructor
          · omega
          · intro _ _
            omega
      | none =>
          rcases ih block sizeFree merged (index + 1)
            (if !merged && n.size ≤ block.size then index + 1 else addAt) with ⟨kept, less⟩
          simp only [List.length_cons]
          constructor
          · omega
          · intro unmerged now
            have := less unmerged now
            omega

/-- One iteration of the outer loop of `addFreeBlock`. -/
def addPass (pool : Pool) (block : MemBlock) : Pass :=
  mergePass pool.freeBlocks block pool.sizeFree false 0 0

/-- The end of `addFreeBlock`, after a pass that has merged nothing. -/
def insert (pool : Pool) (pass : Pass) : Pool :=
  { pool with
    freeBlocks := pass.kept.take pass.addAt ++ pass.block :: pass.kept.drop pass.addAt
    sizeFree := add64 pass.sizeFree pass.block.size }

/-- `addFreeBlock(block)`: passes over the list until one of them merges nothing. -/
def addFreeBlock (pool : Pool) (block : MemBlock) : Pool :=
  let pass := addPass pool block
  if _again : pass.merged = true then
    addFreeBlock { pool with freeBlocks := pass.kept, sizeFree := pass.sizeFree } pass.block
  else insert pool pass
termination_by pool.freeBlocks.length
decreasing_by exact (mergePass_kept_length _ _ _ _ _ _).2 rfl _again

/-- The first block of the list that has at least `size` bytes, and the list without it. -/
def findFirst (size : ℕ) : List MemBlock → Option (MemBlock × List MemBlock)
  | [] => none
  | block :: rest =>
      if size ≤ block.size then some (block, rest)
      else (findFirst size rest).map fun (found, others) => (found, block :: others)

/-- `findExistingFreeBlock(size)`, with the removal of the block by `removeFreeBlock`. -/
def findExistingFreeBlock (pool : Pool) (size : ℕ) : Option (MemBlock × Pool) :=
  (findFirst size pool.freeBlocks).map fun (block, others) =>
    (block,
      { pool with
        sizeInUse := add64 pool.sizeInUse block.size
        sizeFree := sub64 pool.sizeFree block.size
        freeBlocks := others })

/-- The block behind the first `size` bytes of `block`. -/
def remainder (block : MemBlock) (size : ℕ) : MemBlock where
  addr := add64 block.data size
  size := sub64 (sub64 block.size size) memBlockHeaderSize

/--
The part of `alloc` that gives back what is left of a block that is larger than
needed. What is left can be smaller than its link, which is not modelled on blocks.
-/
def split (pool : Pool) (block : MemBlock) (size : ℕ) : MemBlock × Pool :=
  if add64 size memBlockHeaderSize < block.size then
    let next := remainder block size
    ({ block with size },
      addFreeBlock
        { pool with sizeInUse := sub64 pool.sizeInUse (add64 next.size memBlockHeaderSize) } next)
  else (block, pool)

/-- A call of `getPage` and its reply. -/
structure PageRequest where
  count : ℕ
  reply : Option ℕ

/-- The pages that `getPage` has handed out. -/
def pages (log : List PageRequest) : List Region :=
  log.filterMap fun request => request.reply.map fun page => ⟨page, request.count * pageSize⟩

/-- A `getPage` function and what the pool relies on. -/
structure PageSource where
  getPage : List PageRequest → ℕ → Option ℕ
  placed : ∀ {log count page}, getPage log count = some page →
    Region.Placed (2 ^ 64) ⟨page, count * pageSize⟩
  fresh : ∀ {log count page}, getPage log count = some page →
    ∀ region ∈ pages log, Region.Disjoint ⟨page, count * pageSize⟩ region

/-- What a call of `alloc` leaves behind; the block is `none` if it returns null. -/
structure Alloc where
  block : Option MemBlock
  pool : Pool
  log : List PageRequest

/-- The number of pages that `alloc` asks for. -/
def pagesFor (size : ℕ) : ℕ := add64 (add64 size memBlockHeaderSize / pageSize) 1

/-- A new block of `count` pages. -/
def pageBlock (page count : ℕ) : MemBlock where
  addr := page
  size := sub64 (mul64 count pageSize) memBlockHeaderSize

/-- The last iterations of the loop in `alloc`. -/
def allocLoop (source : PageSource) (size : ℕ) : ℕ → Pool → List PageRequest → Alloc
  | 0, pool, log => { block := none, pool, log }
  | iterations + 1, pool, log =>
      match findExistingFreeBlock pool size with
      | some (block, pool) =>
          let (block, pool) := split pool block size
          { block := some block
            pool := { pool with allocCount := add64 pool.allocCount 1 }
            log }
      | none =>
          let count := pagesFor size
          let reply := source.getPage log count
          let log := log ++ [{ count, reply }]
          match reply with
          | none => { block := none, pool, log }
          | some page =>
              allocLoop source size iterations (addFreeBlock pool (pageBlock page count)) log

section

variable {source : PageSource} {size : ℕ} {pool : Pool} {log : List PageRequest}

theorem allocLoop_of_found (iterations : ℕ) {block : MemBlock} {left : Pool}
    (found : findExistingFreeBlock pool size = some (block, left)) :
    allocLoop source size (iterations + 1) pool log =
      { block := some (split left block size).1
        pool := { (split left block size).2 with
          allocCount := add64 (split left block size).2.allocCount 1 }
        log } := by
  rw [allocLoop, found]

theorem allocLoop_of_refused (iterations : ℕ) (missing : findExistingFreeBlock pool size = none)
    (refused : source.getPage log (pagesFor size) = none) :
    allocLoop source size (iterations + 1) pool log =
      { block := none, pool, log := log ++ [{ count := pagesFor size, reply := none }] } := by
  simp only [allocLoop, missing, refused]

theorem allocLoop_of_page (iterations : ℕ) {page : ℕ}
    (missing : findExistingFreeBlock pool size = none)
    (granted : source.getPage log (pagesFor size) = some page) :
    allocLoop source size (iterations + 1) pool log =
      allocLoop source size iterations (addFreeBlock pool (pageBlock page (pagesFor size)))
        (log ++ [{ count := pagesFor size, reply := some page }]) := by
  simp only [allocLoop, missing, granted]

end

/-- `alloc(size)`, which searches the free list at most twice. -/
def alloc (source : PageSource) (size : ℕ) (pool : Pool) (log : List PageRequest) : Alloc :=
  allocLoop source size 2 pool log

/--
`free` of the data of a block, whose recorded size nothing has overwritten. A block
of less than eight bytes is left alone.
-/
def free (pool : Pool) (block : MemBlock) : Pool :=
  if memBlockHeaderSize ≤ block.size then
    let pool := addFreeBlock { pool with sizeInUse := sub64 pool.sizeInUse block.size } block
    { pool with freeCount := add64 pool.freeCount 1 }
  else pool

/-- A block that is in use, and the size that was asked for. -/
structure Allocation where
  block : MemBlock
  requested : ℕ
  deriving DecidableEq

/-- A pool, the blocks that its users hold, and the calls of `getPage` so far. -/
structure World where
  pool : Pool
  live : List Allocation
  log : List PageRequest

/-- No calls have been made yet. -/
def World.initial : World := { pool := .empty, live := [], log := [] }

/-- The blocks of the pool, in use or free. -/
def World.blocks (world : World) : List MemBlock :=
  world.live.map Allocation.block ++ world.pool.freeBlocks

/-- The block that `alloc` has returned is in use, the others still are. -/
def Alloc.world (result : Alloc) (size : ℕ) (live : List Allocation) : World where
  pool := result.pool
  live := (result.block.map fun block => ⟨block, size⟩).toList ++ live
  log := result.log

/-- `alloc(size)`. -/
def World.alloc (world : World) (source : PageSource) (size : ℕ) : World :=
  (MemPool.alloc source size world.pool world.log).world size world.live

/--
One call: `alloc` of any size, or `free` of null or of the data of a block in
use. A block that `free` leaves alone stays in use.
-/
inductive Step (source : PageSource) : World → World → Prop where
  | alloc (world : World) (size : ℕ) (sizeFits : size < 2 ^ 64) :
      Step source world (world.alloc source size)
  | freeNull (world : World) : Step source world world
  | free {world : World} {before after : List Allocation} {allocation : Allocation}
      (inUse : world.live = before ++ allocation :: after)
      (released : memBlockHeaderSize ≤ allocation.block.size) :
      Step source world
        { world with pool := free world.pool allocation.block, live := before ++ after }
  | freeIgnored {world : World} {allocation : Allocation} (inUse : allocation ∈ world.live)
      (ignored : allocation.block.size < memBlockHeaderSize) :
      Step source world { world with pool := free world.pool allocation.block }

/-- The states reachable from an empty pool. -/
inductive Reachable (source : PageSource) : World → Prop where
  | initial : Reachable source .initial
  | step {world next : World} (reachable : Reachable source world)
      (step : Step source world next) : Reachable source next

end Dvnetos.MemPool
