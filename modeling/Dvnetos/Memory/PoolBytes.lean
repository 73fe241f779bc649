import Dvnetos.Lib.ByteWords
import Dvnetos.Memory.MemPool

/-!
# The memory pool on bytes

This file models `MemPool` a second time, on a memory of bytes: a block is the
address of its size word, the link of the free list is the word behind it, and
null is address zero. The loops follow links through memory, so they run on fuel
and are `none` when it runs out. The memory is traced, so that the stores of a
call can be told.
-/

namespace Dvnetos.MemPool.Bytes

open Word TracedStore

/-- The memory and the members of `MemPool`. -/
structure Heap where
  memory : TracedStore ℕ UInt8
  sizeInUse : ℕ
  sizeFree : ℕ
  allocCount : ℕ
  freeCount : ℕ
  freeBlocks : ℕ

namespace Heap

/-- `block->size`. -/
def size (heap : Heap) (block : ℕ) : ℕ := loadWord heap.memory.cells block 8

/-- Store to `block->size`. -/
def setSize (heap : Heap) (block value : ℕ) : Heap :=
  { heap with memory := storeWord heap.memory block value 8 }

/-- `block->next`. -/
def next (heap : Heap) (block : ℕ) : ℕ :=
  loadWord heap.memory.cells (block + memBlockHeaderSize) 8

/-- Store to `block->next`. -/
def setNext (heap : Heap) (block value : ℕ) : Heap :=
  { heap with memory := storeWord heap.memory (block + memBlockHeaderSize) value 8 }

/-- `prev->next`, or the member `freeBlocks` if `prev` is null. -/
def link (heap : Heap) (prev : ℕ) : ℕ := if prev = 0 then heap.freeBlocks else heap.next prev

/-- Store to `prev->next`, or to the member `freeBlocks` if `prev` is null. -/
def setLink (heap : Heap) (prev value : ℕ) : Heap :=
  if prev = 0 then { heap with freeBlocks := value } else heap.setNext prev value

/-- Forget which stores were made. -/
def untraced (heap : Heap) : Heap := { heap with memory := .fresh heap.memory.cells }

end Heap

/-- `removeFreeBlock(block, prev)`. -/
def removeFreeBlock (heap : Heap) (block prev : ℕ) : Heap :=
  let heap := { heap with sizeFree := sub64 heap.sizeFree (heap.size block) }
  let heap := heap.setLink prev (heap.next block)
  heap.setNext block 0

/-- `findExistingFreeBlock(size)` from `ptr` on; the block it returns, or null. -/
def findExistingFreeBlock (size : ℕ) : ℕ → Heap → ℕ → ℕ → Option (Heap × ℕ)
  | 0, _, _, _ => none
  | fuel + 1, heap, ptr, prev =>
      if ptr = 0 then some (heap, 0)
      else if size ≤ heap.size ptr then
        let heap := { heap with sizeInUse := add64 heap.sizeInUse (heap.size ptr) }
        some (removeFreeBlock heap ptr prev, ptr)
      else findExistingFreeBlock size fuel heap (heap.next ptr) ptr

/-- `mergeIfPossible(&b1, &b2, prev)`: the new `b1` and `b2`, if it merges them. -/
def mergeIfPossible (heap : Heap) (b1 b2 prev : ℕ) : Option (Heap × ℕ × ℕ) :=
  if add64 (add64 b1 (heap.size b1)) memBlockHeaderSize = b2 then
    let next := heap.next b1
    let heap := removeFreeBlock heap b1 prev
    let heap := heap.setSize b1 (add64 (heap.size b1) (add64 (heap.size b2) memBlockHeaderSize))
    some (heap, next, b1)
  else if add64 (add64 b2 (heap.size b2)) memBlockHeaderSize = b1 then
    let next := heap.next b1
    let heap := removeFreeBlock heap b1 prev
    let heap := heap.setSize b2 (add64 (heap.size b2) (add64 (heap.size b1) memBlockHeaderSize))
    some (heap, next, b2)
  else none

/-- The state of `addFreeBlock` after a pass over the list. -/
structure Pass where
  heap : Heap
  block : ℕ
  merged : Bool
  /-- The block whose link `addAt` points to, or null for the member `freeBlocks`. -/
  addAt : ℕ

/-- The inner loop of `addFreeBlock`. -/
def mergePass : ℕ → Heap → ℕ → ℕ → ℕ → Bool → ℕ → Option Pass
  | 0, _, _, _, _, _, _ => none
  | fuel + 1, heap, n, block, prev, merged, addAt =>
      if n = 0 then some { heap, block, merged, addAt }
      else
        match mergeIfPossible heap n block prev with
        | some (heap, n, block) => mergePass fuel heap n block prev true addAt
        | none =>
            let addAt := if !merged && heap.size n ≤ heap.size block then n else addAt
            mergePass fuel heap (heap.next n) block n merged addAt

/-- The end of `addFreeBlock`, after a pass that has merged nothing. -/
def insert (pass : Pass) : Heap :=
  let heap := pass.heap.setNext pass.block (pass.heap.link pass.addAt)
  let heap := heap.setLink pass.addAt pass.block
  { heap with sizeFree := add64 heap.sizeFree (heap.size pass.block) }

/-- `addFreeBlock(block)`. -/
def addFreeBlock : ℕ → Heap → ℕ → Option Heap
  | 0, _, _ => none
  | fuel + 1, heap, block =>
      match mergePass fuel heap heap.freeBlocks block 0 false 0 with
      | none => none
      | some pass =>
          if pass.merged then addFreeBlock fuel pass.heap pass.block else some (insert pass)

/-- The part of `alloc` that gives back what is left of a block that is larger than needed. -/
def split (fuel : ℕ) (heap : Heap) (block size : ℕ) : Option Heap :=
  if add64 size memBlockHeaderSize < heap.size block then
    let next := add64 (block + memBlockHeaderSize) size
    let heap := heap.setSize next (sub64 (sub64 (heap.size block) size) memBlockHeaderSize)
    let heap :=
      { heap with
        sizeInUse := sub64 heap.sizeInUse (add64 (heap.size next) memBlockHeaderSize) }
    (addFreeBlock fuel heap next).map fun heap => heap.setSize block size
  else some heap

/-- What a call of `alloc` leaves behind; the block is `none` if it returns null. -/
structure Alloc where
  block : Option ℕ
  heap : Heap
  log : List PageRequest

/-- The last iterations of the loop in `alloc`. -/
def allocLoop (source : PageSource) (fuel size : ℕ) :
    ℕ → Heap → List PageRequest → Option Alloc
  | 0, heap, log => some { block := none, heap, log }
  | iterations + 1, heap, log =>
      match findExistingFreeBlock size fuel heap heap.freeBlocks 0 with
      | none => none
      | some (heap, block) =>
          if block ≠ 0 then
            (split fuel heap block size).map fun heap =>
              { block := some block
                heap := { heap with allocCount := add64 heap.allocCount 1 }
                log }
          else
            let count := pagesFor size
            let reply := source.getPage log count
            let log := log ++ [{ count, reply }]
            match reply with
            | none => some { block := none, heap, log }
            | some page =>
                let heap := heap.setSize page (sub64 (mul64 count pageSize) memBlockHeaderSize)
                match addFreeBlock fuel heap page with
                | none => none
                | some heap => allocLoop source fuel size iterations heap log

/-- `alloc(size)`. -/
def alloc (source : PageSource) (fuel size : ℕ) (heap : Heap) (log : List PageRequest) :
    Option Alloc :=
  allocLoop source fuel size 2 heap log

/-- `free(ptr)`. -/
def free (fuel : ℕ) (heap : Heap) (ptr : ℕ) : Option Heap :=
  if ptr = 0 then some heap
  else
    let block := sub64 ptr memBlockHeaderSize
    if memBlockHeaderSize ≤ heap.size block then
      let heap := { heap with sizeInUse := sub64 heap.sizeInUse (heap.size block) }
      (addFreeBlock fuel heap block).map fun heap =>
        { heap with freeCount := add64 heap.freeCount 1 }
    else some heap

/-- A block that is in use, and the size that was asked for. -/
structure Live where
  block : ℕ
  requested : ℕ
  deriving DecidableEq

/-- A pool in memory, the blocks that its users hold, and the calls of `getPage` so far. -/
structure World where
  heap : Heap
  live : List Live
  log : List PageRequest

/-- An empty pool in a memory with any contents. -/
def World.initial (cells : ℕ → UInt8) : World where
  heap :=
    { memory := .fresh cells
      sizeInUse := 0
      sizeFree := 0
      allocCount := 0
      freeCount := 0
      freeBlocks := 0 }
  live := []
  log := []

/-- A call of the pool, or a store by the user of a block. -/
inductive Call where
  | alloc (size : ℕ)
  | free (ptr : ℕ)
  | store (address : ℕ) (value : UInt8)

/--
One call. After it, the footprint of the memory is what the allocator has stored
to during this call.
-/
inductive Step (source : PageSource) : World → Call → World → Prop where
  | alloc {world : World} {size fuel : ℕ} {result : Alloc} (sizeFits : size < 2 ^ 64)
      (returned : alloc source fuel size world.heap.untraced world.log = some result) :
      Step source world (.alloc size)
        { heap := result.heap
          live := (result.block.map fun block => ⟨block, size⟩).toList ++ world.live
          log := result.log }
  | freeNull (world : World) :
      Step source world (.free 0) { world with heap := world.heap.untraced }
  | free {world : World} {before after : List Live} {allocation : Live} {fuel : ℕ} {heap : Heap}
      (inUse : world.live = before ++ allocation :: after)
      (returned :
        free fuel world.heap.untraced (allocation.block + memBlockHeaderSize) = some heap) :
      Step source world (.free (allocation.block + memBlockHeaderSize))
        { world with
          heap
          live :=
            if memBlockHeaderSize ≤ world.heap.size allocation.block then before ++ after
            else world.live }
  | store {world : World} {allocation : Live} {address : ℕ} (value : UInt8)
      (inUse : allocation ∈ world.live)
      (behindHeader : allocation.block + memBlockHeaderSize ≤ address)
      (inRequested : address < allocation.block + memBlockHeaderSize + allocation.requested) :
      Step source world (.store address value)
        { world with
          heap := { world.heap with
            memory := .fresh (world.heap.memory.store address value).cells } }

/-- The states that calls reach from an empty pool, where every call is admitted by `admits`. -/
inductive Run (source : PageSource) (admits : World → Call → Prop) : World → Prop where
  | initial (cells : ℕ → UInt8) : Run source admits (.initial cells)
  | step {world next : World} {call : Call} (run : Run source admits world)
      (step : Step source world call next) (admitted : admits world call) : Run source admits next

end Dvnetos.MemPool.Bytes
