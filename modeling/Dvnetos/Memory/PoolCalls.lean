import Dvnetos.Memory.PoolBytesSafety

/-!
# Calls of the pool, one after another

The pool on bytes as a program that runs: a script of calls leads from one state to the next, as
long as users may make each call and it returns with the given fuel. A call leaves room if no
`alloc` cuts off a rest of one to seven bytes, which can be told from the free list in memory.
-/

namespace Dvnetos.MemPool.Bytes

open Word Regions TracedStore

/-- The free list, read off the memory. -/
def Heap.freeList (heap : Heap) : ℕ → ℕ → Option (List MemBlock)
  | 0, _ => none
  | fuel + 1, ptr =>
      if ptr = 0 then some []
      else (heap.freeList fuel (heap.next ptr)).map fun rest => ⟨ptr, heap.size ptr⟩ :: rest

/-- With any amounts of fuel that are enough, the same list is read. -/
theorem freeList_unique {heap : Heap} {fuel fuel' ptr : ℕ} {blocks blocks' : List MemBlock}
    (list : heap.freeList fuel ptr = some blocks) (list' : heap.freeList fuel' ptr = some blocks') :
    blocks = blocks' := by
  induction fuel generalizing fuel' ptr blocks blocks' with
  | zero => cases list
  | succ fuel ih =>
      cases fuel' with
      | zero => cases list'
      | succ fuel' =>
          rw [Heap.freeList] at list list'
          split_ifs at list list' with null
          · exact (Option.some.inj list).symm.trans (Option.some.inj list')
          · rcases Option.map_eq_some_iff.mp list with ⟨rest, restList, rfl⟩
            rcases Option.map_eq_some_iff.mp list' with ⟨rest', restList', rfl⟩
            rw [ih restList restList']

/-- The pool with this free list. -/
def Heap.toPool (heap : Heap) (freeBlocks : List MemBlock) : Pool where
  sizeInUse := heap.sizeInUse
  sizeFree := heap.sizeFree
  allocCount := heap.allocCount
  freeCount := heap.freeCount
  freeBlocks := freeBlocks

/--
If the call is an `alloc`, the free block that it takes is not nine to fifteen
bytes larger than what is asked for.
-/
def LeavesRoom (source : PageSource) (world : World) : Call → Prop
  | .alloc size => ∀ fuel blocks block,
      world.heap.freeList fuel world.heap.freeBlocks = some blocks →
      taken source size 2 (world.heap.toPool blocks) world.log = some block →
      LeavesRest block size
  | .free _ => True
  | .store _ _ => True

instance (block : MemBlock) (size : ℕ) : Decidable (LeavesRest block size) :=
  inferInstanceAs (Decidable (_ → _))

/-- Whether the call is found to leave room when the free list is read with this fuel. -/
def World.leavesRoom (source : PageSource) (fuel : ℕ) (world : World) : Call → Bool
  | .alloc size =>
      match world.heap.freeList fuel world.heap.freeBlocks with
      | none => false
      | some blocks =>
          (taken source size 2 (world.heap.toPool blocks) world.log).all fun block =>
            decide (LeavesRest block size)
  | .free _ => true
  | .store _ _ => true

theorem leavesRoom_of_found {source : PageSource} {fuel : ℕ} {world : World} {call : Call}
    (found : world.leavesRoom source fuel call = true) : LeavesRoom source world call := by
  cases call with
  | free ptr => trivial
  | store address value => trivial
  | alloc size =>
      intro fuel' blocks' block list' isTaken
      rw [World.leavesRoom] at found
      cases list : world.heap.freeList fuel world.heap.freeBlocks with
      | none => simp [list] at found
      | some blocks =>
          rw [← freeList_unique list list'] at isTaken
          simpa [list, isTaken] using found

/-- The address is one of the bytes that were asked for. -/
def Live.Holds (allocation : Live) (address : ℕ) : Prop :=
  allocation.block + memBlockHeaderSize ≤ address ∧
    address < allocation.block + memBlockHeaderSize + allocation.requested

instance (allocation : Live) (address : ℕ) : Decidable (allocation.Holds address) :=
  inferInstanceAs (Decidable (_ ∧ _))

/-- The allocation whose data the pointer points to. -/
def Live.At (ptr : ℕ) (allocation : Live) : Prop := ptr = allocation.block + memBlockHeaderSize

instance (ptr : ℕ) : DecidablePred (Live.At ptr) := fun _ => inferInstanceAs (Decidable (_ = _))

/-- What users may do: pass their own blocks to `free`, and store to the bytes of these. -/
def World.Legal (world : World) : Call → Prop
  | .alloc size => size < 2 ^ 64
  | .free ptr => ptr = 0 ∨ ∃ allocation ∈ world.live, allocation.At ptr
  | .store address _ => ∃ allocation ∈ world.live, allocation.Holds address

instance (world : World) : (call : Call) → Decidable (world.Legal call)
  | .alloc _ => inferInstanceAs (Decidable (_ < _))
  | .free _ => inferInstanceAs (Decidable (_ ∨ _))
  | .store _ _ => inferInstanceAs (Decidable (∃ _ ∈ _, _))

/-- What the call makes of the state, if it returns with this fuel. -/
def World.call (source : PageSource) (fuel : ℕ) (world : World) : Call → Option World
  | .alloc size =>
      (alloc source fuel size world.heap.untraced world.log).map fun result =>
        { heap := result.heap
          live := (result.block.map fun block => ⟨block, size⟩).toList ++ world.live
          log := result.log }
  | .free ptr =>
      if ptr = 0 then some { world with heap := world.heap.untraced }
      else
        (free fuel world.heap.untraced ptr).map fun heap =>
          { world with
            heap
            live :=
              if memBlockHeaderSize ≤ world.heap.size (ptr - memBlockHeaderSize) then
                world.live.eraseP fun allocation => allocation.At ptr
              else world.live }
  | .store address value =>
      some { world with
        heap := { world.heap with memory := .fresh (world.heap.memory.store address value).cells } }

theorem eraseP_at {live : List Live} {ptr : ℕ} (found : ∃ allocation ∈ live, allocation.At ptr) :
    ∃ before allocation after, live = before ++ allocation :: after ∧
      ptr = allocation.block + memBlockHeaderSize ∧
      (live.eraseP fun allocation => allocation.At ptr) = before ++ after := by
  rcases found with ⟨allocation, allocationMem, isAt⟩
  let isAtPtr : Live → Bool := fun allocation => allocation.At ptr
  have found : isAtPtr allocation = true := decide_eq_true isAt
  rcases List.exists_of_eraseP allocationMem found with
    ⟨first, before, after, _, firstAt, split, erased⟩
  exact ⟨before, first, after, split, of_decide_eq_true firstAt, erased⟩

/-- A call that users may make and that returns is a step. -/
theorem step_of_call {source : PageSource} {fuel : ℕ} {world next : World} {call : Call}
    (legal : world.Legal call) (returned : world.call source fuel call = some next) :
    Step source world call next := by
  cases call with
  | alloc size =>
      rcases Option.map_eq_some_iff.mp returned with ⟨result, isResult, rfl⟩
      exact .alloc legal isResult
  | free ptr =>
      rw [World.call] at returned
      by_cases null : ptr = 0
      · rw [if_pos null] at returned
        rw [null, ← Option.some.inj returned]
        exact .freeNull world
      · rw [if_neg null] at returned
        rcases Option.map_eq_some_iff.mp returned with ⟨heap, isHeap, rfl⟩
        rcases eraseP_at (legal.resolve_left null) with
          ⟨before, allocation, after, split, rfl, erased⟩
        rw [Nat.add_sub_cancel, erased]
        exact .free split isHeap
  | store address value =>
      rw [← Option.some.inj returned]
      rcases legal with ⟨allocation, inUse, behindHeader, inRequested⟩
      exact .store value inUse behindHeader inRequested

section

variable {State : Type} {checks : State → Call → Bool} {makes : State → Call → Option State}

/-- The calls one after another, each of them checked first. -/
def script (checks : State → Call → Bool) (makes : State → Call → Option State) :
    State → List Call → Option State
  | state, [] => some state
  | state, call :: rest =>
      if checks state call then
        (makes state call).bind fun next => script checks makes next rest
      else none

/-- What checked calls keep holds where a script ends. -/
theorem script_induction {holds : State → Prop}
    (keeps : ∀ {state call next}, holds state → checks state call = true →
      makes state call = some next → holds next)
    {calls : List Call} {state last : State} (start : holds state)
    (ends : script checks makes state calls = some last) : holds last := by
  induction calls generalizing state with
  | nil => exact Option.some.inj ends ▸ start
  | cons call rest ih =>
      rw [script] at ends
      split_ifs at ends with checked
      rcases Option.bind_eq_some_iff.mp ends with ⟨next, made, later⟩
      exact ih (keeps start checked made) later

end

/-- Users may make the call, and it is found to leave room. -/
def World.admits (source : PageSource) (fuel : ℕ) (world : World) (call : Call) : Bool :=
  decide (world.Legal call) && world.leavesRoom source fuel call

/-- Where calls lead from an empty pool in a memory of zeros. -/
def World.runs (source : PageSource) (fuel : ℕ) (calls : List Call) : Option World :=
  script (World.admits source fuel) (World.call source fuel) (.initial fun _ => 0) calls

theorem run_of_runs {source : PageSource} {fuel : ℕ} {calls : List Call} {world : World}
    (ends : World.runs source fuel calls = some world) :
    Run source (LeavesRoom source) world := by
  refine script_induction ?_ (Run.initial fun _ => 0) ends
  intro state call next run checked made
  rcases Bool.and_eq_true_iff.mp checked with ⟨legal, room⟩
  exact .step run (step_of_call (of_decide_eq_true legal) made) (leavesRoom_of_found room)

end Dvnetos.MemPool.Bytes
