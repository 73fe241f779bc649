import Dvnetos.Memory.PoolRuns

/-!
# What users keep in their blocks

Between the calls of `alloc` and `free` users store to the blocks they hold. What they read back
is what they have stored last, whatever calls the allocator has served in between.
-/

namespace Dvnetos.MemPool.Bytes

open Word Regions TracedStore

/-- Calls one after another, each of them admitted. -/
inductive Calls (source : PageSource) (admits : World → Call → Prop) :
    World → List Call → World → Prop
  | nil (world : World) : Calls source admits world [] world
  | cons {world between next : World} {call : Call} {list : List Call}
      (step : Step source world call between) (admitted : admits world call)
      (rest : Calls source admits between list next) : Calls source admits world (call :: list) next

/-- The value that was stored last to an address. -/
def lastStored (address : ℕ) : List Call → Option UInt8
  | [] => none
  | .store place value :: rest =>
      (lastStored address rest).or (if place = address then some value else none)
  | _ :: rest => lastStored address rest

variable {source : PageSource} {world next : World} {blocks : MemPool.World}
variable {allocation : Live} {address : ℕ}

/-- The allocator may not store to what users hold. -/
theorem not_allowed_of_holds {held : Allocation} {survivors : List Allocation}
    {log : List PageRequest} (member : held ∈ survivors)
    (requested : held.requested ≤ held.block.size)
    (holds : (Live.ofAllocation held).Holds address) : ¬Allowed survivors log address := by
  intro allowed
  apply allowed.1
  apply covered_of_mem (List.mem_map_of_mem member)
  rcases holds with ⟨lower, upper⟩
  simp only [Live.ofAllocation, memBlockHeaderSize] at lower upper
  simp only [MemBlock.region, Region.Contains, memBlockHeaderSize]
  omega

/-- The block in use that a live block shows. -/
theorem exists_held (simulates : Simulates source world blocks) (inUse : allocation ∈ world.live) :
    ∃ held ∈ blocks.live, Live.ofAllocation held = allocation ∧
      held.requested ≤ held.block.size := by
  rw [simulates.live] at inUse
  rcases List.mem_map.mp inUse with ⟨held, heldMem, shows⟩
  exact ⟨held, heldMem, shows, simulates.heap.represents.requested held heldMem⟩

theorem alloc_keepsBytes {size fuel : ℕ} {result : Alloc}
    (simulates : Simulates source world blocks) (room : LeavesRoom source world (.alloc size))
    (returned : alloc source fuel size world.heap.untraced world.log = some result)
    (inUse : allocation ∈ world.live) (holds : allocation.Holds address) :
    result.heap.memory.cells address = world.heap.memory.cells address := by
  rcases exists_held simulates inUse with ⟨held, heldMem, rfl, requested⟩
  rcases allocLoop_simulated source size 2 blocks.pool blocks.live blocks.log
    (rest_of_leavesRoom simulates.heap simulates.log room) with ⟨bound, returns⟩
  rw [alloc, simulates.log] at returned
  have post := (returns fuel world.heap.untraced simulates.heap.untraced).2 result returned
  exact post.frame.cells address (not_allowed_of_holds heldMem requested holds)

theorem free_keepsBytes {before after : List Live} {freed : Live} {fuel : ℕ} {heap : Heap}
    (simulates : Simulates source world blocks) (split : world.live = before ++ freed :: after)
    (returned : free fuel world.heap.untraced (freed.block + memBlockHeaderSize) = some heap)
    (survives : allocation ∈ before ++ after) (holds : allocation.Holds address) :
    heap.memory.cells address = world.heap.memory.cells address := by
  rcases live_split simulates split with ⟨before', other, after', split', rfl, rfl, rfl⟩
  have otherMem : other ∈ blocks.live := by simp [split']
  by_cases released : memBlockHeaderSize ≤ other.block.size
  · rcases (free_simulated simulates.heap.untraced split' released fuel).2 heap returned with
      ⟨simulated, frame⟩
    rw [← List.map_append] at survives
    rcases List.mem_map.mp survives with ⟨held, heldMem, rfl⟩
    have requested := simulated.represents.requested held heldMem
    exact frame.cells address (not_allowed_of_holds heldMem requested holds)
  · have ignored := free_ignored fuel simulates.heap.untraced otherMem (by omega)
    rw [← Option.some.inj (ignored.symm.trans returned)]
    rfl

theorem mem_of_other_freed {before after : List Live} {freed : Live}
    (inUse : allocation ∈ world.live) (split : world.live = before ++ freed :: after)
    (other : freed ≠ allocation) : allocation ∈ before ++ after := by
  rw [split] at inUse
  rcases List.mem_append.mp inUse with inBefore | inRest
  · exact List.mem_append_left _ inBefore
  · rcases List.mem_cons.mp inRest with same | inAfter
    · exact absurd same.symm other
    · exact List.mem_append_right _ inAfter

/-- One call leaves a block in use that it is not told to free, with all its bytes. -/
theorem step_keepsBytes {call : Call} (simulates : Simulates source world blocks)
    (step : Step source world call next) (room : LeavesRoom source world call)
    (inUse : allocation ∈ world.live)
    (kept : call ≠ .free (allocation.block + memBlockHeaderSize))
    (holds : allocation.Holds address) :
    allocation ∈ next.live ∧ next.heap.memory.cells address =
      (lastStored address [call]).getD (world.heap.memory.cells address) := by
  cases step with
  | alloc sizeFits returned =>
      exact ⟨List.mem_append_right _ inUse,
        alloc_keepsBytes simulates room returned inUse holds⟩
  | freeNull => exact ⟨inUse, rfl⟩
  | free split returned =>
      have survives := mem_of_other_freed inUse split fun same => kept (by rw [same])
      refine ⟨?_, free_keepsBytes simulates split returned survives holds⟩
      simp only
      split_ifs
      · exact survives
      · exact inUse
  | @store _ place value inUse' behindHeader inRequested =>
      refine ⟨inUse, ?_⟩
      by_cases here : place = address
      · subst here
        simp [lastStored]
      · rw [TracedStore.fresh_cells, cells_store_of_ne _ _ (Ne.symm here)]
        simp [lastStored, here]

theorem lastStored_cons (address : ℕ) (call : Call) (rest : List Call) :
    lastStored address (call :: rest) =
      (lastStored address rest).or (lastStored address [call]) := by
  cases call with
  | store place value => simp [lastStored]
  | alloc size => simp [lastStored]
  | free ptr => simp [lastStored]

/--
A block that is not freed stays in use, and each of its bytes has the value that a user has stored
there last.
-/
theorem calls_keepBytes {list : List Call} (run : Run source (LeavesRoom source) world)
    (calls : Calls source (LeavesRoom source) world list next) (inUse : allocation ∈ world.live)
    (kept : .free (allocation.block + memBlockHeaderSize) ∉ list)
    (holds : allocation.Holds address) :
    allocation ∈ next.live ∧ next.heap.memory.cells address =
      (lastStored address list).getD (world.heap.memory.cells address) := by
  induction calls with
  | nil world => exact ⟨inUse, rfl⟩
  | @cons world between next call list step admitted rest ih =>
      rcases run_simulates run with ⟨blocks, simulates⟩
      rw [List.mem_cons, not_or] at kept
      rcases step_keepsBytes simulates step admitted inUse (Ne.symm kept.1) holds with
        ⟨stillInUse, first⟩
      rcases ih (.step run step admitted) stillInUse kept.2 with ⟨inUseAfter, later⟩
      refine ⟨inUseAfter, ?_⟩
      rw [lastStored_cons address call list, later, first]
      cases lastStored address list with
      | none => rfl
      | some value => rfl

/-- A script of calls that are found to leave room. -/
theorem calls_of_script {fuel : ℕ} {list : List Call}
    (ends : script (World.admits source fuel) (World.call source fuel) world list = some next) :
    Calls source (LeavesRoom source) world list next := by
  induction list generalizing world with
  | nil =>
      rw [← Option.some.inj ends]
      exact .nil world
  | cons call rest ih =>
      rw [script] at ends
      split_ifs at ends with checked
      rcases Option.bind_eq_some_iff.mp ends with ⟨between, made, later⟩
      rcases Bool.and_eq_true_iff.mp checked with ⟨legal, room⟩
      exact .cons (step_of_call (of_decide_eq_true legal) made) (leavesRoom_of_found room)
        (ih later)

/-- A byte is stored to the first block, the second one is freed, and more pages are fetched. -/
def storedByte : List Call := [.store 4104 7, .free 4122, .alloc 5000]

theorem runs_storedByte :
    ((World.runs consecutivePages 9 [.alloc 10, .alloc 20]).bind fun world =>
      (script (World.admits consecutivePages 9) (World.call consecutivePages 9) world
        storedByte).map fun _ => world.live) = some [⟨4114, 20⟩, ⟨4096, 10⟩] := by
  decide +kernel

theorem calls_keepBytes_first :
    ∃ world next, Run consecutivePages (LeavesRoom consecutivePages) world ∧
      Calls consecutivePages (LeavesRoom consecutivePages) world storedByte next ∧
      next.heap.memory.cells 4104 = 7 := by
  rcases Option.bind_eq_some_iff.mp runs_storedByte with ⟨world, ends, continued⟩
  rcases Option.map_eq_some_iff.mp continued with ⟨next, later, observed⟩
  have inUse : (⟨4096, 10⟩ : Live) ∈ world.live := by simp [observed]
  have run := run_of_runs ends
  have calls := calls_of_script later
  have kept := calls_keepBytes run calls inUse (by simp [storedByte, memBlockHeaderSize])
    (show (⟨4096, 10⟩ : Live).Holds 4104 by decide)
  exact ⟨world, next, run, calls, kept.2⟩

end Dvnetos.MemPool.Bytes
