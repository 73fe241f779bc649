import Dvnetos.Paging.Aarch64.UnmapMemory

/-!
# Calls in both halves

The trees of `root1` and `root2` take their tables from one pool. They never share a
table, whatever ranges `mapMemory` and `unmapMemory` are called on, so a call changes
the pages of the halves it reaches into and of no other.
-/

namespace Dvnetos.PageTables.Aarch64

variable {paging : Paging} {pool : InitialPool paging.pageTableOffset}
variable {memory memory' : TableMemory} {size flags : Word64}

section Invariant

variable (paging : Paging) (pool : InitialPool paging.pageTableOffset)

/-- The trees of both roots are sound, and no table belongs to both. -/
structure BothSound (memory : TableMemory) : Prop where
  sound : ∀ half, (paging.tree half).Sound pool memory
  disjoint : ∀ half, (paging.tree half).Disjoint (paging.tree !half) memory.tables

/-- The tables after `init` has taken both roots and after calls behind it, on any ranges. -/
inductive AfterCalls : TableMemory → Prop where
  | roots {memory memory1 memory2 : TableMemory}
      (first : newTable pool memory = .ok (memory1, paging.root1))
      (second : newTable pool memory1 = .ok (memory2, paging.root2)) : AfterCalls memory2
  | map {memory memory' : TableMemory} {request : Request} (calls : AfterCalls memory)
      (noTable : request.size = hugePageSize → request.flags &&& pageTable = 0#64)
      (mapped : mapMemory paging pool memory request = .ok memory') : AfterCalls memory'
  | unmap {memory memory' : TableMemory} {virtualAddress numPages size : Word64}
      (calls : AfterCalls memory)
      (unmapped : unmapMemory paging memory virtualAddress numPages size = .ok memory') :
      AfterCalls memory'

end Invariant

theorem Reachable.afterCalls (reachable : Reachable paging pool memory) :
    AfterCalls paging pool memory := by
  induction reachable with
  | roots first second => exact .roots first second
  | map _ _ noTable mapped ih => exact .map ih noTable mapped
  | unmap _ _ unmapped ih => exact .unmap ih unmapped

/-- A step in the tree of one half keeps the invariant and the pages of the other half. -/
theorem BothSound.step (both : BothSound paging pool memory) {half : Bool}
    (stepped : (paging.tree half).Stepped pool memory memory')
    (confined : (paging.tree half).Confined pool memory memory') :
    BothSound paging pool memory' ∧
      (paging.tree !half).leaf memory'.tables = (paging.tree !half).leaf memory.tables := by
  rcases confined.frame stepped.used rfl (both.sound !half) (both.disjoint half) with
    ⟨otherSound, leaves, disjoint⟩
  refine ⟨⟨?_, ?_⟩, leaves⟩
  · intro side
    by_cases same : side = half
    · rw [same]
      exact stepped.sound
    · rw [Bool.eq_not_of_ne same]
      exact otherSound
  · intro side
    by_cases same : side = half
    · rw [same]
      exact disjoint
    · rw [Bool.eq_not_of_ne same, Bool.not_not]
      exact disjoint.symm

/-- The page of `root2` is taken behind that of `root1`, and both are empty. -/
theorem BothSound.roots {memory1 memory2 : TableMemory}
    (first : newTable pool memory = .ok (memory1, paging.root1))
    (second : newTable pool memory1 = .ok (memory2, paging.root2)) :
    BothSound paging pool memory2 := by
  have lowSound := (PageTree.sound_newTable (paging.tree false) first).1
  have highSound := (PageTree.sound_newTable (paging.tree true) second).1
  rcases newTable_cases second with ⟨room, isRoot2, isMemory2⟩
  have fresh : ∀ address, (paging.tree false).Reaches memory1.tables address →
      address ≠ paging.root2 := by
    rintro address reaches rfl
    rw [isRoot2] at reaches
    exact not_handedOut pool _ memory1 (lowSound.handedOut_of_reaches reaches)
  have agree : ∀ address, (paging.tree false).Reaches memory1.tables address →
      memory2.tables address = memory1.tables address := by
    intro address reaches
    funext index
    simp [isMemory2, TableTree.fill, fresh address reaches]
  have used : memory1.initialPoolUsedCount.val ≤ memory2.initialPoolUsedCount.val := by
    rw [isMemory2]
    exact Nat.le_succ _
  rcases lowSound.frame agree used with ⟨lowSoundAfter, -, lowBefore⟩
  have disjoint : (paging.tree false).Disjoint (paging.tree true) memory2.tables := by
    intro address low high
    rcases lowSound.handedOut_of_reaches (lowBefore address low) with
      ⟨-, number, -, -, below, isPage⟩
    rcases highSound.handedOut_of_reaches high with ⟨root, other, isRoot, above, -, isOther⟩
    rw [← isOther] at isPage
    rw [pool.distinct isPage] at below
    have start := pool.distinct (isRoot.trans isRoot2)
    rw [start] at above
    omega
  refine ⟨?_, ?_⟩
  · intro half
    cases half with
    | false => exact lowSoundAfter
    | true => exact highSound
  · intro half
    cases half with
    | false => exact disjoint
    | true => exact disjoint.symm

theorem BothSound.mapPages {count : ℕ} {before after : LoopState}
    (noTable : size = hugePageSize → flags &&& pageTable = 0#64)
    (both : BothSound paging pool before.memory)
    (mapped : mapPages paging pool size flags count before = .ok after) :
    BothSound paging pool after.memory := by
  induction count generalizing before with
  | zero =>
      cases mapped
      exact both
  | succ count ih =>
      rw [Aarch64.mapPages, Fallible.bind_eq_ok_iff] at mapped
      rcases mapped with ⟨between, first, rest⟩
      rcases mapPage_inserted noTable rfl (both.sound _) first with ⟨stepped, confined, -⟩
      exact ih (both.step stepped confined).1 rest

/-- Pages of the higher half do not show in the tree of `root1`. -/
theorem BothSound.mapPages_low {count : ℕ} {before after : LoopState}
    (sizes : size = pageSize ∨ size = hugePageSize)
    (noTable : size = hugePageSize → flags &&& pageTable = 0#64)
    (both : BothSound paging pool before.memory)
    (higher : ∀ number < count,
      paging.higherHalf (pageAddress size before.virtualAddress number) = true)
    (mapped : Aarch64.mapPages paging pool size flags count before = .ok after) :
    (paging.tree false).leaf after.memory.tables =
      (paging.tree false).leaf before.memory.tables := by
  induction count generalizing before with
  | zero =>
      cases mapped
      rfl
  | succ count ih =>
      rw [Aarch64.mapPages, Fallible.bind_eq_ok_iff] at mapped
      rcases mapped with ⟨between, first, rest⟩
      have higherFirst := higher 0 (Nat.succ_pos count)
      rw [pageAddress_zero] at higherFirst
      rcases mapPage_inserted noTable higherFirst (both.sound true) first with
        ⟨stepped, confined, -, -, virtual⟩
      rw [← stepSize_eq sizes] at virtual
      rcases both.step stepped confined with ⟨bothBetween, low⟩
      rw [ih bothBetween _ rest]
      · exact low
      · intro number below
        have later := higher (number + 1) (Nat.succ_lt_succ below)
        rwa [pageAddress_succ, ← virtual] at later

theorem BothSound.unmapPage {virtualAddress : Word64} (both : BothSound paging pool memory)
    (unmapped : unmapPage paging size memory virtualAddress = .ok memory') :
    BothSound paging pool memory' := by
  have sound := both.sound (paging.higherHalf virtualAddress)
  rcases unmapPage_outcome rfl unmapped with _ | ⟨deep, bound, reached, page, -⟩
  · exact both
  · have stepped := (sound.storeEntry deep bound reached (child_of_clear deep page)).1
    have confined := sound.confined_store bound reached (child_of_clear deep page)
    exact (both.step stepped confined).1

theorem BothSound.unmapPages {count : ℕ} {virtualAddress : Word64}
    (both : BothSound paging pool memory)
    (unmapped : unmapPages paging size count virtualAddress memory = .ok memory') :
    BothSound paging pool memory' := by
  induction count generalizing memory virtualAddress with
  | zero =>
      cases unmapped
      exact both
  | succ count ih =>
      rw [Aarch64.unmapPages, Fallible.bind_eq_ok_iff] at unmapped
      rcases unmapped with ⟨between, first, rest⟩
      exact ih (both.unmapPage first) rest

theorem AfterCalls.bothSound (calls : AfterCalls paging pool memory) :
    BothSound paging pool memory := by
  induction calls with
  | roots first second => exact BothSound.roots first second
  | map _ noTable mapped ih =>
      rcases mapMemory_cases mapped with ⟨state, pages, rfl⟩
      exact ih.mapPages noTable pages
  | unmap _ unmapped ih => exact ih.unmapPages (unmapMemory_cases unmapped)

end Dvnetos.PageTables.Aarch64
