import Dvnetos.Paging.Aarch64.BothHalves
import Dvnetos.Paging.PoolUse

/-!
# The pool on aarch64

The trees of both roots share the pool. Each page that it has handed out from the first root on is
one table of one of them. `unmapMemory` gives no page back: the tables on the way to an unmapped
page stay where they are, for the next page that is mapped there.
-/

namespace Dvnetos.PageTables.Aarch64

open PageTree (Confined Grown)

variable {paging : Paging} {pool : InitialPool paging.pageTableOffset}
variable {memory memory' : TableMemory} {size flags : Word64}

theorem mapPage_grown {half : Bool} {before after : LoopState}
    (noTable : size = hugePageSize → flags &&& pageTable = 0#64)
    (inHalf : paging.higherHalf before.virtualAddress = half)
    (sound : (paging.tree half).Sound pool before.memory)
    (mapped : mapPage paging pool size flags before = .ok after) :
    ∃ target, (paging.tree half).Grown pool before.memory after.memory target := by
  simp only [mapPage, Fallible.bind_eq_ok_iff, Prod.exists, inHalf] at mapped
  rcases mapped with ⟨memory1, pdpt, toPdpt, memory2, pd, toPd, mapped⟩
  generalize virtualToPageIndexes before.virtualAddress = idx at toPdpt toPd mapped
  have rootTable : (paging.tree half).table before.memory.tables [] = some (paging.root half) := rfl
  rcases sound.nextTable (by decide) rootTable (by intro two; cases two) toPdpt with
    ⟨extended1, pdptTable⟩
  rcases extended1.sound.nextTable (by simp) pdptTable (by intro two; cases two) toPd with
    ⟨extended2, pdTable⟩
  have grown1 := (sound.grown_nextTable (by decide) rootTable toPdpt).mono
    (List.suffix_cons idx.l2 [idx.l1])
  have grown2 := extended1.sound.grown_nextTable (by simp) pdptTable toPd
  have grown := grown1.trans grown2 extended2.keepsTables
  by_cases isHuge : size = hugePageSize
  · rw [if_pos isHuge] at mapped
    by_cases virtualAligned : before.virtualAddress % hugePageSize = 0#64
    · by_cases physicalAligned : before.physicalAddress % hugePageSize = 0#64
      · simp only [if_neg (not_not.mpr virtualAligned), if_neg (not_not.mpr physicalAligned),
          Fallible.bind_eq_ok_iff] at mapped
        rcases mapped with ⟨memory3, stored, returned⟩
        cases returned
        have isLeaf : IsLeaf format 3 (newValue 3 before.physicalAddress flags) :=
          ⟨present_newValue _ _ _,
            Or.inr ⟨rfl, decide_eq_true (table_newValue (noTable isHuge) _)⟩⟩
        have stepped := (extended2.sound.setEntry (by simp) pdTable isLeaf stored).1
        have stores := extended2.sound.grown_setEntry (by simp) pdTable isLeaf stored
          [idx.l2, idx.l1]
        exact ⟨_, grown.trans stores stepped.keepsTables⟩
      · simp only [if_neg (not_not.mpr virtualAligned), if_pos physicalAligned] at mapped
        cases mapped
    · simp only [if_pos virtualAligned] at mapped
      cases mapped
  · rw [if_neg isHuge] at mapped
    by_cases covered : Present (memory2.tables pd idx.l3) ∧ ¬Table (memory2.tables pd idx.l3)
    · rw [if_pos covered] at mapped
      cases mapped
    rw [if_neg covered] at mapped
    simp only [Fallible.bind_eq_ok_iff, Prod.exists] at mapped
    rcases mapped with ⟨memory3, pt, toPt, memory4, stored, returned⟩
    cases returned
    have link : Present (memory2.tables pd idx.l3) →
        format.block (memory2.tables pd idx.l3) = false := by
      intro present
      exact decide_eq_false fun notTable => covered ⟨present, notTable⟩
    rcases extended2.sound.nextTable (by simp) pdTable (fun _ => link) toPt with
      ⟨extended3, ptTable⟩
    have links := extended2.sound.grown_nextTable (by simp) pdTable toPt
    have onTheWay := (grown.mono (List.suffix_cons idx.l3 [idx.l2, idx.l1])).trans links
      extended3.keepsTables
    have isLeaf : IsLeaf format 4 (newValue 4 before.physicalAddress flags) :=
      ⟨present_newValue _ _ _, Or.inl rfl⟩
    have stepped := (extended3.sound.setEntry (by simp) ptTable isLeaf stored).1
    have stores := extended3.sound.grown_setEntry (by simp) ptTable isLeaf stored
      [idx.l3, idx.l2, idx.l1]
    exact ⟨_, onTheWay.trans stores stepped.keepsTables⟩

/-- The path leads to a page as a table of the tree of one half. -/
def At (paging : Paging) (tables : Word64 → Index → Word64) (place : Bool × List Index)
    (page : Word64) : Prop :=
  place.2.length ≤ 3 ∧ (paging.tree place.1).table tables place.2 = some page

/-- The pages from `first` on that the pool has handed out are tables of one of the trees. -/
structure Spent (paging : Paging) (pool : InitialPool paging.pageTableOffset)
    (memory : TableMemory) (first : Fin initialPoolSize) : Prop where
  both : BothSound paging pool memory
  roots : ∀ half, ∃ number : Fin initialPoolSize, first.val ≤ number.val ∧
    pool.page number = paging.root half
  isRoot : pool.page first = paging.root1
  handed : first.val ≤ memory.initialPoolUsedCount.val
  noneLost : ∀ number : Fin initialPoolSize, first.val ≤ number.val →
    number.val < memory.initialPoolUsedCount.val →
      ∃ place, At paging memory.tables place (pool.page number)

/-- A step in one tree keeps the tables of the other. -/
theorem BothSound.keepsOther (both : BothSound paging pool memory) {half : Bool}
    (confined : (paging.tree half).Confined pool memory memory') :
    (paging.tree !half).KeepsTables memory.tables memory'.tables := by
  have agree : ∀ address, (paging.tree !half).Reaches memory.tables address →
      memory'.tables address = memory.tables address := by
    intro address otherReaches
    apply confined.writes
    intro reaches
    rcases confined.reaches address reaches with old | ⟨number, fresh, isPage⟩
    · exact both.disjoint half address old otherReaches
    · rcases (both.sound !half).handedOut_of_reaches otherReaches with
        ⟨_, handed, _, _, below, same⟩
      rw [← isPage] at same
      rw [pool.distinct same] at below
      omega
  intro path table bound reached
  refine (TableTree.tableAt_of_agree ?_ bound).trans reached
  intro above address shorter reachedAbove
  exact agree address ⟨above, Nat.le_of_lt shorter, reachedAbove⟩

section Spent

variable {first : Fin initialPoolSize} {half : Bool} {target : List Index}

/-- The tables that were there are there after a step in one of the trees. -/
theorem At.step {place : Bool × List Index} {page : Word64}
    (both : BothSound paging pool memory)
    (stepped : (paging.tree half).Stepped pool memory memory')
    (confined : (paging.tree half).Confined pool memory memory')
    (here : At paging memory.tables place page) : At paging memory'.tables place page := by
  refine ⟨here.1, ?_⟩
  by_cases same : place.1 = half
  · have reached := here.2
    rw [same] at reached ⊢
    exact stepped.keepsTables place.2 page here.1 reached
  · have reached := here.2
    rw [Bool.eq_not_of_ne same] at reached ⊢
    exact both.keepsOther confined place.2 page here.1 reached

theorem Spent.step (spent : Spent paging pool memory first)
    (stepped : (paging.tree half).Stepped pool memory memory')
    (confined : (paging.tree half).Confined pool memory memory')
    (grown : (paging.tree half).Grown pool memory memory' target) :
    Spent paging pool memory' first := by
  refine ⟨(spent.both.step stepped confined).1, spent.roots, spent.isRoot,
    spent.handed.trans stepped.used, ?_⟩
  intro number lower upper
  by_cases early : number.val < memory.initialPoolUsedCount.val
  · rcases spent.noneLost number lower early with ⟨place, here⟩
    exact ⟨place, here.step spent.both stepped confined⟩
  · rcases grown.pages number (not_lt.mp early) upper with ⟨path, bound, reached⟩
    exact ⟨(half, path), bound, reached⟩

theorem Spent.roots_taken {memory1 memory2 : TableMemory}
    (low : newTable pool memory = .ok (memory1, paging.root1))
    (high : newTable pool memory1 = .ok (memory2, paging.root2)) :
    Spent paging pool memory2 memory.initialPoolUsedCount := by
  have both := BothSound.roots low high
  rcases newTable_cases low with ⟨room1, isRoot1, rfl⟩
  rcases newTable_cases high with ⟨room2, isRoot2, rfl⟩
  refine ⟨both, ?_, isRoot1.symm, by simp only; omega, ?_⟩
  · intro half
    cases half with
    | false => exact ⟨_, Nat.le_refl _, isRoot1.symm⟩
    | true => exact ⟨_, by simp only; omega, isRoot2.symm⟩
  · intro number lower upper
    by_cases isFirst : number = memory.initialPoolUsedCount
    · rw [isFirst, ← isRoot1]
      exact ⟨(false, []), Nat.zero_le 3, rfl⟩
    · have isSecond : number = ⟨memory.initialPoolUsedCount + 1, room1⟩ := by
        apply Fin.ext
        have notFirst := fun same => isFirst (Fin.ext same)
        simp only at upper ⊢
        omega
      rw [isSecond, ← isRoot2]
      exact ⟨(true, []), Nat.zero_le 3, rfl⟩

theorem Spent.mapPages {count : ℕ} {before after : LoopState}
    (noTable : size = hugePageSize → flags &&& pageTable = 0#64)
    (spent : Spent paging pool before.memory first)
    (mapped : Aarch64.mapPages paging pool size flags count before = .ok after) :
    Spent paging pool after.memory first := by
  induction count generalizing before with
  | zero =>
      cases mapped
      exact spent
  | succ count ih =>
      rw [Aarch64.mapPages, Fallible.bind_eq_ok_iff] at mapped
      rcases mapped with ⟨between, once, rest⟩
      rcases mapPage_inserted noTable rfl (spent.both.sound _) once with ⟨stepped, confined, -⟩
      rcases mapPage_grown noTable rfl (spent.both.sound _) once with ⟨target, grown⟩
      exact ih (spent.step stepped confined grown) rest

/-- An iteration of `unmapMemory` is a step that adds no table. -/
theorem unmapPage_step {virtualAddress : Word64} (both : BothSound paging pool memory)
    (unmapped : unmapPage paging size memory virtualAddress = .ok memory') :
    memory' = memory ∨ ∃ half, (paging.tree half).Stepped pool memory memory' ∧
      (paging.tree half).Confined pool memory memory' ∧
      memory'.initialPoolUsedCount = memory.initialPoolUsedCount ∧
      (paging.tree half).Grown pool memory memory' [] := by
  have sound := both.sound (paging.higherHalf virtualAddress)
  rcases unmapPage_outcome rfl unmapped with _ | ⟨deep, bound, reached, page, -⟩
  · exact Or.inl rfl
  · have stepped := (sound.storeEntry deep bound reached (child_of_clear deep page)).1
    have confined := sound.confined_store bound reached (child_of_clear deep page)
    refine Or.inr ⟨_, stepped, confined, rfl, ?_⟩
    apply Grown.of_same
    · intro path pathBound
      exact sound.separated.tableAt_store bound reached (child_of_clear deep page) pathBound
    · rfl

theorem unmapPages_spent {count : ℕ} {virtualAddress : Word64}
    (spent : Spent paging pool memory first)
    (unmapped : unmapPages paging size count virtualAddress memory = .ok memory') :
    Spent paging pool memory' first ∧
      memory'.initialPoolUsedCount = memory.initialPoolUsedCount ∧
      ∀ place page, At paging memory.tables place page → At paging memory'.tables place page := by
  induction count generalizing memory virtualAddress with
  | zero =>
      cases unmapped
      exact ⟨spent, rfl, fun _ _ here => here⟩
  | succ count ih =>
      rw [Aarch64.unmapPages, Fallible.bind_eq_ok_iff] at unmapped
      rcases unmapped with ⟨between, once, rest⟩
      rcases unmapPage_step spent.both once with rfl | ⟨half, stepped, confined, used, grown⟩
      · exact ih spent rest
      · rcases ih (spent.step stepped confined grown) rest with ⟨spentAfter, same, keeps⟩
        refine ⟨spentAfter, same.trans used, ?_⟩
        intro place page here
        exact keeps place page (here.step spent.both stepped confined)

theorem AfterCalls.spent (calls : AfterCalls paging pool memory) :
    ∃ first, Spent paging pool memory first := by
  induction calls with
  | roots low high => exact ⟨_, Spent.roots_taken low high⟩
  | map _ noTable mapped ih =>
      rcases ih with ⟨first, spent⟩
      rcases mapMemory_cases mapped with ⟨state, pages, rfl⟩
      exact ⟨first, spent.mapPages noTable pages⟩
  | unmap _ unmapped ih =>
      rcases ih with ⟨first, spent⟩
      exact ⟨first, (unmapPages_spent spent (unmapMemory_cases unmapped)).1⟩

theorem Spent.at_unique (spent : Spent paging pool memory first) {place other : Bool × List Index}
    {page : Word64} (here : At paging memory.tables place page)
    (there : At paging memory.tables other page) : place = other := by
  rcases place with ⟨half, path⟩
  rcases other with ⟨side, otherPath⟩
  by_cases same : side = half
  · subst same
    exact congrArg (Prod.mk side) ((spent.both.sound side).separated.apart path otherPath page
      here.1 there.1 here.2 there.2)
  · obtain rfl := Bool.eq_not_of_ne same
    exact absurd ⟨otherPath, there.1, there.2⟩
      (spent.both.disjoint half page ⟨path, here.1, here.2⟩)

theorem Spent.owned (spent : Spent paging pool memory first) {place : Bool × List Index}
    {page : Word64} (here : At paging memory.tables place page) :
    ∃ number : Fin initialPoolSize, first.val ≤ number.val ∧
      number.val < memory.initialPoolUsedCount.val ∧ pool.page number = page := by
  rcases (spent.both.sound place.1).separated.owned place.2 page here.1 here.2 with
    ⟨root, number, rootPage, lower, below, isPage⟩
  rcases spent.roots place.1 with ⟨taken, behind, takenPage⟩
  have same := pool.distinct (rootPage.trans takenPage.symm)
  exact ⟨number, by rw [same] at lower; omega, below, isPage⟩

/--
Each page that the pool has handed out from the first root on is one table in one of the halves,
and `unmapMemory` leaves all of them where they are.
-/
theorem calls_spend (calls : AfterCalls paging pool memory) :
    ∃ first, pool.page first = paging.root1 ∧
      (∀ number : Fin initialPoolSize, first.val ≤ number.val →
        number.val < memory.initialPoolUsedCount.val →
          ∃! place, At paging memory.tables place (pool.page number)) ∧
      memory.initialPoolUsedCount.val =
        first.val + {place | ∃ page, At paging memory.tables place page}.ncard ∧
      ∀ virtualAddress numPages size memory',
        unmapMemory paging memory virtualAddress numPages size = .ok memory' →
          memory'.initialPoolUsedCount = memory.initialPoolUsedCount ∧
            ∀ place page, At paging memory.tables place page →
              At paging memory'.tables place page := by
  rcases calls.spent with ⟨first, spent⟩
  refine ⟨first, spent.isRoot, ?_, ?_, ?_⟩
  · intro number lower upper
    rcases spent.noneLost number lower upper with ⟨place, here⟩
    exact ⟨place, here, fun other there => spent.at_unique there here⟩
  · exact pool.eq_add_ncard spent.handed (At paging memory.tables)
      (fun place other page => spent.at_unique)
      (fun place page other here there => Option.some.inj (here.2.symm.trans there.2))
      (fun place page => spent.owned) spent.noneLost
  · intro virtualAddress numPages size memory' unmapped
    exact (unmapPages_spent spent (unmapMemory_cases unmapped)).2

end Spent

theorem calls_spend_twoPages :
    ∃ memory first, mapTwoPages = .ok memory ∧ kernelPool.page first = twoRoots.root1 ∧
      memory.initialPoolUsedCount.val =
        first.val + {place | ∃ page, At twoRoots memory.tables place page}.ncard := by
  have low : newTable kernelPool ⟨fun _ _ => 0#64, ⟨0, by decide⟩⟩ =
      .ok (⟨TableTree.fill (fun _ _ => 0#64) twoRoots.root1 0#64, ⟨1, by decide⟩⟩,
        twoRoots.root1) := rfl
  have high : newTable kernelPool
      ⟨TableTree.fill (fun _ _ => 0#64) twoRoots.root1 0#64, ⟨1, by decide⟩⟩ =
        .ok (twoTables, twoRoots.root2) := rfl
  rcases Fallible.exists_of_isOk (show mapTwoPages.isOk = true by decide +kernel) with
    ⟨memory, mapped⟩
  have calls : AfterCalls twoRoots kernelPool memory :=
    .map (.roots low high) (fun isHuge => absurd isHuge (by decide)) mapped
  rcases calls_spend calls with ⟨first, isRoot, -, used, -⟩
  exact ⟨memory, first, mapped, isRoot, used⟩

end Dvnetos.PageTables.Aarch64
