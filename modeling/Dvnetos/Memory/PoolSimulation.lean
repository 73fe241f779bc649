import Dvnetos.Memory.PoolInvariant
import Dvnetos.Memory.PoolLinks

/-!
# The byte model of the pool follows the block model

As long as every free block has room for its link, each operation on bytes does
to the linked list what the operation on blocks does to the list of blocks, and
it stores only inside the free blocks it started from.
-/

namespace Dvnetos.MemPool.Bytes

open Word Regions TracedStore

/-- Disjoint blocks, each of them with room for a link. -/
structure Sound (blocks : List MemBlock) : Prop where
  placed : ∀ block ∈ blocks, block.Placed
  once : ∀ address, coverage (regions blocks) address ≤ 1
  roomy : ∀ block ∈ blocks, memBlockHeaderSize ≤ block.size

/-- The address lies in one of the blocks. -/
def Covered (blocks : List MemBlock) (address : ℕ) : Prop := 0 < coverage (regions blocks) address

namespace Sound

variable {blocks others : List MemBlock}

theorem retile (sound : Sound blocks) (retiles : Retiles blocks others)
    (roomy : ∀ block ∈ others, memBlockHeaderSize ≤ block.size) : Sound others := by
  rcases retiles sound.placed with ⟨placed, same⟩
  refine ⟨placed, ?_, roomy⟩
  intro address
  rw [same]
  exact sound.once address

theorem perm (sound : Sound blocks) (perm : blocks.Perm others) : Sound others := by
  apply sound.retile (Retiles.of_perm perm)
  intro block blockMem
  exact sound.roomy block (perm.mem_iff.mpr blockMem)

theorem headers (sound : Sound blocks) : Headers blocks := by
  have disjoint := pairwise_disjoint_of_coverage sound.once
  constructor
  · apply (List.pairwise_map.mp disjoint).imp_of_mem
    intro first second firstMem secondMem apart
    have firstRoomy := sound.roomy first firstMem
    have secondRoomy := sound.roomy second secondMem
    have later := apart (max first.addr second.addr)
    simp only [MemBlock.region, Region.Contains, memBlockHeaderSize] at *
    simp only [HeaderApart]
    omega
  · intro block blockMem
    exact Nat.ne_of_gt (sound.placed block blockMem).positive
  · intro block blockMem
    have fits := (sound.placed block blockMem).fits
    simp only [MemBlock.region, memBlockHeaderSize] at fits
    omega

theorem headerIn (sound : Sound blocks) {block : MemBlock} (blockMem : block ∈ blocks) :
    HeaderIn (Covered blocks) block.addr := by
  intro address lower upper
  have roomy := sound.roomy block blockMem
  apply coverage_pos_iff.mpr
  refine ⟨block.region, List.mem_map_of_mem blockMem, ?_⟩
  simp only [MemBlock.region, Region.Contains, memBlockHeaderSize] at roomy ⊢
  omega

end Sound

theorem roomy_mergeIfPossible {b1 b2 merged : MemBlock} (b1Placed : b1.Placed)
    (b2Placed : b2.Placed) (possible : MemPool.mergeIfPossible b1 b2 = some merged) :
    memBlockHeaderSize ≤ merged.size := by
  unfold MemPool.mergeIfPossible at possible
  split_ifs at possible with b1First b2First
  · rw [← Option.some.inj possible, (neighbours_eq b1Placed b2Placed b1First).2]
    exact Nat.le_trans (Nat.le_add_left _ _) (Nat.le_add_left _ _)
  · rw [← Option.some.inj possible, (neighbours_eq b2Placed b1Placed b2First).2]
    exact Nat.le_trans (Nat.le_add_left _ _) (Nat.le_add_left _ _)

theorem Sound.merge {block n merged : MemBlock} {before after : List MemBlock}
    (sound : Sound (block :: (before ++ n :: after)))
    (possible : MemPool.mergeIfPossible n block = some merged) :
    Sound (merged :: (before ++ after)) ∧
      Covered (merged :: (before ++ after)) = Covered (block :: (before ++ n :: after)) := by
  have nMem : n ∈ block :: (before ++ n :: after) := by simp
  have first : (block :: (before ++ n :: after)).Perm ([block, n] ++ (before ++ after)) :=
    List.Perm.cons block List.perm_middle
  have retiles : Retiles (block :: (before ++ n :: after)) (merged :: (before ++ after)) :=
    (Retiles.of_perm first).trans ((retiles_mergeIfPossible possible).append_right _)
  constructor
  · apply sound.retile retiles
    intro other otherMem
    rcases List.mem_cons.mp otherMem with rfl | older
    · exact roomy_mergeIfPossible (sound.placed n nMem) (sound.placed block (by simp)) possible
    · apply sound.roomy other
      rcases List.mem_append.mp older with inBefore | inAfter
      · simp [inBefore]
      · simp [inAfter]
  · funext address
    rw [Covered, Covered, (retiles sound.placed).2 address]

/-- What a call keeps of the members, and where it stores. -/
structure Evolves (inside : ℕ → Prop) (heap heap' : Heap) : Prop where
  frame : Frame inside heap.memory heap'.memory
  sizeInUse : heap'.sizeInUse = heap.sizeInUse
  allocCount : heap'.allocCount = heap.allocCount
  freeCount : heap'.freeCount = heap.freeCount

theorem Evolves.refl {inside : ℕ → Prop} (heap : Heap) : Evolves inside heap heap :=
  ⟨Frame.refl _, rfl, rfl, rfl⟩

theorem Evolves.trans {inside : ℕ → Prop} {heap heap' heap'' : Heap}
    (first : Evolves inside heap heap') (second : Evolves inside heap' heap'') :
    Evolves inside heap heap'' :=
  ⟨first.frame.trans second.frame, second.sizeInUse.trans first.sizeInUse,
    second.allocCount.trans first.allocCount, second.freeCount.trans first.freeCount⟩

theorem evolves_setNext {inside : ℕ → Prop} {block : ℕ} (heap : Heap) (value : ℕ)
    (header : HeaderIn inside block) : Evolves inside heap (heap.setNext block value) :=
  ⟨frame_setNext heap value header, rfl, rfl, rfl⟩

theorem evolves_setSize {inside : ℕ → Prop} {block : ℕ} (heap : Heap) (value : ℕ)
    (header : HeaderIn inside block) : Evolves inside heap (heap.setSize block value) :=
  ⟨frame_setSize heap value header, rfl, rfl, rfl⟩

theorem evolves_setLink {inside : ℕ → Prop} {prev : ℕ} (heap : Heap) (value : ℕ)
    (header : prev ≠ 0 → HeaderIn inside prev) : Evolves inside heap (heap.setLink prev value) := by
  refine ⟨frame_setLink heap value header, ?_, ?_, ?_⟩ <;>
  · simp only [Heap.setLink]
    split_ifs <;> rfl

theorem evolves_removeFreeBlock {inside : ℕ → Prop} {block prev : ℕ} (heap : Heap)
    (header : HeaderIn inside block) (prevHeader : prev ≠ 0 → HeaderIn inside prev) :
    Evolves inside heap (removeFreeBlock heap block prev) := by
  have counted : Evolves inside heap
      { heap with sizeFree := sub64 heap.sizeFree (heap.size block) } :=
    ⟨Frame.refl _, rfl, rfl, rfl⟩
  simp only [removeFreeBlock]
  exact counted.trans ((evolves_setLink _ _ prevHeader).trans (evolves_setNext _ 0 header))

@[simp]
theorem sizeFree_setLink (heap : Heap) (prev value : ℕ) :
    (heap.setLink prev value).sizeFree = heap.sizeFree := by
  simp only [Heap.setLink]
  split_ifs <;> rfl

theorem sizeFree_removeFreeBlock (heap : Heap) (block prev : ℕ) :
    (removeFreeBlock heap block prev).sizeFree = sub64 heap.sizeFree (heap.size block) := by
  simp only [removeFreeBlock]
  exact sizeFree_setLink _ _ _

/-- The loop ends within its fuel if that is enough, and it ends as expected. -/
def Returns {α : Type} (result : Option α) (enough : Prop) (expected : α → Prop) : Prop :=
  (enough → result.isSome) ∧ ∀ value, result = some value → expected value

theorem Returns.imp {α : Type} {result : Option α} {enough enough' : Prop}
    {expected expected' : α → Prop} (returns : Returns result enough expected)
    (fuel : enough' → enough) (weaker : ∀ value, expected value → expected' value) :
    Returns result enough' expected' :=
  ⟨fun isEnough => returns.1 (fuel isEnough), fun value same => weaker value (returns.2 value same)⟩

theorem Returns.map {α β : Type} {result : Option α} {enough : Prop} {expected : α → Prop}
    {expected' : β → Prop} (f : α → β) (returns : Returns result enough expected)
    (mapped : ∀ value, expected value → expected' (f value)) :
    Returns (result.map f) enough expected' := by
  constructor
  · intro isEnough
    rw [Option.isSome_map]
    exact returns.1 isEnough
  · intro value same
    rcases Option.map_eq_some_iff.mp same with ⟨inner, isInner, rfl⟩
    exact mapped inner (returns.2 inner isInner)

theorem Returns.of_some {α : Type} {value : α} {enough : Prop} {expected : α → Prop}
    (holds : expected value) : Returns (some value) enough expected :=
  ⟨fun _ => rfl, fun _ same => Option.some.inj same ▸ holds⟩

theorem Returns.of_none {α : Type} {enough : Prop} {expected : α → Prop} (spent : ¬enough) :
    Returns none enough expected :=
  ⟨fun isEnough => absurd isEnough spent, fun _ same => nomatch same⟩

theorem Returns.not_enough {α : Type} {result : Option α} {enough : Prop} {expected : α → Prop}
    (returns : Returns result enough expected) (none : result = .none) : ¬enough := by
  intro isEnough
  have isSome := returns.1 isEnough
  rw [none] at isSome
  cases isSome

section

variable {inside : ℕ → Prop} {heap : Heap} {before after : List MemBlock} {block n : MemBlock}

/-- The slot behind the blocks is the member `freeBlocks` or lies in a header. -/
theorem headerIn_lastSlot (headers : ∀ other ∈ before, HeaderIn inside other.addr)
    (nonnull : lastSlot 0 before ≠ 0) : HeaderIn inside (lastSlot 0 before) := by
  rcases List.mem_cons.mp (lastSlot_mem 0 before) with null | inBefore
  · exact absurd null nonnull
  · rcases List.mem_map.mp inBefore with ⟨other, otherMem, same⟩
    rw [← same]
    exact headers other otherMem

/-- The block has been taken out of the list, and is counted as in use. -/
structure Taken (inside : ℕ → Prop) (heap : Heap) (found : MemBlock) (others : List MemBlock)
    (heap' : Heap) : Prop where
  linked : Linked heap' 0 others
  size : heap'.size found.addr = found.size
  frame : Frame inside heap.memory heap'.memory
  sizeInUse : heap'.sizeInUse = add64 heap.sizeInUse found.size
  sizeFree : heap'.sizeFree = sub64 heap.sizeFree found.size
  allocCount : heap'.allocCount = heap.allocCount
  freeCount : heap'.freeCount = heap.freeCount

theorem taken_removeFreeBlock (linked : Linked heap 0 (before ++ n :: after))
    (headers : Headers (before ++ n :: after))
    (within : ∀ other ∈ before ++ n :: after, HeaderIn inside other.addr) :
    Taken inside heap n (before ++ after)
      (removeFreeBlock { heap with sizeInUse := add64 heap.sizeInUse n.size } n.addr
        (lastSlot 0 before)) := by
  have nMem : n ∈ before ++ n :: after := by simp
  have nSize := linked.behind.2.1
  have nSize' : Heap.size { heap with sizeInUse := add64 heap.sizeInUse n.size } n.addr = n.size :=
    (Heap.size_eq rfl).trans nSize
  have evolves := evolves_removeFreeBlock { heap with sizeInUse := add64 heap.sizeInUse n.size }
    (within n nMem)
    (headerIn_lastSlot fun other otherMem => within other (List.mem_append_left _ otherMem))
  constructor
  · exact linked_removeFreeBlock (linked.of_eq rfl rfl) headers
  · rw [size_removeFreeBlock (Or.inl rfl) (headers.sameOrApart_slot
      (slots_append_subset _ _ (lastSlot_mem 0 before)) nMem), nSize']
  · exact evolves.frame
  · exact evolves.sizeInUse
  · rw [sizeFree_removeFreeBlock, nSize']
  · exact evolves.allocCount
  · exact evolves.freeCount

/-- What `findExistingFreeBlock` returns, if the block model finds this. -/
def FindPost (inside : ℕ → Prop) (heap : Heap) (before : List MemBlock) (result : Heap × ℕ) :
    Option (MemBlock × List MemBlock) → Prop
  | none => result = (heap, 0)
  | some (found, others) =>
      result.2 = found.addr ∧ Taken inside heap found (before ++ others) result.1

theorem findExistingFreeBlock_models (size fuel : ℕ) (before after : List MemBlock)
    (linked : Linked heap 0 (before ++ after)) (headers : Headers (before ++ after))
    (within : ∀ other ∈ before ++ after, HeaderIn inside other.addr) :
    Returns (findExistingFreeBlock size fuel heap (headAddr after) (lastSlot 0 before))
      (after.length < fuel) fun result =>
        FindPost inside heap before result (findFirst size after) := by
  induction after generalizing before fuel with
  | nil =>
      cases fuel with
      | zero => exact Returns.of_none (Nat.not_lt_zero _)
      | succ fuel => exact Returns.of_some rfl
  | cons n after ih =>
      cases fuel with
      | zero => exact Returns.of_none (Nat.not_lt_zero _)
      | succ fuel =>
          have nMem : n ∈ before ++ n :: after := by simp
          have nNonnull := headers.nonnull n nMem
          have nSize := linked.behind.2.1
          rw [findExistingFreeBlock, headAddr, if_neg nNonnull, nSize, findFirst]
          by_cases large : size ≤ n.size
          · rw [if_pos large, if_pos large]
            exact Returns.of_some ⟨rfl, taken_removeFreeBlock linked headers within⟩
          · have nNext : heap.next n.addr = headAddr after := by
              have link := linked.behind.2.2.head
              rwa [Heap.link, if_neg nNonnull] at link
            have later := ih fuel (before ++ [n]) (by simpa using linked)
              (by simpa using headers) (by simpa using within)
            rw [lastSlot_append_singleton] at later
            rw [if_neg large, if_neg large, nNext]
            apply later.imp
            · intro enough
              simpa using enough
            · intro result expected
              cases found : findFirst size after with
              | none =>
                  rw [found] at expected
                  exact expected
              | some result =>
                  simp only [found, FindPost, List.append_assoc] at expected
                  exact expected

/-- The block `n` has left the list and has become a part of `merged`. -/
structure Joined (inside : ℕ → Prop) (heap : Heap) (n merged : MemBlock) (others : List MemBlock)
    (heap' : Heap) : Prop where
  linked : Linked heap' 0 others
  size : heap'.size merged.addr = merged.size
  sizeFree : heap'.sizeFree = sub64 heap.sizeFree n.size
  evolves : Evolves inside heap heap'

theorem joined_setSize {addr value : ℕ} (linked : Linked heap 0 (before ++ n :: after))
    (headers : Headers (before ++ n :: after))
    (within : ∀ other ∈ before ++ n :: after, HeaderIn inside other.addr)
    (apart : ∀ other ∈ before ++ after, HeaderApart addr other.addr)
    (addrIn : HeaderIn inside addr) (fits : value < 2 ^ 64) :
    Joined inside heap n ⟨addr, value⟩ (before ++ after)
      ((removeFreeBlock heap n.addr (lastSlot 0 before)).setSize addr value) := by
  have nMem : n ∈ before ++ n :: after := by simp
  constructor
  · exact (linked_removeFreeBlock linked headers).setSize addr value (fun null => absurd rfl null)
      fun other otherMem => (apart other otherMem).sizeApart
  · exact Heap.size_setSize_same fits
  · rw [← linked.behind.2.1]
    exact sizeFree_removeFreeBlock heap n.addr (lastSlot 0 before)
  · apply (evolves_removeFreeBlock heap (within n nMem) _).trans
    · exact evolves_setSize _ value addrIn
    · exact headerIn_lastSlot fun other otherMem => within other (List.mem_append_left _ otherMem)

theorem mergeIfPossible_eq_none {prev : ℕ} (nSize : heap.size n.addr = n.size)
    (size : heap.size block.addr = block.size)
    (impossible : MemPool.mergeIfPossible n block = none) :
    mergeIfPossible heap n.addr block.addr prev = none := by
  unfold MemPool.mergeIfPossible at impossible
  simp only [mergeIfPossible]
  rw [nSize, size]
  split_ifs at impossible ⊢
  rfl

theorem mergeIfPossible_eq_some {merged : MemBlock}
    (linked : Linked heap 0 (before ++ n :: after)) (size : heap.size block.addr = block.size)
    (sound : Sound (block :: (before ++ n :: after)))
    (within : ∀ other ∈ block :: (before ++ n :: after), HeaderIn inside other.addr)
    (possible : MemPool.mergeIfPossible n block = some merged) :
    ∃ heap', mergeIfPossible heap n.addr block.addr (lastSlot 0 before) =
        some (heap', headAddr after, merged.addr) ∧
      Joined inside heap n merged (before ++ after) heap' := by
  have headers := sound.headers
  have inner : Headers (before ++ n :: after) := headers.sublist (List.sublist_cons_self _ _)
  have nMem : n ∈ before ++ n :: after := by simp
  have nSize := linked.behind.2.1
  have nNext : heap.next n.addr = headAddr after := by
    have link := linked.behind.2.2.head
    rwa [Heap.link, if_neg (inner.nonnull n nMem)] at link
  have removedSize : ∀ other ∈ block :: (before ++ n :: after),
      (removeFreeBlock heap n.addr (lastSlot 0 before)).size other.addr =
        heap.size other.addr := by
    intro other otherMem
    apply size_removeFreeBlock (headers.sameOrApart (List.mem_cons_of_mem _ nMem) otherMem)
    apply headers.sameOrApart_slot _ otherMem
    exact slots_subset (List.subset_cons_self _ _)
      (slots_append_subset _ _ (lastSlot_mem 0 before))
  have nRemoved := (removedSize n (List.mem_cons_of_mem _ nMem)).trans nSize
  have blockRemoved := (removedSize block List.mem_cons_self).trans size
  have spread : Headers (block :: n :: (before ++ after)) :=
    headers.perm (List.Perm.cons block List.perm_middle)
  rcases List.pairwise_cons.mp spread.apart with ⟨blockApart, spreadRest⟩
  rcases List.pairwise_cons.mp spreadRest with ⟨nApart, _⟩
  have joined : ∀ other ∈ [block, n], ∀ value < 2 ^ 64,
      Joined inside heap n ⟨other.addr, value⟩ (before ++ after)
        ((removeFreeBlock heap n.addr (lastSlot 0 before)).setSize other.addr value) := by
    intro other otherMem value fits
    apply joined_setSize linked inner _ _ _ fits
    · intro third thirdMem
      exact within third (List.mem_cons_of_mem _ thirdMem)
    · intro third thirdMem
      simp only [List.mem_cons, List.not_mem_nil, or_false] at otherMem
      rcases otherMem with rfl | rfl
      · exact blockApart third (List.mem_cons_of_mem _ thirdMem)
      · exact nApart third thirdMem
    · apply within
      simp only [List.mem_cons, List.not_mem_nil, or_false] at otherMem
      rcases otherMem with rfl | rfl
      · exact List.mem_cons_self
      · exact List.mem_cons_of_mem _ nMem
  unfold MemPool.mergeIfPossible at possible
  simp only [mergeIfPossible]
  rw [nSize, size]
  split_ifs at possible ⊢ with nFirst blockFirst
  · rw [← Option.some.inj possible]
    refine ⟨_, ?_, joined n (by simp) _ (add64_lt _ _)⟩
    simp only [nRemoved, blockRemoved, nNext]
  · rw [← Option.some.inj possible]
    refine ⟨_, ?_, joined block (by simp) _ (add64_lt _ _)⟩
    simp only [nRemoved, blockRemoved, nNext]

/-- The pass has done to the linked list what it does to the list of blocks. -/
structure PassModels (inside : ℕ → Prop) (heap : Heap) (before : List MemBlock)
    (expected : MemPool.Pass) (pass : Pass) : Prop where
  linked : Linked pass.heap 0 (before ++ expected.kept)
  block : pass.block = expected.block.addr
  size : pass.heap.size expected.block.addr = expected.block.size
  sizeFree : pass.heap.sizeFree = expected.sizeFree
  merged : pass.merged = expected.merged
  addAt : expected.merged = false →
    pass.addAt = lastSlot 0 ((before ++ expected.kept).take expected.addAt)
  evolves : Evolves inside heap pass.heap

theorem mergePass_models (fuel : ℕ) (before after : List MemBlock) (merged : Bool)
    (addAt addAtSlot : ℕ) (linked : Linked heap 0 (before ++ after))
    (size : heap.size block.addr = block.size) (sound : Sound (block :: (before ++ after)))
    (within : ∀ address, Covered (block :: (before ++ after)) address → inside address)
    (slot : merged = false →
      addAt ≤ before.length ∧ addAtSlot = lastSlot 0 (before.take addAt)) :
    Returns
      (mergePass fuel heap (headAddr after) block.addr (lastSlot 0 before) merged addAtSlot)
      (after.length < fuel)
      (PassModels inside heap before
        (MemPool.mergePass after block heap.sizeFree merged before.length addAt)) := by
  induction after generalizing fuel heap before block merged addAt addAtSlot with
  | nil =>
      cases fuel with
      | zero => exact Returns.of_none (Nat.not_lt_zero _)
      | succ fuel =>
          apply Returns.of_some
          refine ⟨linked, rfl, size, rfl, rfl, ?_, Evolves.refl heap⟩
          intro unmerged
          rcases slot unmerged with ⟨_, same⟩
          simpa [MemPool.mergePass] using same
  | cons n after ih =>
      cases fuel with
      | zero => exact Returns.of_none (Nat.not_lt_zero _)
      | succ fuel =>
          have headers := sound.headers.sublist (List.sublist_cons_self _ _)
          have nMem : n ∈ before ++ n :: after := by simp
          have nNonnull := headers.nonnull n nMem
          have nSize := linked.behind.2.1
          rw [mergePass, headAddr, if_neg nNonnull, MemPool.mergePass]
          cases possible : MemPool.mergeIfPossible n block with
          | some joinedBlock =>
              have headersIn : ∀ other ∈ block :: (before ++ n :: after),
                  HeaderIn inside other.addr := by
                intro other otherMem address lower upper
                exact within address (sound.headerIn otherMem address lower upper)
              rcases mergeIfPossible_eq_some linked size sound headersIn possible
                with ⟨heap', isMerged, joined⟩
              rcases sound.merge possible with ⟨soundLater, sameCover⟩
              rw [isMerged]
              have later := ih fuel before true addAt addAtSlot joined.linked joined.size
                soundLater (by rw [sameCover]; exact within) (by simp)
              rw [joined.sizeFree] at later
              apply later.imp
              · intro enough
                simpa using enough
              · intro pass models
                exact ⟨models.linked, models.block, models.size, models.sizeFree, models.merged,
                  models.addAt, joined.evolves.trans models.evolves⟩
          | none =>
              have nNext : heap.next n.addr = headAddr after := by
                have link := linked.behind.2.2.head
                rwa [Heap.link, if_neg nNonnull] at link
              rw [mergeIfPossible_eq_none nSize size possible]
              simp only [nSize, size, nNext]
              have later := ih fuel (before ++ [n]) merged
                (if (!merged && decide (n.size ≤ block.size)) = true then before.length + 1
                  else addAt)
                (if (!merged && decide (n.size ≤ block.size)) = true then n.addr else addAtSlot)
                (by simpa using linked) size (by simpa using sound) (by simpa using within) (by
                  intro unmerged
                  rcases slot unmerged with ⟨bound, same⟩
                  split_ifs
                  · rw [List.take_of_length_le (by simp)]
                    exact ⟨by simp, (lastSlot_append_singleton 0 before n).symm⟩
                  · rw [List.take_append_of_le_length bound]
                    exact ⟨by simp; omega, same⟩)
              rw [lastSlot_append_singleton, List.length_append, List.length_singleton] at later
              apply later.imp
              · intro enough
                simpa using enough
              · intro pass models
                rcases models with ⟨linked', block', size', sizeFree', merged', addAt', evolves'⟩
                rw [List.append_assoc] at linked' addAt'
                exact ⟨linked', block', size', sizeFree', merged', addAt', evolves'⟩

theorem roomy_mergePass (list : List MemBlock) (block : MemBlock) (sizeFree : ℕ)
    (merged : Bool) (index addAt : ℕ) (placed : ∀ other ∈ block :: list, other.Placed)
    (roomy : ∀ other ∈ block :: list, memBlockHeaderSize ≤ other.size) :
    ∀ other ∈ (MemPool.mergePass list block sizeFree merged index addAt).block ::
        (MemPool.mergePass list block sizeFree merged index addAt).kept,
      memBlockHeaderSize ≤ other.size := by
  induction list generalizing block sizeFree merged index addAt with
  | nil => exact roomy
  | cons n rest ih =>
      rw [MemPool.mergePass]
      cases possible : MemPool.mergeIfPossible n block with
      | some joined =>
          have nPlaced := placed n (by simp)
          have blockPlaced := placed block (by simp)
          have joinedPlaced := (retiles_mergeIfPossible possible (by
            intro other otherMem
            simp only [List.mem_cons, List.not_mem_nil, or_false] at otherMem
            rcases otherMem with rfl | rfl
            · exact blockPlaced
            · exact nPlaced)).1 joined (by simp)
          apply ih
          · intro other otherMem
            rcases List.mem_cons.mp otherMem with rfl | inRest
            · exact joinedPlaced
            · exact placed other (by simp [inRest])
          · intro other otherMem
            rcases List.mem_cons.mp otherMem with rfl | inRest
            · exact roomy_mergeIfPossible nPlaced blockPlaced possible
            · exact roomy other (by simp [inRest])
      | none =>
          have later := ih block sizeFree merged (index + 1)
            (if !merged && n.size ≤ block.size then index + 1 else addAt)
            (fun other otherMem => placed other (by
              rcases List.mem_cons.mp otherMem with rfl | inRest
              · simp
              · simp [inRest]))
            (fun other otherMem => roomy other (by
              rcases List.mem_cons.mp otherMem with rfl | inRest
              · simp
              · simp [inRest]))
          intro other otherMem
          simp only [List.mem_cons] at otherMem later
          rcases otherMem with inBlock | inN | inKept
          · exact later other (Or.inl inBlock)
          · rw [inN]
            exact roomy n (by simp)
          · exact later other (Or.inr inKept)

theorem Sound.addPass {pool : Pool} {block : MemBlock} (sound : Sound (block :: pool.freeBlocks)) :
    Sound ((addPass pool block).block :: (addPass pool block).kept) :=
  sound.retile (retiles_addPass pool block)
    (roomy_mergePass _ _ _ _ _ _ sound.placed sound.roomy)

/-- The heap represents the pool. -/
structure Models (heap : Heap) (pool : Pool) : Prop where
  linked : Linked heap 0 pool.freeBlocks
  sizeInUse : heap.sizeInUse = pool.sizeInUse
  sizeFree : heap.sizeFree = pool.sizeFree
  allocCount : heap.allocCount = pool.allocCount
  freeCount : heap.freeCount = pool.freeCount

theorem insert_models {pool : Pool} {expected : MemPool.Pass} {pass : Pass}
    (models : Models heap pool) (passModels : PassModels inside heap [] expected pass)
    (unmerged : expected.merged = false) (sound : Sound (expected.block :: expected.kept))
    (within : ∀ address, Covered (expected.block :: expected.kept) address → inside address) :
    Models (insert pass) (MemPool.insert pool expected) ∧
      Frame inside heap.memory (insert pass).memory := by
  have headersIn : ∀ other ∈ expected.block :: expected.kept, HeaderIn inside other.addr := by
    intro other otherMem address lower upper
    exact within address (sound.headerIn otherMem address lower upper)
  have linked := passModels.linked
  have slot := passModels.addAt unmerged
  rw [List.nil_append] at linked slot
  rw [← List.take_append_drop expected.addAt expected.kept] at linked
  have headers : Headers (expected.kept.take expected.addAt ++
      expected.block :: expected.kept.drop expected.addAt) := by
    apply sound.headers.perm
    refine List.Perm.trans ?_ List.perm_middle.symm
    rw [List.take_append_drop]
  have inserted := linked_insert linked headers passModels.size
  have evolves : Evolves inside heap
      ((pass.heap.setNext expected.block.addr (pass.heap.link pass.addAt)).setLink pass.addAt
        expected.block.addr) := by
    apply passModels.evolves.trans
    apply (evolves_setNext _ _ (headersIn _ List.mem_cons_self)).trans
    apply evolves_setLink
    rw [slot]
    apply headerIn_lastSlot
    intro other otherMem
    exact headersIn other (List.mem_cons_of_mem _ (List.mem_of_mem_take otherMem))
  have size := inserted.behind.2.1
  rw [← slot] at inserted size
  have sizeFree := sizeFree_setLink
    (pass.heap.setNext expected.block.addr (pass.heap.link pass.addAt)) pass.addAt
    expected.block.addr
  simp only [insert]
  rw [passModels.block]
  simp only [size]
  refine ⟨⟨inserted.of_eq rfl rfl, ?_, ?_, ?_, ?_⟩, evolves.frame⟩
  · exact evolves.sizeInUse.trans models.sizeInUse
  · rw [sizeFree]
    exact congrArg (add64 · expected.block.size) passModels.sizeFree
  · exact evolves.allocCount.trans models.allocCount
  · exact evolves.freeCount.trans models.freeCount

theorem addPass_models (fuel : ℕ) {pool : Pool} (models : Models heap pool)
    (size : heap.size block.addr = block.size) (sound : Sound (block :: pool.freeBlocks))
    (within : ∀ address, Covered (block :: pool.freeBlocks) address → inside address) :
    Returns (mergePass fuel heap heap.freeBlocks block.addr 0 false 0)
      (pool.freeBlocks.length < fuel) (PassModels inside heap [] (addPass pool block)) := by
  have first : heap.freeBlocks = headAddr pool.freeBlocks := models.linked.head
  rw [first, addPass, ← models.sizeFree]
  exact mergePass_models fuel [] pool.freeBlocks false 0 0 models.linked size sound within
    fun _ => ⟨Nat.le_refl 0, rfl⟩

theorem addFreeBlock_models (fuel : ℕ) {pool : Pool} (models : Models heap pool)
    (size : heap.size block.addr = block.size) (sound : Sound (block :: pool.freeBlocks))
    (within : ∀ address, Covered (block :: pool.freeBlocks) address → inside address) :
    Returns (addFreeBlock fuel heap block.addr) (pool.freeBlocks.length + 1 < fuel) fun heap' =>
      Models heap' (MemPool.addFreeBlock pool block) ∧ Frame inside heap.memory heap'.memory := by
  induction pool, block using MemPool.addFreeBlock.induct generalizing heap fuel with
  | case1 pool block expected again =>
      rename_i ih
      have merged : (addPass pool block).merged = true := again
      cases fuel with
      | zero => exact Returns.of_none (Nat.not_lt_zero _)
      | succ fuel =>
          have pass := addPass_models fuel models size sound within
          have sameCover : ∀ address, coverage (regions (expected.block :: expected.kept)) address =
              coverage (regions (block :: pool.freeBlocks)) address :=
            (retiles_addPass pool block sound.placed).2
          have shorter : expected.kept.length < pool.freeBlocks.length :=
            (mergePass_kept_length _ _ _ _ _ _).2 rfl merged
          rw [addFreeBlock, MemPool.addFreeBlock, dif_pos merged]
          cases result : mergePass fuel heap heap.freeBlocks block.addr 0 false 0 with
          | none =>
              apply Returns.of_none
              intro enough
              exact pass.not_enough result (by omega)
          | some pass' =>
              have passModels := pass.2 pass' result
              simp only [passModels.merged, merged, if_true, passModels.block]
              have later := ih fuel
                ⟨passModels.linked, passModels.evolves.sizeInUse.trans models.sizeInUse,
                  passModels.sizeFree, passModels.evolves.allocCount.trans models.allocCount,
                  passModels.evolves.freeCount.trans models.freeCount⟩
                passModels.size sound.addPass (fun address covered => within address (by
                  rw [Covered, ← sameCover]
                  exact covered))
              apply later.imp
              · intro enough
                simp only
                omega
              · rintro heap' ⟨models', frame'⟩
                exact ⟨models', passModels.evolves.frame.trans frame'⟩
  | case2 pool block expected =>
      rename_i notAgain
      have unmerged : ¬(addPass pool block).merged = true := notAgain
      cases fuel with
      | zero => exact Returns.of_none (Nat.not_lt_zero _)
      | succ fuel =>
          have pass := addPass_models fuel models size sound within
          have sameCover : ∀ address,
              coverage (regions ((addPass pool block).block :: (addPass pool block).kept)) address =
                coverage (regions (block :: pool.freeBlocks)) address :=
            (retiles_addPass pool block sound.placed).2
          rw [addFreeBlock, MemPool.addFreeBlock, dif_neg unmerged]
          cases result : mergePass fuel heap heap.freeBlocks block.addr 0 false 0 with
          | none =>
              apply Returns.of_none
              intro enough
              exact pass.not_enough result (by omega)
          | some pass' =>
              have passModels := pass.2 pass' result
              simp only [passModels.merged, if_neg unmerged]
              apply Returns.of_some
              apply insert_models models passModels (by simpa using unmerged) sound.addPass
              intro address covered
              apply within
              rw [Covered, ← sameCover]
              exact covered

end

end Dvnetos.MemPool.Bytes
