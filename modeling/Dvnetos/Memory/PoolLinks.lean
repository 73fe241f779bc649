import Dvnetos.Memory.PoolBytes

/-!
# The free list in memory

A list of blocks is linked from a slot if the link of the slot is the address of
the first block, the size word of the block is its size, and the other blocks are
linked from it. As long as the sixteen bytes of the headers do not overlap, the
stores of the pool unlink one block, link one, or change one size.
-/

namespace Dvnetos.MemPool.Bytes

open Word TracedStore

/-- The size words and links of two blocks do not overlap. -/
def HeaderApart (first second : ℕ) : Prop := first + 16 ≤ second ∨ second + 16 ≤ first

theorem HeaderApart.symm {first second : ℕ} (apart : HeaderApart first second) :
    HeaderApart second first :=
  Or.symm apart

/-- Two different slots: members of blocks apart, or one of them the member `freeBlocks`. -/
structure SlotApart (first second : ℕ) : Prop where
  different : first ≠ second
  apart : first ≠ 0 → second ≠ 0 → HeaderApart first second

theorem SlotApart.symm {first second : ℕ} (slots : SlotApart first second) :
    SlotApart second first :=
  ⟨slots.different.symm, fun nonnull nonnull' => (slots.apart nonnull' nonnull).symm⟩

/-- The size word of one block does not overlap the header of another. -/
def SizeApart (first second : ℕ) : Prop := first + 8 ≤ second ∨ second + 16 ≤ first

theorem HeaderApart.sizeApart {first second : ℕ} (apart : HeaderApart first second) :
    SizeApart first second := by
  unfold HeaderApart at apart
  simp only [SizeApart]
  omega

/-- The address is that of the block, or the two headers do not overlap. -/
def SameOrApart (first second : ℕ) : Prop := second = first ∨ HeaderApart first second

namespace Heap

variable {heap heap' : Heap} {block other value : ℕ}

theorem link_zero (heap : Heap) : heap.link 0 = heap.freeBlocks := if_pos rfl

theorem size_eq (same : heap'.memory.cells = heap.memory.cells) :
    heap'.size block = heap.size block := by
  rw [size, size, same]

theorem next_eq (same : heap'.memory.cells = heap.memory.cells) :
    heap'.next block = heap.next block := by
  rw [next, next, same]

theorem link_eq (same : heap'.memory.cells = heap.memory.cells)
    (sameFree : heap'.freeBlocks = heap.freeBlocks) : heap'.link block = heap.link block := by
  rw [link, link, sameFree, next_eq same]

theorem sizeInUse_setSize : (heap.setSize block value).sizeInUse = heap.sizeInUse := rfl

theorem next_lt (heap : Heap) (block : ℕ) : heap.next block < 2 ^ 64 :=
  loadWord_lt heap.memory.cells _ 8

theorem size_setSize_same (fits : value < 2 ^ 64) :
    (heap.setSize block value).size block = value :=
  loadWord_storeWord_same fits

theorem size_setSize_apart (apart : SizeApart block other) :
    (heap.setSize block value).size other = heap.size other := by
  apply loadWord_storeWord_apart
  unfold SizeApart at apart
  omega

theorem next_setSize (apart : SizeApart block other) :
    (heap.setSize block value).next other = heap.next other := by
  apply loadWord_storeWord_apart
  unfold SizeApart at apart
  simp only [memBlockHeaderSize]
  omega

theorem size_setNext (apart : SameOrApart block other) :
    (heap.setNext block value).size other = heap.size other := by
  apply loadWord_storeWord_apart
  unfold SameOrApart HeaderApart at apart
  simp only [memBlockHeaderSize]
  omega

theorem next_setNext_same (fits : value < 2 ^ 64) :
    (heap.setNext block value).next block = value :=
  loadWord_storeWord_same fits

theorem next_setNext_apart (apart : HeaderApart block other) :
    (heap.setNext block value).next other = heap.next other := by
  apply loadWord_storeWord_apart
  unfold HeaderApart at apart
  simp only [memBlockHeaderSize]
  omega

theorem link_setSize (apart : other ≠ 0 → SizeApart block other) :
    (heap.setSize block value).link other = heap.link other := by
  simp only [link]
  split_ifs with null
  · rfl
  · exact next_setSize (apart null)

theorem link_setNext (slots : SlotApart block other) (nonnull : block ≠ 0) :
    (heap.setNext block value).link other = heap.link other := by
  simp only [link]
  split_ifs with null
  · rfl
  · exact next_setNext_apart (slots.apart nonnull null)

theorem link_setLink_same (fits : value < 2 ^ 64) :
    (heap.setLink block value).link block = value := by
  simp only [link, setLink]
  split_ifs
  · rfl
  · exact next_setNext_same fits

theorem link_setLink (slots : SlotApart block other) :
    (heap.setLink block value).link other = heap.link other := by
  simp only [setLink]
  split_ifs with null
  · have nonnull : other ≠ 0 := by
      rw [← null]
      exact slots.different.symm
    rw [link, link, if_neg nonnull, if_neg nonnull]
    rfl
  · exact link_setNext slots null

theorem size_setLink (apart : block ≠ 0 → SameOrApart block other) :
    (heap.setLink block value).size other = heap.size other := by
  simp only [setLink]
  split_ifs with null
  · rfl
  · exact size_setNext (apart null)

end Heap

/-- The blocks are linked one behind the other, the first one from the slot `prev`. -/
def Linked (heap : Heap) : ℕ → List MemBlock → Prop
  | prev, [] => heap.link prev = 0
  | prev, block :: rest =>
      heap.link prev = block.addr ∧ heap.size block.addr = block.size ∧
        Linked heap block.addr rest

/-- The slot behind the blocks. -/
def lastSlot (prev : ℕ) : List MemBlock → ℕ
  | [] => prev
  | block :: rest => lastSlot block.addr rest

/-- The slots of the blocks and the slot before them. -/
def slots (prev : ℕ) (blocks : List MemBlock) : List ℕ := prev :: blocks.map MemBlock.addr

/-- The address that a link to the list holds: null if the list is empty. -/
def headAddr : List MemBlock → ℕ
  | [] => 0
  | block :: _ => block.addr

@[simp]
theorem lastSlot_append_singleton (prev : ℕ) (blocks : List MemBlock) (block : MemBlock) :
    lastSlot prev (blocks ++ [block]) = block.addr := by
  induction blocks generalizing prev with
  | nil => rfl
  | cons first rest ih => exact ih first.addr

theorem lastSlot_mem (prev : ℕ) (blocks : List MemBlock) :
    lastSlot prev blocks ∈ slots prev blocks := by
  induction blocks generalizing prev with
  | nil => exact List.mem_cons_self
  | cons first rest ih => exact List.mem_cons_of_mem _ (ih first.addr)

namespace Linked

variable {heap heap' : Heap} {prev slot : ℕ} {blocks before old new : List MemBlock}

theorem head (linked : Linked heap prev blocks) : heap.link prev = headAddr blocks := by
  cases blocks with
  | nil => exact linked
  | cons block rest => exact linked.1

theorem behind (linked : Linked heap prev (before ++ old)) :
    Linked heap (lastSlot prev before) old := by
  induction before generalizing prev with
  | nil => exact linked
  | cons block rest ih => exact ih linked.2.2

/-- The blocks can be linked from another slot, in a heap that agrees on their words. -/
theorem move (linked : Linked heap prev blocks) (first : heap'.link slot = heap.link prev)
    (sizes : ∀ block ∈ blocks, heap'.size block.addr = heap.size block.addr)
    (links : ∀ block ∈ blocks, heap'.link block.addr = heap.link block.addr) :
    Linked heap' slot blocks := by
  induction blocks generalizing prev slot with
  | nil => exact first.trans linked
  | cons block rest ih =>
      rcases linked with ⟨link, size, linked⟩
      refine ⟨first.trans link, (sizes block (by simp)).trans size, ?_⟩
      apply ih linked (links block (by simp))
      · intro other otherMem
        exact sizes other (List.mem_cons_of_mem _ otherMem)
      · intro other otherMem
        exact links other (List.mem_cons_of_mem _ otherMem)

theorem of_eq (linked : Linked heap prev blocks)
    (same : heap'.memory.cells = heap.memory.cells)
    (sameFree : heap'.freeBlocks = heap.freeBlocks) : Linked heap' prev blocks :=
  linked.move (Heap.link_eq same sameFree) (fun _ _ => Heap.size_eq same)
    fun _ _ => Heap.link_eq same sameFree

/-- Behind a part of the list whose words but the last link are kept, the list can change. -/
theorem splice (linked : Linked heap prev (before ++ old)) (distinct : (slots prev before).Nodup)
    (sizes : ∀ block ∈ before, heap'.size block.addr = heap.size block.addr)
    (links : ∀ slot ∈ slots prev before, slot ≠ lastSlot prev before →
      heap'.link slot = heap.link slot)
    (tail : Linked heap' (lastSlot prev before) new) : Linked heap' prev (before ++ new) := by
  induction before generalizing prev with
  | nil => exact tail
  | cons block rest ih =>
      rcases linked with ⟨link, size, linked⟩
      rcases List.nodup_cons.mp distinct with ⟨first, distinctRest⟩
      have notLast : prev ≠ lastSlot block.addr rest := by
        intro same
        apply first
        rw [same]
        exact lastSlot_mem block.addr rest
      refine ⟨(links prev (by simp [slots]) notLast).trans link,
        (sizes block (by simp)).trans size, ?_⟩
      apply ih linked distinctRest
      · intro other otherMem
        exact sizes other (List.mem_cons_of_mem _ otherMem)
      · intro other otherMem
        exact links other (List.mem_cons_of_mem _ otherMem)
      · exact tail

end Linked

/-- The headers of the blocks are apart and lie in the address space. -/
structure Headers (blocks : List MemBlock) : Prop where
  apart : blocks.Pairwise fun first second => HeaderApart first.addr second.addr
  nonnull : ∀ block ∈ blocks, block.addr ≠ 0
  fits : ∀ block ∈ blocks, block.addr < 2 ^ 64

namespace Headers

variable {blocks others : List MemBlock} {first second : MemBlock}

theorem perm (headers : Headers blocks) (perm : blocks.Perm others) : Headers others := by
  constructor
  · exact (perm.pairwise_iff fun apart => apart.symm).mp headers.apart
  · intro block blockMem
    exact headers.nonnull block (perm.mem_iff.mpr blockMem)
  · intro block blockMem
    exact headers.fits block (perm.mem_iff.mpr blockMem)

theorem sublist (headers : Headers blocks) (sublist : others.Sublist blocks) : Headers others := by
  constructor
  · exact headers.apart.sublist sublist
  · intro block blockMem
    exact headers.nonnull block (sublist.subset blockMem)
  · intro block blockMem
    exact headers.fits block (sublist.subset blockMem)

theorem nodup (headers : Headers blocks) : (slots 0 blocks).Nodup := by
  apply List.nodup_cons.mpr
  constructor
  · intro null
    rcases List.mem_map.mp null with ⟨block, blockMem, zero⟩
    exact headers.nonnull block blockMem zero
  · apply List.pairwise_map.mpr
    apply headers.apart.imp
    intro first second apart same
    unfold HeaderApart at apart
    omega

theorem sameOrApart (headers : Headers blocks) (firstMem : first ∈ blocks)
    (secondMem : second ∈ blocks) : SameOrApart first.addr second.addr := by
  by_cases same : first = second
  · exact Or.inl (by rw [same])
  · have symmetric : Std.Symm fun first second : MemBlock => HeaderApart first.addr second.addr :=
      ⟨fun _ _ => HeaderApart.symm⟩
    exact Or.inr (headers.apart.forall firstMem secondMem same)

theorem slotApart (headers : Headers blocks) {slot slot' : ℕ} (slotMem : slot ∈ slots 0 blocks)
    (slotMem' : slot' ∈ slots 0 blocks) (different : slot ≠ slot') : SlotApart slot slot' := by
  refine ⟨different, ?_⟩
  intro nonnull nonnull'
  rcases List.mem_cons.mp slotMem with null | inBlocks
  · exact absurd null nonnull
  rcases List.mem_cons.mp slotMem' with null | inBlocks'
  · exact absurd null nonnull'
  rcases List.mem_map.mp inBlocks with ⟨first, firstMem, rfl⟩
  rcases List.mem_map.mp inBlocks' with ⟨second, secondMem, rfl⟩
  exact (headers.sameOrApart firstMem secondMem).resolve_left fun same => different same.symm

theorem sameOrApart_slot (headers : Headers blocks) {slot : ℕ} (slotMem : slot ∈ slots 0 blocks)
    (secondMem : second ∈ blocks) (nonnull : slot ≠ 0) : SameOrApart slot second.addr := by
  rcases List.mem_cons.mp slotMem with null | inBlocks
  · exact absurd null nonnull
  · rcases List.mem_map.mp inBlocks with ⟨first, firstMem, rfl⟩
    exact headers.sameOrApart firstMem secondMem

end Headers

theorem Linked.setSize {heap : Heap} {prev : ℕ} {blocks : List MemBlock} (block value : ℕ)
    (linked : Linked heap prev blocks) (prevApart : prev ≠ 0 → SizeApart block prev)
    (apart : ∀ other ∈ blocks, SizeApart block other.addr) :
    Linked (heap.setSize block value) prev blocks := by
  apply linked.move
  · exact Heap.link_setSize prevApart
  · intro other otherMem
    exact Heap.size_setSize_apart (apart other otherMem)
  · intro other otherMem
    exact Heap.link_setSize fun _ => apart other otherMem

section

variable {heap : Heap} {n prev other : ℕ}

theorem size_removeFreeBlock (fromBlock : SameOrApart n other)
    (fromPrev : prev ≠ 0 → SameOrApart prev other) :
    (removeFreeBlock heap n prev).size other = heap.size other := by
  simp only [removeFreeBlock]
  rw [Heap.size_setNext fromBlock, Heap.size_setLink fromPrev]
  exact Heap.size_eq rfl

theorem link_removeFreeBlock (nonnull : n ≠ 0) (fromBlock : SlotApart n other)
    (fromPrev : SlotApart prev other) :
    (removeFreeBlock heap n prev).link other = heap.link other := by
  simp only [removeFreeBlock]
  rw [Heap.link_setNext fromBlock nonnull, Heap.link_setLink fromPrev]
  exact Heap.link_eq rfl rfl

theorem link_removeFreeBlock_prev (nonnull : n ≠ 0) (slots : SlotApart n prev) :
    (removeFreeBlock heap n prev).link prev = heap.next n := by
  simp only [removeFreeBlock]
  rw [Heap.link_setNext slots nonnull, Heap.link_setLink_same (Heap.next_lt _ _)]
  exact Heap.next_eq rfl

end

variable {heap : Heap} {before after : List MemBlock} {block : MemBlock}

theorem slots_subset {blocks others : List MemBlock} (subset : blocks ⊆ others) :
    slots 0 blocks ⊆ slots 0 others :=
  List.cons_subset_cons 0 (List.map_subset _ subset)

theorem slots_append_subset (before after : List MemBlock) :
    slots 0 before ⊆ slots 0 (before ++ after) :=
  slots_subset (List.subset_append_left before after)

theorem addr_mem_slots {blocks : List MemBlock} (blockMem : block ∈ blocks) :
    block.addr ∈ slots 0 blocks :=
  List.mem_cons_of_mem _ (List.mem_map_of_mem blockMem)

namespace Headers

variable {other : MemBlock} {slot : ℕ}

theorem slot_ne (headers : Headers (before ++ after)) (slotMem : slot ∈ slots 0 before)
    (otherMem : other ∈ after) : slot ≠ other.addr := by
  have nodup := headers.nodup
  rw [slots, List.map_append, ← List.cons_append] at nodup
  exact (List.nodup_append.mp nodup).2.2 slot slotMem _ (List.mem_map_of_mem otherMem)

theorem lastSlot_ne (headers : Headers (before ++ after)) (otherMem : other ∈ after) :
    lastSlot 0 before ≠ other.addr :=
  headers.slot_ne (lastSlot_mem 0 before) otherMem

theorem ne_of_behind (headers : Headers (before ++ block :: after)) (otherMem : other ∈ after) :
    other.addr ≠ block.addr := by
  have tail := headers.sublist (List.sublist_append_right before (block :: after))
  intro same
  apply (List.nodup_cons.mp (List.nodup_cons.mp tail.nodup).2).1
  rw [← same]
  exact List.mem_map_of_mem otherMem

end Headers

/-- A change of two links only: the one behind the blocks in front, and that of a block. -/
structure Relinks (heap heap' : Heap) (before after : List MemBlock) (block : MemBlock) :
    Prop where
  sizes : ∀ other ∈ before ++ block :: after, heap'.size other.addr = heap.size other.addr
  links : ∀ slot ∈ slots 0 (before ++ block :: after), slot ≠ lastSlot 0 before →
    slot ≠ block.addr → heap'.link slot = heap.link slot

namespace Relinks

variable {heap' : Heap} {old new : List MemBlock} {slot prev : ℕ}

/-- The blocks in front stay linked, and others can be linked behind them. -/
theorem front (relinks : Relinks heap heap' before after block)
    (headers : Headers (before ++ block :: after)) (linked : Linked heap 0 (before ++ old))
    (tail : Linked heap' (lastSlot 0 before) new) : Linked heap' 0 (before ++ new) := by
  apply linked.splice
  · exact (headers.sublist (List.sublist_append_left _ _)).nodup
  · intro other otherMem
    exact relinks.sizes other (List.mem_append_left _ otherMem)
  · intro slot slotMem notLast
    exact relinks.links slot (slots_append_subset _ _ slotMem) notLast
      (headers.slot_ne slotMem List.mem_cons_self)
  · exact tail

/-- The blocks behind stay linked, from whatever slot. -/
theorem behind (relinks : Relinks heap heap' before after block)
    (headers : Headers (before ++ block :: after)) (linked : Linked heap prev after)
    (first : heap'.link slot = heap.link prev) : Linked heap' slot after := by
  apply linked.move first
  · intro other otherMem
    exact relinks.sizes other (by simp [otherMem])
  · intro other otherMem
    exact relinks.links other.addr (addr_mem_slots (by simp [otherMem]))
      (headers.lastSlot_ne (by simp [otherMem])).symm (headers.ne_of_behind otherMem)

end Relinks

theorem linked_removeFreeBlock (linked : Linked heap 0 (before ++ block :: after))
    (headers : Headers (before ++ block :: after)) :
    Linked (removeFreeBlock heap block.addr (lastSlot 0 before)) 0 (before ++ after) := by
  have blockMem : block ∈ before ++ block :: after := by simp
  have nonnull := headers.nonnull block blockMem
  have prevMem := slots_append_subset before (block :: after) (lastSlot_mem 0 before)
  have blockSlot := addr_mem_slots blockMem
  have prevNeBlock : lastSlot 0 before ≠ block.addr := headers.lastSlot_ne (by simp)
  have relinks : Relinks heap (removeFreeBlock heap block.addr (lastSlot 0 before)) before after
      block := by
    constructor
    · intro other otherMem
      exact size_removeFreeBlock (headers.sameOrApart blockMem otherMem)
        (headers.sameOrApart_slot prevMem otherMem)
    · intro slot slotMem notPrev notBlock
      exact link_removeFreeBlock nonnull (headers.slotApart blockSlot slotMem notBlock.symm)
        (headers.slotApart prevMem slotMem notPrev.symm)
  apply relinks.front headers linked
  apply relinks.behind headers linked.behind.2.2
  rw [link_removeFreeBlock_prev nonnull (headers.slotApart blockSlot prevMem prevNeBlock.symm),
    Heap.link, if_neg nonnull]

/-- Link the block behind the blocks `before`. -/
theorem linked_insert (linked : Linked heap 0 (before ++ after))
    (headers : Headers (before ++ block :: after)) (size : heap.size block.addr = block.size) :
    Linked ((heap.setNext block.addr (heap.link (lastSlot 0 before))).setLink
      (lastSlot 0 before) block.addr) 0 (before ++ block :: after) := by
  have blockMem : block ∈ before ++ block :: after := by simp
  have nonnull := headers.nonnull block blockMem
  have prevMem := slots_append_subset before (block :: after) (lastSlot_mem 0 before)
  have blockSlot := addr_mem_slots blockMem
  have prevNeBlock : lastSlot 0 before ≠ block.addr := headers.lastSlot_ne (by simp)
  have prevFits : heap.link (lastSlot 0 before) < 2 ^ 64 := by
    rw [linked.behind.head]
    cases after with
    | nil => exact Nat.two_pow_pos 64
    | cons first rest => exact headers.fits first (by simp)
  have relinks : Relinks heap ((heap.setNext block.addr (heap.link (lastSlot 0 before))).setLink
      (lastSlot 0 before) block.addr) before after block := by
    constructor
    · intro other otherMem
      rw [Heap.size_setLink (headers.sameOrApart_slot prevMem otherMem),
        Heap.size_setNext (headers.sameOrApart blockMem otherMem)]
    · intro slot slotMem notPrev notBlock
      rw [Heap.link_setLink (headers.slotApart prevMem slotMem notPrev.symm),
        Heap.link_setNext (headers.slotApart blockSlot slotMem notBlock.symm) nonnull]
  apply relinks.front headers linked
  refine ⟨Heap.link_setLink_same (headers.fits block blockMem), ?_, ?_⟩
  · rw [relinks.sizes block blockMem, size]
  · apply relinks.behind headers linked.behind
    rw [Heap.link_setLink (headers.slotApart prevMem blockSlot prevNeBlock), Heap.link,
      if_neg nonnull, Heap.next_setNext_same prevFits]

/-- All sixteen bytes of the header are inside. -/
def HeaderIn (inside : ℕ → Prop) (block : ℕ) : Prop :=
  ∀ address, block ≤ address → address < block + 16 → inside address

section

variable {inside : ℕ → Prop} {block prev : ℕ}

theorem frame_setSize (heap : Heap) (value : ℕ) (header : HeaderIn inside block) :
    Frame inside heap.memory (heap.setSize block value).memory := by
  apply frame_storeWord
  intro i bound
  exact header _ (by omega) (by omega)

theorem frame_setNext (heap : Heap) (value : ℕ) (header : HeaderIn inside block) :
    Frame inside heap.memory (heap.setNext block value).memory := by
  apply frame_storeWord
  intro i bound
  simp only [memBlockHeaderSize]
  exact header _ (by omega) (by omega)

theorem frame_setLink (heap : Heap) (value : ℕ) (header : prev ≠ 0 → HeaderIn inside prev) :
    Frame inside heap.memory (heap.setLink prev value).memory := by
  simp only [Heap.setLink]
  split_ifs with null
  · exact Frame.refl heap.memory
  · exact frame_setNext heap value (header null)

end

end Dvnetos.MemPool.Bytes
