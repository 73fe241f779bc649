import Dvnetos.Paging.PageMaps
import Dvnetos.Paging.X86.MapWhole

/-!
# Runs of calls on x86_64

A run of calls of `mapMemory` follows a machine that has no tables but one page map. A call sets
the pages of its range in it and ends at one that is covered by a page of 2 MiB. Meanwhile the
processor sets accessed and dirty bits, which the machine does not keep.
-/

namespace Dvnetos.PageTables.X86

/-- What callers have to see to. -/
structure Legal (request : Request) : Prop where
  sizes : request.size = pageSize ∨ request.size = hugePageSize
  within : request.flags &&& ~~~pageFlagsMask = 0#64
  aligned : request.physicalAddress.toNat % request.size.toNat = 0

/-- The calls of `mapMemory` on a fresh root, in order, while the processor is running. -/
inductive History (paging : Paging) (pool : InitialPool paging.pageTableOffset) :
    List Request → TableMemory → Prop
  | root {memory memory' : TableMemory} (made : newTable pool memory = .ok (memory', paging.root)) :
      History paging pool [] memory'
  | map {memory memory' : TableMemory} {list : List Request} {request : Request}
      (history : History paging pool list memory) (legal : Legal request)
      (mapped : mapMemory paging pool memory request = .ok memory') :
      History paging pool (list ++ [request]) memory'
  | access {memory : TableMemory} {tables : Word64 → Index → Word64} {list : List Request}
      (history : History paging pool list memory) (sets : SetsAccessBits memory.tables tables) :
      History paging pool list { memory with tables }

namespace Machine

/-- The flags of a page of this size. -/
def leafFlags (size flags : Word64) : Word64 := pagePresent ||| entryFlags size flags

/-- What a page makes of an address, without the bits of the processor. -/
def value (size physicalAddress flags virtualAddress : Word64) : Translation :=
  (frameTranslation size physicalAddress (leafFlags size flags) virtualAddress).withoutAccess

/-- A page of 2 MiB is in the way of one of 4 KiB. -/
def Blocked (pages : PageMap) (size virtualAddress : Word64) : Prop :=
  size ≠ hugePageSize ∧
    ∃ translation, pages virtualAddress = some translation ∧ translation.size = hugePageSize

open Classical in

/-- The loop of `mapMemory` on pages. -/
noncomputable def mapPages (size flags : Word64) :
    ℕ → Word64 → Word64 → PageMap → Option PageMap
  | 0, _, _, pages => some pages
  | count + 1, physicalAddress, virtualAddress, pages =>
      if Blocked pages size virtualAddress then some pages
      else do
        let pages ← pages.set ⟨size, virtualAddress⟩ (value size physicalAddress flags)
        mapPages size flags count (physicalAddress + size) (virtualAddress + size) pages

/-- What a call makes of the pages, if it returns. -/
noncomputable def call (pages : PageMap) (request : Request) : Option PageMap :=
  mapPages request.size request.flags request.numPages.toNat request.physicalAddress
    request.virtualAddress pages

end Machine

section Represents

variable {paging : Paging} {pool : InitialPool paging.pageTableOffset}
variable {memory memory' : TableMemory} {pages : PageMap}
variable {size flags physicalAddress virtualAddress : Word64}

/-- What is seen of the leaves of the tree. -/
def seenMap (paging : Paging) (tables : Word64 → Index → Word64) : PageMap := fun address =>
  (leafMap (paging.tree.leaf tables) address).map Translation.withoutAccess

/-- The tables are sound and map these pages, accessed and dirty bits apart. -/
structure Represents (paging : Paging) (pool : InitialPool paging.pageTableOffset)
    (memory : TableMemory) (pages : PageMap) : Prop where
  sound : paging.tree.Sound pool memory
  pages : seenMap paging memory.tables = pages

theorem Represents.translate (represents : Represents paging pool memory pages)
    (virtualAddress : Word64) :
    (X86.translate paging memory.tables virtualAddress).map Translation.withoutAccess =
      if Canonical virtualAddress then pages virtualAddress else none := by
  by_cases canonical : Canonical virtualAddress
  · rw [translate_of_sound represents.sound canonical, if_pos canonical, ← represents.pages]
    rfl
  · rw [X86.translate, if_neg canonical, if_neg canonical]
    rfl

theorem leafTranslation_newValue (sizes : size = pageSize ∨ size = hugePageSize)
    (within : flags &&& ~~~pageFlagsMask = 0#64)
    (aligned : physicalAddress.toNat % size.toNat = 0) (address : Word64) :
    leafTranslation size (newValue physicalAddress (entryFlags size flags)) address =
      frameTranslation size physicalAddress (Machine.leafFlags size flags) address := by
  have clear : (pagePresent ||| entryFlags size flags) &&& pageAddrMask = 0#64 := by
    have flagsClear : flags &&& pageAddrMask = 0#64 :=
      Bits.and_eq_zero_of_within within (by decide)
    rw [entryFlags, BitVec.and_or_distrib_right]
    split_ifs
    · rw [BitVec.and_or_distrib_right, flagsClear]
      decide
    · rw [flagsClear]
      decide
  rw [newValue, BitVec.or_assoc, leafTranslation_entry sizes aligned clear]
  rfl

theorem blocked_of_huge {entry : Word64} (notHuge : size ≠ hugePageSize)
    (covers : paging.tree.leaf memory.tables (hugePath virtualAddress) = some entry) :
    Machine.Blocked (seenMap paging memory.tables) size virtualAddress := by
  refine ⟨notHuge, (leafTranslation hugePageSize entry virtualAddress).withoutAccess, ?_, rfl⟩
  rw [seenMap, leafMap_of_huge covers, Option.map_some]

theorem not_blocked_of_vacant
    (vacant : paging.tree.leaf memory.tables (hugePath virtualAddress) = none) :
    ¬Machine.Blocked (seenMap paging memory.tables) size virtualAddress := by
  rintro ⟨-, translation, seen, isHuge⟩
  rw [seenMap, leafMap_of_small vacant, Option.map_map, Option.map_eq_some_iff] at seen
  rcases seen with ⟨entry, -, rfl⟩
  exact absurd isHuge (show pageSize ≠ hugePageSize by decide)

theorem seenMap_set {before after : Word64 → Index → Word64}
    (sizes : size = pageSize ∨ size = hugePageSize)
    (within : flags &&& ~~~pageFlagsMask = 0#64)
    (aligned : physicalAddress.toNat % size.toNat = 0)
    (inserted : paging.tree.Inserted before after (pagePath size virtualAddress)
      (newValue physicalAddress (entryFlags size flags))) :
    (seenMap paging before).set ⟨size, virtualAddress⟩
        (Machine.value size physicalAddress flags) = some (seenMap paging after) := by
  have isSet := inserted.set sizes
  rw [funext (leafTranslation_newValue sizes within aligned)] at isSet
  exact PageMap.set_map Translation.withoutAccess isSet

theorem Represents.mapPages {count : ℕ} {before after : LoopState}
    (represents : Represents paging pool before.memory pages)
    (sizes : size = pageSize ∨ size = hugePageSize)
    (within : flags &&& ~~~pageFlagsMask = 0#64)
    (aligned : before.physicalAddress.toNat % size.toNat = 0)
    (mapped : X86.mapPages paging pool size flags count before = .ok after) :
    ∃ next, Machine.mapPages size flags count before.physicalAddress before.virtualAddress
        pages = some next ∧ Represents paging pool after.memory next := by
  induction count generalizing before pages with
  | zero =>
      cases mapped
      exact ⟨pages, rfl, represents⟩
  | succ count ih =>
      have whole := mapped
      rw [X86.mapPages, Fallible.bind_eq_ok_iff] at mapped
      rcases mapped with ⟨between, first, rest⟩
      rcases mapPage_outcome represents.sound first with ⟨stepped, outcome⟩
      -- the page is set, and the machine goes on behind it
      have goesOn (free : ¬Machine.Blocked pages size before.virtualAddress)
          (inserted : paging.tree.Inserted before.memory.tables between.memory.tables
            (pagePath size before.virtualAddress)
            (newValue before.physicalAddress (entryFlags size flags)))
          (physical : between.physicalAddress = before.physicalAddress + size)
          (virtual : between.virtualAddress = before.virtualAddress + size) :
          ∃ next, Machine.mapPages size flags (count + 1) before.physicalAddress
              before.virtualAddress pages = some next ∧
            Represents paging pool after.memory next := by
        have isSet := seenMap_set sizes within aligned inserted
        rw [represents.pages] at isSet
        have alignedBetween : between.physicalAddress.toNat % size.toNat = 0 := by
          have next := (pageAddress_mod sizes aligned 1).1
          rwa [pageAddress, stepSize_eq sizes, show BitVec.ofNat 64 1 * size = size by simp,
            ← physical] at next
        rcases ih ⟨stepped.sound, rfl⟩ alignedBetween rest with
          ⟨next, followed, representsAfter⟩
        refine ⟨next, ?_, representsAfter⟩
        rw [physical, virtual] at followed
        simp only [Machine.mapPages, if_neg free, isSet, Option.bind_eq_bind, Option.bind_some]
        exact followed
      cases outcome with
      | huge isHuge _ inserted physical virtual =>
          subst isHuge
          exact goesOn (fun blocked => blocked.1 rfl) inserted physical virtual
      | small notHuge uncovered inserted physical virtual =>
          have isSmall : size = pageSize := sizes.resolve_right notHuge
          subst isSmall
          apply goesOn
          · rw [← represents.pages]
            exact not_blocked_of_vacant uncovered
          · exact inserted
          · exact physical
          · exact virtual
      | covered notHuge cover =>
          rcases cover with ⟨entry, covers⟩
          have blocked := blocked_of_huge notHuge covers
          rw [represents.pages] at blocked
          refine ⟨pages, by rw [Machine.mapPages, if_pos blocked],
            (mapPages_frame represents.sound whole).1.sound, ?_⟩
          rw [← represents.pages]
          -- all iterations that are left find the same page
          have leaves : paging.tree.leaf after.memory.tables =
              paging.tree.leaf before.memory.tables := by
            funext path
            rw [← pageAddress_zero size before.virtualAddress] at covers
            exact mapPages_stops notHuge represents.sound whole covers
              fun number below => absurd below (Nat.not_lt_zero number)
          funext address
          rw [seenMap, seenMap, leaves]

theorem Represents.access {tables : Word64 → Index → Word64}
    (represents : Represents paging pool memory pages)
    (sets : SetsAccessBits memory.tables tables) :
    Represents paging pool { memory with tables } pages := by
  refine ⟨sets.sound represents.sound, ?_⟩
  rw [← represents.pages]
  funext address
  rw [seenMap, seenMap]
  rcases sets.leaf paging (hugePath address) with
    ⟨noneBefore, noneAfter⟩ | ⟨entry, bits, within, someBefore, someAfter⟩
  · rw [leafMap_of_small noneBefore, leafMap_of_small noneAfter]
    rcases sets.leaf paging (smallPath address) with
      ⟨noneBefore, noneAfter⟩ | ⟨entry, bits, within, someBefore, someAfter⟩
    · rw [noneBefore, noneAfter]
    · rw [someBefore, someAfter]
      exact congrArg some (leafTranslation_or (Or.inl rfl) within entry address)
  · rw [leafMap_of_huge someBefore, leafMap_of_huge someAfter]
    exact congrArg some (leafTranslation_or (Or.inr rfl) within entry address)

theorem Represents.root (made : newTable pool memory = .ok (memory', paging.root)) :
    Represents paging pool memory' PageMap.empty := by
  rcases PageTree.sound_newTable paging.tree made with ⟨sound, vacant⟩
  refine ⟨sound, ?_⟩
  funext address
  rw [seenMap, leafMap_of_small (vacant _), vacant]
  rfl

/--
The tables that legal calls have left are those of the machine without tables, and the processor
translates every address as its page map says.
-/
theorem history_refines {list : List Request} (history : History paging pool list memory) :
    ∃ pages, list.foldlM Machine.call PageMap.empty = some pages ∧
      ∀ virtualAddress,
        (translate paging memory.tables virtualAddress).map Translation.withoutAccess =
          if Canonical virtualAddress then pages virtualAddress else none := by
  have followed : ∃ pages, list.foldlM Machine.call PageMap.empty = some pages ∧
      Represents paging pool memory pages := by
    induction history with
    | root made => exact ⟨_, rfl, Represents.root made⟩
    | map _ legal mapped ih =>
        rcases ih with ⟨pages, ran, represents⟩
        rcases mapMemory_cases mapped with ⟨-, -, state, loop, rfl⟩
        rcases represents.mapPages legal.sizes legal.within legal.aligned loop with
          ⟨next, stepped, representsNext⟩
        refine ⟨next, ?_, representsNext⟩
        rw [List.foldlM_append, ran]
        simpa [Machine.call] using stepped
    | access _ sets ih =>
        rcases ih with ⟨pages, ran, represents⟩
        exact ⟨pages, ran, represents.access sets⟩
  rcases followed with ⟨pages, ran, represents⟩
  exact ⟨pages, ran, represents.translate⟩

end Represents

theorem history_refines_hugeInTheWay :
    ∃ memory pages,
      History kernelPaging kernelPool [secondHugePage, { onePage with
        virtualAddress := 0x1FF000#64, numPages := 3#64 }] memory ∧
      [secondHugePage, { onePage with virtualAddress := 0x1FF000#64, numPages := 3#64 }].foldlM
        Machine.call PageMap.empty = some pages ∧
      pages 0x200123#64 = some ⟨0x200123#64, hugePageSize, 0x83#64⟩ := by
  let behind : Request := { onePage with virtualAddress := 0x1FF000#64, numPages := 3#64 }
  let both := mapMemory kernelPaging kernelPool emptyTables secondHugePage >>= fun memory =>
    mapMemory kernelPaging kernelPool memory behind
  have translates : (both.toOption.map fun memory =>
      (translate kernelPaging memory.tables 0x200123#64).map Translation.withoutAccess) =
        some (some ⟨0x200123#64, hugePageSize, 0x83#64⟩) := by decide +kernel
  rcases Fallible.exists_of_isOk (show both.isOk = true by decide +kernel) with
    ⟨memory', returned⟩
  rw [returned] at translates
  rcases Fallible.bind_eq_ok_iff.mp returned with ⟨memory, first, second⟩
  have start : History kernelPaging kernelPool [] emptyTables :=
    .root (show newTable kernelPool ⟨fun _ _ => 0#64, ⟨0, by decide⟩⟩ =
      .ok (emptyTables, kernelPaging.root) from rfl)
  have history : History kernelPaging kernelPool ([] ++ [secondHugePage] ++ [behind]) memory' :=
    .map (.map start ⟨Or.inr rfl, by decide, by decide⟩ first) ⟨Or.inl rfl, by decide, by decide⟩
      second
  rcases history_refines history with ⟨pages, ran, refines⟩
  refine ⟨memory', pages, history, ran, ?_⟩
  have value := refines 0x200123#64
  rw [if_pos (by decide)] at value
  exact value.symm.trans (Option.some.inj translates)

end Dvnetos.PageTables.X86
