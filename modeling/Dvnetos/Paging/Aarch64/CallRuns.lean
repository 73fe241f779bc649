import Dvnetos.Paging.Aarch64.MapEffect
import Dvnetos.Paging.PageMaps

/-!
# Runs of calls on aarch64

A run of calls of `mapMemory` and `unmapMemory` follows a machine that has no tables: it keeps
a page map for each root, which a call sets or clears page by page. The machine is stuck where a
page has another translation, so no call that returns has replaced one.
-/

namespace Dvnetos.PageTables.Aarch64

/-- A call to the object behind `init`. -/
inductive Call where
  | map (request : Request)
  | unmap (virtualAddress numPages size : Word64)

/-- What callers have to see to. -/
def Call.Legal : Call → Prop
  | .map request => (request.size = pageSize ∨ request.size = hugePageSize) ∧
      request.flags &&& ~~~pageFlagsMask = 0#64 ∧
      (request.size = hugePageSize → request.flags &&& pageTable = 0#64)
  | .unmap _ _ size => size = pageSize ∨ size = hugePageSize

section Calls

variable (paging : Paging) (pool : InitialPool paging.pageTableOffset)

/-- The tables after a call. -/
def call (memory : TableMemory) : Call → Except Panic TableMemory
  | .map request => mapMemory paging pool memory request
  | .unmap virtualAddress numPages size => unmapMemory paging memory virtualAddress numPages size

/-- Calls one after another, as long as none panics. -/
def calls (memory : TableMemory) (list : List Call) : Except Panic TableMemory :=
  list.foldlM (call paging pool) memory

end Calls

/-- The page maps of both roots. -/
abbrev Halves := Bool → PageMap

namespace Halves

/-- The processor looks up low addresses in the first map and high ones in the second. -/
def translate (halves : Halves) (virtualAddress : Word64) : Option Translation :=
  if virtualAddress.toNat < 2 ^ 48 then halves false virtualAddress
  else if higherHalfStart ≤ virtualAddress then halves true virtualAddress
  else none

/-- The flags of a page of this size. -/
def leafFlags (size flags : Word64) : Word64 :=
  pagePresent ||| flags ||| if size = hugePageSize then 0#64 else pageTable

section Pages

variable (paging : Paging) (size flags : Word64)

/-- The loop of `mapMemory` on the pages of both halves. -/
noncomputable def mapPages : ℕ → Word64 → Word64 → Halves → Option Halves
  | 0, _, _, halves => some halves
  | count + 1, physicalAddress, virtualAddress, halves => do
      let half := paging.higherHalf virtualAddress
      let pages ← (halves half).set ⟨size, virtualAddress⟩
        (frameTranslation size physicalAddress (leafFlags size flags))
      mapPages count (physicalAddress + size) (virtualAddress + size)
        (Function.update halves half pages)

/-- The loop of `unmapMemory` on the pages of both halves. -/
def unmapPages : ℕ → Word64 → Halves → Halves
  | 0, _, halves => halves
  | count + 1, virtualAddress, halves =>
      let half := paging.higherHalf virtualAddress
      unmapPages count (virtualAddress + size)
        (Function.update halves half ((halves half).clear ⟨size, virtualAddress⟩))

end Pages

/-- What a call makes of the pages of both halves, if it returns. -/
noncomputable def call (paging : Paging) (halves : Halves) : Call → Option Halves
  | .map request => halves.mapPages paging request.size request.flags request.numPages.toNat
      request.physicalAddress request.virtualAddress
  | .unmap virtualAddress numPages size =>
      some (halves.unmapPages paging size numPages.toNat virtualAddress)

end Halves

section Represents

variable {paging : Paging} {pool : InitialPool paging.pageTableOffset}
variable {memory memory' : TableMemory} {halves : Halves} {half : Bool}
variable {size flags physicalAddress virtualAddress : Word64}

/-- The page maps are those of the trees, and no page in them is reserved. -/
structure Represents (paging : Paging) (pool : InitialPool paging.pageTableOffset)
    (memory : TableMemory) (halves : Halves) : Prop where
  both : BothSound paging pool memory
  valid : ∀ half path entry, path.length = 4 →
    (paging.tree half).leaf memory.tables path = some entry → Table entry
  pages : ∀ half, leafMap ((paging.tree half).leaf memory.tables) = halves half

theorem Represents.translate (represents : Represents paging pool memory halves)
    (virtualAddress : Word64) :
    Aarch64.translate paging memory.tables virtualAddress = halves.translate virtualAddress := by
  have walk : ∀ half, (paging.tree half).translate reserved memory.tables virtualAddress =
      halves half virtualAddress := by
    intro half
    rw [translate_of_sound (represents.both.sound half), ← represents.pages, leafMap]
    cases (paging.tree half).leaf memory.tables (hugePath virtualAddress) with
    | some entry => rfl
    | none =>
        cases small : (paging.tree half).leaf memory.tables (smallPath virtualAddress) with
        | none => rfl
        | some entry =>
            have table := represents.valid half _ entry rfl small
            have notReserved : (!reserved entry) = true := by
              simp only [reserved, decide_eq_false (not_not.mpr table), Bool.not_false]
            apply congrArg (Option.map _)
            simp only [Option.filter_some, notReserved, if_true]
  rw [Aarch64.translate, Halves.translate, walk, walk]

/-- A change of the tree of one half is one of its page map. -/
theorem Represents.step (represents : Represents paging pool memory halves)
    (stepped : (paging.tree half).Stepped pool memory memory')
    (confined : (paging.tree half).Confined pool memory memory')
    (valid : ∀ path entry, path.length = 4 →
      (paging.tree half).leaf memory'.tables path = some entry → Table entry) :
    Represents paging pool memory' (Function.update halves half
      (leafMap ((paging.tree half).leaf memory'.tables))) := by
  rcases represents.both.step stepped confined with ⟨both, other⟩
  refine ⟨both, ?_, ?_⟩
  · intro side path entry four found
    by_cases same : side = half
    · subst same
      exact valid path entry four found
    · rw [Bool.eq_not_of_ne same, other] at found
      exact represents.valid _ path entry four found
  · intro side
    by_cases same : side = half
    · subst same
      rw [Function.update_self]
    · rw [Function.update_of_ne same, ← represents.pages, Bool.eq_not_of_ne same, other]

theorem leafTranslation_newValue (sizes : size = pageSize ∨ size = hugePageSize)
    (within : flags &&& ~~~pageFlagsMask = 0#64)
    (aligned : physicalAddress.toNat % size.toNat = 0) (address : Word64) :
    leafTranslation size (newValue (pageLevel size) physicalAddress flags) address =
      frameTranslation size physicalAddress (Halves.leafFlags size flags) address := by
  have entry := leafTranslation_rangeEntry sizes within aligned 0 address
  rwa [rangeEntry_zero, Nat.zero_mul, Nat.add_zero] at entry

theorem table_newValue_of_path {address : Word64} (physicalAddress flags : Word64)
    (four : (pagePath size address).length = 4) :
    Table (newValue (pageLevel size) physicalAddress flags) := by
  by_cases isHuge : size = hugePageSize
  · rw [pagePath, if_pos isHuge] at four
    cases four
  · rw [pageLevel, if_neg isHuge]
    exact table_newValue_four _ _

/-- One iteration of the loop of `mapMemory` sets its page. -/
theorem Represents.mapPage {before after : LoopState}
    (represents : Represents paging pool before.memory halves)
    (sizes : size = pageSize ∨ size = hugePageSize)
    (within : flags &&& ~~~pageFlagsMask = 0#64)
    (noTable : size = hugePageSize → flags &&& pageTable = 0#64)
    (aligned : before.physicalAddress.toNat % size.toNat = 0)
    (mapped : Aarch64.mapPage paging pool size flags before = .ok after) :
    ∃ pages, (halves (paging.higherHalf before.virtualAddress)).set ⟨size, before.virtualAddress⟩
        (frameTranslation size before.physicalAddress (Halves.leafFlags size flags)) =
          some pages ∧
      Represents paging pool after.memory
        (Function.update halves (paging.higherHalf before.virtualAddress) pages) ∧
      after.physicalAddress = before.physicalAddress + size ∧
      after.virtualAddress = before.virtualAddress + size := by
  generalize inHalf : paging.higherHalf before.virtualAddress = half
  rcases mapPage_inserted noTable inHalf (represents.both.sound half) mapped with
    ⟨stepped, confined, inserted, physical, virtual⟩
  have isSet := inserted.set sizes
  rw [represents.pages, funext (leafTranslation_newValue sizes within aligned)] at isSet
  refine ⟨_, isSet, ?_, physical, virtual⟩
  apply represents.step stepped confined
  intro path entry four found
  by_cases same : path = pagePath size before.virtualAddress
  · subst same
    rw [inserted.leaf_self] at found
    rw [← Option.some.inj found]
    exact table_newValue_of_path _ _ four
  · rw [inserted.leaf_of_ne same] at found
    exact represents.valid half path entry four found

theorem Represents.mapPages {count : ℕ} {before after : LoopState}
    (represents : Represents paging pool before.memory halves)
    (sizes : size = pageSize ∨ size = hugePageSize)
    (within : flags &&& ~~~pageFlagsMask = 0#64)
    (noTable : size = hugePageSize → flags &&& pageTable = 0#64)
    (aligned : before.physicalAddress.toNat % size.toNat = 0)
    (mapped : Aarch64.mapPages paging pool size flags count before = .ok after) :
    ∃ next, halves.mapPages paging size flags count before.physicalAddress
        before.virtualAddress = some next ∧ Represents paging pool after.memory next := by
  induction count generalizing before halves with
  | zero =>
      cases mapped
      exact ⟨halves, rfl, represents⟩
  | succ count ih =>
      rw [Aarch64.mapPages, Fallible.bind_eq_ok_iff] at mapped
      rcases mapped with ⟨between, first, rest⟩
      rcases represents.mapPage sizes within noTable aligned first with
        ⟨pages, isSet, representsBetween, physical, virtual⟩
      have alignedBetween : between.physicalAddress.toNat % size.toNat = 0 := by
        have next := (pageAddress_mod sizes aligned 1).1
        rwa [pageAddress, stepSize_eq sizes, show BitVec.ofNat 64 1 * size = size by simp,
          ← physical] at next
      rcases ih representsBetween alignedBetween rest with ⟨next, followed, representsAfter⟩
      refine ⟨next, ?_, representsAfter⟩
      rw [physical, virtual] at followed
      simp only [Halves.mapPages, isSet, Option.bind_eq_bind, Option.bind_some]
      exact followed

/-- One iteration of the loop of `unmapMemory` clears its page. -/
theorem Represents.unmapPage (represents : Represents paging pool memory halves)
    (sizes : size = pageSize ∨ size = hugePageSize)
    (unmapped : Aarch64.unmapPage paging size memory virtualAddress = .ok memory') :
    Represents paging pool memory' (Function.update halves (paging.higherHalf virtualAddress)
      ((halves (paging.higherHalf virtualAddress)).clear ⟨size, virtualAddress⟩)) := by
  generalize inHalf : paging.higherHalf virtualAddress = half
  have sound := represents.both.sound half
  have cleared : (paging.tree half).Stepped pool memory memory' ∧
      (paging.tree half).Confined pool memory memory' ∧
      (paging.tree half).leaf memory'.tables =
        Function.update ((paging.tree half).leaf memory.tables) (pagePath size virtualAddress)
          none := by
    cases unmapPage_outcome inHalf unmapped with
    | absent vacant =>
        exact ⟨PageTree.Stepped.refl sound, PageTree.Confined.refl memory,
          (Function.update_eq_self_iff.mpr vacant.symm).symm⟩
    | @cleared path table index deep bound reached page isPath =>
        have keeps := @child_of_clear path _ paging.pageTableOffset deep page
        have noLeaf : ¬IsLeaf (paging.tree half).format (path.length + 1) 0#64 := by
          rintro ⟨present, -⟩
          exact absurd present (by decide)
        rcases sound.storeEntry deep bound reached keeps with ⟨stepped, leaves⟩
        rw [if_neg noLeaf, ← isPath] at leaves
        exact ⟨stepped, sound.confined_store bound reached keeps, leaves⟩
  rcases cleared with ⟨stepped, confined, leaves⟩
  rw [← represents.pages, ← PageTree.leafMap_clear sizes leaves]
  apply represents.step stepped confined
  intro path entry four found
  rw [leaves] at found
  by_cases same : path = pagePath size virtualAddress
  · rw [same, Function.update_self] at found
    cases found
  · rw [Function.update_of_ne same] at found
    exact represents.valid half path entry four found

theorem Represents.unmapPages {count : ℕ} (represents : Represents paging pool memory halves)
    (sizes : size = pageSize ∨ size = hugePageSize)
    (unmapped : Aarch64.unmapPages paging size count virtualAddress memory = .ok memory') :
    Represents paging pool memory' (halves.unmapPages paging size count virtualAddress) := by
  induction count generalizing memory halves virtualAddress with
  | zero =>
      cases unmapped
      exact represents
  | succ count ih =>
      rw [Aarch64.unmapPages, Fallible.bind_eq_ok_iff] at unmapped
      rcases unmapped with ⟨between, first, rest⟩
      exact ih (represents.unmapPage sizes first) rest

theorem Represents.call {action : Call} (represents : Represents paging pool memory halves)
    (legal : action.Legal) (returned : Aarch64.call paging pool memory action = .ok memory') :
    ∃ next, halves.call paging action = some next ∧ Represents paging pool memory' next := by
  cases action with
  | map request =>
      rcases legal with ⟨sizes, within, noTable⟩
      have aligned := (mapMemory_aligned returned).1
      rcases mapMemory_cases returned with ⟨state, pages, rfl⟩
      exact represents.mapPages sizes within noTable aligned pages
  | unmap virtualAddress numPages size =>
      exact ⟨_, rfl, represents.unmapPages legal (unmapMemory_cases returned)⟩

/-- An empty root leads to no page. -/
theorem Intact.leaf_low (intact : Intact paging pool memory) (path : List Index) :
    (paging.tree false).leaf memory.tables path = none := by
  have root : (paging.tree false).table memory.tables [] = some paging.root1 := rfl
  have absent : ∀ index, ¬Present (memory.tables paging.root1 index) := by
    intro index
    rw [intact.empty]
    change ¬Present 0#64
    decide
  have closed : ∀ index path, (paging.tree false).table memory.tables (path ++ [index]) = none := by
    intro index path
    induction path with
    | nil => exact PageTree.no_table_below root (absent index)
    | cons position path ih => exact PageTree.table_of_no_table ih position
  cases path with
  | nil => rfl
  | cons index path =>
      rcases List.eq_nil_or_concat path with rfl | ⟨front, first, rfl⟩
      · exact PageTree.no_leaf_of_absent root (absent index)
      · rw [List.concat_eq_append]
        exact PageTree.leaf_of_no_table (closed first front) index

theorem Represents.roots {memory1 memory2 : TableMemory}
    (first : newTable pool memory = .ok (memory1, paging.root1))
    (second : newTable pool memory1 = .ok (memory2, paging.root2)) :
    Represents paging pool memory2 fun _ => PageMap.empty := by
  have both := BothSound.roots first second
  have vacant : ∀ half path, (paging.tree half).leaf memory2.tables path = none := by
    intro half
    cases half with
    | false => exact (Intact.roots first second).leaf_low
    | true => exact (PageTree.sound_newTable (paging.tree true) second).2
  refine ⟨both, ?_, ?_⟩
  · intro half path entry _ found
    rw [vacant] at found
    cases found
  · intro half
    funext address
    simp [leafMap, vacant, PageMap.empty]

/--
A run of legal calls on fresh roots is one of the machine without tables, and the processor
translates every address as the page maps of this machine say.
-/
theorem calls_refine {memory1 memory2 : TableMemory} {list : List Call}
    (first : newTable pool memory = .ok (memory1, paging.root1))
    (second : newTable pool memory1 = .ok (memory2, paging.root2))
    (legal : ∀ action ∈ list, action.Legal)
    (returned : calls paging pool memory2 list = .ok memory') :
    ∃ halves, list.foldlM (Halves.call paging) (fun _ => PageMap.empty) = some halves ∧
      ∀ virtualAddress, translate paging memory'.tables virtualAddress =
        halves.translate virtualAddress := by
  have step : ∀ state abstract action after, Represents paging pool state abstract →
      action.Legal → call paging pool state action = .ok after →
        ∃ next, Halves.call paging abstract action = some next ∧
          Represents paging pool after next :=
    fun _ _ _ _ represents here ran => represents.call here ran
  rcases Fallible.foldlM_simulates step legal (Represents.roots first second) returned with
    ⟨halves, followed, represents⟩
  exact ⟨halves, followed, represents.translate⟩

end Represents

/-- Two pages are mapped, and one of them is unmapped again. -/
def mapAndUnmap : List Call :=
  [.map twoPages, .unmap twoPages.virtualAddress 1#64 pageSize]

theorem calls_refine_mapAndUnmap :
    ∃ memory' halves, calls twoRoots kernelPool twoTables mapAndUnmap = .ok memory' ∧
      mapAndUnmap.foldlM (Halves.call twoRoots) (fun _ => PageMap.empty) = some halves ∧
      halves.translate 0xFFFF0000001FF123#64 = none ∧
      halves.translate 0xFFFF000000200123#64 = some ⟨0x6123#64, pageSize, 0x403#64⟩ := by
  have first : newTable kernelPool ⟨fun _ _ => 0#64, ⟨0, by decide⟩⟩ =
      .ok (⟨TableTree.fill (fun _ _ => 0#64) twoRoots.root1 0#64, ⟨1, by decide⟩⟩,
        twoRoots.root1) := rfl
  have second : newTable kernelPool
      ⟨TableTree.fill (fun _ _ => 0#64) twoRoots.root1 0#64, ⟨1, by decide⟩⟩ =
        .ok (twoTables, twoRoots.root2) := rfl
  have legal : ∀ action ∈ mapAndUnmap, action.Legal := by
    intro action member
    simp only [mapAndUnmap, List.mem_cons, List.not_mem_nil, or_false] at member
    rcases member with rfl | rfl
    · exact ⟨Or.inl rfl, by decide, fun isHuge => absurd isHuge (by decide)⟩
    · exact Or.inl rfl
  have translates : ((calls twoRoots kernelPool twoTables mapAndUnmap).toOption.map fun memory' =>
      (translate twoRoots memory'.tables 0xFFFF0000001FF123#64,
        translate twoRoots memory'.tables 0xFFFF000000200123#64)) =
        some (none, some ⟨0x6123#64, pageSize, 0x403#64⟩) := by decide +kernel
  rcases Fallible.exists_of_isOk (show
    (calls twoRoots kernelPool twoTables mapAndUnmap).isOk = true by decide +kernel) with
    ⟨memory', returned⟩
  rcases calls_refine first second legal returned with ⟨halves, followed, refines⟩
  rw [returned] at translates
  rcases Prod.mk.inj (Option.some.inj translates) with ⟨unmapped, mapped⟩
  exact ⟨memory', halves, returned, followed, (refines _).symm.trans unmapped,
    (refines _).symm.trans mapped⟩

end Dvnetos.PageTables.Aarch64
