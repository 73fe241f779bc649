import Dvnetos.Lib.Fallible
import Dvnetos.Paging.X86.Translate

/-!
# What a call of mapMemory leaves alone

One iteration of the loop of `mapMemory` maps one page, or finds that a page of
2 MiB covers it. From this follows what a whole call does to the pages of the tree:
those that are mapped stay as they are, and none is added outside the range.
-/

namespace Dvnetos.PageTables.X86

variable {paging : Paging} {pool : InitialPool paging.pageTableOffset}
variable {size flags : Word64}

theorem present_newValue (physicalAddress flags : Word64) :
    Present (newValue physicalAddress flags) := by
  have clear : physicalAddress &&& pageAddrMask &&& pagePresent = 0#64 := by
    rw [BitVec.and_assoc]
    simp [pageAddrMask, pagePresent]
  rw [Present, newValue, BitVec.or_assoc, Bits.or_and_of_clear clear, BitVec.and_or_distrib_right]
  intro zero
  have := (BitVec.or_eq_zero_iff.mp zero).1
  revert this
  decide

theorem huge_newValue (physicalAddress flags : Word64) :
    Huge (newValue physicalAddress (flags ||| pageSizeFlag)) := by
  rw [Huge, newValue, ← BitVec.or_assoc, BitVec.and_or_distrib_right]
  intro zero
  have := (BitVec.or_eq_zero_iff.mp zero).2
  revert this
  decide

/-- What one iteration of the loop has done. -/
inductive PageOutcome (paging : Paging) (size flags : Word64) (before after : LoopState) : Prop
  | huge (isHuge : size = hugePageSize)
      (aligned : before.virtualAddress % hugePageSize = 0#64)
      (inserted : paging.tree.Inserted before.memory.tables after.memory.tables
        (hugePath before.virtualAddress)
        (newValue before.physicalAddress (flags ||| pageSizeFlag)))
      (physical : after.physicalAddress = before.physicalAddress + hugePageSize)
      (virtual : after.virtualAddress = before.virtualAddress + hugePageSize)
  | covered (notHuge : size ≠ hugePageSize)
      (cover : ∃ entry, paging.tree.leaf before.memory.tables
        (hugePath before.virtualAddress) = some entry)
      (leaves : paging.tree.leaf after.memory.tables = paging.tree.leaf before.memory.tables)
      (physical : after.physicalAddress = before.physicalAddress)
      (virtual : after.virtualAddress = before.virtualAddress)
  | small (notHuge : size ≠ hugePageSize)
      (uncovered : paging.tree.leaf before.memory.tables (hugePath before.virtualAddress) = none)
      (inserted : paging.tree.Inserted before.memory.tables after.memory.tables
        (smallPath before.virtualAddress) (newValue before.physicalAddress flags))
      (physical : after.physicalAddress = before.physicalAddress + pageSize)
      (virtual : after.virtualAddress = before.virtualAddress + pageSize)

theorem mapPage_outcome {before after : LoopState}
    (sound : paging.tree.Sound pool before.memory)
    (mapped : mapPage paging pool size flags before = .ok after) :
    paging.tree.Stepped pool before.memory after.memory ∧
      PageOutcome paging size flags before after := by
  simp only [mapPage, Fallible.bind_eq_ok_iff, Prod.exists] at mapped
  rcases mapped with ⟨memory1, pdpt, toPdpt, memory2, pd, toPd, mapped⟩
  generalize indexes : virtualToPageIndexes before.virtualAddress = idx at toPdpt toPd mapped
  have rootTable : paging.tree.table before.memory.tables [] = some paging.root := rfl
  rcases sound.nextTable (by decide) rootTable (by intro two; cases two) toPdpt with
    ⟨extended1, pdptTable⟩
  rcases extended1.sound.nextTable (by simp) pdptTable (by intro two; cases two) toPd with
    ⟨extended2, pdTable⟩
  have extended := extended1.trans extended2
  have path : hugePath before.virtualAddress = [idx.l3, idx.l2, idx.l1] := by
    rw [hugePath, indexes]
  have pde : paging.tree.entry memory2.tables [idx.l3, idx.l2, idx.l1] =
      some (memory2.tables pd idx.l3) := PageTree.entry_of_table pdTable idx.l3
  by_cases isHuge : size = hugePageSize
  · subst isHuge
    by_cases aligned : before.virtualAddress % hugePageSize = 0#64
    · simp only [if_true, if_neg (not_not.mpr aligned), Fallible.bind_eq_ok_iff] at mapped
      rcases mapped with ⟨memory3, stored, returned⟩
      cases returned
      have isLeaf : IsLeaf format 3 (newValue before.physicalAddress (flags ||| pageSizeFlag)) :=
        ⟨present_newValue _ _, Or.inr ⟨rfl, decide_eq_true (huge_newValue _ _)⟩⟩
      rcases extended2.sound.setEntry (by simp) pdTable isLeaf stored with ⟨stepped, inserted⟩
      refine ⟨extended.toStepped.trans stepped, ?_⟩
      apply PageOutcome.huge rfl aligned
      · rw [path]
        exact extended.inserted inserted
      · rfl
      · rfl
    · rw [if_pos rfl, if_pos aligned] at mapped
      cases mapped
  · rw [if_neg isHuge] at mapped
    by_cases covered : Present (memory2.tables pd idx.l3) ∧ Huge (memory2.tables pd idx.l3)
    · rw [if_pos covered, Fallible.pure_eq_ok_iff] at mapped
      subst mapped
      refine ⟨extended.toStepped, ?_⟩
      apply PageOutcome.covered isHuge
      · refine ⟨memory2.tables pd idx.l3, ?_⟩
        rw [path, ← extended.leaves, PageTree.leaf_eq_some_iff]
        exact ⟨pde, covered.1, Or.inr ⟨rfl, decide_eq_true covered.2⟩⟩
      · exact extended.leaves
      · rfl
      · rfl
    · simp only [if_neg covered, Fallible.bind_eq_ok_iff, Prod.exists] at mapped
      rcases mapped with ⟨memory3, pt, toPt, memory4, stored, returned⟩
      cases returned
      have link : Present (memory2.tables pd idx.l3) →
          format.block (memory2.tables pd idx.l3) = false := by
        intro present
        exact decide_eq_false fun huge => covered ⟨present, huge⟩
      rcases extended2.sound.nextTable (by simp) pdTable (fun _ => link) toPt with
        ⟨extended3, ptTable⟩
      have isLeaf : IsLeaf format 4 (newValue before.physicalAddress flags) :=
        ⟨present_newValue _ _, Or.inl rfl⟩
      rcases extended3.sound.setEntry (by simp) ptTable isLeaf stored with ⟨stepped, inserted⟩
      refine ⟨(extended.trans extended3).toStepped.trans stepped, ?_⟩
      apply PageOutcome.small isHuge
      · rw [path, ← extended.leaves]
        apply PageTree.leaf_eq_none_of
        intro entry found isLeaf
        rw [pde] at found
        rw [← Option.some.inj found] at isLeaf
        rcases isLeaf.2 with four | ⟨_, block⟩
        · cases four
        · exact covered ⟨isLeaf.1, of_decide_eq_true block⟩
      · rw [smallPath_eq_cons, path, indexes]
        exact (extended.trans extended3).inserted inserted
      · rfl
      · rfl

theorem mapPages_frame {count : ℕ} {before after : LoopState}
    (sound : paging.tree.Sound pool before.memory)
    (mapped : mapPages paging pool size flags count before = .ok after) :
    paging.tree.Stepped pool before.memory after.memory ∧
      (∀ path entry, paging.tree.leaf before.memory.tables path = some entry →
        paging.tree.leaf after.memory.tables path = some entry) ∧
      (∀ path, (∀ number < count,
          path ≠ pagePath size (pageAddress size before.virtualAddress number)) →
        paging.tree.leaf after.memory.tables path = paging.tree.leaf before.memory.tables path) ∧
      (size = hugePageSize → 0 < count → before.virtualAddress % hugePageSize = 0#64) := by
  induction count generalizing before with
  | zero =>
      cases mapped
      refine ⟨PageTree.Stepped.refl sound, fun _ _ found => found, fun _ _ => rfl, ?_⟩
      intro _ none
      exact absurd none (Nat.lt_irrefl 0)
  | succ count ih =>
      rw [mapPages, Fallible.bind_eq_ok_iff] at mapped
      rcases mapped with ⟨between, first, rest⟩
      rcases mapPage_outcome sound first with ⟨stepped, outcome⟩
      rcases ih stepped.sound rest with ⟨steppedRest, keepsRest, frameRest, -⟩
      refine ⟨stepped.trans steppedRest, ?_, ?_, ?_⟩
      · intro path entry found
        apply keepsRest
        cases outcome with
        | huge _ _ inserted => exact inserted.keeps found
        | covered _ _ leaves => rwa [leaves]
        | small _ _ inserted => exact inserted.keeps found
      · intro path outside
        have notFirst := outside 0 (Nat.succ_pos count)
        rw [pageAddress_zero] at notFirst
        cases outcome with
        | huge isHuge _ inserted _ virtual =>
            rw [pagePath, if_pos isHuge] at notFirst
            rw [frameRest, inserted.leaf_of_ne notFirst]
            intro number below
            have other := outside (number + 1) (Nat.succ_lt_succ below)
            rwa [pageAddress_succ, stepSize, if_pos isHuge, ← virtual] at other
        | covered _ _ leaves _ virtual =>
            rw [frameRest, leaves]
            intro number below
            rw [virtual]
            exact outside number (Nat.lt_succ_of_lt below)
        | small notHuge _ inserted _ virtual =>
            rw [pagePath, if_neg notHuge] at notFirst
            rw [frameRest, inserted.leaf_of_ne notFirst]
            intro number below
            have other := outside (number + 1) (Nat.succ_lt_succ below)
            rwa [pageAddress_succ, stepSize, if_neg notHuge, ← virtual] at other
      · intro isHuge _
        cases outcome with
        | huge _ aligned => exact aligned
        | covered notHuge => exact absurd isHuge notHuge
        | small notHuge => exact absurd isHuge notHuge

theorem mapMemory_cases {memory memory' : TableMemory} {request : Request}
    (mapped : mapMemory paging pool memory request = .ok memory') :
    request.physicalAddress % pageSize = 0#64 ∧ request.virtualAddress % pageSize = 0#64 ∧
      ∃ state, mapPages paging pool request.size request.flags request.numPages.toNat
          ⟨memory, request.physicalAddress, request.virtualAddress⟩ = .ok state ∧
        state.memory = memory' := by
  by_cases physical : request.physicalAddress % pageSize = 0#64
  · by_cases virtual : request.virtualAddress % pageSize = 0#64
    · simp only [mapMemory, if_neg (not_not.mpr physical), if_neg (not_not.mpr virtual),
        Fallible.bind_eq_ok_iff, Fallible.pure_eq_ok_iff] at mapped
      exact ⟨physical, virtual, by simpa using mapped⟩
    · simp only [mapMemory, if_neg (not_not.mpr physical), if_pos virtual] at mapped
      cases mapped
  · simp only [mapMemory, if_pos physical] at mapped
    cases mapped

theorem mapMemory_stepped {memory memory' : TableMemory} {request : Request}
    (sound : paging.tree.Sound pool memory)
    (mapped : mapMemory paging pool memory request = .ok memory') :
    paging.tree.Stepped pool memory memory' := by
  rcases mapMemory_cases mapped with ⟨_, _, state, pages, rfl⟩
  exact (mapPages_frame sound pages).1

theorem mapMemory_keeps {memory memory' : TableMemory} {request : Request} {path : List Index}
    {entry : Word64} (sound : paging.tree.Sound pool memory)
    (mapped : mapMemory paging pool memory request = .ok memory')
    (found : paging.tree.leaf memory.tables path = some entry) :
    paging.tree.leaf memory'.tables path = some entry := by
  rcases mapMemory_cases mapped with ⟨_, _, state, pages, rfl⟩
  exact (mapPages_frame sound pages).2.1 path entry found

/-- The tables that calls of `mapMemory` on an empty root leave while the processor is running. -/
inductive Reachable (paging : Paging) (pool : InitialPool paging.pageTableOffset) :
    TableMemory → Prop
  | root {memory memory' : TableMemory} (made : newTable pool memory = .ok (memory', paging.root)) :
      Reachable paging pool memory'
  | map {memory memory' : TableMemory} {request : Request}
      (reachable : Reachable paging pool memory)
      (mapped : mapMemory paging pool memory request = .ok memory') :
      Reachable paging pool memory'
  | access {memory : TableMemory} {tables : Word64 → Index → Word64}
      (reachable : Reachable paging pool memory) (sets : SetsAccessBits memory.tables tables) :
      Reachable paging pool { memory with tables }

theorem Reachable.sound {memory : TableMemory} (reachable : Reachable paging pool memory) :
    paging.tree.Sound pool memory := by
  induction reachable with
  | root made => exact (PageTree.sound_newTable paging.tree made).1
  | map _ mapped ih => exact (mapMemory_stepped ih mapped).sound
  | access _ sets ih => exact sets.sound ih

theorem sound_noGiant {memory : TableMemory} (sound : paging.tree.Sound pool memory) (index : Index)
    (path : List Index) (entry : Word64) (bound : path.length = 1)
    (found : paging.tree.entry memory.tables (index :: path) = some entry)
    (present : Present entry) : ¬Huge entry := by
  apply of_decide_eq_false
  exact sound.directories (index :: path) entry (by rw [List.length_cons]; omega) found present

/-- The range lies in one half of the canonical addresses. -/
def CanonicalRange (request : Request) : Prop :=
  let stop := request.virtualAddress.toNat + request.numPages.toNat * request.size.toNat
  stop ≤ 2 ^ 47 ∨ 2 ^ 64 - 2 ^ 47 ≤ request.virtualAddress.toNat ∧ stop ≤ 2 ^ 64

instance (request : Request) : Decidable (CanonicalRange request) :=
  inferInstanceAs (Decidable (_ ∨ _))

/-- A page the call maps lies in its range. -/
theorem covers_of_pagePath {request : Request} {number : ℕ} {address : Word64}
    (sizes : request.size = pageSize ∨ request.size = hugePageSize)
    (range : CanonicalRange request)
    (aligned : request.virtualAddress % request.size = 0#64)
    (below : number < request.numPages.toNat) (canonical : Canonical address)
    (same : pagePath request.size address =
      pagePath request.size (pageAddress request.size request.virtualAddress number)) :
    request.Covers address := by
  have startBound := request.virtualAddress.isLt
  have addressBound := address.isLt
  have alignedNat := congrArg BitVec.toNat aligned
  rw [BitVec.toNat_umod, BitVec.toNat_ofNat] at alignedNat
  rw [pagePath_eq_iff sizes] at same
  have start := @pageAddress_toNat request.size request.virtualAddress sizes number
  rcases size_toNat sizes with bytes | bytes
  · simp only [CanonicalRange, Canonical, Request.Covers, bytes] at *
    have place := start (by omega)
    rw [place] at same
    omega
  · simp only [CanonicalRange, Canonical, Request.Covers, bytes] at *
    have place := start (by omega)
    rw [place] at same
    omega

/-- An address behind or in front of the range has no page in common with it. -/
theorem pagePath_ne_of_not_covers {request : Request} {number : ℕ} {address : Word64}
    (sizes : request.size = pageSize ∨ request.size = hugePageSize)
    (range : CanonicalRange request)
    (aligned : request.virtualAddress % request.size = 0#64)
    (below : number < request.numPages.toNat) (canonical : Canonical address)
    (outside : ¬request.Covers address) :
    hugePath address ≠ pagePath request.size
        (pageAddress request.size request.virtualAddress number) ∧
      smallPath address ≠ pagePath request.size
        (pageAddress request.size request.virtualAddress number) := by
  have apart := fun same => outside (covers_of_pagePath sizes range aligned below canonical same)
  constructor
  · exact fun same => apart (pagePath_of_path (Or.inl rfl) same)
  · exact fun same => apart (pagePath_of_path (Or.inr rfl) same)

/-- `mapMemory` changes no translation: outside its range nothing, and inside it only adds. -/
theorem mapMemory_frame {memory memory' : TableMemory} {request : Request}
    (reachable : Reachable paging pool memory)
    (sizes : request.size = pageSize ∨ request.size = hugePageSize)
    (range : CanonicalRange request)
    (mapped : mapMemory paging pool memory request = .ok memory') (address : Word64) :
    (¬request.Covers address →
      translate paging memory'.tables address = translate paging memory.tables address) ∧
      (∀ translation, translate paging memory.tables address = some translation →
        translate paging memory'.tables address = some translation) := by
  have sound := reachable.sound
  rcases mapMemory_cases mapped with ⟨_, pageAligned, state, pages, rfl⟩
  rcases mapPages_frame sound pages with ⟨stepped, keeps, frame, hugeAligned⟩
  have aligned : 0 < request.numPages.toNat → request.virtualAddress % request.size = 0#64 := by
    intro positive
    rcases sizes with small | huge
    · rw [small]
      exact pageAligned
    · rw [huge]
      exact hugeAligned huge positive
  rw [translate_eq fun entry => sound_noGiant sound _ _ entry rfl,
    translate_eq fun entry => sound_noGiant stepped.sound _ _ entry rfl]
  constructor
  · intro outside
    split_ifs with canonical
    · have apart := fun number (below : number < request.numPages.toNat) =>
        pagePath_ne_of_not_covers sizes range (aligned (Nat.zero_lt_of_lt below)) below canonical
          outside
      rw [frame _ fun number below => (apart number below).1,
        frame _ fun number below => (apart number below).2]
    · rfl
  · intro translation
    split_ifs with canonical
    · cases huge : paging.tree.leaf memory.tables (hugePath address) with
      | some entry =>
          intro found
          rw [keeps _ entry huge]
          exact found
      | none =>
          intro found
          rcases Option.map_eq_some_iff.mp found with ⟨entry, small, rfl⟩
          have kept := keeps _ entry small
          have above : paging.tree.leaf state.memory.tables (hugePath address) = none :=
            PageTree.leaf_above rfl kept
          rw [above, kept]
          rfl
    · exact id

/-- A root that is the first page of the pool. -/
def kernelPaging : Paging :=
  { root := 0xFFFFFFFF80000000#64, pageTableOffset := 0xFFFFFFFF7FE00000#64 }

/-- The tables after `root` has been taken from the pool and cleared. -/
def emptyTables : TableMemory :=
  { tables := TableTree.fill (fun _ _ => 0#64) kernelPaging.root 0#64
    initialPoolUsedCount := ⟨1, by decide⟩ }

theorem reachable_emptyTables : Reachable kernelPaging kernelPool emptyTables :=
  Reachable.root (show newTable kernelPool ⟨fun _ _ => 0#64, ⟨0, by decide⟩⟩ =
    .ok (emptyTables, kernelPaging.root) from rfl)

/-- A call for one page of 4 KiB. -/
def onePage : Request :=
  { physicalAddress := 0x200000#64
    virtualAddress := 0x1000#64
    size := pageSize
    numPages := 1#64
    flags := pageWrite }

/-- The tables after `onePage` has been mapped into the empty tree. -/
def onePageTables : TableMemory :=
  (mapMemory kernelPaging kernelPool emptyTables onePage).toOption.get (by decide)

theorem mapMemory_onePage :
    mapMemory kernelPaging kernelPool emptyTables onePage = .ok onePageTables :=
  Fallible.eq_ok_get _

/-- The page that is mapped, and the one behind it. -/
def twoPages : Request := { onePage with numPages := 2#64 }

theorem mapMemory_frame_twoPages :
    ∃ memory', mapMemory kernelPaging kernelPool onePageTables twoPages = .ok memory' ∧
      translate kernelPaging memory'.tables 0x1234#64 =
        some ⟨0x200234#64, pageSize, pagePresent ||| pageWrite⟩ ∧
      translate kernelPaging memory'.tables 0x3000#64 =
        translate kernelPaging onePageTables.tables 0x3000#64 := by
  rcases Fallible.exists_of_isOk (show
    (mapMemory kernelPaging kernelPool onePageTables twoPages).isOk = true by decide) with
    ⟨memory', mapped⟩
  have frame := mapMemory_frame (.map reachable_emptyTables mapMemory_onePage) (Or.inl rfl)
    (by decide) mapped
  exact ⟨memory', mapped, (frame 0x1234#64).2 _ (by decide), (frame 0x3000#64).1 (by decide)⟩

end Dvnetos.PageTables.X86
