import Dvnetos.Paging.Aarch64.MapMemory
import Dvnetos.Paging.TreeFrames

/-!
# What a call of mapMemory maps

The pages of a range in the higher half go into the tree of `root2`. That is so for every
range if the object has never been given a `higherHalfOffset`. A call that returns has
mapped all pages of its range there and no other.
-/

namespace Dvnetos.PageTables.Aarch64

theorem Paging.higherHalf_of_unset {paging : Paging} (unset : paging.higherHalfOffset = 0#64)
    (virtualAddress : Word64) : paging.higherHalf virtualAddress = true := by
  rw [higherHalf, unset, decide_eq_true_eq]
  exact Nat.zero_le _

theorem present_newValue (level : ℕ) (physicalAddress flags : Word64) :
    Present (newValue level physicalAddress flags) := by
  rw [Present, newValue, BitVec.and_or_distrib_right, BitVec.and_or_distrib_right,
    BitVec.and_or_distrib_right]
  intro zero
  have :=
    (BitVec.or_eq_zero_iff.mp (BitVec.or_eq_zero_iff.mp (BitVec.or_eq_zero_iff.mp zero).1).1).2
  revert this
  decide

theorem table_newValue {flags : Word64} (noTable : flags &&& pageTable = 0#64)
    (physicalAddress : Word64) : ¬Table (newValue 3 physicalAddress flags) := by
  have address : physicalAddress &&& pageAddrMask &&& pageTable = 0#64 := by
    rw [BitVec.and_assoc, show pageAddrMask &&& pageTable = 0#64 by decide, BitVec.and_zero]
  rw [Table, not_not, newValue, BitVec.and_or_distrib_right, BitVec.and_or_distrib_right,
    BitVec.and_or_distrib_right, noTable, address]
  decide

/-- Every page of 4 KiB has its table bit. -/
theorem table_newValue_four (physicalAddress flags : Word64) :
    Table (newValue 4 physicalAddress flags) := by
  rw [Table, newValue, if_pos rfl, BitVec.and_or_distrib_right]
  intro zero
  have := (BitVec.or_eq_zero_iff.mp zero).2
  revert this
  decide

/-- The level of the entry that maps a page of this size. -/
def pageLevel (size : Word64) : ℕ := if size = hugePageSize then 3 else 4

/-- The entry `mapMemory` gives a page of its range. -/
def rangeEntry (size physical flags : Word64) (number : ℕ) : Word64 :=
  newValue (pageLevel size) (pageAddress size physical number) flags

theorem rangeEntry_zero (size physical flags : Word64) :
    rangeEntry size physical flags 0 = newValue (pageLevel size) physical flags := by
  rw [rangeEntry, pageAddress_zero]

theorem rangeEntry_succ (size physical flags : Word64) (number : ℕ) :
    rangeEntry size physical flags (number + 1) =
      rangeEntry size (physical + stepSize size) flags number := by
  rw [rangeEntry, rangeEntry, pageAddress_succ]

section Mapping

variable {paging : Paging} {pool : InitialPool paging.pageTableOffset}
variable {size flags : Word64}
variable (sizes : size = pageSize ∨ size = hugePageSize)
variable (noTable : size = hugePageSize → flags &&& pageTable = 0#64)

include noTable

/-- One iteration maps one page in the tree of its half, and writes to tables of this tree. -/
theorem mapPage_inserted {half : Bool} {before after : LoopState}
    (inHalf : paging.higherHalf before.virtualAddress = half)
    (sound : (paging.tree half).Sound pool before.memory)
    (mapped : mapPage paging pool size flags before = .ok after) :
    (paging.tree half).Stepped pool before.memory after.memory ∧
      (paging.tree half).Confined pool before.memory after.memory ∧
      (paging.tree half).Inserted before.memory.tables after.memory.tables
        (pagePath size before.virtualAddress)
        (newValue (pageLevel size) before.physicalAddress flags) ∧
      after.physicalAddress = before.physicalAddress + size ∧
      after.virtualAddress = before.virtualAddress + size := by
  simp only [mapPage, Fallible.bind_eq_ok_iff, Prod.exists, inHalf] at mapped
  rcases mapped with ⟨memory1, pdpt, toPdpt, memory2, pd, toPd, mapped⟩
  generalize indexes : virtualToPageIndexes before.virtualAddress = idx at toPdpt toPd mapped
  have rootTable : (paging.tree half).table before.memory.tables [] = some (paging.root half) := rfl
  rcases sound.nextTable (by decide) rootTable (by intro two; cases two) toPdpt with
    ⟨extended1, pdptTable⟩
  rcases extended1.sound.nextTable (by simp) pdptTable (by intro two; cases two) toPd with
    ⟨extended2, pdTable⟩
  have extended := extended1.trans extended2
  have confined1 := sound.confined_nextTable (by decide) rootTable toPdpt
  have confined2 := extended1.sound.confined_nextTable (by simp) pdptTable toPd
  have confined := confined1.trans confined2 extended2.keepsTables extended1.used
  have path : hugePath before.virtualAddress = [idx.l3, idx.l2, idx.l1] := by
    rw [hugePath, indexes]
  by_cases isHuge : size = hugePageSize
  · rw [if_pos isHuge] at mapped
    by_cases virtualAligned : before.virtualAddress % hugePageSize = 0#64
    · by_cases physicalAligned : before.physicalAddress % hugePageSize = 0#64
      · simp only [if_neg (not_not.mpr virtualAligned), if_neg (not_not.mpr physicalAligned),
          Fallible.bind_eq_ok_iff] at mapped
        rcases mapped with ⟨memory3, stored, returned⟩
        cases returned
        have isLeaf : IsLeaf format 3 (newValue 3 before.physicalAddress flags) :=
          ⟨present_newValue _ _ _,
            Or.inr ⟨rfl, decide_eq_true (table_newValue (noTable isHuge) _)⟩⟩
        rcases extended2.sound.setEntry (by simp) pdTable isLeaf stored with ⟨stepped, inserted⟩
        have confined3 := extended2.sound.confined_setEntry (by simp) pdTable isLeaf stored
        refine ⟨extended.toStepped.trans stepped,
          confined.trans confined3 stepped.keepsTables extended.used, ?_, rfl, rfl⟩
        rw [pagePath, if_pos isHuge, path, pageLevel, if_pos isHuge]
        exact extended.inserted inserted
      · simp only [if_neg (not_not.mpr virtualAligned), if_pos physicalAligned] at mapped
        cases mapped
    · simp only [if_pos virtualAligned] at mapped
      cases mapped
  · rw [if_neg isHuge] at mapped
    by_cases covered : Present (memory2.tables pd idx.l3) ∧ ¬Table (memory2.tables pd idx.l3)
    · rw [if_pos covered] at mapped
      cases mapped
    rw [if_neg covered] at mapped
    simp only [Fallible.bind_eq_ok_iff, Prod.exists] at mapped
    rcases mapped with ⟨memory3, pt, toPt, memory4, stored, returned⟩
    cases returned
    have link : Present (memory2.tables pd idx.l3) →
        format.block (memory2.tables pd idx.l3) = false := by
      intro present
      exact decide_eq_false fun notTable => covered ⟨present, notTable⟩
    rcases extended2.sound.nextTable (by simp) pdTable (fun _ => link) toPt with
      ⟨extended3, ptTable⟩
    have confined3 := confined.trans (extended2.sound.confined_nextTable (by simp) pdTable toPt)
      extended3.keepsTables extended.used
    have toLast := extended.trans extended3
    have isLeaf : IsLeaf format 4 (newValue 4 before.physicalAddress flags) :=
      ⟨present_newValue _ _ _, Or.inl rfl⟩
    rcases extended3.sound.setEntry (by simp) ptTable isLeaf stored with ⟨stepped, inserted⟩
    have confined4 := extended3.sound.confined_setEntry (by simp) ptTable isLeaf stored
    refine ⟨toLast.toStepped.trans stepped,
      confined3.trans confined4 stepped.keepsTables toLast.used, ?_, rfl, rfl⟩
    rw [pagePath, if_neg isHuge, smallPath_eq_cons, path, indexes, pageLevel, if_neg isHuge]
    exact toLast.inserted inserted

include sizes

/-- A whole loop: the pages of the range are mapped, and all others are as before. -/
theorem mapPages_mapped {count : ℕ} {before after : LoopState}
    (higher : ∀ number < count,
      paging.higherHalf (pageAddress size before.virtualAddress number) = true)
    (sound : (paging.tree true).Sound pool before.memory)
    (mapped : mapPages paging pool size flags count before = .ok after) :
    (paging.tree true).Stepped pool before.memory after.memory ∧
      (∀ path entry, (paging.tree true).leaf before.memory.tables path = some entry →
        (paging.tree true).leaf after.memory.tables path = some entry) ∧
      (∀ path, (∀ number < count,
          path ≠ pagePath size (pageAddress size before.virtualAddress number)) →
        (paging.tree true).leaf after.memory.tables path =
          (paging.tree true).leaf before.memory.tables path) ∧
      (∀ number < count, (paging.tree true).leaf after.memory.tables
          (pagePath size (pageAddress size before.virtualAddress number)) =
        some (rangeEntry size before.physicalAddress flags number)) := by
  induction count generalizing before with
  | zero =>
      cases mapped
      refine ⟨PageTree.Stepped.refl sound, fun _ _ found => found, fun _ _ => rfl, ?_⟩
      intro number below
      exact absurd below (Nat.not_lt_zero number)
  | succ count ih =>
      rw [mapPages, Fallible.bind_eq_ok_iff] at mapped
      rcases mapped with ⟨between, first, rest⟩
      have higherFirst := higher 0 (Nat.succ_pos count)
      rw [pageAddress_zero] at higherFirst
      rcases mapPage_inserted noTable higherFirst sound first with
        ⟨stepped, -, inserted, physical, virtual⟩
      rw [← stepSize_eq sizes] at physical virtual
      have higherRest : ∀ number < count,
          paging.higherHalf (pageAddress size between.virtualAddress number) = true := by
        intro number below
        have later := higher (number + 1) (Nat.succ_lt_succ below)
        rwa [pageAddress_succ, ← virtual] at later
      rcases ih higherRest stepped.sound rest with ⟨steppedRest, keepsRest, frameRest, mappedRest⟩
      refine ⟨stepped.trans steppedRest, ?_, ?_, ?_⟩
      · intro path entry found
        exact keepsRest path entry (inserted.keeps found)
      · intro path outside
        have notFirst := outside 0 (Nat.succ_pos count)
        rw [pageAddress_zero] at notFirst
        rw [frameRest, inserted.leaf_of_ne notFirst]
        intro number below
        have other := outside (number + 1) (Nat.succ_lt_succ below)
        rwa [pageAddress_succ, ← virtual] at other
      · intro number below
        cases number with
        | zero =>
            rw [pageAddress_zero, rangeEntry_zero]
            exact keepsRest _ _ inserted.leaf_self
        | succ number =>
            have later := mappedRest number (Nat.lt_of_succ_lt_succ below)
            rw [virtual, physical] at later
            rw [pageAddress_succ, rangeEntry_succ]
            exact later

end Mapping

theorem mapMemory_cases {paging : Paging} {pool : InitialPool paging.pageTableOffset}
    {memory memory' : TableMemory} {request : Request}
    (mapped : mapMemory paging pool memory request = .ok memory') :
    ∃ state, mapPages paging pool request.size request.flags request.numPages.toNat
        ⟨memory, request.physicalAddress, request.virtualAddress⟩ = .ok state ∧
      state.memory = memory' := by
  by_cases physical : request.physicalAddress % request.size = 0#64
  · by_cases virtual : request.virtualAddress % request.size = 0#64
    · simpa only [mapMemory, if_neg (not_not.mpr physical), if_neg (not_not.mpr virtual),
        Fallible.bind_eq_ok_iff, Fallible.pure_eq_ok_iff] using mapped
    · simp only [mapMemory, if_neg (not_not.mpr physical), if_pos virtual] at mapped
      cases mapped
  · simp only [mapMemory, if_pos physical] at mapped
    cases mapped

end Dvnetos.PageTables.Aarch64
