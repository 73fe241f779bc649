import Dvnetos.Paging.HardwareWalk
import Dvnetos.Paging.X86.MapMemory

/-!
# The processor on x86_64

The walk of the processor through the tables that `mapMemory` builds, and the
accessed and dirty bits it sets in them.
-/

namespace Dvnetos.PageTables.X86

/-- Bits 48 to 63 of the address are copies of bit 47. -/
def Canonical (virtualAddress : Word64) : Prop :=
  virtualAddress.toNat < 2 ^ 47 ∨ 2 ^ 64 - 2 ^ 47 ≤ virtualAddress.toNat

instance (virtualAddress : Word64) : Decidable (Canonical virtualAddress) :=
  inferInstanceAs (Decidable (_ ∨ _))

/-- What the processor makes of an address. -/
def translate (paging : Paging) (tables : Word64 → Index → Word64) (virtualAddress : Word64) :
    Option Translation :=
  if Canonical virtualAddress then
    paging.tree.translate (fun _ => false) tables virtualAddress
  else none

theorem translate_eq {paging : Paging} {tables : Word64 → Index → Word64} {virtualAddress : Word64}
    (noGiant : let idx := virtualToPageIndexes virtualAddress
      ∀ entry, paging.tree.entry tables [idx.l2, idx.l1] = some entry → Present entry →
        ¬Huge entry) :
    translate paging tables virtualAddress =
      if Canonical virtualAddress then
        match paging.tree.leaf tables (hugePath virtualAddress) with
        | some entry => some (leafTranslation hugePageSize entry virtualAddress)
        | none =>
            (paging.tree.leaf tables (smallPath virtualAddress)).map fun entry =>
              leafTranslation pageSize entry virtualAddress
      else none := by
  rw [translate]
  split_ifs with canonical
  · rw [PageTree.translate_eq _ _ _ _ (fun _ _ _ => rfl)
      (fun entry found present => decide_eq_false (noGiant entry found present))]
    have unfiltered : ∀ found : Option Word64, found.filter (fun _ => true) = found := by
      intro found
      cases found <;> rfl
    cases paging.tree.leaf tables (hugePath virtualAddress) with
    | some entry => rfl
    | none => simp only [Bool.not_false, unfiltered]
  · rfl

/-- The bits of an entry that the processor sets by itself. -/
def accessBits : Word64 := pageAccessed ||| pageDirty

/-- The processor sets accessed and dirty bits in some of the present entries. -/
def SetsAccessBits (before after : Word64 → Index → Word64) : Prop :=
  ∀ table index, after table index = before table index ∨
    Present (before table index) ∧
      ∃ bits, bits &&& ~~~accessBits = 0#64 ∧ after table index = before table index ||| bits

section AccessBits

variable {entry bits : Word64} (within : bits &&& ~~~accessBits = 0#64)

include within

theorem present_or : Present (entry ||| bits) ↔ Present entry := by
  have clear : bits &&& pagePresent = 0#64 := Bits.and_eq_zero_of_within within (by decide)
  rw [Present, Present, Bits.or_and_of_added_clear entry clear]

theorem huge_or : Huge (entry ||| bits) ↔ Huge entry := by
  have clear : bits &&& pageSizeFlag = 0#64 := Bits.and_eq_zero_of_within within (by decide)
  rw [Huge, Huge, Bits.or_and_of_added_clear entry clear]

theorem address_or : (entry ||| bits) &&& ~~~pageFlagsMask = entry &&& ~~~pageFlagsMask := by
  have clear : bits &&& ~~~pageFlagsMask = 0#64 := Bits.and_eq_zero_of_within within (by decide)
  rw [Bits.or_and_of_added_clear entry clear]

end AccessBits

namespace SetsAccessBits

variable {before after : Word64 → Index → Word64} (sets : SetsAccessBits before after)

include sets

theorem present_iff (table : Word64) (index : Index) :
    Present (after table index) ↔ Present (before table index) := by
  rcases sets table index with same | ⟨_, bits, within, set⟩
  · rw [same]
  · rw [set, present_or within]

theorem huge_iff (table : Word64) (index : Index) :
    Huge (after table index) ↔ Huge (before table index) := by
  rcases sets table index with same | ⟨_, bits, within, set⟩
  · rw [same]
  · rw [set, huge_or within]

theorem address_eq (table : Word64) (index : Index) :
    after table index &&& ~~~pageFlagsMask = before table index &&& ~~~pageFlagsMask := by
  rcases sets table index with same | ⟨_, bits, within, set⟩
  · rw [same]
  · rw [set, address_or within]

theorem child_eq (offset : Word64) (level : ℕ) (table : Word64) (index : Index) :
    child format offset level (after table index) =
      child format offset level (before table index) := by
  rw [child, child, sets.address_eq]
  apply if_congr _ rfl rfl
  rw [sets.present_iff]
  simp only [format, sets.huge_iff]

theorem table_eq (paging : Paging) (path : List Index) :
    paging.tree.table after path = paging.tree.table before path :=
  TableTree.tableAt_congr (sets.child_eq paging.pageTableOffset)

theorem sound {paging : Paging} {pool : InitialPool paging.pageTableOffset}
    {count : Fin initialPoolSize}
    (sound : paging.tree.Sound pool ⟨before, count⟩) : paging.tree.Sound pool ⟨after, count⟩ := by
  constructor
  · constructor
    · intro path table bound reached
      have reachedBefore := (sets.table_eq paging path).symm.trans reached
      exact sound.separated.owned path table bound reachedBefore
    · intro first second table firstBound secondBound firstReached secondReached
      apply sound.separated.apart first second table firstBound secondBound
      · exact (sets.table_eq paging first).symm.trans firstReached
      · exact (sets.table_eq paging second).symm.trans secondReached
  · intro path entry bound found present
    cases path with
    | nil => cases found
    | cons index path =>
        rcases PageTree.table_of_entry found with ⟨table, reached, rfl⟩
        rw [sets.table_eq] at reached
        have noBlock := sound.directories (index :: path) _ bound
          (PageTree.entry_of_table reached index) ((sets.present_iff table index).mp present)
        apply decide_eq_false
        rw [sets.huge_iff]
        exact of_decide_eq_false noBlock

theorem leaf (paging : Paging) (path : List Index) :
    paging.tree.leaf before path = none ∧ paging.tree.leaf after path = none ∨
      ∃ entry bits, bits &&& ~~~accessBits = 0#64 ∧
        paging.tree.leaf before path = some entry ∧
        paging.tree.leaf after path = some (entry ||| bits) := by
  cases path with
  | nil => exact Or.inl ⟨rfl, rfl⟩
  | cons index path =>
      cases reached : paging.tree.table before path with
      | none =>
          left
          have reachedAfter := (sets.table_eq paging path).trans reached
          exact ⟨PageTree.leaf_of_no_table reached index,
            PageTree.leaf_of_no_table reachedAfter index⟩
      | some table =>
          have reachedAfter := (sets.table_eq paging path).trans reached
          rw [PageTree.leaf_of_table reached, PageTree.leaf_of_table reachedAfter]
          have same : IsLeaf paging.tree.format (path.length + 1) (after table index) ↔
              IsLeaf paging.tree.format (path.length + 1) (before table index) := by
            simp only [IsLeaf, Paging.tree, format, sets.present_iff, sets.huge_iff]
          by_cases isLeaf : IsLeaf paging.tree.format (path.length + 1) (before table index)
          · right
            have isLeafAfter := same.mpr isLeaf
            rw [if_pos isLeaf, if_pos isLeafAfter]
            rcases sets table index with unchanged | ⟨_, bits, within, set⟩
            · exact ⟨_, 0#64, by decide, rfl, by rw [unchanged, BitVec.or_zero]⟩
            · exact ⟨_, bits, within, rfl, by rw [set]⟩
          · left
            have notLeafAfter := fun isLeafAfter => isLeaf (same.mp isLeafAfter)
            rw [if_neg isLeaf, if_neg notLeafAfter]
            exact ⟨rfl, rfl⟩

theorem leaf_eq_none_iff (paging : Paging) (path : List Index) :
    paging.tree.leaf after path = none ↔ paging.tree.leaf before path = none := by
  rcases sets.leaf paging path with
    ⟨noneBefore, noneAfter⟩ | ⟨entry, bits, _, someBefore, someAfter⟩
  · rw [noneBefore, noneAfter]
  · rw [someBefore, someAfter]
    simp

end SetsAccessBits

end Dvnetos.PageTables.X86

namespace Dvnetos.PageTables

/-- The translation without the flags the processor sets. -/
def Translation.withoutAccess (translation : Translation) : Translation :=
  { translation with flags := translation.flags &&& ~~~X86.accessBits }

end Dvnetos.PageTables

namespace Dvnetos.PageTables.X86

theorem leafTranslation_or {size bits : Word64} (sizes : size = pageSize ∨ size = hugePageSize)
    (within : bits &&& ~~~accessBits = 0#64) (entry virtualAddress : Word64) :
    (leafTranslation size (entry ||| bits) virtualAddress).withoutAccess =
      (leafTranslation size entry virtualAddress).withoutAccess := by
  have outsideFrame : bits &&& (pageAddrMask &&& ~~~(size - 1#64)) = 0#64 := by
    rcases sizes with rfl | rfl
    · exact Bits.and_eq_zero_of_within within (by decide)
    · exact Bits.and_eq_zero_of_within within (by decide)
  have inFlags : ∀ mask, bits &&& mask &&& ~~~accessBits = 0#64 := by
    intro mask
    rw [BitVec.and_assoc, BitVec.and_comm mask, ← BitVec.and_assoc, within, BitVec.zero_and]
  simp only [leafTranslation, Translation.withoutAccess, Translation.mk.injEq, true_and]
  constructor
  · rw [Bits.or_and_of_added_clear entry outsideFrame]
  · rw [BitVec.and_or_distrib_right, BitVec.and_or_distrib_right, inFlags, BitVec.or_zero]

/-- Accessed and dirty bits do not show in a translation beyond themselves. -/
theorem SetsAccessBits.translate {paging : Paging} {before after : Word64 → Index → Word64}
    (sets : SetsAccessBits before after)
    (noGiant : ∀ index path entry, path.length = 1 →
      paging.tree.entry before (index :: path) = some entry → Present entry → ¬Huge entry)
    (virtualAddress : Word64) :
    (X86.translate paging after virtualAddress).map Translation.withoutAccess =
      (X86.translate paging before virtualAddress).map Translation.withoutAccess := by
  have noGiantAfter : ∀ index path entry, path.length = 1 →
      paging.tree.entry after (index :: path) = some entry → Present entry → ¬Huge entry := by
    intro index path entry bound found present
    rcases PageTree.table_of_entry found with ⟨table, reached, rfl⟩
    rw [sets.table_eq] at reached
    rw [sets.huge_iff]
    exact noGiant index path _ bound (PageTree.entry_of_table reached index)
      ((sets.present_iff table index).mp present)
  rw [translate_eq fun entry => noGiant _ _ entry rfl,
    translate_eq fun entry => noGiantAfter _ _ entry rfl]
  split_ifs with canonical
  · rcases sets.leaf paging (hugePath virtualAddress) with
      ⟨noneBefore, noneAfter⟩ | ⟨entry, bits, within, someBefore, someAfter⟩
    · rw [noneBefore, noneAfter]
      rcases sets.leaf paging (smallPath virtualAddress) with
        ⟨noneBefore, noneAfter⟩ | ⟨entry, bits, within, someBefore, someAfter⟩
      · rw [noneBefore, noneAfter]
      · rw [someBefore, someAfter]
        exact congrArg some (leafTranslation_or (Or.inl rfl) within entry virtualAddress)
    · rw [someBefore, someAfter]
      exact congrArg some (leafTranslation_or (Or.inr rfl) within entry virtualAddress)
  · rfl

end Dvnetos.PageTables.X86
