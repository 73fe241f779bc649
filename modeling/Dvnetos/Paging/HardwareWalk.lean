import Dvnetos.Paging.PageNumbers
import Dvnetos.Paging.PageTree

/-!
# How a processor reads the tables

Physical memory is seen at `pageTableOffset`: the table in a physical page lies
behind the pointer that `adjustPageTablePhysicalToVirtual` makes of its address.
A processor of either architecture walks the same four levels; they differ in the
bit that makes an entry a block and in what this bit means in the first and the last
level. The checks of other reserved bits are left out.
-/

namespace Dvnetos.PageTables

/-- The size of a page that an entry of level 2 maps. -/
def gigaPageSize : Word64 := hugePageSize * pageEntries

/-- What an address is translated to, in a page of this size with these flags. -/
structure Translation where
  physicalAddress : Word64
  size : Word64
  flags : Word64
  deriving DecidableEq

/-- What an entry that maps a page of this size makes of an address. -/
def leafTranslation (size entry virtualAddress : Word64) : Translation :=
  let frame := pageAddrMask &&& ~~~(size - 1#64)
  { physicalAddress := (entry &&& frame) ||| (virtualAddress &&& (size - 1#64))
    size
    flags := entry &&& ~~~frame }

section Frames

variable {size physicalAddress bits : Word64}
variable (sizes : size = pageSize ∨ size = hugePageSize)

include sizes

theorem twoPow_of_size : ∃ shift ≤ 52, size.toNat = 2 ^ shift ∧
    size - 1#64 = BitVec.ofNat 64 (2 ^ shift - 1) := by
  rcases sizes with rfl | rfl
  · exact ⟨12, by decide, rfl, rfl⟩
  · exact ⟨21, by decide, rfl, rfl⟩

variable (aligned : physicalAddress.toNat % size.toNat = 0)

include aligned

theorem and_size_of_aligned : physicalAddress &&& (size - 1#64) = 0#64 := by
  rcases twoPow_of_size sizes with ⟨shift, bound, bytes, mask⟩
  apply BitVec.eq_of_toNat_eq
  rw [mask, Bits.toNat_and_low physicalAddress (by omega), ← bytes, aligned]
  rfl

/-- The address bits of an entry hold the lower 52 bits of an address. -/
theorem and_frame_toNat :
    (physicalAddress &&& (pageAddrMask &&& ~~~(size - 1#64))).toNat =
      physicalAddress.toNat % 2 ^ 52 := by
  have frame : pageAddrMask &&& ~~~(size - 1#64) =
      ~~~(size - 1#64) &&& BitVec.ofNat 64 (2 ^ 52 - 1) := by
    rcases sizes with rfl | rfl <;> decide
  rw [frame, ← BitVec.and_assoc, Bits.and_not_eq_self (and_size_of_aligned sizes aligned),
    Bits.toNat_and_low physicalAddress (by decide)]

/-- What a page makes of an address, if its entry has been put together from a frame and flags. -/
theorem leafTranslation_entry (clear : bits &&& pageAddrMask = 0#64) (virtualAddress : Word64) :
    leafTranslation size ((physicalAddress &&& pageAddrMask) ||| bits) virtualAddress =
      { physicalAddress := BitVec.ofNat 64
          (physicalAddress.toNat % 2 ^ 52 + virtualAddress.toNat % size.toNat)
        size
        flags := bits } := by
  have noFrame : bits &&& (pageAddrMask &&& ~~~(size - 1#64)) = 0#64 := by
    rw [← BitVec.and_assoc, clear, BitVec.zero_and]
  have inFrame : pageAddrMask &&& (pageAddrMask &&& ~~~(size - 1#64)) =
      pageAddrMask &&& ~~~(size - 1#64) := by
    rw [← BitVec.and_assoc, BitVec.and_self]
  rw [leafTranslation, Translation.mk.injEq]
  refine ⟨?_, rfl, ?_⟩
  · rcases twoPow_of_size sizes with ⟨shift, bound, bytes, mask⟩
    have below : virtualAddress.toNat % 2 ^ shift < 2 ^ shift :=
      Nat.mod_lt _ (Nat.two_pow_pos shift)
    have room : 2 ^ shift ≤ 2 ^ 52 := Nat.pow_le_pow_right (by decide) bound
    have multiple : 2 ^ shift ∣ physicalAddress.toNat % 2 ^ 52 := by
      apply (Nat.dvd_mod_iff (Nat.pow_dvd_pow 2 bound)).mpr
      rw [← bytes]
      exact Nat.dvd_of_mod_eq_zero aligned
    apply BitVec.eq_of_toNat_eq
    rw [Bits.or_and_of_added_clear _ noFrame, BitVec.and_assoc, inFrame, BitVec.toNat_or,
      and_frame_toNat sizes aligned, mask, Bits.toNat_and_low virtualAddress (by omega),
      or_eq_add shift below multiple, BitVec.toNat_ofNat, bytes]
    exact (Nat.mod_eq_of_lt (by omega)).symm
  · have outside : physicalAddress &&& pageAddrMask &&&
        ~~~(pageAddrMask &&& ~~~(size - 1#64)) = 0#64 := by
      rw [BitVec.and_assoc]
      apply Bits.and_eq_zero_of_within (and_size_of_aligned sizes aligned)
      rcases sizes with rfl | rfl <;> decide
    rw [Bits.or_and_of_clear outside, Bits.and_not_eq_self noFrame]

end Frames

namespace PageTree

/-- The walk of the processor, with the present entries that are reserved at both ends of it. -/
def translate (reserved : Word64 → Bool) (tree : PageTree) (tables : Word64 → Index → Word64)
    (virtualAddress : Word64) :
    Option Translation :=
  let idx := virtualToPageIndexes virtualAddress
  let behind entry := (entry &&& pageAddrMask) + tree.pageTableOffset
  let l1e := tables tree.root idx.l1
  if Present l1e ∧ reserved l1e = false then
    let l2e := tables (behind l1e) idx.l2
    if Present l2e then
      if tree.format.block l2e then some (leafTranslation gigaPageSize l2e virtualAddress)
      else
        let l3e := tables (behind l2e) idx.l3
        if Present l3e then
          if tree.format.block l3e then some (leafTranslation hugePageSize l3e virtualAddress)
          else
            let l4e := tables (behind l3e) idx.l4
            if Present l4e ∧ reserved l4e = false then
              some (leafTranslation pageSize l4e virtualAddress)
            else none
        else none
    else none
  else none

section Leaves

variable {tree : PageTree} {tables : Word64 → Index → Word64} {path : List Index}
variable {table : Word64} {index : Index}

theorem leaf_of_block (two : path.length = 2) (reached : tree.table tables path = some table)
    (present : Present (tables table index))
    (block : tree.format.block (tables table index) = true) :
    tree.leaf tables (index :: path) = some (tables table index) := by
  rw [leaf_of_table reached, if_pos ⟨present, Or.inr ⟨by rw [two], block⟩⟩]

theorem no_leaf_of_link (shallow : path.length < 3) (reached : tree.table tables path = some table)
    (link : tree.format.block (tables table index) = false) :
    tree.leaf tables (index :: path) = none := by
  rw [leaf_of_table reached, if_neg]
  rintro ⟨_, four | ⟨_, block⟩⟩
  · omega
  · rw [link] at block
    cases block

theorem no_leaf_of_absent (reached : tree.table tables path = some table)
    (absent : ¬Present (tables table index)) : tree.leaf tables (index :: path) = none := by
  rw [leaf_of_table reached, if_neg]
  exact fun isLeaf => absent isLeaf.1

theorem leaf_of_page (three : path.length = 3) (reached : tree.table tables path = some table)
    (present : Present (tables table index)) :
    tree.leaf tables (index :: path) = some (tables table index) := by
  rw [leaf_of_table reached, if_pos ⟨present, Or.inl (by rw [three])⟩]

end Leaves

/-- The processor's walk finds the leaf of the tree. -/
theorem translate_eq (reserved : Word64 → Bool) (tree : PageTree)
    (tables : Word64 → Index → Word64) (virtualAddress : Word64)
    (directory : ∀ entry,
      tree.entry tables [(virtualToPageIndexes virtualAddress).l1] = some entry →
      Present entry → reserved entry = false)
    (noGiant : let idx := virtualToPageIndexes virtualAddress
      ∀ entry, tree.entry tables [idx.l2, idx.l1] = some entry → Present entry →
        tree.format.block entry = false) :
    tree.translate reserved tables virtualAddress =
      match tree.leaf tables (hugePath virtualAddress) with
      | some entry => some (leafTranslation hugePageSize entry virtualAddress)
      | none =>
          ((tree.leaf tables (smallPath virtualAddress)).filter fun entry => !reserved entry).map
            fun entry => leafTranslation pageSize entry virtualAddress := by
  rw [translate]
  simp only [hugePath, smallPath]
  generalize virtualToPageIndexes virtualAddress = idx at directory noGiant ⊢
  have masks : pageAddrMask = ~~~pageFlagsMask := by decide
  have root : tree.table tables [] = some tree.root := rfl
  rw [masks]
  by_cases present1 : Present (tables tree.root idx.l1)
  · have linked := directory _ (entry_of_table root idx.l1) present1
    have table1 := table_below root idx.l1 (by decide) present1 (fun two => by cases two)
    generalize (tables tree.root idx.l1 &&& ~~~pageFlagsMask) + tree.pageTableOffset = pdpt
      at table1 ⊢
    rw [if_pos ⟨present1, linked⟩]
    by_cases present2 : Present (tables pdpt idx.l2)
    · have small := noGiant _ (entry_of_table table1 idx.l2) present2
      have table2 := table_below table1 idx.l2 (by simp) present2 (fun two => by cases two)
      generalize (tables pdpt idx.l2 &&& ~~~pageFlagsMask) + tree.pageTableOffset = pd
        at table2 ⊢
      rw [if_pos present2, if_neg (by rw [small]; exact Bool.false_ne_true)]
      by_cases present3 : Present (tables pd idx.l3)
      · rw [if_pos present3]
        by_cases block3 : tree.format.block (tables pd idx.l3) = true
        · rw [if_pos block3, leaf_of_block rfl table2 present3 block3]
        · have link3 : tree.format.block (tables pd idx.l3) = false := Bool.eq_false_iff.mpr block3
          have table3 := table_below table2 idx.l3 (by simp) present3 (fun _ => link3)
          generalize (tables pd idx.l3 &&& ~~~pageFlagsMask) + tree.pageTableOffset = pt
            at table3 ⊢
          rw [if_neg block3, no_leaf_of_link (by simp) table2 link3]
          by_cases present4 : Present (tables pt idx.l4)
          · rw [leaf_of_page rfl table3 present4, Option.filter_some]
            cases reserved (tables pt idx.l4) with
            | true => simp
            | false => simp [present4]
          · rw [if_neg fun both => present4 both.1, no_leaf_of_absent table3 present4]
            rfl
      · rw [if_neg present3, no_leaf_of_absent table2 present3,
          leaf_of_no_table (no_table_below table2 present3)]
        rfl
    · have closed := no_table_below table1 present2
      rw [if_neg present2, leaf_of_no_table closed,
        leaf_of_no_table (table_of_no_table closed idx.l3)]
      rfl
  · have closed := table_of_no_table (no_table_below root present1) idx.l2
    rw [if_neg fun both => present1 both.1, leaf_of_no_table closed,
      leaf_of_no_table (table_of_no_table closed idx.l3)]
    rfl

end PageTree

end Dvnetos.PageTables
