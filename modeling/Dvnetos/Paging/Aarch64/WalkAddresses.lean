import Dvnetos.Paging.Aarch64.Init

/-!
# The addresses of the walk on aarch64

`pageIndexesToVirtual` adds the field that `virtualToPageIndexes` compares with, and `init`
sets this field to the offset of the direct map. The two functions agree with the processor
about `root2` only if the direct map starts where the higher half does.
-/

namespace Dvnetos.PageTables.Aarch64

/-- The first address that the processor resolves through a slot. -/
def slotAddress (half : Bool) (l : List Index) : Word64 :=
  if half then pageIndexBits l ||| higherHalfStart else pageIndexBits l

/-- The upper bits of the address are added by a direct map at the start of the higher half. -/
theorem slotAddress_eq (half : Bool) (l1 l2 l3 l4 : Index) :
    slotAddress half [l1, l2, l3, l4] =
      (walkFormat higherHalfStart).pageIndexesToVirtual half [l1, l2, l3, l4] := by
  have bits := @pageIndexBits_toNat [l4, l3, l2, l1] (.inr rfl)
  have bound := @pathNumber_lt [l4, l3, l2, l1] (.inr rfl)
  rw [show [l4, l3, l2, l1].reverse = [l1, l2, l3, l4] from rfl] at bits
  cases half with
  | false => simp only [slotAddress, walkFormat, Bool.false_eq_true, if_false]
  | true =>
      simp only [slotAddress, walkFormat, if_true]
      apply BitVec.eq_of_toNat_eq
      rw [BitVec.toNat_or, BitVec.toNat_add, bits, Nat.or_comm,
        show higherHalfStart.toNat = 2 ^ 64 - 2 ^ 48 from rfl,
        or_eq_add 48 (by omega) ⟨2 ^ 16 - 1, by norm_num⟩]
      omega

theorem slotAddress_toNat (half : Bool) (l1 l2 l3 l4 : Index) :
    (slotAddress half [l1, l2, l3, l4]).toNat =
      pathNumber [l4, l3, l2, l1] * 4096 + if half then 2 ^ 64 - 2 ^ 48 else 0 := by
  rw [slotAddress_eq]
  exact @pageIndexesToVirtual_toNat [l4, l3, l2, l1] half (.inr rfl)

theorem virtualToPageIndexes_slotAddress (half : Bool) (l1 l2 l3 l4 : Index) :
    virtualToPageIndexes (slotAddress half [l1, l2, l3, l4]) = ⟨l1, l2, l3, l4⟩ := by
  have bound := @pathNumber_lt [l4, l3, l2, l1] (.inr rfl)
  have number : pathNumber [l4, l3, l2, l1] = pageNumber (slotAddress half [l1, l2, l3, l4]) := by
    rw [pageNumber, slotAddress_toNat]
    split_ifs <;> omega
  have path := smallPath_of_number rfl number
  simp only [smallPath, List.cons.injEq, and_true] at path
  rcases path with ⟨isL4, isL3, isL2, isL1⟩
  let idx := virtualToPageIndexes (slotAddress half [l1, l2, l3, l4])
  calc virtualToPageIndexes (slotAddress half [l1, l2, l3, l4])
      = ⟨idx.l1, idx.l2, idx.l3, idx.l4⟩ := rfl
    _ = ⟨l1, l2, l3, l4⟩ := by simp only [idx, isL1, isL2, isL3, isL4]

/-- The processor goes through the slot in the tables of the half. -/
theorem translate_slotAddress (paging : Paging) (tables : Word64 → Index → Word64) (half : Bool)
    (l1 l2 l3 l4 : Index) :
    translate paging tables (slotAddress half [l1, l2, l3, l4]) =
        (paging.tree half).translate reserved tables (slotAddress half [l1, l2, l3, l4]) ∧
      smallPath (slotAddress half [l1, l2, l3, l4]) = [l4, l3, l2, l1] := by
  have value := slotAddress_toNat half l1 l2 l3 l4
  have bound := @pathNumber_lt [l4, l3, l2, l1] (.inr rfl)
  constructor
  · cases half with
    | false =>
        rw [if_neg Bool.false_ne_true] at value
        rw [translate, if_pos (by omega)]
    | true =>
        rw [if_pos rfl] at value
        exact translate_of_high (by omega) paging tables
  · rw [smallPath, virtualToPageIndexes_slotAddress]

/-- The address that `pageIndexesToVirtual` of the object gives a slot. -/
def Paging.walkAddress (paging : Paging) (half : Bool) (l : List Index) : Word64 :=
  (walkFormat paging.higherHalfOffset).pageIndexesToVirtual half l

/-- The slot has the address of the processor, and the address leads back to the slot. -/
structure Paging.Agrees (paging : Paging) (half : Bool) (l1 l2 l3 l4 : Index) : Prop where
  address : paging.walkAddress half [l1, l2, l3, l4] = slotAddress half [l1, l2, l3, l4]
  root : paging.higherHalf (paging.walkAddress half [l1, l2, l3, l4]) = half
  indexes : virtualToPageIndexes (paging.walkAddress half [l1, l2, l3, l4]) = ⟨l1, l2, l3, l4⟩

theorem walkAddress_eq_iff (paging : Paging) (half : Bool) (l1 l2 l3 l4 : Index) :
    paging.walkAddress half [l1, l2, l3, l4] = slotAddress half [l1, l2, l3, l4] ↔
      half = false ∨ paging.higherHalfOffset = higherHalfStart := by
  rw [slotAddress_eq, Paging.walkAddress]
  cases half with
  | false => simp [walkFormat]
  | true =>
      simp only [walkFormat, if_true, Bool.true_eq_false, false_or]
      exact BitVec.add_right_inj ..

/-- When the temporary object of `init` agrees with the processor about a slot. -/
theorem bootPaging_agrees_iff (ttbr0 ttbr1 : Word64) {hhdmVirtualOffset : Word64}
    (high : higherHalfStart ≤ hhdmVirtualOffset) (half : Bool) (l1 l2 l3 l4 : Index) :
    (bootPaging ttbr0 ttbr1 hhdmVirtualOffset).Agrees half l1 l2 l3 l4 ↔
      half = false ∨ hhdmVirtualOffset = higherHalfStart := by
  have start : 2 ^ 64 - 2 ^ 48 ≤ hhdmVirtualOffset.toNat := high
  have same := walkAddress_eq_iff (bootPaging ttbr0 ttbr1 hhdmVirtualOffset) half l1 l2 l3 l4
  constructor
  · intro agrees
    exact same.mp agrees.address
  · intro agree
    have address := same.mpr agree
    refine ⟨address, ?_, ?_⟩
    · have value := slotAddress_toNat half l1 l2 l3 l4
      have bound := @pathNumber_lt [l4, l3, l2, l1] (.inr rfl)
      rw [address]
      change decide (hhdmVirtualOffset.toNat ≤ (slotAddress half [l1, l2, l3, l4]).toNat) = half
      rcases agree with rfl | rfl
      · rw [if_neg Bool.false_ne_true] at value
        exact decide_eq_false (by omega)
      · rw [show higherHalfStart.toNat = 2 ^ 64 - 2 ^ 48 from rfl]
        cases half with
        | false =>
            rw [if_neg Bool.false_ne_true] at value
            exact decide_eq_false (by omega)
        | true =>
            rw [if_pos rfl] at value
            exact decide_eq_true (by omega)
    · rw [address]
      exact virtualToPageIndexes_slotAddress half l1 l2 l3 l4

/-- The last slot of `root2`, with a direct map at the start of the higher half. -/
theorem bootPaging_agrees_iff_last :
    (bootPaging 0x1000#64 0x2000#64 higherHalfStart).Agrees true (index 511) (index 511) (index 511)
      (index 511) :=
  (bootPaging_agrees_iff 0x1000#64 0x2000#64 (BitVec.le_refl _) true _ _ _ _).mpr (.inr rfl)

/-- With a direct map further up, the first address of a slot of `root2` wraps to zero. -/
theorem bootPaging_wraps :
    0xFFFF800000000000#64 % pageSize = 0#64 ∧ higherHalfStart ≤ 0xFFFF800000000000#64 ∧
      (bootPaging 0x1000#64 0x2000#64 0xFFFF800000000000#64).walkAddress true
        [index 256, index 0, index 0, index 0] = 0#64 ∧
      ¬(bootPaging 0x1000#64 0x2000#64 0xFFFF800000000000#64).Agrees true (index 256) (index 0)
        (index 0) (index 0) := by
  refine ⟨by decide, by decide, by decide, ?_⟩
  rintro ⟨address, -, -⟩
  revert address
  decide

end Dvnetos.PageTables.Aarch64
