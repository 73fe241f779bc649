import Dvnetos.Paging.PageTables
import Mathlib.Tactic.Ring

/-!
# Page numbers

The index bits of an address are the digits, to the base 512, of the number of
its page in the address space of 48 bits. The paths of two pages are the same
where their numbers are.
-/

namespace Dvnetos.PageTables

/-- The number of the page of 4 KiB that has the address, in its half. -/
def pageNumber (virtualAddress : Word64) : ℕ := virtualAddress.toNat / 4096 % 2 ^ 36

/-- The path of the 4 KiB page of an address, the deepest index first. -/
def smallPath (virtualAddress : Word64) : List Index :=
  let idx := virtualToPageIndexes virtualAddress
  [idx.l4, idx.l3, idx.l2, idx.l1]

/-- The path of the 2 MiB page of an address, the deepest index first. -/
def hugePath (virtualAddress : Word64) : List Index :=
  let idx := virtualToPageIndexes virtualAddress
  [idx.l3, idx.l2, idx.l1]

theorem pageIndex_val (virtualAddress : Word64) (shift : ℕ) :
    (pageIndex virtualAddress shift).val = virtualAddress.toNat / 2 ^ shift % 512 :=
  Bits.toNat_ushiftRight_and virtualAddress shift (show 9 ≤ 64 by decide)

theorem pageNumber_lt (virtualAddress : Word64) : pageNumber virtualAddress < 2 ^ 36 :=
  Nat.mod_lt _ (by decide)

theorem indexes_eq_digits (virtualAddress : Word64) :
    let idx := virtualToPageIndexes virtualAddress
    idx.l1.val = pageNumber virtualAddress / 512 / 512 / 512 ∧
      idx.l2.val = pageNumber virtualAddress / 512 / 512 % 512 ∧
      idx.l3.val = pageNumber virtualAddress / 512 % 512 ∧
      idx.l4.val = pageNumber virtualAddress % 512 := by
  simp only [virtualToPageIndexes, pageIndex_val, pageNumber]
  omega

theorem smallPath_eq_iff {first second : Word64} :
    smallPath first = smallPath second ↔ pageNumber first = pageNumber second := by
  have firstDigits := indexes_eq_digits first
  have secondDigits := indexes_eq_digits second
  simp only [smallPath, List.cons.injEq, and_true, Fin.ext_iff]
  omega

theorem hugePath_eq_iff {first second : Word64} :
    hugePath first = hugePath second ↔ pageNumber first / 512 = pageNumber second / 512 := by
  have firstDigits := indexes_eq_digits first
  have secondDigits := indexes_eq_digits second
  simp only [hugePath, List.cons.injEq, and_true, Fin.ext_iff]
  omega

theorem smallPath_eq_cons (virtualAddress : Word64) :
    smallPath virtualAddress =
      (virtualToPageIndexes virtualAddress).l4 :: hugePath virtualAddress := rfl

/-- The paths of both page sizes end in the indexes of the two upper levels. -/
theorem indexes_of_path {path front : List Index} {i j : Index} {virtualAddress : Word64}
    (here : path = hugePath virtualAddress ∨ path = smallPath virtualAddress)
    (ends : path = front ++ [j, i]) :
    j = (virtualToPageIndexes virtualAddress).l2 ∧
      i = (virtualToPageIndexes virtualAddress).l1 := by
  let idx := virtualToPageIndexes virtualAddress
  have last : [idx.l2, idx.l1] = [j, i] := by
    rcases here with rfl | rfl
    · exact List.append_inj_right'
        (show [idx.l3] ++ [idx.l2, idx.l1] = front ++ [j, i] from ends) rfl
    · exact List.append_inj_right'
        (show [idx.l4, idx.l3] ++ [idx.l2, idx.l1] = front ++ [j, i] from ends) rfl
  cases last
  exact ⟨rfl, rfl⟩

theorem hugePath_ne_smallPath (first second : Word64) : hugePath first ≠ smallPath second := by
  intro same
  have := congrArg List.length same
  simp [hugePath, smallPath] at this

/-- The index digits of a path, as a number. -/
def pathDigits : List Index → ℕ
  | [] => 0
  | index :: path => pathDigits path * 512 + index.val

/-- The number of the first 4 KiB page behind a path. -/
def pathNumber (path : List Index) : ℕ := pathDigits path * 512 ^ (4 - path.length)

theorem smallPath_of_number {virtualAddress : Word64} {path : List Index}
    (four : path.length = 4) (same : pathNumber path = pageNumber virtualAddress) :
    smallPath virtualAddress = path := by
  match path, four with
  | [l4, l3, l2, l1], _ =>
      have digits := indexes_eq_digits virtualAddress
      have := l1.isLt
      have := l2.isLt
      have := l3.isLt
      have := l4.isLt
      simp only [pathNumber, pathDigits, List.length_cons, List.length_nil] at same
      simp only [smallPath, List.cons.injEq, and_true, Fin.ext_iff]
      omega

theorem hugePath_of_number {virtualAddress : Word64} {path : List Index}
    (three : path.length = 3) (same : pathNumber path / 512 = pageNumber virtualAddress / 512) :
    hugePath virtualAddress = path := by
  match path, three with
  | [l3, l2, l1], _ =>
      have digits := indexes_eq_digits virtualAddress
      have := l1.isLt
      have := l2.isLt
      have := l3.isLt
      simp only [pathNumber, pathDigits, List.length_cons, List.length_nil] at same
      simp only [hugePath, List.cons.injEq, and_true, Fin.ext_iff]
      omega

theorem pathNumber_smallPath (virtualAddress : Word64) :
    pathNumber (smallPath virtualAddress) = pageNumber virtualAddress := by
  have digits := indexes_eq_digits virtualAddress
  have := pageNumber_lt virtualAddress
  simp only [smallPath, pathNumber, pathDigits, List.length_cons, List.length_nil]
  omega

theorem pathNumber_hugePath (virtualAddress : Word64) :
    pathNumber (hugePath virtualAddress) = pageNumber virtualAddress / 512 * 512 := by
  have digits := indexes_eq_digits virtualAddress
  have := pageNumber_lt virtualAddress
  simp only [hugePath, pathNumber, pathDigits, List.length_cons, List.length_nil]
  omega

theorem indexBits_toNat (index : Index) {shift : ℕ} (bound : shift ≤ 39) :
    (BitVec.ofNat 64 index.val <<< shift).toNat = 2 ^ shift * index.val := by
  have small : index.val < 512 := index.isLt
  have room : 2 ^ shift * index.val < 2 ^ 64 := by
    have := Nat.pow_le_pow_right (n := 2) (by decide) bound
    calc 2 ^ shift * index.val ≤ 2 ^ 39 * index.val := Nat.mul_le_mul_right _ this
      _ < 2 ^ 64 := by omega
  have fits : index.val % 2 ^ 64 = index.val := Nat.mod_eq_of_lt (by omega)
  rw [BitVec.toNat_shiftLeft, BitVec.toNat_ofNat, fits, Nat.shiftLeft_eq, Nat.mul_comm,
    Nat.mod_eq_of_lt room]

theorem or_eq_add (shift : ℕ) {low high : ℕ} (below : low < 2 ^ shift)
    (multiple : 2 ^ shift ∣ high) :
    high ||| low = high + low := by
  rcases multiple with ⟨factor, rfl⟩
  exact (Nat.two_pow_add_eq_or_of_lt below factor).symm

/-- The bits put together from the indexes of a page are its number, shifted. -/
theorem pageIndexBits_toNat {path : List Index} (level : path.length = 3 ∨ path.length = 4) :
    (pageIndexBits path.reverse).toNat = pathNumber path * 4096 := by
  have two : ∀ l1 l2 : Index,
      2 ^ 39 * l1.val ||| 2 ^ 30 * l2.val = 2 ^ 30 * (512 * l1.val + l2.val) := by
    intro l1 l2
    have := l2.isLt
    rw [or_eq_add 39 (by omega) (Nat.dvd_mul_right _ _)]
    ring
  have three : ∀ l1 l2 l3 : Index, 2 ^ 39 * l1.val ||| 2 ^ 30 * l2.val ||| 2 ^ 21 * l3.val =
      2 ^ 21 * (512 * (512 * l1.val + l2.val) + l3.val) := by
    intro l1 l2 l3
    have := l3.isLt
    rw [two, or_eq_add 30 (by omega) (Nat.dvd_mul_right _ _)]
    ring
  rcases level with isThree | isFour
  · match path, isThree with
    | [l3, l2, l1], _ =>
        simp only [List.reverse_cons, List.reverse_nil, List.nil_append, List.cons_append,
          pageIndexBits, BitVec.toNat_or]
        rw [indexBits_toNat l1 (by decide), indexBits_toNat l2 (by decide),
          indexBits_toNat l3 (by decide), three]
        simp only [pathNumber, pathDigits, List.length_cons, List.length_nil]
        ring
  · match path, isFour with
    | [l4, l3, l2, l1], _ =>
        have := l4.isLt
        simp only [List.reverse_cons, List.reverse_nil, List.nil_append, List.cons_append,
          pageIndexBits, BitVec.toNat_or]
        rw [indexBits_toNat l1 (by decide), indexBits_toNat l2 (by decide),
          indexBits_toNat l3 (by decide), indexBits_toNat l4 (by decide), three,
          or_eq_add 21 (by omega) (Nat.dvd_mul_right _ _)]
        simp only [pathNumber, pathDigits, List.length_cons, List.length_nil]
        ring

theorem pathNumber_lt {path : List Index} (level : path.length = 3 ∨ path.length = 4) :
    pathNumber path < 2 ^ 36 := by
  rcases level with isThree | isFour
  · match path, isThree with
    | [l3, l2, l1], _ =>
        have := l1.isLt
        have := l2.isLt
        have := l3.isLt
        simp only [pathNumber, pathDigits, List.length_cons, List.length_nil]
        omega
  · match path, isFour with
    | [l4, l3, l2, l1], _ =>
        have := l1.isLt
        have := l2.isLt
        have := l3.isLt
        have := l4.isLt
        simp only [pathNumber, pathDigits, List.length_cons, List.length_nil]
        omega

/-- The step of the addresses from one page of the range to the next. -/
def stepSize (size : Word64) : Word64 := if size = hugePageSize then hugePageSize else pageSize

/-- The indexes that lead to the entry for the page at an address, the last first. -/
def pagePath (size virtualAddress : Word64) : List Index :=
  if size = hugePageSize then hugePath virtualAddress else smallPath virtualAddress

/-- The address of a page in a range, which starts at `start`. -/
def pageAddress (size start : Word64) (number : ℕ) : Word64 :=
  start + BitVec.ofNat 64 number * stepSize size

theorem stepSize_eq {size : Word64} (sizes : size = pageSize ∨ size = hugePageSize) :
    stepSize size = size := by
  rcases sizes with rfl | rfl
  · exact if_neg (by decide)
  · exact if_pos rfl

/-- If a path of an address is that of a page, the address lies on a page with this path. -/
theorem pagePath_of_path {path : List Index} {size address other : Word64}
    (here : path = hugePath address ∨ path = smallPath address)
    (same : path = pagePath size other) : pagePath size address = pagePath size other := by
  by_cases isHuge : size = hugePageSize
  · simp only [pagePath, if_pos isHuge] at same ⊢
    rcases here with rfl | rfl
    · exact same
    · exact absurd same.symm (hugePath_ne_smallPath _ _)
  · simp only [pagePath, if_neg isHuge] at same ⊢
    rcases here with rfl | rfl
    · exact absurd same (hugePath_ne_smallPath _ _)
    · exact same

theorem size_toNat {size : Word64} (sizes : size = pageSize ∨ size = hugePageSize) :
    size.toNat = 4096 ∨ size.toNat = 2097152 := by
  rcases sizes with rfl | rfl
  · exact Or.inl rfl
  · exact Or.inr rfl

/-- Two addresses lie on one page if its number divides the low 48 bits of both alike. -/
theorem pagePath_eq_iff {size first second : Word64}
    (sizes : size = pageSize ∨ size = hugePageSize) :
    pagePath size first = pagePath size second ↔
      first.toNat % 2 ^ 48 / size.toNat = second.toNat % 2 ^ 48 / size.toNat := by
  rcases sizes with rfl | rfl
  · rw [pagePath, pagePath, if_neg (by decide), if_neg (by decide), smallPath_eq_iff, pageNumber,
      pageNumber, show pageSize.toNat = 4096 from rfl]
    omega
  · rw [pagePath, pagePath, if_pos rfl, if_pos rfl, hugePath_eq_iff, pageNumber, pageNumber,
      show hugePageSize.toNat = 2097152 from rfl]
    omega

theorem pageAddress_zero (size start : Word64) : pageAddress size start 0 = start := by
  simp [pageAddress]

theorem pageAddress_succ (size start : Word64) (number : ℕ) :
    pageAddress size start (number + 1) = pageAddress size (start + stepSize size) number := by
  rw [pageAddress, pageAddress, BitVec.ofNat_add, BitVec.add_mul, BitVec.one_mul]
  ac_rfl

theorem pageAddress_toNat {size start : Word64} (sizes : size = pageSize ∨ size = hugePageSize)
    {number : ℕ} (fits : start.toNat + number * size.toNat < 2 ^ 64) :
    (pageAddress size start number).toNat = start.toNat + number * size.toNat := by
  have small : number < 2 ^ 64 := by
    rcases sizes with rfl | rfl
    · rw [show pageSize.toNat = 4096 from rfl] at fits
      omega
    · rw [show hugePageSize.toNat = 2097152 from rfl] at fits
      omega
  rw [pageAddress, stepSize_eq sizes, BitVec.toNat_add, BitVec.toNat_mul, BitVec.toNat_ofNat,
    Nat.mod_eq_of_lt small, Nat.add_mod_mod, Nat.mod_eq_of_lt fits]

/-- The physical address of a page, below the bits that an entry has no place for. -/
theorem pageAddress_mod {size start : Word64} (sizes : size = pageSize ∨ size = hugePageSize)
    (aligned : start.toNat % size.toNat = 0) (number : ℕ) :
    (pageAddress size start number).toNat % size.toNat = 0 ∧
      (pageAddress size start number).toNat % 2 ^ 52 =
        (start.toNat + number * size.toNat) % 2 ^ 52 := by
  rw [pageAddress, stepSize_eq sizes, BitVec.toNat_add, BitVec.toNat_mul, BitVec.toNat_ofNat]
  rcases sizes with rfl | rfl
  · rw [show pageSize.toNat = 4096 from rfl] at aligned ⊢
    omega
  · rw [show hugePageSize.toNat = 2097152 from rfl] at aligned ⊢
    omega

end Dvnetos.PageTables
