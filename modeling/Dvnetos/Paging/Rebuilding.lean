import Dvnetos.Paging.ReportedRanges

/-!
# Rebuilding tables from their ranges

`Paging::init` maps the ranges of the boot loader's tables that its callback selects
into a new tree. The facts here hold for both architectures: which pages a range has,
and how the new tree grows by the pages of one range after the other.
-/

namespace Dvnetos.PageTables

/-- The address is in the range, whose end belongs to it. -/
def PageTableRangeData.Covers (range : PageTableRangeData) (address : Word64) : Prop :=
  range.virtualStart.toNat ≤ address.toNat ∧ address.toNat ≤ range.virtualEnd.toNat

instance (range : PageTableRangeData) (address : Word64) : Decidable (range.Covers address) :=
  inferInstanceAs (Decidable (_ ∧ _))

/-- The addresses of the walk have the page numbers of its paths. -/
def WalkFormat.Numbered (walk : WalkFormat) (half : Bool) : Prop :=
  ∀ path, path.length = 3 ∨ path.length = 4 →
    pageNumber (walk.pageIndexesToVirtual half path.reverse) = pathNumber path

theorem extentOf_pos (size : Word64) : 0 < extentOf size := by
  rw [extentOf]
  split_ifs <;> decide

section Pages

variable (walk : WalkFormat) (trees : Bool → PageTree) (tables : Word64 → Index → Word64)

/-- The range starts at this page of one half of the tables and stays in that half. -/
structure HalfRange (half : Bool) (range : PageTableRangeData) (start : ℕ) : Prop where
  describes : Describes walk trees tables range (halfStart half + start)
  stop : rangeStop range start ≤ 2 ^ 36

/-- A page of a range in the tables it was found in. -/
structure RangePage (tree : PageTree) (range : PageTableRangeData) (number : ℕ)
    (physicalAddress : Word64) (path : List Index) (entry : Word64) : Prop where
  genuine : Genuine walk tree tables path entry
  number_eq : pathNumber path = number
  kind : path.length = 3 ∧ range.pageSize = hugePageSize ∧
      physicalAddress = walk.blockAddress entry ∧
      range.flags = walk.rangeFlags (walk.blockFlags entry) ∨
    path.length = 4 ∧ range.pageSize = pageSize ∧ physicalAddress = entry &&& ~~~pageFlagsMask ∧
      range.flags = walk.rangeFlags (walk.pageFlags entry)

/-- The paths of the pages of a range. -/
def rangePaths (range : PageTableRangeData) (path : List Index) : Prop :=
  ∃ number < range.pageCount.toNat,
    path = pagePath range.pageSize (pageAddress range.pageSize range.virtualStart number)

variable {walk trees tables}
variable {half : Bool} {range : PageTableRangeData} {start number : ℕ} {address : Word64}

theorem HalfRange.page (halfRange : HalfRange walk trees tables half range start)
    (below : number < range.pageCount.toNat) :
    ∃ path entry, RangePage walk tables (trees half) range
        (start + number * extentOf range.pageSize)
        (range.physicalStart + BitVec.ofNat 64 number * range.pageSize) path entry ∧
      (number = 0 → range.virtualStart = walk.pageIndexesToVirtual half path.reverse) ∧
      (number + 1 = range.pageCount.toNat →
        range.virtualEnd =
          walk.pageIndexesToVirtual half path.reverse + range.pageSize - 1#64) := by
  rcases halfRange.describes.pages number below with
    ⟨virtualAddress, ⟨higherHalf, path, entry, genuine, numberEq, virtualEq, kind⟩, first, last⟩
  have inside : number * extentOf range.pageSize <
      range.pageCount.toNat * extentOf range.pageSize :=
    Nat.mul_lt_mul_of_pos_right below (extentOf_pos range.pageSize)
  have stop := halfRange.stop
  have bound := pathNumber_lt genuine.length
  rw [rangeStop] at stop
  have sameHalf : higherHalf = half := by
    cases higherHalf <;> cases half <;> simp only [halfStart, if_true, Bool.false_eq_true,
      if_false] at numberEq <;> first | rfl | omega
  subst sameHalf
  have numberHere : pathNumber path = start + number * extentOf range.pageSize := by omega
  exact ⟨path, entry, ⟨genuine, numberHere, kind⟩, fun zero => (first zero).trans virtualEq,
    fun isLast => by rw [last isLast, virtualEq]⟩

theorem HalfRange.positive (halfRange : HalfRange walk trees tables half range start) :
    0 < range.pageCount.toNat :=
  halfRange.describes.positive

theorem pageNumber_pageAddress {size : Word64} (sizes : size = pageSize ∨ size = hugePageSize)
    (address : Word64) (number : ℕ) :
    pageNumber (pageAddress size address number) =
      (pageNumber address + number * extentOf size) % 2 ^ 36 := by
  rcases sizes with rfl | rfl
  · rw [pageAddress, stepSize, if_neg (by decide), extentOf_small, pageNumber, pageNumber,
      BitVec.toNat_add, BitVec.toNat_mul, BitVec.toNat_ofNat, show pageSize.toNat = 4096 from rfl]
    omega
  · rw [pageAddress, stepSize, if_pos rfl, extentOf_huge, pageNumber, pageNumber,
      BitVec.toNat_add, BitVec.toNat_mul, BitVec.toNat_ofNat,
      show hugePageSize.toNat = 2097152 from rfl]
    omega

section Page

variable {tree : PageTree} {physicalAddress entry : Word64} {path : List Index}

theorem RangePage.sizes
    (page : RangePage walk tables tree range number physicalAddress path entry) :
    range.pageSize = pageSize ∨ range.pageSize = hugePageSize := by
  rcases page.kind with ⟨_, size, _⟩ | ⟨_, size, _⟩
  · exact Or.inr size
  · exact Or.inl size

/-- The index that a page size leads to is found by the number of the page. -/
theorem RangePage.pagePath_eq
    (page : RangePage walk tables tree range number physicalAddress path entry)
    (from_ : number ≤ pageNumber address)
    (below : pageNumber address < number + extentOf range.pageSize) :
    pagePath range.pageSize address = path := by
  rcases page.kind with ⟨three, size, _⟩ | ⟨four, size, _⟩
  · rw [size, extentOf_huge] at below
    rw [pagePath, if_pos size]
    apply hugePath_of_number three
    have multiple : pathNumber path % 512 = 0 := by
      rw [pathNumber, three]
      omega
    rw [page.number_eq] at multiple ⊢
    omega
  · rw [size, extentOf_small] at below
    rw [pagePath, size, if_neg (by decide)]
    apply smallPath_of_number four
    rw [page.number_eq]
    omega

theorem RangePage.pageNumber_bounds
    (page : RangePage walk tables tree range number physicalAddress path entry)
    (here : path = hugePath address ∨ path = smallPath address) :
    number ≤ pageNumber address ∧ pageNumber address < number + extentOf range.pageSize := by
  have numberHere := page.number_eq
  rcases here with rfl | rfl
  · rcases page.kind with ⟨_, size, _⟩ | ⟨four, _⟩
    · rw [pathNumber_hugePath] at numberHere
      rw [size, extentOf_huge]
      omega
    · simp [hugePath] at four
  · rcases page.kind with ⟨three, _⟩ | ⟨_, size, _⟩
    · simp [smallPath] at three
    · rw [pathNumber_smallPath] at numberHere
      rw [size, extentOf_small]
      omega

end Page

theorem HalfRange.pagePath_eq (halfRange : HalfRange walk trees tables half range start)
    (numbered : walk.Numbered half) {physicalAddress entry : Word64} {path : List Index}
    (page : RangePage walk tables (trees half) range (start + number * extentOf range.pageSize)
      physicalAddress path entry) :
    pagePath range.pageSize (pageAddress range.pageSize range.virtualStart number) = path := by
  rcases halfRange.page halfRange.positive with ⟨first, _, firstPage, virtualStart, -⟩
  have startNumber : pageNumber range.virtualStart = start := by
    rw [virtualStart rfl, numbered first firstPage.genuine.length, firstPage.number_eq,
      Nat.zero_mul, Nat.add_zero]
  have bound := pathNumber_lt page.genuine.length
  rw [page.number_eq] at bound
  have here : pageNumber (pageAddress range.pageSize range.virtualStart number) =
      start + number * extentOf range.pageSize := by
    rw [pageNumber_pageAddress page.sizes, startNumber, Nat.mod_eq_of_lt bound]
  have positive := extentOf_pos range.pageSize
  apply page.pagePath_eq
  · exact Nat.le_of_eq here.symm
  · omega

/-- The page behind the number of an address is one of the pages of the range. -/
theorem HalfRange.rangePaths_pagePath (halfRange : HalfRange walk trees tables half range start)
    (numbered : walk.Numbered half) (from_ : start ≤ pageNumber address)
    (below : pageNumber address < rangeStop range start) :
    rangePaths range (pagePath range.pageSize address) := by
  have positive := extentOf_pos range.pageSize
  rw [rangeStop] at below
  have inside : (pageNumber address - start) / extentOf range.pageSize < range.pageCount.toNat := by
    rw [Nat.div_lt_iff_lt_mul positive]
    omega
  refine ⟨_, inside, ?_⟩
  rcases halfRange.page inside with ⟨path, entry, page, -⟩
  rw [halfRange.pagePath_eq numbered page]
  have quotient := Nat.div_add_mod' (pageNumber address - start) (extentOf range.pageSize)
  have remainder := Nat.mod_lt (pageNumber address - start) positive
  apply page.pagePath_eq
  · omega
  · omega

theorem HalfRange.pageNumber_bounds (halfRange : HalfRange walk trees tables half range start)
    (numbered : walk.Numbered half) {path : List Index} (inRange : rangePaths range path)
    (here : path = hugePath address ∨ path = smallPath address) :
    start ≤ pageNumber address ∧ pageNumber address < rangeStop range start := by
  rcases inRange with ⟨number, below, rfl⟩
  rcases halfRange.page below with ⟨path, entry, page, -⟩
  rw [halfRange.pagePath_eq numbered page] at here
  have bounds := page.pageNumber_bounds here
  have inside : number * extentOf range.pageSize + extentOf range.pageSize ≤
      range.pageCount.toNat * extentOf range.pageSize := by
    rw [← Nat.succ_mul]
    exact Nat.mul_le_mul_right _ below
  rw [rangeStop]
  omega

end Pages

/-- The tree maps the pages behind some paths, with what it makes of the boot loader's entries. -/
def Rebuilt (tree boot : PageTree) (bootTables : Word64 → Index → Word64)
    (rebuiltEntry : ℕ → Word64 → Word64) (done : List Index → Prop)
    (tables : Word64 → Index → Word64) : Prop :=
  ∀ path entry, tree.leaf tables path = some entry ↔
    done path ∧ ∃ original, boot.leaf bootTables path = some original ∧
      entry = rebuiltEntry path.length original

section Rebuilt

variable {tree boot : PageTree} {bootTables : Word64 → Index → Word64}
variable {rebuiltEntry : ℕ → Word64 → Word64} {done added : List Index → Prop}

/-- Pages that are mapped as the boot loader's and change no others go on with a rebuilt tree. -/
theorem Rebuilt.extend {before after : Word64 → Index → Word64}
    (rebuilt : Rebuilt tree boot bootTables rebuiltEntry done before)
    (keeps : ∀ path entry, tree.leaf before path = some entry → tree.leaf after path = some entry)
    (frame : ∀ path, ¬added path → tree.leaf after path = tree.leaf before path)
    (mapped : ∀ path, added path → ∃ original, boot.leaf bootTables path = some original ∧
      tree.leaf after path = some (rebuiltEntry path.length original)) :
    Rebuilt tree boot bootTables rebuiltEntry (fun path => done path ∨ added path) after := by
  intro path entry
  constructor
  · intro found
    by_cases isAdded : added path
    · rcases mapped path isAdded with ⟨original, bootLeaf, here⟩
      rw [here] at found
      exact ⟨Or.inr isAdded, original, bootLeaf, (Option.some.inj found).symm⟩
    · rw [frame path isAdded] at found
      rcases (rebuilt path entry).mp found with ⟨isDone, fromBoot⟩
      exact ⟨Or.inl isDone, fromBoot⟩
  · rintro ⟨isDone | isAdded, original, bootLeaf, rfl⟩
    · exact keeps _ _ ((rebuilt path _).mpr ⟨isDone, original, bootLeaf, rfl⟩)
    · rcases mapped path isAdded with ⟨other, otherLeaf, here⟩
      rw [bootLeaf] at otherLeaf
      rw [Option.some.inj otherLeaf]
      exact here

end Rebuilt

/-- What the calls in the callback of `init` keep holds after all ranges. -/
theorem mapRanges_induction {motive : (List Index → Prop) → TableMemory → Prop}
    {mapRange : PageTableRangeData → TableMemory → Except Panic TableMemory}
    {mappings : List MemmapEntry} {ranges : List PageTableRangeData}
    {memory memory' : TableMemory} (done : List Index → Prop)
    (mapped : ranges.foldlM (fun memory range => initCallback mapRange mappings range memory)
      memory = .ok memory')
    (initial : motive done memory)
    (step : ∀ range ∈ ranges, isMapped mappings range = true → ∀ done before after,
      motive done before → mapRange range before = .ok after →
      motive (fun path => done path ∨ rangePaths range path) after) :
    motive (fun path => done path ∨ ∃ range ∈ ranges, isMapped mappings range = true ∧
      rangePaths range path) memory' := by
  induction ranges generalizing memory done with
  | nil =>
      cases mapped
      simpa using initial
  | cons range rest ih =>
      rw [List.foldlM_cons, Fallible.bind_eq_ok_iff] at mapped
      rcases mapped with ⟨between, first, mapped⟩
      have stepRest := fun other otherMem => step other (List.mem_cons_of_mem range otherMem)
      rw [initCallback] at first
      split_ifs at first with isMapped
      · have next := step range (List.mem_cons_self ..) isMapped done memory between initial first
        have last := ih _ mapped next stepRest
        simpa only [List.mem_cons, exists_eq_or_imp, isMapped, true_and, or_assoc] using last
      · cases first
        have last := ih _ mapped initial stepRest
        simpa only [List.mem_cons, exists_eq_or_imp, isMapped, Bool.false_eq_true, false_and,
          false_or] using last

end Dvnetos.PageTables
