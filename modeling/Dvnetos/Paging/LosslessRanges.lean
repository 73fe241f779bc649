import Dvnetos.Paging.Aarch64.LosslessRanges
import Dvnetos.Paging.Aarch64.MapEffect
import Dvnetos.Paging.X86.LosslessRanges
import Dvnetos.Paging.X86.MapRange

/-!
# When the reported ranges are the present leaves

Both architectures share the callbacks of `pageTableToRanges` and lose pages in the same
places: a block that is still open at the end of the walk is not reported, and a block goes
on over a jump of the virtual addresses.
-/

namespace Dvnetos.PageTables

theorem X86.supported_of_sound {paging : X86.Paging} {pool : InitialPool paging.pageTableOffset}
    {memory : TableMemory} (sound : paging.tree.Sound pool memory) :
    Supported X86.walkFormat paging.tree memory.tables := by
  constructor
  · intro i entry found present
    rfl
  · intro i j entry found present
    exact if_neg (X86.sound_noGiant sound j [i] entry rfl found present)

theorem Aarch64.supported_of_sound {paging : Aarch64.Paging}
    {pool : InitialPool paging.pageTableOffset} {memory : TableMemory} {half : Bool}
    (sound : (paging.tree half).Sound pool memory) :
    Supported (Aarch64.walkFormat paging.higherHalfOffset) (paging.tree half) memory.tables := by
  have table : ∀ path entry, path.length ≤ 2 →
      (paging.tree half).entry memory.tables path = some entry → Present entry →
        Aarch64.Table entry := by
    intro path entry bound found present
    have noBlock := sound.directories path entry bound found present
    simpa [Aarch64.Paging.tree, Aarch64.format] using noBlock
  constructor
  · intro i entry found present
    exact if_pos (table [i] entry (by simp) found present)
  · intro i j entry found present
    exact if_pos (table [j, i] entry (by simp) found present)

/-- The reported ranges stand for the present leaves unless one of them is last or crosses a
jump. -/
theorem pageTableToRanges_lossless_iff (x86 : X86.Paging) (aarch64 : Aarch64.Paging)
    (tables : Word64 → Index → Word64) :
    (Supported X86.walkFormat x86.tree tables →
      (Lossless X86.walkFormat tables (· + x86.pageTableOffset) [(false, x86.root)]
          (presentLeaves X86.walkFormat x86.tree tables false) ↔
        ¬X86.EndsInLeaf (presentLeaves X86.walkFormat x86.tree tables false) ∧
          ¬X86.ContinuesOverHole (presentLeaves X86.walkFormat x86.tree tables false))) ∧
      ((∀ half, aarch64.root half ≠ 0#64 →
          Supported (Aarch64.walkFormat aarch64.higherHalfOffset) (aarch64.tree half) tables) →
        (Lossless (Aarch64.walkFormat aarch64.higherHalfOffset) tables
            (· + aarch64.pageTableOffset) aarch64.roots
            (Aarch64.halfLeaves aarch64 tables false ++ Aarch64.halfLeaves aarch64 tables true) ↔
          ¬Aarch64.EndsInLeaf aarch64 tables ∧ ¬Aarch64.ContinuesOverRoots aarch64 tables)) :=
  ⟨fun supported => X86.lossless_iff supported, fun supported => Aarch64.lossless_iff supported⟩

/-- The only leaf of the tree is the page that the call has mapped. -/
theorem X86.eq_of_mem_onePage {memory : TableMemory} {leaf : Leaf}
    (mapped : X86.mapMemory X86.kernelPaging kernelPool X86.emptyTables X86.onePage = .ok memory)
    (member : leaf ∈ presentLeaves X86.walkFormat X86.kernelPaging.tree memory.tables false) :
    leaf.virtualAddress = 0x1000#64 ∧ leaf.size = pageSize := by
  have made : newTable kernelPool ⟨fun _ _ => 0#64, ⟨0, by decide⟩⟩ =
      .ok (X86.emptyTables, X86.kernelPaging.root) := rfl
  have empty := PageTree.sound_newTable X86.kernelPaging.tree made
  rcases mem_presentLeaves_iff.mp member with ⟨path, entry, found, rfl⟩
  rcases X86.mapMemory_cases mapped with ⟨-, -, state, pages, rfl⟩
  have isPage : path = smallPath 0x1000#64 := by
    by_contra other
    have outside :
        ∀ number < 1, path ≠ pagePath pageSize (pageAddress pageSize 0x1000#64 number) := by
      intro number below
      rw [Nat.lt_one_iff.mp below, pageAddress_zero]
      exact other
    rw [(X86.mapPages_frame empty.1 pages).2.2.1 path outside, empty.2 path] at found
    cases found
  subst isPage
  have virtual : X86.walkFormat.pageIndexesToVirtual false (smallPath 0x1000#64).reverse =
      0x1000#64 := by decide
  exact ⟨virtual, rfl⟩

theorem Aarch64.blank_twoTables (table : Word64) (index : Index) :
    ¬Present (Aarch64.twoTables.tables table index) := by
  have zero : Aarch64.twoTables.tables table index = 0#64 := by
    simp [Aarch64.twoTables, TableTree.fill]
  rw [zero]
  decide

/-- The leaves of the higher half are the two pages that the call has mapped. -/
theorem Aarch64.eq_of_mem_twoPages {memory : TableMemory} {leaf : Leaf}
    (mapped : Aarch64.mapTwoPages = .ok memory)
    (member : leaf ∈ Aarch64.halfLeaves Aarch64.twoRoots memory.tables true) :
    (leaf.virtualAddress = Aarch64.twoRoots.higherHalfOffset + 0x1FF000#64 ∨
      leaf.virtualAddress = Aarch64.twoRoots.higherHalfOffset + 0x200000#64) ∧
      leaf.size = pageSize := by
  have rooted : Aarch64.twoRoots.root true ≠ 0#64 := by decide
  rw [Aarch64.halfLeaves, if_neg rooted] at member
  rcases mem_presentLeaves_iff.mp member with ⟨path, entry, found, rfl⟩
  rcases Aarch64.mapMemory_cases mapped with ⟨state, pages, rfl⟩
  have sound := Aarch64.afterCalls_twoTables.bothSound.sound true
  have frame := (Aarch64.mapPages_mapped (by decide) (by decide) (by decide) sound pages).2.2.1
  have inRange : ∃ number < 2,
      path = pagePath pageSize (pageAddress pageSize 0xFFFF0000001FF000#64 number) := by
    by_contra outside
    rw [frame path fun number below same => outside ⟨number, below, same⟩,
      PageTree.leaf_of_blank Aarch64.blank_twoTables] at found
    cases found
  rcases inRange with ⟨number, below, rfl⟩
  have isFirst : number = 0 ∨ number = 1 := by omega
  rcases isFirst with rfl | rfl
  · exact ⟨Or.inl rfl, rfl⟩
  · exact ⟨Or.inr rfl, rfl⟩

theorem pageTableToRanges_lossless_pages :
    (∃ memory,
      X86.mapMemory X86.kernelPaging kernelPool X86.emptyTables X86.onePage = .ok memory ∧
      Lossless X86.walkFormat memory.tables (· + X86.kernelPaging.pageTableOffset)
        [(false, X86.kernelPaging.root)]
        (presentLeaves X86.walkFormat X86.kernelPaging.tree memory.tables false)) ∧
      ∃ memory, Aarch64.mapTwoPages = .ok memory ∧
        Lossless (Aarch64.walkFormat Aarch64.twoRoots.higherHalfOffset) memory.tables
          (· + Aarch64.twoRoots.pageTableOffset) Aarch64.twoRoots.roots
          (Aarch64.halfLeaves Aarch64.twoRoots memory.tables false ++
            Aarch64.halfLeaves Aarch64.twoRoots memory.tables true) := by
  constructor
  · rcases Fallible.exists_of_isOk (show (X86.mapMemory X86.kernelPaging kernelPool
      X86.emptyTables X86.onePage).isOk = true by decide) with ⟨memory, mapped⟩
    refine ⟨memory, mapped, ?_⟩
    have sound := (X86.mapMemory_stepped X86.reachable_emptyTables.sound mapped).sound
    apply ((pageTableToRanges_lossless_iff X86.kernelPaging Aarch64.twoRoots memory.tables).1
      (X86.supported_of_sound sound)).mpr
    constructor
    · rintro ⟨leaf, member, ends⟩
      rw [(X86.eq_of_mem_onePage mapped member).1, (X86.eq_of_mem_onePage mapped member).2] at ends
      exact absurd ends (by decide)
    · rintro ⟨below, _, above, member, _, starts, _⟩
      rw [(X86.eq_of_mem_onePage mapped member).1] at starts
      exact absurd starts (by decide)
  · rcases Fallible.exists_of_isOk (show Aarch64.mapTwoPages.isOk = true by decide +kernel) with
      ⟨memory, mapped⟩
    refine ⟨memory, mapped, ?_⟩
    have both := (Aarch64.AfterCalls.map Aarch64.afterCalls_twoTables
      (fun isHuge => absurd isHuge (by decide)) mapped).bothSound
    apply ((pageTableToRanges_lossless_iff X86.kernelPaging Aarch64.twoRoots memory.tables).2
      fun half _ => Aarch64.supported_of_sound (both.sound half)).mpr
    have rooted : Aarch64.twoRoots.root2 ≠ 0#64 := by decide
    constructor
    · rw [Aarch64.EndsInLeaf, if_neg rooted]
      rintro ⟨leaf, member, ends⟩
      rcases Aarch64.eq_of_mem_twoPages mapped member with ⟨first | second, size⟩
      · rw [first, size] at ends
        exact absurd ends (by decide)
      · rw [second, size] at ends
        exact absurd ends (by decide)
    · rintro ⟨_, below, _, above, member, _, starts, _⟩
      rcases Aarch64.eq_of_mem_twoPages mapped member with ⟨first | second, -⟩
      · rw [first] at starts
        exact absurd starts (by decide)
      · rw [second] at starts
        exact absurd starts (by decide)

/-- The last 2 MiB of the address space. -/
def X86.lastPage : Request :=
  { physicalAddress := 0x200000#64
    virtualAddress := 0xFFFFFFFFFFE00000#64
    size := hugePageSize
    numPages := 1#64
    flags := pageWrite }

/-- The range of the last page is not reported. -/
theorem pageTableToRanges_drops_last_page :
    ∃ memory,
      X86.mapMemory X86.kernelPaging kernelPool X86.emptyTables X86.lastPage = .ok memory ∧
      Supported X86.walkFormat X86.kernelPaging.tree memory.tables ∧
      ¬Lossless X86.walkFormat memory.tables (· + X86.kernelPaging.pageTableOffset)
        [(false, X86.kernelPaging.root)]
        (presentLeaves X86.walkFormat X86.kernelPaging.tree memory.tables false) := by
  rcases Fallible.exists_of_isOk (show (X86.mapMemory X86.kernelPaging kernelPool
    X86.emptyTables X86.lastPage).isOk = true by decide) with ⟨memory, mapped⟩
  have sound := (X86.mapMemory_stepped X86.reachable_emptyTables.sound mapped).sound
  have supported := X86.supported_of_sound sound
  refine ⟨memory, mapped, supported, ?_⟩
  rw [X86.lossless_iff supported]
  rintro ⟨noEnd, -⟩
  apply noEnd
  rcases X86.mapMemory_cases mapped with ⟨-, -, state, pages, rfl⟩
  have isMapped := X86.mapPages_mapped X86.reachable_emptyTables.sound pages 0 (by decide)
    fun _ _ => Or.inl rfl
  rw [pageAddress_zero] at isMapped
  refine ⟨_, mem_presentLeaves_iff.mpr ⟨_, _, isMapped, rfl⟩, ?_⟩
  decide

end Dvnetos.PageTables
