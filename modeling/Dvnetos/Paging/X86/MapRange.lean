import Dvnetos.Paging.X86.MapFrame

/-!
# What a call of mapMemory maps

A call compares the pages of its range with the tables, one after the other, and
stops where a page of 2 MiB covers one of 4 KiB. The pages in front of that are
mapped when it returns.
-/

namespace Dvnetos.PageTables.X86

variable {paging : Paging} {pool : InitialPool paging.pageTableOffset}
variable {size flags : Word64}

/-- The flags of the entry for a page of this size. -/
def entryFlags (size flags : Word64) : Word64 :=
  if size = hugePageSize then flags ||| pageSizeFlag else flags

/-- Up to this page of the range no page of 2 MiB covers one of 4 KiB. -/
def Uncovered (paging : Paging) (tables : Word64 → Index → Word64) (size start : Word64)
    (number : ℕ) : Prop :=
  ∀ earlier ≤ number, size = hugePageSize ∨
    paging.tree.leaf tables (hugePath (pageAddress size start earlier)) = none

theorem uncovered_succ {tables : Word64 → Index → Word64} {start : Word64} {number : ℕ} :
    Uncovered paging tables size start (number + 1) ↔
      (size = hugePageSize ∨ paging.tree.leaf tables (hugePath start) = none) ∧
        Uncovered paging tables size (start + stepSize size) number := by
  constructor
  · intro uncovered
    constructor
    · simpa [pageAddress_zero] using uncovered 0 (Nat.zero_le _)
    · intro earlier below
      rw [← pageAddress_succ]
      exact uncovered (earlier + 1) (Nat.succ_le_succ below)
  · rintro ⟨first, rest⟩ earlier below
    cases earlier with
    | zero => rwa [pageAddress_zero]
    | succ earlier =>
        rw [pageAddress_succ]
        exact rest earlier (Nat.le_of_succ_le_succ below)

/-- The entry `mapMemory` gives a page of its range. -/
def rangeEntry (size physical flags : Word64) (number : ℕ) : Word64 :=
  newValue (pageAddress size physical number) (entryFlags size flags)

/-- The pages of the range that are compared are mapped as the call wants them. -/
def MappedAs (paging : Paging) (tables : Word64 → Index → Word64) (size flags : Word64)
    (count : ℕ) (physical virtual : Word64) : Prop :=
  ∀ number < count, Uncovered paging tables size virtual number →
    paging.tree.leaf tables (pagePath size (pageAddress size virtual number)) =
      some (rangeEntry size physical flags number)

/-- A call that returns has mapped the pages it compared. -/
theorem mapPages_mapped {count : ℕ} {before after : LoopState}
    (sound : paging.tree.Sound pool before.memory)
    (mapped : mapPages paging pool size flags count before = .ok after) :
    MappedAs paging after.memory.tables size flags count before.physicalAddress
      before.virtualAddress := by
  induction count generalizing before with
  | zero =>
      intro number below
      exact absurd below (Nat.not_lt_zero number)
  | succ count ih =>
      rw [mapPages, Fallible.bind_eq_ok_iff] at mapped
      rcases mapped with ⟨between, first, rest⟩
      rcases mapPage_outcome sound first with ⟨stepped, outcome⟩
      have restMapped := ih stepped.sound rest
      have keepsRest := (mapPages_frame stepped.sound rest).2.1
      intro number below uncovered
      cases outcome with
      | huge isHuge _ inserted physical virtual =>
          cases number with
          | zero =>
              rw [pageAddress_zero, rangeEntry, pageAddress_zero, pagePath, if_pos isHuge,
                entryFlags, if_pos isHuge]
              exact keepsRest _ _ inserted.leaf_self
          | succ number =>
              have later := restMapped number (Nat.lt_of_succ_lt_succ below)
              rw [virtual, physical, ← show stepSize size = hugePageSize from if_pos isHuge]
                at later
              rw [rangeEntry, pageAddress_succ, pageAddress_succ]
              exact later (uncovered_succ.mp uncovered).2
      | covered notHuge cover leaves _ _ =>
          rcases cover with ⟨entry, covering⟩
          rcases uncovered 0 (Nat.zero_le _) with isHuge | vacant
          · exact absurd isHuge notHuge
          · rw [← leaves] at covering
            rw [pageAddress_zero, keepsRest _ entry covering] at vacant
            cases vacant
      | small notHuge _ inserted physical virtual =>
          cases number with
          | zero =>
              rw [pageAddress_zero, rangeEntry, pageAddress_zero, pagePath, if_neg notHuge,
                entryFlags, if_neg notHuge]
              exact keepsRest _ _ inserted.leaf_self
          | succ number =>
              have later := restMapped number (Nat.lt_of_succ_lt_succ below)
              rw [virtual, physical, ← show stepSize size = pageSize from if_neg notHuge]
                at later
              rw [rangeEntry, pageAddress_succ, pageAddress_succ]
              exact later (uncovered_succ.mp uncovered).2

end Dvnetos.PageTables.X86
