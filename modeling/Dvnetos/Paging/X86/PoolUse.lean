import Dvnetos.Paging.PoolUse
import Dvnetos.Paging.X86.MapFrame

/-!
# The pool on x86_64

Every page that calls of `mapMemory` take from the pool is one table of the tree, and every table
but the root is on the way to a page that is mapped. So the number of used pages follows from the
pages that are mapped, whatever the order of the calls that have mapped them.
-/

namespace Dvnetos.PageTables.X86

open PageTree (Grown NoneLost TablePath)

variable {paging : Paging} {pool : InitialPool paging.pageTableOffset}
variable {memory memory' : TableMemory} {size flags : Word64}

/-- A page is mapped by an entry of the table at this path, or of one behind it. -/
def Leads (paging : Paging) (tables : Word64 → Index → Word64) (path : List Index) : Prop :=
  ∃ index target entry, path <:+ target ∧ paging.tree.leaf tables (index :: target) = some entry

/-- An iteration adds tables only on the way to a page, which is mapped afterwards. -/
theorem mapPage_grown {before after : LoopState} (sound : paging.tree.Sound pool before.memory)
    (mapped : mapPage paging pool size flags before = .ok after) :
    ∃ index target entry, paging.tree.Grown pool before.memory after.memory target ∧
      paging.tree.leaf after.memory.tables (index :: target) = some entry := by
  simp only [mapPage, Fallible.bind_eq_ok_iff, Prod.exists] at mapped
  rcases mapped with ⟨memory1, pdpt, toPdpt, memory2, pd, toPd, mapped⟩
  generalize indexes : virtualToPageIndexes before.virtualAddress = idx at toPdpt toPd mapped
  have rootTable : paging.tree.table before.memory.tables [] = some paging.root := rfl
  rcases sound.nextTable (by decide) rootTable (by intro two; cases two) toPdpt with
    ⟨extended1, pdptTable⟩
  rcases extended1.sound.nextTable (by simp) pdptTable (by intro two; cases two) toPd with
    ⟨extended2, pdTable⟩
  have grown1 := (sound.grown_nextTable (by decide) rootTable toPdpt).mono
    (List.suffix_cons idx.l2 [idx.l1])
  have grown2 := extended1.sound.grown_nextTable (by simp) pdptTable toPd
  have grown := grown1.trans grown2 extended2.keepsTables
  have path : hugePath before.virtualAddress = [idx.l3, idx.l2, idx.l1] := by
    rw [hugePath, indexes]
  by_cases isHuge : size = hugePageSize
  · subst isHuge
    by_cases aligned : before.virtualAddress % hugePageSize = 0#64
    · simp only [if_true, if_neg (not_not.mpr aligned), Fallible.bind_eq_ok_iff] at mapped
      rcases mapped with ⟨memory3, stored, returned⟩
      cases returned
      have isLeaf : IsLeaf format 3 (newValue before.physicalAddress (flags ||| pageSizeFlag)) :=
        ⟨present_newValue _ _, Or.inr ⟨rfl, decide_eq_true (huge_newValue _ _)⟩⟩
      rcases extended2.sound.setEntry (by simp) pdTable isLeaf stored with ⟨stepped, inserted⟩
      have stores := extended2.sound.grown_setEntry (by simp) pdTable isLeaf stored [idx.l2, idx.l1]
      exact ⟨idx.l3, _, _, grown.trans stores stepped.keepsTables, inserted.leaf_self⟩
    · rw [if_pos rfl, if_pos aligned] at mapped
      cases mapped
  · rw [if_neg isHuge] at mapped
    by_cases covered : Present (memory2.tables pd idx.l3) ∧ Huge (memory2.tables pd idx.l3)
    · rw [if_pos covered, Fallible.pure_eq_ok_iff] at mapped
      subst mapped
      refine ⟨idx.l3, _, memory2.tables pd idx.l3, grown, ?_⟩
      rw [PageTree.leaf_eq_some_iff]
      exact ⟨PageTree.entry_of_table pdTable idx.l3, covered.1,
        Or.inr ⟨rfl, decide_eq_true covered.2⟩⟩
    · simp only [if_neg covered, Fallible.bind_eq_ok_iff, Prod.exists] at mapped
      rcases mapped with ⟨memory3, pt, toPt, memory4, stored, returned⟩
      cases returned
      have link : Present (memory2.tables pd idx.l3) →
          format.block (memory2.tables pd idx.l3) = false := by
        intro present
        exact decide_eq_false fun huge => covered ⟨present, huge⟩
      rcases extended2.sound.nextTable (by simp) pdTable (fun _ => link) toPt with
        ⟨extended3, ptTable⟩
      have isLeaf : IsLeaf format 4 (newValue before.physicalAddress flags) :=
        ⟨present_newValue _ _, Or.inl rfl⟩
      rcases extended3.sound.setEntry (by simp) ptTable isLeaf stored with ⟨stepped, inserted⟩
      have links := extended2.sound.grown_nextTable (by simp) pdTable toPt
      have onTheWay := (grown.mono (List.suffix_cons idx.l3 [idx.l2, idx.l1])).trans links
        extended3.keepsTables
      have stores := extended3.sound.grown_setEntry (by simp) ptTable isLeaf stored
        [idx.l3, idx.l2, idx.l1]
      exact ⟨idx.l4, _, _, onTheWay.trans stores stepped.keepsTables, inserted.leaf_self⟩

/-- No page from the root on is lost, and no table but the root is empty for good. -/
structure Spent (paging : Paging) (pool : InitialPool paging.pageTableOffset)
    (memory : TableMemory) (first : Fin initialPoolSize) : Prop where
  sound : paging.tree.Sound pool memory
  isRoot : pool.page first = paging.root
  handed : first.val ≤ memory.initialPoolUsedCount.val
  noneLost : paging.tree.NoneLost pool memory first
  leads : ∀ path, path ≠ [] → paging.tree.TablePath memory.tables path →
    Leads paging memory.tables path

section Spent

variable {first : Fin initialPoolSize}

theorem leads_of_keeps {before after : Word64 → Index → Word64} {path : List Index}
    (keeps : ∀ path entry, paging.tree.leaf before path = some entry →
      ∃ later, paging.tree.leaf after path = some later)
    (leads : Leads paging before path) : Leads paging after path := by
  rcases leads with ⟨index, target, entry, suffix, found⟩
  rcases keeps _ entry found with ⟨later, foundLater⟩
  exact ⟨index, target, later, suffix, foundLater⟩

theorem Spent.mapPage {before after : LoopState} (spent : Spent paging pool before.memory first)
    (mapped : mapPage paging pool size flags before = .ok after) :
    Spent paging pool after.memory first := by
  have stepped := (mapPage_outcome spent.sound mapped).1
  have once : mapPages paging pool size flags 1 before = .ok after := by
    rw [mapPages, mapped]
    rfl
  have keeps := (mapPages_frame spent.sound once).2.1
  rcases mapPage_grown spent.sound mapped with ⟨index, target, entry, grown, found⟩
  refine ⟨stepped.sound, spent.isRoot, spent.handed.trans stepped.used,
    spent.noneLost.grow grown stepped.keepsTables, ?_⟩
  rintro path below ⟨bound, table, reached⟩
  rcases grown.tables path table bound reached with old | onTheWay
  · have leads := spent.leads path below ⟨bound, table, old⟩
    exact leads_of_keeps (fun path entry found => ⟨entry, keeps path entry found⟩) leads
  · exact ⟨index, target, entry, onTheWay, found⟩

theorem Spent.mapPages {count : ℕ} {before after : LoopState}
    (spent : Spent paging pool before.memory first)
    (mapped : X86.mapPages paging pool size flags count before = .ok after) :
    Spent paging pool after.memory first := by
  induction count generalizing before with
  | zero =>
      cases mapped
      exact spent
  | succ count ih =>
      rw [X86.mapPages, Fallible.bind_eq_ok_iff] at mapped
      rcases mapped with ⟨between, first, rest⟩
      exact ih (spent.mapPage first) rest

theorem Spent.access {tables : Word64 → Index → Word64} (spent : Spent paging pool memory first)
    (sets : SetsAccessBits memory.tables tables) :
    Spent paging pool { memory with tables } first := by
  have tablesSame := sets.table_eq paging
  refine ⟨sets.sound spent.sound, spent.isRoot, spent.handed, ?_, ?_⟩
  · intro number lower upper
    rcases spent.noneLost number lower upper with ⟨path, bound, reached⟩
    exact ⟨path, bound, (tablesSame path).trans reached⟩
  · rintro path below ⟨bound, table, reached⟩
    have leads := spent.leads path below ⟨bound, table, (tablesSame path).symm.trans reached⟩
    apply leads_of_keeps _ leads
    intro path entry found
    rcases sets.leaf paging path with ⟨vacant, -⟩ | ⟨_, _, _, _, later⟩
    · rw [found] at vacant
      cases vacant
    · exact ⟨_, later⟩

theorem Reachable.spent (reachable : Reachable paging pool memory) :
    ∃ first, Spent paging pool memory first := by
  induction reachable with
  | root made =>
      rcases newTable_cases made with ⟨room, isRoot, used⟩
      rcases @PageTree.noneLost_newTable paging.tree _ _ _ made with ⟨noneLost, onlyRoot⟩
      refine ⟨_, (PageTree.sound_newTable paging.tree made).1, isRoot.symm, ?_, noneLost, ?_⟩
      · rw [used]
        exact Nat.le_succ _
      · intro path below isTable
        exact absurd (onlyRoot path isTable) below
  | map _ mapped ih =>
      rcases ih with ⟨first, spent⟩
      rcases mapMemory_cases mapped with ⟨-, -, state, pages, rfl⟩
      exact ⟨first, spent.mapPages pages⟩
  | access _ sets ih =>
      rcases ih with ⟨first, spent⟩
      exact ⟨first, spent.access sets⟩

theorem Leads.tablePath {tables : Word64 → Index → Word64} {path : List Index}
    (leads : Leads paging tables path) : paging.tree.TablePath tables path := by
  rcases leads with ⟨index, target, entry, suffix, found⟩
  have shallow : target.length ≤ 3 := by
    by_contra long
    rw [PageTree.leaf_of_long (by rw [List.length_cons]; omega)] at found
    cases found
  rcases PageTree.table_of_entry (PageTree.leaf_eq_some_iff.mp found).1 with ⟨table, reached, -⟩
  exact ⟨suffix.length_le.trans shallow, PageTree.table_of_suffix reached suffix⟩

/--
Each page that the pool has handed out from the root on is one table of the tree. There is a table
exactly where a page is mapped behind it, so the mapped pages alone decide how many pages of the
pool are used.
-/
theorem reachable_spends (reachable : Reachable paging pool memory) :
    ∃ first, pool.page first = paging.root ∧
      (∀ number : Fin initialPoolSize, first.val ≤ number.val →
        number.val < memory.initialPoolUsedCount.val →
          ∃! path, path.length ≤ 3 ∧
            paging.tree.table memory.tables path = some (pool.page number)) ∧
      (∀ path, path ≠ [] → path.length ≤ 3 →
        ((∃ table, paging.tree.table memory.tables path = some table) ↔
          Leads paging memory.tables path)) ∧
      memory.initialPoolUsedCount.val =
        first.val + {path | path = [] ∨ Leads paging memory.tables path}.ncard := by
  rcases reachable.spent with ⟨first, spent⟩
  refine ⟨first, spent.isRoot, ?_, ?_, ?_⟩
  · intro number lower upper
    exact PageTree.existsUnique_path spent.sound spent.noneLost lower upper
  · intro path below bound
    exact ⟨fun isTable => spent.leads path below ⟨bound, isTable⟩, fun leads => leads.tablePath.2⟩
  · rw [PageTree.used_eq_ncard spent.sound spent.noneLost spent.isRoot spent.handed]
    congr 2
    ext path
    constructor
    · intro isTable
      by_cases isRoot : path = []
      · exact Or.inl isRoot
      · exact Or.inr (spent.leads path isRoot isTable)
    · rintro (rfl | leads)
      · exact ⟨Nat.zero_le 3, _, rfl⟩
      · exact leads.tablePath

theorem reachable_spends_onePage :
    ∃ memory first, mapMemory kernelPaging kernelPool emptyTables onePage = .ok memory ∧
      memory.initialPoolUsedCount.val =
        first + {path | path = [] ∨ Leads kernelPaging memory.tables path}.ncard := by
  rcases Fallible.exists_of_isOk (show (mapMemory kernelPaging kernelPool emptyTables
    onePage).isOk = true by decide +kernel) with ⟨memory, mapped⟩
  rcases reachable_spends (.map reachable_emptyTables mapped) with ⟨first, -, -, -, used⟩
  exact ⟨memory, first.val, mapped, used⟩

end Spent

end Dvnetos.PageTables.X86
