import Dvnetos.Paging.TreeFrames
import Mathlib.Data.Set.Card

/-!
# What the pages of the pool are used for

A step of `mapMemory` takes a page from the pool only to link it as a table, on the way to one
entry. So no page is taken in vain, and none is used twice.
-/

namespace Dvnetos.PageTables

open TableTree

namespace PageTree

/--
The tables that the step has added are on the way to an entry of the table at `target`, and each
page that it has taken from the pool is one of them.
-/
structure Grown (tree : PageTree) (pool : InitialPool tree.pageTableOffset)
    (before after : TableMemory) (target : List Index) : Prop where
  tables : ∀ path table, path.length ≤ 3 → tree.table after.tables path = some table →
    tree.table before.tables path = some table ∨ path <:+ target
  pages : ∀ number : Fin initialPoolSize,
    before.initialPoolUsedCount.val ≤ number.val → number.val < after.initialPoolUsedCount.val →
      tree.Reaches after.tables (pool.page number)

section Grown

variable {tree : PageTree} {pool : InitialPool tree.pageTableOffset}
variable {memory memory' between after : TableMemory} {table next : Word64} {index : Index}
variable {path target wider : List Index}

theorem Grown.of_same (tables : ∀ path : List Index, path.length ≤ 3 →
      tree.table memory'.tables path = tree.table memory.tables path)
    (used : memory'.initialPoolUsedCount = memory.initialPoolUsedCount) (target : List Index) :
    tree.Grown pool memory memory' target := by
  constructor
  · intro path table bound reached
    exact Or.inl ((tables path bound).symm.trans reached)
  · intro number lower upper
    rw [used] at upper
    omega

theorem Grown.mono (grown : tree.Grown pool memory after target) (suffix : target <:+ wider) :
    tree.Grown pool memory after wider :=
  ⟨fun path table bound reached => (grown.tables path table bound reached).imp_right
    fun onTheWay => onTheWay.trans suffix, grown.pages⟩

theorem Grown.trans (front : tree.Grown pool memory between target)
    (back : tree.Grown pool between after target)
    (keeps : tree.KeepsTables between.tables after.tables) :
    tree.Grown pool memory after target := by
  constructor
  · intro path table bound reached
    rcases back.tables path table bound reached with old | new
    · exact front.tables path table bound old
    · exact Or.inr new
  · intro number lower upper
    by_cases early : number.val < between.initialPoolUsedCount.val
    · exact keeps.reaches (front.pages number lower early)
    · exact back.pages number (not_lt.mp early) upper

theorem Sound.grown_link (sound : tree.Sound pool memory) (bound : path.length < 3)
    (reached : tree.table memory.tables path = some table)
    (vacant : ¬Present (memory.tables table index))
    (linked : linkNewTable tree.format pool memory table index = .ok memory') :
    tree.Grown pool memory memory' (index :: path) := by
  have behind : ∀ {other : List Index}, other.length ≤ 3 → tree.table memory'.tables other =
      if other = index :: path then some (pool.page memory.initialPoolUsedCount)
      else tree.table memory.tables other :=
    sound.table_link bound reached vacant linked
  have deeper : (index :: path).length ≤ 3 := bound
  constructor
  · intro other found otherBound reachedOther
    rw [behind otherBound] at reachedOther
    split_ifs at reachedOther with isNew
    · exact Or.inr (isNew ▸ List.suffix_refl _)
    · exact Or.inl reachedOther
  · intro number lower upper
    rcases linkNewTable_cases linked with ⟨room, used⟩
    have count : memory'.initialPoolUsedCount.val = memory.initialPoolUsedCount.val + 1 := by
      rw [used]
    have isNew : number = memory.initialPoolUsedCount := Fin.ext (by omega)
    rw [isNew]
    exact ⟨index :: path, deeper, (behind deeper).trans (if_pos rfl)⟩

theorem Sound.grown_nextTable (sound : tree.Sound pool memory) (bound : path.length < 3)
    (reached : tree.table memory.tables path = some table)
    (stepped : PageTables.nextTable tree.format pool memory table index = .ok (memory', next)) :
    tree.Grown pool memory memory' (index :: path) := by
  rcases nextTable_cases stepped with ⟨present, rfl, -⟩ | ⟨vacant, linked, -⟩
  · exact Grown.of_same (fun _ _ => rfl) rfl _
  · exact sound.grown_link bound reached vacant linked

theorem Sound.grown_setEntry {newValue : Word64} (sound : tree.Sound pool memory)
    (bound : path.length ≤ 3) (reached : tree.table memory.tables path = some table)
    (isLeaf : IsLeaf tree.format (path.length + 1) newValue)
    (stored : PageTables.setEntry memory table index newValue = .ok memory')
    (target : List Index) : tree.Grown pool memory memory' target := by
  rcases setEntry_cases stored with ⟨old, rfl⟩
  have tables : ∀ other : List Index, other.length ≤ 3 →
      tree.table (store memory.tables table index newValue) other =
        tree.table memory.tables other :=
    fun _ => sound.separated.tableAt_store bound reached (child_of_setEntry isLeaf old)
  exact @Grown.of_same tree pool memory
    { memory with tables := store memory.tables table index newValue } tables rfl target

end Grown

/-- The paths of the tables of the tree. -/
def TablePath (tree : PageTree) (tables : Word64 → Index → Word64) (path : List Index) : Prop :=
  path.length ≤ 3 ∧ ∃ table, tree.table tables path = some table

/-- Of the pages of the pool from `first` on, those that have been handed out are tables. -/
def NoneLost (tree : PageTree) (pool : InitialPool tree.pageTableOffset) (memory : TableMemory)
    (first : Fin initialPoolSize) : Prop :=
  ∀ number : Fin initialPoolSize, first.val ≤ number.val →
    number.val < memory.initialPoolUsedCount.val → tree.Reaches memory.tables (pool.page number)

section Pages

variable {tree : PageTree} {pool : InitialPool tree.pageTableOffset} {memory after : TableMemory}
variable {first : Fin initialPoolSize} {target : List Index}

theorem NoneLost.grow (noneLost : tree.NoneLost pool memory first)
    (grown : tree.Grown pool memory after target)
    (keeps : tree.KeepsTables memory.tables after.tables) : tree.NoneLost pool after first := by
  intro number lower upper
  by_cases early : number.val < memory.initialPoolUsedCount.val
  · exact keeps.reaches (noneLost number lower early)
  · exact grown.pages number (not_lt.mp early) upper

/-- The tables in front of a table are there as well. -/
theorem table_of_suffix {tables : Word64 → Index → Word64} {path other : List Index}
    {table : Word64} (reached : tree.table tables path = some table) (suffix : other <:+ path) :
    ∃ above, tree.table tables other = some above := by
  rcases suffix with ⟨front, rfl⟩
  induction front generalizing table with
  | nil => exact ⟨table, reached⟩
  | cons index front ih =>
      cases here : tree.table tables (front ++ other) with
      | none =>
          rw [List.cons_append, table_of_no_table here] at reached
          cases reached
      | some between => exact ih here

/-- Behind a root without entries there are no tables. -/
theorem table_of_blank {tables : Word64 → Index → Word64}
    (blank : ∀ index, tables tree.root index = 0#64) {path : List Index} {table : Word64}
    (reached : tree.table tables path = some table) : path = [] ∧ table = tree.root := by
  induction path generalizing table with
  | nil => exact ⟨rfl, (Option.some.inj reached).symm⟩
  | cons index path ih =>
      rw [table_cons, Option.bind_eq_some_iff] at reached
      rcases reached with ⟨entry, found, leads⟩
      rcases table_of_entry found with ⟨above, reachedAbove, rfl⟩
      rw [(ih reachedAbove).2, blank, child_blank] at leads
      cases leads

/-- The root is the only page that has been handed out from itself on. -/
theorem noneLost_newTable (made : PageTables.newTable pool memory = .ok (after, tree.root)) :
    tree.NoneLost pool after memory.initialPoolUsedCount ∧
      ∀ path, tree.TablePath after.tables path → path = [] := by
  rcases newTable_cases made with ⟨room, isRoot, rfl⟩
  constructor
  · intro number lower upper
    have same : number = memory.initialPoolUsedCount := Fin.ext (by simp only at upper; omega)
    rw [same, ← isRoot]
    exact ⟨[], Nat.zero_le 3, rfl⟩
  · rintro path ⟨bound, table, reached⟩
    exact (table_of_blank (by simp [fill]) reached).1

/-- Every table of the tree is a page from the root on, and each of these is one table. -/
theorem existsUnique_path (sound : tree.Sound pool memory)
    (noneLost : tree.NoneLost pool memory first) {number : Fin initialPoolSize}
    (lower : first.val ≤ number.val) (upper : number.val < memory.initialPoolUsedCount.val) :
    ∃! path, path.length ≤ 3 ∧ tree.table memory.tables path = some (pool.page number) := by
  rcases noneLost number lower upper with ⟨path, bound, reached⟩
  refine ⟨path, ⟨bound, reached⟩, ?_⟩
  rintro other ⟨otherBound, otherReached⟩
  exact sound.separated.apart other path _ otherBound bound otherReached reached

end Pages

end PageTree

/--
If each page between two numbers is at one place, and no other page is at any, there are as many
places as pages.
-/
theorem InitialPool.eq_add_ncard {Place : Type} {offset : Word64} (pool : InitialPool offset)
    {first : ℕ} {used : Fin initialPoolSize} (handed : first ≤ used.val)
    (At : Place → Word64 → Prop) (apart : ∀ place other page, At place page → At other page →
      place = other)
    (single : ∀ place page other, At place page → At place other → page = other)
    (owned : ∀ place page, At place page → ∃ number : Fin initialPoolSize, first ≤ number.val ∧
      number.val < used.val ∧ pool.page number = page)
    (noneLost : ∀ number : Fin initialPoolSize, first ≤ number.val → number.val < used.val →
      ∃ place, At place (pool.page number)) :
    used.val = first + {place | ∃ page, At place page}.ncard := by
  let count := used.val - first
  have upper (i : ℕ) (below : i < count) : first + i < used.val := by omega
  have inPool (i : ℕ) (below : i < count) : first + i < initialPoolSize :=
    (upper i below).trans used.isLt
  choose placeOf isAt using noneLost
  have atPlace (i : ℕ) (below : i < count) :
      At (placeOf ⟨first + i, inPool i below⟩ (Nat.le_add_right _ _) (upper i below))
        (pool.page ⟨first + i, inPool i below⟩) :=
    isAt ⟨first + i, inPool i below⟩ (Nat.le_add_right _ _) (upper i below)
  have counted : {place | ∃ page, At place page}.ncard = count := by
    apply Set.ncard_eq_of_bijective fun i below =>
      placeOf ⟨first + i, inPool i below⟩ (Nat.le_add_right _ _) (upper i below)
    · rintro place ⟨page, here⟩
      rcases owned place page here with ⟨number, lower, below, rfl⟩
      refine ⟨number.val - first, by omega, ?_⟩
      have same : (⟨first + (number.val - first), inPool _ (by omega)⟩ : Fin initialPoolSize) =
          number := Fin.ext (by simp only; omega)
      have there : At place (pool.page ⟨first + (number.val - first), inPool _ (by omega)⟩) := by
        rw [same]
        exact here
      exact apart _ place _ (atPlace (number.val - first) (by omega)) there
    · intro i below
      exact ⟨_, atPlace i below⟩
    · intro i j iBelow jBelow same
      have iPage := atPlace i iBelow
      rw [same] at iPage
      have pages := single _ _ _ iPage (atPlace j jBelow)
      have equal := congrArg Fin.val (pool.distinct pages)
      simp only at equal
      omega
  omega

namespace PageTree

/-- The pages that have been handed out from the root on are as many as the tables. -/
theorem used_eq_ncard {tree : PageTree} {pool : InitialPool tree.pageTableOffset}
    {memory : TableMemory} {first : Fin initialPoolSize} (sound : tree.Sound pool memory)
    (noneLost : tree.NoneLost pool memory first) (isRoot : pool.page first = tree.root)
    (handed : first.val ≤ memory.initialPoolUsedCount.val) :
    memory.initialPoolUsedCount.val =
      first.val + {path | tree.TablePath memory.tables path}.ncard := by
  have counted := pool.eq_add_ncard handed
    (fun (path : List Index) page =>
      path.length ≤ 3 ∧ tree.table memory.tables path = some page)
    (fun path other page here there =>
      sound.separated.apart path other page here.1 there.1 here.2 there.2)
    (fun path page other here there => Option.some.inj (here.2.symm.trans there.2))
    (fun path page here => by
      rcases sound.separated.owned path page here.1 here.2 with
        ⟨root, number, rootPage, lower, below, isPage⟩
      rw [pool.distinct (rootPage.trans isRoot.symm)] at lower
      exact ⟨number, lower, below, isPage⟩)
    noneLost
  simpa only [TablePath, exists_and_left] using counted

end PageTree

end Dvnetos.PageTables
