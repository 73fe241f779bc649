import Dvnetos.Paging.PageTree

/-!
# What the tables of one tree leave alone

Two trees in one memory that share no table do not see each other's stores. A step of
one tree writes to tables of this tree only, and the tables it has got are either its
old ones or pages that the pool has handed out in the step.
-/

namespace Dvnetos.PageTables

open TableTree

namespace PageTree

/-- The address is that of a table of the tree. -/
def Reaches (tree : PageTree) (tables : Word64 → Index → Word64) (address : Word64) : Prop :=
  ∃ path, path.length ≤ 3 ∧ tree.table tables path = some address

/-- The step writes to tables of the tree, and these are old ones or new pages of the pool. -/
structure Confined (tree : PageTree) (pool : InitialPool tree.pageTableOffset)
    (before after : TableMemory) : Prop where
  writes : ∀ address, ¬tree.Reaches after.tables address →
    after.tables address = before.tables address
  reaches : ∀ address, tree.Reaches after.tables address → tree.Reaches before.tables address ∨
    ∃ number, before.initialPoolUsedCount.val ≤ number.val ∧ pool.page number = address

section Steps

variable {tree : PageTree} {pool : InitialPool tree.pageTableOffset}
variable {memory memory' : TableMemory} {table next : Word64} {index : Index}
variable {path : List Index}

theorem Sound.handedOut_of_reaches (sound : tree.Sound pool memory) {address : Word64}
    (reaches : tree.Reaches memory.tables address) : HandedOut pool tree.root memory address := by
  rcases reaches with ⟨path, bound, reached⟩
  exact sound.separated.owned path address bound reached

theorem KeepsTables.reaches {before after : Word64 → Index → Word64}
    (keeps : tree.KeepsTables before after) {address : Word64}
    (reaches : tree.Reaches before address) : tree.Reaches after address := by
  rcases reaches with ⟨path, bound, reached⟩
  exact ⟨path, bound, keeps path address bound reached⟩

theorem Confined.refl (memory : TableMemory) : tree.Confined pool memory memory :=
  { writes := fun _ _ => rfl
    reaches := fun _ reaches => Or.inl reaches }

theorem Confined.trans {first second third : TableMemory}
    (front : tree.Confined pool first second) (back : tree.Confined pool second third)
    (keeps : tree.KeepsTables second.tables third.tables)
    (used : first.initialPoolUsedCount.val ≤ second.initialPoolUsedCount.val) :
    tree.Confined pool first third := by
  constructor
  · intro address notReached
    have notBefore : ¬tree.Reaches second.tables address :=
      fun reaches => notReached (keeps.reaches reaches)
    exact (back.writes address notReached).trans (front.writes address notBefore)
  · intro address reaches
    rcases back.reaches address reaches with old | ⟨number, fresh, isPage⟩
    · exact front.reaches address old
    · exact Or.inr ⟨number, Nat.le_trans used fresh, isPage⟩

theorem Sound.confined_link (sound : tree.Sound pool memory) (bound : path.length < 3)
    (reached : tree.table memory.tables path = some table)
    (vacant : ¬Present (memory.tables table index))
    (linked : linkNewTable tree.format pool memory table index = .ok memory') :
    tree.Confined pool memory memory' := by
  have behind : ∀ {other : List Index}, other.length ≤ 3 → tree.table memory'.tables other =
      if other = index :: path then some (pool.page memory.initialPoolUsedCount)
      else tree.table memory.tables other :=
    sound.table_link bound reached vacant linked
  have keeps := sound.keepsTables_link bound reached vacant linked
  have deeper : (index :: path).length ≤ 3 := bound
  constructor
  · intro address notReached
    have notTable : address ≠ table := by
      rintro rfl
      exact notReached (keeps.reaches ⟨path, Nat.le_of_lt bound, reached⟩)
    have notNew : address ≠ pool.page memory.initialPoolUsedCount := by
      rintro rfl
      exact notReached ⟨index :: path, deeper, (behind deeper).trans (if_pos rfl)⟩
    rcases linkNewTable_cases linked with ⟨room, rfl⟩
    funext position
    simp [store, fill, notTable, notNew]
  · rintro address ⟨other, otherBound, reachedOther⟩
    rw [behind otherBound] at reachedOther
    split_ifs at reachedOther with isNew
    · exact Or.inr ⟨memory.initialPoolUsedCount, Nat.le_refl _, Option.some.inj reachedOther⟩
    · exact Or.inl ⟨other, otherBound, reachedOther⟩

theorem Sound.confined_nextTable (sound : tree.Sound pool memory) (bound : path.length < 3)
    (reached : tree.table memory.tables path = some table)
    (stepped : PageTables.nextTable tree.format pool memory table index = .ok (memory', next)) :
    tree.Confined pool memory memory' := by
  rcases nextTable_cases stepped with ⟨present, rfl, -⟩ | ⟨vacant, linked, -⟩
  · exact Confined.refl _
  · exact sound.confined_link bound reached vacant linked

theorem Sound.confined_store {newValue : Word64} (sound : tree.Sound pool memory)
    (bound : path.length ≤ 3) (reached : tree.table memory.tables path = some table)
    (keeps : path.length < 3 →
      child tree.format tree.pageTableOffset path.length newValue =
        child tree.format tree.pageTableOffset path.length (memory.tables table index)) :
    tree.Confined pool memory
      { memory with tables := store memory.tables table index newValue } := by
  have tables : ∀ {other : List Index}, other.length ≤ 3 →
      tree.table (store memory.tables table index newValue) other =
        tree.table memory.tables other :=
    sound.separated.tableAt_store bound reached keeps
  constructor
  · intro address notReached
    have notTable : address ≠ table := by
      rintro rfl
      exact notReached ⟨path, bound, (tables bound).trans reached⟩
    funext position
    simp [store, notTable]
  · rintro address ⟨other, otherBound, reachedOther⟩
    exact Or.inl ⟨other, otherBound, (tables otherBound).symm.trans reachedOther⟩

theorem Sound.confined_setEntry {newValue : Word64} (sound : tree.Sound pool memory)
    (bound : path.length ≤ 3) (reached : tree.table memory.tables path = some table)
    (isLeaf : IsLeaf tree.format (path.length + 1) newValue)
    (stored : PageTables.setEntry memory table index newValue = .ok memory') :
    tree.Confined pool memory memory' := by
  rcases setEntry_cases stored with ⟨old, rfl⟩
  exact sound.confined_store bound reached (child_of_setEntry isLeaf old)

end Steps

section Other

variable {tree other : PageTree} {pool : InitialPool tree.pageTableOffset}
variable {otherPool : InitialPool other.pageTableOffset} {before after : TableMemory}

/-- Stores outside of the tables of a tree do not show in it. -/
theorem Sound.frame (sound : tree.Sound pool before)
    (agree : ∀ address, tree.Reaches before.tables address →
      after.tables address = before.tables address)
    (used : before.initialPoolUsedCount.val ≤ after.initialPoolUsedCount.val) :
    tree.Sound pool after ∧ tree.leaf after.tables = tree.leaf before.tables ∧
      ∀ address, tree.Reaches after.tables address → tree.Reaches before.tables address := by
  have tables : ∀ path : List Index, path.length ≤ 3 →
      tree.table after.tables path = tree.table before.tables path := by
    intro path bound
    apply tableAt_of_agree _ bound
    intro above table aboveBound reached
    exact agree table ⟨above, Nat.le_of_lt aboveBound, reached⟩
  have entries : ∀ (index : Index) (path : List Index), path.length ≤ 3 →
      tree.entry after.tables (index :: path) = tree.entry before.tables (index :: path) := by
    intro index path bound
    cases reached : tree.table before.tables path with
    | none =>
        have closed := (tables path bound).trans reached
        rw [entry, entry, entryAt, entryAt]
        rw [table] at reached closed
        rw [reached, closed]
        rfl
    | some here =>
        have reachedAfter := (tables path bound).trans reached
        rw [entry_of_table reached, entry_of_table reachedAfter,
          agree here ⟨path, bound, reached⟩]
  refine ⟨⟨⟨?_, ?_⟩, ?_⟩, ?_, ?_⟩
  · intro path table bound reached
    have reachedBefore := (tables path bound).symm.trans reached
    exact (sound.separated.owned path table bound reachedBefore).mono used
  · intro first second table firstBound secondBound firstReached secondReached
    apply sound.separated.apart first second table firstBound secondBound
    · exact (tables first firstBound).symm.trans firstReached
    · exact (tables second secondBound).symm.trans secondReached
  · intro path entry bound found present
    cases path with
    | nil => cases found
    | cons index path =>
        rw [entries index path (by rw [List.length_cons] at bound; omega)] at found
        exact sound.directories _ entry bound found present
  · apply leaf_congr
    intro index path bound
    rw [leaf, leaf, entries index path bound]
  · rintro address ⟨path, bound, reached⟩
    exact ⟨path, bound, (tables path bound).symm.trans reached⟩

/-- No table belongs to both trees. -/
def Disjoint (tree other : PageTree) (tables : Word64 → Index → Word64) : Prop :=
  ∀ address, tree.Reaches tables address → ¬other.Reaches tables address

theorem Disjoint.symm {tables : Word64 → Index → Word64} (disjoint : tree.Disjoint other tables) :
    other.Disjoint tree tables :=
  fun address otherReaches reaches => disjoint address reaches otherReaches

/-- A step of one tree leaves a tree alone that shares no table with it. -/
theorem Confined.frame (confined : tree.Confined pool before after)
    (used : before.initialPoolUsedCount.val ≤ after.initialPoolUsedCount.val)
    (samePages : otherPool.page = pool.page)
    (sound : other.Sound otherPool before) (disjoint : tree.Disjoint other before.tables) :
    other.Sound otherPool after ∧ other.leaf after.tables = other.leaf before.tables ∧
      tree.Disjoint other after.tables := by
  have apart : ∀ address, other.Reaches before.tables address →
      ¬tree.Reaches after.tables address := by
    intro address otherReaches reaches
    rcases confined.reaches address reaches with old | ⟨number, fresh, isPage⟩
    · exact disjoint address old otherReaches
    · rcases sound.handedOut_of_reaches otherReaches with ⟨_, handed, _, _, below, same⟩
      rw [samePages, ← isPage] at same
      rw [pool.distinct same] at below
      omega
  rcases sound.frame
    (fun address otherReaches => confined.writes address (apart address otherReaches))
    used with ⟨soundAfter, leaves, reachesBefore⟩
  refine ⟨soundAfter, leaves, ?_⟩
  intro address reaches otherReaches
  exact apart address (reachesBefore address otherReaches) reaches

end Other

end PageTree

end Dvnetos.PageTables
