import Dvnetos.Paging.PageTables
import Mathlib.Logic.Function.Basic

/-!
# The tree of the page tables

The tables behind a root form a tree of four levels. Its leaves are the pages it
maps: a path of three indices leads to a page of 2 MiB, a path of four to one of
4 KiB, the deepest index first. A sound tree uses every page of the pool once, so
linking a table changes no leaf and storing a page changes one.
-/

namespace Dvnetos.PageTables

open TableTree

/-- A root with the offset between the pointers to its tables and their physical addresses. -/
structure PageTree where
  format : Format
  pageTableOffset : Word64
  root : Word64

/-- The table that an entry leads to, if it is one of the first three levels and no block. -/
def child (format : Format) (pageTableOffset : Word64) (level : ℕ) (entry : Word64) :
    Option Word64 :=
  if level < 3 ∧ Present entry ∧ (level = 2 → format.block entry = false) then
    some ((entry &&& ~~~pageFlagsMask) + pageTableOffset)
  else none

/-- An entry behind `level` indices maps a page. -/
def IsLeaf (format : Format) (level : ℕ) (entry : Word64) : Prop :=
  Present entry ∧ (level = 4 ∨ level = 3 ∧ format.block entry = true)

instance (format : Format) (level : ℕ) (entry : Word64) :
    Decidable (IsLeaf format level entry) :=
  inferInstanceAs (Decidable (_ ∧ _))

/-- The page is the root or one the pool has handed out after it. -/
def HandedOut {offset : Word64} (pool : InitialPool offset) (root : Word64)
    (memory : TableMemory) (address : Word64) : Prop :=
  ∃ first number, pool.page first = root ∧ first.val ≤ number.val ∧
    number.val < memory.initialPoolUsedCount.val ∧ pool.page number = address

namespace PageTree

variable (tree : PageTree)

/-- The table at the end of a path. -/
def table (tables : Word64 → Index → Word64) (path : List Index) : Option Word64 :=
  tableAt (child tree.format tree.pageTableOffset) tables tree.root path

/-- The entry at the end of a path. -/
def entry (tables : Word64 → Index → Word64) (path : List Index) : Option Word64 :=
  entryAt (child tree.format tree.pageTableOffset) tables tree.root path

/-- The entry at the end of a path, if it maps a page. -/
def leaf (tables : Word64 → Index → Word64) (path : List Index) : Option Word64 :=
  (tree.entry tables path).filter fun entry => decide (IsLeaf tree.format path.length entry)

/--
The tables have been handed out by the pool and are not shared, and no entry of the first two
levels maps a page.
-/
structure Sound (pool : InitialPool tree.pageTableOffset) (memory : TableMemory) : Prop where
  separated : Separated (child tree.format tree.pageTableOffset) 3
    (HandedOut pool tree.root memory) memory.tables tree.root
  directories : ∀ path entry, path.length ≤ 2 → tree.entry memory.tables path = some entry →
    Present entry → tree.format.block entry = false

/-- The tables of the tree stay where they are. -/
def KeepsTables (before after : Word64 → Index → Word64) : Prop :=
  ∀ path table, path.length ≤ 3 → tree.table before path = some table →
    tree.table after path = some table

/-- Afterwards the path maps a page with this entry, which it may have done before. -/
structure Inserted (before after : Word64 → Index → Word64) (path : List Index)
    (entry : Word64) : Prop where
  leaves : tree.leaf after = Function.update (tree.leaf before) path (some entry)
  vacant : tree.leaf before path = none ∨ tree.leaf before path = some entry

end PageTree

section Links

variable {frame : Word64} (framed : frame &&& pageFlagsMask = 0#64) (format : Format)

include framed

theorem present_link : Present (frame ||| format.linkFlags) := by
  have clear : frame &&& pagePresent = 0#64 := Bits.and_eq_zero_of_within framed (by decide)
  rw [Present, Bits.or_and_of_clear clear, format.linkFlags_present]
  decide

theorem link_target : (frame ||| format.linkFlags) &&& ~~~pageFlagsMask = frame := by
  have flagsClear : format.linkFlags &&& ~~~pageFlagsMask = 0#64 := by
    rw [← format.linkFlags_within, BitVec.and_comm pageFlagsMask, BitVec.and_assoc]
    simp
  rw [Bits.or_and_of_added_clear frame flagsClear, Bits.and_not_eq_self framed]

theorem child_link {offset : Word64} {level : ℕ} (bound : level < 3) :
    child format offset level (frame ||| format.linkFlags) = some (frame + offset) := by
  rw [child, if_pos, link_target framed]
  exact ⟨bound, present_link framed format, fun _ => format.block_link frame framed⟩

end Links

theorem child_blank (format : Format) (offset : Word64) (level : ℕ) :
    child format offset level 0#64 = none := by
  rw [child, if_neg]
  rintro ⟨_, present, _⟩
  revert present
  decide

theorem child_of_not_present {format : Format} {offset entry : Word64} (absent : ¬Present entry)
    (level : ℕ) : child format offset level entry = none := by
  rw [child, if_neg]
  exact fun leads => absent leads.2.1

theorem child_of_block {format : Format} {offset entry : Word64}
    (block : format.block entry = true) : child format offset 2 entry = none := by
  rw [child, if_neg]
  rintro ⟨_, _, link⟩
  rw [link rfl] at block
  cases block

theorem child_of_present {format : Format} {offset entry : Word64} {level : ℕ}
    (bound : level < 3) (present : Present entry) (link : level = 2 → format.block entry = false) :
    child format offset level entry = some ((entry &&& ~~~pageFlagsMask) + offset) := by
  rw [child, if_pos ⟨bound, present, link⟩]

namespace PageTree

variable {tree : PageTree} {tables before after : Word64 → Index → Word64}
variable {path : List Index} {entry : Word64}

theorem table_cons (tree : PageTree) (tables : Word64 → Index → Word64) (index : Index)
    (path : List Index) :
    tree.table tables (index :: path) =
      (tree.entry tables (index :: path)).bind
        (child tree.format tree.pageTableOffset path.length) :=
  tableAt_cons index path

theorem entry_of_table {table : Word64} (reached : tree.table tables path = some table)
    (index : Index) : tree.entry tables (index :: path) = some (tables table index) :=
  entryAt_of_tableAt reached index

theorem table_of_entry {index : Index} (found : tree.entry tables (index :: path) = some entry) :
    ∃ table, tree.table tables path = some table ∧ tables table index = entry :=
  tableAt_of_entryAt found

theorem table_below {table : Word64} (reached : tree.table tables path = some table)
    (index : Index) (bound : path.length < 3)
    (present : Present (tables table index))
    (link : path.length = 2 → tree.format.block (tables table index) = false) :
    tree.table tables (index :: path) =
      some ((tables table index &&& ~~~pageFlagsMask) + tree.pageTableOffset) := by
  rw [table_cons, entry_of_table reached, Option.bind_some, child_of_present bound present link]

theorem no_table_below {table : Word64} {index : Index}
    (reached : tree.table tables path = some table) (absent : ¬Present (tables table index)) :
    tree.table tables (index :: path) = none := by
  rw [table_cons, entry_of_table reached, Option.bind_some, child_of_not_present absent]

theorem leaf_eq_some_iff : tree.leaf tables path = some entry ↔
    tree.entry tables path = some entry ∧ IsLeaf tree.format path.length entry := by
  simp only [leaf, Option.filter_eq_some_iff, decide_eq_true_eq]

theorem leaf_eq_none_of (vacant : ∀ entry, tree.entry tables path = some entry →
      ¬IsLeaf tree.format path.length entry) : tree.leaf tables path = none := by
  rw [Option.eq_none_iff_forall_ne_some]
  intro entry found
  rw [leaf_eq_some_iff] at found
  exact vacant entry found.1 found.2

theorem leaf_of_blank (blank : ∀ table index, ¬Present (tables table index)) :
    tree.leaf tables path = none := by
  apply leaf_eq_none_of
  intro entry found isLeaf
  cases path with
  | nil => cases found
  | cons index path =>
      rcases table_of_entry found with ⟨table, -, rfl⟩
      exact blank table index isLeaf.1

theorem table_of_no_table (closed : tree.table tables path = none) (index : Index) :
    tree.table tables (index :: path) = none := by
  rw [table] at closed ⊢
  rw [tableAt, closed, Option.bind_none]

theorem leaf_of_no_table (closed : tree.table tables path = none) (index : Index) :
    tree.leaf tables (index :: path) = none := by
  apply leaf_eq_none_of
  intro entry found
  rcases table_of_entry found with ⟨table, reached, -⟩
  rw [closed] at reached
  cases reached

theorem leaf_of_table {table : Word64} (reached : tree.table tables path = some table)
    (index : Index) :
    tree.leaf tables (index :: path) =
      if IsLeaf tree.format (path.length + 1) (tables table index) then some (tables table index)
      else none := by
  rw [leaf, entry_of_table reached, Option.filter_some, List.length_cons]
  simp only [decide_eq_true_eq]

/-- No page lies below a page. -/
theorem leaf_above (bound : path.length = 3) {index : Index}
    (found : tree.leaf tables (index :: path) = some entry) : tree.leaf tables path = none := by
  apply leaf_eq_none_of
  intro above foundAbove isLeaf
  rcases table_of_entry (leaf_eq_some_iff.mp found).1 with ⟨table, reached, -⟩
  cases path with
  | nil => cases foundAbove
  | cons position path =>
      rw [table_cons, foundAbove, Option.bind_some] at reached
      rw [List.length_cons] at bound isLeaf
      rcases isLeaf.2 with four | ⟨_, block⟩
      · omega
      · rw [show path.length = 2 by omega, child_of_block block] at reached
        cases reached

theorem leaf_nil : tree.leaf tables [] = none := rfl

theorem leaf_of_long (long : 4 < path.length) : tree.leaf tables path = none := by
  apply leaf_eq_none_of
  intro entry _ isLeaf
  rcases isLeaf.2 with four | ⟨three, _⟩ <;> omega

theorem leaf_congr (same : ∀ index path, path.length ≤ 3 →
      tree.leaf after (index :: path) = tree.leaf before (index :: path)) :
    tree.leaf after = tree.leaf before := by
  funext path
  cases path with
  | nil => rfl
  | cons index path =>
      by_cases bound : path.length ≤ 3
      · exact same index path bound
      · rw [leaf_of_long (by rw [List.length_cons]; omega),
          leaf_of_long (by rw [List.length_cons]; omega)]

theorem KeepsTables.refl (tables : Word64 → Index → Word64) : tree.KeepsTables tables tables :=
  fun _ _ _ reached => reached

theorem KeepsTables.trans {between : Word64 → Index → Word64}
    (first : tree.KeepsTables before between) (second : tree.KeepsTables between after) :
    tree.KeepsTables before after :=
  fun path table bound reached => second path table bound (first path table bound reached)

theorem Inserted.leaf_self (inserted : tree.Inserted before after path entry) :
    tree.leaf after path = some entry := by
  rw [inserted.leaves, Function.update_self]

theorem Inserted.leaf_of_ne (inserted : tree.Inserted before after path entry)
    {other : List Index} (different : other ≠ path) :
    tree.leaf after other = tree.leaf before other := by
  rw [inserted.leaves, Function.update_of_ne different]

/-- A page that is mapped stays mapped as it is. -/
theorem Inserted.keeps (inserted : tree.Inserted before after path entry) {other : List Index}
    {kept : Word64} (found : tree.leaf before other = some kept) :
    tree.leaf after other = some kept := by
  by_cases same : other = path
  · subst same
    rcases inserted.vacant with vacant | already
    · rw [vacant] at found
      cases found
    · rw [inserted.leaf_self, ← already, found]
  · rw [inserted.leaf_of_ne same, found]

end PageTree

theorem HandedOut.mono {offset : Word64} {pool : InitialPool offset} {root address : Word64}
    {before after : TableMemory} (handed : HandedOut pool root before address)
    (used : before.initialPoolUsedCount.val ≤ after.initialPoolUsedCount.val) :
    HandedOut pool root after address := by
  rcases handed with ⟨first, number, isRoot, behind, below, here⟩
  exact ⟨first, number, isRoot, behind, Nat.lt_of_lt_of_le below used, here⟩

section Steps

variable {tree : PageTree} {pool : InitialPool tree.pageTableOffset}
variable {memory memory' : TableMemory} {table next : Word64} {index : Index}
variable {path : List Index}

namespace PageTree

/-- The tree is sound afterwards, and only tables of the tree have been written to. -/
structure Stepped (tree : PageTree) (pool : InitialPool tree.pageTableOffset)
    (before after : TableMemory) : Prop where
  sound : tree.Sound pool after
  keepsTables : tree.KeepsTables before.tables after.tables
  used : before.initialPoolUsedCount.val ≤ after.initialPoolUsedCount.val
  outside : ∀ address, ¬HandedOut pool tree.root after address →
    after.tables address = before.tables address

/-- The tree has got new tables, but no page it maps has changed. -/
structure Extended (tree : PageTree) (pool : InitialPool tree.pageTableOffset)
    (before after : TableMemory) : Prop extends tree.Stepped pool before after where
  leaves : tree.leaf after.tables = tree.leaf before.tables

theorem Stepped.refl (sound : tree.Sound pool memory) : tree.Stepped pool memory memory :=
  { sound, keepsTables := KeepsTables.refl _, used := Nat.le_refl _, outside := fun _ _ => rfl }

theorem Stepped.trans {first second third : TableMemory}
    (front : tree.Stepped pool first second) (back : tree.Stepped pool second third) :
    tree.Stepped pool first third := by
  refine ⟨back.sound, front.keepsTables.trans back.keepsTables, Nat.le_trans front.used back.used,
    ?_⟩
  intro address outside
  rw [back.outside address outside, front.outside address]
  intro handed
  exact outside (handed.mono back.used)

theorem Extended.refl (sound : tree.Sound pool memory) : tree.Extended pool memory memory :=
  { Stepped.refl sound with leaves := rfl }

theorem Extended.inserted {between after : TableMemory} {entry : Word64}
    (front : tree.Extended pool memory between)
    (inserted : tree.Inserted between.tables after.tables path entry) :
    tree.Inserted memory.tables after.tables path entry := by
  constructor
  · rw [← front.leaves]
    exact inserted.leaves
  · rw [← front.leaves]
    exact inserted.vacant

theorem Extended.trans {first second third : TableMemory}
    (front : tree.Extended pool first second) (back : tree.Extended pool second third) :
    tree.Extended pool first third :=
  { front.toStepped.trans back.toStepped with leaves := back.leaves.trans front.leaves }

end PageTree

theorem linkNewTable_cases {format : Format} {offset : Word64} {pool : InitialPool offset}
    (linked : linkNewTable format pool memory table index = .ok memory') :
    ∃ room : memory.initialPoolUsedCount + 1 < initialPoolSize,
      memory' =
        { tables := store (fill memory.tables (pool.page memory.initialPoolUsedCount) 0#64) table
            index ((pool.page memory.initialPoolUsedCount - offset) ||| format.linkFlags)
          initialPoolUsedCount := ⟨memory.initialPoolUsedCount + 1, room⟩ } := by
  by_cases room : memory.initialPoolUsedCount + 1 < initialPoolSize
  · refine ⟨room, ?_⟩
    simp only [linkNewTable, newTable, getPage, dif_pos room] at linked
    exact (Except.ok.inj linked).symm
  · simp only [linkNewTable, newTable, getPage, dif_neg room] at linked
    cases linked

/-- The table of an entry that is present, or of one that is linked first. -/
theorem nextTable_cases {format : Format} {offset next : Word64} {pool : InitialPool offset}
    (stepped : nextTable format pool memory table index = .ok (memory', next)) :
    (Present (memory.tables table index) ∧ memory' = memory ∧
      next = (memory.tables table index &&& ~~~pageFlagsMask) + offset) ∨
    (¬Present (memory.tables table index) ∧
      linkNewTable format pool memory table index = .ok memory' ∧
      next = (memory'.tables table index &&& ~~~pageFlagsMask) + offset) := by
  by_cases present : Present (memory.tables table index)
  · simp only [nextTable, if_pos present] at stepped
    cases stepped
    exact .inl ⟨present, rfl, rfl⟩
  · simp only [nextTable, if_neg present] at stepped
    cases linked : linkNewTable format pool memory table index with
    | error =>
        rw [linked] at stepped
        cases stepped
    | ok linkedMemory =>
        rw [linked] at stepped
        cases stepped
        exact .inr ⟨present, rfl, rfl⟩

/-- A page the pool has still to hand out is in no table of the tree. -/
theorem not_handedOut {offset : Word64} (pool : InitialPool offset) (root : Word64)
    (memory : TableMemory) :
    ¬HandedOut pool root memory (pool.page memory.initialPoolUsedCount) := by
  rintro ⟨_, number, _, _, handed, same⟩
  rw [pool.distinct same] at handed
  exact absurd handed (Nat.lt_irrefl _)

namespace PageTree

/-- The next page of the pool belongs to the tree once it is handed out. -/
theorem Sound.handedOut_next (sound : tree.Sound pool memory)
    {tables : Word64 → Index → Word64}
    (room : memory.initialPoolUsedCount + 1 < initialPoolSize) :
    HandedOut pool tree.root
      { tables, initialPoolUsedCount := ⟨memory.initialPoolUsedCount + 1, room⟩ }
      (pool.page memory.initialPoolUsedCount) := by
  rcases sound.separated.owned [] tree.root (Nat.zero_le _) rfl with
    ⟨first, number, isRoot, behind, below, _⟩
  refine ⟨first, memory.initialPoolUsedCount, isRoot, by omega, Nat.lt_succ_self _, rfl⟩

/-- What a link changes in the entries of the tree. -/
theorem Sound.entry_link (sound : tree.Sound pool memory) (bound : path.length < 3)
    (reached : tree.table memory.tables path = some table)
    (vacant : ¬Present (memory.tables table index))
    (linked : linkNewTable tree.format pool memory table index = .ok memory')
    (position : Index) {other : List Index} (otherBound : other.length ≤ 3) :
    tree.entry memory'.tables (position :: other) =
      if other = index :: path then some 0#64
      else if position :: other = index :: path then
        some ((pool.page memory.initialPoolUsedCount - tree.pageTableOffset) |||
          tree.format.linkFlags)
      else tree.entry memory.tables (position :: other) := by
  rcases linkNewTable_cases linked with ⟨room, rfl⟩
  apply sound.separated.entryAt_link bound reached
  · exact child_of_not_present vacant path.length
  · rw [child_link (pool.framed _) tree.format bound, BitVec.sub_add_cancel]
  · exact not_handedOut pool tree.root memory
  · exact child_blank _ _
  · exact otherBound

theorem Sound.leaf_link (sound : tree.Sound pool memory) (bound : path.length < 3)
    (reached : tree.table memory.tables path = some table)
    (vacant : ¬Present (memory.tables table index))
    (linked : linkNewTable tree.format pool memory table index = .ok memory') :
    tree.leaf memory'.tables = tree.leaf memory.tables := by
  apply leaf_congr
  intro position other otherBound
  have entries := sound.entry_link bound reached vacant linked position otherBound
  have oldEntry : tree.entry memory.tables (index :: path) = some (memory.tables table index) :=
    entry_of_table reached index
  split_ifs at entries with behind same
  · -- the new table is empty, and there was no table before
    rw [leaf_eq_none_of, leaf_eq_none_of]
    · intro entry found
      rcases table_of_entry found with ⟨above, reachedAbove, -⟩
      rw [behind, table_cons, oldEntry, Option.bind_some, child_of_not_present vacant]
        at reachedAbove
      cases reachedAbove
    · intro entry found isLeaf
      rw [entries] at found
      rw [← Option.some.inj found] at isLeaf
      exact absurd isLeaf.1 (by decide)
  · -- the link is no page, and its place was empty
    rw [leaf_eq_none_of, leaf_eq_none_of]
    · intro entry found isLeaf
      rw [same, oldEntry] at found
      rw [← Option.some.inj found] at isLeaf
      exact vacant isLeaf.1
    · intro entry found isLeaf
      rw [entries] at found
      have noBlock := tree.format.block_link _ (pool.framed memory.initialPoolUsedCount)
      rw [Option.some.inj found] at noBlock
      rcases isLeaf.2 with four | ⟨_, block⟩
      · rw [same, List.length_cons] at four
        omega
      · rw [noBlock] at block
        cases block
  · rw [leaf, leaf, entries]

theorem Sound.table_link (sound : tree.Sound pool memory) (bound : path.length < 3)
    (reached : tree.table memory.tables path = some table)
    (vacant : ¬Present (memory.tables table index))
    (linked : linkNewTable tree.format pool memory table index = .ok memory')
    {other : List Index} (otherBound : other.length ≤ 3) :
    tree.table memory'.tables other =
      if other = index :: path then some (pool.page memory.initialPoolUsedCount)
      else tree.table memory.tables other := by
  rcases linkNewTable_cases linked with ⟨room, rfl⟩
  apply sound.separated.tableAt_link bound reached
  · exact child_of_not_present vacant path.length
  · rw [child_link (pool.framed _) tree.format bound, BitVec.sub_add_cancel]
  · exact not_handedOut pool tree.root memory
  · exact child_blank _ _
  · exact otherBound

theorem Sound.link (sound : tree.Sound pool memory) (bound : path.length < 3)
    (reached : tree.table memory.tables path = some table)
    (vacant : ¬Present (memory.tables table index))
    (linked : linkNewTable tree.format pool memory table index = .ok memory') :
    tree.Sound pool memory' := by
  constructor
  · rcases linkNewTable_cases linked with ⟨room, rfl⟩
    have leads : child tree.format tree.pageTableOffset path.length
        ((pool.page memory.initialPoolUsedCount - tree.pageTableOffset) |||
          tree.format.linkFlags) = some (pool.page memory.initialPoolUsedCount) := by
      rw [child_link (pool.framed _) tree.format bound, BitVec.sub_add_cancel]
    have separated := sound.separated.link bound reached
      (child_of_not_present vacant path.length) leads
      (not_handedOut pool tree.root memory) (child_blank _ _)
    apply separated.mono
    rintro address (handed | rfl)
    · exact handed.mono (Nat.le_succ _)
    · exact sound.handedOut_next room
  · intro other entry otherBound found present
    cases other with
    | nil => cases found
    | cons position other =>
        rw [List.length_cons] at otherBound
        rw [sound.entry_link bound reached vacant linked position (by omega)] at found
        split_ifs at found with behind same
        · rw [← Option.some.inj found] at present
          exact absurd present (by decide)
        · rw [← Option.some.inj found]
          exact tree.format.block_link _ (pool.framed _)
        · exact sound.directories (position :: other) entry
            (by rw [List.length_cons]; exact otherBound) found present

theorem Sound.keepsTables_link (sound : tree.Sound pool memory) (bound : path.length < 3)
    (reached : tree.table memory.tables path = some table)
    (vacant : ¬Present (memory.tables table index))
    (linked : linkNewTable tree.format pool memory table index = .ok memory') :
    tree.KeepsTables memory.tables memory'.tables := by
  intro other found otherBound reachedOther
  rw [sound.table_link bound reached vacant linked otherBound, if_neg, reachedOther]
  rintro rfl
  rw [table_cons, entry_of_table reached index, Option.bind_some, child_of_not_present vacant]
    at reachedOther
  cases reachedOther

theorem Sound.stepped_link (sound : tree.Sound pool memory) (bound : path.length < 3)
    (reached : tree.table memory.tables path = some table)
    (vacant : ¬Present (memory.tables table index))
    (linked : linkNewTable tree.format pool memory table index = .ok memory') :
    tree.Stepped pool memory memory' := by
  refine ⟨sound.link bound reached vacant linked,
    sound.keepsTables_link bound reached vacant linked, ?_, ?_⟩
  · rcases linkNewTable_cases linked with ⟨room, rfl⟩
    exact Nat.le_succ _
  · intro address outside
    rcases linkNewTable_cases linked with ⟨room, rfl⟩
    have tableOwned := sound.separated.owned path table (by omega) reached
    have notTable : address ≠ table := by
      rintro rfl
      exact outside (tableOwned.mono (Nat.le_succ _))
    have notNew : address ≠ pool.page memory.initialPoolUsedCount := by
      rintro rfl
      exact outside (sound.handedOut_next room)
    funext position
    simp [store, fill, notTable, notNew]

/-- The step to the next table, whether it is there or has to be linked first. -/
theorem Sound.nextTable (sound : tree.Sound pool memory) (bound : path.length < 3)
    (reached : tree.table memory.tables path = some table)
    (link : path.length = 2 → Present (memory.tables table index) →
      tree.format.block (memory.tables table index) = false)
    (stepped : nextTable tree.format pool memory table index = .ok (memory', next)) :
    tree.Extended pool memory memory' ∧ tree.table memory'.tables (index :: path) = some next := by
  rcases nextTable_cases stepped with ⟨present, rfl, rfl⟩ | ⟨vacant, linked, rfl⟩
  · refine ⟨Extended.refl sound, ?_⟩
    rw [table_cons, entry_of_table reached index, Option.bind_some,
      child_of_present bound present fun two => link two present]
  · have extended : tree.Extended pool memory memory' :=
      { sound.stepped_link bound reached vacant linked with
        leaves := sound.leaf_link bound reached vacant linked }
    refine ⟨extended, ?_⟩
    rw [sound.table_link bound reached vacant linked (by rw [List.length_cons]; omega), if_pos rfl]
    rcases linkNewTable_cases linked with ⟨room, rfl⟩
    simp only [store_same]
    rw [link_target (pool.framed _), BitVec.sub_add_cancel]

end PageTree

theorem setEntry_cases {newValue : Word64}
    (stored : setEntry memory table index newValue = .ok memory') :
    (memory.tables table index = 0#64 ∨ memory.tables table index = newValue) ∧
      memory' = { memory with tables := store memory.tables table index newValue } := by
  simp only [setEntry] at stored
  split_ifs at stored with clash
  refine ⟨?_, (Except.ok.inj stored).symm⟩
  by_contra neither
  exact clash (not_or.mp neither)

namespace PageTree

/-- A store below the directories that leads where the old entry led changes one leaf at most. -/
theorem Sound.storeEntry {newValue : Word64} (sound : tree.Sound pool memory)
    (deep : 2 ≤ path.length)
    (bound : path.length ≤ 3) (reached : tree.table memory.tables path = some table)
    (keeps : path.length < 3 →
      child tree.format tree.pageTableOffset path.length newValue =
        child tree.format tree.pageTableOffset path.length (memory.tables table index)) :
    let changed := { memory with tables := store memory.tables table index newValue }
    tree.Stepped pool memory changed ∧
      tree.leaf changed.tables = Function.update (tree.leaf memory.tables) (index :: path)
        (if IsLeaf tree.format (path.length + 1) newValue then some newValue else none) := by
  have entries : ∀ position other, other.length ≤ 3 →
      tree.entry (store memory.tables table index newValue) (position :: other) =
        if position :: other = index :: path then some newValue
        else tree.entry memory.tables (position :: other) :=
    fun position other => sound.separated.entryAt_store bound reached keeps
  refine ⟨⟨⟨sound.separated.store bound reached keeps, ?_⟩, ?_, Nat.le_refl _, ?_⟩, ?_⟩
  · intro other entry otherBound found present
    cases other with
    | nil => cases found
    | cons position other =>
        rw [entries position other (by rw [List.length_cons] at otherBound; omega)] at found
        split_ifs at found with same
        · rw [same, List.length_cons] at otherBound
          omega
        · exact sound.directories _ entry otherBound found present
  · intro other found otherBound reachedOther
    have moved := sound.separated.tableAt_store bound reached keeps otherBound
    exact moved.trans reachedOther
  · intro address outside
    have notTable : address ≠ table := by
      rintro rfl
      exact outside (sound.separated.owned path address bound reached)
    funext position
    simp [store, notTable]
  · funext other
    cases other with
    | nil => rw [leaf_nil, Function.update_of_ne (by simp), leaf_nil]
    | cons position other =>
        by_cases otherBound : other.length ≤ 3
        · have here := entries position other otherBound
          split_ifs at here with same
          · rw [same] at here ⊢
            rw [Function.update_self, leaf, here, Option.filter_some, List.length_cons]
            simp only [decide_eq_true_eq]
          · rw [Function.update_of_ne same, leaf, leaf, here]
        · rw [leaf_of_long (by rw [List.length_cons]; omega), Function.update_of_ne,
            leaf_of_long (by rw [List.length_cons]; omega)]
          intro same
          have := congrArg List.length same
          rw [List.length_cons, List.length_cons] at this
          omega

/-- Where a page goes there was no way to another table. -/
theorem child_of_setEntry {newValue : Word64}
    (isLeaf : IsLeaf tree.format (path.length + 1) newValue)
    (old : memory.tables table index = 0#64 ∨ memory.tables table index = newValue)
    (shallow : path.length < 3) :
    child tree.format tree.pageTableOffset path.length newValue =
      child tree.format tree.pageTableOffset path.length (memory.tables table index) := by
  rcases old with blank | same
  · rw [blank, child_blank]
    rcases isLeaf.2 with four | ⟨three, block⟩
    · omega
    · rw [show path.length = 2 by omega]
      exact child_of_block block
  · rw [same]

/-- The entry of a page goes where there was none, or the same. -/
theorem Sound.setEntry {newValue : Word64} (sound : tree.Sound pool memory)
    (bound : path.length ≤ 3) (reached : tree.table memory.tables path = some table)
    (isLeaf : IsLeaf tree.format (path.length + 1) newValue)
    (stored : setEntry memory table index newValue = .ok memory') :
    tree.Stepped pool memory memory' ∧
      tree.Inserted memory.tables memory'.tables (index :: path) newValue := by
  rcases setEntry_cases stored with ⟨old, rfl⟩
  have deep : 2 ≤ path.length := by
    rcases isLeaf.2 with four | ⟨three, _⟩ <;> omega
  have vacant : tree.leaf memory.tables (index :: path) = none ∨
      tree.leaf memory.tables (index :: path) = some newValue := by
    rcases old with blank | same
    · left
      apply leaf_eq_none_of
      intro entry found otherLeaf
      rw [entry_of_table reached, blank] at found
      rw [← Option.some.inj found] at otherLeaf
      exact absurd otherLeaf.1 (by decide)
    · right
      rw [leaf_eq_some_iff, entry_of_table reached, same]
      exact ⟨rfl, isLeaf⟩
  rcases sound.storeEntry deep bound reached (child_of_setEntry isLeaf old) with ⟨stepped, leaves⟩
  refine ⟨stepped, ?_, vacant⟩
  rwa [if_pos isLeaf] at leaves

end PageTree

theorem newTable_cases {offset : Word64} {pool : InitialPool offset}
    (made : newTable pool memory = .ok (memory', table)) :
    ∃ room : memory.initialPoolUsedCount + 1 < initialPoolSize,
      table = pool.page memory.initialPoolUsedCount ∧
        memory' =
          { tables := fill memory.tables table 0#64
            initialPoolUsedCount := ⟨memory.initialPoolUsedCount + 1, room⟩ } := by
  by_cases room : memory.initialPoolUsedCount + 1 < initialPoolSize
  · simp only [newTable, getPage, dif_pos room] at made
    cases made
    exact ⟨room, rfl, rfl⟩
  · simp only [newTable, getPage, dif_neg room] at made
    cases made

/-- A new table is the root of a tree that maps nothing. -/
theorem PageTree.sound_newTable (tree : PageTree) {pool : InitialPool tree.pageTableOffset}
    (made : PageTables.newTable pool memory = .ok (memory', tree.root)) :
    tree.Sound pool memory' ∧ ∀ path, tree.leaf memory'.tables path = none := by
  rcases newTable_cases made with ⟨room, isNew, rfl⟩
  have blank : ∀ index, fill memory.tables tree.root 0#64 tree.root index = 0#64 := by
    intro index
    simp [fill]
  have onlyRoot : ∀ index path entry,
      tree.entry (fill memory.tables tree.root 0#64) (index :: path) = some entry →
        entry = 0#64 := by
    intro index path
    induction path generalizing index with
    | nil =>
        intro entry found
        rw [entry_of_table rfl, blank] at found
        exact (Option.some.inj found).symm
    | cons above path ih =>
        intro entry found
        rcases table_of_entry found with ⟨here, reached, -⟩
        rw [table_cons, Option.bind_eq_some_iff] at reached
        rcases reached with ⟨link, foundLink, leads⟩
        rw [ih above link foundLink, child_blank] at leads
        cases leads
  have noPage : ∀ path entry, tree.entry (fill memory.tables tree.root 0#64) path = some entry →
      ¬Present entry := by
    intro path entry found
    cases path with
    | nil => cases found
    | cons index path =>
        rw [onlyRoot index path entry found]
        decide
  refine ⟨⟨?_, ?_⟩, ?_⟩
  · apply Separated.of_blank
    · intro index
      simp only [blank, child_blank]
    · exact ⟨memory.initialPoolUsedCount, memory.initialPoolUsedCount, isNew.symm, Nat.le_refl _,
        Nat.lt_succ_self _, isNew.symm⟩
  · intro path entry _ found present
    exact absurd present (noPage path entry found)
  · intro path
    apply leaf_eq_none_of
    intro entry found isLeaf
    exact noPage path entry found isLeaf.1

end Steps

end Dvnetos.PageTables
