import Mathlib.Data.List.Basic
import Mathlib.Tactic.Common

/-!
# Trees of tables in a heap

A table is an array of entries somewhere in a heap, and an entry may lead to a
table one level down. A path names a table by the indices on the way to it, the
deepest first. In a separated heap two paths never reach the same table, so a
store to a table shows at one path only.
-/

universe u v w

namespace TableTree

variable {Address : Type u} {Index : Type v} {Entry : Type w}

section Stores

variable [DecidableEq Address] [DecidableEq Index]

/-- The tables after an entry has been written. -/
def store (tables : Address → Index → Entry) (table : Address) (index : Index) (entry : Entry) :
    Address → Index → Entry :=
  fun other position => if other = table ∧ position = index then entry else tables other position

/-- Set every entry of one table. -/
def fill (tables : Address → Index → Entry) (table : Address) (entry : Entry) :
    Address → Index → Entry :=
  fun other position => if other = table then entry else tables other position

@[simp]
theorem store_same (tables : Address → Index → Entry) (table : Address) (index : Index)
    (entry : Entry) : store tables table index entry table index = entry := by
  simp [store]

theorem store_self (tables : Address → Index → Entry) (table : Address) (index : Index) :
    store tables table index (tables table index) = tables := by
  funext other position
  simp only [store]
  split_ifs with same
  · rw [same.1, same.2]
  · rfl

end Stores

section Paths

-- Where an entry of a table leads, by the number of indices in front of it.
variable (child : ℕ → Entry → Option Address)

/-- The table at the end of a path, the last index first. -/
def tableAt (tables : Address → Index → Entry) (root : Address) : List Index → Option Address
  | [] => some root
  | index :: path =>
      (tableAt tables root path).bind fun table => child path.length (tables table index)

/-- The entry behind the first index of the path, in the table the others reach. -/
def entryAt (tables : Address → Index → Entry) (root : Address) : List Index → Option Entry
  | [] => none
  | index :: path => (tableAt child tables root path).map fun table => tables table index

/-- The tables within the depth are owned and reached by one path each. -/
structure Separated (depth : ℕ) (owned : Address → Prop) (tables : Address → Index → Entry)
    (root : Address) : Prop where
  owned : ∀ path table, path.length ≤ depth → tableAt child tables root path = some table →
    owned table
  apart : ∀ first second table, first.length ≤ depth → second.length ≤ depth →
    tableAt child tables root first = some table →
    tableAt child tables root second = some table → first = second

end Paths

variable {child : ℕ → Entry → Option Address} {depth : ℕ} {owned : Address → Prop}
variable {tables changed : Address → Index → Entry} {root table : Address}
variable {index : Index} {path : List Index} {entry : Entry}

theorem tableAt_cons (index : Index) (path : List Index) :
    tableAt child tables root (index :: path) =
      (entryAt child tables root (index :: path)).bind (child path.length) := by
  simp only [tableAt, entryAt]
  cases tableAt child tables root path <;> rfl

theorem entryAt_of_tableAt (reached : tableAt child tables root path = some table)
    (index : Index) :
    entryAt child tables root (index :: path) = some (tables table index) := by
  simp only [entryAt, reached, Option.map_some]

theorem tableAt_of_entryAt (found : entryAt child tables root (index :: path) = some entry) :
    ∃ table, tableAt child tables root path = some table ∧ tables table index = entry := by
  simpa only [entryAt, Option.map_eq_some_iff] using found

/-- The entries may change where they lead to the same tables. -/
theorem tableAt_congr (keeps : ∀ level table index,
      child level (changed table index) = child level (tables table index)) :
    tableAt child changed root path = tableAt child tables root path := by
  induction path with
  | nil => rfl
  | cons index path ih => simp only [tableAt, ih, keeps]

/-- Only the tables that are reached decide what is reached. -/
theorem tableAt_of_agree {bound : ℕ}
    (agree : ∀ path table, path.length < bound → tableAt child tables root path = some table →
      changed table = tables table) (within : path.length ≤ bound) :
    tableAt child changed root path = tableAt child tables root path := by
  induction path with
  | nil => rfl
  | cons index path ih =>
      rw [List.length_cons] at within
      rw [tableAt, tableAt, ih (Nat.le_of_succ_le within)]
      cases reached : tableAt child tables root path with
      | none => rfl
      | some here => rw [Option.bind_some, Option.bind_some, agree path here within reached]

/-- A root whose entries lead nowhere is a separated tree of one table. -/
theorem Separated.of_blank (blank : ∀ index, child 0 (tables root index) = none)
    (rootOwned : owned root) : Separated child depth owned tables root := by
  have onlyRoot : ∀ path table, tableAt child tables root path = some table →
      path = [] ∧ table = root := by
    intro path
    induction path with
    | nil =>
        intro table reached
        exact ⟨rfl, (Option.some.inj reached).symm⟩
    | cons index path ih =>
        intro table reached
        rw [tableAt, Option.bind_eq_some_iff] at reached
        rcases reached with ⟨above, reachedAbove, leads⟩
        rcases ih above reachedAbove with ⟨rfl, rfl⟩
        rw [List.length_nil, blank index] at leads
        cases leads
  constructor
  · intro path table _ reached
    rw [(onlyRoot path table reached).2]
    exact rootOwned
  · intro first second table _ _ firstReached secondReached
    rw [(onlyRoot first table firstReached).1, (onlyRoot second table secondReached).1]

theorem Separated.mono {handed : Address → Prop}
    (separated : Separated child depth owned tables root)
    (weaker : ∀ address, owned address → handed address) :
    Separated child depth handed tables root :=
  { owned := fun path table bound reached =>
      weaker table (separated.owned path table bound reached)
    apart := separated.apart }

namespace Separated

variable [DecidableEq Address] [DecidableEq Index]

section Store

variable (separated : Separated child depth owned tables root) (bound : path.length ≤ depth)
variable (reached : tableAt child tables root path = some table)
variable (keeps : path.length < depth →
  child path.length entry = child path.length (tables table index))

include separated bound reached keeps

theorem tableAt_store {other : List Index} (otherBound : other.length ≤ depth) :
    tableAt child (store tables table index entry) root other =
      tableAt child tables root other := by
  induction other with
  | nil => rfl
  | cons position other ih =>
      rw [List.length_cons] at otherBound
      rw [tableAt, tableAt, ih (by omega)]
      cases found : tableAt child tables root other with
      | none => rfl
      | some here =>
          simp only [Option.bind_some, store]
          split_ifs with same
          · rcases same with ⟨rfl, rfl⟩
            have samePath : other = path :=
              separated.apart other path here (by omega) bound found reached
            rw [samePath]
            exact keeps (by rw [← samePath]; omega)
          · rfl

theorem entryAt_store {position : Index} {other : List Index} (otherBound : other.length ≤ depth) :
    entryAt child (store tables table index entry) root (position :: other) =
      if position :: other = index :: path then some entry
      else entryAt child tables root (position :: other) := by
  simp only [entryAt, separated.tableAt_store bound reached keeps otherBound]
  split_ifs with same
  · rcases List.cons.inj same with ⟨rfl, rfl⟩
    simp [reached]
  · cases found : tableAt child tables root other with
    | none => rfl
    | some here =>
        simp only [Option.map_some, store]
        rw [if_neg]
        rintro ⟨rfl, rfl⟩
        rw [separated.apart other path here otherBound bound found reached] at same
        exact same rfl

theorem store : Separated child depth owned (store tables table index entry) root := by
  constructor
  · intro other here otherBound found
    rw [separated.tableAt_store bound reached keeps otherBound] at found
    exact separated.owned other here otherBound found
  · intro first second here firstBound secondBound firstFound secondFound
    rw [separated.tableAt_store bound reached keeps firstBound] at firstFound
    rw [separated.tableAt_store bound reached keeps secondBound] at secondFound
    exact separated.apart first second here firstBound secondBound firstFound secondFound

end Store

section Link

variable {new : Address} {blank : Entry}
variable (separated : Separated child depth owned tables root) (bound : path.length < depth)
variable (reached : tableAt child tables root path = some table)
variable (vacant : child path.length (tables table index) = none)
variable (leads : child path.length entry = some new)
variable (fresh : ¬owned new) (leadsNowhere : ∀ level, child level blank = none)

include separated bound reached vacant leads fresh leadsNowhere

theorem tableAt_link {other : List Index} (otherBound : other.length ≤ depth) :
    tableAt child (TableTree.store (fill tables new blank) table index entry) root other =
      if other = index :: path then some new else tableAt child tables root other := by
  have tableOwned : owned table := separated.owned path table (by omega) reached
  induction other with
  | nil => rfl
  | cons position other ih =>
      rw [List.length_cons] at otherBound
      rw [tableAt, ih (by omega)]
      split_ifs with behind same same
      · have := congrArg List.length same
        rw [behind, List.length_cons, List.length_cons] at this
        omega
      · have newEntry : TableTree.store (fill tables new blank) table index entry new position =
            blank := by
          have different : new ≠ table := fun equal => fresh (equal ▸ tableOwned)
          simp [TableTree.store, fill, different]
        have closed : tableAt child tables root other = none := by
          rw [behind, tableAt, reached, Option.bind_some, vacant]
        rw [Option.bind_some, newEntry, leadsNowhere, tableAt, closed, Option.bind_none]
      · rcases List.cons.inj same with ⟨rfl, rfl⟩
        rw [reached, Option.bind_some, store_same, leads]
      · rw [tableAt]
        cases found : tableAt child tables root other with
        | none => rfl
        | some here =>
            have atOwned := separated.owned other here (by omega) found
            have old : here ≠ new := fun equal => fresh (equal ▸ atOwned)
            have elsewhere : ¬(here = table ∧ position = index) := by
              rintro ⟨rfl, rfl⟩
              rw [separated.apart other path here (by omega) (by omega) found reached] at same
              exact same rfl
            simp [TableTree.store, fill, old, elsewhere]

theorem entryAt_link {position : Index} {other : List Index} (otherBound : other.length ≤ depth) :
    entryAt child (TableTree.store (fill tables new blank) table index entry) root
        (position :: other) =
      if other = index :: path then some blank
      else if position :: other = index :: path then some entry
      else entryAt child tables root (position :: other) := by
  have tableOwned : owned table := separated.owned path table (by omega) reached
  have different : new ≠ table := fun equal => fresh (equal ▸ tableOwned)
  rw [entryAt, separated.tableAt_link bound reached vacant leads fresh leadsNowhere otherBound]
  split_ifs with behind same
  · simp [TableTree.store, fill, different]
  · rcases List.cons.inj same with ⟨rfl, rfl⟩
    simp [reached]
  · rw [entryAt]
    cases found : tableAt child tables root other with
    | none => rfl
    | some here =>
        have atOwned := separated.owned other here otherBound found
        have old : here ≠ new := fun equal => fresh (equal ▸ atOwned)
        have elsewhere : ¬(here = table ∧ position = index) := by
          rintro ⟨rfl, rfl⟩
          rw [separated.apart other path here otherBound (by omega) found reached] at same
          exact same rfl
        simp [TableTree.store, fill, old, elsewhere]

theorem link : Separated child depth (fun address => owned address ∨ address = new)
    (TableTree.store (fill tables new blank) table index entry) root := by
  have linked : ∀ {other : List Index}, other.length ≤ depth →
      tableAt child (TableTree.store (fill tables new blank) table index entry) root other =
        if other = index :: path then some new else tableAt child tables root other :=
    separated.tableAt_link bound reached vacant leads fresh leadsNowhere
  have notNew : ∀ other, other.length ≤ depth → tableAt child tables root other ≠ some new := by
    intro other otherBound found
    exact fresh (separated.owned other new otherBound found)
  constructor
  · intro other here otherBound found
    rw [linked otherBound] at found
    split_ifs at found with behind
    · exact Or.inr (Option.some.inj found).symm
    · exact Or.inl (separated.owned other here otherBound found)
  · intro first second here firstBound secondBound firstFound secondFound
    rw [linked firstBound] at firstFound
    rw [linked secondBound] at secondFound
    split_ifs at firstFound secondFound with isFirst isSecond isSecond
    · rw [isFirst, isSecond]
    · rw [← firstFound] at secondFound
      exact absurd secondFound (notNew second secondBound)
    · rw [← secondFound] at firstFound
      exact absurd firstFound (notNew first firstBound)
    · exact separated.apart first second here firstBound secondBound firstFound secondFound

end Link

end Separated

end TableTree
