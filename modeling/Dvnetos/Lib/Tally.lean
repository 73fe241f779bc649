import Mathlib.Algebra.BigOperators.Group.List.Basic
import Mathlib.Data.List.Nodup
import Mathlib.Data.List.Perm.Basic
import Mathlib.Tactic.Common

/-!
# Tallies

A tally is a list of records with keys and counts. A record that is entered raises the count of
the first record with its key, and is appended if there is none. So every key is in a tally once,
with the sum of the counts that have been entered for it, whatever their order was.
-/

universe u v w

/-- Records with a key, which stays, and a count, which can be raised. -/
structure Tally (Record : Type u) (Key : Type v) (Count : Type w) [AddCommMonoid Count] where
  key : Record → Key
  count : Record → Count
  raise : Record → Count → Record
  key_raise : ∀ record more, key (raise record more) = key record
  count_raise : ∀ record more, count (raise record more) = count record + more

namespace Tally

variable {Record : Type u} {Key : Type v} {Count : Type w} [AddCommMonoid Count] [DecidableEq Key]
variable (t : Tally Record Key Count)

/-- Count a record in a tally: with the first entry of the same key, or as a new one. -/
def enter (record : Record) : List Record → List Record
  | [] => [record]
  | first :: rest =>
      if t.key record = t.key first then t.raise first (t.count record) :: rest
      else first :: enter record rest

/-- Count records one after another. -/
def enterAll (tally records : List Record) : List Record :=
  records.foldl (fun tally record => t.enter record tally) tally

/-- The sum of the counts for a key. -/
def total (key : Key) (records : List Record) : Count :=
  ((records.filter (t.key · = key)).map t.count).sum

/-- What a record says. -/
def entry (record : Record) : Key × Count := (t.key record, t.count record)

variable {t} {tally records : List Record} {record : Record} {key : Key}

@[simp]
theorem total_nil : t.total key [] = 0 := rfl

theorem total_cons (first : Record) (rest : List Record) :
    t.total key (first :: rest) =
      (if t.key first = key then t.count first else 0) + t.total key rest := by
  by_cases found : t.key first = key <;> simp [total, found]

theorem total_append (first second : List Record) :
    t.total key (first ++ second) = t.total key first + t.total key second := by
  rw [total, List.filter_append, List.map_append, List.sum_append]
  rfl

theorem enter_of_absent (absent : ∀ other ∈ tally, t.key record ≠ t.key other) :
    t.enter record tally = tally ++ [record] := by
  induction tally with
  | nil => rfl
  | cons first rest ih =>
      rw [List.forall_mem_cons] at absent
      rw [enter, if_neg absent.1, ih absent.2, List.cons_append]

theorem enter_of_first {first rest : List Record} {found : Record}
    (same : t.key record = t.key found) (others : ∀ other ∈ first, t.key record ≠ t.key other) :
    t.enter record (first ++ found :: rest) =
      first ++ t.raise found (t.count record) :: rest := by
  induction first with
  | nil => exact if_pos same
  | cons head first ih =>
      rw [List.forall_mem_cons] at others
      rw [List.cons_append, enter, if_neg others.1, ih others.2, List.cons_append]

theorem keys_enter (record : Record) (tally : List Record) :
    (t.enter record tally).map t.key =
      if t.key record ∈ tally.map t.key then tally.map t.key
      else tally.map t.key ++ [t.key record] := by
  induction tally with
  | nil => simp [enter]
  | cons first rest ih =>
      rw [enter]
      by_cases same : t.key record = t.key first
      · simp [same, t.key_raise]
      · rw [if_neg same, List.map_cons, ih]
        by_cases later : t.key record ∈ rest.map t.key
        · rw [if_pos later, List.map_cons, if_pos (List.mem_cons_of_mem _ later)]
        · have absent : t.key record ∉ (first :: rest).map t.key := by
            rw [List.map_cons, List.mem_cons, not_or]
            exact ⟨same, later⟩
          rw [if_neg later, if_neg absent, List.map_cons, List.cons_append]

theorem nodup_enter (distinct : (tally.map t.key).Nodup) (record : Record) :
    ((t.enter record tally).map t.key).Nodup := by
  rw [keys_enter]
  split_ifs with present
  · exact distinct
  · rw [← List.concat_eq_append]
    exact List.Nodup.concat present distinct

theorem mem_keys_enter :
    key ∈ (t.enter record tally).map t.key ↔ key ∈ tally.map t.key ∨ key = t.key record := by
  rw [keys_enter]
  split_ifs with present
  · constructor
    · exact .inl
    · rintro (old | rfl)
      · exact old
      · exact present
  · rw [List.mem_append, List.mem_singleton]

theorem total_enter (record : Record) (tally : List Record) :
    t.total key (t.enter record tally) =
      t.total key tally + if t.key record = key then t.count record else 0 := by
  induction tally with
  | nil => rw [enter, total_cons, total_nil, add_zero, zero_add]
  | cons first rest ih =>
      rw [enter]
      by_cases same : t.key record = t.key first
      · rw [if_pos same, total_cons, total_cons, t.key_raise, t.count_raise, same]
        by_cases found : t.key first = key
        · simp only [found, if_true]
          exact add_right_comm _ _ _
        · simp only [found, if_false, add_zero]
      · rw [if_neg same, total_cons, total_cons, ih, add_assoc]

theorem nodup_enterAll (distinct : (tally.map t.key).Nodup) (records : List Record) :
    ((t.enterAll tally records).map t.key).Nodup := by
  induction records generalizing tally with
  | nil => exact distinct
  | cons record records ih => exact ih (nodup_enter distinct record)

/-- The keys of a tally are distinct. -/
theorem nodup_keys (records : List Record) : ((t.enterAll [] records).map t.key).Nodup := by
  apply nodup_enterAll
  exact List.nodup_nil

theorem mem_keys_enterAll :
    key ∈ (t.enterAll tally records).map t.key ↔
      key ∈ tally.map t.key ∨ key ∈ records.map t.key := by
  induction records generalizing tally with
  | nil => simp [enterAll]
  | cons record records ih =>
      have rest : key ∈ (t.enterAll (t.enter record tally) records).map t.key ↔
          key ∈ (t.enter record tally).map t.key ∨ key ∈ records.map t.key := ih
      rw [List.map_cons, List.mem_cons, ← or_assoc, ← mem_keys_enter]
      exact rest

theorem total_enterAll (tally records : List Record) :
    t.total key (t.enterAll tally records) = t.total key tally + t.total key records := by
  induction records generalizing tally with
  | nil => exact (add_zero _).symm
  | cons record records ih =>
      have rest : t.total key (t.enterAll (t.enter record tally) records) =
          t.total key (t.enter record tally) + t.total key records := ih _
      rw [total_cons, ← add_assoc, ← total_enter]
      exact rest

/-- Where keys are distinct, the total of a key is the count of its record. -/
theorem total_of_mem (distinct : (tally.map t.key).Nodup) (mem : record ∈ tally) :
    t.total (t.key record) tally = t.count record := by
  induction tally with
  | nil => cases mem
  | cons first rest ih =>
      rw [List.map_cons, List.nodup_cons] at distinct
      rw [total_cons]
      rcases List.mem_cons.mp mem with rfl | later
      · have absent : t.total (t.key record) rest = 0 := by
          have none : rest.filter (t.key · = t.key record) = [] := by
            rw [List.filter_eq_nil_iff]
            intro other inRest same
            exact distinct.1 (List.mem_map.mpr ⟨other, inRest, of_decide_eq_true same⟩)
          rw [total, none, List.map_nil, List.sum_nil]
        rw [if_pos rfl, absent, add_zero]
      · have other : t.key first ≠ t.key record := by
          intro same
          exact distinct.1 (List.mem_map.mpr ⟨record, later, same.symm⟩)
        rw [if_neg other, zero_add, ih distinct.2 later]

/-- What a tally of records says: each of the keys, with its total. -/
theorem mem_entries_enterAll {count : Count} :
    (key, count) ∈ (t.enterAll [] records).map t.entry ↔
      key ∈ records.map t.key ∧ count = t.total key records := by
  have distinct : ((t.enterAll [] records).map t.key).Nodup := nodup_keys records
  have total (key : Key) : t.total key (t.enterAll [] records) = t.total key records := by
    rw [total_enterAll, total_nil, zero_add]
  have keys : key ∈ (t.enterAll [] records).map t.key ↔ key ∈ records.map t.key := by
    rw [mem_keys_enterAll, List.map_nil, or_iff_right List.not_mem_nil]
  rw [← keys, ← total]
  constructor
  · intro mem
    rcases List.mem_map.mp mem with ⟨record, inTally, same⟩
    cases same
    exact ⟨List.mem_map_of_mem inTally, (total_of_mem distinct inTally).symm⟩
  · rintro ⟨mem, rfl⟩
    rcases List.mem_map.mp mem with ⟨record, inTally, rfl⟩
    refine List.mem_map.mpr ⟨record, inTally, ?_⟩
    rw [total_of_mem distinct inTally]
    rfl

theorem total_perm {others : List Record} (order : records.Perm others) :
    t.total key records = t.total key others :=
  ((order.filter _).map _).sum_eq

/-- The order in which records are entered does not matter. -/
theorem entries_perm {others : List Record} (order : records.Perm others) :
    ((t.enterAll [] records).map t.entry).Perm ((t.enterAll [] others).map t.entry) := by
  have distinct (records : List Record) : ((t.enterAll [] records).map t.entry).Nodup := by
    have keys : ((t.enterAll [] records).map t.key).Nodup := nodup_keys records
    apply List.Nodup.of_map Prod.fst
    rwa [List.map_map]
  rw [List.perm_ext_iff_of_nodup (distinct records) (distinct others)]
  rintro ⟨key, count⟩
  rw [mem_entries_enterAll, mem_entries_enterAll, total_perm order, (order.map t.key).mem_iff]

end Tally
