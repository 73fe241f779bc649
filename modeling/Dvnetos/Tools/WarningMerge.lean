import Dvnetos.Tools.WarningCollector
import Dvnetos.Lib.Tally

/-!
# Merging by reference

`merge` appends the records of the other collector themselves and raises counts in place. So a
record can be in both collectors, and what is merged later can be what has been raised before.
If no record comes twice, merging is a tally of the values that the records had at first.
-/

namespace Dvnetos.Warnings

namespace WarningRec

/-- What `__eq__` compares. -/
def key (warning : WarningRec) : Text × ℕ × ℕ × Text × Text :=
  (warning.file, warning.line, warning.column, warning.level, warning.message)

theorem same_iff_key (warning other : WarningRec) :
    warning.Same other ↔ warning.key = other.key := by
  simp only [Same, key, Prod.mk.injEq]

theorem key_addToCount (warning : WarningRec) (num : ℕ) :
    (warning.addToCount num).key = warning.key := rfl

theorem count_addToCount (warning : WarningRec) (num : ℕ) :
    (warning.addToCount num).count = warning.count + num := rfl

/-- Merging counts records by their keys. -/
def tally : Tally WarningRec (Text × ℕ × ℕ × Text × Text) ℕ where
  key := key
  count := count
  raise := addToCount
  key_raise := key_addToCount
  count_raise := count_addToCount

end WarningRec

open WarningRec (tally)

theorem addWarning_eq_enter (warnings : List WarningRec) (w : WarningRec) :
    WarningCollector.addWarning warnings w = tally.enter w warnings := by
  induction warnings with
  | nil => rfl
  | cons w2 rest ih =>
      rw [WarningCollector.addWarning, Tally.enter, ih]
      exact if_congr (w.same_iff_key w2) rfl rfl

theorem foldl_addWarning (warnings others : List WarningRec) :
    others.foldl WarningCollector.addWarning warnings = tally.enterAll warnings others := by
  rw [Tally.enterAll]
  congr 1
  funext warnings w
  exact addWarning_eq_enter warnings w

theorem countOf_same (warning : WarningRec) (warnings : List WarningRec) :
    WarningCollector.countOf (fun w => warning.Same w) { warnings } =
      tally.total warning.key warnings := by
  rw [WarningCollector.countOf, Tally.total]
  congr 2
  apply List.filter_congr
  intro w _
  exact decide_eq_decide.mpr ((warning.same_iff_key w).trans eq_comm)

/-- A collector that others are merged into, and the record behind every reference. -/
structure Target where
  objects : ℕ → WarningRec
  warnings : List ℕ

namespace Target

/-- The loop over the own warnings, and the `append` behind it. -/
def mergeRecord (target : Target) (w : ℕ) : Target :=
  match target.warnings.find? fun w2 => (target.objects w).Same (target.objects w2) with
  | some w2 =>
      { target with
        objects := Function.update target.objects w2
          ((target.objects w2).addToCount (target.objects w).count) }
  | none => { target with warnings := target.warnings ++ [w] }

/-- `merge` of another collector, which holds these references. -/
def merge (target : Target) (other : List ℕ) : Target := other.foldl mergeRecord target

/-- Collectors merged one after another into an empty one. -/
def mergeAll (objects : ℕ → WarningRec) (collectors : List (List ℕ)) : Target :=
  collectors.foldl merge { objects, warnings := [] }

/-- The records of the collector as they are now. -/
def values (target : Target) : List WarningRec := target.warnings.map target.objects

/-- The keys of the records that have been merged. -/
def keys (target : Target) : List (Text × ℕ × ℕ × Text × Text) :=
  target.values.map WarningRec.key

theorem keys_eq (target : Target) : target.keys = target.values.map tally.key := rfl

theorem mergeAll_eq_merge (objects : ℕ → WarningRec) (collectors : List (List ℕ)) :
    mergeAll objects collectors = merge { objects, warnings := [] } collectors.flatten :=
  List.foldl_flatten.symm

variable {target : Target} {w : ℕ}

theorem mergeRecord_cases (target : Target) (w : ℕ) :
    (∃ first w2 rest, target.warnings = first ++ w2 :: rest ∧
      (target.objects w).Same (target.objects w2) ∧
      (∀ other ∈ first, ¬(target.objects w).Same (target.objects other)) ∧
      target.mergeRecord w =
        { target with
          objects := Function.update target.objects w2
            ((target.objects w2).addToCount (target.objects w).count) }) ∨
    ((∀ other ∈ target.warnings, ¬(target.objects w).Same (target.objects other)) ∧
      target.mergeRecord w = { target with warnings := target.warnings ++ [w] }) := by
  cases found : target.warnings.find? fun w2 => (target.objects w).Same (target.objects w2) with
  | some w2 =>
      rcases List.find?_eq_some_iff_append.mp found with ⟨same, first, rest, split, others⟩
      refine .inl ⟨first, w2, rest, split, of_decide_eq_true same, ?_, ?_⟩
      · intro other mem
        simpa using others other mem
      · rw [mergeRecord, found]
  | none =>
      refine .inr ⟨?_, ?_⟩
      · intro other mem
        simpa using List.find?_eq_none.mp found other mem
      · rw [mergeRecord, found]

/-- Merging keeps what is compared. -/
theorem key_mergeRecord (target : Target) (w reference : ℕ) :
    ((target.mergeRecord w).objects reference).key = (target.objects reference).key := by
  rcases mergeRecord_cases target w with ⟨_, w2, _, -, -, -, after⟩ | ⟨-, after⟩
  · rw [after]
    by_cases raised : reference = w2
    · subst raised
      simp only [Function.update_self, WarningRec.key_addToCount]
    · simp only [Function.update_of_ne raised]
  · rw [after]

/-- Only records of the collector are raised. -/
theorem objects_mergeRecord {reference : ℕ} (outside : reference ∉ target.warnings) (w : ℕ) :
    (target.mergeRecord w).objects reference = target.objects reference := by
  rcases mergeRecord_cases target w with ⟨first, w2, rest, split, -, -, after⟩ | ⟨-, after⟩
  · have other : reference ≠ w2 := by
      rintro rfl
      rw [split] at outside
      exact outside (List.mem_append_right _ (List.mem_cons_self ..))
    rw [after]
    exact Function.update_of_ne other _ _
  · rw [after]

theorem mem_warnings_mergeRecord {reference : ℕ}
    (mem : reference ∈ (target.mergeRecord w).warnings) :
    reference ∈ target.warnings ∨ reference = w := by
  rcases mergeRecord_cases target w with ⟨_, _, _, -, -, -, after⟩ | ⟨-, after⟩
  · rw [after] at mem
    exact .inl mem
  · rw [after] at mem
    rcases List.mem_append.mp mem with old | new
    · exact .inl old
    · exact .inr (List.mem_singleton.mp new)

theorem nodup_mergeRecord (distinct : target.warnings.Nodup) (w : ℕ) :
    (target.mergeRecord w).warnings.Nodup := by
  rcases mergeRecord_cases target w with ⟨_, _, _, -, -, -, after⟩ | ⟨absent, after⟩
  · rwa [after]
  · rw [after]
    have new : w ∉ target.warnings := fun mem => absent w mem ⟨rfl, rfl, rfl, rfl, rfl⟩
    rw [← List.concat_eq_append]
    exact List.Nodup.concat new distinct

/-- In the values, the record is entered with the count that it has now. -/
theorem values_mergeRecord (distinct : target.warnings.Nodup) (w : ℕ) :
    (target.mergeRecord w).values = tally.enter (target.objects w) target.values := by
  rcases mergeRecord_cases target w with ⟨first, w2, rest, split, same, others, after⟩ |
    ⟨absent, after⟩
  · rw [split, List.nodup_middle, List.nodup_cons, List.mem_append, not_or] at distinct
    have kept (references : List ℕ) (outside : w2 ∉ references) :
        references.map (target.mergeRecord w).objects = references.map target.objects := by
      apply List.map_congr_left
      intro reference mem
      have other : reference ≠ w2 := by
        rintro rfl
        exact outside mem
      rw [after]
      exact Function.update_of_ne other _ _
    have raised : (target.mergeRecord w).objects w2 =
        (target.objects w2).addToCount (target.objects w).count := by
      rw [after]
      exact Function.update_self ..
    have warnings : (target.mergeRecord w).warnings = first ++ w2 :: rest := by
      rw [after]
      exact split
    have different : ∀ other ∈ first.map target.objects,
        tally.key (target.objects w) ≠ tally.key other := by
      intro other mem equal
      rcases List.mem_map.mp mem with ⟨reference, inFirst, rfl⟩
      exact others reference inFirst ((WarningRec.same_iff_key _ _).mpr equal)
    have before : target.values =
        first.map target.objects ++ target.objects w2 :: rest.map target.objects := by
      rw [values, split, List.map_append, List.map_cons]
    rw [before, Tally.enter_of_first ((WarningRec.same_iff_key _ _).mp same) different, values,
      warnings, List.map_append, List.map_cons, kept first distinct.1.1, kept rest distinct.1.2,
      raised]
    rfl
  · have different : ∀ other ∈ target.values, tally.key (target.objects w) ≠ tally.key other := by
      intro other mem equal
      rcases List.mem_map.mp mem with ⟨reference, inWarnings, rfl⟩
      exact absent reference inWarnings ((WarningRec.same_iff_key _ _).mpr equal)
    rw [after, Tally.enter_of_absent different]
    exact List.map_append

/-- A run over references that are in no other place. -/
theorem values_merge {other : List ℕ} (distinct : target.warnings.Nodup) (once : other.Nodup)
    (apart : ∀ w ∈ other, w ∉ target.warnings) :
    (target.merge other).values =
      tally.enterAll target.values (other.map target.objects) := by
  induction other generalizing target with
  | nil => rfl
  | cons w other ih =>
      rw [List.nodup_cons] at once
      have later : ∀ reference ∈ other, reference ∉ (target.mergeRecord w).warnings := by
        intro reference mem inside
        rcases mem_warnings_mergeRecord inside with old | rfl
        · exact apart reference (List.mem_cons_of_mem _ mem) old
        · exact once.1 mem
      have kept : other.map (target.mergeRecord w).objects = other.map target.objects := by
        apply List.map_congr_left
        intro reference mem
        exact objects_mergeRecord (apart reference (List.mem_cons_of_mem _ mem)) w
      have rest := ih (nodup_mergeRecord distinct w) once.2 later
      rw [kept, values_mergeRecord distinct] at rest
      exact rest

theorem keys_merge (distinct : target.warnings.Nodup) (nodup : target.keys.Nodup)
    (other : List ℕ) :
    (target.merge other).keys.Nodup ∧
      ∀ key, key ∈ (target.merge other).keys ↔
        key ∈ target.keys ∨ key ∈ other.map fun w => (target.objects w).key := by
  induction other generalizing target with
  | nil => exact ⟨nodup, fun key => (or_iff_left List.not_mem_nil).symm⟩
  | cons w other ih =>
      have one : (target.mergeRecord w).keys.Nodup := by
        rw [keys_eq, values_mergeRecord distinct]
        exact Tally.nodup_enter (t := tally) nodup _
      have present (key : Text × ℕ × ℕ × Text × Text) :
          key ∈ (target.mergeRecord w).keys ↔ key ∈ target.keys ∨ key = (target.objects w).key := by
        rw [keys_eq, values_mergeRecord distinct]
        exact Tally.mem_keys_enter
      have rest := ih (nodup_mergeRecord distinct w) one
      simp only [key_mergeRecord, present] at rest
      refine ⟨rest.1, fun key => (rest.2 key).trans ?_⟩
      rw [List.map_cons, List.mem_cons, or_assoc]

section AllCollectors

variable (objects : ℕ → WarningRec)

/-- Without shared records, merging collectors is merging their values. -/
theorem values_mergeAll {collectors : List (List ℕ)} (once : collectors.flatten.Nodup) :
    (mergeAll objects collectors).values =
      tally.enterAll [] (collectors.flatten.map objects) := by
  rw [mergeAll_eq_merge]
  exact values_merge List.nodup_nil once fun w _ => List.not_mem_nil

theorem total_flatten (key : Text × ℕ × ℕ × Text × Text) (collectors : List (List ℕ)) :
    tally.total key (collectors.flatten.map objects) =
      (collectors.map fun other => tally.total key (other.map objects)).sum := by
  induction collectors with
  | nil => rfl
  | cons other collectors ih =>
      rw [List.flatten_cons, List.map_append, Tally.total_append, ih, List.map_cons, List.sum_cons]

/--
Every kind of warning is in the result exactly once, and with the sum of the counts that the
records have had, whatever the order is, if no record is in two places.
-/
theorem mergeAll_counts (collectors : List (List ℕ)) :
    (mergeAll objects collectors).keys.Nodup ∧
      (∀ key, key ∈ (mergeAll objects collectors).keys ↔
        ∃ other ∈ collectors, ∃ w ∈ other, (objects w).key = key) ∧
      (collectors.flatten.Nodup →
        (∀ warning ∈ (mergeAll objects collectors).values,
          warning.count = (collectors.map fun other =>
            WarningCollector.countOf (fun w => warning.Same w)
              { warnings := other.map objects }).sum) ∧
          ∀ order : List (List ℕ), order.Perm collectors →
            ((mergeAll objects order).values.map fun w => (w.key, w.count)).Perm
              ((mergeAll objects collectors).values.map fun w => (w.key, w.count))) := by
  have keys := @keys_merge { objects, warnings := [] } List.nodup_nil List.nodup_nil
    collectors.flatten
  rw [← mergeAll_eq_merge] at keys
  refine ⟨keys.1, fun key => ?_, fun once => ⟨fun warning mem => ?_, fun order perm => ?_⟩⟩
  · rw [keys.2]
    simp [Target.keys, values]
  · rw [values_mergeAll objects once] at mem
    have entry : tally.entry warning ∈ (tally.enterAll [] (collectors.flatten.map objects)).map
        tally.entry := List.mem_map_of_mem mem
    have count := (Tally.mem_entries_enterAll.mp entry).2
    simp only [countOf_same]
    rw [← total_flatten]
    exact count
  · have orderOnce : order.flatten.Nodup := (perm.flatten.nodup_iff).mpr once
    rw [values_mergeAll objects once, values_mergeAll objects orderOnce]
    exact Tally.entries_perm (t := tally) (perm.flatten.map objects)

end AllCollectors

/-- Four records, the first three of which are equal. -/
def fourRecords (reference : ℕ) : WarningRec where
  file := "a.c".toList
  line := if reference < 3 then 1 else 2
  column := 1
  level := "warning".toList
  message := "unused".toList
  count := reference + 1

/-- Two collectors with equal records in one of them and in both. -/
theorem mergeAll_counts_two :
    (∀ warning ∈ (mergeAll fourRecords [[0, 1], [3, 2]]).values,
      warning.count = ([[0, 1], [3, 2]].map fun other =>
        WarningCollector.countOf (fun w => warning.Same w)
          { warnings := other.map fourRecords }).sum) ∧
      ∀ order : List (List ℕ), order.Perm [[0, 1], [3, 2]] →
        ((mergeAll fourRecords order).values.map fun w => (w.key, w.count)).Perm
          ((mergeAll fourRecords [[0, 1], [3, 2]]).values.map fun w => (w.key, w.count)) :=
  (mergeAll_counts fourRecords [[0, 1], [3, 2]]).2.2 (by decide)

/-- A collector that is merged three times: its record is raised by what it has been raised to. -/
theorem mergeAll_shared :
    (mergeAll fourRecords [[0], [0], [0]]).values.map (·.count) = [4] ∧
      ([[0], [0], [0]].map fun other =>
        WarningCollector.countOf (fun w => (fourRecords 0).Same w)
          { warnings := other.map fourRecords }).sum = 3 := by
  decide

/-- The objects after a `load`, which makes a new one of every record. -/
def load (objects : ℕ → WarningRec) (size : ℕ) (records : List WarningRec) (reference : ℕ) :
    WarningRec :=
  if reference < size then objects reference
  else records[reference - size]?.getD (objects reference)

/-- `load_and_merge`, with the number of references in use. -/
def loadAndMerge (state : Target × ℕ) (records : List WarningRec) : Target × ℕ :=
  ({ state.1 with objects := load state.1.objects state.2 records }.merge
      (List.range' state.2 records.length),
    state.2 + records.length)

theorem map_load (objects : ℕ → WarningRec) (size : ℕ) (records : List WarningRec) :
    (List.range' size records.length).map (load objects size records) = records := by
  apply List.ext_getElem
  · rw [List.length_map, List.length_range']
  · intro index inRange inRecords
    have behind : ¬size + index < size := by omega
    rw [List.getElem_map, List.getElem_range', Nat.one_mul, load, if_neg behind,
      Nat.add_sub_cancel_left, List.getElem?_eq_getElem inRecords, Option.getD_some]

/-- The references of a collector are different ones, and all of them are in use. -/
structure Sound (target : Target) (size : ℕ) : Prop where
  distinct : target.warnings.Nodup
  below : ∀ w ∈ target.warnings, w < size

theorem nodup_merge (distinct : target.warnings.Nodup) (other : List ℕ) :
    (target.merge other).warnings.Nodup := by
  induction other generalizing target with
  | nil => exact distinct
  | cons w other ih => exact ih (nodup_mergeRecord distinct w)

theorem mem_warnings_merge {reference : ℕ} {other : List ℕ}
    (mem : reference ∈ (target.merge other).warnings) :
    reference ∈ target.warnings ∨ reference ∈ other := by
  induction other generalizing target with
  | nil => exact .inl mem
  | cons w other ih =>
      rw [List.mem_cons]
      rcases ih mem with one | later
      · rcases mem_warnings_mergeRecord one with old | new
        · exact .inl old
        · exact .inr (.inl new)
      · exact .inr (.inr later)

theorem Sound.loadAndMerge {size : ℕ} (sound : target.Sound size) (records : List WarningRec) :
    (loadAndMerge (target, size) records).1.Sound (size + records.length) ∧
      (loadAndMerge (target, size) records).1.values =
        tally.enterAll target.values records := by
  have unused : ∀ w ∈ List.range' size records.length, w ∉ target.warnings := by
    intro w mem inside
    have used := sound.below w inside
    rw [List.mem_range'_1] at mem
    omega
  let loaded : Target := { target with objects := load target.objects size records }
  have distinct : loaded.warnings.Nodup := sound.distinct
  refine ⟨⟨nodup_merge distinct _, fun w mem => ?_⟩, ?_⟩
  · rcases mem_warnings_merge mem with old | new
    · have used := sound.below w old
      omega
    · rw [List.mem_range'_1] at new
      exact new.2
  · have kept : loaded.values = target.values := by
      apply List.map_congr_left
      intro w mem
      exact if_pos (sound.below w mem)
    have read : (List.range' size records.length).map loaded.objects = records :=
      map_load target.objects size records
    have merged := values_merge distinct List.nodup_range' unused
    rw [kept, read] at merged
    exact merged

/-- The records of a file are new ones, so that loading and merging is merging values. -/
theorem values_loadAndMerge (objects : ℕ → WarningRec) (files : List (List WarningRec)) :
    (files.foldl loadAndMerge ({ objects, warnings := [] }, 0)).1.values =
      (files.foldl (fun collector records =>
        WarningCollector.merge collector { warnings := records }) {}).warnings := by
  have run (state : Target × ℕ) (collector : WarningCollector) (sound : state.1.Sound state.2)
      (same : state.1.values = collector.warnings) :
      (files.foldl loadAndMerge state).1.values =
        (files.foldl (fun collector records =>
          WarningCollector.merge collector { warnings := records }) collector).warnings := by
    induction files generalizing state collector with
    | nil => exact same
    | cons records files ih =>
        rcases sound.loadAndMerge records with ⟨after, values⟩
        refine ih _ _ after ?_
        rw [values, same, ← foldl_addWarning]
        rfl
  exact run _ {} ⟨List.nodup_nil, fun _ mem => absurd mem List.not_mem_nil⟩ rfl

end Target

end Dvnetos.Warnings
