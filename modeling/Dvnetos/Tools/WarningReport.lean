import Dvnetos.Lib.Fallible
import Dvnetos.Tools.WarningCollector
import Mathlib.Algebra.Order.BigOperators.Group.List
import Mathlib.Algebra.Order.Ring.Nat
import Mathlib.Data.List.Induction

/-!
# The report of the warnings

This file models the JSON files of `WarningCollector`, `ProcessRunner` and
`ReportGenerator` in `tools/src/warningcollector/__init__.py`. A run that finds no
warning leaves the file of an earlier one, so a report is that of the latest runs
exactly if no such file is left. A run is given by the lines it reads from the two
pipes of the process.
-/

namespace Dvnetos.Warnings

/-- What `json` writes and reads. -/
inductive Json where
  | null
  | number (value : ℕ)
  | string (value : Text)
  | array (items : List Json)
  | object (members : List (Text × Json))

mutual

/-- `to_dict`, also of the notes, as `json.dump` applies it to them. -/
def toDict : WarningRec → Json
  | { file, line, column, level, message, count, extra, notes } =>
      .object [("file".toList, .string file), ("line".toList, .number line),
        ("column".toList, .number column), ("level".toList, .string level),
        ("message".toList, .string message), ("count".toList, .number count),
        ("extra".toList, extra.elim .null .string), ("notes".toList, .array (toDicts notes))]

/-- `to_dict` of a list of records. -/
def toDicts : List WarningRec → List Json
  | [] => []
  | warning :: warnings => toDict warning :: toDicts warnings

end

/-- The text of a member of an object. -/
def textAt (key : String) (members : List (Text × Json)) : Option Text :=
  match members.lookup key.toList with
  | some (.string value) => some value
  | _ => none

/-- The number of a member of an object. -/
def numberAt (key : String) (members : List (Text × Json)) : Option ℕ :=
  match members.lookup key.toList with
  | some (.number value) => some value
  | _ => none

/-- `data.get(key)` of a text or `None`. -/
def textOrNone (key : String) (members : List (Text × Json)) : Option (Option Text) :=
  match members.lookup key.toList with
  | none | some .null => some none
  | some (.string value) => some (some value)
  | _ => none

mutual

/-- `from_dict` of what `to_dict` can make. -/
def fromDict : Json → Option WarningRec
  | .object members => do
      let file ← textAt "file" members
      let line ← numberAt "line" members
      let column ← numberAt "column" members
      let level ← textAt "level" members
      let message ← textAt "message" members
      let count ← numberAt "count" members
      let extra ← textOrNone "extra" members
      let notes ← fromNotes members
      return { file, line, column, level, message, count, extra, notes }
  | _ => none

/-- The notes of `data.get('notes', [])`. -/
def fromNotes : List (Text × Json) → Option (List WarningRec)
  | [] => some []
  | (key, value) :: members =>
      if key = "notes".toList then fromItems value else fromNotes members

/-- The records that a list of notes stands for. -/
def fromItems : Json → Option (List WarningRec)
  | .array items => fromDicts items
  | _ => none

/-- The records that the items of a list stand for. -/
def fromDicts : List Json → Option (List WarningRec)
  | [] => some []
  | item :: items => do
      let warning ← fromDict item
      let warnings ← fromDicts items
      return warning :: warnings

end

mutual

/-- A record is read back as it was written. -/
theorem fromDict_toDict (warning : WarningRec) : fromDict (toDict warning) = some warning := by
  cases warning with
  | mk file line column level message count extra notes =>
    have fields : fromDict (toDict ⟨file, line, column, level, message, count, extra, notes⟩) =
        (fromDicts (toDicts notes)).bind fun notes =>
          some ⟨file, line, column, level, message, count, extra, notes⟩ := by
      cases extra <;> rfl
    rw [fields, fromDicts_toDicts notes, Option.bind_some]

theorem fromDicts_toDicts (warnings : List WarningRec) :
    fromDicts (toDicts warnings) = some warnings := by
  cases warnings with
  | nil => rfl
  | cons warning warnings =>
    have readFirst := fromDict_toDict warning
    have readRest := fromDicts_toDicts warnings
    simp [toDicts, fromDicts, readFirst, readRest]

end

/-- What the files hold, by their names. -/
abbrev Files := Text → Option Json

/-- A mode, as `link`, `compile` and `clang-tidy` are. -/
structure Mode where
  text : Text
  noDot : '.' ∉ text
  deriving DecidableEq

/-- An output file and the mode it has been made in. -/
structure Key where
  output : Text
  mode : Mode
  deriving DecidableEq

/-- `get_output_file() + '.' + mode + '.warnings.json'`. -/
def Key.jsonFile (key : Key) : Text :=
  key.output ++ '.' :: key.mode.text ++ ".warnings.json".toList

/-- The file that the compiler writes: the argument behind `-o`. -/
def getOutputFile : List Text → Option Text
  | arg :: next :: cmd => if arg = "-o".toList then some next else getOutputFile (next :: cmd)
  | _ => none

/-- A run of a command that has an output, by a runner of its own as in `main`. -/
structure Run where
  cmd : List Text
  key : Key
  stdout : List Text
  stderr : List Text
  compiles : getOutputFile cmd = some key.output

namespace WarningCollector

/-- `{'warnings': self.warnings}`. -/
def toJson (collector : WarningCollector) : Json :=
  .object [("warnings".toList, .array (toDicts collector.warnings))]

/-- `dump_to_json_file(file)`, which does nothing if there is no warning. -/
def dumpToJsonFile (collector : WarningCollector) (file : Text) (files : Files) : Files :=
  if 0 < collector.warnings.length then Function.update files file (some collector.toJson)
  else files

/-- Why a file of warnings cannot be loaded. -/
inductive LoadError where
  | fileNotFound
  | malformed
  deriving DecidableEq

/-- The warnings of a file. -/
def load (files : Files) (file : Text) : Except LoadError WarningCollector :=
  match files file with
  | none => .error .fileNotFound
  | some (.object members) =>
      match members.lookup "warnings".toList with
      | some (.array items) =>
          match fromDicts items with
          | some warnings => .ok { warnings }
          | none => .error .malformed
      | _ => .error .malformed
  | some _ => .error .malformed

end WarningCollector

open WarningCollector

namespace Run

/-- The collector of the runner, behind both calls of `merge`. -/
def collector (run : Run) : WarningCollector :=
  (WarningCollector.merge {} (ofLines run.stdout)).merge (ofLines run.stderr)

/-- The files after a run of the compiler. -/
def run (run : Run) (files : Files) : Files :=
  run.collector.dumpToJsonFile run.key.jsonFile files

/-- The run has found a warning. -/
def Warns (run : Run) : Prop := 0 < run.collector.warnings.length

instance (run : Run) : Decidable run.Warns := inferInstanceAs (Decidable (_ < _))

end Run

/-- The files after these runs, starting from none. -/
def runAll (runs : List Run) : Files := runs.foldl (fun files run => run.run files) fun _ => none

/-- `strip()`. -/
def strip (line : Text) : Text :=
  ((line.dropWhile isSpace).reverse.dropWhile isSpace).reverse

/-- `load_from_list` of a new `ReportGenerator`, over the lines of the list. -/
def loadFromList (files : Files) (lines : List Text) : Except LoadError WarningCollector :=
  lines.foldlM (fun collector line =>
    match load files (strip line) with
    | .ok other => .ok (collector.merge other)
    | .error .fileNotFound => .ok collector
    | .error error => .error error) {}

/-- The last run of an output in a mode. -/
def latest (runs : List Run) (key : Key) : Option Run :=
  (runs.filter fun run => run.key = key).getLast?

/-- The last of these runs that has found a warning. -/
def lastWarned (runs : List Run) (key : Key) : Option Run :=
  ((runs.filter fun run => run.key = key).filter fun run => run.Warns).getLast?

/-- What one run of each output and mode has found. -/
def reportOf (source : Key → Option Run) (keys : List Key) : WarningCollector :=
  keys.foldl (fun collector key =>
    match source key with
    | some run => collector.merge run.collector
    | none => collector) {}

/-- The report of the latest runs. -/
def latestReport (runs : List Run) (keys : List Key) : WarningCollector :=
  reportOf (latest runs) keys

/-- A text is split in one way at its last dot. -/
theorem split_at_dot {output output' mode mode' : Text} (noDot : '.' ∉ mode) (noDot' : '.' ∉ mode')
    (same : output ++ '.' :: mode = output' ++ '.' :: mode') : output = output' ∧ mode = mode' := by
  rcases List.append_eq_append_iff.mp same with ⟨middle, front, back⟩ | ⟨middle, front, back⟩
  · cases middle with
    | nil => simp_all
    | cons c middle =>
      simp only [List.cons_append, List.cons.injEq] at back
      exact absurd (by simp [back.2]) noDot
  · cases middle with
    | nil => simp_all
    | cons c middle =>
      simp only [List.cons_append, List.cons.injEq] at back
      exact absurd (by simp [back.2]) noDot'

theorem Key.jsonFile_injective : Function.Injective Key.jsonFile := by
  rintro ⟨output, mode, noDot⟩ ⟨output', mode', noDot'⟩ same
  rcases split_at_dot noDot noDot' (List.append_cancel_right same) with ⟨rfl, rfl⟩
  rfl

theorem runAll_jsonFile (runs : List Run) (key : Key) :
    runAll runs key.jsonFile = (lastWarned runs key).map fun run => run.collector.toJson := by
  induction runs using List.reverseRecOn with
  | nil => rfl
  | append_singleton runs run ih =>
    have step : runAll (runs ++ [run]) = run.run (runAll runs) := by
      simp [runAll]
    rw [step, Run.run, dumpToJsonFile]
    by_cases warns : run.Warns
    · rw [if_pos (show 0 < run.collector.warnings.length from warns)]
      by_cases same : run.key = key
      · simp [lastWarned, same, warns]
      · have other : key.jsonFile ≠ run.key.jsonFile :=
          fun equal => same (Key.jsonFile_injective equal).symm
        rw [Function.update_of_ne other, ih]
        simp [lastWarned, same]
    · rw [if_neg (show ¬0 < run.collector.warnings.length from warns), ih]
      by_cases same : run.key = key <;> simp [lastWarned, same, warns]

theorem load_runAll (runs : List Run) (key : Key) :
    load (runAll runs) key.jsonFile =
      match lastWarned runs key with
      | none => .error .fileNotFound
      | some run => .ok { warnings := run.collector.warnings } := by
  rw [load, runAll_jsonFile]
  cases lastWarned runs key with
  | none => rfl
  | some run =>
    have warnings := fromDicts_toDicts run.collector.warnings
    simp only [toJson, Option.map_some]
    change (match fromDicts (toDicts run.collector.warnings) with
      | some warnings => Except.ok { warnings : WarningCollector }
      | none => Except.error LoadError.malformed) = _
    rw [warnings]

/-- The loader merges what the last runs with warnings have found. -/
theorem loadFromList_runAll (runs : List Run) {keys : List Key} {lines : List Text}
    (named : lines.map strip = keys.map Key.jsonFile) :
    loadFromList (runAll runs) lines = .ok (reportOf (lastWarned runs) keys) := by
  simp only [loadFromList, reportOf]
  generalize ({} : WarningCollector) = collector
  induction lines generalizing keys collector with
  | nil =>
    cases keys with
    | nil => rfl
    | cons key keys => cases named
  | cons line lines ih =>
    cases keys with
    | nil => cases named
    | cons key keys =>
      simp only [List.map_cons, List.cons.injEq] at named
      rw [List.foldlM_cons, List.foldl_cons, named.1, load_runAll]
      cases lastWarned runs key with
      | none => exact ih named.2 collector
      | some run => exact ih named.2 (collector.merge run.collector)

theorem Run.counted (run : Run) : run.collector.Counted := by
  have none : ({} : WarningCollector).Counted := fun _ mem => absurd mem List.not_mem_nil
  exact (none.merge (counted_ofLines run.stdout)).merge (counted_ofLines run.stderr)

theorem Run.warns_iff (run : Run) :
    run.Warns ↔ 0 < run.collector.countOf (fun _ => true) := by
  rw [run.counted.countOf_pos_iff, Warns, List.length_pos_iff]

/-- The warnings of a kind that a run has found. -/
def foundBy (kind : WarningRec → Bool) (run : Option Run) : ℕ :=
  run.elim 0 fun run => run.collector.countOf kind

/-- In a report every kind of warnings has the sum of its counts. -/
theorem countOf_reportOf {kind : WarningRec → Bool}
    (respects : ∀ first second : WarningRec, first.Same second → kind first = kind second)
    (source : Key → Option Run) (keys : List Key) :
    (reportOf source keys).countOf kind = (keys.map fun key => foundBy kind (source key)).sum := by
  have run : ∀ collector : WarningCollector,
      (keys.foldl (fun collector key =>
        match source key with
        | some run => collector.merge run.collector
        | none => collector) collector).countOf kind =
        collector.countOf kind + (keys.map fun key => foundBy kind (source key)).sum := by
    induction keys with
    | nil => exact fun _ => rfl
    | cons key keys ih =>
      intro collector
      rw [List.foldl_cons, ih, List.map_cons, List.sum_cons]
      cases source key with
      | none => simp [foundBy]
      | some run =>
        simp only [countOf_merge respects, foundBy, Option.elim_some]
        omega
  have total := run {}
  simpa [reportOf, countOf] using total

/-- A last run with warnings is the last one of those with warnings. -/
theorem lastWarned_of_warns {runs : List Run} {key : Key} {last : Run}
    (isLast : latest runs key = some last) (warns : last.Warns) :
    lastWarned runs key = some last := by
  rcases List.getLast?_eq_some_iff.mp isLast with ⟨front, split⟩
  rw [lastWarned, split]
  simp [warns]

theorem lastWarned_eq_none_iff {runs : List Run} {key : Key} :
    lastWarned runs key = none ↔ ∀ run ∈ runs, run.key = key → ¬run.Warns := by
  simp only [lastWarned, List.getLast?_eq_none_iff, List.filter_eq_nil_iff, List.mem_filter,
    decide_eq_true_eq, and_imp]

theorem lastWarned_warns {runs : List Run} {key : Key} {last : Run}
    (isLast : lastWarned runs key = some last) : last.Warns := by
  have mem := List.mem_of_getLast? isLast
  simpa using (List.mem_filter.mp mem).2

/-- A run that warns is not followed by a last run without warnings. -/
def Renewed (runs : List Run) (key : Key) : Prop :=
  ∀ run ∈ runs, run.key = key → run.Warns → ∃ last ∈ latest runs key, last.Warns

instance (runs : List Run) (key : Key) : Decidable (Renewed runs key) :=
  inferInstanceAs (Decidable (∀ run ∈ runs, run.key = key → run.Warns →
    ∃ last ∈ latest runs key, last.Warns))

theorem merge_of_not_warns {run : Run} (clean : ¬run.Warns) (collector : WarningCollector) :
    collector.merge run.collector = collector := by
  have empty : run.collector.warnings = [] := by
    simpa [Run.Warns] using clean
  simp [merge, empty]

/-- A file holds what the last run has found, or nothing if that is nothing. -/
theorem Renewed.merge_eq {runs : List Run} {key : Key} (renewed : Renewed runs key)
    (collector : WarningCollector) :
    (match lastWarned runs key with
      | some run => collector.merge run.collector
      | none => collector) =
      match latest runs key with
      | some run => collector.merge run.collector
      | none => collector := by
  cases isLast : latest runs key with
  | none =>
    have noWarning : lastWarned runs key = none := by
      apply lastWarned_eq_none_iff.mpr
      intro run mem same warns
      rcases renewed run mem same warns with ⟨last, found, -⟩
      rw [isLast] at found
      cases found
    rw [noWarning]
  | some last =>
    by_cases warns : last.Warns
    · rw [lastWarned_of_warns isLast warns]
    · have noWarning : lastWarned runs key = none := by
        apply lastWarned_eq_none_iff.mpr
        intro run mem same runWarns
        rcases renewed run mem same runWarns with ⟨other, found, otherWarns⟩
        rw [isLast] at found
        cases found
        exact warns otherWarns
      rw [noWarning]
      exact (merge_of_not_warns warns collector).symm

theorem foundBy_of_not_warns {run : Run} (clean : ¬run.Warns) :
    foundBy (fun _ => true) (some run) = 0 := by
  rw [run.warns_iff] at clean
  simpa [foundBy] using clean

theorem foundBy_latest_le (runs : List Run) (key : Key) :
    foundBy (fun _ => true) (latest runs key) ≤ foundBy (fun _ => true) (lastWarned runs key) := by
  cases isLast : latest runs key with
  | none => exact Nat.zero_le _
  | some last =>
    by_cases warns : last.Warns
    · rw [lastWarned_of_warns isLast warns]
    · rw [foundBy_of_not_warns warns]
      exact Nat.zero_le _

/-- The file of an earlier run adds its warnings to the report. -/
theorem foundBy_latest_lt {runs : List Run} {key : Key} (stale : ¬Renewed runs key) :
    foundBy (fun _ => true) (latest runs key) < foundBy (fun _ => true) (lastWarned runs key) := by
  simp only [Renewed, not_forall] at stale
  rcases stale with ⟨run, mem, same, warns, noLast⟩
  have none_of_latest : foundBy (fun _ => true) (latest runs key) = 0 := by
    cases isLast : latest runs key with
    | none => rfl
    | some last => exact foundBy_of_not_warns fun lastWarns => noLast ⟨last, isLast, lastWarns⟩
  cases stored : lastWarned runs key with
  | none => exact absurd warns (lastWarned_eq_none_iff.mp stored run mem same)
  | some old =>
    rw [none_of_latest]
    exact old.warns_iff.mp (lastWarned_warns stored)

/--
The report of a list of files is that of the latest runs exactly if no listed output has had
a run with warnings and then a last run without any.
-/
theorem loadFromList_latest_iff (runs : List Run) {keys : List Key} {lines : List Text}
    (named : lines.map strip = keys.map Key.jsonFile) :
    loadFromList (runAll runs) lines = .ok (latestReport runs keys) ↔
      ∀ key ∈ keys, Renewed runs key := by
  rw [loadFromList_runAll runs named, Except.ok.injEq]
  constructor
  · intro same key mem
    by_contra stale
    have counts := congrArg (countOf fun _ => true) same
    rw [latestReport, countOf_reportOf (fun _ _ _ => rfl),
      countOf_reportOf (fun _ _ _ => rfl)] at counts
    have less := List.sum_lt_sum (l := keys) _ _ (fun key _ => foundBy_latest_le runs key)
      ⟨key, mem, foundBy_latest_lt stale⟩
    exact less.ne counts.symm
  · intro renewed
    simp only [latestReport, reportOf]
    apply List.foldl_ext
    intro collector key mem
    exact (renewed key mem).merge_eq collector

/-- A run of a compiler that makes `a.o` and prints these lines to `stderr`. -/
def compileA (stderr : List String) : Run where
  cmd := ["cc".toList, "-o".toList, "a.o".toList]
  key := ⟨"a.o".toList, ⟨"compile".toList, by decide⟩⟩
  stdout := []
  stderr := stderr.map String.toList
  compiles := rfl

/-- The output of a run with one warning. -/
def unusedVariable : List String := ["a.c:3:7: warning: unused variable 'x'\n"]

/-- A list of one file. -/
def listOfA : List Text := ["a.o.compile.warnings.json\n".toList]

/-- After the warning has come back, the report is that of the last run. -/
theorem loadFromList_latest_again :
    loadFromList (runAll [compileA unusedVariable, compileA [], compileA unusedVariable]) listOfA =
      .ok (latestReport [compileA unusedVariable, compileA [], compileA unusedVariable]
        [(compileA []).key]) := by
  apply (loadFromList_latest_iff _ (show listOfA.map strip = [(compileA []).key].map Key.jsonFile
    by decide)).mpr
  decide +kernel

/-- After the warning has been fixed, the report still has it. -/
theorem loadFromList_keeps_fixedWarning :
    listOfA.map strip = [(compileA []).key].map Key.jsonFile ∧
      (∃ report, loadFromList (runAll [compileA unusedVariable, compileA []]) listOfA = .ok report ∧
        report.warnings.length = 1) ∧
      (latestReport [compileA unusedVariable, compileA []] [(compileA []).key]).warnings.length =
        0 := by
  refine ⟨by decide, ?_, by decide +kernel⟩
  refine ⟨_, loadFromList_runAll _ (show listOfA.map strip = [(compileA []).key].map Key.jsonFile
    by decide), ?_⟩
  decide +kernel

end Dvnetos.Warnings
