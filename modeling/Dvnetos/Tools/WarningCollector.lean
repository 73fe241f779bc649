import Mathlib.Algebra.Order.Ring.Nat
import Mathlib.Data.List.Basic
import Mathlib.Tactic.Common

/-!
# Compiler warnings

This file models `WarningRec` and the collecting and merging of `WarningCollector` in
`tools/src/warningcollector/__init__.py`. The attributes that refer to a record hold its
position, since the record they refer to is in the list of the collector. What is only
printed or written as Markdown is left out.
-/

namespace Dvnetos.Warnings

/-- A text, by its characters. -/
abbrev Text := List Char

/-- The characters of `\s`, which are also those that `strip` removes. -/
def isSpace (c : Char) : Bool :=
  (0x09 ≤ c.toNat && c.toNat ≤ 0x0D) || (0x1C ≤ c.toNat && c.toNat ≤ 0x20) ||
    (0x2000 ≤ c.toNat && c.toNat ≤ 0x200A) ||
    [0x85, 0xA0, 0x1680, 0x2028, 0x2029, 0x202F, 0x205F, 0x3000].contains c.toNat

/-- The zeros of `\d`. Behind each of them stand the other nine digits of its script. -/
def zeros : List ℕ :=
  [0x30, 0x660, 0x6F0, 0x7C0, 0x966, 0x9E6, 0xA66, 0xAE6, 0xB66, 0xBE6, 0xC66, 0xCE6, 0xD66,
    0xDE6, 0xE50, 0xED0, 0xF20, 0x1040, 0x1090, 0x17E0, 0x1810, 0x1946, 0x19D0, 0x1A80, 0x1A90,
    0x1B50, 0x1BB0, 0x1C40, 0x1C50, 0xA620, 0xA8D0, 0xA900, 0xA9D0, 0xA9F0, 0xAA50, 0xABF0,
    0xFF10, 0x104A0, 0x10D30, 0x11066, 0x110F0, 0x11136, 0x111D0, 0x112F0, 0x11450, 0x114D0,
    0x11650, 0x116C0, 0x11730, 0x118E0, 0x11950, 0x11C50, 0x11D50, 0x11DA0, 0x16A60, 0x16AC0,
    0x16B50, 0x1D7CE, 0x1D7D8, 0x1D7E2, 0x1D7EC, 0x1D7F6, 0x1E140, 0x1E2F0, 0x1E950, 0x1FBF0]

/-- The value of a digit, whichever script it is from. -/
def digitValue (c : Char) : Option ℕ :=
  (zeros.find? fun first => first ≤ c.toNat && c.toNat < first + 10).map (c.toNat - ·)

/-- The characters of `\d`. -/
def isDigit (c : Char) : Bool := (digitValue c).isSome

/-- `int` of a match of `\d+`. -/
def toInt (digits : Text) : ℕ :=
  digits.foldl (fun value c => 10 * value + (digitValue c).getD 0) 0

/-- What is behind a match of `\x1B\[[0-9;]*[A-Za-z]` at the start. -/
def behindEscape : Text → Option Text
  | '\x1B' :: '[' :: rest =>
      match rest.dropWhile fun c => c.isDigit || c = ';' with
      | [] => none
      | c :: rest => if c.isAlpha then some rest else none
  | _ => none

theorem behindEscape_length {line rest : Text} (behind : behindEscape line = some rest) :
    rest.length < line.length := by
  unfold behindEscape at behind
  split at behind
  · rename_i tail
    split at behind
    · cases behind
    · rename_i c after dropped
      split at behind
      · cases behind
        have shorter : (tail.dropWhile fun c : Char => c.isDigit || c = ';').length ≤ tail.length :=
          (List.dropWhile_suffix _).length_le
        rw [dropped] at shorter
        simp at shorter ⊢
        omega
      · cases behind
  · cases behind

/-- `re.sub(r'\x1B\[[0-9;]*[A-Za-z]', '', line)`. -/
def removeEscapes (line : Text) : Text :=
  match line with
  | [] => []
  | c :: rest =>
      match _behind : behindEscape (c :: rest) with
      | some after => removeEscapes after
      | none => c :: removeEscapes rest
termination_by line.length
decreasing_by
  · exact behindEscape_length ‹_›
  · simp

/-- Take one character off a text. -/
def expect (c : Char) : Text → Option Text
  | [] => none
  | x :: rest => if x = c then some rest else none

/-- As many characters of a class as there are, but at least one. -/
def oneOrMore (class_ : Char → Bool) (text : Text) : Option (Text × Text) :=
  if text.takeWhile class_ = [] then none
  else some (text.takeWhile class_, text.dropWhile class_)

/-- A diagnostic of the compiler. -/
structure WarningRec where
  file : Text
  line : ℕ
  column : ℕ
  level : Text
  message : Text
  count : ℕ := 1
  extra : Option Text := none
  notes : List WarningRec := []

namespace WarningRec

/-- `append_extra(extra)`. -/
def appendExtra (warning : WarningRec) (extra : Text) : WarningRec :=
  if extra = [] then warning else { warning with extra := some (warning.extra.getD [] ++ extra) }

/-- `add_note(note)`. -/
def addNote (warning note : WarningRec) : WarningRec :=
  { warning with notes := warning.notes ++ [note] }

/-- `is_note`. -/
def isNote (warning : WarningRec) : Bool := warning.level = "note".toList

/-- `add_to_count(num)`. -/
def addToCount (warning : WarningRec) (num : ℕ) : WarningRec :=
  { warning with count := warning.count + num }

/-- The record is as `__init__` leaves it. -/
def IsNew (warning : WarningRec) : Prop :=
  warning.count = 1 ∧ warning.extra = none ∧ warning.notes = []

/-- `__eq__`. -/
def Same (warning other : WarningRec) : Prop :=
  warning.file = other.file ∧ warning.line = other.line ∧ warning.column = other.column ∧
    warning.level = other.level ∧ warning.message = other.message

instance (warning other : WarningRec) : Decidable (warning.Same other) :=
  inferInstanceAs (Decidable (_ ∧ _))

end WarningRec

/--
A match of `:(\d+):(\d+):\s+([a-zA-Z]+):\s+(.*)$` at the start of the text. The groups take
as much as they can: behind each of them but the last stands a character it cannot take.
-/
def matchPlace (file text : Text) : Option WarningRec := do
  let text ← expect ':' text
  let (line, text) ← oneOrMore isDigit text
  let text ← expect ':' text
  let (column, text) ← oneOrMore isDigit text
  let text ← expect ':' text
  let (_, text) ← oneOrMore isSpace text
  let (level, text) ← oneOrMore Char.isAlpha text
  let text ← expect ':' text
  let (_, text) ← oneOrMore isSpace text
  let message := text.takeWhile (· ≠ '\n')
  -- `$` also matches in front of a newline at the end
  if text.drop message.length = [] ∨ text.drop message.length = ['\n'] then
    some { file, line := toInt line, column := toInt column, level, message }
  else none

/--
A match of `^(.*):(\d+):(\d+):\s+([a-zA-Z]+):\s+(.*)$`, where the first group has taken the
characters `file` and takes more of them if it can.
-/
def matchDiagnostic (file : Text) : Text → Option WarningRec
  | [] => matchPlace file []
  | c :: rest =>
      if c = '\n' then matchPlace file (c :: rest)
      else
        match matchDiagnostic (file ++ [c]) rest with
        | some warning => some warning
        | none => matchPlace file (c :: rest)

theorem matchPlace_isNew {file text : Text} {warning : WarningRec}
    (matched : matchPlace file text = some warning) : warning.IsNew := by
  simp only [matchPlace, Option.bind_eq_bind, Option.bind_eq_some_iff, Prod.exists] at matched
  rcases matched with ⟨_, -, _, _, -, _, -, _, _, -, _, -, _, _, -, _, _, -, _, -, _, _, -, matched⟩
  split at matched
  · cases matched
    exact ⟨rfl, rfl, rfl⟩
  · cases matched

theorem matchDiagnostic_isNew {file text : Text} {warning : WarningRec}
    (matched : matchDiagnostic file text = some warning) : warning.IsNew := by
  induction text generalizing file with
  | nil => exact matchPlace_isNew matched
  | cons c rest ih =>
    simp only [matchDiagnostic] at matched
    split at matched
    · exact matchPlace_isNew matched
    · split at matched
      · cases matched
        exact ih ‹_›
      · exact matchPlace_isNew matched

/-- The record as it is behind its line. -/
def WarningRec.bare (warning : WarningRec) : WarningRec :=
  { warning with extra := none, notes := [] }

theorem WarningRec.IsNew.bare_eq {warning : WarningRec} (isNew : warning.IsNew) :
    warning.bare = warning := by
  rcases isNew with ⟨-, extra, notes⟩
  cases warning
  cases extra
  cases notes
  rfl

/-- Classifiers of lines, in the place of `^\s+` and of the expression for diagnostics. -/
structure Classifier where
  indented : Text → Bool
  diagnostic : Text → Option WarningRec
  indented_nil : indented [] = false
  bare_diagnostic : ∀ line warning, diagnostic line = some warning → warning.bare = warning

/-- The classifiers of `collect`. -/
def expressions : Classifier where
  indented := fun line => line.head?.any isSpace
  diagnostic := matchDiagnostic []
  indented_nil := rfl
  bare_diagnostic _ _ matched := (matchDiagnostic_isNew matched).bare_eq

/-- Where a record is: in the list of warnings, or in the notes of one of them. -/
inductive Ref where
  | warning (index : ℕ)
  | note (index position : ℕ)

/-- The position of the warning that the record is or belongs to. -/
def Ref.warningIndex : Ref → ℕ
  | .warning index => index
  | .note index _ => index

/-- What `WarningCollector` has collected, and what it is in the middle of. -/
structure WarningCollector where
  warnings : List WarningRec := []
  inWarning : Bool := false
  currentWarning : Option Ref := none
  lastWarning : Option ℕ := none

namespace WarningCollector

/-- The record at a place. -/
def get (collector : WarningCollector) : Ref → Option WarningRec
  | .warning index => collector.warnings[index]?
  | .note index position => collector.warnings[index]?.bind (·.notes[position]?)

/-- Change the record at a place. -/
def modify (collector : WarningCollector) (change : WarningRec → WarningRec) :
    Ref → WarningCollector
  | .warning index => { collector with warnings := collector.warnings.modify index change }
  | .note index position =>
      { collector with
        warnings := collector.warnings.modify index fun warning =>
          { warning with notes := warning.notes.modify position change } }

section

variable (classifier : Classifier)

/-- The branch for `inWarning`. -/
def continueWith (collector : WarningCollector) (line : Text) : WarningCollector :=
  match collector.currentWarning with
  | none => collector
  | some current =>
      if classifier.indented line then collector.modify (·.appendExtra line) current
      else
        { collector with
          lastWarning :=
            if (collector.get current).any (·.isNote) then collector.lastWarning
            else some current.warningIndex
          inWarning := false
          currentWarning := none }

/-- The collector in front of the test for a match. -/
def continued (collector : WarningCollector) (line : Text) : WarningCollector :=
  if collector.inWarning then continueWith classifier collector line else collector

end

/-- The branch for a match. Without a last warning, a note is a warning of its own. -/
def startWarning (collector : WarningCollector) (warning : WarningRec) : WarningCollector :=
  match if warning.isNote then collector.lastWarning else none with
  | some last =>
      { collector.modify (·.addNote warning) (.warning last) with
        inWarning := true
        currentWarning :=
          some (.note last ((collector.get (.warning last)).elim 0 (·.notes.length))) }
  | none =>
      { collector with
        warnings := collector.warnings ++ [warning]
        inWarning := true
        currentWarning := some (.warning collector.warnings.length) }

/-- `collect` of a line without escapes, with these classifiers for its expressions. -/
def collectWith (classifier : Classifier) (collector : WarningCollector) (line : Text) :
    WarningCollector :=
  match classifier.diagnostic line with
  | none => continued classifier collector line
  | some warning => (continued classifier collector line).startWarning warning

/-- `collect`. -/
def collect (collector : WarningCollector) (line : Text) : WarningCollector :=
  collectWith expressions collector (removeEscapes line)

/-- A new collector that has been given these lines. -/
def ofLines (lines : List Text) : WarningCollector := lines.foldl collect {}

/-- The inner loop of `merge`, with the `append` behind it. -/
def addWarning (warnings : List WarningRec) (w : WarningRec) : List WarningRec :=
  match warnings with
  | [] => [w]
  | w2 :: rest => if w.Same w2 then w2.addToCount w.count :: rest else w2 :: addWarning rest w

/-- `merge(other)`. -/
def merge (collector other : WarningCollector) : WarningCollector :=
  { collector with warnings := other.warnings.foldl addWarning collector.warnings }

/-- How often the warnings of a kind have been found. -/
def countOf (kind : WarningRec → Bool) (collector : WarningCollector) : ℕ :=
  ((collector.warnings.filter kind).map (·.count)).sum

/-- Every warning has been found. -/
def Counted (collector : WarningCollector) : Prop :=
  ∀ warning ∈ collector.warnings, 0 < warning.count

theorem counted_modify {warnings : List WarningRec} {change : WarningRec → WarningRec}
    (keeps : ∀ warning, (change warning).count = warning.count)
    (counted : ∀ warning ∈ warnings, 0 < warning.count) (index : ℕ) :
    ∀ warning ∈ warnings.modify index change, 0 < warning.count := by
  intro warning mem
  rcases List.mem_iff_getElem.mp mem with ⟨position, inside, rfl⟩
  rw [List.length_modify] at inside
  have old := counted _ (List.getElem_mem inside)
  rw [List.getElem_modify]
  split
  · rwa [keeps]
  · exact old

theorem Counted.modify {collector : WarningCollector} (counted : collector.Counted)
    {change : WarningRec → WarningRec} (keeps : ∀ warning, (change warning).count = warning.count)
    (ref : Ref) : (collector.modify change ref).Counted := by
  cases ref with
  | warning index => exact counted_modify keeps counted index
  | note index position =>
    simp only [WarningCollector.modify, Counted]
    exact counted_modify (by intro warning; rfl) counted index

theorem Counted.continueWith {classifier : Classifier} {collector : WarningCollector}
    (counted : collector.Counted) (line : Text) :
    (continueWith classifier collector line).Counted := by
  simp only [WarningCollector.continueWith]
  split
  · exact counted
  · split
    · apply counted.modify
      intro warning
      simp only [WarningRec.appendExtra]
      split <;> rfl
    · exact counted

theorem Counted.startWarning {collector : WarningCollector} (counted : collector.Counted)
    {warning : WarningRec} (found : warning.count = 1) :
    (collector.startWarning warning).Counted := by
  simp only [WarningCollector.startWarning]
  split
  · have noted := counted.modify
      (show ∀ last : WarningRec, (last.addNote warning).count = last.count from fun _ => rfl)
    exact noted _
  · intro other mem
    rcases List.mem_append.mp mem with old | new
    · exact counted other old
    · rw [List.mem_singleton.mp new, found]
      exact Nat.one_pos

theorem Counted.collect {collector : WarningCollector} (counted : collector.Counted)
    (line : Text) : (collector.collect line).Counted := by
  have continued : (continued expressions collector (removeEscapes line)).Counted := by
    rw [WarningCollector.continued]
    split
    · exact counted.continueWith _
    · exact counted
  rw [WarningCollector.collect, collectWith]
  cases matched : expressions.diagnostic (removeEscapes line) with
  | none => exact continued
  | some warning => exact continued.startWarning (matchDiagnostic_isNew matched).1

theorem counted_ofLines (lines : List Text) : (ofLines lines).Counted := by
  have run : ∀ collector : WarningCollector, collector.Counted →
      (lines.foldl collect collector).Counted := by
    induction lines with
    | nil => exact fun _ counted => counted
    | cons line lines ih => exact fun collector counted => ih _ (counted.collect line)
  apply run
  intro warning mem
  cases mem

section Merging

variable {kind : WarningRec → Bool}
variable (respects : ∀ first second : WarningRec, first.Same second → kind first = kind second)

include respects

theorem countOf_addWarning (warnings : List WarningRec) (w : WarningRec) :
    (((addWarning warnings w).filter kind).map (·.count)).sum =
      ((warnings.filter kind).map (·.count)).sum + if kind w then w.count else 0 := by
  induction warnings with
  | nil => by_cases found : kind w <;> simp [addWarning, found]
  | cons w2 rest ih =>
    simp only [addWarning]
    split
    · have same := respects w w2 ‹_›
      have kept : kind (w2.addToCount w.count) = kind w2 :=
        respects _ _ ⟨rfl, rfl, rfl, rfl, rfl⟩
      have count : (w2.addToCount w.count).count = w2.count + w.count := rfl
      cases found : kind w2 with
      | true =>
        rw [found] at kept same
        simp [kept, same, found, count]
        omega
      | false =>
        rw [found] at kept same
        simp [kept, same, found]
    · cases found : kind w2 with
      | true =>
        simp [found, ih]
        omega
      | false => simp [found, ih]

/-- Merging adds the counts of every kind of warnings. -/
theorem countOf_merge (collector other : WarningCollector) :
    (collector.merge other).countOf kind = collector.countOf kind + other.countOf kind := by
  simp only [countOf, merge]
  generalize other.warnings = others
  generalize collector.warnings = warnings
  induction others generalizing warnings with
  | nil => simp
  | cons w others ih =>
    rw [List.foldl_cons, ih, countOf_addWarning respects]
    by_cases found : kind w
    · simp [found]
      omega
    · simp [found]

end Merging

theorem counted_addWarning {warnings : List WarningRec} {w : WarningRec}
    (counted : ∀ warning ∈ warnings, 0 < warning.count) (found : 0 < w.count) :
    ∀ warning ∈ addWarning warnings w, 0 < warning.count := by
  induction warnings with
  | nil => simpa [addWarning] using found
  | cons w2 rest ih =>
    rw [List.forall_mem_cons] at counted
    simp only [addWarning]
    split
    · exact List.forall_mem_cons.mpr ⟨Nat.add_pos_left counted.1 _, counted.2⟩
    · exact List.forall_mem_cons.mpr ⟨counted.1, ih counted.2⟩

theorem Counted.merge {collector other : WarningCollector} (counted : collector.Counted)
    (otherCounted : other.Counted) : (collector.merge other).Counted := by
  simp only [Counted, WarningCollector.merge] at counted otherCounted ⊢
  generalize other.warnings = others at otherCounted
  generalize collector.warnings = warnings at counted
  induction others generalizing warnings with
  | nil => exact counted
  | cons w others ih =>
    refine ih (fun other mem => otherCounted other (List.mem_cons_of_mem _ mem)) _ ?_
    exact counted_addWarning counted (otherCounted w (List.mem_cons_self ..))

/-- A collector has found something exactly if it holds a warning. -/
theorem Counted.countOf_pos_iff {collector : WarningCollector} (counted : collector.Counted) :
    0 < collector.countOf (fun _ => true) ↔ collector.warnings ≠ [] := by
  simp only [countOf, List.filter_true]
  constructor
  · intro positive empty
    simp [empty] at positive
  · intro nonempty
    rcases List.exists_cons_of_ne_nil nonempty with ⟨warning, rest, split⟩
    have one := counted warning (by simp [split])
    simp only [split, List.map_cons, List.sum_cons]
    omega

end WarningCollector

end Dvnetos.Warnings
