import Dvnetos.Tools.WarningCollector
import Dvnetos.Lib.Headings
import Mathlib.Data.List.Induction

/-!
# Warnings and their notes

`collect` reads lines with the classifiers of lines that its regular expressions are. A note
belongs to the last warning in front of it. This is so as long as no line is both indented and
a diagnostic while a warning is open: `collect` appends such a line to the open warning and
also makes a record of it, but does not close the open one.
-/

namespace Dvnetos.Warnings

/-- Notes belong to a record that is none. -/
def WarningRec.isOwner (warning : WarningRec) : Bool := !warning.isNote

namespace WarningCollector

/-- A new collector that has been given these lines. -/
def ofLinesWith (classifier : Classifier) (lines : List Text) : WarningCollector :=
  lines.foldl (collectWith classifier) {}

theorem ofLines_eq (lines : List Text) :
    ofLines lines = ofLinesWith expressions (lines.map removeEscapes) := by
  rw [ofLinesWith, List.foldl_map]
  rfl

variable {classifier : Classifier} {collector : WarningCollector}

theorem map_modify {Item Image : Type} {image : Item → Image} {change : Item → Item}
    {changeImage : Image → Image}
    (commutes : ∀ item, image (change item) = changeImage (image item)) (items : List Item)
    (index : ℕ) :
    (items.modify index change).map image = (items.map image).modify index changeImage := by
  induction items generalizing index with
  | nil => rw [List.modify_nil, List.map_nil, List.modify_nil]
  | cons item items ih =>
      cases index with
      | zero => simp [commutes]
      | succ index => simp [ih]

/-- A change that an image does not show. -/
theorem map_modify_of_kept {Item Image : Type} {image : Item → Image} {change : Item → Item}
    (kept : ∀ item, image (change item) = image item) (items : List Item) (index : ℕ) :
    (items.modify index change).map image = items.map image := by
  have same : ∀ item, image (change item) = id (image item) := kept
  rw [map_modify same, List.modify_id]

/-- The warnings with their notes, as they are behind their lines. -/
def outline (collector : WarningCollector) : List (WarningRec × List WarningRec) :=
  collector.warnings.map fun warning => (warning.bare, warning.notes.map WarningRec.bare)

/-- The records, each with its notes behind it. -/
def records (collector : WarningCollector) : List WarningRec :=
  collector.outline.flatMap fun group => group.1 :: group.2

theorem length_outline (collector : WarningCollector) :
    collector.outline.length = collector.warnings.length :=
  List.length_map _

theorem map_getElem?_modify {Item Image : Type} {image : Item → Image} {change : Item → Item}
    (kept : ∀ item, image (change item) = image item) (items : List Item) (index place : ℕ) :
    (items.modify index change)[place]?.map image = items[place]?.map image := by
  rw [← List.getElem?_map, ← List.getElem?_map, map_modify_of_kept kept]

theorem map_get_note {Image : Type} (image : WarningRec → Image) (collector : WarningCollector)
    (index position : ℕ) :
    (collector.get (.note index position)).map image =
      (collector.warnings[index]?.map fun warning => warning.notes[position]?.map image).join := by
  rw [get]
  cases collector.warnings[index]? <;> rfl

/-- What a change of a record does not show, no record shows after it. -/
theorem map_get_modify {Image : Type} {image : WarningRec → Image}
    {change : WarningRec → WarningRec} (kept : ∀ warning, image (change warning) = image warning)
    (notes : ∀ warning, (change warning).notes = warning.notes)
    (shallow : ∀ warning other, image { warning with notes := other } = image warning)
    (ref other : Ref) :
    ((collector.modify change ref).get other).map image = (collector.get other).map image := by
  cases other with
  | warning place =>
      cases ref with
      | warning index => exact map_getElem?_modify kept _ _ _
      | note index position => exact map_getElem?_modify (fun warning => shallow warning _) _ _ _
  | note place at_ =>
      rw [map_get_note, map_get_note]
      congr 1
      cases ref with
      | warning index =>
          apply map_getElem?_modify
          intro warning
          rw [notes]
      | note index position =>
          apply map_getElem?_modify
          intro warning
          exact map_getElem?_modify kept _ _ _

/-- What does not show the text of a record does not show what is appended to it. -/
theorem image_appendExtra {Image : Type} {image : WarningRec → Image}
    (blind : ∀ warning extra, image { warning with extra } = image warning) (line : Text)
    (warning : WarningRec) : image (warning.appendExtra line) = image warning := by
  rw [WarningRec.appendExtra]
  split_ifs
  · rfl
  · exact blind warning _

theorem bare_appendExtra (line : Text) (warning : WarningRec) :
    (warning.appendExtra line).bare = warning.bare :=
  image_appendExtra (fun _ _ => rfl) line warning

theorem notes_appendExtra (line : Text) (warning : WarningRec) :
    (warning.appendExtra line).notes = warning.notes :=
  image_appendExtra (fun _ _ => rfl) line warning

theorem isNote_appendExtra (line : Text) (warning : WarningRec) :
    (warning.appendExtra line).isNote = warning.isNote :=
  image_appendExtra (fun _ _ => rfl) line warning

theorem outline_appendExtra (collector : WarningCollector) (line : Text) (ref : Ref) :
    (collector.modify (·.appendExtra line) ref).outline = collector.outline := by
  cases ref with
  | warning index =>
      apply map_modify_of_kept
      intro warning
      rw [bare_appendExtra, notes_appendExtra]
  | note index position =>
      apply map_modify_of_kept
      intro warning
      exact congrArg (Prod.mk _) (map_modify_of_kept (bare_appendExtra line) _ _)

theorem outline_addNote (collector : WarningCollector) {note : WarningRec}
    (bare : note.bare = note) (index : ℕ) :
    (collector.modify (·.addNote note) (.warning index)).outline =
      collector.outline.modify index (Headings.extend note) := by
  apply map_modify
  intro warning
  rw [WarningRec.addNote, List.map_append, List.map_singleton, bare]
  rfl

@[simp]
theorem length_modify (collector : WarningCollector) (change : WarningRec → WarningRec)
    (ref : Ref) : (collector.modify change ref).warnings.length = collector.warnings.length := by
  cases ref with
  | warning index => exact List.length_modify ..
  | note index position => exact List.length_modify ..

/-- Warnings are open exactly if there is a current one, and the references are in use. -/
structure Valid (collector : WarningCollector) : Prop where
  opened : collector.inWarning = collector.currentWarning.isSome
  current : ∀ ref, collector.currentWarning = some ref → (collector.get ref).isSome
  last : ∀ index, collector.lastWarning = some index → index < collector.warnings.length

/-- The warning that is the last one as soon as the current one is closed. -/
def owner (collector : WarningCollector) : Option ℕ :=
  match collector.currentWarning with
  | none => collector.lastWarning
  | some current =>
      if (collector.get current).any (·.isNote) then collector.lastWarning
      else some current.warningIndex

theorem owner_of_open {current : Ref} {record : WarningRec}
    (isCurrent : collector.currentWarning = some current)
    (found : collector.get current = some record) :
    collector.owner =
      if record.isNote then collector.lastWarning else some current.warningIndex := by
  simp only [owner, isCurrent, found, Option.any_some]

/-- No warning is open any more, and notes belong to the last one. -/
def closed (collector : WarningCollector) : WarningCollector :=
  { collector with lastWarning := collector.owner, inWarning := false, currentWarning := none }

theorem warningIndex_lt {ref : Ref} (used : (collector.get ref).isSome) :
    ref.warningIndex < collector.warnings.length := by
  cases ref with
  | warning index =>
      rcases Option.isSome_iff_exists.mp used with ⟨record, found⟩
      exact (List.getElem?_eq_some_iff.mp found).1
  | note index position =>
      rcases Option.isSome_iff_exists.mp used with ⟨record, found⟩
      rcases Option.bind_eq_some_iff.mp found with ⟨warning, inWarnings, -⟩
      exact (List.getElem?_eq_some_iff.mp inWarnings).1

theorem Valid.owner_lt (valid : collector.Valid) {index : ℕ}
    (owns : collector.owner = some index) : index < collector.warnings.length := by
  rw [owner] at owns
  cases current : collector.currentWarning with
  | none =>
      rw [current] at owns
      exact valid.last index owns
  | some ref =>
      rw [current] at owns
      dsimp only at owns
      split_ifs at owns
      · exact valid.last index owns
      · cases owns
        exact warningIndex_lt (valid.current ref current)

theorem Valid.closed (valid : collector.Valid) : collector.closed.Valid where
  opened := rfl
  current _ none := by cases none
  last _ owns := valid.owner_lt owns

/-- A line is appended to the open warning, or there is none behind it. -/
theorem Valid.continued_cases (valid : collector.Valid) (line : Text) :
    (∃ current, collector.currentWarning = some current ∧ classifier.indented line = true ∧
      continued classifier collector line = collector.modify (·.appendExtra line) current) ∨
    ((collector.inWarning && classifier.indented line) = false ∧
      continued classifier collector line = collector.closed) := by
  rw [continued, valid.opened]
  cases current : collector.currentWarning with
  | none =>
      refine .inr ⟨rfl, ?_⟩
      have notOpen : collector.inWarning = false := by rw [valid.opened, current]; rfl
      rcases collector with ⟨warnings, inWarning, currentWarning, lastWarning⟩
      cases current
      cases notOpen
      rfl
  | some ref =>
      rw [Option.isSome_some, if_pos rfl, continueWith, current]
      cases indented : classifier.indented line with
      | true => exact .inl ⟨ref, rfl, rfl, rfl⟩
      | false =>
          refine .inr ⟨rfl, ?_⟩
          rw [WarningCollector.closed, owner, current]
          rfl

@[simp]
theorem currentWarning_modify (collector : WarningCollector) (change : WarningRec → WarningRec)
    (ref : Ref) : (collector.modify change ref).currentWarning = collector.currentWarning := by
  cases ref <;> rfl

@[simp]
theorem lastWarning_modify (collector : WarningCollector) (change : WarningRec → WarningRec)
    (ref : Ref) : (collector.modify change ref).lastWarning = collector.lastWarning := by
  cases ref <;> rfl

@[simp]
theorem inWarning_modify (collector : WarningCollector) (change : WarningRec → WarningRec)
    (ref : Ref) : (collector.modify change ref).inWarning = collector.inWarning := by
  cases ref <;> rfl

theorem Valid.appendExtra (valid : collector.Valid) (line : Text) (ref : Ref) :
    (collector.modify (·.appendExtra line) ref).Valid where
  opened := by
    rw [inWarning_modify, currentWarning_modify]
    exact valid.opened
  current other current := by
    rw [currentWarning_modify] at current
    have same := @map_get_modify collector Unit (fun _ => ()) (·.appendExtra line)
      (fun _ => rfl) (notes_appendExtra line) (fun _ _ => rfl) ref other
    have used := valid.current other current
    rw [← Option.isSome_map, same, Option.isSome_map]
    exact used
  last index owns := by
    rw [lastWarning_modify] at owns
    rw [length_modify]
    exact valid.last index owns

theorem Valid.continued (valid : collector.Valid) (line : Text) :
    (continued classifier collector line).Valid := by
  rcases valid.continued_cases line with ⟨current, -, -, after⟩ | ⟨-, after⟩
  · rw [after]
    exact valid.appendExtra line current
  · rw [after]
    exact valid.closed

/-- A note is added to the last warning. Every other record is a warning of its own. -/
theorem Valid.startWarning_cases (valid : collector.Valid) (warning : WarningRec) :
    (∃ last position, warning.isNote = true ∧ collector.lastWarning = some last ∧
      collector.startWarning warning =
        { collector.modify (·.addNote warning) (.warning last) with
          inWarning := true
          currentWarning := some (.note last position) } ∧
      (collector.startWarning warning).get (.note last position) = some warning) ∨
    ((warning.isNote = false ∨ collector.lastWarning = none) ∧
      collector.startWarning warning =
        { collector with
          warnings := collector.warnings ++ [warning]
          inWarning := true
          currentWarning := some (.warning collector.warnings.length) } ∧
      (collector.startWarning warning).get (.warning collector.warnings.length) =
        some warning) := by
  have own (none : (if warning.isNote then collector.lastWarning else none) = none) :
      collector.startWarning warning =
        { collector with
          warnings := collector.warnings ++ [warning]
          inWarning := true
          currentWarning := some (.warning collector.warnings.length) } := by
    rw [startWarning, none]
  cases isNote : warning.isNote with
  | false =>
      have after := own (by rw [isNote]; rfl)
      refine .inr ⟨.inl rfl, after, ?_⟩
      rw [after]
      exact List.getElem?_concat_length
  | true =>
      rcases Option.eq_none_or_eq_some collector.lastWarning with owns | ⟨last, owns⟩
      · have after := own (by rw [isNote, owns]; rfl)
        refine .inr ⟨.inr owns, after, ?_⟩
        rw [after]
        exact List.getElem?_concat_length
      · have inside := valid.last last owns
        have found : collector.warnings[last]? = some collector.warnings[last] :=
          List.getElem?_eq_getElem inside
        refine .inl ⟨last, collector.warnings[last].notes.length, rfl, owns, ?_, ?_⟩
        · rw [startWarning, isNote, owns]
          simp [get, found]
        · rw [startWarning, isNote, owns]
          simp [get, WarningCollector.modify, found, WarningRec.addNote]

theorem Valid.startWarning (valid : collector.Valid) (warning : WarningRec) :
    (collector.startWarning warning).Valid := by
  rcases valid.startWarning_cases warning with ⟨last, position, -, owns, after, found⟩ |
    ⟨-, after, found⟩
  · rw [after] at found ⊢
    refine ⟨rfl, ?_, ?_⟩
    · rintro ref ⟨⟩
      rw [found]
      rfl
    · intro index isLast
      have inside := valid.last index isLast
      rwa [← length_modify collector (·.addNote warning) (.warning last)] at inside
  · rw [after] at found ⊢
    refine ⟨rfl, ?_, ?_⟩
    · rintro ref ⟨⟩
      rw [found]
      rfl
    · intro index isLast
      have inside := valid.last index isLast
      rw [List.length_append]
      omega

/-- The collector shows the diagnostics, grouped with their notes. -/
structure Shows (diagnostics : List WarningRec) (collector : WarningCollector) : Prop where
  outline : collector.outline = Headings.grouped WarningRec.isOwner diagnostics
  owner : collector.owner =
    if diagnostics.any WarningRec.isOwner then some (collector.warnings.length - 1) else none

theorem any_eq_of_map_eq {Item : Type} {test : Item → Bool} {first second : Option Item}
    (same : first.map test = second.map test) : first.any test = second.any test := by
  cases first <;> cases second <;> simp_all

theorem modify_concat {Item : Type} (front : List Item) (last : Item) (change : Item → Item) :
    (front ++ [last]).modify front.length change = front ++ [change last] := by
  induction front with
  | nil => rfl
  | cons item front ih =>
      rw [List.cons_append, List.length_cons, List.modify_succ_cons, ih, List.cons_append]

section Showing

variable {diagnostics : List WarningRec} (shows : Shows diagnostics collector)

include shows

theorem Shows.closed : Shows diagnostics collector.closed :=
  ⟨shows.outline, shows.owner⟩

theorem Shows.appendExtra (line : Text) (ref : Ref) :
    Shows diagnostics (collector.modify (·.appendExtra line) ref) := by
  have same (other : Ref) : ((collector.modify (·.appendExtra line) ref).get other).any (·.isNote) =
      (collector.get other).any (·.isNote) :=
    any_eq_of_map_eq (map_get_modify (isNote_appendExtra line) (notes_appendExtra line)
      (fun _ _ => rfl) ref other)
  constructor
  · rw [outline_appendExtra, shows.outline]
  · rw [length_modify, ← shows.owner, WarningCollector.owner, WarningCollector.owner,
      currentWarning_modify, lastWarning_modify]
    simp only [same]

theorem Shows.startWarning (valid : collector.Valid) (none : collector.currentWarning = none)
    {warning : WarningRec} (bare : warning.bare = warning) :
    Shows (diagnostics ++ [warning]) (collector.startWarning warning) := by
  have owner : collector.owner = collector.lastWarning := by
    rw [WarningCollector.owner, none]
  have owns := shows.owner
  rw [owner] at owns
  rcases valid.startWarning_cases warning with ⟨last, position, isNote, isLast, after, found⟩ |
    ⟨alone, after, found⟩
  · have some : diagnostics.any WarningRec.isOwner = true := by
      by_contra absent
      rw [if_neg absent, isLast] at owns
      cases owns
    rw [if_pos some, isLast] at owns
    have isItem : warning.isOwner = false := by rw [WarningRec.isOwner, isNote, Bool.not_true]
    rcases Headings.grouped_concat_under isItem some with ⟨front, group, before, extended⟩
    have length : collector.warnings.length = front.length + 1 := by
      rw [← length_outline, shows.outline, before, List.length_append, List.length_singleton]
    have atLast : last = front.length := by
      cases owns
      omega
    constructor
    · calc (collector.startWarning warning).outline
          = (collector.modify (·.addNote warning) (.warning last)).outline := by
            rw [after]
            rfl
        _ = front ++ [Headings.extend warning group] := by
            rw [outline_addNote collector bare, shows.outline, before, atLast, modify_concat]
        _ = Headings.grouped WarningRec.isOwner (diagnostics ++ [warning]) := extended.symm
    · have owner : (collector.startWarning warning).owner = collector.lastWarning := by
        rw [owner_of_open (by rw [after]) found, if_pos isNote, after]
        exact lastWarning_modify ..
      have length :
          (collector.startWarning warning).warnings.length = collector.warnings.length := by
        rw [after]
        exact length_modify ..
      rw [owner, length, List.any_append, some, Bool.true_or, if_pos rfl, isLast, owns]
  · have notes : warning.notes = [] := by rw [← bare, WarningRec.bare]
    have group : warning.isOwner = true ∨ diagnostics.any WarningRec.isOwner = false := by
      refine alone.imp (fun noNote => by rw [WarningRec.isOwner, noNote]; rfl) fun isNone => ?_
      by_contra some
      rw [if_pos (Bool.eq_true_of_not_eq_false some), isNone] at owns
      cases owns
    constructor
    · calc (collector.startWarning warning).outline
          = collector.outline ++ [(warning.bare, warning.notes.map WarningRec.bare)] := by
            rw [after]
            exact List.map_append
        _ = Headings.grouped WarningRec.isOwner (diagnostics ++ [warning]) := by
            rw [bare, notes, List.map_nil, shows.outline]
            exact (Headings.grouped_concat_alone group).symm
    · have length : (collector.startWarning warning).warnings.length =
          collector.warnings.length + 1 := by
        rw [after]
        exact List.length_append
      rw [owner_of_open (by rw [after]) found, length, List.any_append, Nat.add_sub_cancel]
      cases isNote : warning.isNote with
      | false => simp [WarningRec.isOwner, isNote, Ref.warningIndex]
      | true =>
          have none : diagnostics.any WarningRec.isOwner = false :=
            group.resolve_left (by simp [WarningRec.isOwner, isNote])
          rw [none] at owns ⊢
          rw [after, if_pos rfl, owns]
          simp [WarningRec.isOwner, isNote]

end Showing

theorem get_modify_self {ref : Ref} {record : WarningRec} (found : collector.get ref = some record)
    (change : WarningRec → WarningRec) :
    (collector.modify change ref).get ref = some (change record) := by
  cases ref with
  | warning index =>
      have inWarnings : collector.warnings[index]? = some record := found
      simp [get, WarningCollector.modify, inWarnings]
  | note index position =>
      rcases Option.bind_eq_some_iff.mp found with ⟨warning, inWarnings, inNotes⟩
      simp [get, WarningCollector.modify, inWarnings, inNotes]

theorem appendExtra_extra_ne (record : WarningRec) {line : Text} (nonempty : line ≠ []) :
    (record.appendExtra line).extra ≠ record.extra := by
  rw [WarningRec.appendExtra, if_neg nonempty]
  intro same
  cases extra : record.extra with
  | none =>
      rw [extra] at same
      cases same
  | some text =>
      rw [extra] at same
      have appended : text ++ line = text := Option.some.inj same
      exact nonempty (List.append_right_eq_self.mp appended)

/-- A new record leaves the text of the others as it is. -/
theorem Valid.extra_startWarning (valid : collector.Valid) {ref : Ref} {record : WarningRec}
    (found : collector.get ref = some record) (warning : WarningRec) :
    ((collector.startWarning warning).get ref).map (·.extra) = some record.extra := by
  rcases valid.startWarning_cases warning with ⟨last, position, -, owns, after, -⟩ | ⟨-, after, -⟩
  · have same : (collector.startWarning warning).get ref =
        (collector.modify (·.addNote warning) (.warning last)).get ref := by
      rw [after]
      cases ref <;> rfl
    rw [same]
    cases ref with
    | warning index =>
        have inWarnings : collector.warnings[index]? = some record := found
        have kept := @map_getElem?_modify WarningRec _ (·.extra) (·.addNote warning)
          (fun _ => rfl) collector.warnings last index
        rw [inWarnings] at kept
        exact kept
    | note index place =>
        rcases Option.bind_eq_some_iff.mp found with ⟨owner, inWarnings, inNotes⟩
        have inside := (List.getElem?_eq_some_iff.mp inNotes).1
        by_cases atLast : last = index
        · subst atLast
          simp [get, WarningCollector.modify, inWarnings, WarningRec.addNote,
            List.getElem?_append_left inside, inNotes]
        · simp [get, WarningCollector.modify, atLast, inWarnings, inNotes]
  · have old {index : ℕ} {owner : WarningRec}
        (inWarnings : collector.warnings[index]? = some owner) :
        (collector.startWarning warning).warnings[index]? = some owner := by
      rw [after, List.getElem?_append_left (List.getElem?_eq_some_iff.mp inWarnings).1, inWarnings]
    cases ref with
    | warning index =>
        have inWarnings : collector.warnings[index]? = some record := found
        rw [get, old inWarnings, Option.map_some]
    | note index place =>
        rcases Option.bind_eq_some_iff.mp found with ⟨owner, inWarnings, inNotes⟩
        rw [get, old inWarnings, Option.bind_some, inNotes, Option.map_some]

theorem Valid.collectWith (valid : collector.Valid) (line : Text) :
    (collectWith classifier collector line).Valid := by
  rw [WarningCollector.collectWith]
  cases classifier.diagnostic line with
  | none => exact valid.continued line
  | some warning => exact (valid.continued line).startWarning warning

theorem Valid.inWarning_continued (valid : collector.Valid) (line : Text) :
    (WarningCollector.continued classifier collector line).inWarning =
      (collector.inWarning && classifier.indented line) := by
  rcases valid.continued_cases line with ⟨current, isCurrent, indented, after⟩ | ⟨apart, after⟩
  · rw [after, inWarning_modify, indented, Bool.and_true]
  · rw [after, apart]
    rfl

theorem Valid.inWarning_collectWith (valid : collector.Valid) (line : Text) :
    (WarningCollector.collectWith classifier collector line).inWarning =
      ((classifier.diagnostic line).isSome ||
        (collector.inWarning && classifier.indented line)) := by
  rw [WarningCollector.collectWith]
  cases classifier.diagnostic line with
  | none => exact valid.inWarning_continued line
  | some warning =>
      have continued := @Valid.continued classifier collector valid line
      rcases continued.startWarning_cases warning with ⟨_, _, -, -, after, -⟩ | ⟨-, after, -⟩
      · exact congrArg WarningCollector.inWarning after
      · exact congrArg WarningCollector.inWarning after

variable (classifier)

theorem ofLinesWith_concat (lines : List Text) (line : Text) :
    ofLinesWith classifier (lines ++ [line]) =
      collectWith classifier (ofLinesWith classifier lines) line := by
  rw [ofLinesWith, List.foldl_concat]
  rfl

theorem valid_ofLinesWith (lines : List Text) : (ofLinesWith classifier lines).Valid := by
  induction lines using List.reverseRecOn with
  | nil => exact ⟨rfl, fun _ none => (by cases none), fun _ none => (by cases none)⟩
  | append_singleton lines line ih =>
      rw [ofLinesWith_concat]
      exact ih.collectWith line

/-- A warning is open behind a diagnostic as long as the lines are indented. -/
def Opens (lines : List Text) : Prop :=
  ∃ before first between, lines = before ++ first :: between ∧
    (classifier.diagnostic first).isSome ∧ ∀ line ∈ between, classifier.indented line = true

/-- A line of these is indented and a diagnostic while a warning is open. -/
def Nested (lines : List Text) : Prop :=
  ∃ before line after, lines = before ++ line :: after ∧ Opens classifier before ∧
    classifier.indented line = true ∧ (classifier.diagnostic line).isSome

theorem opens_concat (lines : List Text) (line : Text) :
    Opens classifier (lines ++ [line]) ↔
      (classifier.diagnostic line).isSome ∨
        (Opens classifier lines ∧ classifier.indented line = true) := by
  constructor
  · rintro ⟨before, first, between, split, isDiagnostic, indented⟩
    rcases List.eq_nil_or_concat between with rfl | ⟨between, last, rfl⟩
    · rcases List.append_inj' split rfl with ⟨-, same⟩
      cases same
      exact .inl isDiagnostic
    · rw [List.concat_eq_append, ← List.cons_append, ← List.append_assoc] at split
      rcases List.append_inj' split rfl with ⟨rfl, same⟩
      cases same
      rw [List.concat_eq_append, List.forall_mem_append] at indented
      exact .inr ⟨⟨before, first, between, rfl, isDiagnostic, indented.1⟩,
        indented.2 _ (List.mem_singleton_self _)⟩
  · rintro (isDiagnostic | ⟨⟨before, first, between, rfl, isDiagnostic, indented⟩, isIndented⟩)
    · exact ⟨lines, line, [], rfl, isDiagnostic, fun _ none => absurd none List.not_mem_nil⟩
    · refine ⟨before, first, between ++ [line], ?_, isDiagnostic, ?_⟩
      · rw [List.append_assoc, List.cons_append]
      · rw [List.forall_mem_append]
        exact ⟨indented, fun other mem => by rwa [List.mem_singleton.mp mem]⟩

theorem inWarning_ofLinesWith (lines : List Text) :
    (ofLinesWith classifier lines).inWarning = true ↔ Opens classifier lines := by
  induction lines using List.reverseRecOn with
  | nil =>
      constructor
      · intro none
        cases none
      · rintro ⟨before, first, between, split, -⟩
        exact absurd split.symm (by simp)
  | append_singleton lines line ih =>
      rw [ofLinesWith_concat, (valid_ofLinesWith classifier lines).inWarning_collectWith,
        opens_concat, ← ih, Bool.or_eq_true, Bool.and_eq_true]

/-- The lines are kept as they should be. -/
structure Kept (lines : List Text) : Prop where
  /-- Each diagnostic is a record once, as a warning or as a note of one. -/
  once : (ofLinesWith classifier lines).records = lines.filterMap classifier.diagnostic
  /-- A note belongs to the last record in front of it that is none. -/
  owned : (ofLinesWith classifier lines).outline =
    Headings.grouped WarningRec.isOwner (lines.filterMap classifier.diagnostic)
  /-- A diagnostic is not appended to another record. -/
  apart : ∀ before line after, lines = before ++ line :: after →
    (classifier.diagnostic line).isSome → ∀ ref record,
      (ofLinesWith classifier before).get ref = some record →
        ((ofLinesWith classifier (before ++ [line])).get ref).map (·.extra) = some record.extra

variable {classifier}

theorem not_nested_of_concat {lines : List Text} {line : Text}
    (none : ¬Nested classifier (lines ++ [line])) : ¬Nested classifier lines := by
  rintro ⟨before, nested, after, rfl, isNested⟩
  exact none ⟨before, nested, after ++ [line], by simp, isNested⟩

/-- Without such a line, a diagnostic closes the open warning. -/
theorem continued_of_not_nested {before after : List Text} {line : Text}
    (none : ¬Nested classifier (before ++ line :: after))
    (isDiagnostic : (classifier.diagnostic line).isSome) :
    WarningCollector.continued classifier (ofLinesWith classifier before) line =
      (ofLinesWith classifier before).closed := by
  have valid := valid_ofLinesWith classifier before
  rcases @Valid.continued_cases classifier _ valid line with
    ⟨current, isCurrent, indented, -⟩ | ⟨-, closed⟩
  · have opened : (ofLinesWith classifier before).inWarning = true := by
      rw [valid.opened, isCurrent]
      rfl
    exact absurd ⟨before, line, after, rfl, (inWarning_ofLinesWith classifier before).mp opened,
      indented, isDiagnostic⟩ none
  · exact closed

theorem shows_ofLinesWith {lines : List Text} (none : ¬Nested classifier lines) :
    Shows (lines.filterMap classifier.diagnostic) (ofLinesWith classifier lines) := by
  induction lines using List.reverseRecOn with
  | nil => exact ⟨rfl, rfl⟩
  | append_singleton lines line ih =>
      have shows := ih (not_nested_of_concat none)
      have valid := valid_ofLinesWith classifier lines
      rw [ofLinesWith_concat, List.filterMap_append, WarningCollector.collectWith]
      cases found : classifier.diagnostic line with
      | none =>
          rw [List.filterMap_cons_none found, List.filterMap_nil, List.append_nil]
          rcases @Valid.continued_cases classifier _ valid line with
            ⟨current, -, -, after⟩ | ⟨-, after⟩
          · rw [after]
            exact shows.appendExtra line current
          · rw [after]
            exact shows.closed
      | some warning =>
          have closed := continued_of_not_nested none (by rw [found]; rfl)
          rw [List.filterMap_cons_some found, List.filterMap_nil, closed]
          exact shows.closed.startWarning valid.closed rfl
            (classifier.bare_diagnostic line warning found)

theorem records_continued (valid : collector.Valid) (line : Text) :
    (WarningCollector.continued classifier collector line).records = collector.records := by
  rcases @Valid.continued_cases classifier _ valid line with ⟨current, -, -, after⟩ | ⟨-, after⟩
  · rw [after, records, outline_appendExtra, records]
  · rw [after]
    rfl

theorem Valid.records_startWarning (valid : collector.Valid) {warning : WarningRec}
    (bare : warning.bare = warning) :
    (collector.startWarning warning).records.Perm (collector.records ++ [warning]) := by
  rcases valid.startWarning_cases warning with ⟨last, position, -, owns, after, -⟩ | ⟨-, after, -⟩
  · have inside : last < collector.outline.length := by
      rw [length_outline]
      exact valid.last last owns
    have outline : (collector.startWarning warning).outline =
        collector.outline.modify last (Headings.extend warning) := by
      rw [← outline_addNote collector bare, after]
      rfl
    rcases List.exists_of_modify (Headings.extend warning) inside with
      ⟨front, group, behind, before, -, extended⟩
    rw [records, records, outline, extended, before]
    simp only [List.flatMap_append, List.flatMap_cons, Headings.extend, List.cons_append,
      List.append_assoc, List.nil_append]
    exact (((List.perm_append_singleton warning _).symm.append_left _).cons _).append_left _
  · have notes : warning.notes = [] := by rw [← bare, WarningRec.bare]
    have outline : (collector.startWarning warning).outline =
        collector.outline ++ [(warning, [])] := by
      rw [after]
      refine List.map_append.trans ?_
      rw [List.map_singleton, bare, notes]
      rfl
    rw [records, outline, List.flatMap_append, records]
    exact List.Perm.refl _

/-- Every diagnostic is kept once, wherever it is kept. -/
theorem records_ofLinesWith (classifier : Classifier) (lines : List Text) :
    (ofLinesWith classifier lines).records.Perm (lines.filterMap classifier.diagnostic) := by
  induction lines using List.reverseRecOn with
  | nil => exact List.Perm.refl _
  | append_singleton lines line ih =>
      have valid := valid_ofLinesWith classifier lines
      have continued := @records_continued classifier _ valid line
      rw [ofLinesWith_concat, List.filterMap_append, WarningCollector.collectWith]
      cases found : classifier.diagnostic line with
      | none =>
          rw [List.filterMap_cons_none found, List.filterMap_nil, List.append_nil]
          dsimp only
          rwa [continued]
      | some warning =>
          have bare := classifier.bare_diagnostic line warning found
          rw [List.filterMap_cons_some found, List.filterMap_nil]
          refine ((valid.continued line).records_startWarning bare).trans ?_
          rw [continued]
          exact ih.append_right _

/-- A line that is appended and a diagnostic changes the text of the open warning. -/
theorem Valid.extra_nested (valid : collector.Valid) (opened : collector.inWarning = true)
    {line : Text} (indented : classifier.indented line = true)
    (isDiagnostic : (classifier.diagnostic line).isSome) :
    ∃ ref record, collector.get ref = some record ∧
      ((WarningCollector.collectWith classifier collector line).get ref).map (·.extra) ≠
        some record.extra := by
  rcases @Valid.continued_cases classifier _ valid line with
    ⟨current, isCurrent, -, after⟩ | ⟨closed, -⟩
  · rcases Option.isSome_iff_exists.mp (valid.current current isCurrent) with ⟨record, found⟩
    rcases Option.isSome_iff_exists.mp isDiagnostic with ⟨warning, isWarning⟩
    have nonempty : line ≠ [] := by
      rintro rfl
      rw [classifier.indented_nil] at indented
      cases indented
    have appended := get_modify_self found (·.appendExtra line)
    have kept := (valid.appendExtra line current).extra_startWarning appended warning
    refine ⟨current, record, found, ?_⟩
    rw [WarningCollector.collectWith, isWarning, after]
    dsimp only
    rw [kept]
    exact fun same => appendExtra_extra_ne record nonempty (Option.some.inj same)
  · rw [opened, indented] at closed
    cases closed

/-- Lines are kept as they should be exactly if none of them is nested. -/
theorem kept_iff (classifier : Classifier) (lines : List Text) :
    Kept classifier lines ↔ ¬Nested classifier lines := by
  constructor
  · rintro kept ⟨before, line, after, split, opens, indented, isDiagnostic⟩
    have opened := (inWarning_ofLinesWith classifier before).mpr opens
    rcases (valid_ofLinesWith classifier before).extra_nested opened indented isDiagnostic with
      ⟨ref, record, found, changed⟩
    have same := kept.apart before line after split isDiagnostic ref record found
    rw [ofLinesWith_concat] at same
    exact changed same
  · intro none
    have outline := (shows_ofLinesWith none).outline
    refine ⟨?_, outline, ?_⟩
    · rw [records, outline, Headings.flatMap_grouped]
    · rintro before line after rfl isDiagnostic ref record found
      have closed := continued_of_not_nested none isDiagnostic
      rcases Option.isSome_iff_exists.mp isDiagnostic with ⟨warning, isWarning⟩
      rw [ofLinesWith_concat, WarningCollector.collectWith, isWarning, closed]
      have valid := (valid_ofLinesWith classifier before).closed
      have same : (ofLinesWith classifier before).closed.get ref = some record := by
        rw [← found]
        cases ref <;> rfl
      exact valid.extra_startWarning same warning

/-- A warning, and an indented note of it. -/
def indentedNote : List Text :=
  ["a.c:1:1: warning: x\n".toList, "  a.c:2:2: note: y\n".toList]

/-- The note is a warning of its own, and is in the text of the warning too. -/
theorem not_kept_indentedNote :
    ¬Kept expressions indentedNote ∧
      (ofLinesWith expressions indentedNote).warnings.map (fun w => (w.notes.length, w.extra)) =
        [(0, some "  a.c:2:2: note: y\n".toList), (0, none)] := by
  constructor
  · intro kept
    have owned := congrArg (List.map fun group => group.2.length) kept.owned
    revert owned
    decide
  · decide

end WarningCollector

end Dvnetos.Warnings
