import Dvnetos.Framebuffer.ConsoleBounds
import Dvnetos.Lib.Scrollback

/-!
# The console as a scrolling terminal

On a grid that the buffer has room for, the console shows the last rows of an
unbounded terminal that is given the same texts.
-/

namespace Dvnetos.Console

open Word Cstring Scrollback
open Stdio (CString chr)

namespace VirtualConsole

variable {console : VirtualConsole} {width lines : ℕ}

theorem cell_eq_iff {line line' column column' : ℕ} (inside : column < width)
    (inside' : column' < width) :
    line * width + column = line' * width + column' ↔ line = line' ∧ column = column' := by
  constructor
  · intro same
    have lines : line = line' := by
      have quotient := congrArg (· / width) same
      have positive := Nat.zero_lt_of_lt inside
      simpa [Nat.mul_comm _ width, Nat.mul_add_div positive, Nat.div_eq_of_lt inside,
        Nat.div_eq_of_lt inside'] using quotient
    subst lines
    exact ⟨rfl, Nat.add_left_cancel same⟩
  · rintro ⟨rfl, rfl⟩
    rfl

/-- The grid of the console shows the last of these rows, and its cursor is in the last line. -/
structure Shows (width lines : ℕ) (console : VirtualConsole) (rows : List (List UInt8)) :
    Prop where
  lineLength : console.lineLength = width
  lineCount : console.lineCount = lines
  cells : ∀ line < lines, ∀ column < width,
    console.buffer.cells (line * width + column) = shown lines (chr ' ') rows line column
  row : console.cursorY + 1 = min rows.length lines

/-- The grid of the console shows what the terminal has been given. -/
structure Displays (width lines : ℕ) (console : VirtualConsole) (terminal : Terminal UInt8) :
    Prop where
  shows : Shows width lines console terminal.rows
  column : console.cursorX = terminal.current.length
  room : console.cursorX < width

theorem Shows.positive {rows : List (List UInt8)} (shows_ : Shows width lines console rows) :
    0 < lines := by
  have row := shows_.row
  omega

section

variable {ended : List (List UInt8)} {current : List UInt8}
variable (fits : width * lines ≤ bufferSize)

include fits

theorem putAtCursor_cells (shows_ : Shows width lines console (ended ++ [current]))
    (inside : console.cursorX < width) (c : UInt8) {line column : ℕ} (lineInside : line < lines)
    (columnInside : column < width) :
    (console.putAtCursor c).buffer.cells (line * width + column) =
      if line + 1 = min (ended.length + 1) lines ∧ column = console.cursorX then c
      else shown lines (chr ' ') (ended ++ [current]) line column := by
  have row := shows_.row
  rw [List.length_append, List.length_singleton] at row
  have cursorInside : console.cursorY < lines := by omega
  have rowEnd := row_end_le fits cursorInside
  have size : bufferSize < 2 ^ 64 := by decide
  have index : console.cursorIndex = console.cursorY * width + console.cursorX := by
    rw [cursorIndex_eq, shows_.lineLength]
    rw [shows_.lineLength]
    omega
  rw [putAtCursor, index]
  by_cases here : line = console.cursorY ∧ column = console.cursorX
  · rw [here.1, here.2, TracedStore.cells_store_same, if_pos ⟨row, rfl⟩]
  · rw [TracedStore.cells_store_of_ne, shows_.cells line lineInside column columnInside, if_neg]
    · omega
    · rw [Ne, cell_eq_iff columnInside inside]
      exact here

/-- A character at the cursor is typed behind the current row. -/
theorem Shows.putAtCursor (shows_ : Shows width lines console (ended ++ [current]))
    (column : console.cursorX = current.length) (inside : console.cursorX < width) (c : UInt8) :
    Shows width lines (console.putAtCursor c) (ended ++ [current ++ [c]]) := by
  refine ⟨shows_.lineLength, shows_.lineCount, ?_, ?_⟩
  · intro line lineInside other otherInside
    rw [putAtCursor_cells fits shows_ inside c lineInside otherInside,
      shown_append_singleton shows_.positive, shown_append_singleton shows_.positive, column]
    by_cases last : line + 1 = min (ended.length + 1) lines
    · rw [if_pos last, if_pos last]
      rcases Nat.lt_trichotomy other current.length with before | here | behind
      · rw [if_neg (by omega), List.getD_append _ _ _ _ before]
      · rw [if_pos ⟨last, here⟩, here, List.getD_append_right _ _ _ _ (Nat.le_refl _)]
        simp
      · rw [if_neg (by omega), List.getD_eq_default _ _ (Nat.le_of_lt behind),
          List.getD_eq_default]
        rw [List.length_append, List.length_singleton]
        exact behind
    · rw [if_neg last, if_neg last, if_neg (by omega)]
  · have row := shows_.row
    simp only [List.length_append, List.length_singleton] at row ⊢
    exact row

/-- Blanks behind the current row change nothing. -/
theorem Shows.blankCells {iterations : ℕ}
    (shows_ : Shows width lines console (ended ++ [current]))
    (behind : current.length ≤ console.cursorX) (inside : console.cursorX + iterations ≤ width) :
    Shows width lines (console.blankCells iterations) (ended ++ [current]) := by
  induction iterations generalizing console with
  | zero => exact shows_
  | succ iterations ih =>
      rw [VirtualConsole.blankCells]
      apply ih
      · refine ⟨shows_.lineLength, shows_.lineCount, ?_, shows_.row⟩
        intro line lineInside column columnInside
        refine (putAtCursor_cells fits shows_ (by omega) _ lineInside columnInside).trans ?_
        split_ifs with here
        · rw [shown_append_singleton shows_.positive, if_pos here.1, List.getD_eq_default]
          omega
        · rfl
      · exact Nat.le_succ_of_le behind
      · simp only
        omega

theorem scroll_cells (lineLength : console.lineLength = width)
    (lineCount : console.lineCount = lines)
    {line column : ℕ} (lineInside : line < lines) (columnInside : column < width) :
    console.scroll.buffer.cells (line * width + column) =
      if line + 1 < lines then console.buffer.cells ((line + 1) * width + column)
      else chr ' ' := by
  have size : bufferSize < 2 ^ 63 := by decide
  have split : width * (lines - 1) + width = width * lines := by
    rw [← Nat.mul_succ, Nat.succ_eq_add_one, Nat.sub_add_cancel (Nat.zero_lt_of_lt lineInside)]
  have countLt : lines ≤ width * lines := Nat.le_mul_of_pos_left _ (Nat.zero_lt_of_lt columnInside)
  have kept : mul64 width (sub64 lines 1) = width * (lines - 1) := by
    rw [sub64_of_le (by omega) (show 1 ≤ lines by omega), mul64_of_lt (by omega)]
  have next : (line + 1) * width = line * width + width := Nat.succ_mul line width
  rw [scroll]
  simp only [lineLength, lineCount, kept]
  rw [memset_cells _ _ (by omega), memmove, if_pos (Nat.zero_lt_of_lt columnInside),
    copyForward_cells _ (Nat.zero_lt_of_lt columnInside) (by omega)]
  by_cases last : line + 1 < lines
  · have before : (line + 1) * width ≤ width * (lines - 1) := by
      rw [Nat.mul_comm]
      exact Nat.mul_le_mul_left _ (by omega)
    have index : line * width + column - 0 + width = (line + 1) * width + column := by omega
    rw [if_pos last, if_neg (by omega), if_pos (by omega), index]
  · have lineEq : line * width = width * (lines - 1) := by
      rw [Nat.mul_comm, show line = lines - 1 by omega]
    rw [if_neg last, if_pos (by omega)]

/-- A full line moves the cursor to a new row. -/
theorem Shows.wrapLine {rows : List (List UInt8)} (shows_ : Shows width lines console rows)
    (full : width ≤ console.cursorX) :
    Shows width lines console.wrapLine (rows ++ [[]]) ∧ console.wrapLine.cursorX = 0 := by
  have row := shows_.row
  have positive := shows_.positive
  have lineLength := shows_.lineLength
  have lineCount := shows_.lineCount
  rw [VirtualConsole.wrapLine, if_pos (by omega)]
  by_cases last : lines ≤ console.cursorY + 1
  · have lastLine : console.lineCount ≤ console.nextLine.cursorY := by
      rw [lineCount]
      exact last
    rw [if_pos lastLine]
    refine ⟨⟨lineLength, lineCount, ?_, ?_⟩, rfl⟩
    · intro line lineInside column columnInside
      refine (scroll_cells fits lineLength lineCount lineInside columnInside).trans ?_
      rw [shown_newRow_of_le positive (by omega) lineInside]
      split_ifs with moved
      · exact shows_.cells _ moved column columnInside
      · rfl
    · simp only [scroll, nextLine, List.length_append, List.length_singleton]
      omega
  · have lastLine : ¬console.lineCount ≤ console.nextLine.cursorY := by
      rw [lineCount]
      exact last
    rw [if_neg lastLine]
    refine ⟨⟨lineLength, lineCount, ?_, ?_⟩, rfl⟩
    · intro line lineInside column columnInside
      rw [shown_newRow_of_lt (by omega)]
      exact shows_.cells line lineInside column columnInside
    · simp only [nextLine, List.length_append, List.length_singleton]
      omega

omit fits in
theorem wrapLine_of_room (room : console.cursorX < console.lineLength) :
    console.wrapLine = console := by
  rw [VirtualConsole.wrapLine, if_neg (Nat.not_le.mpr room)]

/-- One character keeps the console and the terminal together. -/
theorem Displays.appendChar {terminal : Terminal UInt8}
    (displays : Displays width lines console terminal) (c : UInt8) :
    Displays width lines (console.appendChar c) (terminal.put (chr '\n') width c) := by
  rcases displays with ⟨shows_, column, room⟩
  have positive := Nat.zero_lt_of_lt room
  rw [VirtualConsole.appendChar, Terminal.put]
  by_cases isNewline : c = chr '\n'
  · -- the rest of the row is blank already
    rw [if_pos isNewline, if_pos isNewline]
    have blanked : Shows width lines console.blankLine terminal.rows :=
      shows_.blankCells fits (Nat.le_of_eq column.symm) (by rw [shows_.lineLength]; omega)
    let next := { console.blankLine with cursorX := console.blankLine.cursorX + 1 }
    have moved : Shows width lines next terminal.rows :=
      ⟨blanked.lineLength, blanked.lineCount, blanked.cells, blanked.row⟩
    have full : width ≤ next.cursorX := by
      simp only [next, blankLine, blankCells_cursorX, shows_.lineLength]
      omega
    rcases moved.wrapLine fits full with ⟨wrapped, start⟩
    exact ⟨wrapped, start, start.trans_lt positive⟩
  · rw [if_neg isNewline, if_neg isNewline]
    have typed : Shows width lines (console.putAtCursor c) (terminal.type c).rows :=
      shows_.putAtCursor fits column room c
    have length : (terminal.type c).current.length = console.cursorX + 1 := by
      rw [Terminal.type, List.length_append, List.length_singleton, column]
    rw [length]
    let next := { console.putAtCursor c with cursorX := console.cursorX + 1 }
    have moved : Shows width lines next (terminal.type c).rows :=
      ⟨typed.lineLength, typed.lineCount, typed.cells, typed.row⟩
    change Displays width lines next.wrapLine _
    split_ifs with full
    · rcases moved.wrapLine fits full with ⟨wrapped, start⟩
      exact ⟨wrapped, start, start.trans_lt positive⟩
    · have fitsIn : next.cursorX < next.lineLength := by
        rw [moved.lineLength]
        exact Nat.lt_of_not_le full
      rw [wrapLine_of_room fitsIn]
      exact ⟨moved, length.symm, moved.lineLength ▸ fitsIn⟩

theorem Displays.appendChars {terminal : Terminal UInt8}
    (displays : Displays width lines console terminal) (chars : List UInt8) :
    Displays width lines (chars.foldl VirtualConsole.appendChar console)
      (terminal.puts (chr '\n') width chars) := by
  induction chars generalizing console terminal with
  | nil => exact displays
  | cons c chars ih => exact ih (displays.appendChar fits c)

theorem Displays.appendText {terminal : Terminal UInt8}
    (displays : Displays width lines console terminal) (text : CString) :
    Displays width lines (console.appendText text) (terminal.puts (chr '\n') width text.chars) := by
  rcases displays with ⟨⟨lineLength, lineCount, cells, row⟩, column, room⟩
  have start : Displays width lines { console with serial := console.serial ++ text.chars }
      terminal :=
    ⟨⟨lineLength, lineCount, cells, row⟩, column, room⟩
  rcases start.appendChars fits text.chars with ⟨⟨lineLength, lineCount, cells, row⟩, column, room⟩
  refine ⟨⟨?_, ?_, ?_, ?_⟩, ?_, ?_⟩
  · rw [VirtualConsole.appendText, updateScreen_lineLength, lineLength]
  · rw [VirtualConsole.appendText, updateScreen_lineCount, lineCount]
  · rw [VirtualConsole.appendText, updateScreen_buffer]
    exact cells
  · rw [VirtualConsole.appendText, updateScreen_cursorY, row]
  · rw [VirtualConsole.appendText, updateScreen_cursorX, column]
  · rw [VirtualConsole.appendText, updateScreen_cursorX]
    exact room

theorem Displays.appendTexts {terminal : Terminal UInt8}
    (displays : Displays width lines console terminal) (texts : List CString) :
    Displays width lines (console.appendTexts texts)
      (terminal.puts (chr '\n') width (texts.flatMap CString.chars)) := by
  induction texts generalizing console terminal with
  | nil => exact displays
  | cons text texts ih =>
      have later := ih (displays.appendText fits text)
      rw [Terminal.puts, List.flatMap_cons, List.foldl_append]
      exact later

end

/-- Right after `init` the grid is blank. -/
theorem init_displays (console : VirtualConsole) {framebuffer : Framebuffer}
    (columns : 0 < lineLengthOf framebuffer) (positive : 0 < lineCountOf framebuffer)
    (fits : lineLengthOf framebuffer * lineCountOf framebuffer ≤ bufferSize)
    (cursorX : console.cursorX = 0) (cursorY : console.cursorY = 0) :
    Displays (lineLengthOf framebuffer) (lineCountOf framebuffer) (console.init framebuffer)
      Terminal.empty := by
  refine ⟨⟨init_lineLength .., init_lineCount .., ?_, ?_⟩, ?_, ?_⟩
  · intro line lineInside column columnInside
    have rowEnd := row_end_le fits lineInside
    have size : bufferSize < 2 ^ 64 := by decide
    have blank : shown (lineCountOf framebuffer) (chr ' ') [[]] line column = chr ' ' := by
      refine (shown_append_singleton positive [] [] line column).trans ?_
      simp
    rw [init, updateScreen_buffer, memset_cells _ _ (by omega), if_pos (by omega)]
    exact blank.symm
  · rw [init_cursorY, cursorY]
    simp only [Terminal.empty, Terminal.rows, List.nil_append, List.length_singleton]
    omega
  · rw [init_cursorX, cursorX]
    rfl
  · rw [init_cursorX, cursorX]
    exact columns

/--
After `init` with the cursor at the start of a grid that the buffer has room for, the grid shows
the last rows of a terminal that is given the same texts, and the cursor is behind its last row.
-/
theorem appendTexts_displays (console : VirtualConsole) {framebuffer : Framebuffer}
    (columns : 1 ≤ lineLengthOf framebuffer) (positive : 1 ≤ lineCountOf framebuffer)
    (fits : lineLengthOf framebuffer * lineCountOf framebuffer ≤ bufferSize)
    (cursorX : console.cursorX = 0) (cursorY : console.cursorY = 0) (texts : List CString) :
    let width := lineLengthOf framebuffer
    let lines := lineCountOf framebuffer
    let after := (console.init framebuffer).appendTexts texts
    let terminal := Terminal.empty.puts (chr '\n') width (texts.flatMap CString.chars)
    after.lineLength = width ∧ after.lineCount = lines ∧
      (∀ line < lines, ∀ column < width, after.buffer.cells (line * width + column) =
        shown lines (chr ' ') terminal.rows line column) ∧
      after.cursorY + 1 = min terminal.rows.length lines ∧
      after.cursorX = terminal.current.length := by
  intro width lines after terminal
  have start := init_displays console columns positive fits cursorX cursorY
  rcases start.appendTexts fits texts with ⟨⟨lineLength, lineCount, cells, row⟩, column, _⟩
  exact ⟨lineLength, lineCount, cells, row, column⟩

/-- A grid of two by two cells. -/
def tinyScreen : Framebuffer := { width := 16, height := 32, font := { width := 8, height := 16 } }

/-- A text that is longer than a line of the grid. -/
def threeLetters : CString := ⟨[chr 'a', chr 'b', chr 'c'], by decide⟩

/-- A newline behind the second row of the grid, and a letter. -/
def nextRow : CString := ⟨[chr '\n', chr 'd'], by decide⟩

/-- The first of the three rows has left the grid. -/
theorem appendTexts_displays_tinyScreen :
    let after := ((initial fun _ => 0).init tinyScreen).appendTexts [threeLetters, nextRow]
    after.buffer.cells 0 = chr 'c' ∧ after.buffer.cells 2 = chr 'd' ∧ after.cursorY + 1 = 2 ∧
      after.cursorX = 1 := by
  intro after
  have displays := appendTexts_displays (initial fun _ => 0)
    (show 1 ≤ lineLengthOf tinyScreen by decide) (by decide) (by decide) rfl rfl
    [threeLetters, nextRow]
  have columns : lineLengthOf tinyScreen = 2 := by decide
  have first := displays.2.2.1 0 (by decide) 0 (by decide)
  have second := displays.2.2.1 1 (by decide) 0 (by decide)
  rw [columns, Nat.zero_mul, Nat.add_zero] at first
  rw [columns, Nat.one_mul, Nat.add_zero] at second
  refine ⟨first.trans ?_, second.trans ?_, displays.2.2.2.1.trans ?_, displays.2.2.2.2.trans ?_⟩
  all_goals decide +kernel

end VirtualConsole

end Dvnetos.Console
