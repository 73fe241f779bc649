import Dvnetos.Framebuffer.VirtualConsole

/-!
# Where the console stores

`bufferSize` is the number of 8x16 cells of the largest resolution, but the grid
is computed from the cell size of the font and from each axis by itself.
`updateScreen` tests every index against `bufferSize`; `appendText` does not.
This file finds the geometries for which `appendText` stores only inside the
buffer: either a line has no cells at all, or there is a line and the grid is not
larger than the buffer. In the first case every index is zero; in the second the
cursor stays inside the grid.
-/

namespace Dvnetos.Console

open Word Cstring
open Stdio (CString chr)

/-- An index of the static buffer. -/
def InBuffer (index : ℕ) : Prop := index < bufferSize

/-- The grids that the buffer has room for. -/
def GridFits (lineLength lineCount : ℕ) : Prop :=
  lineLength = 0 ∨ 1 ≤ lineCount ∧ lineLength * lineCount ≤ bufferSize

namespace VirtualConsole

variable {console : VirtualConsole}

/-- The characters per line after `init`. -/
def lineLengthOf (framebuffer : Framebuffer) : ℕ :=
  (clamp framebuffer.width maxResWidth).toNat / framebuffer.font.width.toNat

/-- The lines after `init`. -/
def lineCountOf (framebuffer : Framebuffer) : ℕ :=
  (clamp framebuffer.height maxResHeight).toNat / framebuffer.font.height.toNat

@[simp]
theorem updateScreen_buffer (console : VirtualConsole) :
    console.updateScreen.buffer = console.buffer := by
  simp only [updateScreen]
  split <;> rfl

@[simp]
theorem updateScreen_lineLength (console : VirtualConsole) :
    console.updateScreen.lineLength = console.lineLength := by
  simp only [updateScreen]
  split <;> rfl

@[simp]
theorem updateScreen_lineCount (console : VirtualConsole) :
    console.updateScreen.lineCount = console.lineCount := by
  simp only [updateScreen]
  split <;> rfl

@[simp]
theorem updateScreen_cursorX (console : VirtualConsole) :
    console.updateScreen.cursorX = console.cursorX := by
  simp only [updateScreen]
  split <;> rfl

@[simp]
theorem updateScreen_cursorY (console : VirtualConsole) :
    console.updateScreen.cursorY = console.cursorY := by
  simp only [updateScreen]
  split <;> rfl

theorem textSize_space_width (framebuffer : Framebuffer) :
    (framebuffer.textSize space).width = framebuffer.font.width := by
  apply UInt32.toNat_inj.mp
  have bound := framebuffer.font.width.toNat_lt
  simp [Framebuffer.textSize, space]

theorem init_lineLength (console : VirtualConsole) (framebuffer : Framebuffer) :
    (console.init framebuffer).lineLength = lineLengthOf framebuffer := by
  simp only [init, updateScreen_lineLength, textSize_space_width, UInt32.toNat_div]
  rfl

theorem init_lineCount (console : VirtualConsole) (framebuffer : Framebuffer) :
    (console.init framebuffer).lineCount = lineCountOf framebuffer := by
  simp only [init, updateScreen_lineCount, UInt32.toNat_div]
  rfl

theorem init_cursorX (console : VirtualConsole) (framebuffer : Framebuffer) :
    (console.init framebuffer).cursorX = console.cursorX := by
  simp [init]

theorem init_cursorY (console : VirtualConsole) (framebuffer : Framebuffer) :
    (console.init framebuffer).cursorY = console.cursorY := by
  simp [init]

theorem clamp_le (resolution limit : UInt32) : (clamp resolution limit).toNat ≤ limit.toNat := by
  rw [clamp]
  split_ifs with larger
  · exact Nat.le_refl _
  · exact UInt32.le_iff_toNat_le.mp (UInt32.not_lt.mp larger)

theorem lineLengthOf_le (framebuffer : Framebuffer) : lineLengthOf framebuffer ≤ 1280 :=
  (Nat.div_le_self _ _).trans (clamp_le framebuffer.width maxResWidth)

@[simp]
theorem blankCells_lineLength (iterations : ℕ) :
    (console.blankCells iterations).lineLength = console.lineLength := by
  induction iterations generalizing console with
  | zero => rfl
  | succ iterations ih =>
      rw [blankCells, ih]
      rfl

@[simp]
theorem blankCells_lineCount (iterations : ℕ) :
    (console.blankCells iterations).lineCount = console.lineCount := by
  induction iterations generalizing console with
  | zero => rfl
  | succ iterations ih =>
      rw [blankCells, ih]
      rfl

@[simp]
theorem blankCells_cursorY (iterations : ℕ) :
    (console.blankCells iterations).cursorY = console.cursorY := by
  induction iterations generalizing console with
  | zero => rfl
  | succ iterations ih =>
      rw [blankCells, ih]
      rfl

@[simp]
theorem blankCells_cursorX (iterations : ℕ) :
    (console.blankCells iterations).cursorX = console.cursorX + iterations := by
  induction iterations generalizing console with
  | zero => rfl
  | succ iterations ih =>
      rw [blankCells, ih]
      simp only
      omega

/-- The cursor is inside a grid that the buffer has room for. -/
structure OnGrid (console : VirtualConsole) : Prop where
  fits : console.lineLength * console.lineCount ≤ bufferSize
  column : console.cursorX < console.lineLength
  row : console.cursorY < console.lineCount

/-- Rows inside the grid lie inside the buffer. -/
theorem row_end_le {lineLength lineCount row : ℕ} (fits : lineLength * lineCount ≤ bufferSize)
    (inside : row < lineCount) : row * lineLength + lineLength ≤ bufferSize := by
  have rows : (row + 1) * lineLength ≤ lineCount * lineLength := Nat.mul_le_mul_right _ inside
  rw [Nat.mul_comm lineCount] at rows
  calc row * lineLength + lineLength = (row + 1) * lineLength := by ring
    _ ≤ bufferSize := rows.trans fits

theorem cursorIndex_eq (fits : console.cursorY * console.lineLength + console.cursorX < 2 ^ 64) :
    console.cursorIndex = console.cursorY * console.lineLength + console.cursorX := by
  simp only [cursorIndex]
  rw [mul64_of_lt (by omega), add64_of_lt fits]

theorem cursorIndex_inBuffer (fits : console.lineLength * console.lineCount ≤ bufferSize)
    (column : console.cursorX < console.lineLength) (row : console.cursorY < console.lineCount) :
    InBuffer console.cursorIndex := by
  have rowEnd := row_end_le fits row
  have size : bufferSize < 2 ^ 64 := by decide
  rw [cursorIndex_eq (by omega)]
  simp only [InBuffer]
  omega

theorem blankCells_within {iterations : ℕ}
    (fits : console.lineLength * console.lineCount ≤ bufferSize)
    (columns : console.cursorX + iterations ≤ console.lineLength)
    (row : console.cursorY < console.lineCount) (start : console.buffer.Within InBuffer) :
    (console.blankCells iterations).buffer.Within InBuffer := by
  induction iterations generalizing console with
  | zero => exact start
  | succ iterations ih =>
      rw [blankCells]
      refine ih fits ?_ row ?_
      · simp only [putAtCursor]
        omega
      · simp only [putAtCursor, TracedStore.within_store]
        exact ⟨cursorIndex_inBuffer fits (by omega) row, start⟩

theorem scroll_within (fits : console.lineLength * console.lineCount ≤ bufferSize)
    (lines : 1 ≤ console.lineCount) (start : console.buffer.Within InBuffer) :
    console.scroll.buffer.Within InBuffer := by
  have size : bufferSize < 2 ^ 63 := by decide
  have split : console.lineLength * (console.lineCount - 1) + console.lineLength =
      console.lineLength * console.lineCount := by
    rcases Nat.exists_eq_add_of_le' lines with ⟨count, eq⟩
    rw [eq, Nat.add_sub_cancel]
    ring
  have countLt : console.lineLength = 0 ∨ console.lineCount < 2 ^ 64 := by
    rcases Nat.eq_zero_or_pos console.lineLength with zero | positive
    · exact Or.inl zero
    · exact Or.inr (lt_of_le_of_lt (Nat.le_mul_of_pos_left _ positive) (by omega))
  have kept : mul64 console.lineLength (sub64 console.lineCount 1) =
      console.lineLength * (console.lineCount - 1) := by
    rcases countLt with zero | countLt
    · simp [zero, mul64]
    · rw [sub64_of_le countLt lines, mul64_of_lt (by omega)]
  simp only [scroll]
  simp only [kept]
  refine memset_within _ _ (memmove_within _ _ start ?_) ?_
  · intro i bound
    rw [add64_of_lt (by omega)]
    simp only [InBuffer]
    omega
  · intro i bound
    rw [add64_of_lt (by omega)]
    simp only [InBuffer]
    omega

theorem wrapLine_within (fits : console.lineLength * console.lineCount ≤ bufferSize)
    (lines : 1 ≤ console.lineCount) (start : console.buffer.Within InBuffer) :
    console.wrapLine.buffer.Within InBuffer := by
  simp only [wrapLine]
  split_ifs
  · exact scroll_within fits lines start
  · exact start
  · exact start

theorem wrapLine_onGrid (fits : console.lineLength * console.lineCount ≤ bufferSize)
    (columns : 1 ≤ console.lineLength) (row : console.cursorY < console.lineCount) :
    console.wrapLine.OnGrid := by
  simp only [wrapLine]
  split_ifs with full last
  · exact ⟨fits, columns, by simpa [scroll, nextLine] using row⟩
  · exact ⟨fits, columns, Nat.lt_of_not_le last⟩
  · exact ⟨fits, by omega, row⟩

/-- One character keeps the cursor inside the grid and stores inside the buffer. -/
theorem appendChar_onGrid (onGrid : console.OnGrid) (start : console.buffer.Within InBuffer)
    (c : UInt8) :
    (console.appendChar c).OnGrid ∧ (console.appendChar c).buffer.Within InBuffer := by
  have columns : 1 ≤ console.lineLength := by have := onGrid.column; omega
  have lines : 1 ≤ console.lineCount := by have := onGrid.row; omega
  simp only [appendChar]
  split_ifs
  · -- a newline blanks the rest of the line
    have blanked : console.blankLine.buffer.Within InBuffer :=
      blankCells_within onGrid.fits (by have := onGrid.column; omega) onGrid.row start
    constructor
    · apply wrapLine_onGrid
      · simpa [blankLine] using onGrid.fits
      · simpa [blankLine] using columns
      · simpa [blankLine] using onGrid.row
    · apply wrapLine_within
      · simpa [blankLine] using onGrid.fits
      · simpa [blankLine] using lines
      · exact blanked
  · constructor
    · exact wrapLine_onGrid onGrid.fits columns onGrid.row
    · refine wrapLine_within onGrid.fits lines ?_
      simp only [putAtCursor, TracedStore.within_store]
      exact ⟨cursorIndex_inBuffer onGrid.fits onGrid.column onGrid.row, start⟩

/-- The console has no cells per line, and has stored only inside the buffer. -/
structure NoCells (console : VirtualConsole) : Prop where
  lineLength : console.lineLength = 0
  within : console.buffer.Within InBuffer

/-- A scroll of lines without cells moves nothing. -/
theorem NoCells.wrapLine (noCells : NoCells console) :
    console.wrapLine.NoCells ∧ console.wrapLine.cursorX = 0 := by
  have nothing : mul64 0 (sub64 console.lineCount 1) = 0 := by simp [mul64]
  rw [VirtualConsole.wrapLine, if_pos (by simp [noCells.lineLength])]
  split_ifs
  · refine ⟨⟨noCells.lineLength, ?_⟩, rfl⟩
    simpa [scroll, nextLine, noCells.lineLength, nothing, memmove, memset] using noCells.within
  · exact ⟨⟨noCells.lineLength, noCells.within⟩, rfl⟩

theorem NoCells.appendChar (noCells : NoCells console) (column : console.cursorX = 0) (c : UInt8) :
    (console.appendChar c).NoCells ∧ (console.appendChar c).cursorX = 0 := by
  have index : InBuffer console.cursorIndex := by
    simp only [cursorIndex, noCells.lineLength, column]
    simp [mul64, add64, InBuffer, bufferSize]
  rw [VirtualConsole.appendChar]
  apply NoCells.wrapLine
  split_ifs
  · have blanked : console.blankLine = console := by
      simp [blankLine, noCells.lineLength, blankCells]
    rw [blanked]
    exact ⟨noCells.lineLength, noCells.within⟩
  · refine ⟨noCells.lineLength, ?_⟩
    simp only [putAtCursor, TracedStore.within_store]
    exact ⟨index, noCells.within⟩

theorem wrapLine_footprint_subset (console : VirtualConsole) :
    console.buffer.footprint ⊆ console.wrapLine.buffer.footprint := by
  simp only [wrapLine]
  split_ifs
  · exact fun index before => memset_footprint_subset _ _ _ _
      (memmove_footprint_subset _ _ _ _ before)
  · exact List.Subset.refl _
  · exact List.Subset.refl _

/-- Without a line, the first newline copies almost the whole address space. -/
theorem newline_outside (console : VirtualConsole) (columns : 1 ≤ console.lineLength)
    (short : console.lineLength ≤ 1280)
    (noLines : console.lineCount = 0) :
    ∃ index ∈ (console.appendChar (chr '\n')).buffer.footprint, ¬InBuffer index := by
  have largest : sub64 0 1 = 18446744073709551615 := by decide
  have length : mul64 console.lineLength (sub64 0 1) = 2 ^ 64 - console.lineLength - 1 + 1 := by
    rw [largest, mul64]
    omega
  refine ⟨add64 0 (2 ^ 64 - console.lineLength - 1), ?_, ?_⟩
  · rw [appendChar, if_pos rfl, wrapLine, if_pos (by simp [blankLine]; omega),
      if_pos (by simp [nextLine, blankLine, noLines])]
    refine memset_footprint_subset _ _ _ _ ?_
    simp only [nextLine, blankLine, blankCells_lineLength, blankCells_lineCount, noLines, length]
    exact last_mem_memmove_footprint _ (by omega) _
  · have size : bufferSize ≤ 2 ^ 32 := by decide
    rw [add64_of_lt (by omega)]
    simp only [InBuffer]
    omega

/-- After `count` characters without a newline, all on the grid, the cursor is behind them. -/
structure Filled (count : ℕ) (console : VirtualConsole) : Prop where
  column : console.cursorX < console.lineLength
  position : console.cursorY * console.lineLength + console.cursorX = count

theorem Filled.appendChar {count : ℕ} (filled : Filled count console) {c : UInt8}
    (visible : c ≠ chr '\n') (room : count + 1 < console.lineLength * console.lineCount) :
    Filled (count + 1) (console.appendChar c) ∧
      (console.appendChar c).lineLength = console.lineLength ∧
      (console.appendChar c).lineCount = console.lineCount := by
  rcases filled with ⟨column, position⟩
  rw [VirtualConsole.appendChar, if_neg visible, wrapLine]
  split_ifs with full last
  · -- the cursor cannot leave the last line, since more cells are left
    have full : console.lineLength ≤ console.cursorX + 1 := full
    have last : console.lineCount ≤ console.cursorY + 1 := last
    have rows := Nat.mul_le_mul_right console.lineLength last
    have next : (console.cursorY + 1) * console.lineLength = count + 1 := by
      rw [Nat.add_mul, one_mul]
      omega
    rw [next, Nat.mul_comm] at rows
    omega
  · refine ⟨⟨Nat.zero_lt_of_lt column, ?_⟩, rfl, rfl⟩
    have full : console.lineLength ≤ console.cursorX + 1 := full
    change (console.cursorY + 1) * console.lineLength + 0 = count + 1
    rw [Nat.add_mul, one_mul]
    omega
  · have notFull : ¬console.lineLength ≤ console.cursorX + 1 := full
    refine ⟨⟨Nat.lt_of_not_le notFull, ?_⟩, rfl, rfl⟩
    change console.cursorY * console.lineLength + (console.cursorX + 1) = count + 1
    omega

theorem Filled.appendChars (chars : List UInt8) (visible : ∀ c ∈ chars, c ≠ chr '\n') {count : ℕ}
    (filled : Filled count console)
    (room : count + chars.length < console.lineLength * console.lineCount) :
    Filled (count + chars.length) (chars.foldl VirtualConsole.appendChar console) := by
  induction chars generalizing count console with
  | nil => exact filled
  | cons c chars ih =>
      rw [List.length_cons] at room
      obtain ⟨next, lineLength, lineCount⟩ :=
        filled.appendChar (visible c List.mem_cons_self) (by omega)
      rw [List.foldl_cons, List.length_cons, show count + (chars.length + 1) =
        count + 1 + chars.length by omega]
      exact ih (fun c later => visible c (List.mem_cons_of_mem _ later)) next
        (by rw [lineLength, lineCount]; omega)

/-- The character behind `bufferSize` others is stored behind the buffer. -/
theorem Filled.outside (filled : Filled bufferSize console) {c : UInt8} (visible : c ≠ chr '\n') :
    bufferSize ∈ (console.appendChar c).buffer.footprint := by
  rw [VirtualConsole.appendChar, if_neg visible]
  refine wrapLine_footprint_subset _ ?_
  have index : console.cursorIndex = bufferSize := by
    rw [cursorIndex_eq (by rw [filled.position]; decide), filled.position]
  exact index ▸ List.mem_cons_self

/-- The console has stored only inside the buffer and will go on doing so. -/
def Safe (console : VirtualConsole) : Prop :=
  console.OnGrid ∧ console.buffer.Within InBuffer ∨ console.NoCells ∧ console.cursorX = 0

theorem Safe.within (safe : console.Safe) : console.buffer.Within InBuffer := by
  rcases safe with ⟨_, within⟩ | ⟨noCells, _⟩
  · exact within
  · exact noCells.within

theorem Safe.appendChar (safe : console.Safe) (c : UInt8) : (console.appendChar c).Safe := by
  rcases safe with ⟨onGrid, within⟩ | ⟨noCells, column⟩
  · exact Or.inl (appendChar_onGrid onGrid within c)
  · exact Or.inr (noCells.appendChar column c)

theorem Safe.appendChars (safe : console.Safe) (chars : List UInt8) :
    (chars.foldl VirtualConsole.appendChar console).Safe := by
  induction chars generalizing console with
  | nil => exact safe
  | cons c chars ih => exact ih (safe.appendChar c)

theorem safe_updateScreen : console.updateScreen.Safe ↔ console.Safe := by
  simp only [updateScreen]
  split
  · constructor
    · rintro (⟨⟨fits, column, row⟩, within⟩ | ⟨⟨lineLength, within⟩, column⟩)
      · exact Or.inl ⟨⟨fits, column, row⟩, within⟩
      · exact Or.inr ⟨⟨lineLength, within⟩, column⟩
    · rintro (⟨⟨fits, column, row⟩, within⟩ | ⟨⟨lineLength, within⟩, column⟩)
      · exact Or.inl ⟨⟨fits, column, row⟩, within⟩
      · exact Or.inr ⟨⟨lineLength, within⟩, column⟩
  · rfl

theorem Safe.appendText (safe : console.Safe) (text : CString) :
    (console.appendText text).Safe := by
  refine safe_updateScreen.mpr (Safe.appendChars ?_ _)
  rcases safe with ⟨⟨fits, column, row⟩, within⟩ | ⟨⟨lineLength, within⟩, column⟩
  · exact Or.inl ⟨⟨fits, column, row⟩, within⟩
  · exact Or.inr ⟨⟨lineLength, within⟩, column⟩

theorem Safe.appendTexts (safe : console.Safe) (texts : List CString) :
    (console.appendTexts texts).Safe := by
  induction texts generalizing console with
  | nil => exact safe
  | cons text texts ih => exact ih (safe.appendText text)

theorem init_within (contents : ℕ → UInt8) (framebuffer : Framebuffer) :
    ((initial contents).init framebuffer).buffer.Within InBuffer := by
  simp only [init, updateScreen_buffer]
  refine memset_within _ _ (TracedStore.within_fresh _ _) fun i bound => ?_
  rw [add64_of_lt (lt_trans (by omega) (show bufferSize < 2 ^ 64 by decide))]
  simp only [InBuffer]
  omega

theorem init_safe (contents : ℕ → UInt8) {framebuffer : Framebuffer}
    (fits : GridFits (lineLengthOf framebuffer) (lineCountOf framebuffer)) :
    ((initial contents).init framebuffer).Safe := by
  have within := init_within contents framebuffer
  by_cases noCells : lineLengthOf framebuffer = 0
  · exact Or.inr ⟨⟨by rw [init_lineLength, noCells], within⟩, init_cursorX ..⟩
  · rcases fits.resolve_left noCells with ⟨lines, cells⟩
    refine Or.inl ⟨⟨?_, ?_, ?_⟩, within⟩
    · rw [init_lineLength, init_lineCount]
      exact cells
    · rw [init_cursorX, init_lineLength]
      exact Nat.pos_of_ne_zero noCells
    · rw [init_cursorY, init_lineCount]
      exact lines

theorem appendText_footprint (console : VirtualConsole) (text : CString) :
    (console.appendText text).buffer.footprint =
      (text.chars.foldl VirtualConsole.appendChar
        { console with serial := console.serial ++ text.chars }).buffer.footprint := by
  rw [appendText, updateScreen_buffer]

/-- A newline. -/
def newline : CString := ⟨[chr '\n'], by decide⟩

/-- One character more than the buffer has room for. -/
def longLine : CString where
  chars := List.replicate bufferSize (chr 'a') ++ [chr 'a']
  noNul := by
    intro nul
    rcases List.mem_append.mp nul with first | last
    · exact absurd (List.eq_of_mem_replicate first) (by decide)
    · exact absurd (List.mem_singleton.mp last) (by decide)

theorem longLine_chars :
    longLine.chars = List.replicate bufferSize (chr 'a') ++ [chr 'a'] := rfl

attribute [irreducible] longLine

theorem longLine_outside (columns : 1 ≤ console.lineLength) (cursor : console.cursorX = 0)
    (line : console.cursorY = 0) (large : bufferSize < console.lineLength * console.lineCount) :
    ¬(console.appendText longLine).buffer.Within InBuffer := by
  intro within
  have visible : chr 'a' ≠ chr '\n' := by decide
  have stored : bufferSize ∈ (console.appendText longLine).buffer.footprint := by
    rw [appendText_footprint]
    generalize console.serial ++ longLine.chars = serial
    have start : Filled 0 { console with serial := serial } :=
      ⟨by simp only [cursor]; omega, by simp [cursor, line]⟩
    have filled := start.appendChars (List.replicate bufferSize (chr 'a'))
      (fun c mem => List.eq_of_mem_replicate mem ▸ visible) (by simpa using large)
    rw [List.length_replicate, zero_add] at filled
    rw [longLine_chars, List.foldl_append, List.foldl_cons, List.foldl_nil]
    exact filled.outside visible
  exact absurd (within _ stored) (lt_irrefl _)

/--
`appendText` stores only inside the static buffer, whatever texts follow `init`,
exactly if the grid fits: there are no cells per line, or there is a line and
the grid has at most `bufferSize` cells.
-/
theorem appendTexts_within_iff (contents : ℕ → UInt8) (framebuffer : Framebuffer) :
    (∀ texts, (((initial contents).init framebuffer).appendTexts texts).buffer.Within InBuffer) ↔
      GridFits (lineLengthOf framebuffer) (lineCountOf framebuffer) := by
  constructor
  · intro within
    by_contra unfit
    have columns : 1 ≤ lineLengthOf framebuffer := by
      by_contra none
      exact unfit (Or.inl (by omega))
    by_cases lines : 1 ≤ lineCountOf framebuffer
    · have large : bufferSize < lineLengthOf framebuffer * lineCountOf framebuffer := by
        by_contra small
        exact unfit (Or.inr ⟨lines, by omega⟩)
      have run := within [longLine]
      rw [appendTexts, List.foldl_cons, List.foldl_nil] at run
      refine longLine_outside ?_ (init_cursorX (initial contents) framebuffer)
        (init_cursorY (initial contents) framebuffer) ?_ run
      · rw [init_lineLength]
        exact columns
      · rw [init_lineLength, init_lineCount]
        exact large
    · have start : ((initial contents).init framebuffer).lineLength = lineLengthOf framebuffer :=
        init_lineLength ..
      have short := lineLengthOf_le framebuffer
      obtain ⟨index, stored, outside⟩ := newline_outside
        { (initial contents).init framebuffer with
          serial := ((initial contents).init framebuffer).serial ++ newline.chars }
        (by simp only [start]; exact columns) (by simp only [start]; exact short)
        (by simp only [init_lineCount]; omega)
      refine outside (within [newline] index ?_)
      rw [appendTexts, List.foldl_cons, List.foldl_nil, appendText_footprint]
      exact stored
  · intro fits texts
    exact ((init_safe contents fits).appendTexts texts).within

/-- A full-size screen with 8x8 cells has a grid of 160 by 128 cells. -/
def smallCells : Framebuffer :=
  { width := 1280, height := 1024, font := { width := 8, height := 8 } }

/-- With 8x8 cells, a long line is stored behind the buffer. -/
theorem smallCells_outside :
    ¬(((initial fun _ => 0).init smallCells).appendText longLine).buffer.Within InBuffer := by
  refine longLine_outside ?_ (init_cursorX (initial fun _ => 0) smallCells)
    (init_cursorY (initial fun _ => 0) smallCells) ?_
  · rw [init_lineLength]
    decide
  · rw [init_lineLength, init_lineCount]
    decide

end VirtualConsole

end Dvnetos.Console
