import Dvnetos.Framebuffer.CharPaint
import Dvnetos.Framebuffer.ConsoleBounds

/-!
# The grid on the screen

`updateScreen` paints one picture: the pixel in a cell of the grid is the pixel of the glyph
there. The cells of the grid lie on the screen, because `init` divides its clamped size, and
the picture says by itself that they do not overlap.
-/

namespace Dvnetos.Console.VirtualConsole

open Word
open Stdio (CString)

variable {console : VirtualConsole}

/-- What only `init` changes. -/
def geometry (console : VirtualConsole) : Bool × Size × ℕ × ℕ :=
  (console.initComplete, console.fontSize, console.lineLength, console.lineCount)

theorem updateScreen_geometry (console : VirtualConsole) :
    console.updateScreen.geometry = console.geometry := by
  rw [updateScreen]
  split_ifs <;> rfl

theorem blankCells_geometry (iterations : ℕ) :
    (console.blankCells iterations).geometry = console.geometry := by
  induction iterations generalizing console with
  | zero => rfl
  | succ iterations ih =>
      rw [blankCells, ih]
      rfl

theorem wrapLine_geometry (console : VirtualConsole) :
    console.wrapLine.geometry = console.geometry := by
  rw [wrapLine]
  split_ifs <;> rfl

theorem appendChar_geometry (console : VirtualConsole) (c : UInt8) :
    (console.appendChar c).geometry = console.geometry := by
  rw [appendChar, wrapLine_geometry]
  split_ifs
  · exact blankCells_geometry _
  · rfl

theorem appendText_geometry (console : VirtualConsole) (text : CString) :
    (console.appendText text).geometry = console.geometry := by
  have chars (list : List UInt8) (console : VirtualConsole) :
      (list.foldl appendChar console).geometry = console.geometry := by
    induction list generalizing console with
    | nil => rfl
    | cons c rest ih => rw [List.foldl_cons, ih, appendChar_geometry]
  rw [appendText, updateScreen_geometry, chars]
  rfl

theorem appendTexts_geometry (console : VirtualConsole) (texts : List CString) :
    (console.appendTexts texts).geometry = console.geometry := by
  induction texts generalizing console with
  | nil => rfl
  | cons text rest ih =>
      rw [appendTexts, List.foldl_cons]
      exact (ih _).trans (appendText_geometry console text)

theorem init_geometry (console : VirtualConsole) (framebuffer : Framebuffer) :
    (console.init framebuffer).geometry =
      (true, framebuffer.font, lineLengthOf framebuffer, lineCountOf framebuffer) := by
  have cell : framebuffer.textSize space = framebuffer.font := by
    calc framebuffer.textSize space
        = ⟨(framebuffer.textSize space).width, framebuffer.font.height⟩ := rfl
      _ = framebuffer.font := by rw [textSize_space_width]
  rw [init, updateScreen_geometry, geometry, cell, UInt32.toNat_div, UInt32.toNat_div]
  rfl

/-- The calls of `updateScreen` for a grid that fits the buffer. -/
theorem mem_screenCalls_iff (fits : console.lineLength * console.lineCount ≤ bufferSize)
    {call : DrawCall} :
    call ∈ console.screenCalls ↔
      ∃ x < console.lineLength, ∃ y < console.lineCount,
        call = { c := console.buffer.cells (y * console.lineLength + x)
                 x := UInt32.ofNat x * console.fontSize.width
                 y := UInt32.ofNat y * console.fontSize.height } := by
  simp only [screenCalls, List.mem_flatMap, List.mem_filterMap, List.mem_range]
  refine exists_congr fun x => and_congr_right fun column => exists_congr fun y =>
    and_congr_right fun row => ?_
  have place := row_end_le fits row
  have size : bufferSize < 2 ^ 64 := by decide
  have index : add64 (mul64 y console.lineLength) x = y * console.lineLength + x := by
    rw [mul64_of_lt (by omega), add64_of_lt (by omega)]
  rw [index, if_pos (by omega)]
  simp only [Option.some.injEq, eq_comm]

end Dvnetos.Console.VirtualConsole

namespace Dvnetos.Display

open Console (VirtualConsole)
open Console.VirtualConsole (lineLengthOf lineCountOf)
open TracedStore

section Screen

variable {console : VirtualConsole} {framebuffer : Framebuffer} {charSigned : Bool}

/-- The colour of a pixel of the grid: that of the glyph in its cell. -/
def gridPixel (console : VirtualConsole) (charSigned : Bool) (font : PSF2) (x y : ℕ) : UInt32 :=
  font.glyphPixel charSigned
    (console.buffer.cells
      (y / font.height.toNat * console.lineLength + x / font.width.toNat))
    (y % font.height.toNat) (x % font.width.toNat)

/-- A pixel that is part of a cell. -/
def InGrid (console : VirtualConsole) (font : PSF2) (x y : ℕ) : Prop :=
  x < console.lineLength * font.width.toNat ∧ y < console.lineCount * font.height.toNat

/-- The console has the geometry for the framebuffer. -/
def SetUp (console : VirtualConsole) (framebuffer : Framebuffer) : Prop :=
  console.geometry = (true, framebuffer.forConsole.font, lineLengthOf framebuffer.forConsole,
    lineCountOf framebuffer.forConsole)

theorem clamp_le_resolution (resolution limit : UInt32) :
    (Console.VirtualConsole.clamp resolution limit).toNat ≤ resolution.toNat := by
  rw [Console.VirtualConsole.clamp]
  split_ifs with larger
  · exact Nat.le_of_lt larger
  · exact Nat.le_refl _

/-- The cells lie on the screen. -/
theorem SetUp.onScreen (setUp : SetUp console framebuffer) :
    console.lineLength * framebuffer.font.width.toNat ≤ framebuffer.width.toNat ∧
      console.lineCount * framebuffer.font.height.toNat ≤ framebuffer.height.toNat := by
  have length : console.lineLength = lineLengthOf framebuffer.forConsole :=
    congrArg (·.2.2.1) setUp
  have count : console.lineCount = lineCountOf framebuffer.forConsole := congrArg (·.2.2.2) setUp
  rw [length, count]
  exact ⟨(Nat.div_mul_le_self _ _).trans (clamp_le_resolution _ _),
    (Nat.div_mul_le_self _ _).trans (clamp_le_resolution _ _)⟩

theorem cell_lt {cells size cell offset : ℕ} (below : cell < cells) (inside : offset < size) :
    cell * size + offset < cells * size := by
  calc cell * size + offset < (cell + 1) * size := by rw [Nat.succ_mul]; omega
    _ ≤ cells * size := Nat.mul_le_mul_right size below

/-- The picture of the grid, by the places of its pixels. -/
def gridPicture (console : VirtualConsole) (charSigned : Bool) (framebuffer : Framebuffer)
    (address : ℕ) : UInt32 :=
  gridPixel console charSigned framebuffer.font (address % (framebuffer.pitch.toNat / 4))
    (address / (framebuffer.pitch.toNat / 4))

theorem gridPicture_pixel {x y : ℕ} (inLine : x < framebuffer.pitch.toNat / 4) :
    gridPicture console charSigned framebuffer (framebuffer.pixel x y) =
      gridPixel console charSigned framebuffer.font x y := by
  rcases Framebuffer.pixel_place inLine with ⟨row, column⟩
  rw [gridPicture, row, column]

theorem gridPixel_cell {font : PSF2} {x y i j : ℕ} (row : i < font.height.toNat)
    (column : j < font.width.toNat) :
    gridPixel console charSigned font (x * font.width.toNat + j) (y * font.height.toNat + i) =
      font.glyphPixel charSigned (console.buffer.cells (y * console.lineLength + x)) i j := by
  rcases cell_place column with ⟨cellX, offsetX⟩
  rcases cell_place row with ⟨cellY, offsetY⟩
  rw [gridPixel, cellX, offsetX, cellY, offsetY]

/-- Where a call of `updateScreen` draws. -/
theorem cell_toNat {cells size cell : ℕ} {extent : UInt32} (below : cell < cells)
    (onScreen : cells * extent.toNat ≤ size) (small : size < 2 ^ 32) :
    (UInt32.ofNat cell * extent).toNat = cell * extent.toNat ∧
      cell * extent.toNat + extent.toNat ≤ size := by
  have stop : cell * extent.toNat + extent.toNat ≤ cells * extent.toNat := by
    rw [← Nat.succ_mul]
    exact Nat.mul_le_mul_right _ below
  refine ⟨?_, stop.trans onScreen⟩
  rw [UInt32.toNat_mul, UInt32.toNat_ofNat', Nat.mod_mul_mod]
  exact Nat.mod_eq_of_lt (by omega)

/-- The call of `updateScreen` for a cell. -/
def cellCall (console : VirtualConsole) (font : PSF2) (x y : ℕ) : Console.DrawCall :=
  { c := console.buffer.cells (y * console.lineLength + x)
    x := UInt32.ofNat x * font.width
    y := UInt32.ofNat y * font.height }

theorem SetUp.mem_screenCalls_iff (setUp : SetUp console framebuffer)
    (fits : console.lineLength * console.lineCount ≤ Console.bufferSize)
    {call : Console.DrawCall} :
    call ∈ console.screenCalls ↔ ∃ x < console.lineLength, ∃ y < console.lineCount,
      call = cellCall console framebuffer.font x y := by
  have fontSize : console.fontSize = framebuffer.forConsole.font := congrArg (·.2.1) setUp
  rw [Console.VirtualConsole.mem_screenCalls_iff fits, fontSize]
  rfl

/-- Where the call for a cell draws. -/
theorem SetUp.cellCall_place (setUp : SetUp console framebuffer) {x y : ℕ}
    (column : x < console.lineLength) (row : y < console.lineCount) :
    let call := cellCall console framebuffer.font x y
    (call.x.toNat = x * framebuffer.font.width.toNat ∧
        x * framebuffer.font.width.toNat + framebuffer.font.width.toNat ≤
          framebuffer.width.toNat) ∧
      call.y.toNat = y * framebuffer.font.height.toNat ∧
        y * framebuffer.font.height.toNat + framebuffer.font.height.toNat ≤
          framebuffer.height.toNat :=
  ⟨cell_toNat column setUp.onScreen.1 framebuffer.width.toNat_lt,
    cell_toNat row setUp.onScreen.2 framebuffer.height.toNat_lt⟩

/-- The cells of the grid are its pixels. -/
theorem SetUp.draws_iff (setUp : SetUp console framebuffer)
    (fits : console.lineLength * console.lineCount ≤ Console.bufferSize) (address : ℕ) :
    (∃ call ∈ console.screenCalls, framebuffer.Draws call address) ↔
      ∃ x y, InGrid console framebuffer.font x y ∧ address = framebuffer.pixel x y := by
  constructor
  · rintro ⟨call, member, i, row, j, column, rfl⟩
    rcases (setUp.mem_screenCalls_iff fits).mp member with ⟨x, belowX, y, belowY, rfl⟩
    rcases setUp.cellCall_place belowX belowY with ⟨⟨isX, -⟩, isY, -⟩
    rw [isX, isY]
    exact ⟨_, _, ⟨cell_lt belowX column, cell_lt belowY row⟩, rfl⟩
  · rintro ⟨x, y, ⟨inX, inY⟩, rfl⟩
    have width : 0 < framebuffer.font.width.toNat := Nat.pos_of_mul_pos_left (Nat.zero_lt_of_lt inX)
    have height : 0 < framebuffer.font.height.toNat :=
      Nat.pos_of_mul_pos_left (Nat.zero_lt_of_lt inY)
    have belowX := (Nat.div_lt_iff_lt_mul width).mpr inX
    have belowY := (Nat.div_lt_iff_lt_mul height).mpr inY
    rcases setUp.cellCall_place belowX belowY with ⟨⟨isX, -⟩, isY, -⟩
    refine ⟨_, (setUp.mem_screenCalls_iff fits).mpr ⟨_, belowX, _, belowY, rfl⟩, ?_⟩
    refine ⟨y % framebuffer.font.height.toNat, Nat.mod_lt _ height,
      x % framebuffer.font.width.toNat, Nat.mod_lt _ width, ?_⟩
    rw [isX, isY, Nat.div_add_mod', Nat.div_add_mod']

/-- `updateScreen` paints the pixels of the grid. -/
theorem updateScreen_paints (setUp : SetUp console framebuffer)
    (addressable : framebuffer.Addressable) (narrow : framebuffer.font.width.toNat ≤ 32)
    (fits : console.lineLength * console.lineCount ≤ Console.bufferSize) :
    Paints (gridPicture console charSigned framebuffer)
      (fun address => ∃ x y, InGrid console framebuffer.font x y ∧
        address = framebuffer.pixel x y)
      framebuffer.fb (updateScreen console charSigned framebuffer).fb := by
  have complete : console.initComplete = true := congrArg (·.1) setUp
  have lines := addressable.lines
  rw [updateScreen, if_pos complete, draw_eq]
  have each : ∀ call ∈ console.screenCalls, ∀ memory,
      Paints (gridPicture console charSigned framebuffer) (framebuffer.Draws call) memory
        (drawRows framebuffer.font framebuffer.pitch call.x framebuffer.font.height.toNat
          (framebuffer.font.glyph charSigned call.c) call.y memory) := by
    intro call member
    rcases (setUp.mem_screenCalls_iff fits).mp member with ⟨x, belowX, y, belowY, rfl⟩
    rcases setUp.cellCall_place belowX belowY with ⟨⟨isX, stopX⟩, isY, stopY⟩
    apply drawCall_paints addressable narrow
    · rw [isX]
      omega
    · rwa [isY]
    · intro i row j column
      rw [isX, isY, gridPicture_pixel (by omega), gridPixel_cell row column]
      rfl
  exact (Paints.foldl each framebuffer.fb).congr (setUp.draws_iff fits)

/-- The pixels of the grid have the colours of the glyphs, and nothing else has changed. -/
structure ShowsGrid (console : VirtualConsole) (charSigned : Bool)
    (before after : Framebuffer) : Prop where
  visible : ∀ address ∈ after.fb.footprint, address ∈ before.fb.footprint ∨
    ∃ x < before.width.toNat, ∃ y < before.height.toNat, address = before.pixel x y
  grid : ∀ x y, InGrid console before.font x y →
    after.fb.cells (before.pixel x y) = gridPixel console charSigned before.font x y
  rest : ∀ x < before.width.toNat, ∀ y < before.height.toNat, ¬InGrid console before.font x y →
    after.fb.cells (before.pixel x y) = before.fb.cells (before.pixel x y)

theorem setUp_appendTexts (console : VirtualConsole) (framebuffer : Framebuffer)
    (texts : List Stdio.CString) :
    SetUp ((console.init framebuffer.forConsole).appendTexts texts) framebuffer := by
  rw [SetUp, Console.VirtualConsole.appendTexts_geometry, Console.VirtualConsole.init_geometry]

/-- `updateScreen` after `init` and any texts shows the grid on the screen. -/
theorem updateScreen_showsGrid (console : VirtualConsole) (texts : List Stdio.CString)
    (charSigned : Bool) (addressable : framebuffer.Addressable)
    (narrow : framebuffer.font.width.toNat ≤ 32)
    (fits : lineLengthOf framebuffer.forConsole * lineCountOf framebuffer.forConsole ≤
      Console.bufferSize) :
    let console := (console.init framebuffer.forConsole).appendTexts texts
    ShowsGrid console charSigned framebuffer (updateScreen console charSigned framebuffer) := by
  intro console
  have setUp : SetUp console framebuffer := setUp_appendTexts _ framebuffer texts
  have length : console.lineLength = lineLengthOf framebuffer.forConsole :=
    congrArg (·.2.2.1) setUp
  have count : console.lineCount = lineCountOf framebuffer.forConsole := congrArg (·.2.2.2) setUp
  rw [← length, ← count] at fits
  have paints : Paints (gridPicture console charSigned framebuffer) _ _ _ :=
    updateScreen_paints setUp addressable narrow fits
  rcases setUp.onScreen with ⟨onScreenX, onScreenY⟩
  have lines := addressable.lines
  refine ⟨?_, ?_, ?_⟩
  · intro address stored
    rcases paints.frame.footprint address stored with ⟨x, y, ⟨inX, inY⟩, rfl⟩ | earlier
    · exact .inr ⟨x, by omega, y, by omega, rfl⟩
    · exact .inl earlier
  · rintro x y ⟨inX, inY⟩
    rw [paints.painted _ ⟨x, y, ⟨inX, inY⟩, rfl⟩]
    exact gridPicture_pixel (by omega)
  · intro x inX y inY outside
    apply paints.frame.cells
    rintro ⟨x', y', inGrid, same⟩
    have inX' := inGrid.1
    rcases Framebuffer.pixel_inj (by omega) (by omega) same with ⟨rfl, rfl⟩
    exact outside inGrid

end Screen

/-- A font of 8x16 pixels in which every glyph has stripes. -/
def smallFont : PSF2 :=
  { headersize := 32
    numglyph := 256
    bytesperglyph := 16
    height := 16
    width := 8
    fontData := fun _ => 0xAA }

/-- A screen for two characters, with a column on the right that is not part of the grid. -/
def smallScreen : Framebuffer :=
  { fb := .fresh fun _ => 0
    width := 17
    height := 16
    pitch := 80
    font := smallFont }

/-- Of three letters in two cells, the grid shows the last one. -/
theorem updateScreen_showsGrid_smallScreen :
    let letters : Stdio.CString := ⟨"abc".toList.map Stdio.chr, by decide⟩
    let console :=
      ((VirtualConsole.initial fun _ => 0).init smallScreen.forConsole).appendTexts [letters]
    console.cursorX = 1 ∧
      ShowsGrid console true smallScreen (updateScreen console true smallScreen) := by
  intro letters console
  refine ⟨by decide +kernel, ?_⟩
  exact updateScreen_showsGrid _ [letters] true ⟨by decide, by decide, by decide⟩ (by decide)
    (by decide)

end Dvnetos.Display
