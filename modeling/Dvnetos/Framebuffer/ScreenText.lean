import Dvnetos.Framebuffer.ConsoleTerminal
import Dvnetos.Framebuffer.ScreenPaint

/-!
# Texts on the screen

A console with its framebuffer, from `init` on: every text is drawn on what the earlier ones have
left. After any texts the pixels of the grid show the last rows of an unbounded terminal that is
given the same texts, and no other pixel has changed.
-/

namespace Dvnetos.Display

open Console (VirtualConsole)
open Console.VirtualConsole (Displays lineLengthOf lineCountOf)
open Scrollback TracedStore
open Stdio (CString chr)

/-- A console and the framebuffer that it draws on. -/
structure Screen where
  console : VirtualConsole
  framebuffer : Framebuffer

namespace Screen

/-- `init(framebuffer)` of the console. -/
def init (screen : Screen) (charSigned : Bool) : Screen :=
  let console := screen.console.init screen.framebuffer.forConsole
  { console, framebuffer := updateScreen console charSigned screen.framebuffer }

/-- `appendText(text)` of the console. -/
def appendText (screen : Screen) (charSigned : Bool) (text : CString) : Screen :=
  let console := screen.console.appendText text
  { console, framebuffer := updateScreen console charSigned screen.framebuffer }

/-- The screen after texts, one after another. -/
def appendTexts (screen : Screen) (charSigned : Bool) (texts : List CString) : Screen :=
  texts.foldl (fun screen text => screen.appendText charSigned text) screen

end Screen

/-- The framebuffer apart from its pixels. -/
def Framebuffer.geometry (framebuffer : Framebuffer) : UInt32 × UInt32 × UInt32 × PSF2 :=
  (framebuffer.width, framebuffer.height, framebuffer.pitch, framebuffer.font)

theorem updateScreen_geometry (console : VirtualConsole) (charSigned : Bool)
    (framebuffer : Framebuffer) :
    (updateScreen console charSigned framebuffer).geometry = framebuffer.geometry := by
  rw [updateScreen]
  split_ifs
  · rw [draw_eq]
    rfl
  · rfl

section Run

variable {screen after : Screen} {charSigned : Bool} {terminal : Terminal UInt8}

/-- The characters of a terminal as pixels. -/
def terminalPixel (font : PSF2) (charSigned : Bool) (lines : ℕ) (terminal : Terminal UInt8)
    (x y : ℕ) : UInt32 :=
  font.glyphPixel charSigned
    (shown lines (chr ' ') terminal.rows (y / font.height.toNat) (x / font.width.toNat))
    (y % font.height.toNat) (x % font.width.toNat)

/-- The places of the pixels of the grid. -/
def GridPlace (framebuffer : Framebuffer) (address : ℕ) : Prop :=
  ∃ x y, x < lineLengthOf framebuffer.forConsole * framebuffer.font.width.toNat ∧
    y < lineCountOf framebuffer.forConsole * framebuffer.font.height.toNat ∧
    address = framebuffer.pixel x y

/-- What the screen has come to since `init` on a framebuffer. -/
structure Shows (start : Framebuffer) (charSigned : Bool) (screen : Screen)
    (terminal : Terminal UInt8) : Prop where
  setUp : SetUp screen.console start
  geometry : screen.framebuffer.geometry = start.geometry
  displays : Displays (lineLengthOf start.forConsole) (lineCountOf start.forConsole)
    screen.console terminal
  paints : Paints (gridPicture screen.console charSigned start) (GridPlace start) start.fb
    screen.framebuffer.fb

section Start

variable {start : Framebuffer} (addressable : start.Addressable)
variable (narrow : start.font.width.toNat ≤ 32)
variable (fits : lineLengthOf start.forConsole * lineCountOf start.forConsole ≤ Console.bufferSize)

include addressable

section Grid

include narrow fits

/-- One update paints the grid of the console on whatever there is. -/
theorem updateScreen_paintsGrid {console : VirtualConsole} {framebuffer : Framebuffer}
    (setUp : SetUp console start) (geometry : framebuffer.geometry = start.geometry) :
    Paints (gridPicture console charSigned start) (GridPlace start) framebuffer.fb
      (updateScreen console charSigned framebuffer).fb := by
  rcases framebuffer with ⟨fb, width, height, pitch, font⟩
  cases geometry
  have length : console.lineLength = lineLengthOf start.forConsole := congrArg (·.2.2.1) setUp
  have count : console.lineCount = lineCountOf start.forConsole := congrArg (·.2.2.2) setUp
  have here : SetUp console { start with fb := fb } := setUp
  rw [← length, ← count] at fits
  refine (updateScreen_paints here ⟨addressable.1, addressable.2, addressable.3⟩ narrow
    fits).congr ?_
  intro address
  simp only [GridPlace, InGrid, ← length, ← count, and_assoc]
  rfl

theorem Shows.init (console : VirtualConsole) (columns : 1 ≤ lineLengthOf start.forConsole)
    (positive : 1 ≤ lineCountOf start.forConsole) (cursorX : console.cursorX = 0)
    (cursorY : console.cursorY = 0) :
    Shows start charSigned (Screen.init ⟨console, start⟩ charSigned) Terminal.empty := by
  have setUp : SetUp (console.init start.forConsole) start :=
    Console.VirtualConsole.init_geometry console start.forConsole
  exact ⟨setUp, updateScreen_geometry _ charSigned start,
    Console.VirtualConsole.init_displays console columns positive fits cursorX cursorY,
    updateScreen_paintsGrid addressable narrow fits setUp rfl⟩

theorem Shows.appendText (shows_ : Shows start charSigned screen terminal) (text : CString) :
    Shows start charSigned (screen.appendText charSigned text)
      (terminal.puts (chr '\n') (lineLengthOf start.forConsole) text.chars) := by
  have setUp : SetUp (screen.console.appendText text) start :=
    (Console.VirtualConsole.appendText_geometry screen.console text).trans shows_.setUp
  refine ⟨setUp, (updateScreen_geometry _ charSigned _).trans shows_.geometry,
    shows_.displays.appendText fits text, ?_⟩
  exact shows_.paints.repaint
    (updateScreen_paintsGrid addressable narrow fits setUp shows_.geometry)

theorem Shows.appendTexts (shows_ : Shows start charSigned screen terminal)
    (texts : List CString) :
    Shows start charSigned (screen.appendTexts charSigned texts)
      (terminal.puts (chr '\n') (lineLengthOf start.forConsole)
        (texts.flatMap CString.chars)) := by
  induction texts generalizing screen terminal with
  | nil => exact shows_
  | cons text rest ih =>
      have later := ih (shows_.appendText addressable narrow fits text)
      rw [Terminal.puts, List.flatMap_cons, List.foldl_append]
      exact later

end Grid

/-- The pixels of the grid show the last rows of the terminal. -/
theorem Shows.pixels (shows_ : Shows start charSigned screen terminal) :
    ∀ x < lineLengthOf start.forConsole * start.font.width.toNat,
      ∀ y < lineCountOf start.forConsole * start.font.height.toNat,
        screen.framebuffer.fb.cells (start.pixel x y) =
          terminalPixel start.font charSigned (lineCountOf start.forConsole) terminal x y := by
  intro x inX y inY
  have onScreen := shows_.setUp.onScreen
  have length := shows_.displays.shows.lineLength
  have lineCount := shows_.displays.shows.lineCount
  rw [length, lineCount] at onScreen
  have inLine : x < start.pitch.toNat / 4 := by
    have lines := addressable.lines
    have visible : x < start.width.toNat := inX.trans_le onScreen.1
    omega
  have fontWidth : 0 < start.font.width.toNat := Nat.pos_of_mul_pos_left (Nat.zero_lt_of_lt inX)
  have fontHeight : 0 < start.font.height.toNat := Nat.pos_of_mul_pos_left (Nat.zero_lt_of_lt inY)
  have column := (Nat.div_lt_iff_lt_mul fontWidth).mpr inX
  have line := (Nat.div_lt_iff_lt_mul fontHeight).mpr inY
  rw [shows_.paints.painted _ ⟨x, y, inX, inY, rfl⟩, gridPicture_pixel inLine, gridPixel, length,
    shows_.displays.shows.cells _ line _ column]
  rfl

include narrow fits in
/--
After `init` and any texts the grid shows the last rows of a terminal that is given the same texts,
and no other word has been stored to.
-/
theorem appendTexts_shown (console : VirtualConsole)
    (columns : 1 ≤ lineLengthOf start.forConsole) (positive : 1 ≤ lineCountOf start.forConsole)
    (cursorX : console.cursorX = 0) (cursorY : console.cursorY = 0) (texts : List CString) :
    let width := lineLengthOf start.forConsole
    let lines := lineCountOf start.forConsole
    let after :=
      ((Screen.init ⟨console, start⟩ charSigned).appendTexts charSigned texts).framebuffer
    let terminal := Terminal.empty.puts (chr '\n') width (texts.flatMap CString.chars)
    (∀ x < width * start.font.width.toNat, ∀ y < lines * start.font.height.toNat,
        after.fb.cells (start.pixel x y) =
          terminalPixel start.font charSigned lines terminal x y) ∧
      Frame (GridPlace start) start.fb after.fb := by
  intro width lines after terminal
  have begun : Shows start charSigned (Screen.init ⟨console, start⟩ charSigned) Terminal.empty :=
    Shows.init addressable narrow fits console columns positive cursorX cursorY
  have final := begun.appendTexts addressable narrow fits texts
  exact ⟨final.pixels addressable, final.paints.frame⟩

end Start

end Run

theorem appendTexts_shown_smallScreen :
    let text : CString := ⟨[chr 'a', chr 'b', chr 'c'], by decide⟩
    let after := ((Screen.init ⟨VirtualConsole.initial fun _ => 0, smallScreen⟩ true).appendTexts
      true [text]).framebuffer
    after.fb.cells (smallScreen.pixel 1 3) =
      smallFont.glyphPixel true (chr 'c') 3 1 := by
  intro text after
  have shown_ := @appendTexts_shown true smallScreen ⟨by decide, by decide, by decide⟩ (by decide)
    (by decide) (VirtualConsole.initial fun _ => 0) (by decide) (by decide) rfl rfl [text]
  exact shown_.1 1 (by decide) 3 (by decide)

end Dvnetos.Display
