import Dvnetos.Utils.Cstring
import Dvnetos.Utils.Stdio

/-!
# The text console

This file models `framebuffer/VirtualConsole.cpp`: a grid of characters in a
static buffer, a cursor, and the geometry that `init` computes from the
resolution and the font. The buffer is addressed from its start, and offsets
wrap around as `size_t` arithmetic does. Characters handed to the serial port
and the `drawCharAt` calls of `updateScreen` are recorded in order.
-/

namespace Dvnetos.Console

open Word Cstring
open Stdio (CString chr)

/-- `Size`, and the cell size in the header of a font. -/
structure Size where
  width : UInt32
  height : UInt32
  deriving DecidableEq

/-- The part of a `Framebuffer` the console asks for. -/
structure Framebuffer where
  width : UInt32
  height : UInt32
  font : Size

/-- `textSize(text)`: the width of the text and the height of one line. -/
def Framebuffer.textSize (framebuffer : Framebuffer) (text : CString) : Size :=
  { width := UInt32.ofNat (text.chars.length * framebuffer.font.width.toNat)
    height := framebuffer.font.height }

/-- `getResolution()`. -/
def Framebuffer.getResolution (framebuffer : Framebuffer) : Size :=
  { width := framebuffer.width, height := framebuffer.height }

/-- `MAX_RES_WIDTH`. -/
def maxResWidth : UInt32 := 1280

/-- `MAX_RES_HEIGHT`. -/
def maxResHeight : UInt32 := 1024

/-- The size of the static `buffer`, in characters. -/
def bufferSize : ℕ := (1280 / 8) * (1024 / 16)

/-- One call `drawCharAt(c, x, y)`. -/
structure DrawCall where
  c : UInt8
  x : UInt32
  y : UInt32

/-- The members of `VirtualConsole`, and what it has drawn and sent so far. -/
structure VirtualConsole where
  cursorX : ℕ
  cursorY : ℕ
  lineLength : ℕ
  lineCount : ℕ
  fontSize : Size
  initComplete : Bool
  /-- The static `buffer`, which all consoles share. -/
  buffer : Memory
  /-- What `writeToSerial` has been handed, in order. -/
  serial : List UInt8
  /-- The calls `updateScreen` has made, in order. -/
  drawn : List DrawCall

namespace VirtualConsole

/-- A console before its first `init`, with a buffer of the given contents. -/
def initial (contents : ℕ → UInt8) : VirtualConsole :=
  { cursorX := 0, cursorY := 0, lineLength := 80, lineCount := 10
    fontSize := { width := 0, height := 0 }
    initComplete := false
    buffer := .fresh contents
    serial := [], drawn := [] }

/-- The calls of the two loops in `updateScreen`, column by column. -/
def screenCalls (console : VirtualConsole) : List DrawCall :=
  (List.range console.lineLength).flatMap fun x =>
    (List.range console.lineCount).filterMap fun y =>
      let i := add64 (mul64 y console.lineLength) x
      if i < bufferSize then
        some { c := console.buffer.cells i
               x := UInt32.ofNat x * console.fontSize.width
               y := UInt32.ofNat y * console.fontSize.height }
      else none

/-- `updateScreen()`: every cell of the grid is drawn once the console is set up. -/
def updateScreen (console : VirtualConsole) : VirtualConsole :=
  if console.initComplete then { console with drawn := console.drawn ++ console.screenCalls }
  else console

/-- The text `" "`. -/
def space : CString := ⟨[chr ' '], by decide⟩

/-- A resolution clamped to the largest supported one. -/
def clamp (resolution limit : UInt32) : UInt32 := if limit < resolution then limit else resolution

/-- `init(framebuffer)`. The cursor is left where it was. -/
def init (console : VirtualConsole) (framebuffer : Framebuffer) : VirtualConsole :=
  let fontSize := framebuffer.textSize space
  let resolution := framebuffer.getResolution
  { console with
    buffer := memset console.buffer 0 (chr ' ') bufferSize
    fontSize := fontSize
    lineLength := (clamp resolution.width maxResWidth / fontSize.width).toNat
    lineCount := (clamp resolution.height maxResHeight / fontSize.height).toNat
    initComplete := true }.updateScreen

/-- The index `(cursorY * lineLength) + cursorX`. -/
def cursorIndex (console : VirtualConsole) : ℕ :=
  add64 (mul64 console.cursorY console.lineLength) console.cursorX

/-- Store one character at the cursor. -/
def putAtCursor (console : VirtualConsole) (c : UInt8) : VirtualConsole :=
  { console with buffer := console.buffer.store console.cursorIndex c }

/-- `iterations` rounds of `for (; cursorX < lineLength; cursorX++) buffer[..] = ' '`. -/
def blankCells (console : VirtualConsole) : ℕ → VirtualConsole
  | 0 => console
  | iterations + 1 =>
      blankCells { console.putAtCursor (chr ' ') with cursorX := console.cursorX + 1 } iterations

/-- The loop that a newline runs. -/
def blankLine (console : VirtualConsole) : VirtualConsole :=
  console.blankCells (console.lineLength - console.cursorX)

/-- Drop the first line and blank the last one. -/
def scroll (console : VirtualConsole) : VirtualConsole :=
  let kept := mul64 console.lineLength (sub64 console.lineCount 1)
  { console with
    buffer := memset (memmove console.buffer 0 console.lineLength kept) kept (chr ' ')
      console.lineLength
    cursorY := console.cursorY - 1 }

/-- `cursorX = 0; cursorY++`. -/
def nextLine (console : VirtualConsole) : VirtualConsole :=
  { console with cursorX := 0, cursorY := console.cursorY + 1 }

/-- The end of an iteration: a full line moves the cursor to the next one. -/
def wrapLine (console : VirtualConsole) : VirtualConsole :=
  if console.lineLength ≤ console.cursorX then
    if console.lineCount ≤ console.nextLine.cursorY then console.nextLine.scroll
    else console.nextLine
  else console

/-- One iteration of the loop over the text. -/
def appendChar (console : VirtualConsole) (c : UInt8) : VirtualConsole :=
  let console := if c = chr '\n' then console.blankLine else console.putAtCursor c
  { console with cursorX := console.cursorX + 1 }.wrapLine

/-- `appendText(text)`, which also sends the text to the serial port. -/
def appendText (console : VirtualConsole) (text : CString) : VirtualConsole :=
  let console := { console with serial := console.serial ++ text.chars }
  (text.chars.foldl appendChar console).updateScreen

/-- The text that `kvsnprintf` leaves in `char buf[1024]`, which holds `contents` before. -/
def formattedText (contents : ℤ → UInt8) (format : CString) (args : List Stdio.Arg) : CString where
  chars := Stdio.stringIn
    (Stdio.kvsnprintf true ⟨1024, by decide⟩ format args contents).buffer.cells
    1024
  noNul := Stdio.stringIn_noNul _ _

/-- `appendFormattedText(format, ...)`, on a buffer with any contents. -/
def appendFormattedText (console : VirtualConsole) (contents : ℤ → UInt8) (format : CString)
    (args : List Stdio.Arg) : VirtualConsole :=
  console.appendText (formattedText contents format args)

/-- Calls of `appendText` one after another. -/
def appendTexts (console : VirtualConsole) (texts : List CString) : VirtualConsole :=
  texts.foldl appendText console

end VirtualConsole

end Dvnetos.Console
