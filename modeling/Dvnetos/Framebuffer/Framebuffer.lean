import Dvnetos.Framebuffer.VirtualConsole
import Dvnetos.Lib.TracedStore

/-!
# Drawing characters

This file models `drawCharAt` of `framebuffer/Framebuffer.cpp` and the call of it in
`updateScreen`. The lines and the masks are 32-bit words, the pointers into the font are
offsets from `font_data`. Whether `char` is signed is up to the target: it is on x86_64 and
is not on aarch64.
-/

namespace Dvnetos.Display

open Console (VirtualConsole DrawCall)

/-- What is read of the header `PSF2_t`, and the bytes of `font_data`, which it starts. -/
structure PSF2 where
  headersize : UInt32
  numglyph : UInt32
  bytesperglyph : UInt32
  height : UInt32
  width : UInt32
  fontData : ℕ → UInt8

/-- A `Framebuffer` with the pixels behind `fb`. -/
structure Framebuffer where
  fb : TracedStore ℕ UInt32
  width : UInt32
  height : UInt32
  pitch : UInt32
  font : PSF2

/-- The value of a `char`. -/
def charValue (charSigned : Bool) (c : UInt8) : ℤ :=
  if charSigned ∧ 128 ≤ c.toNat then (c.toNat : ℤ) - 256 else c.toNat

/-- `c > 0 && c < font->numglyph ? c : 0`. -/
def PSF2.glyphNumber (font : PSF2) (charSigned : Bool) (c : UInt8) : UInt32 :=
  if 0 < charValue charSigned c ∧ charValue charSigned c < font.numglyph.toNat then c.toUInt32
  else 0

/-- The offset of the first byte of the glyph. -/
def PSF2.glyph (font : PSF2) (charSigned : Bool) (c : UInt8) : ℕ :=
  font.headersize.toNat + (font.glyphNumber charSigned c * font.bytesperglyph).toNat

/-- The bytes of one row of a glyph. -/
def PSF2.bpl (font : PSF2) : UInt32 := (font.width + 7) / 8

/-- White for a bit that is set, black for one that is not. -/
def colour (on : Bool) : UInt32 := if on then 0xFFFFFFFF else 0xFF000000

/-- The loop over the pixels of one row. -/
def drawPixels (glyph : UInt8) :
    ℕ → UInt32 → UInt32 → TracedStore ℕ UInt32 → TracedStore ℕ UInt32
  | 0, _, _, fb => fb
  | count + 1, mask, line, fb =>
      drawPixels glyph count (mask >>> 1) (line + 1)
        (fb.store line.toNat (colour (glyph.toUInt32 &&& mask ≠ 0)))

/-- The loop over the rows of a glyph. -/
def drawRows (font : PSF2) (pitch x : UInt32) :
    ℕ → ℕ → UInt32 → TracedStore ℕ UInt32 → TracedStore ℕ UInt32
  | 0, _, _, fb => fb
  | count + 1, glyph, y, fb =>
      let line := y * pitch / 4 + x
      let mask := 1 <<< (font.width - 1)
      drawRows font pitch x count (glyph + font.bpl.toNat) (y + 1)
        (drawPixels (font.fontData glyph) font.width.toNat mask line fb)

namespace Framebuffer

/-- `drawCharAt(c, x, y)`. -/
def drawCharAt (framebuffer : Framebuffer) (charSigned : Bool) (c : UInt8) (x y : UInt32) :
    Framebuffer :=
  let font := framebuffer.font
  { framebuffer with
    fb := drawRows font framebuffer.pitch x font.height.toNat (font.glyph charSigned c) y
      framebuffer.fb }

/-- Calls of `drawCharAt` one after another. -/
def draw (framebuffer : Framebuffer) (charSigned : Bool) (calls : List DrawCall) : Framebuffer :=
  calls.foldl (fun framebuffer call => framebuffer.drawCharAt charSigned call.c call.x call.y)
    framebuffer

/-- What the console asks the framebuffer for. -/
def forConsole (framebuffer : Framebuffer) : Console.Framebuffer :=
  { width := framebuffer.width
    height := framebuffer.height
    font := { width := framebuffer.font.width, height := framebuffer.font.height } }

end Framebuffer

/-- `updateScreen` of a console, with its calls carried out. -/
def updateScreen (console : VirtualConsole) (charSigned : Bool) (framebuffer : Framebuffer) :
    Framebuffer :=
  if console.initComplete then framebuffer.draw charSigned console.screenCalls else framebuffer

/-- The pixels show the calls that the console records. -/
theorem draw_updateScreen (console : VirtualConsole) (charSigned : Bool)
    (framebuffer : Framebuffer) :
    framebuffer.draw charSigned console.updateScreen.drawn =
      updateScreen console charSigned (framebuffer.draw charSigned console.drawn) := by
  rw [VirtualConsole.updateScreen, updateScreen]
  split_ifs
  · exact List.foldl_append
  · rfl

end Dvnetos.Display
