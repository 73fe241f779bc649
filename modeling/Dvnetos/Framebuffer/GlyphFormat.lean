import Dvnetos.Framebuffer.CharPaint

/-!
# Glyphs as the font stores them

A row of a glyph takes as many bytes as its pixels need, the leftmost pixel in the highest bit of
the first byte. `drawCharAt` looks at the first byte only and takes its lowest bits, so its
picture is the stored one if the two happen to agree, as they do for a width of eight pixels.
A call is a loop over the pixels of the glyph, wherever it draws and whatever lies there.
-/

namespace Dvnetos.Display

open TracedStore

namespace PSF2

variable (font : PSF2)

/-- The bit of a pixel in the format: rows of whole bytes, the highest bit leftmost. -/
def storedBit (c : UInt8) (i j : ℕ) : Bool :=
  let glyph := font.headersize.toNat + c.toNat * font.bytesperglyph.toNat
  (font.fontData (glyph + i * ((font.width.toNat + 7) / 8) + j / 8)).toNat.testBit (7 - j % 8)

/-- The bit `drawCharAt` tests for a pixel, with the offset of the glyph in 32 bits. -/
def testedBit (c : UInt8) (i j : ℕ) : Bool :=
  let glyph := font.headersize.toNat + (c.toNat * font.bytesperglyph.toNat) % 2 ^ 32
  (font.fontData (glyph + i * ((font.width.toNat + 7) / 8))).toNat.testBit
    (font.width.toNat - 1 - j)

end PSF2

namespace Framebuffer

variable (framebuffer : Framebuffer)

/-- The word of a pixel of a glyph that is drawn at a position. -/
def glyphWord (x y : UInt32) (i j : ℕ) : ℕ :=
  ((y + UInt32.ofNat i) * framebuffer.pitch / 4 + x + UInt32.ofNat j).toNat

end Framebuffer

theorem bpl_toNat {font : PSF2} (narrow : font.width.toNat ≤ 32) :
    font.bpl.toNat = (font.width.toNat + 7) / 8 := by
  rw [PSF2.bpl, UInt32.toNat_div, UInt32.toNat_add]
  exact congrArg (· / 8) (Nat.mod_eq_of_lt (show font.width.toNat + 7 < 2 ^ 32 by omega))

section Glyph

variable {font : PSF2} {c : UInt8} (isChar : 0 < c.toNat) (ascii : c.toNat < 128)
variable (inFont : c.toNat < font.numglyph.toNat)

include isChar ascii inFont

theorem glyphNumber_eq (charSigned : Bool) : font.glyphNumber charSigned c = c.toUInt32 := by
  have value : charValue charSigned c = c.toNat := if_neg fun high => by omega
  rw [PSF2.glyphNumber, value, if_pos]
  exact ⟨by exact_mod_cast isChar, by exact_mod_cast inFont⟩

/-- A glyph starts where its number says, if the offset does not wrap. -/
theorem glyph_eq (charSigned : Bool) :
    font.glyph charSigned c =
      font.headersize.toNat + (c.toNat * font.bytesperglyph.toNat) % 2 ^ 32 := by
  rw [PSF2.glyph, glyphNumber_eq isChar ascii inFont, UInt32.toNat_mul, UInt8.toNat_toUInt32]

end Glyph

theorem colour_eq_white_iff (on : Bool) : colour on = 0xFFFFFFFF ↔ on = true := by
  cases on <;> decide

/-- The tests are right for a width of eight pixels. -/
theorem testedBit_eq_storedBit {font : PSF2} (eight : font.width.toNat = 8) {c : UInt8}
    (near : c.toNat * font.bytesperglyph.toNat < 2 ^ 32) {i j : ℕ} (column : j < 8) :
    font.testedBit c i j = font.storedBit c i j := by
  simp only [PSF2.testedBit, PSF2.storedBit, eight, Nat.mod_eq_of_lt near,
    Nat.div_eq_of_lt column, Nat.mod_eq_of_lt column, Nat.add_zero]

section Calls

variable (framebuffer : Framebuffer) {c : UInt8}

/-- The pixels of a glyph are numbered row by row. -/
abbrev glyphWords (x y : UInt32) (k : ℕ) : ℕ :=
  framebuffer.glyphWord x y (k / framebuffer.font.width.toNat) (k % framebuffer.font.width.toNat)

theorem drawCharAt_cells (charSigned : Bool) (x y : UInt32)
    (narrow : framebuffer.font.width.toNat ≤ 32) (isChar : 0 < c.toNat) (ascii : c.toNat < 128)
    (inFont : c.toNat < framebuffer.font.numglyph.toNat) {i j last : ℕ}
    (column : j < framebuffer.font.width.toNat)
    (isLast : StoredLast (glyphWords framebuffer x y)
      (framebuffer.font.height.toNat * framebuffer.font.width.toNat)
      (i * framebuffer.font.width.toNat + j) last) :
    (framebuffer.drawCharAt charSigned c x y).fb.cells (framebuffer.glyphWord x y i j) =
      colour (framebuffer.font.testedBit c (last / framebuffer.font.width.toNat)
        (last % framebuffer.font.width.toNat)) := by
  rw [Framebuffer.drawCharAt, drawRows_eq_storeGrid narrow, glyph_eq isChar ascii inFont,
    bpl_toNat narrow]
  exact cells_storeGrid column isLast

/--
A call shows the glyph as the font stores it exactly if every pixel that is stored last to the
word of a pixel has been tested by a bit with the value of the stored one.
-/
theorem drawCharAt_glyph_iff (charSigned : Bool) (x y : UInt32)
    (narrow : framebuffer.font.width.toNat ≤ 32) (isChar : 0 < c.toNat) (ascii : c.toNat < 128)
    (inFont : c.toNat < framebuffer.font.numglyph.toNat) :
    (∀ i < framebuffer.font.height.toNat, ∀ j < framebuffer.font.width.toNat,
        (framebuffer.drawCharAt charSigned c x y).fb.cells (framebuffer.glyphWord x y i j) =
          0xFFFFFFFF ↔ framebuffer.font.storedBit c i j = true) ↔
      ∀ i < framebuffer.font.height.toNat, ∀ j < framebuffer.font.width.toNat, ∀ last,
        StoredLast (glyphWords framebuffer x y)
            (framebuffer.font.height.toNat * framebuffer.font.width.toNat)
            (i * framebuffer.font.width.toNat + j) last →
          framebuffer.font.testedBit c (last / framebuffer.font.width.toNat)
              (last % framebuffer.font.width.toNat) =
            framebuffer.font.storedBit c i j := by
  refine forall₂_congr fun i row => forall₂_congr fun j column => ?_
  have inside : i * framebuffer.font.width.toNat + j <
      framebuffer.font.height.toNat * framebuffer.font.width.toNat := by
    calc i * framebuffer.font.width.toNat + j
        < (i + 1) * framebuffer.font.width.toNat := by
          rw [Nat.succ_mul]
          omega
      _ ≤ framebuffer.font.height.toNat * framebuffer.font.width.toNat :=
          Nat.mul_le_mul_right _ row
  have shown {last : ℕ} := @drawCharAt_cells framebuffer c charSigned x y narrow isChar ascii
    inFont i j last column
  constructor
  · intro right last isLast
    rw [shown isLast, colour_eq_white_iff] at right
    exact Bool.eq_iff_iff.mpr right
  · intro same
    rcases exists_storedLast (glyphWords framebuffer x y) inside with ⟨last, isLast⟩
    rw [shown isLast, colour_eq_white_iff, same last isLast]

end Calls

/-- A screen of one cell for a font of two rows, with the same pixels in both. -/
def oneCell (width : UInt32) (row : UInt8) : Framebuffer :=
  { fb := .fresh fun _ => 0
    width := width
    height := 2
    pitch := 4 * width
    font :=
      { headersize := 32
        numglyph := 128
        bytesperglyph := 2 * ((width + 7) / 8)
        height := 2
        width := width
        fontData := fun _ => row } }

/-- The pixels of a cell of eight columns are different words, and eight columns are right. -/
theorem drawCharAt_glyph_eight :
    let framebuffer := oneCell 8 0x81
    framebuffer.font.storedBit 65 0 0 = true ∧
      ∀ i < 2, ∀ j < 8,
        (framebuffer.drawCharAt true 65 0 0).fb.cells (framebuffer.glyphWord 0 0 i j) =
          0xFFFFFFFF ↔ framebuffer.font.storedBit 65 i j = true := by
  refine ⟨by decide, ?_⟩
  refine (drawCharAt_glyph_iff (oneCell 8 0x81) true 0 0 (c := 65) (by decide) (by decide)
    (by decide) (by decide)).mpr ?_
  intro i row j column last isLast
  change i < 2 at row
  change j < 8 at column
  have same : glyphWords (oneCell 8 0x81) 0 0 last = glyphWords (oneCell 8 0x81) 0 0 (i * 8 + j) :=
    isLast.2.1
  have inside : last < 16 := isLast.1
  have different : ∀ k < 16, ∀ l < 16,
      glyphWords (oneCell 8 0x81) 0 0 k = glyphWords (oneCell 8 0x81) 0 0 l → k = l := by
    decide
  rw [different last inside (i * 8 + j) (by omega) same]
  have atRow : (i * 8 + j) / 8 = i := by omega
  have atColumn : (i * 8 + j) % 8 = j := by omega
  change (oneCell 8 0x81).font.testedBit 65 ((i * 8 + j) / 8) ((i * 8 + j) % 8) = _
  rw [atRow, atColumn]
  exact testedBit_eq_storedBit rfl (by decide) column

/-- With sixteen columns the leftmost pixel is set in the font and stays off. -/
theorem drawCharAt_glyph_sixteen :
    let framebuffer := oneCell 16 0x80
    (framebuffer.drawCharAt true 65 0 0).fb.cells (framebuffer.glyphWord 0 0 0 0) ≠ 0xFFFFFFFF ∧
      framebuffer.font.storedBit 65 0 0 = true := by
  decide

end Dvnetos.Display
