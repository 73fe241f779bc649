import Dvnetos.Framebuffer.Framebuffer
import Dvnetos.Lib.Painting
import Mathlib.Data.Nat.Bitwise

/-!
# What a character paints

A row of a glyph and a glyph are parts of a picture: `drawCharAt` stores in the pixels of the
cell and leaves the colours of the glyph there. With the lines of an addressable screen no line
number wraps, and different pixels are at different places.
-/

namespace Dvnetos.Display

open Console (DrawCall)
open TracedStore

/-- The colour `drawCharAt` gives a pixel of the glyph. -/
def PSF2.glyphPixel (font : PSF2) (charSigned : Bool) (c : UInt8) (row column : ℕ) : UInt32 :=
  colour ((font.fontData (font.glyph charSigned c + row * font.bpl.toNat)).toNat.testBit
    (font.width.toNat - 1 - column))

theorem and_mask_ne_zero {glyph : UInt8} {mask : UInt32} {bit : ℕ} (single : mask.toNat = 2 ^ bit) :
    decide (glyph.toUInt32 &&& mask ≠ 0) = glyph.toNat.testBit bit := by
  have value : (glyph.toUInt32 &&& mask).toNat = (glyph.toNat.testBit bit).toNat * 2 ^ bit := by
    rw [UInt32.toNat_and, UInt8.toNat_toUInt32, single, Nat.and_two_pow]
  have positive := Nat.two_pow_pos bit
  cases set : glyph.toNat.testBit bit with
  | false =>
      have zero : glyph.toUInt32 &&& mask = 0 := by
        apply UInt32.toNat_inj.mp
        rw [value, set]
        simp
      simp [zero]
  | true =>
      apply decide_eq_true
      intro zero
      rw [zero, set, Bool.toNat_true, Nat.one_mul] at value
      exact absurd value (Nat.ne_of_lt positive)

/-- The mask of the next pixel. -/
theorem halvedMask_toNat {mask : UInt32} {count : ℕ} (single : mask.toNat = 2 ^ count)
    (positive : 0 < count) : (mask >>> 1).toNat = 2 ^ (count - 1) := by
  rw [UInt32.toNat_shiftRight, single, UInt32.toNat_one]
  exact Nat.pow_div positive (by decide)

/-- The mask of the leftmost pixel. -/
theorem topMask_toNat {width : UInt32} (narrow : width.toNat ≤ 32) (positive : 0 < width.toNat) :
    ((1 : UInt32) <<< (width - 1)).toNat = 2 ^ (width.toNat - 1) := by
  have one : (1 : UInt32) ≤ width := positive
  rw [UInt32.toNat_shiftLeft, UInt32.toNat_sub_of_le _ _ one, UInt32.toNat_one,
    Nat.mod_eq_of_lt (show width.toNat - 1 < 32 by omega), Nat.one_shiftLeft]
  exact Nat.mod_eq_of_lt (Nat.pow_lt_pow_right (by decide) (by omega))

theorem drawPixels_eq_storeEach (glyph : UInt8) {count : ℕ} {mask : UInt32}
    (top : 0 < count → mask.toNat = 2 ^ (count - 1)) (line : UInt32)
    (memory : TracedStore ℕ UInt32) :
    drawPixels glyph count mask line memory =
      memory.storeEach (fun j => (line + UInt32.ofNat j).toNat)
        (fun j => colour (glyph.toNat.testBit (count - 1 - j))) count := by
  induction count generalizing mask line memory with
  | zero => rfl
  | succ count ih =>
      have single : mask.toNat = 2 ^ count := top (Nat.succ_pos count)
      rw [drawPixels, ih (halvedMask_toNat single), storeEach_succ, and_mask_ne_zero single]
      have next (j : ℕ) : line + 1 + UInt32.ofNat j = line + UInt32.ofNat (j + 1) := by
        rw [UInt32.ofNat_add, UInt32.add_assoc, UInt32.add_comm 1]
        rfl
      have start : line + UInt32.ofNat 0 = line := UInt32.add_zero line
      rw [start]
      refine storeEach_congr (fun j _ => ?_) fun j _ => ?_
      · rw [next]
      · congr 2
        omega

theorem drawRows_eq_storeGrid {font : PSF2} (narrow : font.width.toNat ≤ 32) (pitch x : UInt32)
    (rows glyph : ℕ) (y : UInt32) (memory : TracedStore ℕ UInt32) :
    drawRows font pitch x rows glyph y memory =
      memory.storeGrid
        (fun i j => ((y + UInt32.ofNat i) * pitch / 4 + x + UInt32.ofNat j).toNat)
        (fun i j => colour
          ((font.fontData (glyph + i * font.bpl.toNat)).toNat.testBit (font.width.toNat - 1 - j)))
        font.width.toNat rows := by
  induction rows generalizing glyph y memory with
  | zero =>
      rw [storeGrid, Nat.zero_mul]
      rfl
  | succ rows ih =>
      have next (i : ℕ) : y + 1 + UInt32.ofNat i = y + UInt32.ofNat (i + 1) := by
        rw [UInt32.ofNat_add, UInt32.add_assoc, UInt32.add_comm 1]
        rfl
      have offset (i : ℕ) :
          glyph + font.bpl.toNat + i * font.bpl.toNat = glyph + (i + 1) * font.bpl.toNat := by
        rw [Nat.succ_mul, Nat.add_assoc, Nat.add_comm font.bpl.toNat]
      have start : y + UInt32.ofNat 0 = y := UInt32.add_zero y
      have first : glyph + 0 * font.bpl.toNat = glyph := by rw [Nat.zero_mul, Nat.add_zero]
      rw [drawRows, ih, storeGrid_succ]
      simp only [next, offset, start, first]
      rw [drawPixels_eq_storeEach _ (topMask_toNat narrow)]

namespace Framebuffer

/-- The place of a pixel behind `fb`. -/
def pixel (framebuffer : Framebuffer) (x y : ℕ) : ℕ := y * (framebuffer.pitch.toNat / 4) + x

/-- The lines of the screen are whole pixels, hold the visible ones, and end below 4 GiB. -/
structure Addressable (framebuffer : Framebuffer) : Prop where
  whole : framebuffer.pitch.toNat % 4 = 0
  lines : 4 * framebuffer.width.toNat ≤ framebuffer.pitch.toNat
  fits : framebuffer.height.toNat * framebuffer.pitch.toNat < 2 ^ 32

variable {framebuffer : Framebuffer}

theorem pixel_place {x y : ℕ} (inLine : x < framebuffer.pitch.toNat / 4) :
    framebuffer.pixel x y / (framebuffer.pitch.toNat / 4) = y ∧
      framebuffer.pixel x y % (framebuffer.pitch.toNat / 4) = x := cell_place inLine

/-- Different pixels are at different places. -/
theorem pixel_inj {x y x' y' : ℕ} (inLine : x < framebuffer.pitch.toNat / 4)
    (inLine' : x' < framebuffer.pitch.toNat / 4)
    (same : framebuffer.pixel x y = framebuffer.pixel x' y') : x = x' ∧ y = y' := by
  rcases pixel_place (y := y) inLine with ⟨row, column⟩
  rcases pixel_place (y := y') inLine' with ⟨row', column'⟩
  rw [same] at row column
  exact ⟨column.symm.trans column', row.symm.trans row'⟩

/-- A part of a line of the screen does not wrap. -/
theorem Addressable.pixel_add_lt (addressable : framebuffer.Addressable) {x y count : ℕ}
    (inLine : x + count ≤ framebuffer.pitch.toNat / 4) (row : y < framebuffer.height.toNat) :
    framebuffer.pixel x y + count < 2 ^ 32 := by
  have fits := addressable.fits
  calc framebuffer.pixel x y + count
      ≤ (y + 1) * (framebuffer.pitch.toNat / 4) := by
        rw [pixel, Nat.succ_mul]
        omega
    _ ≤ framebuffer.height.toNat * framebuffer.pitch.toNat :=
        Nat.mul_le_mul row (Nat.div_le_self _ _)
    _ < 2 ^ 32 := fits

theorem Addressable.line_toNat (addressable : framebuffer.Addressable) {x y : UInt32}
    (inLine : x.toNat ≤ framebuffer.pitch.toNat / 4) (row : y.toNat < framebuffer.height.toNat) :
    (y * framebuffer.pitch / 4 + x).toNat = framebuffer.pixel x.toNat y.toNat := by
  have product : y.toNat * framebuffer.pitch.toNat < 2 ^ 32 :=
    lt_of_le_of_lt (Nat.mul_le_mul_right _ row.le) addressable.fits
  have quarter : y.toNat * framebuffer.pitch.toNat / 4 =
      y.toNat * (framebuffer.pitch.toNat / 4) :=
    Nat.mul_div_assoc _ (Nat.dvd_of_mod_eq_zero addressable.whole)
  have below : framebuffer.pixel x.toNat y.toNat + 0 < 2 ^ 32 :=
    addressable.pixel_add_lt inLine row
  rw [pixel] at below
  rw [UInt32.toNat_add, UInt32.toNat_div, UInt32.toNat_mul, Nat.mod_eq_of_lt product,
    show (4 : UInt32).toNat = 4 from rfl, quarter, pixel]
  exact Nat.mod_eq_of_lt (by omega)

end Framebuffer

/-- The pixels in which a call of `drawCharAt` stores. -/
def Framebuffer.Draws (framebuffer : Framebuffer) (call : DrawCall) (address : ℕ) : Prop :=
  ∃ i < framebuffer.font.height.toNat, ∃ j < framebuffer.font.width.toNat,
    address = framebuffer.pixel (call.x.toNat + j) (call.y.toNat + i)

section Characters

variable {framebuffer : Framebuffer} (addressable : framebuffer.Addressable)
variable (narrow : framebuffer.font.width.toNat ≤ 32) {picture : ℕ → UInt32} {x : UInt32}
variable (inLine : x.toNat + framebuffer.font.width.toNat ≤ framebuffer.pitch.toNat / 4)

include addressable narrow inLine

theorem drawRows_paints {count glyph : ℕ} {y : UInt32}
    (rows : y.toNat + count ≤ framebuffer.height.toNat)
    (shows : ∀ i < count, ∀ j < framebuffer.font.width.toNat,
      picture (framebuffer.pixel (x.toNat + j) (y.toNat + i)) =
        colour ((framebuffer.font.fontData (glyph + i * framebuffer.font.bpl.toNat)).toNat.testBit
          (framebuffer.font.width.toNat - 1 - j)))
    (memory : TracedStore ℕ UInt32) :
    Paints picture
      (fun address => ∃ i < count, ∃ j < framebuffer.font.width.toNat,
        address = framebuffer.pixel (x.toNat + j) (y.toNat + i))
      memory (drawRows framebuffer.font framebuffer.pitch x count glyph y memory) := by
  have place : ∀ i < count, ∀ j < framebuffer.font.width.toNat,
      ((y + UInt32.ofNat i) * framebuffer.pitch / 4 + x + UInt32.ofNat j).toNat =
        framebuffer.pixel (x.toNat + j) (y.toNat + i) := by
    intro i below j inside
    have height := framebuffer.height.toNat_lt
    have rowOf : (y + UInt32.ofNat i).toNat = y.toNat + i := by
      rw [UInt32.toNat_add, UInt32.toNat_ofNat_of_lt' (show _ < 2 ^ 32 by omega),
        Nat.mod_eq_of_lt (by omega)]
    have row : (y + UInt32.ofNat i).toNat < framebuffer.height.toNat := by omega
    have fits := addressable.pixel_add_lt inLine row
    rw [UInt32.toNat_add, addressable.line_toNat (Nat.le_of_add_right_le inLine) row,
      UInt32.toNat_ofNat_of_lt' (show _ < 2 ^ 32 by omega), Nat.mod_eq_of_lt (by omega), rowOf,
      Framebuffer.pixel, Framebuffer.pixel, Nat.add_assoc]
  rw [drawRows_eq_storeGrid narrow]
  refine (Paints.storeGrid (fun i below j inside => ?_) memory).congr fun address => ?_
  · rw [place i below j inside]
    exact shows i below j inside
  · constructor
    · rintro ⟨i, below, j, inside, rfl⟩
      exact ⟨i, below, j, inside, place i below j inside⟩
    · rintro ⟨i, below, j, inside, rfl⟩
      exact ⟨i, below, j, inside, (place i below j inside).symm⟩

omit inLine in
/-- A character on the screen. -/
theorem drawCall_paints {charSigned : Bool} {call : DrawCall}
    (columns : call.x.toNat + framebuffer.font.width.toNat ≤ framebuffer.pitch.toNat / 4)
    (rows : call.y.toNat + framebuffer.font.height.toNat ≤ framebuffer.height.toNat)
    (shows : ∀ i < framebuffer.font.height.toNat, ∀ j < framebuffer.font.width.toNat,
      picture (framebuffer.pixel (call.x.toNat + j) (call.y.toNat + i)) =
        framebuffer.font.glyphPixel charSigned call.c i j)
    (memory : TracedStore ℕ UInt32) :
    Paints picture (framebuffer.Draws call) memory
      (drawRows framebuffer.font framebuffer.pitch call.x framebuffer.font.height.toNat
        (framebuffer.font.glyph charSigned call.c) call.y memory) :=
  drawRows_paints addressable narrow columns rows shows memory

end Characters

theorem draw_eq (framebuffer : Framebuffer) (charSigned : Bool) (calls : List DrawCall) :
    framebuffer.draw charSigned calls =
      { framebuffer with
        fb := calls.foldl (fun fb call =>
          drawRows framebuffer.font framebuffer.pitch call.x framebuffer.font.height.toNat
            (framebuffer.font.glyph charSigned call.c) call.y fb) framebuffer.fb } := by
  induction calls generalizing framebuffer with
  | nil => rfl
  | cons call rest ih =>
      rw [Framebuffer.draw, List.foldl_cons]
      exact ih _

end Dvnetos.Display
