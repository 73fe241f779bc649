import Dvnetos.Framebuffer.CharPaint
import Dvnetos.Lib.StoreLoops

/-!
# Clearing the screen

This file models `init` of `framebuffer/Framebuffer.cpp`. It clears as many words as there are
visible pixels, from the first one on, while the lines of the screen may be longer than what is
visible of them. Then the last visible pixels are not among these words.
-/

namespace Dvnetos.Display

open TracedStore

/-- The colour of a cleared pixel. -/
def black : UInt32 := 0xFF000000

namespace Framebuffer

/-- `for (uint32_t i = 0; i < width * height; i++) fb[i] = 0xFF000000`. -/
def clear (fb : TracedStore ℕ UInt32) (pixels : UInt32) : TracedStore ℕ UInt32 :=
  fb.storeEach (fun i => i) (fun _ => black) pixels.toNat

/-- `init(fb, width, height, pitch)`. The font is left as it is. -/
def init (framebuffer : Framebuffer) (fb : TracedStore ℕ UInt32) (width height pitch : UInt32) :
    Framebuffer :=
  { framebuffer with
    fb := clear fb (width * height)
    width := width
    height := height
    pitch := pitch }

theorem clear_cells (fb : TracedStore ℕ UInt32) (pixels : UInt32) (address : ℕ) :
    (clear fb pixels).cells address =
      if address < pixels.toNat then black else fb.cells address := by
  split_ifs with inside
  · have isLast : StoredLast (fun i => i) pixels.toNat address address :=
      ⟨inside, rfl, fun _ _ same => same.le⟩
    exact cells_storeEach isLast
  · apply cells_storeEach_of_ne
    rintro k below rfl
    exact inside below

section Init

variable {width height pitch : UInt32} (lines : 4 * width.toNat ≤ pitch.toNat)
variable (fits : height.toNat * pitch.toNat < 2 ^ 32)

include lines fits

/-- The product in the bound of the loop does not wrap. -/
theorem pixels_toNat : (width * height).toNat = width.toNat * height.toNat := by
  have small : width.toNat * height.toNat ≤ height.toNat * pitch.toNat := by
    rw [Nat.mul_comm]
    exact Nat.mul_le_mul_left _ (by omega)
  rw [UInt32.toNat_mul, Nat.mod_eq_of_lt (small.trans_lt fits)]

omit fits in
/-- The words that are cleared are in the lines of the screen. -/
theorem pixels_le : width.toNat * height.toNat ≤ height.toNat * pitch.toNat / 4 := by
  rw [Nat.le_div_iff_mul_le (by decide)]
  calc width.toNat * height.toNat * 4 = height.toNat * (4 * width.toNat) := by ring
    _ ≤ height.toNat * pitch.toNat := Nat.mul_le_mul_left _ lines

/--
Every visible pixel is cleared, and nothing behind the lines is written, exactly if the visible
pixels behind as many words as there are of them have been black before.
-/
theorem init_clears_iff (framebuffer : Framebuffer) (fb : TracedStore ℕ UInt32) :
    let after := framebuffer.init fb width height pitch
    ((∀ x < width.toNat, ∀ y < height.toNat,
        after.fb.cells (y * pitch.toNat / 4 + x) = black) ∧
      ∀ address ∈ after.fb.footprint,
        address < height.toNat * pitch.toNat / 4 ∨ address ∈ fb.footprint) ↔
      ∀ x < width.toNat, ∀ y < height.toNat,
        width.toNat * height.toNat ≤ y * pitch.toNat / 4 + x →
          fb.cells (y * pitch.toNat / 4 + x) = black := by
  intro after
  have cells (address : ℕ) : after.fb.cells address =
      if address < width.toNat * height.toNat then black else fb.cells address := by
    rw [← pixels_toNat lines fits]
    exact clear_cells fb _ address
  have written : ∀ address ∈ after.fb.footprint,
      address < height.toNat * pitch.toNat / 4 ∨ address ∈ fb.footprint := by
    intro address stored
    rcases mem_footprint_storeEach.mp stored with ⟨k, below, rfl⟩ | earlier
    · rw [pixels_toNat lines fits] at below
      exact .inl (below.trans_le (pixels_le lines))
    · exact .inr earlier
  rw [and_iff_left written]
  refine forall₂_congr fun x _ => forall₂_congr fun y _ => ?_
  rw [cells]
  split_ifs with cleared
  · exact iff_of_true rfl fun behind => absurd cleared (Nat.not_lt.mpr behind)
  · exact ⟨fun isBlack _ => isBlack, fun wasBlack => wasBlack (Nat.le_of_not_lt cleared)⟩

end Init

/-- A framebuffer before its first `init`. -/
def unset : Framebuffer :=
  { fb := .fresh fun _ => 0
    width := 0
    height := 0
    pitch := 0
    font :=
      { headersize := 32
        numglyph := 256
        bytesperglyph := 16
        height := 16
        width := 8
        fontData := fun _ => 0 } }

/-- A screen without padding, two pixels wide and two high. -/
theorem init_clears_iff_noPadding :
    let after := unset.init (.fresh fun _ => 0) 2 2 8
    (∀ x < 2, ∀ y < 2, after.fb.cells (y * 8 / 4 + x) = black) ∧
      ∀ address ∈ after.fb.footprint, address < 2 * 8 / 4 ∨ address ∈ [] := by
  refine (@init_clears_iff 2 2 8 (by decide) (by decide) unset (.fresh fun _ => 0)).mpr ?_
  intro x inX y inY behind
  change x < 2 at inX
  change y < 2 at inY
  change 2 * 2 ≤ y * 8 / 4 + x at behind
  omega

/-- Of two lines of one visible pixel and one behind it, the second pixel stays as it was. -/
theorem init_leaves_lastLine :
    let after := unset.init (.fresh fun _ => 0) 1 2 8
    after.fb.cells (1 * 8 / 4 + 0) = 0 ∧ (0 : UInt32) ≠ black := by
  decide

end Framebuffer

end Dvnetos.Display
