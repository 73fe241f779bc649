import Dvnetos.Lib.TracedStore
import Mathlib.Algebra.Group.Nat.Defs

/-!
# Little-endian words in a byte memory

Words of any number of bytes are loaded from and stored to a memory of bytes.
-/

namespace TracedStore

/-- The word in the `width` bytes from `address` on. -/
def loadWord (cells : ℕ → UInt8) (address : ℕ) : ℕ → ℕ
  | 0 => 0
  | width + 1 => (cells address).toNat + 256 * loadWord cells (address + 1) width

/-- Store the low `width` bytes of `value`. -/
def storeWord (memory : TracedStore ℕ UInt8) (address value : ℕ) : ℕ → TracedStore ℕ UInt8
  | 0 => memory
  | width + 1 =>
      storeWord (memory.store address (UInt8.ofNat value)) (address + 1) (value / 256) width

variable {memory : TracedStore ℕ UInt8} {cells cells' : ℕ → UInt8} {address value width : ℕ}

theorem loadWord_lt (cells : ℕ → UInt8) (address width : ℕ) :
    loadWord cells address width < 256 ^ width := by
  induction width generalizing address with
  | zero => exact Nat.one_pos
  | succ width ih =>
      have first := (cells address).toNat_lt
      have rest := ih (address + 1)
      rw [loadWord, Nat.pow_succ]
      omega

theorem loadWord_congr (same : ∀ i < width, cells' (address + i) = cells (address + i)) :
    loadWord cells' address width = loadWord cells address width := by
  induction width generalizing address with
  | zero => rfl
  | succ width ih =>
      have first := same 0 (Nat.zero_lt_succ width)
      rw [Nat.add_zero] at first
      rw [loadWord, loadWord, first, ih]
      intro i bound
      have later := same (i + 1) (Nat.succ_lt_succ bound)
      rwa [show address + (i + 1) = address + 1 + i by omega] at later

theorem storeWord_cells_of_outside {other : ℕ}
    (outside : other < address ∨ address + width ≤ other) :
    (storeWord memory address value width).cells other = memory.cells other := by
  induction width generalizing memory address value with
  | zero => rfl
  | succ width ih =>
      rw [storeWord, ih (by omega), cells_store_of_ne]
      omega

theorem loadWord_storeWord_same (fits : value < 256 ^ width) :
    loadWord (storeWord memory address value width).cells address width = value := by
  induction width generalizing memory address value with
  | zero =>
      rw [Nat.pow_zero] at fits
      rw [loadWord]
      omega
  | succ width ih =>
      have rest : value / 256 < 256 ^ width := by
        rw [Nat.div_lt_iff_lt_mul (by omega), ← Nat.pow_succ]
        exact fits
      rw [storeWord, loadWord, ih rest, storeWord_cells_of_outside (by omega), cells_store_same,
        UInt8.toNat_ofNat']
      omega

theorem loadWord_storeWord_apart {other width' : ℕ}
    (apart : address + width ≤ other ∨ other + width' ≤ address) :
    loadWord (storeWord memory address value width).cells other width' =
      loadWord memory.cells other width' := by
  apply loadWord_congr
  intro i bound
  apply storeWord_cells_of_outside
  omega

theorem frame_storeWord {inside : ℕ → Prop} (bytes : ∀ i < width, inside (address + i)) :
    Frame inside memory (storeWord memory address value width) := by
  induction width generalizing memory address value with
  | zero => exact Frame.refl memory
  | succ width ih =>
      have first : inside address := bytes 0 (Nat.zero_lt_succ width)
      apply (Frame.store memory (UInt8.ofNat value) first).trans
      apply ih
      intro i bound
      have later := bytes (i + 1) (Nat.succ_lt_succ bound)
      rwa [show address + (i + 1) = address + 1 + i by omega] at later

end TracedStore
