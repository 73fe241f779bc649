import Dvnetos.Smbios.RecordReads
import Mathlib.Tactic.NormNum

/-!
# Memory sizes

A capacity or size that does not fit its field is replaced by a value that refers to an
extended field. `getSize` compares with the value that is written; `getMaximumCapacity`
compares with `0x8000000`, which lacks a digit of `0x80000000`.
-/

namespace Dvnetos.Smbios

variable {memory memory' : Memory} {this this' capacity size : ℕ}

/-- An array with all members that holds a capacity in bytes. -/
structure EncodesCapacity (memory : Memory) (this capacity : ℕ) : Prop where
  isWord : capacity < 2 ^ 64
  whole : 1024 ∣ capacity
  length : valueOf memory this TableHeader.length = PhysicalMemoryArray.sizeOf
  small : capacity / 1024 < 0x80000000 →
    valueOf memory this PhysicalMemoryArray.maximumCapacity = capacity / 1024
  large : 0x80000000 ≤ capacity / 1024 →
    valueOf memory this PhysicalMemoryArray.maximumCapacity = 0x80000000 ∧
      valueOf memory this PhysicalMemoryArray.extendedMaximumCapacity = capacity

/-- The three ways to hold a size in bytes. -/
inductive SizeFields (memory : Memory) (this size : ℕ) : Prop where
  | mebibytes (whole : 1024 * 1024 ∣ size) (small : size / (1024 * 1024) < 0x7fff)
      (value : valueOf memory this MemoryDevice.size = size / (1024 * 1024))
  | kibibytes (whole : 1024 ∣ size) (small : size / 1024 < 0x7fff)
      (value : valueOf memory this MemoryDevice.size = 0x8000 ||| size / 1024)
  | extended (whole : 1024 * 1024 ∣ size) (small : size / (1024 * 1024) < 2 ^ 31)
      (value : valueOf memory this MemoryDevice.size = 0x7fff)
      (extension : valueOf memory this MemoryDevice.extendedSize = size / (1024 * 1024))

/-- A device with all members that holds a size. -/
structure EncodesSize (memory : Memory) (this size : ℕ) : Prop where
  length : valueOf memory this TableHeader.length = 0x62
  fields : SizeFields memory this size

theorem result_member (memory : Memory) (this : ℕ) (place : Field) :
    (member memory this place).result = .ok (valueOf memory this place) := rfl

theorem getMaximumCapacity_result (memory : Memory) (this : ℕ) :
    (PhysicalMemoryArray.getMaximumCapacity memory this).result =
      .ok (if valueOf memory this PhysicalMemoryArray.maximumCapacity = 0x8000000 then
          if valueOf memory this TableHeader.length = PhysicalMemoryArray.sizeOf then
            valueOf memory this PhysicalMemoryArray.extendedMaximumCapacity
          else 0
        else valueOf memory this PhysicalMemoryArray.maximumCapacity * 1024) := by
  rw [PhysicalMemoryArray.getMaximumCapacity, Traced.result_bind (result_member ..)]
  split_ifs with escaped whole
  · rw [Traced.result_bind (result_member ..), if_pos whole, result_member]
  · rw [Traced.result_bind (result_member ..), if_neg whole]
    rfl
  · rfl

theorem getSize_result (memory : Memory) (this : ℕ) :
    (MemoryDevice.getSize memory this).result =
      .ok (if valueOf memory this MemoryDevice.size = 0x7fff then
          if MemoryDevice.configuredMemorySpeed.offset ≤ valueOf memory this TableHeader.length then
            valueOf memory this MemoryDevice.extendedSize % 2 ^ 31 * 1024 * 1024
          else 0
        else if (valueOf memory this MemoryDevice.size).testBit 15 then
          valueOf memory this MemoryDevice.size % 2 ^ 15 * 1024
        else valueOf memory this MemoryDevice.size * 1024 * 1024) := by
  rw [MemoryDevice.getSize, Traced.result_bind (result_member ..)]
  split_ifs with escaped reached
  · rw [Traced.result_bind (result_member ..), if_pos reached,
      Traced.result_bind (result_member ..)]
    rfl
  · rw [Traced.result_bind (result_member ..), if_neg reached]
    rfl
  · rfl
  · rfl

/-- `0x8000 | value` has bit 15, and the value below it. -/
theorem unit_or {value : ℕ} (small : value < 0x7fff) :
    (0x8000 ||| value).testBit 15 = true ∧ (0x8000 ||| value) % 2 ^ 15 = value ∧
      0x8000 ||| value ≠ 0x7fff := by
  have below : value < 2 ^ 15 := by omega
  have sum : 0x8000 ||| value = 2 ^ 15 * 1 + value := (Nat.two_pow_add_eq_or_of_lt below 1).symm
  refine ⟨?_, ?_, ?_⟩
  · rw [Nat.testBit_or]
    rfl
  · rw [sum, Nat.mul_add_mod, Nat.mod_eq_of_lt below]
  · rw [sum]
    omega

/-- Sizes of devices decode to what was encoded. -/
theorem getSize_decodes (device : EncodesSize memory this size) :
    (MemoryDevice.getSize memory this).result = .ok size := by
  rw [getSize_result]
  congr 1
  cases device.fields with
  | mebibytes whole small value =>
      have noUnit : (size / (1024 * 1024)).testBit 15 = false :=
        Nat.testBit_lt_two_pow (by omega)
      rw [value, if_neg (by omega), noUnit, if_neg Bool.false_ne_true, Nat.mul_assoc,
        Nat.div_mul_cancel whole]
  | kibibytes whole small value =>
      rcases unit_or small with ⟨unit, rest, other⟩
      rw [value, if_neg other, if_pos unit, rest, Nat.div_mul_cancel whole]
  | extended whole small value extension =>
      have reached : MemoryDevice.configuredMemorySpeed.offset ≤ 0x62 := by decide
      rw [value, if_pos rfl, device.length, if_pos reached, extension, Nat.mod_eq_of_lt small,
        Nat.mul_assoc, Nat.div_mul_cancel whole]

/-- Which capacities `getMaximumCapacity` returns. -/
theorem getMaximumCapacity_decodes_iff (array : EncodesCapacity memory this capacity) :
    (PhysicalMemoryArray.getMaximumCapacity memory this).result = .ok capacity ↔
      capacity / 1024 < 0x80000000 ∧
          (capacity / 1024 = 0x8000000 →
            valueOf memory this PhysicalMemoryArray.extendedMaximumCapacity = capacity) ∨
        capacity = 2 ^ 41 := by
  have whole := Nat.div_mul_cancel array.whole
  rw [getMaximumCapacity_result, array.length, if_pos rfl, Except.ok.injEq]
  by_cases isSmall : capacity / 1024 < 0x80000000
  · rw [array.small isSmall]
    split_ifs with slip
    · constructor
      · exact fun same => .inl ⟨isSmall, fun _ => same⟩
      · rintro (⟨-, same⟩ | top)
        · exact same slip
        · omega
    · omega
  · rw [(array.large (Nat.le_of_not_lt isSmall)).1, if_neg (by decide)]
    omega

/-- Which memory sizes decode to what was encoded. -/
theorem memorySizes_decode_iff (array : EncodesCapacity memory this capacity)
    (device : EncodesSize memory' this' size) :
    (PhysicalMemoryArray.getMaximumCapacity memory this).result = .ok capacity ∧
        (MemoryDevice.getSize memory' this').result = .ok size ↔
      capacity / 1024 < 0x80000000 ∧
          (capacity / 1024 = 0x8000000 →
            valueOf memory this PhysicalMemoryArray.extendedMaximumCapacity = capacity) ∨
        capacity = 2 ^ 41 := by
  rw [getSize_decodes device, and_iff_left rfl]
  exact getMaximumCapacity_decodes_iff array

/-- An array of length 23 with the two capacity fields. -/
def arrayOf (maximum extended : List UInt8) : Memory := fun address =>
  ([16, 23, 0, 0, 3, 3, 3] ++ maximum ++ [0, 0, 1, 0] ++ extended).getD address 0

/-- A device of length 98 and size 1 GiB. -/
def gibDevice : Memory := fun address => [17, 98, 0, 0, 0, 0, 0, 0, 0, 0, 0, 0, 0, 4].getD address 0

theorem memorySizes_decode_iff_gib :
    (PhysicalMemoryArray.getMaximumCapacity (arrayOf [0, 0, 16, 0] []) 0).result = .ok (2 ^ 30) ∧
      (MemoryDevice.getSize gibDevice 0).result = .ok (2 ^ 30) := by
  have array : EncodesCapacity (arrayOf [0, 0, 16, 0] []) 0 (2 ^ 30) :=
    ⟨by decide, by decide, by decide, fun _ => by decide, fun large => absurd large (by decide)⟩
  have device : EncodesSize gibDevice 0 (2 ^ 30) :=
    ⟨by decide, .mebibytes (by decide) (by decide) (by decide)⟩
  exact (memorySizes_decode_iff array device).mpr
    (.inl ⟨by decide, fun slip => absurd slip (by decide)⟩)

/-- Capacities of 128 GiB and of 4 TiB are read as 0 and as 2 TiB. -/
theorem getMaximumCapacity_slips :
    (EncodesCapacity (arrayOf [0, 0, 0, 8] []) 0 (2 ^ 37) ∧
        (PhysicalMemoryArray.getMaximumCapacity (arrayOf [0, 0, 0, 8] []) 0).result = .ok 0) ∧
      EncodesCapacity (arrayOf [0, 0, 0, 128] [0, 0, 0, 0, 0, 4, 0, 0]) 0 (2 ^ 42) ∧
        (PhysicalMemoryArray.getMaximumCapacity
          (arrayOf [0, 0, 0, 128] [0, 0, 0, 0, 0, 4, 0, 0]) 0).result = .ok (2 ^ 41) := by
  refine ⟨⟨⟨by decide, by decide, by decide, fun _ => by decide, ?_⟩, ?_⟩,
    ⟨by decide, by decide, by decide, ?_, fun _ => by decide⟩, ?_⟩
  · exact fun large => absurd large (by decide)
  · rw [getMaximumCapacity_result]
    rfl
  · exact fun small => absurd small (by decide)
  · rw [getMaximumCapacity_result]
    rfl

end Dvnetos.Smbios
