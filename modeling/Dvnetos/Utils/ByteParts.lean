import Dvnetos.Utils.StdioDigits

/-!
# Byte counts in binary units

A byte count is written as parts in GiB, MiB, KiB and B, without the parts that
are zero. This file says which parts these are by plain division, independently
of the recursion that prints them, and reads a text of parts back.
-/

namespace Dvnetos.Bytes

open Stdio

/-- The units that `bytesToHumanReadable` writes. -/
inductive ByteUnit where
  | b
  | kib
  | mib
  | gib
  deriving DecidableEq

namespace ByteUnit

/-- The number of bytes in the unit. -/
def size : ByteUnit → ℕ
  | .b => 1
  | .kib => 2 ^ 10
  | .mib => 2 ^ 20
  | .gib => 2 ^ 30

/-- The name of a unit. -/
def name : ByteUnit → List UInt8
  | .b => ['B'].map chr
  | .kib => ['K', 'i', 'B'].map chr
  | .mib => ['M', 'i', 'B'].map chr
  | .gib => ['G', 'i', 'B'].map chr

/-- The unit with a name. -/
def ofName (name : List UInt8) : ByteUnit :=
  if name = ByteUnit.gib.name then .gib
  else if name = ByteUnit.mib.name then .mib
  else if name = ByteUnit.kib.name then .kib
  else .b

@[simp]
theorem ofName_name (unit : ByteUnit) : ofName unit.name = unit := by
  cases unit <;> rfl

theorem space_notMem_name (unit : ByteUnit) : chr ' ' ∉ unit.name := by
  cases unit <;> decide

end ByteUnit

/-- A number of units. -/
structure Part where
  value : ℕ
  unit : ByteUnit
  deriving DecidableEq

namespace Part

/-- How many bytes a part stands for. -/
def bytes (part : Part) : ℕ := part.value * part.unit.size

/-- The number and the name of the unit, with a space between them. -/
def text (part : Part) : List UInt8 :=
  digits 10 decimalDigit part.value ++ chr ' ' :: part.unit.name

end Part

/-- The number of bytes in a list of parts. -/
def total : List Part → ℕ
  | [] => 0
  | part :: rest => part.bytes + total rest

/-- The parts of a byte count that are not zero. -/
def nonzeroParts (bytes : ℕ) : List Part :=
  [⟨bytes / 2 ^ 30, .gib⟩, ⟨bytes / 2 ^ 20 % 1024, .mib⟩, ⟨bytes / 2 ^ 10 % 1024, .kib⟩,
    ⟨bytes % 1024, .b⟩].filter fun part => 0 < part.value

/-- The parts a byte count is written with. -/
def parts (bytes : ℕ) : List Part :=
  if bytes = 0 then [⟨0, .b⟩] else nonzeroParts bytes

/-- The texts of the parts with spaces between them. -/
def textOf (parts : List Part) : List UInt8 :=
  [chr ' '].intercalate (parts.map Part.text)

theorem parts_of_ne_zero {bytes : ℕ} (nonzero : bytes ≠ 0) : parts bytes = nonzeroParts bytes :=
  if_neg nonzero

@[simp]
theorem nonzeroParts_zero : nonzeroParts 0 = [] := rfl

theorem total_filter (parts : List Part) :
    total (parts.filter fun part => 0 < part.value) = total parts := by
  induction parts with
  | nil => rfl
  | cons part rest ih =>
      rcases Nat.eq_zero_or_pos part.value with zero | positive
      · simp [total, Part.bytes, zero, ih]
      · simp [total, positive, ih]

theorem total_parts (bytes : ℕ) : total (parts bytes) = bytes := by
  simp only [parts]
  split
  · next zero => simp [total, Part.bytes, zero]
  · rw [nonzeroParts, total_filter]
    simp only [total, Part.bytes, ByteUnit.size]
    omega

theorem parts_decreasing (bytes : ℕ) :
    (parts bytes).Pairwise fun part later => later.unit.size < part.unit.size := by
  simp only [parts]
  split
  · simp
  · apply List.Pairwise.filter
    simp [ByteUnit.size]

theorem parts_value_lt {bytes : ℕ} {part : Part} (mem : part ∈ parts bytes)
    (notLeading : part.unit ≠ .gib) : part.value < 1024 := by
  unfold parts at mem
  split at mem
  · simp at mem
    simp [mem]
  · have listed := List.mem_of_mem_filter mem
    simp only [List.mem_cons, List.not_mem_nil, or_false] at listed
    rcases listed with rfl | rfl | rfl | rfl
    · exact absurd rfl notLeading
    · exact Nat.mod_lt _ (by omega)
    · exact Nat.mod_lt _ (by omega)
    · exact Nat.mod_lt _ (by omega)

/-- Only the count zero has a part that is zero. -/
theorem parts_of_zero_mem {bytes : ℕ} {part : Part} (mem : part ∈ parts bytes)
    (zero : part.value = 0) : parts bytes = [⟨0, .b⟩] := by
  simp only [parts] at mem ⊢
  split at mem
  · next none => simp [none]
  · have positive := List.of_mem_filter mem
    simp [zero] at positive

theorem parts_ne_nil (bytes : ℕ) : parts bytes ≠ [] := by
  intro empty
  have sum := total_parts bytes
  rw [empty] at sum
  obtain rfl : 0 = bytes := sum
  simp [parts] at empty

theorem nonzeroParts_of_b {bytes : ℕ} (positive : 0 < bytes) (small : bytes < 1024) :
    nonzeroParts bytes = [⟨bytes, .b⟩] := by
  have gib : bytes / 2 ^ 30 = 0 := by omega
  have mib : bytes / 2 ^ 20 % 1024 = 0 := by omega
  have kib : bytes / 2 ^ 10 % 1024 = 0 := by omega
  have b : bytes % 1024 = bytes := by omega
  simp only [nonzeroParts, gib, mib, kib, b]
  simp [positive]

theorem nonzeroParts_of_kib {bytes : ℕ} (large : 1024 ≤ bytes) (small : bytes < 1024 * 1024) :
    nonzeroParts bytes = ⟨bytes / 1024, .kib⟩ :: nonzeroParts (bytes % 1024) := by
  have gib : bytes / 2 ^ 30 = 0 ∧ bytes % 1024 / 2 ^ 30 = 0 := by omega
  have mib : bytes / 2 ^ 20 % 1024 = 0 ∧ bytes % 1024 / 2 ^ 20 % 1024 = 0 := by omega
  have kib : bytes / 2 ^ 10 % 1024 = bytes / 1024 ∧ bytes % 1024 / 2 ^ 10 % 1024 = 0 := by omega
  have positive : 0 < bytes / 1024 := by omega
  have b : bytes % 1024 % 1024 = bytes % 1024 := by omega
  simp only [nonzeroParts, gib, mib, kib, b]
  simp [positive]

theorem nonzeroParts_of_mib {bytes : ℕ} (large : 1024 * 1024 ≤ bytes)
    (small : bytes < 1024 * 1024 * 1024) :
    nonzeroParts bytes = ⟨bytes / 1024 / 1024, .mib⟩ :: nonzeroParts (bytes % (1024 * 1024)) := by
  have gib : bytes / 2 ^ 30 = 0 ∧ bytes % (1024 * 1024) / 2 ^ 30 = 0 := by omega
  have mib : bytes / 2 ^ 20 % 1024 = bytes / 1024 / 1024 ∧
      bytes % (1024 * 1024) / 2 ^ 20 % 1024 = 0 := by omega
  have kib : bytes % (1024 * 1024) / 2 ^ 10 % 1024 = bytes / 2 ^ 10 % 1024 := by omega
  have b : bytes % (1024 * 1024) % 1024 = bytes % 1024 := by omega
  have positive : 0 < bytes / 1024 / 1024 := by omega
  simp only [nonzeroParts, gib, mib, kib, b]
  simp [positive]

theorem nonzeroParts_of_gib {bytes : ℕ} (large : 1024 * 1024 * 1024 ≤ bytes) :
    nonzeroParts bytes =
      ⟨bytes / 1024 / 1024 / 1024, .gib⟩ :: nonzeroParts (bytes % (1024 * 1024 * 1024)) := by
  have gib : bytes / 2 ^ 30 = bytes / 1024 / 1024 / 1024 ∧
      bytes % (1024 * 1024 * 1024) / 2 ^ 30 = 0 := by omega
  have mib : bytes % (1024 * 1024 * 1024) / 2 ^ 20 % 1024 = bytes / 2 ^ 20 % 1024 := by omega
  have kib : bytes % (1024 * 1024 * 1024) / 2 ^ 10 % 1024 = bytes / 2 ^ 10 % 1024 := by omega
  have b : bytes % (1024 * 1024 * 1024) % 1024 = bytes % 1024 := by omega
  have positive : 0 < bytes / 1024 / 1024 / 1024 := by omega
  simp only [nonzeroParts, gib, mib, kib, b]
  simp [positive]

theorem space_notMem_digits (n : ℕ) : chr ' ' ∉ digits 10 decimalDigit n := by
  intro mem
  exact absurd (digits_isDigit n _ mem) (by decide)

/-- The numbers and the names of the units, from the first part on. -/
def tokens (parts : List Part) : List (List UInt8) :=
  parts.flatMap fun part => [digits 10 decimalDigit part.value, part.unit.name]

theorem textOf_eq_tokens (parts : List Part) :
    textOf parts = [chr ' '].intercalate (tokens parts) := by
  induction parts with
  | nil => rfl
  | cons part rest ih =>
      cases rest with
      | nil => simp [textOf, tokens, Part.text, List.intercalate]
      | cons next rest =>
          simp only [textOf, tokens, List.map_cons, List.flatMap_cons, List.cons_append,
            List.nil_append, List.intercalate_cons_cons] at ih ⊢
          rw [ih]
          simp [Part.text]

/-- The bytes that numbers and names of units stand for. -/
def readTokens : List (List UInt8) → ℕ
  | number :: name :: rest => digitsValue number * (ByteUnit.ofName name).size + readTokens rest
  | _ => 0

/-- The byte count that a text stands for. -/
def readText (text : List UInt8) : ℕ :=
  readTokens (text.splitOn (chr ' '))

theorem readTokens_tokens (parts : List Part) : readTokens (tokens parts) = total parts := by
  induction parts with
  | nil => rfl
  | cons part rest ih =>
      simp only [tokens, List.flatMap_cons, List.cons_append, List.nil_append] at ih ⊢
      simp [readTokens, total, Part.bytes, digitsValue_digits, ih]

/-- The text of parts can be read back. -/
theorem readText_textOf {parts : List Part} (nonempty : parts ≠ []) :
    readText (textOf parts) = total parts := by
  have noSpace : ∀ token ∈ tokens parts, chr ' ' ∉ token := by
    intro token mem
    rcases List.mem_flatMap.mp mem with ⟨part, -, isToken⟩
    rcases List.mem_pair.mp isToken with rfl | rfl
    · exact space_notMem_digits part.value
    · exact part.unit.space_notMem_name
  have some : tokens parts ≠ [] := by
    cases parts with
    | nil => exact absurd rfl nonempty
    | cons part rest => simp [tokens]
  rw [readText, textOf_eq_tokens, List.splitOn_intercalate _ noSpace some, readTokens_tokens]

theorem nul_notMem_digits (n : ℕ) : (0 : UInt8) ∉ digits 10 decimalDigit n := by
  intro mem
  exact absurd (digits_isDigit n _ mem) (by decide)

theorem nul_notMem_text (part : Part) : (0 : UInt8) ∉ part.text := by
  have name : (0 : UInt8) ∉ part.unit.name := by
    cases part.unit <;> decide
  have space : (0 : UInt8) ≠ chr ' ' := by decide
  simp [Part.text, nul_notMem_digits, name, space]

/-- The characters of the parts, each with the space behind it. -/
def width : List Part → ℕ
  | [] => 0
  | part :: rest => part.text.length + 1 + width rest

@[simp]
theorem textOf_singleton (part : Part) : textOf [part] = part.text := by
  simp [textOf, List.intercalate]

theorem textOf_cons {rest : List Part} (part : Part) (nonempty : rest ≠ []) :
    textOf (part :: rest) = part.text ++ chr ' ' :: textOf rest := by
  cases rest with
  | nil => exact absurd rfl nonempty
  | cons next rest => simp [textOf, List.intercalate_cons_cons]

theorem nul_notMem_textOf (parts : List Part) : (0 : UInt8) ∉ textOf parts := by
  induction parts with
  | nil => simp [textOf, List.intercalate]
  | cons part rest ih =>
      cases rest with
      | nil => simpa using nul_notMem_text part
      | cons next rest =>
          have space : (0 : UInt8) ≠ chr ' ' := by decide
          rw [textOf_cons part (List.cons_ne_nil _ _)]
          simp [nul_notMem_text, ih, space]

theorem length_textOf {parts : List Part} (nonempty : parts ≠ []) :
    (textOf parts).length + 1 = width parts := by
  induction parts with
  | nil => exact absurd rfl nonempty
  | cons part rest ih =>
      cases rest with
      | nil => simp [width]
      | cons next rest =>
          rw [textOf_cons part (List.cons_ne_nil _ _)]
          simp [width] at ih ⊢
          omega

theorem width_dropLast {parts : List Part} (nonempty : parts ≠ []) :
    width parts = width parts.dropLast + (parts.getLast nonempty).text.length + 1 := by
  induction parts with
  | nil => exact absurd rfl nonempty
  | cons part rest ih =>
      cases rest with
      | nil => simp [width]
      | cons next rest =>
          have tail := ih (List.cons_ne_nil _ _)
          rw [List.dropLast_cons_cons, List.getLast_cons (List.cons_ne_nil _ _)]
          change part.text.length + 1 + width (next :: rest) =
            part.text.length + 1 + width _ + _ + 1
          omega

theorem width_filter_le (keep : Part → Bool) (parts : List Part) :
    width (parts.filter keep) ≤ width parts := by
  induction parts with
  | nil => rfl
  | cons part rest ih =>
      rw [List.filter_cons]
      split
      · exact Nat.add_le_add_left ih _
      · exact ih.trans (Nat.le_add_left _ _)

theorem length_decimal_le {n count : ℕ} (positive : 0 < count) (lt : n < 10 ^ count) :
    (digits 10 decimalDigit n).length ≤ count := by
  simpa [decimalDigits_natCast] using (Numeral.length_digits_le_iff (by omega) positive n).mpr lt

/-- The text of a 64-bit count has at most 40 characters. -/
theorem length_textOf_parts_le {bytes : ℕ} (isWord : bytes < 2 ^ 64) :
    (textOf (parts bytes)).length ≤ 40 := by
  have length := length_textOf (parts_ne_nil bytes)
  have bound : width (parts bytes) ≤ 41 := by
    simp only [parts]
    split
    · decide
    · refine (width_filter_le _ _).trans ?_
      have gib := @length_decimal_le (bytes / 2 ^ 30) 11 (by omega) (by omega)
      have mib := @length_decimal_le (bytes / 2 ^ 20 % 1024) 4 (by omega) (by omega)
      have kib := @length_decimal_le (bytes / 2 ^ 10 % 1024) 4 (by omega) (by omega)
      have b := @length_decimal_le (bytes % 1024) 4 (by omega) (by omega)
      simp only [width, Part.text, ByteUnit.name, List.length_append, List.length_cons,
        List.map_cons, List.map_nil, List.length_nil]
      omega
  omega

end Dvnetos.Bytes
