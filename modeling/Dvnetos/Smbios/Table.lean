import Mathlib.Data.List.Basic
import Mathlib.Tactic.Common

/-!
# Headers and strings of the SMBIOS structure table

This file models `smbiosStructLen` and `getString` from `smbios/smbios.cpp`, and the cases of the
`switch` in `SMBIOS::dumpTable`. The memory is total, since the walk over the table may leave it;
every byte that the scan of a string set reads is recorded. No loop need end, so they run on
fuel: what is read with some amount of fuel is what the source has read after that many
iterations.
-/

namespace Dvnetos.Smbios

/-- The bytes at all addresses. -/
abbrev Memory := ℕ → UInt8

/-- `TableType::EndOfTable`. -/
def endOfTable : UInt8 := 127

/-- The cases of the `switch` in `dumpTable`. -/
inductive Printer where
  | firmwareInfo
  | systemInfo
  | chassisInfo
  | processorInfo
  | physicalMemoryArray
  | memoryDevice
  | endOfTable
  | unhandled
  deriving DecidableEq

/-- The case for a value of `ptr->type`. -/
def printer (type : UInt8) : Printer :=
  if type = 0 then .firmwareInfo
  else if type = 1 then .systemInfo
  else if type = 3 then .chassisInfo
  else if type = 4 then .processorInfo
  else if type = 16 then .physicalMemoryArray
  else if type = 17 then .memoryDevice
  else if type = endOfTable then .endOfTable
  else .unhandled

/-- The address of `strtab`, which is behind the formatted area of the structure at `hd`. -/
def strtab (memory : Memory) (hd : ℕ) : ℕ := hd + (memory (hd + 1)).toNat

/--
The loop `for (i = 1; strtab[i - 1] != '\0' || strtab[i] != '\0'; i++) {}` from
`i` on: the final `i`, and the addresses read.
-/
def scanStrings (memory : Memory) (strtab : ℕ) : ℕ → ℕ → Option ℕ × List ℕ
  | 0, _ => (none, [])
  | fuel + 1, i =>
      if memory (strtab + i - 1) ≠ 0 then
        let (final, reads) := scanStrings memory strtab fuel (i + 1)
        (final, (strtab + i - 1) :: reads)
      else if memory (strtab + i) ≠ 0 then
        let (final, reads) := scanStrings memory strtab fuel (i + 1)
        (final, (strtab + i - 1) :: (strtab + i) :: reads)
      else (some i, [strtab + i - 1, strtab + i])

/-- `smbiosStructLen(hd)` and the addresses it reads. -/
def smbiosStructLen (memory : Memory) (fuel hd : ℕ) : Option ℕ × List ℕ :=
  let (final, reads) := scanStrings memory (strtab memory hd) fuel 1
  (final.map fun i => (memory (hd + 1)).toNat + i + 1, (hd + 1) :: reads)

/-- The loop `while (*strtab != '\0') strtab++`. -/
def skipString (memory : Memory) : ℕ → ℕ → Option ℕ
  | 0, _ => none
  | fuel + 1, strtab =>
      if memory strtab ≠ 0 then skipString memory fuel (strtab + 1) else some strtab

/-- The `for` loop of `getString`, with the number of strings that it skips. -/
def skipStrings (memory : Memory) (fuel : ℕ) : ℕ → ℕ → Option ℕ
  | 0, strtab => some strtab
  | count + 1, strtab =>
      match skipString memory fuel strtab with
      | none => none
      | some nul => skipStrings memory fuel count (nul + 1)

/-- `getString(entry, index)`, which is null for index 0; it may not have returned yet. -/
def getString (memory : Memory) (fuel entry : ℕ) (index : UInt8) : Option (Option ℕ) :=
  if index = 0 then some none
  else (skipStrings memory fuel (index.toNat - 1) (strtab memory entry)).map some

end Dvnetos.Smbios
