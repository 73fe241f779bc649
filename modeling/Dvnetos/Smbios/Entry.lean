import Dvnetos.Lib.Word
import Dvnetos.Smbios.TableWalk

/-!
# The entry of the structure table

This file models `SMBIOS::init` from `smbios/smbios.cpp`, which finds the structure table
through the entry of the bootloader's response. A 64-bit entry has a length of 32 bits, of
which `dumpTable` gets 16.
-/

namespace Dvnetos.Smbios

open Word

/-- `limine_smbios_response`. A pointer is zero if it is null. -/
structure Response where
  entry_64 : ℕ
  entry_32 : ℕ

/-- A call of `memory::paging.mapPartial`. -/
structure MapPartialCall where
  physical_address : ℕ
  virtual_address : ℕ
  size : ℕ
  flags : ℕ
  deriving DecidableEq

/-- What `init` prints itself. -/
inductive Message where
  /-- `"SMBIOS 64-bit entry: %d.%d table at %p length %d\n"`. -/
  | entry64 (major minor table_address table_length : ℕ)
  /-- `"SMBIOS 32-bit entry: %d.%d table at %p length %d\n"`. -/
  | entry32 (major minor table_address table_length : ℕ)
  /-- `"No SMBIOS address\n"`. -/
  | noAddress
  /-- `"No SMBIOS\n"`. -/
  | noSmbios
  /-- `"SMBIOS end\n"`. -/
  | smbiosEnd
  deriving DecidableEq

/-- What `init` does if no call of `mapPartial` panics. -/
structure InitRun where
  mapped : List MapPartialCall
  messages : List Message
  dump : Option Dump

namespace Entry64

/-- The major version of the specification. -/
def major_version : Field := ⟨7, 1⟩

/-- The minor version of the specification. -/
def minor_version : Field := ⟨8, 1⟩

/-- The length of the structure table, in four bytes. -/
def table_length : Field := ⟨12, 4⟩

/-- The physical address of the structure table, in eight bytes. -/
def table_address : Field := ⟨16, 8⟩

/-- `sizeof(Entry64)`. -/
def sizeOf : ℕ := 24

end Entry64

namespace Entry32

/-- The major version of the specification. -/
def major_version : Field := ⟨6, 1⟩

/-- The minor version of the specification. -/
def minor_version : Field := ⟨7, 1⟩

/-- The length of the structure table, in two bytes. -/
def table_length : Field := ⟨22, 2⟩

/-- The physical address of the structure table, in four bytes. -/
def table_address : Field := ⟨24, 4⟩

/-- `sizeof(Entry32)`. -/
def sizeOf : ℕ := 31

end Entry32

/-- What is printed behind the table, once `dumpTable` has returned. -/
def afterDump (dump : Dump) : List Message :=
  match dump.outcome with
  | .ok () => [.smbiosEnd]
  | .error _ => []

/-- `init(hhdmOffset)` with the response of the bootloader. -/
def init (memory : Memory) (fuel hhdmOffset : ℕ) : Option Response → InitRun
  | none => { mapped := [], messages := [.noSmbios, .smbiosEnd], dump := none }
  | some response =>
      if response.entry_64 ≠ 0 then
        let entry := add64 response.entry_64 hhdmOffset
        let address := valueOf memory entry Entry64.table_address
        let length := valueOf memory entry Entry64.table_length
        let table := add64 address hhdmOffset
        -- the length is converted to the `uint16_t` parameter
        let dump := dumpTable memory fuel table (UInt16.ofNat length)
        { mapped :=
            [⟨response.entry_64, entry, Entry64.sizeOf, 0x700⟩, ⟨address, table, length, 0x700⟩]
          messages :=
            .entry64 (valueOf memory entry Entry64.major_version)
              (valueOf memory entry Entry64.minor_version) address length :: afterDump dump
          dump := some dump }
      else if response.entry_32 ≠ 0 then
        let entry := add64 response.entry_32 hhdmOffset
        let address := valueOf memory entry Entry32.table_address
        let length := valueOf memory entry Entry32.table_length
        let table := add64 address hhdmOffset
        let dump := dumpTable memory fuel table (UInt16.ofNat length)
        { mapped := [⟨response.entry_32, entry, Entry32.sizeOf, 0⟩, ⟨address, table, length, 0⟩]
          messages :=
            .entry32 (valueOf memory entry Entry32.major_version)
              (valueOf memory entry Entry32.minor_version) address length :: afterDump dump
          dump := some dump }
      else { mapped := [], messages := [.noAddress, .smbiosEnd], dump := none }

variable {memory : Memory} {fuel hhdmOffset table : ℕ} {response : Response}
  {entries : List Structure}

/-- A response with a 64-bit entry of a table that holds the structures. -/
structure Provides (memory : Memory) (hhdmOffset : ℕ) (response : Response) (table : ℕ)
    (entries : List Structure) : Prop where
  notNull : response.entry_64 ≠ 0
  address : add64 (valueOf memory (add64 response.entry_64 hhdmOffset) Entry64.table_address)
    hhdmOffset = table
  length : valueOf memory (add64 response.entry_64 hhdmOffset) Entry64.table_length =
    (tableBytes entries).length
  holds : Holds memory table (tableBytes entries)

/-- With enough fuel `init` lists the structures up to the first one of type 127, and returns. -/
def Lists (memory : Memory) (hhdmOffset : ℕ) (response : Response) (table : ℕ)
    (entries : List Structure) : Prop :=
  ∃ enough, ∀ fuel, enough ≤ fuel →
    ∃ dump, (init memory fuel hhdmOffset (some response)).dump = some dump ∧
      dump.outcome = .ok () ∧
      dump.visited = (upToEnd (placedAt table entries)).map fun place =>
        (place.1, printer place.2.type)

theorem init_dump (provides : Provides memory hhdmOffset response table entries) :
    (init memory fuel hhdmOffset (some response)).dump =
      some (dumpLoop memory (table + (tableBytes entries).length % 65536) fuel table) := by
  simp only [init, if_pos provides.notNull, provides.address, provides.length, dumpTable,
    UInt16.toNat_ofNat']

theorem holds_of_getD {memory : Memory} {address : ℕ} {bytes : List UInt8}
    (same : ∀ i < bytes.length, memory (address + i) = bytes.getD i 0) :
    Holds memory address bytes := by
  induction bytes generalizing address with
  | nil => trivial
  | cons byte bytes ih =>
      rw [List.length_cons] at same
      refine ⟨same 0 (Nat.succ_pos _), ih fun i inside => ?_⟩
      have next := same (i + 1) (Nat.succ_lt_succ inside)
      rw [Nat.add_assoc, Nat.add_comm 1 i]
      exact next

/-- Bytes of an entry for a table of the length at address 8192, which holds the structures. -/
def entryMemory (length : List UInt8) (entries : List Structure) : Memory := fun address =>
  if address < 8192 then
    (List.replicate 12 0 ++ length ++ [0, 32, 0, 0, 0, 0, 0, 0]).getD (address - 4096) 0
  else (tableBytes entries).getD (address - 8192) 0

theorem entryMemory_holds (length : List UInt8) (entries : List Structure) :
    Holds (entryMemory length entries) 8192 (tableBytes entries) := by
  apply holds_of_getD
  intro i _
  rw [entryMemory, if_neg (Nat.not_lt.mpr (Nat.le_add_right _ _)), Nat.add_sub_cancel_left]

/-- The longest body that a structure can have behind its header. -/
def longBody : List UInt8 := List.replicate 252 0

theorem longBody_length : longBody.length = 252 := List.length_replicate

theorem longBody_formatted : 4 ≤ longBody.length + 2 ∧ longBody.length + 2 ≤ 255 := by
  rw [longBody_length]
  decide

/-- A structure of 256 bytes. -/
def longEntry : Structure where
  type := 1
  body := longBody
  strings := []
  formatted := longBody_formatted
  countFits := endEntry.countFits
  nonempty := endEntry.nonempty
  nulFree := endEntry.nulFree

theorem tableBytes_longEntries_length (count : ℕ) :
    (tableBytes (List.replicate count longEntry)).length = count * 256 := by
  have one : longEntry.bytes.length = 256 := by
    have body : longEntry.body.length = 252 := longBody_length
    have area : longEntry.formattedArea.length = longEntry.body.length + 2 := rfl
    have closing : (stringSet longEntry.strings).length = 2 := rfl
    rw [bytes_length, area, body, closing]
  induction count with
  | zero => rfl
  | succ count ih =>
      rw [List.replicate_succ, tableBytes_cons, List.length_append, one, ih]
      omega

/-- As many structures of 256 bytes as fill 64 KiB. -/
def longTable : List Structure := List.replicate 256 longEntry

end Dvnetos.Smbios
