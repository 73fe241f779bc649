import Dvnetos.Smbios.PrinterReads
import Dvnetos.Smbios.Strings

/-!
# What the printers read

A field is printed if the field behind it starts within the declared length, which is right for
every field that is checked at all. The indices `sku` and `family` of a system and `socketType`
of a processor are not, and no index is compared with the number of strings.
-/

namespace Dvnetos.Smbios

variable {memory : Memory} {entry : Structure} {ptr fuel : ℕ}

/-- Fields are read within the declared length, and characters in the string set. -/
def Respects (ptr : ℕ) (entry : Structure) : Event → Prop
  | .field place => place.offset + place.size ≤ entry.formattedArea.length
  | .character address =>
      ptr + entry.formattedArea.length ≤ address ∧ address < ptr + entry.bytes.length
  | .ksnprintf _ _ => True
  | .bytesToHumanReadable _ => True

/-- The field lies within the declared length. -/
def Within (entry : Structure) (place : Field) : Prop :=
  place.offset + place.size ≤ entry.formattedArea.length

theorem readsInside_eq_respects (ptr : ℕ) (entry : Structure) :
    ReadsInside (Within entry) (ptr + entry.formattedArea.length) (ptr + entry.bytes.length) =
      Respects ptr entry := by
  funext event
  cases event with
  | _ => rfl

/-- A string and its NUL. -/
theorem nuls_string {string : List UInt8} {address limit : ℕ} (nulFree : 0 ∉ string)
    (holds : Holds memory address (string ++ [0])) (before : address + string.length < limit) :
    nuls memory address limit = nuls memory (address + string.length + 1) limit + 1 := by
  induction string generalizing address with
  | nil =>
      rw [List.length_nil, Nat.add_zero] at before ⊢
      rw [nuls_of_lt before, if_pos holds.1]
  | cons byte string ih =>
      simp only [List.mem_cons, not_or] at nulFree
      rw [List.length_cons] at before ⊢
      have here : memory address ≠ 0 := by
        rw [holds.1]
        exact fun zero => nulFree.1 zero.symm
      have later := ih nulFree.2 holds.2 (by omega)
      have shift : address + (string.length + 1) = address + 1 + string.length := by omega
      rw [nuls_of_lt (by omega), if_neg here, shift, Nat.add_zero]
      exact later

/-- As many strings as there are NULs. -/
theorem nuls_stringBytes {strings : List (List UInt8)} {address : ℕ}
    (nulFree : ∀ string ∈ strings, 0 ∉ string)
    (holds : Holds memory address (stringBytes strings)) :
    nuls memory address (address + (stringBytes strings).length) = strings.length := by
  induction strings generalizing address with
  | nil => exact nuls_of_le (Nat.le_refl _)
  | cons string rest ih =>
      have length := stringBytes_length_cons string rest
      rw [List.forall_mem_cons] at nulFree
      rw [stringBytes_cons, List.append_cons, holds_append] at holds
      have later := holds.2
      rw [List.length_append, List.length_singleton, ← Nat.add_assoc] at later
      have counted := ih nulFree.2 later
      have stop : address + (stringBytes (string :: rest)).length =
          address + string.length + 1 + (stringBytes rest).length := by omega
      rw [stop, nuls_string nulFree.1 holds.1 (by omega), counted, List.length_cons]

section

variable (holds : Holds memory ptr entry.bytes)

include holds

theorem nuls_strings :
    nuls memory (strtab memory ptr) (ptr + entry.bytes.length) =
      max (entry.strings.length + 1) 2 := by
  have counted := nuls_stringBytes (slots_nulFree entry.nulFree) (slots_holds holds)
  rw [← stringSet_eq] at counted
  rw [← length_slots, ← counted, strtab_holds holds, bytes_length, Nat.add_assoc]

theorem valueOf_length : valueOf memory ptr TableHeader.length = entry.formattedArea.length := by
  have start := strtab_holds holds
  rw [strtab_eq] at start
  exact Nat.add_left_cancel start

theorem named_within_iff {index : Field} :
    Named memory ptr (Within entry) (ptr + entry.bytes.length) index ↔
      Within entry index ∧ valueOf memory ptr index ≤ max (entry.strings.length + 1) 2 := by
  have area : 4 ≤ entry.formattedArea.length := entry.formatted.1
  have length : Within entry TableHeader.length := (by decide : 1 + 1 ≤ 4).trans area
  rw [Named, nuls_strings holds]
  exact and_congr_right fun _ => and_iff_right fun _ => length

/-- The check for the next field is enough for a field in front of it. -/
theorem insideIfReached_within {next value : Field}
    (inFront : value.offset + value.size ≤ next.offset) :
    InsideIfReached memory ptr (Within entry) next value := by
  rw [InsideIfReached, valueOf_length holds]
  exact inFront.trans

end

/-- The indices refer to strings, or to a NUL that closes the string set. -/
def IndexesFit (memory : Memory) (ptr : ℕ) (entry : Structure) (indexes : List Field) : Prop :=
  ∀ index ∈ indexes, valueOf memory ptr index ≤ max (entry.strings.length + 1) 2

/-- The length of the shortest form of a structure. -/
def shortest : Printer → ℕ
  | .firmwareInfo => 0x12
  | .systemInfo => 0x08
  | .chassisInfo => 0x09
  | .processorInfo => 0x1A
  | .physicalMemoryArray => 0x0F
  | .memoryDevice => 0x15
  | .endOfTable | .unhandled => 0

/-- The structure has the unchecked fields, and its indices refer to its strings. -/
def Printable (memory : Memory) (ptr : ℕ) (entry : Structure) : Printer → Prop
  | .firmwareInfo =>
      IndexesFit memory ptr entry
        [FirmwareInfo.vendor, FirmwareInfo.version, FirmwareInfo.releaseDate]
  | .systemInfo =>
      0x1B ≤ entry.formattedArea.length ∧
        IndexesFit memory ptr entry
          [SystemInfo.vendor, SystemInfo.product, SystemInfo.version, SystemInfo.serial,
            SystemInfo.sku, SystemInfo.family]
  | .chassisInfo =>
      IndexesFit memory ptr entry
        [ChassisInfo.manufacturer, ChassisInfo.version, ChassisInfo.serial, ChassisInfo.assetTag]
  | .processorInfo =>
      IndexesFit memory ptr entry
          [ProcessorInfo.socketDesignation, ProcessorInfo.processorManufacturer,
            ProcessorInfo.processorVersion] ∧
        (valueOf memory ptr ProcessorInfo.processorUpgrade = 0xFF →
          0x33 ≤ entry.formattedArea.length ∧
            IndexesFit memory ptr entry [ProcessorInfo.socketType]) ∧
        (ProcessorInfo.assetTag.offset ≤ entry.formattedArea.length →
          IndexesFit memory ptr entry [ProcessorInfo.serialNumber]) ∧
        (ProcessorInfo.partNumber.offset ≤ entry.formattedArea.length →
          IndexesFit memory ptr entry [ProcessorInfo.assetTag]) ∧
        (ProcessorInfo.coreCount.offset ≤ entry.formattedArea.length →
          IndexesFit memory ptr entry [ProcessorInfo.partNumber])
  | .physicalMemoryArray | .memoryDevice | .endOfTable | .unhandled => True

section

variable (holds : Holds memory ptr entry.bytes)

include holds

theorem FirmwareInfo.prints_within_iff (long : 0x12 ≤ entry.formattedArea.length) :
    Prints memory ptr (Within entry) (ptr + entry.bytes.length) ↔
      IndexesFit memory ptr entry [vendor, version, releaseDate] := by
  constructor
  · exact fun prints index mem => ((named_within_iff holds).mp (prints.strings index mem)).2
  · intro fits
    have indexes : ∀ index ∈ [vendor, version, releaseDate],
        index.offset + index.size ≤ 0x12 := by decide
    have fields : ∀ place ∈ [romSize, characteristics, TableHeader.length],
        place.offset + place.size ≤ 0x12 := by decide
    exact
      { strings := fun index mem =>
          (named_within_iff holds).mpr ⟨(indexes index mem).trans long, fits index mem⟩
        fields := fun place mem => (fields place mem).trans long
        bios := insideIfReached_within holds (by decide)
        biosMinor := insideIfReached_within holds (by decide)
        firmware := insideIfReached_within holds (by decide)
        firmwareMinor := insideIfReached_within holds (by decide)
        extended := fun whole => Nat.le_of_eq (whole.symm.trans (valueOf_length holds)) }

/-- The last two indices are looked up whatever the length is. -/
theorem SystemInfo.prints_within_iff :
    Prints memory ptr (Within entry) (ptr + entry.bytes.length) ↔
      0x1B ≤ entry.formattedArea.length ∧
        IndexesFit memory ptr entry [vendor, product, version, serial, sku, family] := by
  constructor
  · intro prints
    have named (index : Field) (mem : index ∈ _) := (named_within_iff holds).mp (prints index mem)
    exact ⟨(named family (by decide)).1, fun index mem => (named index mem).2⟩
  · rintro ⟨long, fits⟩ index mem
    have indexes : ∀ index ∈ [vendor, product, version, serial, sku, family],
        index.offset + index.size ≤ 0x1B := by decide
    exact (named_within_iff holds).mpr ⟨(indexes index mem).trans long, fits index mem⟩

theorem ChassisInfo.prints_within_iff (long : 0x09 ≤ entry.formattedArea.length) :
    Prints memory ptr (Within entry) (ptr + entry.bytes.length) ↔
      IndexesFit memory ptr entry [manufacturer, version, serial, assetTag] := by
  constructor
  · exact fun prints index mem => ((named_within_iff holds).mp (prints.strings index mem)).2
  · intro fits
    have indexes : ∀ index ∈ [manufacturer, version, serial, assetTag],
        index.offset + index.size ≤ 0x09 := by decide
    have length : TableHeader.length.offset + TableHeader.length.size ≤ 0x09 := by decide
    exact
      { strings := fun index mem =>
          (named_within_iff holds).mpr ⟨(indexes index mem).trans long, fits index mem⟩
        length := length.trans long
        bootUp := insideIfReached_within holds (by decide)
        powerSupply := insideIfReached_within holds (by decide)
        thermal := insideIfReached_within holds (by decide)
        security := insideIfReached_within holds (by decide)
        oem := insideIfReached_within holds (by decide)
        units := insideIfReached_within holds (by decide)
        cords := insideIfReached_within holds (by decide)
        elements := insideIfReached_within holds (by decide) }

/-- A string whose index lies in front of the field that is checked. -/
theorem ProcessorInfo.namedIfReached_within_iff {next index : Field}
    (inFront : index.offset + index.size ≤ next.offset) :
    NamedIfReached memory ptr (Within entry) (ptr + entry.bytes.length) next index ↔
      (next.offset ≤ entry.formattedArea.length → IndexesFit memory ptr entry [index]) := by
  rw [NamedIfReached, valueOf_length holds]
  refine forall_congr' fun reached => (named_within_iff holds).trans ?_
  rw [IndexesFit, List.forall_mem_singleton]
  exact and_iff_right (inFront.trans reached)

theorem ProcessorInfo.prints_within_iff (long : 0x1A ≤ entry.formattedArea.length) :
    Prints memory ptr (Within entry) (ptr + entry.bytes.length) ↔
      IndexesFit memory ptr entry
          [socketDesignation, processorManufacturer, processorVersion] ∧
        (valueOf memory ptr processorUpgrade = 0xFF →
          0x33 ≤ entry.formattedArea.length ∧ IndexesFit memory ptr entry [socketType]) ∧
        (assetTag.offset ≤ entry.formattedArea.length →
          IndexesFit memory ptr entry [serialNumber]) ∧
        (partNumber.offset ≤ entry.formattedArea.length →
          IndexesFit memory ptr entry [assetTag]) ∧
        (coreCount.offset ≤ entry.formattedArea.length →
          IndexesFit memory ptr entry [partNumber]) := by
  have socket : Named memory ptr (Within entry) (ptr + entry.bytes.length) socketType ↔
      0x33 ≤ entry.formattedArea.length ∧ IndexesFit memory ptr entry [socketType] := by
    rw [named_within_iff holds, IndexesFit, List.forall_mem_singleton]
    rfl
  have serial := @namedIfReached_within_iff memory entry ptr holds assetTag serialNumber (by decide)
  have asset := @namedIfReached_within_iff memory entry ptr holds partNumber assetTag (by decide)
  have part := @namedIfReached_within_iff memory entry ptr holds coreCount partNumber (by decide)
  rw [← socket, ← serial, ← asset, ← part]
  constructor
  · intro prints
    exact ⟨fun index mem => ((named_within_iff holds).mp (prints.strings index mem)).2,
      prints.socket, prints.serial, prints.asset, prints.part⟩
  · rintro ⟨fits, socket, serial, asset, part⟩
    have indexes : ∀ index ∈ [socketDesignation, processorManufacturer, processorVersion],
        index.offset + index.size ≤ 0x1A := by decide
    have fields : ∀ place ∈ [processorType, processorFamily, processorId, externalClock, maxSpeed,
        currentSpeed, status, processorUpgrade, TableHeader.length],
        place.offset + place.size ≤ 0x1A := by decide
    exact
      { socket, serial, asset, part
        strings := fun index mem =>
          (named_within_iff holds).mpr ⟨(indexes index mem).trans long, fits index mem⟩
        fields := fun place mem => (fields place mem).trans long
        cores := insideIfReached_within holds (by decide)
        enabled := insideIfReached_within holds (by decide)
        threads := insideIfReached_within holds (by decide) }

/-- The extended capacity is only read of a structure that has it. -/
theorem PhysicalMemoryArray.prints_within (long : 0x0F ≤ entry.formattedArea.length) :
    Prints memory ptr (Within entry) := by
  have fields : ∀ place ∈ [TableHeader.handle, location, use, memoryErrorCorrection,
      numberOfDevices, maximumCapacity], place.offset + place.size ≤ 0x0F := by decide
  have length : TableHeader.length.offset + TableHeader.length.size ≤ 0x0F := by decide
  exact
    { fields := fun place mem => (fields place mem).trans long
      extended := fun _ => ⟨length.trans long,
        fun whole => Nat.le_of_eq (whole.symm.trans (valueOf_length holds))⟩ }

/-- The check for the field behind the extended size is enough for it. -/
theorem MemoryDevice.prints_within (long : 0x15 ≤ entry.formattedArea.length) :
    Prints memory ptr (Within entry) := by
  have fields : ∀ place ∈ [TableHeader.handle, physicalMemoryArrayHandle, size],
      place.offset + place.size ≤ 0x15 := by decide
  have length : TableHeader.length.offset + TableHeader.length.size ≤ 0x15 := by decide
  exact
    { fields := fun place mem => (fields place mem).trans long
      extended := fun _ => ⟨length.trans long, insideIfReached_within holds (by decide)⟩ }

/-- The fields and indices that are read lie within the structure. -/
theorem prints_within_iff {kind : Printer} (long : shortest kind ≤ entry.formattedArea.length) :
    Prints memory ptr (Within entry) (ptr + entry.bytes.length) kind ↔
      Printable memory ptr entry kind := by
  cases kind with
  | firmwareInfo => exact FirmwareInfo.prints_within_iff holds long
  | systemInfo => exact SystemInfo.prints_within_iff holds
  | chassisInfo => exact ChassisInfo.prints_within_iff holds long
  | processorInfo => exact ProcessorInfo.prints_within_iff holds long
  | physicalMemoryArray => exact iff_true_intro (PhysicalMemoryArray.prints_within holds long)
  | memoryDevice => exact iff_true_intro (MemoryDevice.prints_within holds long)
  | endOfTable => exact Iff.rfl
  | unhandled =>
      have area : 4 ≤ entry.formattedArea.length := entry.formatted.1
      exact iff_true_intro ((by decide : 1 + 1 ≤ 4).trans area)

end

/-- Which structures are printed without reading anything but their fields and strings. -/
theorem toString_respects_iff (holds : Holds memory ptr entry.bytes)
    (enough : entry.bytes.length ≤ fuel)
    (long : shortest (printer entry.type) ≤ entry.formattedArea.length) :
    (toStringOf memory fuel ptr (printer entry.type)).All (Respects ptr entry) ↔
      Printable memory ptr entry (printer entry.type) := by
  have area : 4 ≤ entry.formattedArea.length := entry.formatted.1
  have length := bytes_length entry
  have start := strtab_holds holds
  by_cases unhandled : printer entry.type = .unhandled
  · rw [unhandled]
    exact iff_true_intro (Traced.all_pure _)
  · rw [← prints_within_iff holds long, ← readsInside_eq_respects, ← start,
      ← printEntry_of_ne unhandled]
    exact (printEntry_ends (Nat.le_refl _) _).all_iff (by omega)

/-- A system with a string and all indices. -/
def namedSystem : Structure where
  type := 1
  body := [0, 1, 1, 1, 1, 1, 0, 0, 0, 0, 0, 0, 0, 0, 0, 0, 0, 0, 0, 0, 0, 0, 0, 0, 0]
  strings := [[115]]
  formatted := by decide
  countFits := by decide
  nonempty := by decide
  nulFree := by decide

/-- The structure alone. -/
def namedMemory : Memory := fun address => namedSystem.bytes.getD address 0

/-- All indices refer to the string, or to none. -/
theorem toString_respects_iff_namedSystem :
    (toStringOf namedMemory 32 0 (printer namedSystem.type)).All (Respects 0 namedSystem) := by
  have printable : Printable namedMemory 0 namedSystem (printer namedSystem.type) := by
    refine ⟨by decide, fun index => ?_⟩
    revert index
    decide
  exact (toString_respects_iff (by decide) (by decide) (by decide)).mpr printable

/-- A structure of type 1 in its shortest form, with one string. -/
def shortSystem : Structure where
  type := 1
  body := [0, 1, 1, 0, 0, 0]
  strings := [[97]]
  formatted := by decide
  countFits := by decide
  nonempty := by decide
  nulFree := by decide

/-- The structure alone, with zeros behind it. -/
def shortMemory : Memory := fun address => shortSystem.bytes.getD address 0

/-- The index `sku` is taken from behind the structure of 11 bytes. -/
theorem shortSystem_reads_behind :
    Holds shortMemory 0 shortSystem.bytes ∧
      shortest (printer shortSystem.type) ≤ shortSystem.formattedArea.length ∧
      .field SystemInfo.sku ∈ (toStringOf shortMemory 16 0 (printer shortSystem.type)).events ∧
      ¬Within shortSystem SystemInfo.sku := by
  have late : ¬SystemInfo.sku.offset + SystemInfo.sku.size ≤ shortSystem.formattedArea.length := by
    decide
  exact ⟨by decide, by decide, by decide, late⟩

end Dvnetos.Smbios
