import Dvnetos.Smbios.StringLookups

/-!
# Where the printers read

Whatever is in memory, a printer stays in front of two limits, one for the fields and one for the
strings, exactly if the fields that it reads end in front of the first one, and the strings that
it looks up in front of the second one. It then returns, or panics at a unit of the extended ROM
size that it does not know.
-/

namespace Dvnetos.Smbios

variable {memory : Memory} {ptr low limit fuel : ℕ} {inside : Field → Prop}

namespace FirmwareInfo

/-- The unit of the extended ROM size is neither megabytes nor gigabytes. -/
def UnknownUnits (memory : Memory) (ptr : ℕ) : Prop :=
  valueOf memory ptr TableHeader.length = sizeOf ∧
    2 ≤ valueOf memory ptr extendedFirmwareRomSize / 2 ^ 14

instance (memory : Memory) (ptr : ℕ) : Decidable (UnknownUnits memory ptr) :=
  inferInstanceAs (Decidable (_ ∧ _))

/-- The fields and strings that are read of a structure of type 0 may be read. -/
@[mk_iff prints_iff]
structure Prints (memory : Memory) (ptr : ℕ) (inside : Field → Prop) (limit : ℕ) : Prop where
  strings : ∀ index ∈ [vendor, version, releaseDate], Named memory ptr inside limit index
  fields : ∀ place ∈ [romSize, characteristics, TableHeader.length], inside place
  bios : InsideIfReached memory ptr inside systemBiosMinorRelease systemBiosMajorRelease
  biosMinor : InsideIfReached memory ptr inside ecFirmwareMinorRelease systemBiosMinorRelease
  firmware : InsideIfReached memory ptr inside ecFirmwareMinorRelease ecFirmwareMajorRelease
  firmwareMinor : InsideIfReached memory ptr inside extendedFirmwareRomSize ecFirmwareMinorRelease
  extended : valueOf memory ptr TableHeader.length = sizeOf →
    inside extendedFirmwareRomSize

theorem printCharacteristic_ends (lower : low ≤ strtab memory ptr) (i : ℕ) :
    PrinterEnds memory ptr inside low limit fuel (printCharacteristic memory fuel ptr i)
      (inside characteristics) (.ok ()) := by
  refine Traced.Ends.congr ((member_ends characteristics).bind (Traced.Ends.when
    (ksnprintf_plain lower _ ?_))) (and_iff_left fun _ => trivial)
  simp

theorem printExtendedRomSize_ends (lower : low ≤ strtab memory ptr) :
    PrinterEnds memory ptr inside low limit fuel (printExtendedRomSize memory fuel ptr)
      (inside extendedFirmwareRomSize)
      (if 2 ≤ valueOf memory ptr extendedFirmwareRomSize / 2 ^ 14 then .error .unknownUnits
        else .ok ()) := by
  have panics : PrinterEnds memory ptr inside low limit fuel
      (Traced.halt .unknownUnits : Printing Unit) True (.error .unknownUnits) := .halt _
  have units := @member_ends memory ptr low limit fuel inside extendedFirmwareRomSize
  have print (format : String) (bytes : ℕ) :=
    @ksnprintf_plain memory ptr low limit fuel inside lower format [.byteCount bytes] (by simp)
  refine Traced.Ends.congr (units.bind (units.bind ?_)) ((and_congr_right fun _ =>
    and_iff_left trivial).trans and_self_iff)
  split_ifs with megabytes unknown gigabytes unknown
  · omega
  · exact print _ _
  · omega
  · exact print _ _
  · exact panics
  · omega

theorem toString_ends (lower : low ≤ strtab memory ptr) :
    PrinterEnds memory ptr inside low limit fuel (toString memory fuel ptr)
      (Prints memory ptr inside limit)
      (if UnknownUnits memory ptr then .error .unknownUnits else .ok ()) := by
  have look (index : Field) := @stringOf_ends memory ptr low limit fuel inside lower index
  have field (place : Field) := @member_ends memory ptr low limit fuel inside place
  have print (next value : Field) (format : String) :=
    @printIfReaches_ends memory ptr low limit fuel inside lower next value format .number (by simp)
  have flags := @Traced.Ends.forEach _ _ _ (ReadsInside inside low limit) Halt.outOfFuel
    (limit - strtab memory ptr < fuel) _ _ (List.range 64) fun i _ =>
      printCharacteristic_ends lower i
  have everyFlag : (∀ i ∈ List.range 64, inside characteristics) ↔
      inside characteristics :=
    ⟨fun each => each 0 (by decide), fun inside _ _ => inside⟩
  have extended : PrinterEnds memory ptr inside low limit fuel
      (if valueOf memory ptr TableHeader.length = sizeOf then printExtendedRomSize memory fuel ptr
        else pure ())
      (valueOf memory ptr TableHeader.length = sizeOf → inside extendedFirmwareRomSize)
      (if UnknownUnits memory ptr then .error .unknownUnits else .ok ()) := by
    simp only [UnknownUnits]
    by_cases whole : valueOf memory ptr TableHeader.length = sizeOf
    · simp only [whole, if_true, true_and, true_implies]
      exact printExtendedRomSize_ends lower
    · simp only [whole, if_false, false_and, false_implies]
      exact .pure ()
  refine Traced.Ends.congr ((look vendor).bind <| (look version).bind <|
    (look releaseDate).bind <| (field romSize).bind <| (ksnprintf_ends lower _ ?_).bind <|
    flags.bind <| (print systemBiosMinorRelease systemBiosMajorRelease _).bind <|
    (print ecFirmwareMinorRelease systemBiosMinorRelease _).bind <|
    (print ecFirmwareMinorRelease ecFirmwareMajorRelease _).bind <|
    (print extendedFirmwareRomSize ecFirmwareMinorRelease _).bind <|
    (field TableHeader.length).bind extended) ?_
  · simp only [List.forall_mem_cons, startsBehind_pointerOf, startsBehind_byteCount,
      List.not_mem_nil, false_implies, implies_true, and_self]
  · simp only [prints_iff, List.forall_mem_cons, named_iff, argEnds_pointerOf_iff,
      argEnds_byteCount, List.not_mem_nil, false_implies, implies_true, and_true, everyFlag]
    tauto

end FirmwareInfo

namespace SystemInfo

/-- The strings of a structure of type 1 may be read. -/
def Prints (memory : Memory) (ptr : ℕ) (inside : Field → Prop) (limit : ℕ) : Prop :=
  ∀ index ∈ [vendor, product, version, serial, sku, family], Named memory ptr inside limit index

theorem toString_ends (lower : low ≤ strtab memory ptr) :
    PrinterEnds memory ptr inside low limit fuel (toString memory fuel ptr)
      (Prints memory ptr inside limit) (.ok ()) := by
  have look (index : Field) := @stringOf_ends memory ptr low limit fuel inside lower index
  refine Traced.Ends.congr ((look vendor).bind <| (look product).bind <| (look version).bind <|
    (look serial).bind <| (look sku).bind <| (look family).bind <| ksnprintf_ends lower _ ?_) ?_
  · simp only [List.forall_mem_cons, startsBehind_pointerOf, List.not_mem_nil, false_implies,
      implies_true, and_self]
  · simp only [Prints, List.forall_mem_cons, named_iff, argEnds_pointerOf_iff, List.not_mem_nil,
      false_implies, implies_true, and_true]
    tauto

end SystemInfo

namespace ChassisInfo

/-- The fields and strings that are read of a structure of type 3 may be read. -/
@[mk_iff prints_iff]
structure Prints (memory : Memory) (ptr : ℕ) (inside : Field → Prop) (limit : ℕ) : Prop where
  strings : ∀ index ∈ [manufacturer, version, serial, assetTag], Named memory ptr inside limit index
  length : inside TableHeader.length
  bootUp : InsideIfReached memory ptr inside powerSupplyState bootUpState
  powerSupply : InsideIfReached memory ptr inside thermalState powerSupplyState
  thermal : InsideIfReached memory ptr inside securityStatus thermalState
  security : InsideIfReached memory ptr inside oemDefined securityStatus
  oem : InsideIfReached memory ptr inside height oemDefined
  units : InsideIfReached memory ptr inside numberOfPowerCords height
  cords : InsideIfReached memory ptr inside containedElementCount numberOfPowerCords
  elements : InsideIfReached memory ptr inside containedElementRecordLength containedElementCount

theorem toString_ends (lower : low ≤ strtab memory ptr) :
    PrinterEnds memory ptr inside low limit fuel (toString memory fuel ptr)
      (Prints memory ptr inside limit) (.ok ()) := by
  have look (index : Field) := @stringOf_ends memory ptr low limit fuel inside lower index
  have number (next value : Field) (format : String) :=
    @printIfReaches_ends memory ptr low limit fuel inside lower next value format .number (by simp)
  have name (next value : Field) (format : String) (enumeration : Enumeration) :=
    @printIfReaches_ends memory ptr low limit fuel inside lower next value format
      (.name enumeration) (by simp)
  refine Traced.Ends.congr ((look manufacturer).bind <| (look version).bind <|
    (look serial).bind <| (look assetTag).bind <| (ksnprintf_ends lower _ ?_).bind <|
    (name powerSupplyState bootUpState _ _).bind <| (name thermalState powerSupplyState _ _).bind <|
    (name securityStatus thermalState _ _).bind <| (name oemDefined securityStatus _ _).bind <|
    (number height oemDefined _).bind <| (number numberOfPowerCords height _).bind <|
    (number containedElementCount numberOfPowerCords _).bind <|
    number containedElementRecordLength containedElementCount _) ?_
  · simp only [List.forall_mem_cons, startsBehind_pointerOf, List.not_mem_nil, false_implies,
      implies_true, and_self]
  · simp only [prints_iff, List.forall_mem_cons, named_iff, argEnds_pointerOf_iff,
      List.not_mem_nil, false_implies, implies_true, and_true]
    tauto

end ChassisInfo

namespace ProcessorInfo

/-- A string whose index is only read if the field behind it starts within the length. -/
def NamedIfReached (memory : Memory) (ptr : ℕ) (inside : Field → Prop) (limit : ℕ)
    (next index : Field) : Prop :=
  next.offset ≤ valueOf memory ptr TableHeader.length → Named memory ptr inside limit index

/-- The fields and strings that are read of a structure of type 4 may be read. -/
@[mk_iff prints_iff]
structure Prints (memory : Memory) (ptr : ℕ) (inside : Field → Prop) (limit : ℕ) : Prop where
  strings : ∀ index ∈ [socketDesignation, processorManufacturer, processorVersion],
    Named memory ptr inside limit index
  fields : ∀ place ∈ [processorType, processorFamily, processorId, externalClock, maxSpeed,
    currentSpeed, status, processorUpgrade, TableHeader.length], inside place
  socket : valueOf memory ptr processorUpgrade = 0xFF → Named memory ptr inside limit socketType
  serial : NamedIfReached memory ptr inside limit assetTag serialNumber
  asset : NamedIfReached memory ptr inside limit partNumber assetTag
  part : NamedIfReached memory ptr inside limit coreCount partNumber
  cores : InsideIfReached memory ptr inside coreEnabled coreCount
  enabled : InsideIfReached memory ptr inside threadCount coreEnabled
  threads : InsideIfReached memory ptr inside processorCharacteristics threadCount

section

variable (lower : low ≤ strtab memory ptr)

include lower

theorem printString_ends {get : Printing (Option ℕ)} {condition : Prop} {pointer : Option ℕ}
    (ends : PrinterEnds memory ptr inside low limit fuel get condition (.ok pointer))
    (start : StartsBehind memory ptr (.string pointer)) (format : String) :
    PrinterEnds memory ptr inside low limit fuel (printString memory fuel get format)
      (condition ∧ ArgEnds memory limit (.string pointer)) (.ok ()) := by
  refine ends.bind ?_
  cases pointer with
  | none => exact .pure ()
  | some pointer =>
      exact (ksnprintf_ends lower format (List.forall_mem_singleton.mpr start)).congr
        List.forall_mem_singleton

theorem printNamed_ends (index : Field) (format : String) :
    PrinterEnds memory ptr inside low limit fuel
      (printString memory fuel (stringOf memory fuel ptr index) format)
      (Named memory ptr inside limit index) (.ok ()) := by
  refine (printString_ends lower (stringOf_ends lower index) (startsBehind_pointerOf _)
    format).congr ?_
  rw [argEnds_pointerOf_iff, named_iff]

theorem printReached_ends (next index : Field) (format : String) :
    PrinterEnds memory ptr inside low limit fuel
      (printString memory fuel (stringIfReaches memory fuel ptr next index) format)
      (inside TableHeader.length ∧ NamedIfReached memory ptr inside limit next index)
      (.ok ()) := by
  have length := @member_ends memory ptr low limit fuel inside TableHeader.length
  simp only [NamedIfReached, named_iff]
  by_cases reached : next.offset ≤ valueOf memory ptr TableHeader.length
  · have get : PrinterEnds memory ptr inside low limit fuel
        (stringIfReaches memory fuel ptr next index) _ _ :=
      length.bind (by rw [if_pos reached]; exact stringOf_ends lower index)
    refine (printString_ends lower get (startsBehind_pointerOf _) format).congr ?_
    simp only [argEnds_pointerOf_iff, reached, true_implies]
    tauto
  · have get : PrinterEnds memory ptr inside low limit fuel
        (stringIfReaches memory fuel ptr next index) _ _ :=
      length.bind (by rw [if_neg reached]; exact .pure none)
    refine (printString_ends lower get trivial format).congr ?_
    simp only [ArgEnds, reached, false_implies, and_true]

theorem printCount_ends {get : Printing ℕ} {condition : Prop} {count : ℕ}
    (ends : PrinterEnds memory ptr inside low limit fuel get condition (.ok count))
    (format : String) :
    PrinterEnds memory ptr inside low limit fuel (printCount memory fuel get format) condition
      (.ok ()) :=
  Traced.Ends.congr (ends.bind (Traced.Ends.when (ksnprintf_plain lower format (by simp))))
    (and_iff_left fun _ => trivial)

omit lower in
theorem countIfReaches_ends (next count : Field) :
    PrinterEnds memory ptr inside low limit fuel (countIfReaches memory ptr next count)
      (inside TableHeader.length ∧ InsideIfReached memory ptr inside next count)
      (.ok (if next.offset ≤ valueOf memory ptr TableHeader.length then valueOf memory ptr count
        else 0)) := by
  have length := @member_ends memory ptr low limit fuel inside TableHeader.length
  by_cases reached : next.offset ≤ valueOf memory ptr TableHeader.length
  · simp only [InsideIfReached, reached, true_implies, if_true]
    exact length.bind (by rw [if_pos reached]; exact member_ends count)
  · simp only [InsideIfReached, reached, false_implies, if_false]
    exact length.bind (by rw [if_neg reached]; exact .pure 0)

omit lower in
theorem getStatusString_ends :
    ∃ arg, (∀ pointer, arg ≠ .string pointer) ∧
      PrinterEnds memory ptr inside low limit fuel (getStatusString memory ptr)
        (inside status) (.ok arg) := by
  have value : PrinterEnds memory ptr inside low limit fuel (getStatus memory ptr)
      (inside status) (.ok (valueOf memory ptr status % 8)) :=
    Traced.Ends.congr ((member_ends status).bind (.pure _)) (and_iff_left trivial)
  cases found : cpuStatusList[valueOf memory ptr status % 8]? with
  | some entry =>
      refine ⟨.literal entry, by simp, Traced.Ends.congr (value.bind ?_) (and_iff_left trivial)⟩
      rw [found]
      exact .pure _
  | none =>
      refine ⟨.name .processorStatus (valueOf memory ptr status % 8), by simp,
        Traced.Ends.congr (value.bind ?_) (and_iff_left trivial)⟩
      rw [found]
      exact .pure _

/-- The socket is looked up in the strings exactly if the upgrade has no name and is `0xff`. -/
theorem printSocket_ends :
    ∃ arg, StartsBehind memory ptr arg ∧
      ∃ condition, PrinterEnds memory ptr inside low limit fuel (getSocket memory fuel ptr)
        condition (.ok arg) ∧
      (condition ∧ ArgEnds memory limit arg ↔ inside processorUpgrade ∧
        (valueOf memory ptr processorUpgrade = 0xFF →
          Named memory ptr inside limit socketType)) := by
  have upgrade := @member_ends memory ptr low limit fuel inside processorUpgrade
  have print (text : Option String) : PrinterEnds memory ptr inside low limit fuel
      (pure (.literal text) : Printing PrintArg) True (.ok (.literal text)) := .pure _
  cases found : socketName (valueOf memory ptr processorUpgrade) with
  | some socket =>
      have named : valueOf memory ptr processorUpgrade ≠ 0xFF := by
        intro isLast
        have unnamed : socketName 0xFF = none := by decide
        rw [isLast, unnamed] at found
        cases found
      refine ⟨.literal (some socket), trivial, _,
        upgrade.bind (by rw [found]; exact print _), ?_⟩
      simp only [ArgEnds, named, false_implies, and_true]
  | none =>
      by_cases isLast : valueOf memory ptr processorUpgrade = 0xFF
      · have look := @stringOf_ends memory ptr low limit fuel inside lower socketType
        refine ⟨_, @startsBehind_pointerOf memory ptr limit (valueOf memory ptr socketType), _,
          upgrade.bind (by rw [found, if_pos isLast]; exact look.bind (.pure _)), ?_⟩
        simp only [argEnds_pointerOf_iff, named_iff, isLast, true_implies, and_true]
        tauto
      · refine ⟨.literal (some "unknown"), trivial, _,
          upgrade.bind (by rw [found, if_neg isLast]; exact print _), ?_⟩
        simp only [ArgEnds, isLast, false_implies, and_true]

theorem toString_ends :
    PrinterEnds memory ptr inside low limit fuel (toString memory fuel ptr)
      (Prints memory ptr inside limit) (.ok ()) := by
  have field (place : Field) := @member_ends memory ptr low limit fuel inside place
  have look (index : Field) := @stringOf_ends memory ptr low limit fuel inside lower index
  have plain (format : String) (arg : PrintArg) (noString : ∀ pointer, arg ≠ .string pointer) :=
    @ksnprintf_plain memory ptr low limit fuel inside lower format [arg]
      (List.forall_mem_singleton.mpr noString)
  have name (format : String) (enumeration : Enumeration) (value : ℕ) :=
    plain format (.name enumeration value) (by simp)
  have number (format : String) (value : ℕ) := plain format (.number value) (by simp)
  have literal (format : String) (text : Option String) := plain format (.literal text) (by simp)
  have print (index : Field) (format : String) :=
    @printNamed_ends memory ptr low limit fuel inside lower index format
  have clock (count : Field) (format : String) := printCount_ends lower (field count) format
  have reached (next index : Field) (format : String) :=
    @printReached_ends memory ptr low limit fuel inside lower next index format
  have count (next count : Field) (format : String) :=
    printCount_ends lower
      (@countIfReaches_ends memory ptr low limit fuel inside next count) format
  have populated : PrinterEnds memory ptr inside low limit fuel (isPopulated memory ptr)
      (inside status) _ :=
    Traced.Ends.congr ((field status).bind (.pure _)) (and_iff_left trivial)
  rcases @getStatusString_ends memory ptr low limit fuel inside with
    ⟨statusArg, noString, getStatus⟩
  rcases @printSocket_ends memory ptr low limit fuel inside lower with
    ⟨socketArg, socketStart, _, getSocket, socketNamed⟩
  have socketPrinted := (@ksnprintf_ends memory ptr low limit fuel inside lower " socket: %s" _
    (List.forall_mem_singleton.mpr socketStart)).congr List.forall_mem_singleton
  refine Traced.Ends.congr ((look socketDesignation).bind <| (ksnprintf_ends lower _ ?_).bind <|
    (field processorType).bind <| (name _ _ _).bind <|
    (field processorFamily).bind <| (name _ _ _).bind <|
    (print processorManufacturer _).bind <| (field processorId).bind <| (number _ _).bind <|
    (print processorVersion _).bind <| (clock externalClock _).bind <| (clock maxSpeed _).bind <|
    (clock currentSpeed _).bind <| populated.bind <| (literal _ _).bind <|
    getStatus.bind <| (plain _ _ noString).bind <| getSocket.bind <|
    socketPrinted.bind <|
    (reached assetTag serialNumber _).bind <| (reached partNumber assetTag _).bind <|
    (reached coreCount partNumber _).bind <| (count coreEnabled coreCount _).bind <|
    (count threadCount coreEnabled _).bind <| count processorCharacteristics threadCount _) ?_
  · exact List.forall_mem_singleton.mpr (startsBehind_pointerOf _)
  · have socket (rest : Prop) := (and_assoc (c := rest)).symm.trans (and_congr_left' socketNamed)
    simp only [socket, prints_iff, List.forall_mem_cons, argEnds_pointerOf_iff,
      @named_iff memory ptr limit inside socketDesignation, List.not_mem_nil, false_implies,
      implies_true, and_true, true_and]
    tauto

end

end ProcessorInfo

theorem printSize_ends (lower : low ≤ strtab memory ptr) (size : ℕ) (title : String) :
    PrinterEnds memory ptr inside low limit fuel (printSize memory fuel size title) True (.ok ()) :=
  Traced.Ends.congr
    (Traced.Ends.when (((ksnprintf_plain lower title (by simp)).bind (.record _)).congr
      (and_iff_left trivial)))
    (iff_true_intro fun _ => trivial)

namespace PhysicalMemoryArray

/-- The fields that are read of a structure of type 16 may be read. -/
@[mk_iff prints_iff]
structure Prints (memory : Memory) (ptr : ℕ) (inside : Field → Prop) : Prop where
  fields : ∀ place ∈ [TableHeader.handle, location, use, memoryErrorCorrection, numberOfDevices,
    maximumCapacity], inside place
  extended : valueOf memory ptr maximumCapacity = 0x8000000 →
    inside TableHeader.length ∧
      (valueOf memory ptr TableHeader.length = sizeOf → inside extendedMaximumCapacity)

theorem getMaximumCapacity_ends :
    ∃ capacity, PrinterEnds memory ptr inside low limit fuel (getMaximumCapacity memory ptr)
      (inside maximumCapacity ∧ (valueOf memory ptr maximumCapacity = 0x8000000 →
        inside TableHeader.length ∧
          (valueOf memory ptr TableHeader.length = sizeOf →
            inside extendedMaximumCapacity))) (.ok capacity) := by
  have field (place : Field) := @member_ends memory ptr low limit fuel inside place
  refine ⟨_, Traced.Ends.congr ((field maximumCapacity).bind <| Traced.Ends.ite
    ((field TableHeader.length).bind <| Traced.Ends.ite (field extendedMaximumCapacity) (.pure 0))
    (.pure _)) ?_⟩
  split_ifs with escaped whole
  · simp only [escaped, whole, true_implies]
  · simp only [escaped, whole, true_implies, false_implies]
  · simp only [escaped, false_implies]

theorem toString_ends (lower : low ≤ strtab memory ptr) :
    PrinterEnds memory ptr inside low limit fuel (toString memory fuel ptr)
      (Prints memory ptr inside) (.ok ()) := by
  have field (place : Field) := @member_ends memory ptr low limit fuel inside place
  have devices : PrinterEnds memory ptr inside low limit fuel (printDevices memory fuel ptr)
      (inside numberOfDevices) (.ok ()) :=
    Traced.Ends.congr ((field numberOfDevices).bind (Traced.Ends.when
      (ksnprintf_plain lower _ (by simp)))) (and_iff_left fun _ => trivial)
  rcases @getMaximumCapacity_ends memory ptr low limit fuel inside with ⟨capacity, getCapacity⟩
  refine Traced.Ends.congr ((field TableHeader.handle).bind <| (field location).bind <|
    (field use).bind <| (field memoryErrorCorrection).bind <|
    (ksnprintf_plain lower _ (by simp)).bind <| devices.bind <| getCapacity.bind <|
    printSize_ends lower _ _) ?_
  simp only [prints_iff, List.forall_mem_cons, List.not_mem_nil, false_implies, implies_true,
    and_true, true_and, and_assoc]

end PhysicalMemoryArray

namespace MemoryDevice

/-- The fields that are read of a structure of type 17 may be read. -/
@[mk_iff prints_iff]
structure Prints (memory : Memory) (ptr : ℕ) (inside : Field → Prop) : Prop where
  fields : ∀ place ∈ [TableHeader.handle, physicalMemoryArrayHandle, size], inside place
  extended : valueOf memory ptr size = 0x7fff → inside TableHeader.length ∧
    InsideIfReached memory ptr inside configuredMemorySpeed extendedSize

theorem getSize_ends :
    ∃ bytes, PrinterEnds memory ptr inside low limit fuel (getSize memory ptr)
      (inside size ∧ (valueOf memory ptr size = 0x7fff →
        inside TableHeader.length ∧
          InsideIfReached memory ptr inside configuredMemorySpeed extendedSize)) (.ok bytes) := by
  have field (place : Field) := @member_ends memory ptr low limit fuel inside place
  refine ⟨_, Traced.Ends.congr ((field size).bind <| Traced.Ends.ite
    ((field TableHeader.length).bind <| Traced.Ends.ite ((field extendedSize).bind (.pure _))
      (.pure 0))
    (Traced.Ends.ite (.pure _) (.pure _))) ?_⟩
  simp only [InsideIfReached]
  split_ifs with escaped reached
  · simp only [escaped, reached, true_implies, and_true]
  · simp only [escaped, reached, true_implies, false_implies]
  · simp only [escaped, false_implies]
  · simp only [escaped, false_implies]

theorem toString_ends (lower : low ≤ strtab memory ptr) :
    PrinterEnds memory ptr inside low limit fuel (toString memory fuel ptr)
      (Prints memory ptr inside) (.ok ()) := by
  have field (place : Field) := @member_ends memory ptr low limit fuel inside place
  rcases @getSize_ends memory ptr low limit fuel inside with ⟨bytes, getSize⟩
  refine Traced.Ends.congr ((field TableHeader.handle).bind <|
    (field physicalMemoryArrayHandle).bind <| (ksnprintf_plain lower _ (by simp)).bind <|
    getSize.bind <| printSize_ends lower _ _) ?_
  simp only [prints_iff, List.forall_mem_cons, List.not_mem_nil, false_implies, implies_true,
    and_true, true_and, and_assoc]

end MemoryDevice

/-- Where a structure is printed, everything that is read may be read. -/
def Prints (memory : Memory) (ptr : ℕ) (inside : Field → Prop) (limit : ℕ) : Printer → Prop
  | .firmwareInfo => FirmwareInfo.Prints memory ptr inside limit
  | .systemInfo => SystemInfo.Prints memory ptr inside limit
  | .chassisInfo => ChassisInfo.Prints memory ptr inside limit
  | .processorInfo => ProcessorInfo.Prints memory ptr inside limit
  | .physicalMemoryArray => PhysicalMemoryArray.Prints memory ptr inside
  | .memoryDevice => MemoryDevice.Prints memory ptr inside
  | .endOfTable => True
  | .unhandled => inside TableHeader.length

/-- The printer of a structure panics. -/
def Panics (memory : Memory) (ptr : ℕ) (kind : Printer) : Prop :=
  kind = .firmwareInfo ∧ FirmwareInfo.UnknownUnits memory ptr

instance (memory : Memory) (ptr : ℕ) (kind : Printer) : Decidable (Panics memory ptr kind) :=
  inferInstanceAs (Decidable (_ ∧ _))

theorem panics_iff : Panics memory ptr .firmwareInfo ↔ FirmwareInfo.UnknownUnits memory ptr :=
  and_iff_right rfl

/-- What a structure is printed from, and how its printer ends. -/
theorem printEntry_ends (lower : low ≤ strtab memory ptr) (kind : Printer) :
    PrinterEnds memory ptr inside low limit fuel (printEntry memory fuel ptr kind)
      (Prints memory ptr inside limit kind)
      (if Panics memory ptr kind then .error .unknownUnits else .ok ()) := by
  cases kind with
  | firmwareInfo =>
      simp only [panics_iff]
      exact FirmwareInfo.toString_ends lower
  | systemInfo => exact SystemInfo.toString_ends lower
  | chassisInfo => exact ChassisInfo.toString_ends lower
  | processorInfo => exact ProcessorInfo.toString_ends lower
  | physicalMemoryArray => exact PhysicalMemoryArray.toString_ends lower
  | memoryDevice => exact MemoryDevice.toString_ends lower
  | endOfTable => exact .pure ()
  | unhandled =>
      exact Traced.Ends.congr ((member_ends TableHeader.length).bind (.pure ()))
        (and_iff_left trivial)

/-- What may be read where less may be read. -/
theorem Prints.mono {inside' : Field → Prop} {limit' : ℕ} {kind : Printer}
    (prints : Prints memory ptr inside limit kind)
    (fields : ∀ place, inside place → inside' place) (longer : limit ≤ limit') :
    Prints memory ptr inside' limit' kind := by
  have ends := @printEntry_ends memory ptr 0 limit (limit' + 1) inside (Nat.zero_le _) kind
  have longerEnds := @printEntry_ends memory ptr 0 limit' (limit' + 1) inside' (Nat.zero_le _) kind
  refine longerEnds.of_all (.inl (by omega)) fun event mem => ?_
  have before := ends.all_of prints event mem
  cases event with
  | field place => exact fields place before
  | character address => exact ⟨before.1, before.2.trans_le longer⟩
  | _ => trivial

end Dvnetos.Smbios
