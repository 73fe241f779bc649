import Dvnetos.Lib.ByteWords
import Dvnetos.Lib.Traced
import Dvnetos.Smbios.Table

/-!
# The records of the structure table

This file models the record layouts of `smbios/smbios.h` and their `toString` functions from
`smbios/smbios.cpp`. A printer records every field and every character of a string that it
reads, and every call of `ksnprintf` and `bytesToHumanReadable` with its arguments. A field is
named by its place in the packed structure, and the value of a field is a number.
-/

namespace Dvnetos.Smbios

open TracedStore

/-- A member of a packed structure. -/
structure Field where
  offset : ℕ
  size : ℕ
  deriving DecidableEq

/-- The enumerations of which `smbios::toString` names a value. -/
inductive Enumeration where
  | firmwareCharacteristics
  | chassisState
  | chassisSecurityStatus
  | processorType
  | processorFamily
  | processorStatus
  | physicalMemoryArrayLocation
  | physicalMemoryArrayUse
  | memoryErrorCorrection
  deriving DecidableEq

/-- An argument of `ksnprintf`. -/
inductive PrintArg where
  | number (value : ℕ)
  /-- What `getString` returned. -/
  | string (pointer : Option ℕ)
  | literal (text : Option String)
  /-- `smbios::toString` of a value. -/
  | name (enumeration : Enumeration) (value : ℕ)
  /-- `bytesToHumanReadable(buf2, sizeof(buf2), bytes)`. -/
  | byteCount (bytes : ℕ)
  deriving DecidableEq

/-- What a printer does. -/
inductive Event where
  | field (place : Field)
  | character (address : ℕ)
  | ksnprintf (format : String) (args : List PrintArg)
  /-- `bytesToHumanReadable(buf + n, size - n, bytes)`. -/
  | bytesToHumanReadable (bytes : ℕ)
  deriving DecidableEq

/-- Why a printer has not returned. -/
inductive Halt where
  /-- A loop over a string has more iterations than the model was given fuel for. -/
  | outOfFuel
  /-- `kpanic("unknown units")`. -/
  | unknownUnits
  deriving DecidableEq

/-- A printer with what it does. -/
abbrev Printing := Traced Event Halt

section

variable (memory : Memory) (fuel this : ℕ)

/-- The value of a member. -/
def valueOf (place : Field) : ℕ := loadWord memory (this + place.offset) place.size

/-- `this->member`. -/
def member (place : Field) : Printing ℕ := do
  Traced.record (.field place)
  pure (valueOf memory this place)

/-- The loop `while (*strtab != '\0') strtab++` with the characters that it reads. -/
def readString : ℕ → ℕ → Printing ℕ
  | 0, _ => Traced.halt .outOfFuel
  | fuel + 1, strtab => do
      Traced.record (.character strtab)
      if memory strtab ≠ 0 then readString fuel (strtab + 1) else pure strtab

/-- The `for` loop of `getString`, with the number of strings that it skips. -/
def readStrings : ℕ → ℕ → Printing ℕ
  | 0, strtab => pure strtab
  | count + 1, strtab => do
      let nul ← readString memory fuel strtab
      readStrings count (nul + 1)

/-- The length of the structure in front of its strings. -/
def TableHeader.length : Field := ⟨1, 1⟩

/-- The number by which other structures refer to the structure. -/
def TableHeader.handle : Field := ⟨2, 2⟩

/-- `getString(this, this->member)`. -/
def stringOf (index : Field) : Printing (Option ℕ) := do
  let index ← member memory this index
  if index = 0 then pure none
  else do
    let length ← member memory this TableHeader.length
    let strtab ← readStrings memory fuel (index - 1) (this + length)
    pure (some strtab)

/-- `%s` reads a string up to its NUL. The other conversions read nothing of the table. -/
def readArg : PrintArg → Printing Unit
  | .string (some pointer) => do
      let _ ← readString memory fuel pointer
  | _ => pure ()

/-- `n += ksnprintf(buf + n, size - n, format, ...)`. -/
def ksnprintf (format : String) (args : List PrintArg) : Printing Unit := do
  Traced.record (.ksnprintf format args)
  Traced.forEach (readArg memory fuel) args

/-- `if (offsetof(next) <= this->length) { ... }`. -/
def ifReaches (next : Field) (body : Printing Unit) : Printing Unit := do
  let length ← member memory this TableHeader.length
  if next.offset ≤ length then body else pure ()

/-- An append of one field, if the field behind it starts within the length. -/
def printIfReaches (next value : Field) (format : String) (arg : ℕ → PrintArg) : Printing Unit :=
  ifReaches memory this next do
    let number ← member memory this value
    ksnprintf memory fuel format [arg number]

namespace FirmwareInfo

/-- The number of the string for the vendor. -/
def vendor : Field := ⟨4, 1⟩

/-- The number of the string for the version. -/
def version : Field := ⟨5, 1⟩

/-- The number of the string for the release date. -/
def releaseDate : Field := ⟨8, 1⟩

/-- The size of the ROM, of which the printer takes each unit for 64 bytes. -/
def romSize : Field := ⟨9, 1⟩

/-- The bits of `FirmwareCharacteristics`. -/
def characteristics : Field := ⟨10, 8⟩

/-- The major release of the firmware. -/
def systemBiosMajorRelease : Field := ⟨20, 1⟩

/-- The minor release of the firmware. -/
def systemBiosMinorRelease : Field := ⟨21, 1⟩

/-- The major release of the embedded controller. -/
def ecFirmwareMajorRelease : Field := ⟨22, 1⟩

/-- The minor release of the embedded controller. -/
def ecFirmwareMinorRelease : Field := ⟨23, 1⟩

/-- The size of a ROM that `romSize` cannot hold, with its unit. -/
def extendedFirmwareRomSize : Field := ⟨24, 2⟩

/-- `sizeof(FirmwareInfo)`. -/
def sizeOf : ℕ := 26

/-- The loop body for one bit of the characteristics. -/
def printCharacteristic (i : ℕ) : Printing Unit := do
  let flags ← member memory this characteristics
  if flags.testBit i then ksnprintf memory fuel " %s" [.name .firmwareCharacteristics (2 ^ i)]
  else pure ()

/-- What is printed of a structure that has all members. -/
def printExtendedRomSize : Printing Unit := do
  let units ← member memory this extendedFirmwareRomSize
  let value ← member memory this extendedFirmwareRomSize
  -- `& ~0x3` clears the two lowest bits, not the two that are the unit
  let bytes := value - value % 4
  if units / 2 ^ 14 = 0 then
    ksnprintf memory fuel " extended Rom: %s" [.byteCount (bytes * (1024 * 1024))]
  else if units / 2 ^ 14 = 1 then
    ksnprintf memory fuel " extended Rom: %s" [.byteCount (bytes * (1024 * 1024 * 1024))]
  else Traced.halt .unknownUnits

/-- `FirmwareInfo::toString`. -/
def toString : Printing Unit := do
  let vendorString ← stringOf memory fuel this vendor
  let versionString ← stringOf memory fuel this version
  let releaseString ← stringOf memory fuel this releaseDate
  let rom ← member memory this romSize
  ksnprintf memory fuel "Firmware vendor: %s version: %s release: %s rom size: %s"
    [.string vendorString, .string versionString, .string releaseString, .byteCount (rom * 64)]
  Traced.forEach (printCharacteristic memory fuel this) (List.range 64)
  printIfReaches memory fuel this systemBiosMinorRelease systemBiosMajorRelease
    " system bios: %d" .number
  printIfReaches memory fuel this ecFirmwareMinorRelease systemBiosMinorRelease ".%d" .number
  printIfReaches memory fuel this ecFirmwareMinorRelease ecFirmwareMajorRelease
    " firmware: %d" .number
  printIfReaches memory fuel this extendedFirmwareRomSize ecFirmwareMinorRelease ".%d" .number
  let length ← member memory this TableHeader.length
  if length = sizeOf then printExtendedRomSize memory fuel this else pure ()

end FirmwareInfo

namespace SystemInfo

/-- The number of the string for the vendor. -/
def vendor : Field := ⟨4, 1⟩

/-- The number of the string for the product. -/
def product : Field := ⟨5, 1⟩

/-- The number of the string for the version. -/
def version : Field := ⟨6, 1⟩

/-- The number of the string for the serial number. -/
def serial : Field := ⟨7, 1⟩

/-- The number of the string for the SKU. -/
def sku : Field := ⟨25, 1⟩

/-- The number of the string for the family. -/
def family : Field := ⟨26, 1⟩

/-- `SystemInfo::toString`. -/
def toString : Printing Unit := do
  let vendorString ← stringOf memory fuel this vendor
  let productString ← stringOf memory fuel this product
  let versionString ← stringOf memory fuel this version
  let serialString ← stringOf memory fuel this serial
  let skuString ← stringOf memory fuel this sku
  let familyString ← stringOf memory fuel this family
  ksnprintf memory fuel
    "System vendor: %s product: %s version: %s serial: %s sku: %s family: %s"
    [.string vendorString, .string productString, .string versionString, .string serialString,
      .string skuString, .string familyString]

end SystemInfo

namespace ChassisInfo

/-- The number of the string for the manufacturer. -/
def manufacturer : Field := ⟨4, 1⟩

/-- The number of the string for the version. -/
def version : Field := ⟨6, 1⟩

/-- The number of the string for the serial number. -/
def serial : Field := ⟨7, 1⟩

/-- The number of the string for the asset tag. -/
def assetTag : Field := ⟨8, 1⟩

/-- The `ChassisState` at the last boot. -/
def bootUpState : Field := ⟨9, 1⟩

/-- The `ChassisState` of the power supply. -/
def powerSupplyState : Field := ⟨10, 1⟩

/-- The `ChassisState` for temperatures. -/
def thermalState : Field := ⟨11, 1⟩

/-- The `ChassisSecurityStatus`. -/
def securityStatus : Field := ⟨12, 1⟩

/-- Four bytes of the manufacturer. -/
def oemDefined : Field := ⟨13, 4⟩

/-- The height in rack units. -/
def height : Field := ⟨17, 1⟩

/-- How many power cords there are. -/
def numberOfPowerCords : Field := ⟨18, 1⟩

/-- How many contained elements are described. -/
def containedElementCount : Field := ⟨19, 1⟩

/-- The length of the description of each contained element. -/
def containedElementRecordLength : Field := ⟨20, 1⟩

/-- `ChassisInfo::toString`. -/
def toString : Printing Unit := do
  let manufacturerString ← stringOf memory fuel this manufacturer
  let versionString ← stringOf memory fuel this version
  let serialString ← stringOf memory fuel this serial
  let assetString ← stringOf memory fuel this assetTag
  ksnprintf memory fuel "Chassis manufacturer: %s version: %s serial: %s asset: %s"
    [.string manufacturerString, .string versionString, .string serialString,
      .string assetString]
  printIfReaches memory fuel this powerSupplyState bootUpState " bootup State: %s"
    (.name .chassisState)
  printIfReaches memory fuel this thermalState powerSupplyState " power Supply State: %s"
    (.name .chassisState)
  printIfReaches memory fuel this securityStatus thermalState " thermalState: %s"
    (.name .chassisState)
  printIfReaches memory fuel this oemDefined securityStatus " securityStatus: %s"
    (.name .chassisSecurityStatus)
  printIfReaches memory fuel this height oemDefined " oemDefined: %d" .number
  printIfReaches memory fuel this numberOfPowerCords height " height: %d" .number
  printIfReaches memory fuel this containedElementCount numberOfPowerCords " powerCords: %d"
    .number
  printIfReaches memory fuel this containedElementRecordLength containedElementCount
    " containedElements: %d" .number

end ChassisInfo

namespace ProcessorInfo

/-- The number of the string for the socket. -/
def socketDesignation : Field := ⟨4, 1⟩

/-- The `ProcessorType`. -/
def processorType : Field := ⟨5, 1⟩

/-- The `ProcessorFamily`. -/
def processorFamily : Field := ⟨6, 1⟩

/-- The number of the string for the manufacturer. -/
def processorManufacturer : Field := ⟨7, 1⟩

/-- The identification of the processor, in eight bytes. -/
def processorId : Field := ⟨8, 8⟩

/-- The number of the string for the version. -/
def processorVersion : Field := ⟨16, 1⟩

/-- The external clock in MHz. -/
def externalClock : Field := ⟨18, 2⟩

/-- The largest speed in MHz. -/
def maxSpeed : Field := ⟨20, 2⟩

/-- The speed at boot in MHz. -/
def currentSpeed : Field := ⟨22, 2⟩

/-- The `ProcessorStatus`, and whether the socket is populated. -/
def status : Field := ⟨24, 1⟩

/-- The kind of socket, by its number. -/
def processorUpgrade : Field := ⟨25, 1⟩

/-- The number of the string for the serial number. -/
def serialNumber : Field := ⟨32, 1⟩

/-- The number of the string for the asset tag. -/
def assetTag : Field := ⟨33, 1⟩

/-- The number of the string for the part number. -/
def partNumber : Field := ⟨34, 1⟩

/-- How many cores there are. -/
def coreCount : Field := ⟨35, 1⟩

/-- How many cores are enabled. -/
def coreEnabled : Field := ⟨36, 1⟩

/-- How many threads there are. -/
def threadCount : Field := ⟨37, 1⟩

/-- The bits of the characteristics. -/
def processorCharacteristics : Field := ⟨38, 2⟩

/-- The number of the string for a kind of socket that has no number. -/
def socketType : Field := ⟨50, 1⟩

/-- `getDesignation()`. -/
def getDesignation : Printing (Option ℕ) := stringOf memory fuel this socketDesignation

/-- `getType()`. -/
def getType : Printing ℕ := member memory this processorType

/-- `getFamily()`. -/
def getFamily : Printing ℕ := member memory this processorFamily

/-- `getManufacturer()`. -/
def getManufacturer : Printing (Option ℕ) := stringOf memory fuel this processorManufacturer

/-- `getId()`. -/
def getId : Printing ℕ := member memory this processorId

/-- `getVersion()`. -/
def getVersion : Printing (Option ℕ) := stringOf memory fuel this processorVersion

/-- `getExternalClock()`. -/
def getExternalClock : Printing ℕ := member memory this externalClock

/-- `getMaxSpeed()`. -/
def getMaxSpeed : Printing ℕ := member memory this maxSpeed

/-- `getCurrentSpeed()`. -/
def getCurrentSpeed : Printing ℕ := member memory this currentSpeed

/-- `isPopulated()`. -/
def isPopulated : Printing Bool := do
  let flags ← member memory this status
  pure (flags.testBit 6)

/-- `getStatus()`. -/
def getStatus : Printing ℕ := do
  let flags ← member memory this status
  pure (flags % 8)

/-- The texts for `ProcessorStatus`, which has two gaps. -/
def cpuStatusList : List (Option String) :=
  [some "Unknown", some "CPU Enabled", some "CPU Disabled by User",
    some "CPU Disabled By BIOS (POST Error)", some "CPU Is Idle", none, none, some "Other"]

/-- `getStatusString()`. -/
def getStatusString : Printing PrintArg := do
  let value ← getStatus memory this
  match cpuStatusList[value]? with
  | some entry => pure (.literal entry)
  | none => pure (.name .processorStatus value)

/-- A string, if the field behind its index starts within the length. -/
def stringIfReaches (next index : Field) : Printing (Option ℕ) := do
  let length ← member memory this TableHeader.length
  if next.offset ≤ length then stringOf memory fuel this index else pure none

/-- `getSerialNumber()`. -/
def getSerialNumber : Printing (Option ℕ) :=
  stringIfReaches memory fuel this assetTag serialNumber

/-- `getAssetTag()`. -/
def getAssetTag : Printing (Option ℕ) := stringIfReaches memory fuel this partNumber assetTag

/-- `getPartNumber()`. -/
def getPartNumber : Printing (Option ℕ) := stringIfReaches memory fuel this coreCount partNumber

/-- A count, if the field behind it starts within the length. -/
def countIfReaches (next count : Field) : Printing ℕ := do
  let length ← member memory this TableHeader.length
  if next.offset ≤ length then member memory this count else pure 0

/-- `getCores()`. -/
def getCores : Printing ℕ := countIfReaches memory this coreEnabled coreCount

/-- `getCoresEnabled()`. -/
def getCoresEnabled : Printing ℕ := countIfReaches memory this threadCount coreEnabled

/-- `getThreads()`. -/
def getThreads : Printing ℕ := countIfReaches memory this processorCharacteristics threadCount

/-- `processorSocketsList` from index 1 on. The entry of index 0 is null. -/
def processorSocketsList : List String :=
  ["Other", "Unknown", "Daughter Board", "ZIF Socket", "Replacement/Piggy Back", "None",
    "LIF Socket", "Slot 1", "Slot 2", "370 Pin Socket", "Slot A", "Slot M", "Socket 423",
    "Socket A (Socket 462)", "Socket 478", "Socket 754", "Socket 940", "Socket 939",
    "Socket mPGA604", "Socket LGA771", "Socket LGA775", "Socket S1", "Socket AM2",
    "Socket F (1207)", "Socket LGA1366", "Socket G34", "Socket AM3", "Socket C32",
    "Socket LGA1156", "Socket LGA1567", "Socket PGA988A", "Socket BGA1288", "rPGA988B",
    "BGA1023", "BGA1224", "LGA1155", "LGA1356", "LGA2011", "Socket FS1", "Socket FS2",
    "Socket FM1", "Socket FM2", "Socket LGA2011-3", "Socket LGA1356-3", "Socket LGA1150",
    "Socket BGA1168", "Socket BGA1234", "Socket BGA1364", "Socket AM4", "Socket LGA1151",
    "Socket BGA1356", "Socket BGA1440", "Socket BGA1515", "Socket LGA3647-1", "Socket SP3",
    "Socket SP3r2", "Socket LGA2066", "Socket BGA1392", "Socket BGA1510", "Socket BGA1528",
    "Socket LGA4189", "Socket LGA1200", "Socket LGA4677", "Socket LGA1700", "Socket BGA1744",
    "Socket BGA1781", "Socket BGA1211", "Socket BGA2422", "Socket LGA1211", "Socket LGA2422",
    "Socket LGA5773", "Socket BGA5773", "Socket AM5", "Socket SP5", "Socket SP6",
    "Socket BGA883", "Socket BGA1190", "Socket LGA4129", "Socket LGA4710", "Socket LGA7529"]

/-- The non-null entry of an index. -/
def socketName : ℕ → Option String
  | 0 => none
  | upgrade + 1 => processorSocketsList[upgrade]?

/-- `getSocket()`. -/
def getSocket : Printing PrintArg := do
  let upgrade ← member memory this processorUpgrade
  match socketName upgrade with
  | some socket => pure (.literal (some socket))
  | none =>
      if upgrade = 0xFF then do
        let socket ← stringOf memory fuel this socketType
        pure (.string socket)
      else pure (.literal (some "unknown"))

/-- `if (const auto pointer = get()) { ... }`. -/
def printString (get : Printing (Option ℕ)) (format : String) : Printing Unit := do
  let pointer ← get
  if pointer.isSome then ksnprintf memory fuel format [.string pointer] else pure ()

/-- A count is printed unless it is zero. -/
def printCount (get : Printing ℕ) (format : String) : Printing Unit := do
  let count ← get
  if count ≠ 0 then ksnprintf memory fuel format [.number count] else pure ()

/-- `ProcessorInfo::toString`. -/
def toString : Printing Unit := do
  let designation ← getDesignation memory fuel this
  ksnprintf memory fuel "%s" [.string designation]
  let type ← getType memory this
  ksnprintf memory fuel " type: %s" [.name .processorType type]
  let family ← getFamily memory this
  ksnprintf memory fuel " family: %s" [.name .processorFamily family]
  printString memory fuel (getManufacturer memory fuel this) " manufacturer: %s"
  let id ← getId memory this
  ksnprintf memory fuel " id: %lu" [.number id]
  printString memory fuel (getVersion memory fuel this) " version: %s"
  printCount memory fuel (getExternalClock memory this) " externalClock: %dMHz"
  printCount memory fuel (getMaxSpeed memory this) " maxSpeed: %dMHz"
  printCount memory fuel (getCurrentSpeed memory this) " currentSpeed: %dMHz"
  let populated ← isPopulated memory this
  ksnprintf memory fuel " status: %s"
    [.literal (some (if populated then "populated" else "unpopulated"))]
  let statusString ← getStatusString memory this
  ksnprintf memory fuel " status: %s" [statusString]
  let socket ← getSocket memory fuel this
  ksnprintf memory fuel " socket: %s" [socket]
  printString memory fuel (getSerialNumber memory fuel this) " serial: %s"
  printString memory fuel (getAssetTag memory fuel this) " asset: %s"
  printString memory fuel (getPartNumber memory fuel this) " part: %s"
  printCount memory fuel (getCores memory this) " cores: %d"
  printCount memory fuel (getCoresEnabled memory this) " enabled: %d"
  printCount memory fuel (getThreads memory this) " threads: %d"

end ProcessorInfo

/-- A size in bytes behind its title, unless it is zero. -/
def printSize (size : ℕ) (title : String) : Printing Unit :=
  if 0 < size then do
    ksnprintf memory fuel title []
    Traced.record (.bytesToHumanReadable size)
  else pure ()

namespace PhysicalMemoryArray

/-- The `PhysicalMemoryArrayLocation`. -/
def location : Field := ⟨4, 1⟩

/-- The `PhysicalMemoryArrayUse`. -/
def use : Field := ⟨5, 1⟩

/-- The `MemoryErrorCorrection`. -/
def memoryErrorCorrection : Field := ⟨6, 1⟩

/-- The capacity in KiB, or a mark that it is somewhere else. -/
def maximumCapacity : Field := ⟨7, 4⟩

/-- How many devices there is place for. -/
def numberOfDevices : Field := ⟨13, 2⟩

/-- A capacity in bytes that `maximumCapacity` cannot hold. -/
def extendedMaximumCapacity : Field := ⟨15, 8⟩

/-- `sizeof(PhysicalMemoryArray)`. -/
def sizeOf : ℕ := 23

/-- `getMaximumCapacity()`. -/
def getMaximumCapacity : Printing ℕ := do
  let capacity ← member memory this maximumCapacity
  if capacity = 0x8000000 then do
    let length ← member memory this TableHeader.length
    if length = sizeOf then member memory this extendedMaximumCapacity else pure 0
  else pure (capacity * 1024)

/-- The number of devices is printed unless it is zero. -/
def printDevices : Printing Unit := do
  let devices ← member memory this numberOfDevices
  if devices ≠ 0 then ksnprintf memory fuel " devices: %d" [.number devices] else pure ()

/-- `PhysicalMemoryArray::toString`. -/
def toString : Printing Unit := do
  let handle ← member memory this TableHeader.handle
  let locationValue ← member memory this location
  let useValue ← member memory this use
  let correction ← member memory this memoryErrorCorrection
  ksnprintf memory fuel "Physical Memory Array handle: %x location: %s use: %s error: %s"
    [.number handle, .name .physicalMemoryArrayLocation locationValue,
      .name .physicalMemoryArrayUse useValue, .name .memoryErrorCorrection correction]
  printDevices memory fuel this
  let cap ← getMaximumCapacity memory this
  printSize memory fuel cap " max capacity: "

end PhysicalMemoryArray

namespace MemoryDevice

/-- The handle of the array that the device is in. -/
def physicalMemoryArrayHandle : Field := ⟨4, 2⟩

/-- The size with its unit, or a mark that it is not known or somewhere else. -/
def size : Field := ⟨12, 2⟩

/-- A size in MiB that `size` cannot hold. -/
def extendedSize : Field := ⟨28, 4⟩

/-- The speed in MT/s, the member behind `extendedSize`. -/
def configuredMemorySpeed : Field := ⟨32, 2⟩

/-- `getSize()`. -/
def getSize : Printing ℕ := do
  let value ← member memory this size
  if value = 0x7fff then do
    let length ← member memory this TableHeader.length
    if configuredMemorySpeed.offset ≤ length then do
      let extended ← member memory this extendedSize
      pure (extended % 2 ^ 31 * 1024 * 1024)
    else pure 0
  else if value.testBit 15 then pure (value % 2 ^ 15 * 1024)
  else pure (value * 1024 * 1024)

/-- `MemoryDevice::toString`. -/
def toString : Printing Unit := do
  let handle ← member memory this TableHeader.handle
  let arrayHandle ← member memory this physicalMemoryArrayHandle
  ksnprintf memory fuel "Memory Device %x array %x" [.number handle, .number arrayHandle]
  let memSize ← getSize memory this
  printSize memory fuel memSize " size: "

end MemoryDevice

/-- The `toString` that `dumpTable` calls in a case of its `switch`. -/
def toStringOf : Printer → Printing Unit
  | .firmwareInfo => FirmwareInfo.toString memory fuel this
  | .systemInfo => SystemInfo.toString memory fuel this
  | .chassisInfo => ChassisInfo.toString memory fuel this
  | .processorInfo => ProcessorInfo.toString memory fuel this
  | .physicalMemoryArray => PhysicalMemoryArray.toString memory fuel this
  | .memoryDevice => MemoryDevice.toString memory fuel this
  | .endOfTable | .unhandled => pure ()

end

end Dvnetos.Smbios
