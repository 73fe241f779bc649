import Dvnetos.Smbios.Records
import Dvnetos.Utils.Panicf
import Dvnetos.Utils.StdioAppends

/-!
# The names of enumeration values

The functions `smbios::toString` of `smbios/smbios_tostring.cpp`, which `tools/enumToString.py`
has generated from the enumerations in `smbios/smbios.h`. Each is a `switch` over the values of
its enumeration, and prints a value without a name into a buffer of its own.
-/

namespace Dvnetos.Smbios

open Stdio (CString chr)

/-- The characters of a string literal up to its NUL. -/
def literal (text : String) : CString where
  chars := (text.toList.map chr).takeWhile (· ≠ 0)
  noNul := fun nul => by simpa using List.mem_takeWhile_imp nul

/-- The cases of the `switch` for an enumeration. -/
def Enumeration.cases : Enumeration → List (ℕ × String)
  | .firmwareCharacteristics =>
      [(2 ^ 2, "Unknown"), (2 ^ 3, "BIOSCharacteristicsNotSupported"), (2 ^ 4, "ISA"),
      (2 ^ 5, "MCA"), (2 ^ 6, "EISA"), (2 ^ 7, "PCI"), (2 ^ 8, "PCMCIA"), (2 ^ 9, "PlugAndPlay"),
      (2 ^ 10, "APM"), (2 ^ 11, "BIOSIsUpgradable"), (2 ^ 12, "BIOSShadowingIsAllowed"),
      (2 ^ 13, "VLVISupported"), (2 ^ 14, "ESCD"), (2 ^ 15, "BootFromCD"),
      (2 ^ 16, "SelectableBoot"), (2 ^ 17, "BIOSROMIsSocketed"), (2 ^ 18, "BootFromPCMCIA"),
      (2 ^ 19, "EDDSpecification"), (2 ^ 20, "JapaneseNecFloppy"),
      (2 ^ 21, "JapaneseToshibaFloppy"), (2 ^ 22, "Floppy5251_2"), (2 ^ 23, "Floppy35_2"),
      (2 ^ 24, "ATAPIZIPDriveBoot"), (2 ^ 25, "Boot1394"), (2 ^ 26, "SmartBattery"),
      (2 ^ 27, "BIOSBootSpecification"), (2 ^ 28, "FunctionKeyInitiatedNetworkBoot"),
      (2 ^ 29, "TargetedContentDistribution"), (2 ^ 30, "UEFISpecification"),
      (2 ^ 31, "SMBIOSSpecification")]
  | .chassisState =>
      [(1, "Other"), (2, "Unknown"), (3, "Safe"), (4, "Warning"), (5, "Critical"),
      (6, "NonRecoverable")]
  | .chassisSecurityStatus =>
      [(1, "Other"), (2, "Unknown"), (3, "None"), (4, "ExternalInterfaceLockedOut"),
      (5, "ExternalInterfaceEnabled")]
  | .processorType =>
      [(1, "Other"), (2, "Unknown"), (3, "CentralProcessor"), (4, "MathProcessor"),
      (5, "DSPProcessor"), (6, "VideoProcessor")]
  | .processorFamily =>
      [(0xfe, "SeeProcessorFamily2")]
  | .processorStatus =>
      [(0, "Unknown"), (1, "CPUEnabled"), (2, "CPUDisabledByUser"), (3, "CPUDisabledByBIOS"),
      (4, "CPUIdle"), (7, "Other")]
  | .physicalMemoryArrayLocation =>
      [(1, "Other"), (2, "Unknown"), (3, "SystemBoardOrMotherboard"), (4, "ISAAddOnCard"),
      (5, "EISAAddOnCard"), (6, "PCIAddOnCard"), (7, "MCAAddOnCard"), (8, "PCMCIAAddOnCard"),
      (9, "ProprietaryAddOnCard"), (10, "NuBus"), (160, "PC98C20"), (161, "PC98C24"),
      (162, "PC98E"), (163, "PC98LocalBus")]
  | .physicalMemoryArrayUse =>
      [(1, "Other"), (2, "Unknown"), (3, "SystemMemory"), (4, "VideoMemory"), (5, "FlashMemory"),
      (6, "NonVolatileRAM"), (7, "CacheMemory")]
  | .memoryErrorCorrection =>
      [(1, "Other"), (2, "Unknown"), (3, "None"), (4, "Parity"), (5, "Single-bit error correction"),
      (6, "Multi-bit error correction"), (7, "CRC")]

/-- `ksnprintf(buffer, sizeof(buffer), "Unknown(%d)", static_cast<int>(value))`. -/
def unknownName (buffer : ℤ → UInt8) (value : ℕ) : CString where
  chars := Stdio.stringIn (Stdio.ksnprintf true ⟨32, by decide⟩ (literal "Unknown(%d)")
    [.int (BitVec.ofNat 32 value)] buffer).buffer.cells 32
  noNul := Stdio.stringIn_noNul _ _

/-- `smbios::toString(value)`, with what is in its `buffer` before. -/
def Enumeration.toString (buffer : ℤ → UInt8) (enumeration : Enumeration) (value : ℕ) : CString :=
  match enumeration.cases.lookup value with
  | some name => literal name
  | none => unknownName buffer value

/-- The text for a value without a name. -/
def unknownText (value : ℕ) : List UInt8 :=
  (literal "Unknown(").chars ++ Stdio.decimalText .int (BitVec.ofNat 32 value).toInt ++ [chr ')']

theorem length_unknownText_le (value : ℕ) : (unknownText value).length ≤ 30 := by
  have number := @Stdio.length_decimalText_le .int _
    ⟨(BitVec.ofNat 32 value).le_toInt, Int.le_sub_one_of_lt (BitVec.ofNat 32 value).toInt_lt⟩
  have front : (literal "Unknown(").chars.length = 8 := by decide
  simp only [unknownText, List.length_append, front, List.length_singleton]
  omega

theorem unknownText_noNul (value : ℕ) : (0 : UInt8) ∉ unknownText value := by
  simp only [unknownText, List.mem_append, not_or]
  exact ⟨⟨(literal "Unknown(").noNul, Panic.decimalText_noNul _ _⟩, by decide⟩

theorem unknownName_chars (buffer : ℤ → UInt8) (value : ℕ) :
    (unknownName buffer value).chars = unknownText value := by
  have matching : Stdio.Matches (literal "Unknown(%d)").chars [.int (BitVec.ofNat 32 value)] :=
    @Stdio.Matches.literals (literal "Unknown(").chars (literal "%d)").chars _ (by decide)
      (.decimal _ (.literal (by decide) .done))
  have text : Stdio.rendering true (literal "Unknown(%d)") [.int (BitVec.ofNat 32 value)] =
      unknownText value := by
    have printed : Stdio.rendering true (literal "Unknown(%d)") [.int (BitVec.ofNat 32 value)] =
        (literal "Unknown(").chars ++ (Stdio.decimalText .int (BitVec.ofNat 32 value).toInt ++
          ([chr ')'] ++ [])) := rfl
    simp [printed, unknownText]
  have short := length_unknownText_le value
  obtain ⟨-, cells, terminator⟩ := Stdio.ksnprintf_holds true (n := ⟨32, by decide⟩) buffer matching
    (by decide) (by rw [text]; omega)
  simp only [text] at cells terminator
  rw [min_eq_left (by omega)] at terminator
  exact Stdio.stringIn_eq (unknownText_noNul value) (by omega)
    (fun k bound => cells k bound (by omega)) terminator

/-- The name of a value, or the text for one without a name. -/
def Enumeration.text (enumeration : Enumeration) (value : ℕ) : List UInt8 :=
  match enumeration.cases.lookup value with
  | some name => (literal name).chars
  | none => unknownText value

theorem Enumeration.text_noNul (enumeration : Enumeration) (value : ℕ) :
    (0 : UInt8) ∉ enumeration.text value := by
  simp only [Enumeration.text]
  split
  · exact (literal _).noNul
  · exact unknownText_noNul value

theorem Enumeration.toString_chars (buffer : ℤ → UInt8) (enumeration : Enumeration) (value : ℕ) :
    (enumeration.toString buffer value).chars = enumeration.text value := by
  simp only [Enumeration.toString, Enumeration.text]
  split
  · rfl
  · exact unknownName_chars buffer value

theorem Enumeration.length_text_le (enumeration : Enumeration) (value : ℕ) :
    (enumeration.text value).length ≤ 31 := by
  have short : ∀ entry ∈ enumeration.cases, (literal entry.2).chars.length ≤ 31 := by
    cases enumeration <;> decide
  simp only [Enumeration.text]
  split
  · next name found =>
      rcases List.lookup_eq_some_iff.mp found with ⟨front, back, split, -⟩
      exact short (value, name) (split ▸ List.mem_append_right _ List.mem_cons_self)
  · exact (length_unknownText_le value).trans (by decide)

end Dvnetos.Smbios
