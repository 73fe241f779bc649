import Dvnetos.Smbios.Descriptions

/-!
# The texts of the records

Every format in `smbios/smbios.cpp` matches the arguments that its printer passes, whatever is
in the table. In the printers that use `ksnprintf` alone no size is printed behind a title.
-/

namespace Dvnetos.Smbios

open Bytes (parts textOf)
open Stdio (Matches chr)

section Rules

variable {P : Event → Prop} {memory : Memory} {fuel this : ℕ}

theorem all_bind {α β : Type} {x : Printing α} {f : α → Printing β} (first : x.All P)
    (next : ∀ value, x.result = .ok value → (f value).All P) : (x >>= f).All P :=
  (Traced.all_bind_iff x f).mpr ⟨first, next⟩

theorem exists_of_bind {α β : Type} {x : Printing α} {f : α → Printing β} {final : β}
    (returned : (x >>= f).result = .ok final) :
    ∃ value, x.result = .ok value ∧ (f value).result = .ok final := by
  cases result : x.result with
  | error stop =>
      rw [Traced.result_bind_error result] at returned
      cases returned
  | ok value =>
      rw [Traced.result_bind result] at returned
      exact ⟨value, rfl, returned⟩

theorem all_forEach {α : Type} {body : α → Printing Unit} {values : List α}
    (each : ∀ value ∈ values, (body value).All P) : (Traced.forEach body values).All P := by
  induction values with
  | nil => exact Traced.all_pure _
  | cons value values ih =>
      rw [List.forall_mem_cons] at each
      exact all_bind each.1 fun _ _ => ih each.2

/-- A property of everything that is read. -/
structure OfReads (P : Event → Prop) : Prop where
  field : ∀ place, P (.field place)
  character : ∀ address, P (.character address)

theorem member_all (reads : OfReads P) (place : Field) : (member memory this place).All P :=
  all_bind ((Traced.all_record_iff _).mpr (reads.field place)) fun _ _ => Traced.all_pure _

theorem readString_all (reads : OfReads P) (address : ℕ) :
    (readString memory fuel address).All P := by
  induction fuel generalizing address with
  | zero => exact Traced.all_halt _
  | succ fuel ih =>
      refine all_bind ((Traced.all_record_iff _).mpr (reads.character address)) fun _ _ => ?_
      split
      · exact ih _
      · exact Traced.all_pure _

theorem readStrings_all (reads : OfReads P) (count address : ℕ) :
    (readStrings memory fuel count address).All P := by
  induction count generalizing address with
  | zero => exact Traced.all_pure _
  | succ count ih => exact all_bind (readString_all reads address) fun _ _ => ih _

theorem stringOf_all (reads : OfReads P) (index : Field) :
    (stringOf memory fuel this index).All P := by
  refine all_bind (member_all reads index) fun value _ => ?_
  split
  · exact Traced.all_pure _
  · refine all_bind (member_all reads _) fun _ _ => ?_
    exact all_bind (readStrings_all reads _ _) fun _ _ => Traced.all_pure _

theorem readArg_all (reads : OfReads P) (arg : PrintArg) : (readArg memory fuel arg).All P := by
  cases arg with
  | string pointer =>
      cases pointer with
      | none => exact Traced.all_pure _
      | some pointer => exact all_bind (readString_all reads _) fun _ _ => Traced.all_pure _
  | _ => exact Traced.all_pure _

theorem ksnprintf_all (reads : OfReads P) {format : String} {args : List PrintArg}
    (call : P (.ksnprintf format args)) : (ksnprintf memory fuel format args).All P :=
  all_bind ((Traced.all_record_iff _).mpr call) fun _ _ => all_forEach fun arg _ =>
    readArg_all reads arg

theorem ifReaches_all (reads : OfReads P) (next : Field) {body : Printing Unit}
    (all : body.All P) : (ifReaches memory this next body).All P := by
  refine all_bind (member_all reads _) fun _ _ => ?_
  split
  · exact all
  · exact Traced.all_pure _

theorem printIfReaches_all (reads : OfReads P) {next value : Field} {format : String}
    {arg : ℕ → PrintArg} (call : ∀ number, P (.ksnprintf format [arg number])) :
    (printIfReaches memory fuel this next value format arg).All P :=
  ifReaches_all reads next
    (all_bind (member_all reads _) fun _ _ => ksnprintf_all reads (call _))

namespace ProcessorInfo

theorem stringIfReaches_all (reads : OfReads P) (next index : Field) :
    (stringIfReaches memory fuel this next index).All P := by
  refine all_bind (member_all reads _) fun _ _ => ?_
  split
  · exact stringOf_all reads index
  · exact Traced.all_pure _

theorem countIfReaches_all (reads : OfReads P) (next count : Field) :
    (countIfReaches memory this next count).All P := by
  refine all_bind (member_all reads _) fun _ _ => ?_
  split
  · exact member_all reads count
  · exact Traced.all_pure _

theorem printString_all (reads : OfReads P) {get : Printing (Option ℕ)} {format : String}
    (read : get.All P) (call : ∀ pointer, P (.ksnprintf format [.string pointer])) :
    (printString memory fuel get format).All P := by
  refine all_bind read fun _ _ => ?_
  split
  · exact ksnprintf_all reads (call _)
  · exact Traced.all_pure _

theorem printCount_all (reads : OfReads P) {get : Printing ℕ} {format : String}
    (read : get.All P) (call : ∀ count, P (.ksnprintf format [.number count])) :
    (printCount memory fuel get format).All P := by
  refine all_bind read fun _ _ => ?_
  split
  · exact ksnprintf_all reads (call _)
  · exact Traced.all_pure _

end ProcessorInfo

end Rules

section Formats

variable {memory : Memory} {fuel this : ℕ}

/-- What an event may be that is printed with `ksnprintf` alone. -/
def Appended (memory : Memory) (fuel : ℕ) (event : Event) : Prop :=
  Formatted memory fuel event ∧ ∀ bytes, event ≠ .bytesToHumanReadable bytes

theorem appended_reads (memory : Memory) (fuel : ℕ) : OfReads (Appended memory fuel) where
  field _ := ⟨trivial, fun _ => Event.noConfusion⟩
  character _ := ⟨trivial, fun _ => Event.noConfusion⟩

theorem appended_of_matches {format : String} {args : List PrintArg}
    (matching : Matches (literal format).chars (args.map (argValue memory fuel format)))
    (short : ∀ arg ∈ args, ArgShort arg) : Appended memory fuel (.ksnprintf format args) :=
  ⟨⟨matching, short⟩, fun _ => Event.noConfusion⟩

/-- Some text in front of one string. -/
theorem appended_string (front : String) {format : String} {arg : PrintArg}
    {text : Option Stdio.CString}
    (split : (literal format).chars = (literal front).chars ++ (literal "%s").chars)
    (plain : chr '%' ∉ (literal front).chars) (short : ArgShort arg)
    (value : argValue memory fuel format arg = .string text) :
    Appended memory fuel (.ksnprintf format [arg]) := by
  refine appended_of_matches ?_ (List.forall_mem_singleton.mpr short)
  rw [split, List.map_singleton, value]
  exact .literals plain (.string text .done)

/-- Some text in front of one number, and some behind it. -/
theorem appended_number (front back : String) {format : String} {value : ℕ}
    (split : (literal format).chars =
      (literal front).chars ++ ((literal "%d").chars ++ (literal back).chars))
    (plain : chr '%' ∉ (literal front).chars) (plainBehind : chr '%' ∉ (literal back).chars)
    (isInt : format ≠ " id: %lu") : Appended memory fuel (.ksnprintf format [.number value]) := by
  refine appended_of_matches ?_ (List.forall_mem_singleton.mpr trivial)
  rw [split, List.map_singleton, argValue, if_neg isInt]
  have behind : Matches (literal back).chars [] := by
    simpa using Matches.literals plainBehind .done
  exact .literals plain (.decimal _ behind)

/-- The text of a size of which the parts have few digits. -/
theorem length_textOf_parts_le {bytes gib mib kib b : ℕ} (gibLt : bytes / 2 ^ 30 < 10 ^ (gib + 1))
    (mibLt : bytes / 2 ^ 20 % 1024 < 10 ^ (mib + 1))
    (kibLt : bytes / 2 ^ 10 % 1024 < 10 ^ (kib + 1)) (bLt : bytes % 1024 < 10 ^ (b + 1)) :
    (textOf (parts bytes)).length ≤ gib + mib + kib + b + 21 := by
  have length := Bytes.length_textOf (Bytes.parts_ne_nil bytes)
  have bound : Bytes.width (parts bytes) ≤ gib + mib + kib + b + 22 := by
    simp only [parts]
    split
    · exact (by decide : _ ≤ 22).trans (Nat.le_add_left _ _)
    · refine (Bytes.width_filter_le _ _).trans ?_
      have gibLength := Bytes.length_decimal_le (Nat.succ_pos gib) gibLt
      have mibLength := Bytes.length_decimal_le (Nat.succ_pos mib) mibLt
      have kibLength := Bytes.length_decimal_le (Nat.succ_pos kib) kibLt
      have bLength := Bytes.length_decimal_le (Nat.succ_pos b) bLt
      simp only [Bytes.width, Bytes.Part.text, Bytes.ByteUnit.name, List.length_append,
        List.length_cons, List.map_cons, List.map_nil, List.length_nil]
      omega
  omega

theorem lt_of_member {place : Field} {value : ℕ}
    (read : (member memory this place).result = .ok value) : value < 256 ^ place.size := by
  cases read
  exact TracedStore.loadWord_lt memory _ _

theorem romSize_short {rom : ℕ} (isByte : rom < 256) : ArgShort (.byteCount (rom * 64)) := by
  have length := @length_textOf_parts_le (rom * 64) 0 0 3 3 (by omega) (by omega) (by omega)
    (by omega)
  exact ⟨by omega, by omega⟩

theorem mebibytes_short {count : ℕ} (small : count < 2 ^ 16) :
    ArgShort (.byteCount (count * (1024 * 1024))) := by
  have length := @length_textOf_parts_le (count * (1024 * 1024)) 1 3 0 0 (by omega) (by omega)
    (by omega) (by omega)
  exact ⟨by omega, by omega⟩

theorem gibibytes_short {count : ℕ} (small : count < 2 ^ 16) :
    ArgShort (.byteCount (count * (1024 * 1024 * 1024))) := by
  have length := @length_textOf_parts_le (count * (1024 * 1024 * 1024)) 4 0 0 0 (by omega)
    (by omega) (by omega) (by omega)
  exact ⟨by omega, by omega⟩

theorem FirmwareInfo.printCharacteristic_appended (i : ℕ) :
    (FirmwareInfo.printCharacteristic memory fuel this i).All (Appended memory fuel) := by
  have reads := appended_reads memory fuel
  refine all_bind (member_all reads _) fun flags _ => ?_
  split
  · exact ksnprintf_all reads (appended_string " " rfl (by decide) trivial rfl)
  · exact Traced.all_pure _

theorem FirmwareInfo.printExtendedRomSize_appended :
    (FirmwareInfo.printExtendedRomSize memory fuel this).All (Appended memory fuel) := by
  have reads := appended_reads memory fuel
  refine all_bind (member_all reads _) fun units _ => ?_
  refine all_bind (member_all reads _) fun value read => ?_
  have isWord : value < 2 ^ 16 := lt_of_member read
  have small : value - value % 4 < 2 ^ 16 := (Nat.sub_le _ _).trans_lt isWord
  split
  · exact ksnprintf_all reads
      (appended_string " extended Rom: " rfl (by decide) (mebibytes_short small) rfl)
  · split
    · exact ksnprintf_all reads
        (appended_string " extended Rom: " rfl (by decide) (gibibytes_short small) rfl)
    · exact Traced.all_halt _

theorem FirmwareInfo.toString_appended :
    (FirmwareInfo.toString memory fuel this).All (Appended memory fuel) := by
  have reads := appended_reads memory fuel
  refine all_bind (stringOf_all reads _) fun vendor _ => ?_
  refine all_bind (stringOf_all reads _) fun version _ => ?_
  refine all_bind (stringOf_all reads _) fun release _ => ?_
  refine all_bind (member_all reads _) fun rom read => ?_
  have isByte : rom < 256 := lt_of_member read
  refine all_bind (ksnprintf_all reads (appended_of_matches ?_ ?_)) fun _ _ => ?_
  · refine @Matches.literals (literal "Firmware vendor: ").chars
      (literal "%s version: %s release: %s rom size: %s").chars _ (by decide) (.string _ ?_)
    refine @Matches.literals (literal " version: ").chars
      (literal "%s release: %s rom size: %s").chars _ (by decide) (.string _ ?_)
    refine @Matches.literals (literal " release: ").chars (literal "%s rom size: %s").chars _
      (by decide) (.string _ ?_)
    exact @Matches.literals (literal " rom size: ").chars (literal "%s").chars _ (by decide)
      (.string _ .done)
  · simpa [ArgShort] using romSize_short isByte
  refine all_bind (all_forEach fun i _ => FirmwareInfo.printCharacteristic_appended i) fun _ _ => ?_
  refine all_bind (printIfReaches_all reads fun _ =>
    appended_number " system bios: " "" rfl (by decide) (by decide) (by decide)) fun _ _ => ?_
  refine all_bind (printIfReaches_all reads fun _ =>
    appended_number "." "" rfl (by decide) (by decide) (by decide)) fun _ _ => ?_
  refine all_bind (printIfReaches_all reads fun _ =>
    appended_number " firmware: " "" rfl (by decide) (by decide) (by decide)) fun _ _ => ?_
  refine all_bind (printIfReaches_all reads fun _ =>
    appended_number "." "" rfl (by decide) (by decide) (by decide)) fun _ _ => ?_
  refine all_bind (member_all reads _) fun _ _ => ?_
  split
  · exact FirmwareInfo.printExtendedRomSize_appended
  · exact Traced.all_pure _

theorem SystemInfo.toString_appended :
    (SystemInfo.toString memory fuel this).All (Appended memory fuel) := by
  have reads := appended_reads memory fuel
  refine all_bind (stringOf_all reads _) fun vendor _ => ?_
  refine all_bind (stringOf_all reads _) fun product _ => ?_
  refine all_bind (stringOf_all reads _) fun version _ => ?_
  refine all_bind (stringOf_all reads _) fun serial _ => ?_
  refine all_bind (stringOf_all reads _) fun sku _ => ?_
  refine all_bind (stringOf_all reads _) fun family _ => ?_
  refine ksnprintf_all reads (appended_of_matches ?_ (by simp [ArgShort]))
  refine @Matches.literals (literal "System vendor: ").chars
    (literal "%s product: %s version: %s serial: %s sku: %s family: %s").chars _ (by decide)
    (.string _ ?_)
  refine @Matches.literals (literal " product: ").chars
    (literal "%s version: %s serial: %s sku: %s family: %s").chars _ (by decide) (.string _ ?_)
  refine @Matches.literals (literal " version: ").chars
    (literal "%s serial: %s sku: %s family: %s").chars _ (by decide) (.string _ ?_)
  refine @Matches.literals (literal " serial: ").chars (literal "%s sku: %s family: %s").chars _
    (by decide) (.string _ ?_)
  refine @Matches.literals (literal " sku: ").chars (literal "%s family: %s").chars _ (by decide)
    (.string _ ?_)
  exact @Matches.literals (literal " family: ").chars (literal "%s").chars _ (by decide)
    (.string _ .done)

theorem ChassisInfo.toString_appended :
    (ChassisInfo.toString memory fuel this).All (Appended memory fuel) := by
  have reads := appended_reads memory fuel
  refine all_bind (stringOf_all reads _) fun manufacturer _ => ?_
  refine all_bind (stringOf_all reads _) fun version _ => ?_
  refine all_bind (stringOf_all reads _) fun serial _ => ?_
  refine all_bind (stringOf_all reads _) fun asset _ => ?_
  refine all_bind (ksnprintf_all reads (appended_of_matches ?_ (by simp [ArgShort]))) fun _ _ => ?_
  · refine @Matches.literals (literal "Chassis manufacturer: ").chars
      (literal "%s version: %s serial: %s asset: %s").chars _ (by decide) (.string _ ?_)
    refine @Matches.literals (literal " version: ").chars
      (literal "%s serial: %s asset: %s").chars _ (by decide) (.string _ ?_)
    refine @Matches.literals (literal " serial: ").chars (literal "%s asset: %s").chars _
      (by decide) (.string _ ?_)
    exact @Matches.literals (literal " asset: ").chars (literal "%s").chars _ (by decide)
      (.string _ .done)
  refine all_bind (printIfReaches_all reads fun _ =>
    appended_string " bootup State: " rfl (by decide) trivial rfl) fun _ _ => ?_
  refine all_bind (printIfReaches_all reads fun _ =>
    appended_string " power Supply State: " rfl (by decide) trivial rfl) fun _ _ => ?_
  refine all_bind (printIfReaches_all reads fun _ =>
    appended_string " thermalState: " rfl (by decide) trivial rfl) fun _ _ => ?_
  refine all_bind (printIfReaches_all reads fun _ =>
    appended_string " securityStatus: " rfl (by decide) trivial rfl) fun _ _ => ?_
  refine all_bind (printIfReaches_all reads fun _ =>
    appended_number " oemDefined: " "" rfl (by decide) (by decide) (by decide)) fun _ _ => ?_
  refine all_bind (printIfReaches_all reads fun _ =>
    appended_number " height: " "" rfl (by decide) (by decide) (by decide)) fun _ _ => ?_
  refine all_bind (printIfReaches_all reads fun _ =>
    appended_number " powerCords: " "" rfl (by decide) (by decide) (by decide)) fun _ _ => ?_
  exact printIfReaches_all reads fun _ =>
    appended_number " containedElements: " "" rfl (by decide) (by decide) (by decide)

/-- What `getStatusString` and `getSocket` return is printed as a string. -/
def IsText (arg : PrintArg) : Prop :=
  (∃ text, arg = .literal text) ∨ (∃ pointer, arg = .string pointer) ∨
    ∃ enumeration value, arg = .name enumeration value

theorem appended_text (front : String) {format : String} {arg : PrintArg}
    (split : (literal format).chars = (literal front).chars ++ (literal "%s").chars)
    (plain : chr '%' ∉ (literal front).chars) (isText : IsText arg) :
    Appended memory fuel (.ksnprintf format [arg]) := by
  rcases isText with ⟨text, rfl⟩ | ⟨pointer, rfl⟩ | ⟨enumeration, value, rfl⟩
  · exact appended_string front split plain trivial rfl
  · exact appended_string front split plain trivial rfl
  · exact appended_string front split plain trivial rfl

namespace ProcessorInfo

theorem getStatusString_isText {arg : PrintArg}
    (read : (getStatusString memory this).result = .ok arg) : IsText arg := by
  rcases exists_of_bind read with ⟨value, -, named⟩
  split at named
  · cases named
    exact Or.inl ⟨_, rfl⟩
  · cases named
    exact Or.inr (Or.inr ⟨_, _, rfl⟩)

theorem getSocket_isText {arg : PrintArg}
    (read : (getSocket memory fuel this).result = .ok arg) : IsText arg := by
  rcases exists_of_bind read with ⟨upgrade, -, named⟩
  split at named
  · cases named
    exact Or.inl ⟨_, rfl⟩
  · split at named
    · rcases exists_of_bind named with ⟨socket, -, returned⟩
      cases returned
      exact Or.inr (Or.inl ⟨_, rfl⟩)
    · cases named
      exact Or.inl ⟨_, rfl⟩

theorem getStatusString_all {P : Event → Prop} (reads : OfReads P) :
    (getStatusString memory this).All P := by
  refine all_bind ?_ fun value _ => ?_
  · exact all_bind (member_all reads _) fun _ _ => Traced.all_pure _
  · split
    · exact Traced.all_pure _
    · exact Traced.all_pure _

theorem getSocket_all {P : Event → Prop} (reads : OfReads P) :
    (getSocket memory fuel this).All P := by
  refine all_bind (member_all reads _) fun upgrade _ => ?_
  split
  · exact Traced.all_pure _
  · split
    · exact all_bind (stringOf_all reads _) fun _ _ => Traced.all_pure _
    · exact Traced.all_pure _

theorem toString_appended : (toString memory fuel this).All (Appended memory fuel) := by
  have reads := appended_reads memory fuel
  have string (front : String) {format : String}
      (split : (literal format).chars = (literal front).chars ++ (literal "%s").chars)
      (plain : chr '%' ∉ (literal front).chars) (pointer : Option ℕ) :
      Appended memory fuel (.ksnprintf format [.string pointer]) :=
    appended_string front split plain trivial rfl
  refine all_bind (stringOf_all reads _) fun designation _ => ?_
  refine all_bind (ksnprintf_all reads (string "" rfl (by decide) designation)) fun _ _ => ?_
  refine all_bind (member_all reads _) fun type _ => ?_
  refine all_bind (ksnprintf_all reads
    (appended_string " type: " rfl (by decide) trivial rfl)) fun _ _ => ?_
  refine all_bind (member_all reads _) fun family _ => ?_
  refine all_bind (ksnprintf_all reads
    (appended_string " family: " rfl (by decide) trivial rfl)) fun _ _ => ?_
  refine all_bind (printString_all reads (stringOf_all reads _)
    (string " manufacturer: " rfl (by decide))) fun _ _ => ?_
  refine all_bind (member_all reads _) fun id _ => ?_
  refine all_bind (ksnprintf_all reads (appended_of_matches ?_ (by simp [ArgShort]))) fun _ _ => ?_
  · exact @Matches.literals (literal " id: ").chars (literal "%lu").chars _ (by decide)
      (.unsignedLong _ .done)
  refine all_bind (printString_all reads (stringOf_all reads _)
    (string " version: " rfl (by decide))) fun _ _ => ?_
  refine all_bind (printCount_all reads (member_all reads _) fun _ =>
    appended_number " externalClock: " "MHz" rfl (by decide) (by decide) (by decide)) fun _ _ => ?_
  refine all_bind (printCount_all reads (member_all reads _) fun _ =>
    appended_number " maxSpeed: " "MHz" rfl (by decide) (by decide) (by decide)) fun _ _ => ?_
  refine all_bind (printCount_all reads (member_all reads _) fun _ =>
    appended_number " currentSpeed: " "MHz" rfl (by decide) (by decide) (by decide)) fun _ _ => ?_
  refine all_bind (all_bind (member_all reads _) fun _ _ => Traced.all_pure _) fun populated _ => ?_
  refine all_bind (ksnprintf_all reads
    (appended_string " status: " rfl (by decide) trivial rfl)) fun _ _ => ?_
  refine all_bind (getStatusString_all reads) fun status read => ?_
  refine all_bind (ksnprintf_all reads
    (appended_text " status: " rfl (by decide) (getStatusString_isText read))) fun _ _ => ?_
  refine all_bind (getSocket_all reads) fun socket read => ?_
  refine all_bind (ksnprintf_all reads
    (appended_text " socket: " rfl (by decide) (getSocket_isText read))) fun _ _ => ?_
  refine all_bind (printString_all reads (stringIfReaches_all reads _ _)
    (string " serial: " rfl (by decide))) fun _ _ => ?_
  refine all_bind (printString_all reads (stringIfReaches_all reads _ _)
    (string " asset: " rfl (by decide))) fun _ _ => ?_
  refine all_bind (printString_all reads (stringIfReaches_all reads _ _)
    (string " part: " rfl (by decide))) fun _ _ => ?_
  refine all_bind (printCount_all reads (countIfReaches_all reads _ _) fun _ =>
    appended_number " cores: " "" rfl (by decide) (by decide) (by decide)) fun _ _ => ?_
  refine all_bind (printCount_all reads (countIfReaches_all reads _ _) fun _ =>
    appended_number " enabled: " "" rfl (by decide) (by decide) (by decide)) fun _ _ => ?_
  exact printCount_all reads (countIfReaches_all reads _ _) fun _ =>
    appended_number " threads: " "" rfl (by decide) (by decide) (by decide)

end ProcessorInfo

end Formats

end Dvnetos.Smbios
