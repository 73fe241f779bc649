import Dvnetos.Smbios.MemorySizes
import Dvnetos.Smbios.RecordTexts

/-!
# The descriptions in their buffer

The printers of all records leave the start of a description in `buf`, whatever is in the table.
The descriptions of the two kinds of memory structures are short enough to stay inside of the
buffer. One of the other records can store behind it, since strings may have any length.
-/

namespace Dvnetos.Smbios

open Bytes (parts textOf)
open Stdio (Matches chr)

section Formats

variable {memory : Memory} {fuel this : ℕ}

/-- A computation that prints at most so many characters, and has room for its sizes. -/
structure Short (memory : Memory) (fuel size : ℕ) {α : Type} (x : Printing α) (limit : ℕ) :
    Prop where
  length : (description memory fuel x.events).length ≤ limit
  room : ∀ count, count + limit < size → Along memory fuel (HasRoom size) count x.events

theorem along_append {P : ℕ → Event → Prop} {front back : List Event} {count : ℕ}
    (first : Along memory fuel P count front)
    (second : Along memory fuel P (count + (description memory fuel front).length) back) :
    Along memory fuel P count (front ++ back) := by
  induction front generalizing count with
  | nil => exact second
  | cons event front ih =>
      refine ⟨first.1, ih first.2 ?_⟩
      rw [description, List.flatMap_cons, List.length_append, ← Nat.add_assoc] at second
      exact second

namespace Short

variable {size limit other : ℕ}

theorem bind {α β : Type} {x : Printing α} {f : α → Printing β}
    (first : Short memory fuel size x limit)
    (next : ∀ value, x.result = .ok value → Short memory fuel size (f value) other) :
    Short memory fuel size (x >>= f) (limit + other) := by
  have short := first.length
  cases result : x.result with
  | error stop =>
      have events : (x >>= f).events = x.events := by
        change (Traced.after x f).events = _
        rw [Traced.after, result]
      constructor
      · rw [events]
        omega
      · intro count room
        rw [events]
        exact first.room count (by omega)
  | ok value =>
      have events : (x >>= f).events = x.events ++ (f value).events := by
        change (Traced.after x f).events = _
        rw [Traced.after, result]
      have length : (description memory fuel (x >>= f).events).length =
          (description memory fuel x.events).length +
            (description memory fuel (f value).events).length := by
        rw [events, description, List.flatMap_append, List.length_append]
        rfl
      have behind := (next value result).length
      constructor
      · omega
      · intro count room
        rw [events]
        exact along_append (first.room count (by omega)) ((next value result).room _ (by omega))

theorem pure {α : Type} (value : α) : Short memory fuel size (Pure.pure value : Printing α) 0 :=
  ⟨Nat.zero_le _, fun _ _ => trivial⟩

theorem mono {α : Type} {x : Printing α} (short : Short memory fuel size x limit)
    (le : limit ≤ other) : Short memory fuel size x other :=
  ⟨short.length.trans le, fun count room => short.room count (by omega)⟩

theorem record {event : Event} (length : (eventText memory fuel event).length ≤ limit) :
    Short memory fuel size (Traced.record event : Printing Unit) limit := by
  constructor
  · simpa [description, Traced.record] using length
  · intro count room
    refine ⟨?_, trivial⟩
    cases event with
    | bytesToHumanReadable bytes =>
        simp only [eventText] at length
        simp only [HasRoom]
        omega
    | _ => trivial

theorem ofMember (this : ℕ) (place : Field) :
    Short memory fuel size (member memory this place) 0 :=
  (record (Nat.zero_le _)).bind fun _ _ => pure _

theorem afterMember {α : Type} {this : ℕ} {place : Field} {f : ℕ → Printing α}
    (next : ∀ value, Short memory fuel size (f value) limit) :
    Short memory fuel size (member memory this place >>= f) limit := by
  have short := (ofMember this place).bind fun value _ => next value
  rwa [Nat.zero_add] at short

/-- A call without strings of the table. -/
theorem ksnprintf {format : String} {args : List PrintArg}
    (plain : ∀ arg ∈ args, ∀ pointer, arg ≠ .string pointer)
    (length : ((appendOf memory fuel format args).text true).length ≤ limit) :
    Short memory fuel size (Smbios.ksnprintf memory fuel format args) limit := by
  have reads : ∀ args : List PrintArg, (∀ arg ∈ args, ∀ pointer, arg ≠ .string pointer) →
      Short memory fuel size (Traced.forEach (readArg memory fuel) args) 0 := by
    intro args plain
    induction args with
    | nil => exact pure _
    | cons arg args ih =>
        rw [List.forall_mem_cons] at plain
        refine bind ?_ fun _ _ => ih plain.2
        cases arg with
        | string pointer => exact absurd rfl (plain.1 pointer)
        | _ => exact pure _
  exact (record length).bind fun _ _ => reads args plain

theorem when {test : Prop} [Decidable test] {x : Printing Unit}
    (short : Short memory fuel size x limit) :
    Short memory fuel size (if test then x else Pure.pure ()) limit := by
  split
  · exact short
  · exact (pure _).mono (Nat.zero_le _)

end Short

theorem length_hex_le (value : BitVec 32) :
    (Stdio.digits 16 (Stdio.hexDigit (chr 'a')) value.toNat).length ≤ 8 := by
  have length := @Stdio.length_digits 16 (by decide) (Stdio.hexDigit (chr 'a')) value.toNat
  refine length.le.trans ?_
  rw [Int.natAbs_natCast, Numeral.length_digits_le_iff (by decide) (by decide)]
  exact value.isLt.trans_le (by decide)

theorem length_number_le (value : BitVec 32) :
    (Stdio.decimalText .int value.toInt).length ≤ 21 :=
  Stdio.length_decimalText_le ⟨value.le_toInt, Int.le_sub_one_of_lt value.toInt_lt⟩

theorem printSize_short {size bytes : ℕ} (title : String) (isWord : bytes < 2 ^ 64)
    (length : (Stdio.rendering true (literal title) []).length ≤ 15) :
    Short memory fuel size (printSize memory fuel bytes title) 55 := by
  have number : Short memory fuel size (Traced.record (.bytesToHumanReadable bytes)) 40 :=
    .record (Bytes.length_textOf_parts_le isWord)
  have front : Short memory fuel size (ksnprintf memory fuel title []) 15 :=
    .ksnprintf (by simp) length
  exact .when ((front.bind fun _ _ => number).mono (by decide))

theorem formatted_reads (memory : Memory) (fuel : ℕ) : OfReads (Formatted memory fuel) where
  field _ := trivial
  character _ := trivial

theorem printSize_formatted {bytes : ℕ} {title : String} (isWord : bytes < 2 ^ 64)
    (plain : chr '%' ∉ (literal title).chars) :
    (printSize memory fuel bytes title).All (Formatted memory fuel) := by
  have reads := formatted_reads memory fuel
  have matching : Matches (literal title).chars [] := by
    simpa using Matches.literals plain .done
  rw [printSize]
  split
  · refine all_bind (ksnprintf_all reads ⟨matching, by simp⟩) fun _ _ => ?_
    exact (Traced.all_record_iff _).mpr isWord
  · exact Traced.all_pure _

namespace PhysicalMemoryArray

theorem lt_of_getMaximumCapacity {capacity : ℕ}
    (read : (getMaximumCapacity memory this).result = .ok capacity) : capacity < 2 ^ 64 := by
  have maximum : valueOf memory this maximumCapacity < 2 ^ 32 := lt_of_member rfl
  have extended : valueOf memory this extendedMaximumCapacity < 2 ^ 64 := lt_of_member rfl
  rw [getMaximumCapacity_result] at read
  rw [← Except.ok.inj read]
  split_ifs <;> omega

theorem getMaximumCapacity_all {P : Event → Prop} (reads : OfReads P) :
    (getMaximumCapacity memory this).All P := by
  refine all_bind (member_all reads _) fun capacity _ => ?_
  split
  · refine all_bind (member_all reads _) fun length _ => ?_
    split
    · exact member_all reads _
    · exact Traced.all_pure _
  · exact Traced.all_pure _

theorem toString_formatted : (toString memory fuel this).All (Formatted memory fuel) := by
  have reads := formatted_reads memory fuel
  refine all_bind (member_all reads _) fun handle _ => ?_
  refine all_bind (member_all reads _) fun place _ => ?_
  refine all_bind (member_all reads _) fun usage _ => ?_
  refine all_bind (member_all reads _) fun correction _ => ?_
  refine all_bind (ksnprintf_all reads ⟨?_, by simp [ArgShort]⟩) fun _ _ => ?_
  · refine @Matches.literals (literal "Physical Memory Array handle: ").chars
      (literal "%x location: %s use: %s error: %s").chars _ (by decide) (.hex _ ?_)
    refine @Matches.literals (literal " location: ").chars
      (literal "%s use: %s error: %s").chars _ (by decide) (.string _ ?_)
    refine @Matches.literals (literal " use: ").chars (literal "%s error: %s").chars _ (by decide)
      (.string _ ?_)
    exact @Matches.literals (literal " error: ").chars (literal "%s").chars _ (by decide)
      (.string _ .done)
  refine all_bind ?_ fun _ _ => ?_
  · refine all_bind (member_all reads _) fun devices _ => ?_
    split
    · exact ksnprintf_all reads
        (appended_number " devices: " "" rfl (by decide) (by decide) (by decide)).1
    · exact Traced.all_pure _
  refine all_bind (getMaximumCapacity_all reads) fun capacity read => ?_
  exact printSize_formatted (lt_of_getMaximumCapacity read) (by decide)

/-- The text in front of the devices. -/
theorem length_front_le (handle place use correction : ℕ) :
    ((appendOf memory fuel
      "Physical Memory Array handle: %x location: %s use: %s error: %s"
      [.number handle, .name .physicalMemoryArrayLocation place,
        .name .physicalMemoryArrayUse use,
        .name .memoryErrorCorrection correction]).text true).length ≤ 156 := by
  have rendered : (appendOf memory fuel
      "Physical Memory Array handle: %x location: %s use: %s error: %s"
      [.number handle, .name .physicalMemoryArrayLocation place,
        .name .physicalMemoryArrayUse use,
        .name .memoryErrorCorrection correction]).text true =
      (literal "Physical Memory Array handle: ").chars ++
        (Stdio.digits 16 (Stdio.hexDigit (chr 'a')) (BitVec.ofNat 32 handle).toNat ++
        ((literal " location: ").chars ++
        (Enumeration.text .physicalMemoryArrayLocation place ++ ((literal " use: ").chars ++
        (Enumeration.text .physicalMemoryArrayUse use ++ ((literal " error: ").chars ++
        (Enumeration.text .memoryErrorCorrection correction ++ []))))))) := rfl
  have number := length_hex_le (BitVec.ofNat 32 handle)
  have location := Enumeration.length_text_le .physicalMemoryArrayLocation place
  have usage := Enumeration.length_text_le .physicalMemoryArrayUse use
  have error := Enumeration.length_text_le .memoryErrorCorrection correction
  have first : (literal "Physical Memory Array handle: ").chars.length = 30 := by decide
  have second : (literal " location: ").chars.length = 11 := by decide
  have third : (literal " use: ").chars.length = 6 := by decide
  have fourth : (literal " error: ").chars.length = 8 := by decide
  simp only [rendered, List.length_append, first, second, third, fourth, List.length_nil]
  omega

theorem getMaximumCapacity_short (size : ℕ) :
    Short memory fuel size (getMaximumCapacity memory this) 0 := by
  refine .afterMember fun capacity => ?_
  split
  · refine .afterMember fun length => ?_
    split
    · exact .ofMember this _
    · exact .pure _
  · exact .pure _

theorem printDevices_short (size : ℕ) :
    Short memory fuel size (printDevices memory fuel this) 31 := by
  refine .afterMember fun devices => .when (.ksnprintf (by simp) ?_)
  have rendered : (appendOf memory fuel " devices: %d" [.number devices]).text true =
      (literal " devices: ").chars ++
        (Stdio.decimalText .int (BitVec.ofNat 32 devices).toInt ++ []) := rfl
  have number := length_number_le (BitVec.ofNat 32 devices)
  have front : (literal " devices: ").chars.length = 10 := by decide
  simp only [rendered, List.length_append, front, List.length_nil]
  omega

theorem toString_short (size : ℕ) : Short memory fuel size (toString memory fuel this) 242 := by
  refine .afterMember fun handle => ?_
  refine .afterMember fun place => ?_
  refine .afterMember fun usage => ?_
  refine .afterMember fun correction => ?_
  have front : Short memory fuel size (ksnprintf memory fuel _ _) 156 :=
    .ksnprintf (by simp) (length_front_le handle place usage correction)
  refine (front.bind fun _ _ => (printDevices_short size).bind fun _ _ =>
    (getMaximumCapacity_short size).bind fun capacity read => ?_ :
    Short _ _ _ _ (156 + (31 + (0 + 55))))
  exact printSize_short " max capacity: " (lt_of_getMaximumCapacity read) (by decide)

end PhysicalMemoryArray

namespace MemoryDevice

theorem getSize_short (size : ℕ) : Short memory fuel size (getSize memory this) 0 := by
  refine .afterMember fun value => ?_
  split
  · refine .afterMember fun length => ?_
    split
    · exact .afterMember fun extended => .pure _
    · exact .pure _
  · split
    · exact .pure _
    · exact .pure _

theorem lt_of_getSize {bytes : ℕ} (read : (getSize memory this).result = .ok bytes) :
    bytes < 2 ^ 64 := by
  have value : valueOf memory this MemoryDevice.size < 2 ^ 16 := lt_of_member rfl
  rw [getSize_result] at read
  rw [← Except.ok.inj read]
  split_ifs <;> omega

theorem getSize_all {P : Event → Prop} (reads : OfReads P) : (getSize memory this).All P := by
  refine all_bind (member_all reads _) fun value _ => ?_
  split
  · refine all_bind (member_all reads _) fun length _ => ?_
    split
    · exact all_bind (member_all reads _) fun extended _ => Traced.all_pure _
    · exact Traced.all_pure _
  · split
    · exact Traced.all_pure _
    · exact Traced.all_pure _

theorem toString_formatted : (toString memory fuel this).All (Formatted memory fuel) := by
  have reads := formatted_reads memory fuel
  refine all_bind (member_all reads _) fun handle _ => ?_
  refine all_bind (member_all reads _) fun array _ => ?_
  refine all_bind (ksnprintf_all reads ⟨?_, by simp [ArgShort]⟩) fun _ _ => ?_
  · refine @Matches.literals (literal "Memory Device ").chars (literal "%x array %x").chars _
      (by decide) (.hex _ ?_)
    exact @Matches.literals (literal " array ").chars (literal "%x").chars _ (by decide)
      (.hex _ .done)
  refine all_bind (getSize_all reads) fun bytes read => ?_
  exact printSize_formatted (lt_of_getSize read) (by decide)

/-- The text in front of the size. -/
theorem length_front_le (handle array : ℕ) :
    ((appendOf memory fuel "Memory Device %x array %x"
      [.number handle, .number array]).text true).length ≤ 37 := by
  have rendered : (appendOf memory fuel "Memory Device %x array %x"
      [.number handle, .number array]).text true =
      (literal "Memory Device ").chars ++
        (Stdio.digits 16 (Stdio.hexDigit (chr 'a')) (BitVec.ofNat 32 handle).toNat ++
        ((literal " array ").chars ++
        (Stdio.digits 16 (Stdio.hexDigit (chr 'a')) (BitVec.ofNat 32 array).toNat ++ []))) := rfl
  have number := length_hex_le (BitVec.ofNat 32 handle)
  have other := length_hex_le (BitVec.ofNat 32 array)
  have first : (literal "Memory Device ").chars.length = 14 := by decide
  have second : (literal " array ").chars.length = 7 := by decide
  simp only [rendered, List.length_append, first, second, List.length_nil]
  omega

theorem toString_short (size : ℕ) : Short memory fuel size (toString memory fuel this) 92 := by
  refine .afterMember fun handle => ?_
  refine .afterMember fun array => ?_
  have front : Short memory fuel size (ksnprintf memory fuel _ _) 37 :=
    .ksnprintf (by simp) (length_front_le handle array)
  refine (front.bind fun _ _ => (getSize_short size).bind fun bytes read => ?_ :
    Short _ _ _ _ (37 + (0 + 55)))
  exact printSize_short " size: " (lt_of_getSize read) (by decide)

end MemoryDevice

/-- A printer that prints no size behind a title. -/
theorem Appended.room {size : ℕ} {events : List Event}
    (all : ∀ event ∈ events, Appended memory fuel event) (count : ℕ) :
    Along memory fuel (HasRoom size) count events := by
  induction events generalizing count with
  | nil => trivial
  | cons event events ih =>
      rw [List.forall_mem_cons] at all
      refine ⟨?_, ih all.2 _⟩
      cases event with
      | bytesToHumanReadable bytes => exact absurd rfl (all.1.2 bytes)
      | _ => trivial

theorem toStringOf_formatted (printer : Printer) :
    (toStringOf memory fuel this printer).All (Formatted memory fuel) ∧
      Along memory fuel (HasRoom 512) 0 (toStringOf memory fuel this printer).events := by
  have ofAppended {x : Printing Unit} (all : x.All (Appended memory fuel)) :
      x.All (Formatted memory fuel) ∧ Along memory fuel (HasRoom 512) 0 x.events :=
    ⟨fun event mem => (all event mem).1, Appended.room all 0⟩
  cases printer with
  | firmwareInfo => exact ofAppended FirmwareInfo.toString_appended
  | systemInfo => exact ofAppended SystemInfo.toString_appended
  | chassisInfo => exact ofAppended ChassisInfo.toString_appended
  | processorInfo => exact ofAppended ProcessorInfo.toString_appended
  | physicalMemoryArray =>
      exact ⟨PhysicalMemoryArray.toString_formatted,
        (PhysicalMemoryArray.toString_short 512).room 0 (by decide)⟩
  | memoryDevice =>
      exact ⟨MemoryDevice.toString_formatted, (MemoryDevice.toString_short 512).room 0 (by decide)⟩
  | endOfTable => exact ofAppended (Traced.all_pure _)
  | unhandled => exact ofAppended (Traced.all_pure _)

/-- What the printer of a structure prints in all, without an end. -/
def fullText (memory : Memory) (fuel this : ℕ) (printer : Printer) : List UInt8 :=
  description memory fuel (toStringOf memory fuel this printer).events

/--
Whatever is in memory, `toString` leaves the first 511 characters of the description of a
structure in `buf[512]`, with a NUL behind them. It stores only inside of `buf` exactly if
every number, string and name starts there, so if the description fits, and always for the two
kinds of memory structures.
-/
theorem toStringOf_describes (memory : Memory) (fuel this : ℕ) (printer : Printer)
    (statics contents : ℤ → UInt8)
    (fits : (fullText memory fuel this printer).length < 2 ^ 31) :
    ∃ final,
      describe memory fuel statics ⟨512, by decide⟩ contents
          (toStringOf memory fuel this printer).events = .ok final ∧
        Stdio.HoldsPrefix 512 (fullText memory fuel this printer) ⟨final.buf.cells, final.n⟩ ∧
        (fullText memory fuel this printer ≠ [] → final.buf.cells final.n = 0) ∧
        (final.buf.Within (Stdio.Inside 512) ↔
          Along memory fuel (StartsInside memory fuel 512) 0
            (toStringOf memory fuel this printer).events) ∧
        ((fullText memory fuel this printer).length < 512 ∨ printer = .physicalMemoryArray ∨
            printer = .memoryDevice → final.buf.Within (Stdio.Inside 512)) := by
  rcases toStringOf_formatted printer with ⟨formatted, room⟩
  have start : Stdio.HoldsPrefix 512 [] ⟨(TracedStore.fresh contents).cells, 0⟩ :=
    ⟨rfl, fun k bound => absurd bound (Nat.not_lt_zero k)⟩
  rcases @foldlM_carryOut memory fuel statics ⟨512, by decide⟩ (by decide) (by decide) []
    ⟨.fresh contents, 0⟩ start (fun some => absurd rfl some) _ formatted room fits with
    ⟨final, run, holds, terminated, within⟩
  simp only [List.nil_append, TracedStore.within_fresh, true_and] at holds terminated within
  refine ⟨final, run, holds, terminated, within, ?_⟩
  intro short
  refine within.mpr (startsInside_of_fits ?_)
  rw [List.length_nil, Nat.zero_add]
  rcases short with short | rfl | rfl
  · exact short
  · exact (PhysicalMemoryArray.toString_short 512).length.trans_lt (by decide)
  · exact (MemoryDevice.toString_short 512).length.trans_lt (by decide)

end Formats

/-- A system structure in front of a string of 512 characters. -/
def longVendor : Memory := fun address =>
  if address < 27 then [1, 27, 0, 0, 1].getD address 0 else if address < 539 then 65 else 0

theorem le_length_stringAt {memory : Memory} {fuel pointer n : ℕ} (enough : n ≤ fuel)
    (nonzero : ∀ i < n, memory (pointer + i) ≠ 0) :
    n ≤ (stringAt memory fuel pointer).chars.length := by
  obtain ⟨rest, rfl⟩ := Nat.exists_eq_add_of_le enough
  simp only [stringAt]
  rw [List.range_add, List.map_append, List.takeWhile_append_of_pos, List.length_append,
    List.length_map, List.length_range]
  · exact Nat.le_add_right _ _
  · intro byte mem
    rcases List.mem_map.mp mem with ⟨i, bound, rfl⟩
    simpa using nonzero i (List.mem_range.mp bound)

theorem length_stringAt_le (memory : Memory) (fuel pointer : ℕ) :
    (stringAt memory fuel pointer).chars.length ≤ fuel := by
  have le := (List.takeWhile_prefix (l := (List.range fuel).map fun i => memory (pointer + i))
    (fun c => decide (c ≠ 0))).length_le
  rw [List.length_map, List.length_range] at le
  exact le

theorem length_longVendor : 512 ≤ (stringAt longVendor 600 27).chars.length := by
  refine le_length_stringAt (by decide) fun i bound => ?_
  simp only [longVendor]
  rw [if_neg (by omega), if_pos (by omega)]
  decide

/-- The strings that `SystemInfo::toString` prints for `longVendor`. -/
def longVendorArgs : List PrintArg :=
  [.string (some 27), .string none, .string none, .string none, .string none, .string none]

theorem longVendor_events :
    (toStringOf longVendor 600 0 .systemInfo).events =
      [.field ⟨4, 1⟩, .field ⟨1, 1⟩, .field ⟨5, 1⟩, .field ⟨6, 1⟩, .field ⟨7, 1⟩, .field ⟨25, 1⟩,
        .field ⟨26, 1⟩,
        .ksnprintf "System vendor: %s product: %s version: %s serial: %s sku: %s family: %s"
          longVendorArgs] ++ (Traced.forEach (readArg longVendor 600) longVendorArgs).events := rfl

/-- The call of `ksnprintf`, with any string for the vendor. -/
theorem chunks_longVendor (vendor : Stdio.CString) :
    ∃ later, Stdio.chunks true
        (literal "System vendor: %s product: %s version: %s serial: %s sku: %s family: %s")
        [.string (some vendor), .string none, .string none, .string none, .string none,
          .string none] =
      ((literal "System vendor: ").chars.map Stdio.Chunk.literal ++
        .text vendor.chars :: (literal " product: ").chars.map Stdio.Chunk.literal) ++
          .text Stdio.nullText :: later :=
  ⟨_, rfl⟩

theorem length_longVendorText (vendor : Stdio.CString) :
    (Stdio.rendering true
        (literal "System vendor: %s product: %s version: %s serial: %s sku: %s family: %s")
        [.string (some vendor), .string none, .string none, .string none, .string none,
          .string none]).length = vendor.chars.length + 89 := by
  have rendered : Stdio.rendering true
      (literal "System vendor: %s product: %s version: %s serial: %s sku: %s family: %s")
      [.string (some vendor), .string none, .string none, .string none, .string none,
        .string none] =
      (literal "System vendor: ").chars ++ (vendor.chars ++
        (literal
          " product: (null) version: (null) serial: (null) sku: (null) family: (null)").chars) :=
    rfl
  have front : (literal "System vendor: ").chars.length = 15 := by decide
  have back : (literal
      " product: (null) version: (null) serial: (null) sku: (null) family: (null)").chars.length =
      74 := by decide
  simp only [rendered, List.length_append]
  omega

/-- The product is printed behind the buffer. -/
theorem toStringOf_describes_longVendor :
    ∃ final,
      describe longVendor 600 (fun _ => 0) ⟨512, by decide⟩ (fun _ => 0)
          (toStringOf longVendor 600 0 .systemInfo).events = .ok final ∧
        ¬final.buf.Within (Stdio.Inside 512) := by
  have reads : OfReads fun event => eventText longVendor 600 event = [] :=
    ⟨fun _ => rfl, fun _ => rfl⟩
  have strings : description longVendor 600
      (Traced.forEach (readArg longVendor 600) longVendorArgs).events = [] :=
    List.flatMap_eq_nil_iff.mpr (all_forEach fun arg _ => readArg_all reads arg)
  have text : fullText longVendor 600 0 .systemInfo = Stdio.rendering true
      (literal "System vendor: %s product: %s version: %s serial: %s sku: %s family: %s")
      [.string (some (stringAt longVendor 600 27)), .string none, .string none, .string none,
        .string none, .string none] := by
    rw [fullText, longVendor_events, description, List.flatMap_append]
    refine (congrArg _ strings).trans (List.append_nil _) |>.trans ?_
    exact List.append_nil _
  have short := length_stringAt_le longVendor 600 27
  have fits : (fullText longVendor 600 0 .systemInfo).length < 2 ^ 31 := by
    rw [text, length_longVendorText]
    omega
  rcases toStringOf_describes longVendor 600 0 .systemInfo (fun _ => 0) (fun _ => 0) fits with
    ⟨final, run, -, -, within, -⟩
  refine ⟨final, run, ?_⟩
  rw [within, longVendor_events]
  rintro ⟨-, -, -, -, -, -, -, starts, -⟩
  rcases chunks_longVendor (stringAt longVendor 600 27) with ⟨later, chunks⟩
  have behind := starts _ _ later chunks (by decide)
  have long := length_longVendor
  rw [Stdio.charsOf, List.flatMap_append, List.length_append] at behind
  simp only [List.flatMap_cons, List.length_append, Stdio.Chunk.chars] at behind
  omega

end Dvnetos.Smbios
