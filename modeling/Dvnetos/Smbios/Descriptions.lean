import Dvnetos.Smbios.EnumNames
import Dvnetos.Utils.Bytes

/-!
# The descriptions of the structures

The printers of `smbios/smbios.cpp` put the description of a structure together in the
`char buf[512]` of `dumpTable`. `ksnprintf` never returns more characters than are left in the
buffer, so every append starts inside of it. What the append stores still leaves the buffer if
one of its numbers, strings or names starts behind the end.
-/

namespace Dvnetos.Smbios

open Bytes (bytesToHumanReadable ksnprintfAt parts textOf)
open Panic (StartsBefore)
open Stdio (AppendStop Arg BufferSize CString chr)
open Word

section

variable (memory : Memory) (fuel : ℕ) (statics : ℤ → UInt8)

/-- The string at an address, which has fewer characters than the printer has fuel. -/
def stringAt (pointer : ℕ) : CString where
  chars := ((List.range fuel).map fun i => memory (pointer + i)).takeWhile (· ≠ 0)
  noNul := fun nul => by simpa using List.mem_takeWhile_imp nul

/--
An argument as `ksnprintf` gets it, with what the static buffers hold before. The id of a
processor is the only number with 64 bits.
-/
def argOf (format : String) : PrintArg → Except AppendStop Arg
  | .number value =>
      if format = " id: %lu" then .ok (.long (BitVec.ofNat 64 value))
      else .ok (.int (BitVec.ofNat 32 value))
  | .string pointer => .ok (.string (pointer.map (stringAt memory fuel)))
  | .literal text => .ok (.string (text.map literal))
  | .name enumeration value => .ok (.string (some (enumeration.toString statics value)))
  | .byteCount bytes => do
      let buf2 ← bytesToHumanReadable true (.fresh statics) 0 32 bytes
      return .string (some ⟨Stdio.stringIn buf2.cells 32, Stdio.stringIn_noNul _ _⟩)

/-- `buf` and `n`. -/
structure Description where
  buf : TracedStore ℤ UInt8
  n : ℤ

/-- What a printer does to its buffer of `size` bytes. -/
def Description.carryOut (size : BufferSize) (description : Description) :
    Event → Except AppendStop Description
  | .field _ => .ok description
  | .character _ => .ok description
  | .ksnprintf format args => do
      let args ← args.mapM (argOf memory fuel statics format)
      let (buf, count) ← ksnprintfAt true description.buf description.n
        (sub64 size.bytes (sizeT description.n)) (literal format) args
      return { buf, n := int32 (description.n + count) }
  | .bytesToHumanReadable bytes => do
      let buf ← bytesToHumanReadable true description.buf description.n
        (sub64 size.bytes (sizeT description.n)) bytes
      -- `strlen` of what has been printed
      let count := (Stdio.stringIn (fun i => buf.cells (description.n + i)) size.bytes).length
      return { buf, n := int32 (description.n + int32 count) }

/-- `toString(buf, size)` on what the stack holds. -/
def describe (size : BufferSize) (contents : ℤ → UInt8) (events : List Event) :
    Except AppendStop Description :=
  events.foldlM (Description.carryOut memory fuel statics size) { buf := .fresh contents, n := 0 }

end

section

variable (memory : Memory) (fuel : ℕ)

/-- An argument without the buffers. -/
def argValue (format : String) : PrintArg → Arg
  | .number value =>
      if format = " id: %lu" then .long (BitVec.ofNat 64 value)
      else .int (BitVec.ofNat 32 value)
  | .string pointer => .string (pointer.map (stringAt memory fuel))
  | .literal text => .string (text.map literal)
  | .name enumeration value =>
      .string (some ⟨enumeration.text value, enumeration.text_noNul value⟩)
  | .byteCount bytes => .string (some ⟨textOf (parts bytes), Bytes.nul_notMem_textOf _⟩)

/-- The append for a call of `ksnprintf`. -/
def appendOf (format : String) (args : List PrintArg) : Stdio.Append where
  format := literal format
  args := args.map (argValue memory fuel format)

/-- The characters that an event adds to a description without an end. -/
def eventText : Event → List UInt8
  | .field _ | .character _ => []
  | .ksnprintf format args => (appendOf memory fuel format args).text true
  | .bytesToHumanReadable bytes => textOf (parts bytes)

/-- The text that the events of a printer append. -/
def description (events : List Event) : List UInt8 := events.flatMap (eventText memory fuel)

/-- Every event has the property at the number of characters that are in front of it. -/
def Along (P : ℕ → Event → Prop) : ℕ → List Event → Prop
  | _, [] => True
  | count, event :: events =>
      P count event ∧ Along P (count + (eventText memory fuel event).length) events

/-- Every number, string and name of a call starts in the rest of a buffer of this size. -/
def StartsInside (size count : ℕ) : Event → Prop
  | .ksnprintf format args =>
      StartsBefore (size - min count (size - 1))
        (Stdio.chunks true (literal format) (args.map (argValue memory fuel format)))
  | _ => True

/-- The size in bytes at the end of a description fits into the rest of a buffer. -/
def HasRoom (size count : ℕ) : Event → Prop
  | .bytesToHumanReadable bytes => count + (textOf (parts bytes)).length < size
  | _ => True

/-- A size in bytes that is a 64-bit number and fits into `buf2`. -/
def ArgShort : PrintArg → Prop
  | .byteCount bytes => bytes < 2 ^ 64 ∧ (textOf (parts bytes)).length < 32
  | _ => True

/-- The arguments have the types that the format names. -/
def Formatted : Event → Prop
  | .ksnprintf format args =>
      (appendOf memory fuel format args).Matching ∧ ∀ arg ∈ args, ArgShort arg
  | .bytesToHumanReadable bytes => bytes < 2 ^ 64
  | _ => True

end

/-- A call of `ksnprintf` at the end of the text extends it, and stores where its text starts. -/
theorem ksnprintfAt_appends {size : BufferSize} (nonempty : 1 ≤ size.bytes)
    (small : size.bytes < 2 ^ 31) {text : List UInt8} {before : Description}
    (holds : Stdio.HoldsPrefix size.bytes text ⟨before.buf.cells, before.n⟩) {call : Stdio.Append}
    (matching : call.Matching) (fits : (call.text true).length < 2 ^ 31) :
    ∃ buf count,
      ksnprintfAt true before.buf before.n (sub64 size.bytes (sizeT before.n)) call.format
          call.args = .ok (buf, count) ∧
        Stdio.HoldsPrefix size.bytes (text ++ call.text true)
          ⟨buf.cells, int32 (before.n + count)⟩ ∧
        buf.cells (int32 (before.n + count)) = 0 ∧
        (buf.Within (Stdio.Inside size.bytes) ↔ before.buf.Within (Stdio.Inside size.bytes) ∧
          StartsBefore (size.bytes - min text.length (size.bytes - 1))
            (Stdio.chunks true call.format call.args)) := by
  have isSize := size.isObject
  have start := holds.count
  simp only at start
  have rest : sub64 size.bytes (sizeT before.n) =
      size.bytes - min text.length (size.bytes - 1) := by
    rw [start, sizeT_natCast (by omega), sub64_of_le (by omega) (by omega)]
  have isObject : sub64 size.bytes (sizeT before.n) < 2 ^ 63 := by omega
  have room : 1 ≤ sub64 size.bytes (sizeT before.n) := by omega
  have counts : Stdio.Counter.int.Counts
      (min (text ++ call.text true).length (size.bytes - 1)) :=
    (Nat.min_le_right _ _).trans_lt (by omega)
  obtain ⟨next, appended, holdsNext, terminator⟩ :=
    Stdio.append_holds nonempty holds matching fits counts
  obtain ⟨returned, -, -⟩ := @Stdio.ksnprintf_holds true
    ⟨sub64 size.bytes (sizeT before.n), isObject⟩ call.format call.args
    (fun index => before.buf.cells (before.n + index)) matching room fits
  have stepped := @Stdio.append_of_returned true .int size ⟨before.buf.cells, before.n⟩ call _
    isObject returned
  have same := stepped.symm.trans appended
  rw [← Except.ok.inj same] at holdsNext terminator
  refine ⟨_, _, Bytes.ksnprintfAt_of_returned returned, holdsNext, terminator, ?_⟩
  have frame := Stdio.kvsnprintf_frame true ⟨sub64 size.bytes (sizeT before.n), isObject⟩
    (fun index => before.buf.cells (before.n + index)) matching fits
  have stores := @Panic.kvsnprintf_inside_iff ⟨sub64 size.bytes (sizeT before.n), isObject⟩ room
    call.format call.args matching fits fun index => before.buf.cells (before.n + index)
  rw [← rest, ← stores, and_comm]
  simp only [TracedStore.Within, Bytes.callMemory, List.forall_mem_append, List.forall_mem_map]
  refine and_congr_left' (forall₂_congr fun index stored => ?_)
  have positive : 0 ≤ index := by simpa using frame.footprint index stored
  simp only [Stdio.Inside]
  omega

theorem ksnprintfAt_footprint {buf next : TracedStore ℤ UInt8} {address count : ℤ} {len : ℕ}
    {format : CString} {args : List Arg}
    (run : ksnprintfAt true buf address len format args = .ok (next, count)) :
    buf.footprint ⊆ next.footprint := by
  simp only [ksnprintfAt] at run
  split at run
  · split at run
    · cases run
    · rw [← (Prod.mk.inj (Except.ok.inj run)).1]
      exact List.subset_append_right _ _
  · cases run

theorem bytesToHumanReadable_footprint {buf final : TracedStore ℤ UInt8} {address : ℤ}
    {len bytes : ℕ} (run : bytesToHumanReadable true buf address len bytes = .ok final) :
    buf.footprint ⊆ final.footprint := by
  induction bytes using Nat.strong_induction_on generalizing buf address len with
  | _ bytes ih =>
      rw [bytesToHumanReadable] at run
      rcases Fallible.bind_eq_ok_iff.mp run with ⟨⟨next, count⟩, called, rest⟩
      have first := ksnprintfAt_footprint called
      simp only at rest
      split at rest
      · next more =>
          exact fun stored mem => ih _ (Bytes.firstPart_remainder_lt more.1) rest
            (List.mem_cons_of_mem _ (first mem))
      · rw [← Except.ok.inj rest]
        exact first

/-- A size that fits extends the text, and stores only in the rest of the buffer. -/
theorem bytesToHumanReadable_appends {size : BufferSize} (small : size.bytes < 2 ^ 31)
    {text : List UInt8} {before : Description}
    (holds : Stdio.HoldsPrefix size.bytes text ⟨before.buf.cells, before.n⟩) {bytes : ℕ}
    (isWord : bytes < 2 ^ 64)
    (room : text.length + (textOf (parts bytes)).length < size.bytes) :
    ∃ buf,
      bytesToHumanReadable true before.buf before.n (sub64 size.bytes (sizeT before.n)) bytes =
          .ok buf ∧
        (Stdio.stringIn (fun i => buf.cells (before.n + i)) size.bytes).length =
          (textOf (parts bytes)).length ∧
        Stdio.HoldsPrefix size.bytes (text ++ textOf (parts bytes))
          ⟨buf.cells, before.n + (textOf (parts bytes)).length⟩ ∧
        buf.cells (before.n + (textOf (parts bytes)).length) = 0 ∧
        (buf.Within (Stdio.Inside size.bytes) ↔ before.buf.Within (Stdio.Inside size.bytes)) := by
  have isSize := size.isObject
  have separated := Bytes.separated_le bytes
  have start := holds.count
  simp only at start
  rw [min_eq_left (by omega)] at start
  have rest : sub64 size.bytes (sizeT before.n) = size.bytes - text.length := by
    rw [start, sizeT_natCast (by omega), sub64_of_le (by omega) (by omega)]
  obtain ⟨buf, run, stores, truncated⟩ := Bytes.bytesToHumanReadable_of_room true isWord before.buf
    before.n (sub64 size.bytes (sizeT before.n)) (by omega) (by omega)
  have cells := truncated.cells
  have terminator := truncated.terminator
  rw [rest, min_eq_left (by omega)] at terminator
  have shown : Stdio.stringIn (fun i => buf.cells (before.n + i)) size.bytes =
      textOf (parts bytes) := by
    exact Stdio.stringIn_eq (Bytes.nul_notMem_textOf _) (by omega)
      (fun k bound => cells k bound (by omega)) terminator
  refine ⟨buf, run, congrArg List.length shown, ⟨?_, ?_⟩, terminator, ?_⟩
  · simp only [List.length_append, start]
    rw [min_eq_left (by omega)]
    push_cast
    rfl
  · intro k bound inside
    simp only
    by_cases front : k < text.length
    · have kept := holds.cells k front inside
      rw [stores.front k (by omega), List.getElem_append_left front]
      exact kept
    · rw [List.length_append] at bound
      have address : (k : ℤ) = before.n + (k - text.length : ℕ) := by omega
      rw [address, cells _ (by omega) (by omega), List.getElem_append_right (by omega)]
  · constructor
    · exact fun within stored mem => within stored (bytesToHumanReadable_footprint run mem)
    · intro within stored mem
      rcases stores.footprint stored mem with between | old
      · constructor <;> omega
      · exact within stored old

variable {memory : Memory} {fuel : ℕ} {statics : ℤ → UInt8}

theorem argOf_eq (format : String) {arg : PrintArg} (short : ArgShort arg) :
    argOf memory fuel statics format arg = .ok (argValue memory fuel format arg) := by
  cases arg with
  | number value =>
      simp only [argOf, argValue]
      split <;> rfl
  | string pointer => rfl
  | literal text => rfl
  | name enumeration value =>
      have same : enumeration.toString statics value =
          ⟨enumeration.text value, enumeration.text_noNul value⟩ := by
        rw [CString.mk.injEq]
        exact enumeration.toString_chars statics value
      simp only [argOf, argValue, same]
  | byteCount bytes =>
      rcases short with ⟨isWord, fits⟩
      have separated := Bytes.separated_le bytes
      obtain ⟨buf2, run, -, truncated⟩ := Bytes.bytesToHumanReadable_of_room true isWord
        (.fresh statics) 0 32 (by decide) (by omega)
      have text : Stdio.stringIn buf2.cells 32 = textOf (parts bytes) := by
        rw [truncated.stringIn_eq_take (by decide) (Bytes.nul_notMem_textOf _),
          List.take_of_length_le (by omega)]
      simp only [argOf, argValue, run, Fallible.ok_bind, text]
      rfl

theorem mapM_argOf (format : String) {args : List PrintArg} (short : ∀ arg ∈ args, ArgShort arg) :
    args.mapM (argOf memory fuel statics format) =
      .ok (args.map (argValue memory fuel format)) := by
  induction args with
  | nil => rfl
  | cons arg args ih =>
      rw [List.forall_mem_cons] at short
      rw [List.mapM_cons, argOf_eq format short.1, ih short.2]
      rfl

/-- What one event does to a buffer that holds a text. -/
theorem carryOut_holds {size : BufferSize} (nonempty : 1 ≤ size.bytes)
    (small : size.bytes < 2 ^ 31) {text : List UInt8} {before : Description}
    (holds : Stdio.HoldsPrefix size.bytes text ⟨before.buf.cells, before.n⟩)
    (terminated : text ≠ [] → before.buf.cells before.n = 0) {event : Event}
    (formatted : Formatted memory fuel event) (room : HasRoom size.bytes text.length event)
    (fits : (text ++ eventText memory fuel event).length < 2 ^ 31) :
    ∃ after, before.carryOut memory fuel statics size event = .ok after ∧
      Stdio.HoldsPrefix size.bytes (text ++ eventText memory fuel event)
        ⟨after.buf.cells, after.n⟩ ∧
      (text ++ eventText memory fuel event ≠ [] → after.buf.cells after.n = 0) ∧
      (after.buf.Within (Stdio.Inside size.bytes) ↔
        before.buf.Within (Stdio.Inside size.bytes) ∧
          StartsInside memory fuel size.bytes text.length event) := by
  rw [List.length_append] at fits
  cases event with
  | field place =>
      rw [eventText, List.append_nil]
      exact ⟨before, rfl, holds, terminated, (and_iff_left trivial).symm⟩
  | character address =>
      rw [eventText, List.append_nil]
      exact ⟨before, rfl, holds, terminated, (and_iff_left trivial).symm⟩
  | ksnprintf format args =>
      rcases formatted with ⟨matching, short⟩
      simp only [eventText] at fits
      rcases ksnprintfAt_appends nonempty small holds matching (by omega) with
        ⟨buf, count, run, next, terminator, within⟩
      refine ⟨⟨buf, int32 (before.n + count)⟩, ?_, next, fun _ => terminator, within⟩
      simp only [appendOf] at run
      simp only [Description.carryOut, mapM_argOf format short, Fallible.ok_bind, run]
      rfl
  | bytesToHumanReadable bytes =>
      have start := holds.count
      simp only [eventText, HasRoom, Formatted] at fits room formatted ⊢
      rcases bytesToHumanReadable_appends small holds formatted room with
        ⟨buf, run, shown, next, terminator, within⟩
      have counted : int32 (before.n + int32 ((textOf (parts bytes)).length : ℕ)) =
          before.n + (textOf (parts bytes)).length := by
        simp only at start
        rw [@int32_of_fits ((textOf (parts bytes)).length : ℕ) (by omega) (by omega),
          int32_of_fits (by omega) (by omega)]
      refine ⟨⟨buf, before.n + (textOf (parts bytes)).length⟩, ?_, next, fun _ => terminator, ?_⟩
      · simp only [Description.carryOut, run, Fallible.ok_bind, shown, counted]
        rfl
      · exact within.trans (and_iff_left trivial).symm

theorem foldlM_carryOut {size : BufferSize} (nonempty : 1 ≤ size.bytes)
    (small : size.bytes < 2 ^ 31) {text : List UInt8} {before : Description}
    (holds : Stdio.HoldsPrefix size.bytes text ⟨before.buf.cells, before.n⟩)
    (terminated : text ≠ [] → before.buf.cells before.n = 0) {events : List Event}
    (formatted : ∀ event ∈ events, Formatted memory fuel event)
    (room : Along memory fuel (HasRoom size.bytes) text.length events)
    (fits : (text ++ description memory fuel events).length < 2 ^ 31) :
    ∃ after, events.foldlM (Description.carryOut memory fuel statics size) before = .ok after ∧
      Stdio.HoldsPrefix size.bytes (text ++ description memory fuel events)
        ⟨after.buf.cells, after.n⟩ ∧
      (text ++ description memory fuel events ≠ [] → after.buf.cells after.n = 0) ∧
      (after.buf.Within (Stdio.Inside size.bytes) ↔
        before.buf.Within (Stdio.Inside size.bytes) ∧
          Along memory fuel (StartsInside memory fuel size.bytes) text.length events) := by
  induction events generalizing text before with
  | nil =>
      simp only [description, List.flatMap_nil, List.append_nil]
      exact ⟨before, rfl, holds, terminated, (and_iff_left trivial).symm⟩
  | cons event events ih =>
      have split : text ++ description memory fuel (event :: events) =
          (text ++ eventText memory fuel event) ++ description memory fuel events := by
        rw [description, List.flatMap_cons, List.append_assoc]
        rfl
      rw [split] at fits ⊢
      rw [List.forall_mem_cons] at formatted
      rcases room with ⟨here, later⟩
      have first : (text ++ eventText memory fuel event).length < 2 ^ 31 :=
        (List.length_append ▸ Nat.le_add_right _ _).trans_lt fits
      rw [← List.length_append] at later
      rcases carryOut_holds nonempty small holds terminated formatted.1 here first with
        ⟨next, step, nextHolds, nextTerminated, within⟩
      rcases ih nextHolds nextTerminated formatted.2 later fits with
        ⟨after, run, afterHolds, afterTerminated, rest⟩
      refine ⟨after, ?_, afterHolds, afterTerminated, ?_⟩
      · rw [List.foldlM_cons, step]
        exact run
      · rw [rest, within, and_assoc, List.length_append]
        rfl

/-- A description that fits starts all of its parts inside of the buffer. -/
theorem startsInside_of_fits {size count : ℕ} {events : List Event}
    (fits : count + (description memory fuel events).length < size) :
    Along memory fuel (StartsInside memory fuel size) count events := by
  induction events generalizing count with
  | nil => trivial
  | cons event events ih =>
      rw [description, List.flatMap_cons, List.length_append] at fits
      refine ⟨?_, ih (by rw [description]; omega)⟩
      cases event with
      | ksnprintf format args =>
          refine Panic.startsBefore_of_length ?_
          simp only [eventText] at fits
          change (Stdio.rendering true _ _).length ≤ _
          simp only [Stdio.Append.text, appendOf] at fits
          omega
      | _ => trivial

end Dvnetos.Smbios
