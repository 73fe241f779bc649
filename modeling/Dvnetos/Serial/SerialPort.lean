import Dvnetos.Lib.Fallible
import Dvnetos.Lib.Word
import Dvnetos.Utils.Stdio

/-!
# The serial port

This file models `Serial` of `arch/aarch64/serial/Serial.cpp` and proves that it loses
nothing. Until `init` has found the UART, texts are collected in a buffer, which
`init` then sends. Waiting until the UART takes another byte is left out.
-/

namespace Dvnetos.SerialPort

open Word
open Stdio (CString chr)

/-- The arguments of a call of `panic`. -/
structure PanicCall where
  file : CString
  line : UInt32
  msg : CString

/-- The registers behind `base` that the port writes to. -/
inductive Register where
  | data
  | cr
  | ibrd
  | fbrd
  | lcrh
  deriving DecidableEq

/-- The members of `Serial`, and the stores to the registers so far. The buffer is an object. -/
structure Serial where
  base : UInt64
  buffer : ℕ → UInt8
  bufferSize : ℕ
  bufferUsed : ℕ
  enabled : Bool
  stores : List (Register × UInt32)
  isObject : bufferSize < 2 ^ 63

/-- A text as long as an object can be. -/
structure Text where
  bytes : List UInt8
  isObject : bytes.length < 2 ^ 63

namespace Serial

/-- A port with an empty buffer. -/
def create (base : UInt64) (buffer : ℕ → UInt8) (bufferSize : ℕ)
    (isObject : bufferSize < 2 ^ 63) : Serial :=
  { base, buffer, bufferSize, isObject, bufferUsed := 0, enabled := false, stores := [] }

/-- `*addToPointer(base, register) = value`. -/
def store (serial : Serial) (register : Register) (value : UInt32) : Serial :=
  { serial with stores := serial.stores ++ [(register, value)] }

/-- `memmove(buffer + offset, text, length)` of a text that is not in the buffer. -/
def copyTo (buffer : ℕ → UInt8) (offset : ℕ) (text : List UInt8) : ℕ → UInt8 :=
  fun address =>
    if offset ≤ address ∧ address < offset + text.length then text.getD (address - offset) 0
    else buffer address

/-- The failed `kassert` of `write`. -/
def bufferFull : PanicCall where
  file := ⟨"kernel/arch/aarch64/serial/Serial.cpp".toList.map chr, by decide⟩
  line := 52
  msg := ⟨"assertion failed: bufferUsed + length <= bufferSize".toList.map chr, by decide⟩

/--
`write(text)`: the text goes to the data register, or to the buffer before the port is enabled.
-/
def write (serial : Serial) (text : List UInt8) : Except PanicCall Serial :=
  if serial.enabled then
    .ok (text.foldl (fun serial c => serial.store .data (UInt32.ofNat c.toNat)) serial)
  else if add64 serial.bufferUsed text.length ≤ serial.bufferSize then
    .ok { serial with
      buffer := copyTo serial.buffer serial.bufferUsed text
      bufferUsed := add64 serial.bufferUsed text.length }
  else .error bufferFull

/-- The first `bufferUsed` bytes of the buffer. -/
def contents (serial : Serial) : List UInt8 := (List.range serial.bufferUsed).map serial.buffer

/-- Texts are written one after another. -/
def writes (serial : Serial) (texts : List Text) : Except PanicCall Serial :=
  texts.foldlM (fun serial text => serial.write text.bytes) serial

/-- What `init` finds, and what the calls of `mapMemory` and `unmapMemory` in it print. -/
structure Boot where
  hhdmOffset : UInt64
  /-- The value of the flag register. -/
  fr : UInt32
  mapTexts : List Text
  unmapTexts : List Text

/-- The flag register reads as neither all ones nor zero. -/
def Boot.Found (boot : Boot) : Prop := boot.fr ≠ 0xFFFFFFFF ∧ boot.fr ≠ 0

instance (boot : Boot) : Decidable boot.Found := inferInstanceAs (Decidable (_ ∧ _))

/-- What `init` prints if it finds the UART. -/
def foundText : Text := ⟨"Serial Port Found\n".toList.map chr, by decide⟩

/-- What `init` prints if it does not. -/
def notFoundText : Text := ⟨"Serial not found\n".toList.map chr, by decide⟩

/-- The stores that set up the UART. -/
def setUp (serial : Serial) : Serial :=
  ((((serial.store .cr 0).store .ibrd 26).store .fbrd 3).store .lcrh
    ((1 : UInt32) <<< 4 ||| (3 : UInt32) <<< 5)).store .cr
      ((1 : UInt32) <<< 0 ||| (1 : UInt32) <<< 8 ||| (1 : UInt32) <<< 9)

/-- `init(hhdmOffset)`, with the calls of `mapMemory` and `unmapMemory` by the texts they print. -/
def init (serial : Serial) (boot : Boot) : Except PanicCall Serial := do
  let serial ← serial.writes boot.mapTexts
  let serial := { serial with base := serial.base + boot.hhdmOffset }
  if boot.Found then
    let serial ← serial.write foundText.bytes
    let serial := { serial.setUp with enabled := true }
    let serial ← serial.write serial.contents
    return { serial with bufferUsed := 0 }
  else
    let serial ← serial.writes boot.unmapTexts
    serial.write notFoundText.bytes

/-- A call to the port. -/
inductive Call where
  | write (text : Text)
  | init (boot : Boot)

/-- The port after a call. -/
def call (serial : Serial) : Call → Except PanicCall Serial
  | .write text => serial.write text.bytes
  | .init boot => serial.init boot

/-- Calls one after another, as long as no assertion fires. -/
def calls (serial : Serial) (list : List Call) : Except PanicCall Serial := list.foldlM call serial

/-- The bytes that were stored to the data register, in order. -/
def sent (serial : Serial) : List UInt8 :=
  serial.stores.filterMap fun (register, value) =>
    if register = .data then some (UInt8.ofNat value.toNat) else none

/-- The texts that a call writes, in order, with those that `init` prints. -/
def Call.written : Call → List UInt8
  | .write text => text.bytes
  | .init boot =>
      boot.mapTexts.flatMap Text.bytes ++
        if boot.Found then foundText.bytes
        else boot.unmapTexts.flatMap Text.bytes ++ notFoundText.bytes

@[simp]
theorem sent_store_data (serial : Serial) (c : UInt8) :
    (serial.store .data (UInt32.ofNat c.toNat)).sent = serial.sent ++ [c] := by
  simp [sent, store, List.filterMap_append]

theorem sent_store_of_ne {register : Register} (ne : register ≠ .data) (serial : Serial)
    (value : UInt32) :
    (serial.store register value).sent = serial.sent := by
  simp [sent, store, List.filterMap_append, ne]

/-- An enabled port sends the text and stays as it is otherwise. -/
theorem foldl_store (text : List UInt8) (serial : Serial) :
    ∃ stores, text.foldl (fun serial c => serial.store .data (UInt32.ofNat c.toNat)) serial =
        { serial with stores } ∧
      ({ serial with stores } : Serial).sent = serial.sent ++ text := by
  induction text generalizing serial with
  | nil => exact ⟨serial.stores, by simp⟩
  | cons c text ih =>
    rcases ih (serial.store .data (UInt32.ofNat c.toNat)) with ⟨stores, run, sent⟩
    refine ⟨stores, run, sent.trans ?_⟩
    simp only [sent_store_data, List.append_assoc, List.singleton_append]

theorem write_enabled {serial result : Serial} {text : List UInt8} (enabled : serial.enabled = true)
    (written : serial.write text = .ok result) :
    result.sent = serial.sent ++ text ∧ result.contents = serial.contents ∧
      result.bufferUsed = serial.bufferUsed ∧ result.enabled = true := by
  rcases foldl_store text serial with ⟨stores, run, sent⟩
  simp only [write, enabled, if_true, run, Except.ok.injEq] at written
  subst written
  exact ⟨sent, rfl, rfl, rfl⟩

theorem exists_write {serial : Serial} (enabled : serial.enabled = true) (text : List UInt8) :
    ∃ result, serial.write text = .ok result := by
  simp [write, enabled]

/-- The copied text stands behind the bytes that were in use. -/
theorem contents_copyTo (serial : Serial) (text : List UInt8) :
    (List.range (serial.bufferUsed + text.length)).map
        (copyTo serial.buffer serial.bufferUsed text) = serial.contents ++ text := by
  apply List.ext_getElem
  · simp [contents]
  · intro index inside inside'
    simp only [List.length_map, List.length_range] at inside
    by_cases old : index < serial.bufferUsed
    · simp [contents, copyTo, old]
    · have new : index - serial.bufferUsed < text.length := by omega
      simp [contents, copyTo, new, not_lt.mp old, inside]

/-- The sum in the assertion does not wrap around. -/
theorem add64_used {serial : Serial} (used : serial.bufferUsed ≤ serial.bufferSize) (text : Text) :
    add64 serial.bufferUsed text.bytes.length = serial.bufferUsed + text.bytes.length := by
  have size := serial.isObject
  have length := text.isObject
  exact Nat.mod_eq_of_lt (by omega)

theorem write_of_fits {serial : Serial} (text : Text) (disabled : serial.enabled = false)
    (fits : serial.bufferUsed + text.bytes.length ≤ serial.bufferSize) :
    serial.write text.bytes = .ok { serial with
      buffer := copyTo serial.buffer serial.bufferUsed text.bytes
      bufferUsed := serial.bufferUsed + text.bytes.length } := by
  have noWrap := add64_used (show serial.bufferUsed ≤ serial.bufferSize by omega) text
  simp [write, disabled, noWrap, fits]

theorem write_of_full {serial : Serial} (text : Text) (disabled : serial.enabled = false)
    (used : serial.bufferUsed ≤ serial.bufferSize)
    (full : serial.bufferSize < serial.bufferUsed + text.bytes.length) :
    serial.write text.bytes = .error bufferFull := by
  simp [write, disabled, add64_used used text, not_le.mpr full]

theorem write_disabled {serial result : Serial} {text : Text} (disabled : serial.enabled = false)
    (used : serial.bufferUsed ≤ serial.bufferSize)
    (written : serial.write text.bytes = .ok result) :
    result.sent = serial.sent ∧ result.contents = serial.contents ++ text.bytes ∧
      result.bufferUsed ≤ result.bufferSize ∧ result.enabled = false := by
  rcases Nat.lt_or_ge serial.bufferSize (serial.bufferUsed + text.bytes.length) with full | fits
  · rw [write_of_full text disabled used full] at written
    cases written
  · rw [write_of_fits text disabled fits] at written
    cases written
    exact ⟨rfl, contents_copyTo serial text.bytes, fits, disabled⟩

/-- Nothing of the text is lost, and an enabled port has sent all of it. -/
structure Kept (serial : Serial) (text : List UInt8) : Prop where
  all : serial.sent ++ serial.contents = text
  used : serial.bufferUsed ≤ serial.bufferSize
  empty : serial.enabled = true → serial.bufferUsed = 0

theorem contents_nil {serial : Serial} (empty : serial.bufferUsed = 0) : serial.contents = [] := by
  simp [contents, empty]

theorem write_keeps {serial result : Serial} {before : List UInt8} {text : Text}
    (kept : serial.Kept before) (written : serial.write text.bytes = .ok result) :
    result.Kept (before ++ text.bytes) ∧ result.enabled = serial.enabled := by
  cases state : serial.enabled with
  | true =>
    have empty := kept.empty state
    rcases write_enabled state written with ⟨sent, contents, used, enabled⟩
    refine ⟨⟨?_, by omega, fun _ => by omega⟩, enabled⟩
    rw [sent, contents, ← kept.all, contents_nil empty]
    simp
  | false =>
    rcases write_disabled state kept.used written with ⟨sent, contents, used, disabled⟩
    refine ⟨⟨?_, used, fun enabled => by simp [disabled] at enabled⟩, disabled⟩
    rw [sent, contents, ← kept.all, List.append_assoc]

theorem writes_keeps {texts : List Text} {serial result : Serial} {before : List UInt8}
    (kept : serial.Kept before) (written : serial.writes texts = .ok result) :
    result.Kept (before ++ texts.flatMap Text.bytes) ∧ result.enabled = serial.enabled := by
  induction texts generalizing serial before with
  | nil =>
    cases written
    simpa using kept
  | cons text texts ih =>
    rcases Fallible.bind_eq_ok_iff.mp written with ⟨middle, first, rest⟩
    rcases write_keeps kept first with ⟨keptMiddle, same⟩
    rcases ih keptMiddle rest with ⟨keptResult, sameResult⟩
    refine ⟨?_, sameResult.trans same⟩
    simpa using keptResult

@[simp]
theorem sent_setUp (serial : Serial) : serial.setUp.sent = serial.sent := by
  have ne {register : Register} (register_ne : register ≠ .data) := sent_store_of_ne register_ne
  simp only [setUp]
  rw [ne (by decide), ne (by decide), ne (by decide), ne (by decide), ne (by decide)]

/-- The buffer is sent once more by the write that `init` makes, and dropped after it. -/
theorem init_keeps {serial result : Serial} {before : List UInt8} {boot : Boot}
    (kept : serial.Kept before) (returned : serial.init boot = .ok result) :
    result.Kept (before ++ Call.written (.init boot)) ∧
      result.enabled = (serial.enabled || decide boot.Found) := by
  rcases Fallible.bind_eq_ok_iff.mp returned with ⟨mapped, mapping, rest⟩
  rcases writes_keeps kept mapping with ⟨keptMapped, sameMapped⟩
  have keptMoved : ({ mapped with base := mapped.base + boot.hhdmOffset } : Serial).Kept
      (before ++ boot.mapTexts.flatMap Text.bytes) :=
    ⟨keptMapped.all, keptMapped.used, keptMapped.empty⟩
  by_cases found : boot.Found
  · simp only [found, if_true] at rest
    rcases Fallible.bind_eq_ok_iff.mp rest with ⟨announced, announcing, rest⟩
    rcases Fallible.bind_eq_ok_iff.mp rest with ⟨replayed, replaying, rest⟩
    cases rest
    rcases write_keeps keptMoved announcing with ⟨keptAnnounced, -⟩
    rcases write_enabled (by rfl) replaying with ⟨replay, -, -, enabled⟩
    -- What was in the buffer has gone to the data register, behind what was sent before.
    have everything : replayed.sent = announced.sent ++ announced.contents := by
      rw [replay, ← sent_setUp announced]
      rfl
    have all := keptAnnounced.all
    rw [← everything] at all
    constructor
    · apply Kept.mk
      · simpa [sent, contents, Call.written, found] using all
      · exact Nat.zero_le _
      · exact fun _ => rfl
    · simpa [found] using enabled
  · simp only [found, if_false] at rest
    rcases Fallible.bind_eq_ok_iff.mp rest with ⟨unmapped, unmapping, announcing⟩
    rcases writes_keeps keptMoved unmapping with ⟨keptUnmapped, sameUnmapped⟩
    rcases write_keeps keptUnmapped announcing with ⟨keptResult, sameResult⟩
    refine ⟨by simpa [Call.written, found] using keptResult, ?_⟩
    simpa [found] using sameResult.trans (sameUnmapped.trans sameMapped)

/-- Whether the call is an `init` that finds the UART. -/
def Call.finds : Call → Bool
  | .write _ => false
  | .init boot => boot.Found

theorem call_keeps {serial result : Serial} {before : List UInt8} {action : Call}
    (kept : serial.Kept before) (returned : serial.call action = .ok result) :
    result.Kept (before ++ action.written) ∧ result.enabled = (serial.enabled || action.finds) := by
  cases action with
  | write text => simpa [Call.finds, Call.written] using write_keeps kept returned
  | init boot => exact init_keeps kept returned

theorem calls_keeps {list : List Call} {serial result : Serial} {before : List UInt8}
    (kept : serial.Kept before) (returned : serial.calls list = .ok result) :
    result.Kept (before ++ list.flatMap Call.written) ∧
      result.enabled = (serial.enabled || list.any Call.finds) := by
  induction list generalizing serial before with
  | nil =>
    cases returned
    simpa using kept
  | cons action list ih =>
    rcases Fallible.bind_eq_ok_iff.mp returned with ⟨middle, first, rest⟩
    rcases call_keeps kept first with ⟨keptMiddle, enabledMiddle⟩
    rcases ih keptMiddle rest with ⟨keptResult, enabledResult⟩
    refine ⟨by simpa using keptResult, ?_⟩
    rw [enabledResult, enabledMiddle, List.any_cons, Bool.or_assoc]

theorem create_kept (base : UInt64) (buffer : ℕ → UInt8) (bufferSize : ℕ)
    (isObject : bufferSize < 2 ^ 63) : (create base buffer bufferSize isObject).Kept [] :=
  ⟨rfl, Nat.zero_le _, fun _ => rfl⟩

/-- Some calls to a new port have led to this one. -/
def Reachable (serial : Serial) : Prop :=
  ∃ (base : UInt64) (buffer : ℕ → UInt8) (bufferSize : ℕ) (isObject : bufferSize < 2 ^ 63)
    (list : List Call), (create base buffer bufferSize isObject).calls list = .ok serial

theorem Reachable.used {serial : Serial} (reachable : serial.Reachable) :
    serial.bufferUsed ≤ serial.bufferSize := by
  rcases reachable with ⟨base, buffer, bufferSize, isObject, list, returned⟩
  exact (calls_keeps (create_kept base buffer bufferSize isObject) returned).1.used

/-- As long as no assertion fires, the bytes sent and the bytes in the buffer are those written. -/
theorem calls_loseNothing {base : UInt64} {buffer : ℕ → UInt8} {bufferSize : ℕ}
    {isObject : bufferSize < 2 ^ 63} {list : List Call} {serial : Serial}
    (returned : (create base buffer bufferSize isObject).calls list = .ok serial) :
    serial.sent ++ serial.contents = list.flatMap Call.written ∧
      ∀ boot : Boot, Call.init boot ∈ list → boot.Found →
        serial.bufferUsed = 0 ∧ serial.sent = list.flatMap Call.written := by
  rcases calls_keeps (create_kept base buffer bufferSize isObject) returned with ⟨kept, enabled⟩
  have all : serial.sent ++ serial.contents = list.flatMap Call.written := by
    simpa using kept.all
  refine ⟨all, ?_⟩
  intro boot mem found
  have finds : list.any Call.finds = true :=
    List.any_eq_true.mpr ⟨.init boot, mem, decide_eq_true found⟩
  have empty : serial.bufferUsed = 0 := kept.empty (by simp [enabled, finds])
  refine ⟨empty, ?_⟩
  simpa [contents_nil empty] using all

/-- A text before and a text after an `init` that finds the UART. -/
def earlyAndLate : List Call :=
  [.write ⟨"Paging\n".toList.map chr, by decide⟩,
    .init { hhdmOffset := 0xFFFF000000000000, fr := 0x90, mapTexts := [], unmapTexts := [] },
    .write ⟨"Done\n".toList.map chr, by decide⟩]

theorem calls_loseNothing_earlyAndLate :
    ∃ serial, (create 0x9000000 (fun _ => 0) 64 (by decide)).calls earlyAndLate = .ok serial ∧
      serial.bufferUsed = 0 ∧
      serial.sent = "Paging\nSerial Port Found\nDone\n".toList.map chr := by
  rcases Fallible.exists_of_isOk (show ((create 0x9000000 (fun _ => 0) 64 (by decide)).calls
    earlyAndLate).isOk = true by decide) with ⟨serial, returned⟩
  refine ⟨serial, returned, ?_⟩
  exact (calls_loseNothing returned).2 _ (List.mem_cons_of_mem _ (List.mem_cons_self ..))
    (by decide)

end Serial

end Dvnetos.SerialPort
