import Dvnetos.Framebuffer.VirtualConsole
import Dvnetos.Serial.SerialPort
import Dvnetos.Utils.StdioTruncation

/-!
# Panics

This file models `panic` and `dumpStack` of `utils/panic.cpp` with the log that they
write to, on aarch64. A text goes to the serial port before it is shown, and the port
panics itself if its buffer is full. Such a panic halts exactly if the log has room
for all that it prints.
-/

namespace Dvnetos.Panic

open Word Console SerialPort
open Stdio (Arg CString chr)

/-- The default console and the default port. -/
structure Log where
  console : VirtualConsole
  port : Serial

/-- The assertion in `write` has failed, with `frames` return addresses on the stack since. -/
structure Nested where
  call : PanicCall
  frames : List UInt64
  log : Log

/-- What the compiled code leaves on the stack. -/
structure Machine where
  /-- The contents of `buf` in `appendFormattedText`. -/
  buf : ℤ → UInt8
  /-- The address in `panic` that `dumpStack` returns to. -/
  dumpReturn : UInt64
  /-- The return addresses from the text in `panic` to a panic in `write`. -/
  messageFrames : List UInt64
  /-- The return addresses from a line in `dumpStack` to a panic in `write`. -/
  traceFrames : List UInt64

/-- `kprintf(format, args)`, which hands the text to the port first. -/
def kprintf (machine : Machine) (frames : List UInt64) (format : CString) (args : List Arg)
    (log : Log) : Except Nested Log :=
  match log.port.write (VirtualConsole.formattedText machine.buf format args).chars with
  | .ok port => .ok { port, console := log.console.appendFormattedText machine.buf format args }
  | .error call => .error { call, frames, log }

/-- `"%p\n"`. -/
def pointerFormat : CString := ⟨"%p\n".toList.map chr, by decide⟩

/-- `"%s:%d: %s\n"`. -/
def panicFormat : CString := ⟨"%s:%d: %s\n".toList.map chr, by decide⟩

/-- The loop of `dumpStack` over the return addresses in the frames on the stack. -/
def dumpStack (machine : Machine) (frames : List UInt64) : ℤ → List UInt64 → Log →
    Except Nested Log
  | _, [], log => .ok log
  | drop, return_address :: stack, log =>
      if drop = 0 ∧ return_address ≠ 0 then do
        let log ← kprintf machine frames pointerFormat [.pointer return_address.toBitVec] log
        dumpStack machine frames drop stack log
      else dumpStack machine frames (int32 (drop - 1)) stack log

/-- The arguments of the message of a panic. -/
def messageArgs (call : PanicCall) : List Arg :=
  [.string (some call.file), .int call.line.toBitVec, .string (some call.msg)]

/-- Both prints of `panic`. -/
def report (machine : Machine) (call : PanicCall) (stack : List UInt64) (log : Log) :
    Except Nested Log := do
  let log ← kprintf machine machine.messageFrames panicFormat (messageArgs call) log
  dumpStack machine (machine.traceFrames ++ [machine.dumpReturn]) 1 (machine.dumpReturn :: stack)
    log

/-- How a panic ends. -/
inductive Outcome where
  /-- `halt()` has been reached. -/
  | halted (log : Log)
  /-- There are more nested panics than the model was given fuel for. -/
  | running

/-- `panic(file, line, msg)`, called with these return addresses on the stack. -/
def panic (machine : Machine) : ℕ → PanicCall → List UInt64 → Log → Outcome
  | 0, _, _, _ => .running
  | fuel + 1, call, stack, log =>
      match report machine call stack log with
      | .ok log => .halted log
      | .error nested => panic machine fuel nested.call (nested.frames ++ stack) nested.log

/-- The call reaches `halt()` after finitely many nested calls. -/
def Halts (machine : Machine) (call : PanicCall) (stack : List UInt64) (log : Log) : Prop :=
  ∃ fuel final, panic machine fuel call stack log = .halted final

/-- Up to the size of `buf`, the text is the rendering. -/
theorem formattedText_chars (buf : ℤ → UInt8) {format : CString} {args : List Arg}
    (matching : Stdio.Matches format.chars args)
    (fits : (Stdio.rendering true format args).length < 2 ^ 31)
    (noNul : (0 : UInt8) ∉ Stdio.rendering true format args) :
    (VirtualConsole.formattedText buf format args).chars =
      (Stdio.rendering true format args).take 1023 := by
  rcases Stdio.kvsnprintf_holds (n := ⟨1024, by decide⟩) true buf matching (by decide) fits with
    ⟨-, cells, terminator⟩
  have length : ((Stdio.rendering true format args).take 1023).length =
      min (Stdio.rendering true format args).length (1024 - 1) := by
    simp [min_comm]
  refine Stdio.stringIn_eq (fun nul => noNul (List.mem_of_mem_take nul)) (by omega) ?_
    (by rw [length]; exact terminator)
  intro k bound
  rw [length] at bound
  simpa using cells k (by omega) (show k < 1024 - 1 by omega)

theorem pointerFormat_matches (value : BitVec 64) :
    Stdio.Matches pointerFormat.chars [.pointer value] :=
  .conversion (by decide) rfl rfl (.literal (by decide) .done)

theorem panicFormat_matches (file msg : CString) (line : BitVec 32) :
    Stdio.Matches panicFormat.chars [.string (some file), .int line, .string (some msg)] := by
  refine .conversion (by decide) rfl rfl (.literal (by decide) ?_)
  refine .conversion (by decide) rfl (Or.inl ⟨Or.inl (Or.inl rfl), by decide⟩) ?_
  refine .literal (by decide) (.literal (by decide) ?_)
  exact .conversion (by decide) rfl rfl (.literal (by decide) .done)

theorem rendering_pointer (value : BitVec 64) :
    Stdio.rendering true pointerFormat [.pointer value] =
      Stdio.pointerText value ++ [chr '\n'] := rfl

/-- Sixteen hexadecimal digits behind `0x`, none of which is a NUL. -/
theorem pointerText_noNul (value : BitVec 64) : (0 : UInt8) ∉ Stdio.pointerText value := by
  have digit : ∀ nibble : BitVec 4, Stdio.hexDigit (chr 'a') (nibble.toNat : ℤ) ≠ 0 := by decide
  have nibble (shift : ℕ) :
      Stdio.hexDigit (chr 'a') (((value >>> shift) &&& 0xF).toNat : ℤ) ≠ 0 := by
    have low : ((value >>> shift) &&& 0xF).toNat = ((value >>> shift).setWidth 4).toNat := by
      simp [Nat.and_two_pow_sub_one_eq_mod _ 4]
    rw [low]
    exact digit _
  intro nul
  simp only [Stdio.pointerText, List.mem_append, List.mem_map] at nul
  rcases nul with nul | ⟨shift, -, nul⟩
  · exact absurd nul (by decide)
  · exact nibble shift nul

/-- A line of the backtrace. -/
theorem pointerLine_length (buf : ℤ → UInt8) (value : BitVec 64) :
    (VirtualConsole.formattedText buf pointerFormat [.pointer value]).chars.length = 19 := by
  have length : (Stdio.rendering true pointerFormat [.pointer value]).length = 19 := by
    simp [rendering_pointer, Stdio.pointerText, Stdio.pointerShifts]
  have noNul : (0 : UInt8) ∉ Stdio.rendering true pointerFormat [.pointer value] := by
    simpa [rendering_pointer, pointerText_noNul] using (by decide : (0 : UInt8) ≠ chr '\n')
  rw [formattedText_chars buf (pointerFormat_matches value) (by omega) noNul]
  simp [length]

/-- Neither print is stopped by its format. -/
theorem prints_return (buf : ℤ → UInt8) (call : PanicCall) (value : BitVec 64) :
    (∃ length, (Stdio.kvsnprintf true ⟨1024, by decide⟩ panicFormat (messageArgs call)
        buf).returned = .ok length) ∧
      ∃ length, (Stdio.kvsnprintf true ⟨1024, by decide⟩ pointerFormat [.pointer value]
        buf).returned = .ok length :=
  ⟨⟨_, Stdio.kvsnprintf_returned true _ (panicFormat_matches ..) buf⟩,
    ⟨_, Stdio.kvsnprintf_returned true _ (pointerFormat_matches value) buf⟩⟩

/-- The text that `panic` prints first. -/
def messageText (machine : Machine) (call : PanicCall) : CString :=
  VirtualConsole.formattedText machine.buf panicFormat (messageArgs call)

theorem bufferFull_length (machine : Machine) :
    (messageText machine Serial.bufferFull).chars.length = 94 := by
  have length : (Stdio.rendering true panicFormat (messageArgs Serial.bufferFull)).length = 94 := by
    decide
  have matching : Stdio.Matches panicFormat.chars (messageArgs Serial.bufferFull) :=
    panicFormat_matches ..
  rw [messageText, formattedText_chars machine.buf matching (by omega) (by decide)]
  simp [length]

theorem formattedText_length_lt (buf : ℤ → UInt8) (format : CString) (args : List Arg) :
    (VirtualConsole.formattedText buf format args).chars.length < 2 ^ 63 := by
  exact (Stdio.stringIn_length_le _ _).trans_lt (by norm_num)

/-- A formatted text as one that is written to the port. -/
def portText (buf : ℤ → UInt8) (format : CString) (args : List Arg) : Text where
  bytes := (VirtualConsole.formattedText buf format args).chars
  isObject := formattedText_length_lt buf format args

theorem portText_bytes (buf : ℤ → UInt8) (format : CString) (args : List Arg) :
    (portText buf format args).bytes = (VirtualConsole.formattedText buf format args).chars := rfl

/-- How many lines `dumpStack` prints. -/
def printed : ℤ → List UInt64 → ℕ
  | _, [] => 0
  | drop, return_address :: stack =>
      if drop = 0 ∧ return_address ≠ 0 then printed drop stack + 1
      else printed (int32 (drop - 1)) stack

/-- The characters that `panic` prints if nothing stops it. -/
def reportLength (machine : Machine) (call : PanicCall) (stack : List UInt64) : ℕ :=
  (messageText machine call).chars.length + 19 * printed 1 (machine.dumpReturn :: stack)

/-- The port collects texts in its buffer. -/
structure Collects (log : Log) : Prop where
  disabled : log.port.enabled = false
  used : log.port.bufferUsed ≤ log.port.bufferSize

/-- The buffer has room for this many characters more. -/
def Room (log : Log) (length : ℕ) : Prop := log.port.bufferUsed + length ≤ log.port.bufferSize

instance (log : Log) (length : ℕ) : Decidable (Room log length) :=
  inferInstanceAs (Decidable (_ ≤ _))

section

variable (machine : Machine) (frames : List UInt64) {log : Log}

theorem kprintf_of_write {format : CString} {args : List Arg} {port : Serial}
    (written : log.port.write (VirtualConsole.formattedText machine.buf format args).chars =
      .ok port) :
    kprintf machine frames format args log =
      .ok ⟨log.console.appendFormattedText machine.buf format args, port⟩ := by
  simp only [kprintf, written]

theorem kprintf_enabled (format : CString) (args : List Arg) (enabled : log.port.enabled = true) :
    ∃ next, kprintf machine frames format args log = .ok next ∧ next.port.enabled = true := by
  rcases Serial.exists_write enabled
    (VirtualConsole.formattedText machine.buf format args).chars with ⟨port, written⟩
  refine ⟨_, kprintf_of_write machine frames written, ?_⟩
  exact (Serial.write_enabled enabled written).2.2.2

theorem kprintf_of_room (format : CString) (args : List Arg) (collects : Collects log)
    (room : Room log (VirtualConsole.formattedText machine.buf format args).chars.length) :
    ∃ next, kprintf machine frames format args log = .ok next ∧ Collects next ∧
      next.port.bufferUsed = log.port.bufferUsed +
        (VirtualConsole.formattedText machine.buf format args).chars.length ∧
      next.port.bufferSize = log.port.bufferSize := by
  have written := Serial.write_of_fits (portText machine.buf format args)
    collects.disabled (by rwa [portText_bytes])
  rw [portText_bytes] at written
  refine ⟨_, kprintf_of_write machine frames written, ?_, rfl, rfl⟩
  exact ⟨collects.disabled, room⟩

theorem kprintf_of_full {format : CString} {args : List Arg} (collects : Collects log)
    (full : ¬Room log (VirtualConsole.formattedText machine.buf format args).chars.length) :
    kprintf machine frames format args log = .error ⟨Serial.bufferFull, frames, log⟩ := by
  have written := Serial.write_of_full (portText machine.buf format args)
    collects.disabled collects.used (by rw [portText_bytes]; exact not_le.mp full)
  rw [portText_bytes] at written
  simp only [kprintf, written]

theorem dumpStack_enabled (stack : List UInt64) (drop : ℤ) (enabled : log.port.enabled = true) :
    ∃ next, dumpStack machine frames drop stack log = .ok next := by
  induction stack generalizing drop log with
  | nil => exact ⟨log, rfl⟩
  | cons return_address stack ih =>
    simp only [dumpStack]
    split
    · rcases kprintf_enabled machine frames pointerFormat
        [.pointer return_address.toBitVec] enabled with ⟨next, printed, enabled⟩
      rw [printed]
      exact ih drop enabled
    · exact ih _ enabled

theorem dumpStack_of_room (stack : List UInt64) (drop : ℤ) (collects : Collects log)
    (room : Room log (19 * printed drop stack)) :
    ∃ next, dumpStack machine frames drop stack log = .ok next := by
  induction stack generalizing drop log with
  | nil => exact ⟨log, rfl⟩
  | cons return_address stack ih =>
    simp only [dumpStack]
    simp only [printed] at room
    split at room
    · have line := pointerLine_length machine.buf return_address.toBitVec
      simp only [Room] at room
      rcases kprintf_of_room machine frames pointerFormat
        [.pointer return_address.toBitVec] collects (by simp only [Room]; omega) with
        ⟨next, print, collects, used, size⟩
      rw [if_pos ‹_›, print]
      exact ih drop collects (by simp only [Room]; omega)
    · rw [if_neg ‹_›]
      exact ih _ collects room

/-- The first line that does not fit panics, and the port has no room for another line. -/
theorem dumpStack_of_full (stack : List UInt64) (drop : ℤ) (collects : Collects log)
    (full : ¬Room log (19 * printed drop stack)) :
    ∃ last, dumpStack machine frames drop stack log = .error ⟨Serial.bufferFull, frames, last⟩ ∧
      Collects last ∧ ¬Room last 19 := by
  induction stack generalizing drop log with
  | nil => exact absurd collects.used full
  | cons return_address stack ih =>
    simp only [dumpStack]
    simp only [printed] at full
    split at full
    · have line := pointerLine_length machine.buf return_address.toBitVec
      rw [if_pos ‹_›]
      by_cases room : Room log 19
      · rcases kprintf_of_room machine frames pointerFormat
          [.pointer return_address.toBitVec] collects (by rwa [line]) with
          ⟨next, print, collects, used, size⟩
        rw [print]
        refine ih drop collects ?_
        simp only [Room] at full ⊢
        omega
      · refine ⟨log, ?_, collects, room⟩
        rw [kprintf_of_full machine frames collects (by rwa [line])]
        rfl
    · rw [if_neg ‹_›]
      exact ih _ collects full

end

variable (machine : Machine) {log : Log}

theorem report_of_full {call : PanicCall} (stack : List UInt64) (collects : Collects log)
    (full : ¬Room log (messageText machine call).chars.length) :
    report machine call stack log = .error ⟨Serial.bufferFull, machine.messageFrames, log⟩ := by
  rw [report, kprintf_of_full machine machine.messageFrames collects full]
  rfl

/-- The port panics on the text of its own assertion, and each such panic leads to another one. -/
theorem panic_runsForever (stack : List UInt64) (collects : Collects log) (full : ¬Room log 94)
    (fuel : ℕ) : panic machine fuel Serial.bufferFull stack log = .running := by
  induction fuel generalizing stack with
  | zero => rfl
  | succ fuel ih =>
    rw [panic, report_of_full machine stack collects (by rwa [bufferFull_length])]
    exact ih _

theorem not_halts_bufferFull (stack : List UInt64) (collects : Collects log)
    (full : ¬Room log 94) : ¬Halts machine Serial.bufferFull stack log := by
  rintro ⟨fuel, final, halted⟩
  rw [panic_runsForever machine stack collects full] at halted
  cases halted

/-- If the report ends in a nested panic, the call halts if that panic does. -/
theorem halts_of_error {call : PanicCall} {stack : List UInt64} {nested : Nested}
    (reported : report machine call stack log = .error nested) :
    Halts machine call stack log ↔
      Halts machine nested.call (nested.frames ++ stack) nested.log := by
  constructor
  · rintro ⟨fuel, final, halted⟩
    cases fuel with
    | zero => cases halted
    | succ fuel =>
      simp only [panic, reported] at halted
      exact ⟨fuel, final, halted⟩
  · rintro ⟨fuel, final, halted⟩
    refine ⟨fuel + 1, final, ?_⟩
    simpa only [panic, reported] using halted

theorem halts_of_ok {call : PanicCall} {stack : List UInt64} {next : Log}
    (reported : report machine call stack log = .ok next) : Halts machine call stack log :=
  ⟨1, next, by simp only [panic, reported]⟩

theorem halts_of_enabled (call : PanicCall) (stack : List UInt64)
    (enabled : log.port.enabled = true) : Halts machine call stack log := by
  rcases kprintf_enabled machine machine.messageFrames panicFormat (messageArgs call) enabled with
    ⟨next, print, enabled⟩
  rcases dumpStack_enabled machine (machine.traceFrames ++ [machine.dumpReturn])
    (machine.dumpReturn :: stack) 1 enabled with ⟨last, dump⟩
  have reported : report machine call stack log = .ok last := by
    rw [report, print]
    exact dump
  exact halts_of_ok machine reported

/-- Once its first text is in the buffer, a panic halts only if its backtrace fits as well. -/
theorem halts_iff_of_room {call : PanicCall} (stack : List UInt64) (collects : Collects log)
    (room : Room log (messageText machine call).chars.length) :
    Halts machine call stack log ↔ Room log (reportLength machine call stack) := by
  rcases kprintf_of_room machine machine.messageFrames _ _ collects room with
    ⟨next, print, collectsNext, used, size⟩
  have rest : Room log (reportLength machine call stack) ↔
      Room next (19 * printed 1 (machine.dumpReturn :: stack)) := by
    simp only [Room, reportLength, used, size, messageText]
    omega
  have reported : report machine call stack log =
      dumpStack machine (machine.traceFrames ++ [machine.dumpReturn]) 1
        (machine.dumpReturn :: stack) next := by
    rw [report, print]
    rfl
  rw [rest]
  by_cases fits : Room next (19 * printed 1 (machine.dumpReturn :: stack))
  · rcases dumpStack_of_room machine (machine.traceFrames ++ [machine.dumpReturn]) _ _
      collectsNext fits with ⟨last, dump⟩
    exact iff_of_true (halts_of_ok machine (reported.trans dump)) fits
  · rcases dumpStack_of_full machine (machine.traceFrames ++ [machine.dumpReturn]) _ _
      collectsNext fits with ⟨last, dump, collectsLast, full⟩
    refine iff_of_false ?_ fits
    rw [halts_of_error machine (reported.trans dump)]
    refine not_halts_bufferFull machine _ collectsLast ?_
    simp only [Room] at full ⊢
    omega

/--
A panic reaches `halt()` exactly if the UART is enabled, or the buffer has room for
the report, or it has no room for the first text but for the report on that.
-/
theorem panic_halts_iff (reachable : log.port.Reachable) (call : PanicCall)
    (stack : List UInt64) :
    Halts machine call stack log ↔
      log.port.enabled = true ∨ Room log (reportLength machine call stack) ∨
        ¬Room log (messageText machine call).chars.length ∧
          Room log (reportLength machine Serial.bufferFull (machine.messageFrames ++ stack)) := by
  cases state : log.port.enabled with
  | true => exact iff_of_true (halts_of_enabled machine call stack state) (Or.inl rfl)
  | false =>
    have collects : Collects log := ⟨state, reachable.used⟩
    simp only [Bool.false_eq_true, false_or]
    by_cases room : Room log (messageText machine call).chars.length
    · simpa [room] using halts_iff_of_room machine stack collects room
    · have tooLong : ¬Room log (reportLength machine call stack) := by
        simp only [Room, reportLength] at room ⊢
        omega
      simp only [room, tooLong, not_false_eq_true, true_and, false_or]
      rw [halts_of_error machine (report_of_full machine stack collects room)]
      by_cases again : Room log 94
      · exact halts_iff_of_room machine _ collects (by rwa [bufferFull_length])
      · refine iff_of_false (not_halts_bufferFull machine _ collects again) ?_
        have length := bufferFull_length machine
        simp only [Room, reportLength] at again ⊢
        omega

/-- The port before its first call. -/
def newPort : Serial := Serial.create 0x9000000 (fun _ => 0) 0x10000 (by decide)

/-- A machine whose stack traces have one frame. -/
def quietMachine : Machine :=
  { buf := fun _ => 0, dumpReturn := 0x1000, messageFrames := [0x2000], traceFrames := [0x3000] }

theorem panic_halts_new :
    Halts quietMachine Serial.bufferFull [0x4000, 0x5000]
      ⟨VirtualConsole.initial fun _ => 0, newPort⟩ := by
  apply (panic_halts_iff quietMachine ⟨_, _, _, _, [], rfl⟩ Serial.bufferFull _).mpr
  refine Or.inr (Or.inl ?_)
  simp only [Room, reportLength, bufferFull_length]
  decide

/-- A machine without a UART. -/
def noUart : Serial.Boot :=
  { hhdmOffset := 0xFFFF000000000000, fr := 0, mapTexts := [], unmapTexts := [] }

theorem init_noUart :
    ∃ port, newPort.init noUart = .ok port ∧ port.enabled = false ∧ port.bufferUsed = 17 ∧
      port.bufferSize = 0x10000 := by
  have moved : newPort.init noUart =
      ({ newPort with base := newPort.base + noUart.hhdmOffset } : Serial).write
        Serial.notFoundText.bytes := rfl
  exact ⟨_, moved.trans (Serial.write_of_fits Serial.notFoundText rfl (by decide)), rfl, rfl, rfl⟩

/-- Texts that fill what `init` leaves of the buffer. -/
def bootLog : Text :=
  ⟨List.replicate 65519 (chr 'a'), List.length_replicate.trans_lt (by decide)⟩

theorem bootLog_length : bootLog.bytes.length = 65519 := List.length_replicate

attribute [irreducible] bootLog

/-- Behind 64 KiB of texts, the assertion on the next one never halts. -/
theorem panic_withoutUart :
    ∃ port, newPort.calls [.init noUart, .write bootLog] = .ok port ∧
      ∀ (machine : Machine) (console : VirtualConsole) (stack : List UInt64),
        ¬Halts machine Serial.bufferFull stack ⟨console, port⟩ := by
  rcases init_noUart with ⟨port, returned, disabled, used, size⟩
  have length := bootLog_length
  have written := Serial.write_of_fits bootLog disabled (by omega)
  have run : newPort.calls [.init noUart, .write bootLog] = port.write bootLog.bytes := by
    simp only [Serial.calls, List.foldlM_cons, List.foldlM_nil, Serial.call, returned,
      Fallible.ok_bind]
    exact bind_pure _
  refine ⟨_, run.trans written, ?_⟩
  intro machine console stack
  apply not_halts_bufferFull
  · exact ⟨disabled, by simp only; omega⟩
  · simp only [Room]
    omega

end Dvnetos.Panic
