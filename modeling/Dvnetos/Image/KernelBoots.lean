import Dvnetos.Serial.BootLog
import Mathlib.Data.List.Infix

/-!
# The boot test

This file models `wait_for_output` of `image/kernel-boots.py`, which follows the file that the
emulator writes what the serial port sends to, while the kernel boots. It opens the file in text
mode, which leaves ASCII without carriage returns as it is; on other bytes the model gives up. For
such logs, however the file grows between two reads, and wherever its lines are cut, the test
succeeds exactly if the whole log has the text that it waits for. For a kernel that boots on
aarch64 this means: if the port finds the UART.
-/

namespace Dvnetos.KernelBoots

open BootLog (Boot Line Log)
open SerialPort (Serial)
open Stdio (CString chr)

/-- The text that the test waits for. -/
def startComplete : List UInt8 := "start complete".toList.map chr

/-- The characters up to the first newline, which is the last of them. -/
def firstLine : List UInt8 → List UInt8
  | [] => []
  | c :: rest => if c = chr '\n' then [c] else c :: firstLine rest

/-- A byte that is a character of its own and stays as it is in text mode. -/
def Plain (c : UInt8) : Prop := c.toNat < 128 ∧ c ≠ chr '\r'

instance : DecidablePred Plain := fun _ => inferInstanceAs (Decidable (_ ∧ _))

/--
`serial_log.readline()`, with what is in the file at that time, which is read ahead of the line.
If not all of that is plain, what the line is depends on how it is decoded.
-/
def readline (serial_log : List UInt8) (position : ℕ) : Option (List UInt8) :=
  if (serial_log.drop position).all fun c => Plain c then
    some (firstLine (serial_log.drop position))
  else none

/-- The position in the file, and what has been read before it. -/
structure Reader where
  position : ℕ
  serial_output : List UInt8

/-- The file has just been opened. -/
def Reader.opened : Reader := ⟨0, []⟩

/-- How `wait_for_output` ends. -/
inductive Outcome where
  | complete (serial_output : List UInt8)
  /-- The file has bytes that are not plain: what the test does with them is not modelled. -/
  | undecoded (serial_output : List UInt8)
  /-- The test raises a `TimeoutError`. -/
  | timeout (serial_output : List UInt8)

/-- The loop of `wait_for_output`, on the contents of the file at each read before the timeout. -/
def waitForOutput : List (List UInt8) → Reader → Outcome
  | [], reader => .timeout reader.serial_output
  | serial_log :: later, reader =>
      match readline serial_log reader.position with
      | none => .undecoded reader.serial_output
      | some line =>
          if line = [] then waitForOutput later reader
          else
            let reader : Reader :=
              ⟨reader.position + line.length, reader.serial_output ++ line⟩
            if startComplete <:+: reader.serial_output then .complete reader.serial_output
            else waitForOutput later reader

/-- The test succeeds. -/
def Outcome.Completes : Outcome → Prop
  | .complete _ => True
  | .undecoded _ => False
  | .timeout _ => False

theorem firstLine_prefix (text : List UInt8) : firstLine text <+: text := by
  induction text with
  | nil => exact List.prefix_refl _
  | cons c rest ih =>
      rw [firstLine]
      split
      · exact List.prefix_append [c] rest
      · exact List.cons_prefix_cons.mpr ⟨rfl, ih⟩

theorem firstLine_eq_nil_iff {text : List UInt8} : firstLine text = [] ↔ text = [] := by
  cases text with
  | nil => simp [firstLine]
  | cons c rest =>
      rw [firstLine]
      split <;> simp

/-- Behind the first line there is one line fewer, or nothing. -/
theorem drop_firstLine (text : List UInt8) :
    text.drop (firstLine text).length = [] ∨
      (text.drop (firstLine text).length).count (chr '\n') < text.count (chr '\n') := by
  induction text with
  | nil => exact Or.inl rfl
  | cons c rest ih =>
      rw [firstLine]
      split
      · next newline => exact Or.inr (by simp [newline])
      · next other =>
          simp only [List.length_cons, List.drop_succ_cons, List.count_cons_of_ne other]
          exact ih

/-- What has been read of the file is what is in it before the position. -/
structure Follows (reader : Reader) (serial_log : List UInt8) : Prop where
  inside : reader.position ≤ serial_log.length
  output : reader.serial_output = serial_log.take reader.position

section Follows

variable {reader : Reader} {serial_log later : List UInt8}

theorem follows_opened (serial_log : List UInt8) : Follows .opened serial_log :=
  ⟨Nat.zero_le _, rfl⟩

theorem Follows.grow (follows : Follows reader serial_log) (grows : serial_log <+: later) :
    Follows reader later := by
  rcases grows with ⟨added, rfl⟩
  constructor
  · rw [List.length_append]
    exact Nat.le_add_right_of_le follows.inside
  · rw [follows.output, List.take_append_of_le_length follows.inside]

/-- The reader behind the next line. -/
def Reader.next (reader : Reader) (serial_log : List UInt8) : Reader where
  position := reader.position + (firstLine (serial_log.drop reader.position)).length
  serial_output := reader.serial_output ++ firstLine (serial_log.drop reader.position)

theorem Follows.next (follows : Follows reader serial_log) :
    Follows (reader.next serial_log) serial_log := by
  have isPrefix := firstLine_prefix (serial_log.drop reader.position)
  have length := isPrefix.length_le
  rw [List.length_drop] at length
  constructor
  · have inside := follows.inside
    simp only [Reader.next]
    omega
  · simp only [Reader.next, follows.output, List.take_add]
    rw [← List.prefix_iff_eq_take.mp isPrefix]

/-- A read of a file in which all bytes are plain. -/
theorem waitForOutput_cons (reader : Reader) (rest : List (List UInt8))
    (plain : ∀ c ∈ serial_log, Plain c) :
    waitForOutput (serial_log :: rest) reader =
      if serial_log.drop reader.position = [] then waitForOutput rest reader
      else if startComplete <:+: (reader.next serial_log).serial_output then
        .complete (reader.next serial_log).serial_output
      else waitForOutput rest (reader.next serial_log) := by
  have decoded : readline serial_log reader.position =
      some (firstLine (serial_log.drop reader.position)) :=
    if_pos (List.all_eq_true.mpr fun c member =>
      decide_eq_true (plain c (List.mem_of_mem_drop member)))
  rw [waitForOutput, decoded]
  exact if_congr firstLine_eq_nil_iff rfl rfl

end Follows

/-- What the test accepts is in the file. -/
theorem startComplete_of_completes {logs : List (List UInt8)} {reader : Reader}
    {final : List UInt8} (grows : (logs ++ [final]).Pairwise (· <+: ·))
    (follows : ∀ serial_log ∈ logs ++ [final], Follows reader serial_log)
    (plain : ∀ serial_log ∈ logs, ∀ c ∈ serial_log, Plain c)
    (completes : (waitForOutput logs reader).Completes) : startComplete <:+: final := by
  induction logs generalizing reader with
  | nil => exact completes.elim
  | cons serial_log rest ih =>
      rw [List.cons_append] at grows follows
      have here := follows serial_log (List.mem_cons_self ..)
      rcases List.pairwise_cons.mp grows with ⟨before, later⟩
      have after : ∀ other ∈ rest ++ [final], Follows (reader.next serial_log) other :=
        fun other member => here.next.grow (before other member)
      have plainLater : ∀ other ∈ rest, ∀ c ∈ other, Plain c :=
        fun other member => plain other (List.mem_cons_of_mem _ member)
      rw [waitForOutput_cons _ _ (plain serial_log (List.mem_cons_self ..))] at completes
      split_ifs at completes with atEnd found
      · exact ih later (fun other member => follows other (List.mem_cons_of_mem _ member))
          plainLater completes
      · rw [(after final (by simp)).output] at found
        exact found.trans (List.take_prefix _ _).isInfix
      · exact ih later after plainLater completes

/-- Once the whole log is in the file, one read for each of its lines is enough. -/
theorem completes_of_startComplete {final : List UInt8} (has : startComplete <:+: final)
    (plain : ∀ c ∈ final, Plain c) {reader : Reader} (follows : Follows reader final)
    (notYet : ¬startComplete <:+: reader.serial_output) {reads : ℕ}
    (enough : (final.drop reader.position).count (chr '\n') < reads) :
    (waitForOutput (List.replicate reads final) reader).Completes := by
  induction reads generalizing reader with
  | zero => exact absurd enough (Nat.not_lt_zero _)
  | succ reads ih =>
      have more (other : Reader) (otherFollows : Follows other final)
          (otherNotYet : ¬startComplete <:+: other.serial_output) :
          final.drop other.position ≠ [] := by
        intro atEnd
        have all := List.take_of_length_le (List.drop_eq_nil_iff.mp atEnd)
        rw [otherFollows.output, all] at otherNotYet
        exact otherNotYet has
      rw [List.replicate_succ, waitForOutput_cons _ _ plain, if_neg (more reader follows notYet)]
      split_ifs with found
      · trivial
      · apply ih follows.next found
        have fewer := (drop_firstLine (final.drop reader.position)).resolve_left (by
          rw [List.drop_drop]
          exact more _ follows.next found)
        rw [List.drop_drop] at fewer
        exact Nat.lt_of_lt_of_le fewer (Nat.le_of_lt_succ enough)

/-- The same after any reads of a file that grows to the whole log. -/
theorem completes_of_grows {logs : List (List UInt8)} {final : List UInt8}
    (has : startComplete <:+: final) (plain : ∀ c ∈ final, Plain c) {reader : Reader}
    (grows : (logs ++ [final]).Pairwise (· <+: ·))
    (follows : ∀ serial_log ∈ logs ++ [final], Follows reader serial_log)
    (notYet : ¬startComplete <:+: reader.serial_output) {reads : ℕ}
    (enough : (final.drop reader.position).count (chr '\n') < reads) :
    (waitForOutput (logs ++ List.replicate reads final) reader).Completes := by
  induction logs generalizing reader with
  | nil => exact completes_of_startComplete has plain (follows final (by simp)) notYet enough
  | cons serial_log rest ih =>
      rw [List.cons_append] at grows follows
      have here := follows serial_log (List.mem_cons_self ..)
      rcases List.pairwise_cons.mp grows with ⟨before, later⟩
      have inFinal : serial_log <+: final := before final (by simp)
      rw [List.cons_append, waitForOutput_cons _ _ fun c member => plain c (inFinal.subset member)]
      split_ifs with atEnd found
      · exact ih later (fun other member => follows other (List.mem_cons_of_mem _ member)) notYet
          enough
      · trivial
      · refine ih later (fun other member => here.next.grow (before other member)) found ?_
        have fewer := (List.drop_sublist (firstLine (serial_log.drop reader.position)).length
          (final.drop reader.position)).count_le (chr '\n')
        rw [List.drop_drop] at fewer
        exact Nat.lt_of_le_of_lt fewer enough

/--
Whatever the file holds at the reads before, and wherever its lines are cut: if the test still
reads more often than the whole log has lines, it succeeds exactly if the text is in the log.
-/
theorem waitForOutput_completes_iff {logs : List (List UInt8)} {final : List UInt8}
    (grows : (logs ++ [final]).Pairwise (· <+: ·)) (plain : ∀ c ∈ final, Plain c) {reads : ℕ}
    (enough : final.count (chr '\n') < reads) :
    (waitForOutput (logs ++ List.replicate reads final) .opened).Completes ↔
      startComplete <:+: final := by
  rcases List.pairwise_append.mp grows with ⟨among, -, before⟩
  constructor
  · intro completes
    have allGrow : ((logs ++ List.replicate reads final) ++ [final]).Pairwise (· <+: ·) := by
      rw [List.append_assoc, ← List.replicate_succ']
      refine List.pairwise_append.mpr ⟨among, ?_, ?_⟩
      · exact List.pairwise_replicate.mpr (Or.inr (List.prefix_refl final))
      · intro serial_log member other same
        rw [List.eq_of_mem_replicate same]
        exact before serial_log member final (List.mem_singleton_self final)
    have allPlain : ∀ serial_log ∈ logs ++ List.replicate reads final, ∀ c ∈ serial_log,
        Plain c := by
      intro serial_log member c inLog
      rcases List.mem_append.mp member with early | last
      · have inFinal := before serial_log early final (List.mem_singleton_self final)
        exact plain c (inFinal.subset inLog)
      · rw [List.eq_of_mem_replicate last] at inLog
        exact plain c inLog
    exact startComplete_of_completes allGrow (fun serial_log _ => follows_opened serial_log)
      allPlain completes
  · intro has
    exact completes_of_grows has plain grows (fun serial_log _ => follows_opened serial_log)
      (by decide) enough

/-- The last text of `kmain`. -/
def startCompleteLine : Line := ⟨⟨"start complete\n".toList.map chr, by decide⟩, by decide⟩

/-- What `kmain` does with the log: the texts before and after `init` of the port, and the last. -/
def kmain (early : List Line) (boot : Boot) (late : List Line) : List Log.Call :=
  early.map .print ++ [.initSerial boot] ++ late.map .print ++ [.print startCompleteLine]

theorem finds_kmain (early : List Line) (boot : Boot) (late : List Line) :
    Log.Finds (kmain early boot late) ↔ boot.Found := by
  constructor
  · rintro ⟨other, member, found⟩
    simp only [kmain, List.mem_append, List.mem_map, List.mem_singleton, reduceCtorEq, and_false,
      exists_false, false_or, or_false, Log.Call.initSerial.injEq] at member
    exact member ▸ found
  · intro found
    exact ⟨boot, by simp [kmain], found⟩

/-- The text that the test waits for is the last that the kernel prints. -/
theorem startComplete_in_printed (early : List Line) (boot : Boot) (late : List Line) :
    startComplete <:+: Log.printed (kmain early boot late) := by
  have last : startComplete <:+: startCompleteLine.text.chars := by decide
  apply last.trans
  rw [Log.printed, kmain, List.flatMap_append, List.flatMap_append]
  exact (List.suffix_append _ _).isInfix

/--
If the kernel comes to the end of `kmain`, the boot test succeeds exactly if the serial port has
found the UART, whatever else has been printed in ASCII without carriage returns and however the
test reads the file.
-/
theorem bootTest_iff {screen : Display.Screen} {base : UInt64} {buffer : ℕ → UInt8}
    {bufferSize : ℕ} {isObject : bufferSize < 2 ^ 63} {after : Log} {charSigned : Bool}
    {early late : List Line} {boot : Boot}
    (booted : (⟨screen, Serial.create base buffer bufferSize isObject⟩ : Log).calls charSigned
      (kmain early boot late) = .ok after)
    (plain : ∀ c ∈ Log.printed (kmain early boot late), Plain c)
    {logs : List (List UInt8)} (grows : (logs ++ [after.port.sent]).Pairwise (· <+: ·))
    {reads : ℕ} (enough : after.port.sent.count (chr '\n') < reads) :
    (waitForOutput (logs ++ List.replicate reads after.port.sent) .opened).Completes ↔
      boot.Found := by
  have created := Serial.create_kept base buffer bufferSize isObject
  have sent := Log.sent_of_calls created rfl (Log.calls_splits booted).port
  rw [Log.printed_eq] at sent
  have finds := Log.any_finds_iff (kmain early boot late)
  rw [finds_kmain] at finds
  have plainSent : ∀ c ∈ after.port.sent, Plain c := by
    rw [sent]
    split_ifs
    · exact plain
    · exact fun c member => nomatch member
  rw [waitForOutput_completes_iff grows plainSent enough, sent]
  split_ifs with found
  · exact iff_of_true (startComplete_in_printed early boot late) (finds.mp found)
  · exact iff_of_false (by decide) (mt finds.mpr found)

/-- A machine with a UART at the usual place. -/
def withUart : Boot :=
  { hhdmOffset := 0xFFFF000000000000, fr := 0x90, mapTexts := [], unmapTexts := [] }

/-- The file is empty at the first read. -/
theorem bootTest_iff_withUart :
    ∃ after, (⟨⟨Console.VirtualConsole.initial fun _ => 0, Display.smallScreen⟩,
        Serial.create 0x9000000 (fun _ => 0) 64 (by decide)⟩ : Log).calls true
          (kmain [] withUart []) = .ok after ∧
      (waitForOutput ([[]] ++ List.replicate (after.port.sent.count (chr '\n') + 1)
        after.port.sent) .opened).Completes := by
  rcases Fallible.exists_of_isOk (show ((⟨⟨Console.VirtualConsole.initial fun _ => 0,
    Display.smallScreen⟩, Serial.create 0x9000000 (fun _ => 0) 64 (by decide)⟩ : Log).calls true
      (kmain [] withUart [])).isOk = true by decide) with ⟨after, booted⟩
  refine ⟨after, booted, ?_⟩
  have plain : ∀ c ∈ Log.printed (kmain [] withUart []), Plain c := by decide +kernel
  have grows : ([[]] ++ [after.port.sent]).Pairwise (· <+: ·) := by simp
  have found : withUart.Found := by decide
  rw [bootTest_iff booted plain grows (Nat.lt_add_one _)]
  exact found

end Dvnetos.KernelBoots
