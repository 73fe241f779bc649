import Dvnetos.Framebuffer.ScreenText
import Dvnetos.Serial.SerialPort

/-!
# The log of the kernel

On aarch64 every text that the kernel prints goes to the serial port and to the screen. This file
runs both from their start on. As long as no assertion fires, the port has sent, or still holds,
exactly the text whose last rows the screen shows, whether `init` of the port comes early, late or
not at all, and whatever it finds.
-/

namespace Dvnetos.BootLog

open Console (VirtualConsole)
open Console.VirtualConsole (lineLengthOf lineCountOf)
open Display (Framebuffer GridPlace Screen terminalPixel)
open Scrollback TracedStore
open SerialPort (PanicCall Serial)
open Stdio (CString chr)

/-- A text that the kernel prints. -/
structure Line where
  text : CString
  isObject : text.chars.length < 2 ^ 63

/-- The text as one that is written to the port. -/
def Line.toPort (line : Line) : SerialPort.Text := ⟨line.text.chars, line.isObject⟩

/-- What `init` of the port finds, and what `mapMemory` and `unmapMemory` in it print. -/
structure Boot where
  hhdmOffset : UInt64
  fr : UInt32
  mapTexts : List Line
  unmapTexts : List Line

/-- What `init` finds, as the port sees it. -/
def Boot.toPort (boot : Boot) : Serial.Boot where
  hhdmOffset := boot.hhdmOffset
  fr := boot.fr
  mapTexts := boot.mapTexts.map Line.toPort
  unmapTexts := boot.unmapTexts.map Line.toPort

/-- `init` finds a UART. -/
def Boot.Found (boot : Boot) : Prop := boot.toPort.Found

instance (boot : Boot) : Decidable boot.Found := inferInstanceAs (Decidable boot.toPort.Found)

/-- What `init` prints if it finds the UART. -/
def foundLine : Line := ⟨⟨Serial.foundText.bytes, by decide⟩, Serial.foundText.isObject⟩

/-- What `init` prints if it does not. -/
def notFoundLine : Line := ⟨⟨Serial.notFoundText.bytes, by decide⟩, Serial.notFoundText.isObject⟩

/-- The default console on its framebuffer, and the default port. -/
structure Log where
  screen : Screen
  port : Serial

namespace Log

variable (charSigned : Bool)

/-- `appendText(text)` of the default console. -/
def print (log : Log) (line : Line) : Except PanicCall Log := do
  let port ← log.port.write line.text.chars
  return { port, screen := log.screen.appendText charSigned line.text }

/-- Texts are printed one after another. -/
def prints (log : Log) (lines : List Line) : Except PanicCall Log :=
  lines.foldlM (print charSigned) log

/-- `init(hhdmOffset)` of the default port, which prints. -/
def initSerial (log : Log) (boot : Boot) : Except PanicCall Log := do
  let log ← log.prints charSigned boot.mapTexts
  let log := { log with port := { log.port with base := log.port.base + boot.hhdmOffset } }
  if boot.Found then
    let log ← log.print charSigned foundLine
    let port := { log.port.setUp with enabled := true }
    let port ← port.write port.contents
    return { log with port := { port with bufferUsed := 0 } }
  else
    let log ← log.prints charSigned boot.unmapTexts
    log.print charSigned notFoundLine

/-- What the kernel does with the log. -/
inductive Call where
  | print (line : Line)
  | initSerial (boot : Boot)

/-- The log after a call. -/
def call (log : Log) : Call → Except PanicCall Log
  | .print line => log.print charSigned line
  | .initSerial boot => log.initSerial charSigned boot

/-- The log after calls, one after another. -/
def calls (log : Log) (list : List Call) : Except PanicCall Log :=
  list.foldlM (call charSigned) log

/-- The call as one of the port. -/
def Call.toPort : Call → Serial.Call
  | .print line => .write line.toPort
  | .initSerial boot => .init boot.toPort

/-- The texts that a call prints. -/
def Call.texts : Call → List CString
  | .print line => [line.text]
  | .initSerial boot =>
      (boot.mapTexts ++
        if boot.Found then [foundLine] else boot.unmapTexts ++ [notFoundLine]).map Line.text

variable {charSigned : Bool} {log after : Log}

/-- The log has come from another one by these texts on the screen and these calls of the port. -/
structure Splits (charSigned : Bool) (log after : Log) (texts : List CString)
    (port : Except PanicCall Serial) : Prop where
  port : port = .ok after.port
  screen : after.screen = log.screen.appendTexts charSigned texts

theorem print_splits {line : Line} (printed : log.print charSigned line = .ok after) :
    Splits charSigned log after [line.text] (log.port.write line.toPort.bytes) := by
  rcases Fallible.bind_eq_ok_iff.mp printed with ⟨port, written, returned⟩
  cases returned
  exact ⟨written, rfl⟩

theorem appendTexts_append (screen : Screen) (front back : List CString) :
    screen.appendTexts charSigned (front ++ back) =
      (screen.appendTexts charSigned front).appendTexts charSigned back := by
  simp only [Screen.appendTexts, List.foldl_append]

theorem prints_splits {lines : List Line} (printed : log.prints charSigned lines = .ok after) :
    Splits charSigned log after (lines.map Line.text)
      (log.port.writes (lines.map Line.toPort)) := by
  induction lines generalizing log with
  | nil =>
      cases printed
      exact ⟨rfl, rfl⟩
  | cons line rest ih =>
      rcases Fallible.bind_eq_ok_iff.mp printed with ⟨between, first, later⟩
      have here := print_splits first
      have others := ih later
      constructor
      · rw [← others.port, List.map_cons, Serial.writes, List.foldlM_cons, here.port]
        rfl
      · rw [others.screen, here.screen]
        rfl

theorem initSerial_splits {boot : Boot} (returned : log.initSerial charSigned boot = .ok after) :
    Splits charSigned log after (Call.texts (.initSerial boot))
      (log.port.init boot.toPort) := by
  rcases Fallible.bind_eq_ok_iff.mp returned with ⟨mapped, mapping, rest⟩
  have mapSplits := prints_splits mapping
  by_cases found : boot.Found
  · simp only [found, if_true] at rest
    rcases Fallible.bind_eq_ok_iff.mp rest with ⟨announced, announcing, rest⟩
    rcases Fallible.bind_eq_ok_iff.mp rest with ⟨port, replaying, rest⟩
    cases rest
    have announceSplits := print_splits announcing
    constructor
    · have here : boot.toPort.Found := found
      have map : log.port.writes boot.toPort.mapTexts = .ok mapped.port := mapSplits.port
      have announce : ({ mapped.port with base := mapped.port.base + boot.toPort.hhdmOffset } :
          Serial).write Serial.foundText.bytes = .ok announced.port := announceSplits.port
      simp only [Serial.init, map, Fallible.ok_bind, here, if_true, announce, replaying]
      rfl
    · have texts : Call.texts (.initSerial boot) =
          boot.mapTexts.map Line.text ++ [foundLine.text] := by
        simp only [Call.texts, found, if_true, List.map_append, List.map_cons, List.map_nil]
      rw [texts, appendTexts_append, ← mapSplits.screen]
      exact announceSplits.screen
  · simp only [found, if_false] at rest
    rcases Fallible.bind_eq_ok_iff.mp rest with ⟨unmapped, unmapping, announcing⟩
    have unmapSplits := prints_splits unmapping
    have announceSplits := print_splits announcing
    constructor
    · have notHere : ¬boot.toPort.Found := found
      have map : log.port.writes boot.toPort.mapTexts = .ok mapped.port := mapSplits.port
      have unmap : ({ mapped.port with base := mapped.port.base + boot.toPort.hhdmOffset } :
          Serial).writes boot.toPort.unmapTexts = .ok unmapped.port := unmapSplits.port
      simp only [Serial.init, map, Fallible.ok_bind, notHere, if_false, unmap]
      exact announceSplits.port
    · have texts : Call.texts (.initSerial boot) = boot.mapTexts.map Line.text ++
          (boot.unmapTexts.map Line.text ++ [notFoundLine.text]) := by
        simp only [Call.texts, found, if_false, List.map_append, List.map_cons, List.map_nil]
      rw [texts, appendTexts_append, appendTexts_append, ← mapSplits.screen]
      exact announceSplits.screen.trans
        (congrArg (fun screen : Screen => screen.appendTexts charSigned [notFoundLine.text])
          unmapSplits.screen)

theorem call_splits {action : Call} (returned : log.call charSigned action = .ok after) :
    Splits charSigned log after action.texts (log.port.call action.toPort) := by
  cases action with
  | print line => exact print_splits returned
  | initSerial boot => exact initSerial_splits returned

theorem calls_splits {list : List Call} (returned : log.calls charSigned list = .ok after) :
    Splits charSigned log after (list.flatMap Call.texts)
      (log.port.calls (list.map Call.toPort)) := by
  induction list generalizing log with
  | nil =>
      cases returned
      exact ⟨rfl, rfl⟩
  | cons action rest ih =>
      rcases Fallible.bind_eq_ok_iff.mp returned with ⟨between, first, later⟩
      have here := call_splits first
      have others := ih later
      constructor
      · rw [← others.port, List.map_cons, Serial.calls, List.foldlM_cons, here.port]
        rfl
      · rw [others.screen, here.screen, List.flatMap_cons, appendTexts_append]

/-- What the port is given is what is printed. -/
theorem Call.written_toPort (action : Call) :
    action.toPort.written = action.texts.flatMap CString.chars := by
  have lines (list : List Line) : (list.map Line.toPort).flatMap SerialPort.Text.bytes =
      (list.map Line.text).flatMap CString.chars := by
    simp only [List.flatMap_map, Line.toPort]
  cases action with
  | print line => simp [Call.toPort, Call.texts, Serial.Call.written, Line.toPort]
  | initSerial boot =>
      by_cases found : boot.Found
      · have here : boot.toPort.Found := found
        simp only [Call.toPort, Call.texts, Serial.Call.written, found, here, if_true,
          List.map_append, List.flatMap_append, ← lines]
        simp [Boot.toPort, foundLine, Line.toPort]
      · have notHere : ¬boot.toPort.Found := found
        simp only [Call.toPort, Call.texts, Serial.Call.written, found, notHere, if_false,
          List.map_append, List.flatMap_append, ← lines]
        simp [Boot.toPort, notFoundLine, Line.toPort]

section Silent

variable {port result : Serial}

/-- A port that collects texts has stored none of them to the data register. -/
structure Silent (port : Serial) : Prop where
  disabled : port.enabled = false
  used : port.bufferUsed ≤ port.bufferSize
  sent : port.sent = []

theorem Silent.write (silent : Silent port) {text : SerialPort.Text}
    (written : port.write text.bytes = .ok result) : Silent result := by
  rcases Serial.write_disabled silent.disabled silent.used written with
    ⟨sent, -, used, disabled⟩
  exact ⟨disabled, used, sent.trans silent.sent⟩

theorem Silent.writes (silent : Silent port) {texts : List SerialPort.Text}
    (written : port.writes texts = .ok result) : Silent result := by
  induction texts generalizing port with
  | nil =>
      cases written
      exact silent
  | cons text rest ih =>
      rcases Fallible.bind_eq_ok_iff.mp written with ⟨between, first, later⟩
      exact ih (silent.write first) later

theorem Silent.call (silent : Silent port) {action : Serial.Call}
    (finds : action.finds = false) (returned : port.call action = .ok result) :
    Silent result := by
  cases action with
  | write text => exact silent.write returned
  | init boot =>
      have notFound : ¬boot.Found := of_decide_eq_false finds
      rcases Fallible.bind_eq_ok_iff.mp returned with ⟨mapped, mapping, rest⟩
      simp only [notFound, if_false] at rest
      rcases Fallible.bind_eq_ok_iff.mp rest with ⟨unmapped, unmapping, announcing⟩
      have moved : Silent { mapped with base := mapped.base + boot.hhdmOffset } :=
        ⟨(silent.writes mapping).disabled, (silent.writes mapping).used,
          (silent.writes mapping).sent⟩
      have announced : unmapped.write Serial.notFoundText.bytes = .ok result := announcing
      exact (moved.writes unmapping).write announced

theorem Silent.calls (silent : Silent port) {list : List Serial.Call}
    (finds : ∀ action ∈ list, action.finds = false) (returned : port.calls list = .ok result) :
    Silent result := by
  induction list generalizing port with
  | nil =>
      cases returned
      exact silent
  | cons action rest ih =>
      rcases Fallible.bind_eq_ok_iff.mp returned with ⟨between, first, later⟩
      have here := silent.call (finds action (List.mem_cons_self ..)) first
      exact ih here (fun other member => finds other (List.mem_cons_of_mem _ member)) later

end Silent

/-- The log once the console has been set up on its framebuffer. -/
def started (console : VirtualConsole) (start : Framebuffer) (charSigned : Bool) (port : Serial) :
    Log where
  screen := Screen.init ⟨console, start⟩ charSigned
  port := port

/-- Some `init` of the port finds the UART. -/
def Finds (list : List Call) : Prop := ∃ boot, Call.initSerial boot ∈ list ∧ boot.Found

/-- The characters that calls print. -/
def printed (list : List Call) : List UInt8 := (list.flatMap Call.texts).flatMap CString.chars

theorem printed_eq (list : List Call) :
    (list.map Call.toPort).flatMap Serial.Call.written = printed list := by
  simp only [printed, List.flatMap_map, Call.written_toPort, List.flatMap_assoc]

theorem any_finds_iff (list : List Call) :
    (list.map Call.toPort).any Serial.Call.finds = true ↔ Finds list := by
  constructor
  · intro any
    rcases List.any_eq_true.mp any with ⟨action, member, finds⟩
    rcases List.mem_map.mp member with ⟨call, inList, rfl⟩
    cases call with
    | print line => cases finds
    | initSerial boot => exact ⟨boot, inList, of_decide_eq_true finds⟩
  · rintro ⟨boot, inList, found⟩
    exact List.any_eq_true.mpr ⟨_, List.mem_map_of_mem inList, decide_eq_true found⟩

/-- What the port has sent is the whole text if it has found the UART, and nothing otherwise. -/
theorem sent_of_calls {port : Serial} (kept : port.Kept []) (disabled : port.enabled = false)
    {list : List Serial.Call} {result : Serial} (returned : port.calls list = .ok result) :
    result.sent = if list.any Serial.Call.finds then list.flatMap Serial.Call.written else [] := by
  rcases Serial.calls_keeps kept returned with ⟨keptResult, enabled⟩
  by_cases finds : list.any Serial.Call.finds = true
  · have empty := keptResult.empty (by simp [enabled, finds])
    have all := keptResult.all
    rw [Serial.contents_nil empty, List.append_nil, List.nil_append] at all
    rw [if_pos finds, all]
  · rw [if_neg finds]
    have none : ∀ action ∈ list, action.finds = false := by
      simpa using finds
    have nothing : port.sent = [] := (List.append_eq_nil_iff.mp kept.all).1
    exact (Silent.calls ⟨disabled, kept.used, nothing⟩ none returned).sent

section Run

variable {start : Framebuffer} {base : UInt64} {buffer : ℕ → UInt8} {bufferSize : ℕ}
variable {isObject : bufferSize < 2 ^ 63}

/--
After any calls without a failed assertion the port has sent, or still holds, the text whose last
rows are on the screen: all of it is sent once the UART has been found, and none before.
-/
theorem calls_agree (addressable : start.Addressable) (narrow : start.font.width.toNat ≤ 32)
    (fits : lineLengthOf start.forConsole * lineCountOf start.forConsole ≤ Console.bufferSize)
    (console : VirtualConsole) (columns : 1 ≤ lineLengthOf start.forConsole)
    (positive : 1 ≤ lineCountOf start.forConsole) (cursorX : console.cursorX = 0)
    (cursorY : console.cursorY = 0) (list : List Call)
    (returned : (started console start charSigned
      (Serial.create base buffer bufferSize isObject)).calls charSigned list = .ok after) :
    let width := lineLengthOf start.forConsole
    let lines := lineCountOf start.forConsole
    let terminal := Terminal.empty.puts (chr '\n') width (printed list)
    after.port.sent ++ after.port.contents = printed list ∧
      (Finds list → after.port.sent = printed list) ∧
      (¬Finds list → after.port.sent = []) ∧
      (∀ x < width * start.font.width.toNat, ∀ y < lines * start.font.height.toNat,
        after.screen.framebuffer.fb.cells (start.pixel x y) =
          terminalPixel start.font charSigned lines terminal x y) ∧
      Frame (GridPlace start) start.fb after.screen.framebuffer.fb := by
  intro width lines terminal
  have splits := calls_splits returned
  have created := Serial.create_kept base buffer bufferSize isObject
  have kept := (Serial.calls_keeps created splits.port).1.all
  have sent := sent_of_calls created rfl splits.port
  have finds := any_finds_iff list
  rw [List.nil_append, printed_eq] at kept
  rw [printed_eq] at sent
  have begun : Display.Shows start charSigned (Screen.init ⟨console, start⟩ charSigned)
      Terminal.empty :=
    Display.Shows.init addressable narrow fits console columns positive cursorX cursorY
  have final := begun.appendTexts addressable narrow fits (list.flatMap Call.texts)
  have screen : after.screen = (Screen.init ⟨console, start⟩ charSigned).appendTexts charSigned
    (list.flatMap Call.texts) := splits.screen
  rw [← screen] at final
  refine ⟨kept, ?_, ?_, ?_, final.paints.frame⟩
  · intro found
    rw [sent, if_pos (finds.mpr found)]
  · intro notFound
    rw [sent, if_neg (mt finds.mp notFound)]
  · exact final.pixels addressable

end Run

/-- A text before and a text after an `init` that finds the UART. -/
def earlyAndLate : List Call :=
  [.print ⟨⟨"Paging\n".toList.map chr, by decide⟩, by decide⟩,
    .initSerial { hhdmOffset := 0xFFFF000000000000, fr := 0x90, mapTexts := [], unmapTexts := [] },
    .print ⟨⟨"Done\n".toList.map chr, by decide⟩, by decide⟩]

theorem calls_agree_earlyAndLate :
    ∃ after, (started (VirtualConsole.initial fun _ => 0) Display.smallScreen true
        (Serial.create 0x9000000 (fun _ => 0) 64 (by decide))).calls true earlyAndLate =
          .ok after ∧
      after.port.sent = "Paging\nSerial Port Found\nDone\n".toList.map chr := by
  rcases Fallible.exists_of_isOk (show ((started (VirtualConsole.initial fun _ => 0)
    Display.smallScreen true (Serial.create 0x9000000 (fun _ => 0) 64 (by decide))).calls true
      earlyAndLate).isOk = true by decide) with ⟨after, returned⟩
  refine ⟨after, returned, ?_⟩
  have agree := calls_agree ⟨by decide, by decide, by decide⟩ (by decide) (by decide)
    (VirtualConsole.initial fun _ => 0) (by decide) (by decide) rfl rfl earlyAndLate returned
  exact agree.2.1 ⟨_, List.mem_cons_of_mem _ (List.mem_cons_self ..), by decide⟩

end Log

end Dvnetos.BootLog
