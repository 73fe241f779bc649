import Dvnetos.Utils.Panic
import Dvnetos.Utils.StdioAppends
import Dvnetos.Utils.StdioDigits

/-!
# Panics with a formatted message

This file models `panicf` of `utils/panic.cpp`. It formats its message into 2 bytes
from `alloca`, and again into a larger buffer if the message does not fit. The second
round always ends the loop and stays inside its buffer. The first one stores behind
its 2 bytes if a number, a string or a pointer starts there.
-/

namespace Dvnetos.Panic

open Word
open Stdio (Arg BufferSize Chunk CString Inside chr chunks charsOf rendering)

/-- One round of the loop: the buffer from `alloca`, after `kvsnprintf` has returned. -/
structure Round where
  size : BufferSize
  buffer : TracedStore ℤ UInt8

/-- The round stores only in its own buffer. -/
def Round.Inside (round : Round) : Prop := round.buffer.Within (Stdio.Inside round.size.bytes)

/-- The string in the buffer of a round. -/
def Round.text (round : Round) : CString where
  chars := Stdio.stringIn round.buffer.cells round.size.bytes
  noNul := Stdio.stringIn_noNul _ _

/-- What ends the loop without a message. -/
inductive Unformatted where
  /-- `kvsnprintf` does not return. -/
  | stopped (stop : Stdio.Stop)
  /-- `i`, converted to the size of a buffer, is not that of any object. -/
  | noObject
  /-- The loop has more rounds than the model was given buffers for. -/
  | running

/--
The loop of `panicf` from the value `i` on, with what `alloca` finds on the stack in
each round: the rounds before the last one, and the one whose text is printed.
-/
def rounds (fmt : CString) (args : List Arg) :
    List (ℤ → UInt8) → ℤ → Except Unformatted (List Round × Round)
  | [], _ => .error .running
  | contents :: stack, i =>
      if isObject : sizeT i < 2 ^ 63 then
        let output := Stdio.kvsnprintf true ⟨sizeT i, isObject⟩ fmt args contents
        match output.returned with
        | .error stop => .error (.stopped stop)
        | .ok size =>
            if i - 1 < size then do
              let (early, last) ← rounds fmt args stack (int32 (size + 1))
              pure (⟨⟨sizeT i, isObject⟩, output.buffer⟩ :: early, last)
            else .ok ([], ⟨⟨sizeT i, isObject⟩, output.buffer⟩)
      else .error .noObject

/--
`panicf(file, line, fmt, args)`. Behind its loop it has the body of `panic`, with the
text in `buf` for the message.
-/
def panicf (machine : Machine) (stack : List (ℤ → UInt8)) (fuel : ℕ) (file : CString)
    (line : UInt32) (fmt : CString) (args : List Arg) (frames : List UInt64) (log : Log) :
    Except Unformatted Outcome := do
  let (_, last) ← rounds fmt args stack 2
  pure (panic machine fuel { file, line, msg := last.text } frames log)

/-- Every number, string and pointer of the message starts before position `n`. -/
def StartsBefore (n : ℕ) (chunks : List Chunk) : Prop :=
  ∀ before text after, chunks = before ++ .text text :: after → text ≠ [] →
    (charsOf before).length < n

theorem startsBefore_of_length {n : ℕ} {chunks : List Chunk} (fits : (charsOf chunks).length ≤ n) :
    StartsBefore n chunks := by
  rintro before text after rfl nonempty
  have positive := List.length_pos_iff.mpr nonempty
  simp only [charsOf, List.flatMap_append, List.flatMap_cons, List.length_append,
    Chunk.chars] at fits ⊢
  omega

/-- What starts inside the buffer stores inside it, and the other way round. -/
theorem chunksInside_iff {n : ℕ} (isObject : n < 2 ^ 63) (positive : 0 < n) (later : List Chunk)
    {offset : ℕ} (fits : offset + (charsOf later).length < 2 ^ 31) :
    Stdio.ChunksInside n offset later ↔
      ∀ before text after, later = before ++ .text text :: after → text ≠ [] →
        offset + (charsOf before).length < n := by
  induction later generalizing offset with
  | nil => simp [Stdio.ChunksInside]
  | cons chunk later ih =>
      rw [Stdio.charsOf_cons, List.length_append] at fits
      have next : int32 ((offset : ℤ) + chunk.chars.length) =
          ((offset + chunk.chars.length : ℕ) : ℤ) := by
        rw [int32_of_fits (by omega) (by omega)]
        push_cast
        rfl
      rw [Stdio.ChunksInside, next, ih (by omega)]
      constructor
      · rintro ⟨here, rest⟩ before text after split nonempty
        cases before with
        | nil =>
            simp only [List.nil_append, List.cons.injEq] at split
            rcases split with ⟨rfl, rfl⟩
            have room := here.resolve_left nonempty
            rw [Stdio.rem_natCast isObject (by omega)] at room
            simpa [charsOf] using (by omega : offset < n)
        | cons first before =>
            simp only [List.cons_append, List.cons.injEq] at split
            rcases split with ⟨rfl, split⟩
            have inside := rest before text after split nonempty
            rw [Stdio.charsOf_cons, List.length_append]
            omega
      · intro starts
        refine ⟨?_, ?_⟩
        · cases chunk with
          | literal c => trivial
          | character c => trivial
          | percent => exact Or.inl positive
          | text text =>
              by_cases nonempty : text = []
              · exact Or.inl nonempty
              · have inside := starts [] text later rfl nonempty
                simp only [charsOf, List.flatMap_nil, List.length_nil, add_zero] at inside
                refine Or.inr ?_
                rw [Stdio.rem_natCast isObject (by omega)]
                omega
        · intro before text after split nonempty
          have inside := starts (chunk :: before) text after (by rw [split]; rfl) nonempty
          rw [Stdio.charsOf_cons, List.length_append] at inside
          omega

/-- A round stores only in its own buffer if every conversion of the message starts there. -/
theorem kvsnprintf_inside_iff {n : BufferSize} (positive : 0 < n.bytes) {fmt : CString}
    {args : List Arg} (matching : Stdio.Matches fmt.chars args)
    (fits : (rendering true fmt args).length < 2 ^ 31) (contents : ℤ → UInt8) :
    (Stdio.kvsnprintf true n fmt args contents).buffer.Within (Inside n.bytes) ↔
      StartsBefore n.bytes (chunks true fmt args) := by
  have starts := @chunksInside_iff n.bytes n.isObject positive (chunks true fmt args) 0
    (by simpa [rendering] using fits)
  simp only [Nat.cast_zero, zero_add] at starts
  rw [Stdio.kvsnprintf_inside_chunks true n contents matching, starts]
  rfl

section Rounds

variable {fmt : CString} {args : List Arg}

/-- What `kvsnprintf` leaves in a buffer of `n` bytes. -/
def roundOf (fmt : CString) (args : List Arg) (n : BufferSize) (contents : ℤ → UInt8) : Round where
  size := n
  buffer := (Stdio.kvsnprintf true n fmt args contents).buffer

/-- A message that does not fit is formatted again, into a buffer that it fits in. -/
theorem rounds_cons (matching : Stdio.Matches fmt.chars args)
    (fits : (rendering true fmt args).length + 1 < 2 ^ 31) (contents : ℤ → UInt8)
    (stack : List (ℤ → UInt8)) {n : BufferSize} (small : n.bytes < 2 ^ 31) :
    rounds fmt args (contents :: stack) n.bytes =
      if n.bytes ≤ (rendering true fmt args).length then do
        let (early, last) ← rounds fmt args stack ((rendering true fmt args).length + 1 : ℕ)
        pure (roundOf fmt args n contents :: early, last)
      else .ok ([], roundOf fmt args n contents) := by
  have bytes : sizeT (n.bytes : ℤ) = n.bytes := sizeT_natCast (by omega)
  have isObject : sizeT (n.bytes : ℤ) < 2 ^ 63 := bytes.trans_lt n.isObject
  have size : (⟨sizeT (n.bytes : ℤ), isObject⟩ : BufferSize) = n := by
    cases n
    simp only [bytes]
  have returned : (Stdio.kvsnprintf true n fmt args contents).returned =
      .ok ((rendering true fmt args).length : ℤ) := by
    rw [Stdio.kvsnprintf_returned true n matching, int32_of_fits (by omega) (by omega)]
  have next : int32 (((rendering true fmt args).length : ℤ) + 1) =
      ((rendering true fmt args).length + 1 : ℕ) := by
    rw [int32_of_fits (by omega) (by omega)]
    push_cast
    rfl
  have tooLong : (n.bytes : ℤ) - 1 < (rendering true fmt args).length ↔
      n.bytes ≤ (rendering true fmt args).length := by
    omega
  simp only [rounds, dif_pos isObject, size, returned, next, tooLong, roundOf]

/-- With room for the message, the text of a round is the whole rendering. -/
theorem roundOf_text (matching : Stdio.Matches fmt.chars args)
    (noNul : (0 : UInt8) ∉ rendering true fmt args) {n : BufferSize}
    (room : (rendering true fmt args).length < n.bytes)
    (fits : (rendering true fmt args).length < 2 ^ 31) (contents : ℤ → UInt8) :
    (roundOf fmt args n contents).text = ⟨rendering true fmt args, noNul⟩ := by
  rcases Stdio.kvsnprintf_holds true contents matching (by omega : 1 ≤ n.bytes) fits with
    ⟨-, cells, terminator⟩
  rw [min_eq_left (by omega)] at terminator
  have text : Stdio.stringIn (roundOf fmt args n contents).buffer.cells n.bytes =
      rendering true fmt args :=
    Stdio.stringIn_eq noNul room (fun k bound => cells k bound (by omega)) terminator
  simp only [Round.text, roundOf] at text ⊢
  simp only [text]

/-- A round with room for the message stores only in its own buffer. -/
theorem roundOf_inside (matching : Stdio.Matches fmt.chars args) {n : BufferSize}
    (room : (rendering true fmt args).length < n.bytes)
    (fits : (rendering true fmt args).length < 2 ^ 31) (contents : ℤ → UInt8) :
    (roundOf fmt args n contents).Inside := by
  have starts : StartsBefore n.bytes (chunks true fmt args) := startsBefore_of_length room.le
  exact (kvsnprintf_inside_iff (n := n) (by omega) matching fits contents).mpr starts

/-- The buffer of the first round. -/
def firstSize : BufferSize := ⟨2, by decide⟩

/-- The loop has one or two rounds, and only the first of two can store behind its buffer. -/
theorem rounds_two (matching : Stdio.Matches fmt.chars args)
    (noNul : (0 : UInt8) ∉ rendering true fmt args)
    (fits : (rendering true fmt args).length + 1 < 2 ^ 31) (first second : ℤ → UInt8)
    (stack : List (ℤ → UInt8)) :
    ∃ early last, rounds fmt args (first :: second :: stack) 2 = .ok (early, last) ∧
      early.length ≤ 1 ∧ last.text = ⟨rendering true fmt args, noNul⟩ ∧ last.Inside ∧
      ((∀ round ∈ early, round.Inside) ↔ StartsBefore 2 (chunks true fmt args)) := by
  have unfolded := rounds_cons matching fits first (second :: stack) (n := firstSize) (by decide)
  have two : ((firstSize.bytes : ℕ) : ℤ) = 2 := rfl
  rw [two] at unfolded
  by_cases short : (rendering true fmt args).length < firstSize.bytes
  · refine ⟨[], roundOf fmt args firstSize first, ?_, Nat.zero_le 1, ?_, ?_, ?_⟩
    · exact unfolded.trans (if_neg (not_le.mpr short))
    · exact roundOf_text matching noNul short (by omega) first
    · exact roundOf_inside matching short (by omega) first
    · exact iff_of_true (by simp) (startsBefore_of_length short.le)
  · let size : BufferSize := ⟨(rendering true fmt args).length + 1, by omega⟩
    have room : (rendering true fmt args).length < size.bytes := Nat.lt_succ_self _
    have again := rounds_cons matching fits second stack (n := size) fits
    rw [if_neg (not_le.mpr room)] at again
    refine ⟨[roundOf fmt args firstSize first], roundOf fmt args size second, ?_, le_refl 1, ?_, ?_,
      ?_⟩
    · rw [unfolded, if_pos (not_lt.mp short)]
      change (do
        let (early, last) ← rounds fmt args (second :: stack) (size.bytes : ℤ)
        pure (roundOf fmt args firstSize first :: early, last)) = _
      rw [again]
      rfl
    · exact roundOf_text matching noNul room (by omega) second
    · exact roundOf_inside matching room (by omega) second
    · simp only [List.mem_singleton, forall_eq]
      exact kvsnprintf_inside_iff (n := firstSize) (by decide) matching (by omega) first

end Rounds

theorem digits_noNul (value : ℤ) : (0 : UInt8) ∉ Stdio.digits 10 Stdio.decimalDigit value := by
  have digit : ∀ d : ℤ, -10 < d → d < 10 → Stdio.decimalDigit d ≠ 0 := by
    intro d lower upper
    interval_cases d <;> decide
  have loop : ∀ fuel (number : ℤ) (temp : List UInt8), (0 : UInt8) ∉ temp →
      (0 : UInt8) ∉ Stdio.digitLoop 10 Stdio.decimalDigit fuel number temp := by
    intro fuel
    induction fuel with
    | zero =>
        intro number temp noNul
        exact noNul
    | succ fuel ih =>
        intro number temp noNul
        have lower := Int.tmod_lt_of_pos number (by norm_num : (0 : ℤ) < 10)
        have upper := Int.tmod_lt_of_pos (-number) (by norm_num : (0 : ℤ) < 10)
        rw [Int.neg_tmod] at upper
        have stored : (0 : UInt8) ∉ Stdio.decimalDigit (number.tmod 10) :: temp := by
          simp only [List.mem_cons, not_or]
          exact ⟨(digit _ (by omega) lower).symm, noNul⟩
        simp only [Stdio.digitLoop]
        split
        · exact stored
        · exact ih _ _ stored
  exact loop _ value [] List.not_mem_nil

theorem decimalText_noNul (type : Stdio.IntType) (value : ℤ) :
    (0 : UInt8) ∉ Stdio.decimalText type value := by
  simp only [Stdio.decimalText]
  split
  · simpa using ⟨by decide, digits_noNul _⟩
  · exact digits_noNul value

/-- `"%s:%d: %s\n"` with the line as a signed number. -/
def messageLine (file : CString) (line : UInt32) (msg : List UInt8) : List UInt8 :=
  file.chars ++ [chr ':'] ++ Stdio.decimalText .int line.toBitVec.toInt ++
    [chr ':', chr ' '] ++ msg ++ [chr '\n']

theorem rendering_panicFormat (call : SerialPort.PanicCall) :
    rendering true panicFormat (messageArgs call) =
      messageLine call.file call.line call.msg.chars := by
  have printed : rendering true panicFormat (messageArgs call) =
      call.file.chars ++ ([chr ':'] ++ (Stdio.decimalText .int call.line.toBitVec.toInt ++
        ([chr ':'] ++ ([chr ' '] ++ (call.msg.chars ++ ([chr '\n'] ++ [])))))) := rfl
  simp [printed, messageLine]

/-- The text that `panic` prints first holds its message, up to the size of `buf`. -/
theorem messageText_chars (machine : Machine) (call : SerialPort.PanicCall)
    (fits : call.file.chars.length + call.msg.chars.length + 25 < 2 ^ 31) :
    (messageText machine call).chars =
      (messageLine call.file call.line call.msg.chars).take 1023 := by
  have line : (Stdio.IntType.int).Fits call.line.toBitVec.toInt := by
    exact ⟨call.line.toBitVec.le_toInt, Int.le_sub_one_of_lt call.line.toBitVec.toInt_lt⟩
  have short := Stdio.length_decimalText_le line
  have length : (messageLine call.file call.line call.msg.chars).length < 2 ^ 31 := by
    simp only [messageLine, List.length_append, List.length_cons, List.length_nil]
    omega
  have noNul : (0 : UInt8) ∉ messageLine call.file call.line call.msg.chars := by
    simp only [messageLine, List.mem_append, not_or]
    refine ⟨⟨⟨⟨⟨call.file.noNul, by decide⟩, decimalText_noNul _ _⟩, by decide⟩, call.msg.noNul⟩,
      by decide⟩
  rw [← rendering_panicFormat] at length noNul ⊢
  exact formattedText_chars machine.buf (panicFormat_matches ..) length noNul

/--
A call of `panicf` is one of `panic` with the whole formatted message, which the log
gets up to the size of the buffer in `appendFormattedText`. It takes at most two rounds,
of which the last stays inside its buffer, and the one before it does so exactly if
every number, string and pointer of the message starts at one of the first two
characters.
-/
theorem panicf_panics (machine : Machine) (fuel : ℕ) (file : CString) (line : UInt32)
    {fmt : CString} {args : List Arg} (frames : List UInt64) (log : Log)
    (matching : Stdio.Matches fmt.chars args) (noNul : (0 : UInt8) ∉ rendering true fmt args)
    (fits : file.chars.length + (rendering true fmt args).length + 25 < 2 ^ 31)
    (first second : ℤ → UInt8) (stack : List (ℤ → UInt8)) :
    panicf machine (first :: second :: stack) fuel file line fmt args frames log =
        .ok (panic machine fuel ⟨file, line, rendering true fmt args, noNul⟩ frames log) ∧
      (messageText machine ⟨file, line, rendering true fmt args, noNul⟩).chars =
        (messageLine file line (rendering true fmt args)).take 1023 ∧
      ∃ early last, rounds fmt args (first :: second :: stack) 2 = .ok (early, last) ∧
        early.length ≤ 1 ∧ last.Inside ∧
        ((∀ round ∈ early, round.Inside) ↔ StartsBefore 2 (chunks true fmt args)) := by
  rcases rounds_two matching noNul (by omega) first second stack with
    ⟨early, last, done, atMostOne, text, inside, starts⟩
  refine ⟨?_, messageText_chars machine _ fits, early, last, done, atMostOne, inside, starts⟩
  rw [panicf, done, ← text]
  rfl

/-- The number in `ab57` starts behind the first buffer. -/
theorem panicf_panics_ab57 :
    ∃ early last, rounds Stdio.decimalFormat [.int 57] [fun _ => 0, fun _ => 0] 2 =
        .ok (early, last) ∧
      last.Inside ∧ ¬∀ round ∈ early, round.Inside := by
  have matching := Stdio.decimalFormat_matches 57
  rcases panicf_panics quietMachine 0 pointerFormat 7 [] ⟨Console.VirtualConsole.initial
      fun _ => 0, newPort⟩ matching (by decide) (by decide) (fun _ => 0) (fun _ => 0) [] with
    ⟨-, -, early, last, done, -, inside, starts⟩
  refine ⟨early, last, done, inside, ?_⟩
  rw [starts]
  intro before
  have behind := before [.literal (chr 'a'), .literal (chr 'b')] [chr '5', chr '7'] [] rfl
    (List.cons_ne_nil _ _)
  exact absurd behind (by decide)

end Dvnetos.Panic
