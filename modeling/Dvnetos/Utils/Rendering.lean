import Dvnetos.Utils.Stdio

/-!
# The rendering of a format

`kvsnprintf` interleaves scanning the format with storing into the buffer. This
file separates the two: `scan` lists the chunks a format and its arguments
stand for, with no buffer in sight, and `scanLoop_eq_putChunks` shows that the
scan loop stores exactly these chunks one after another. The rendering of a
format is the concatenation of its chunks.
-/

namespace Dvnetos.Stdio

open Word

/-- What one piece of a format prints, by the branch of the loop that prints it. -/
inductive Chunk where
  | literal (c : UInt8)
  | percent
  | character (c : BitVec 32)
  /-- The output of a handler with its own loop, which is all but `formatChar`. -/
  | text (chars : List UInt8)

namespace Chunk

/-- The characters of a chunk. -/
def chars : Chunk → List UInt8
  | .literal c => [c]
  | .percent => [chr '%']
  | .character c => [UInt8.ofNat c.toNat]
  | .text chars => chars

end Chunk

/-- The characters `formatDecimal` prints. -/
def decimalText (type : IntType) (value : ℤ) : List UInt8 :=
  if type.isSigned && decide (value < 0) then
    chr '-' :: digits 10 decimalDigit (type.negate value)
  else digits 10 decimalDigit value

/-- The characters `formatHex` prints. -/
def hexText (format : FormatSpec) (value : ℕ) : List UInt8 :=
  digits 16 (hexDigit (if format.type = chr 'X' then chr 'A' else chr 'a')) value

/-- The characters `formatString` prints. -/
def stringText : Option CString → List UInt8
  | none => nullText
  | some text => text.chars

/-- The chunk a conversion prints, with the arguments behind the one it takes. -/
def conversionChunk (kernel : Bool) (spec : FormatSpec) (args : List Arg) :
    Except Stop (Chunk × List Arg) :=
  if spec.type = chr 'd' ∨ spec.type = chr 'i' then
    if spec.lengthMod0 = chr 'l' ∧ spec.lengthMod1 = chr 'l' then do
      let (value, args) ← argLongLong args
      pure (.text (decimalText .longLong value.toInt), args)
    else if spec.lengthMod0 = chr 'l' then do
      let (value, args) ← argLong args
      pure (.text (decimalText .long value.toInt), args)
    else do
      let (value, args) ← argInt args
      pure (.text (decimalText .int value.toInt), args)
  else if spec.type = chr 'x' ∨ spec.type = chr 'X' ∨ spec.type = chr 'o' ∨
      spec.type = chr 'u' then do
    let (value, args) ← argUnsigned spec args
    if spec.type = chr 'u' then
      pure (.text (decimalText .unsignedLongLong value), args)
    else if spec.type = chr 'o' then
      pure (.text (digits 8 decimalDigit value), args)
    else
      pure (.text (hexText spec value), args)
  else if spec.type = chr 's' then do
    let (ptr, args) ← argString args
    pure (.text (stringText ptr), args)
  else if spec.type = chr 'c' then do
    let (c, args) ← argInt args
    pure (.character c, args)
  else if spec.type = chr 'p' then do
    let (ptr, args) ← argPointer args
    pure (.text (pointerText ptr), args)
  else if kernel then
    .error (.unsupportedSpecifier spec.type)
  else
    pure (.text [], args)

/-- The chunks of a format up to the point where the scan loop ends, and why it ends there. -/
def scan (kernel : Bool) : ℕ → List UInt8 → List Arg → List Chunk × Option Stop
  | _, [], _ => ([], none)
  | 0, _ :: _, _ => ([], some .outOfFuel)
  | fuel + 1, c :: rest, args =>
      if c = chr '%' ∧ rest ≠ [] then
        if rest.headD 0 = chr '%' then
          let (chunks, stop) := scan kernel fuel rest.tail args
          (.percent :: chunks, stop)
        else
          let (spec, after) := scanSpec rest
          match conversionChunk kernel spec args with
          | .error stop => ([], some stop)
          | .ok (chunk, args) =>
              match after with
              | none => ([chunk], some .readPastFormat)
              | some rest =>
                  let (chunks, stop) := scan kernel fuel rest args
                  (chunk :: chunks, stop)
      else
        let (chunks, stop) := scan kernel fuel rest args
        (.literal c :: chunks, stop)

/-- The chunks a call prints. -/
def chunks (kernel : Bool) (format : CString) (args : List Arg) : List Chunk :=
  (scan kernel (format.chars.length + 1) format.chars args).1

/-- Why a call does not return, if it does not. -/
def stop (kernel : Bool) (format : CString) (args : List Arg) : Option Stop :=
  (scan kernel (format.chars.length + 1) format.chars args).2

/-- The characters of a list of chunks. -/
def charsOf (chunks : List Chunk) : List UInt8 := chunks.flatMap Chunk.chars

/-- The full rendering of a format with its arguments. -/
def rendering (kernel : Bool) (format : CString) (args : List Arg) : List UInt8 :=
  charsOf (chunks kernel format args)

@[simp]
theorem charsOf_nil : charsOf [] = [] := rfl

@[simp]
theorem charsOf_cons (chunk : Chunk) (rest : List Chunk) :
    charsOf (chunk :: rest) = chunk.chars ++ charsOf rest := rfl

/-- What the handler of a chunk does and returns when it is called at position `j`. -/
def handle (n : ℕ) (j : ℤ) (sink : Sink) : Chunk → Sink × ℤ
  | .literal c =>
      ({ buffer := if 1 < rem j n then sink.buffer.store j c else sink.buffer
         total_chars := int32 (sink.total_chars + 1) }, 1)
  | .percent => ((putChar 0 n (sink, j) (chr '%')).1, 1)
  | .character c => formatChar j (rem j n) c sink
  | .text chars => putText j (rem j n) chars (sink, 0)

/-- Print one chunk and advance `j`. -/
def putChunk (n : ℕ) (state : Sink × ℤ) (chunk : Chunk) : Sink × ℤ :=
  let (sink, returned) := handle n state.2 state.1 chunk
  (sink, int32 (state.2 + returned))

/-- Print chunks one after another. -/
def putChunks (n : ℕ) (chunks : List Chunk) (state : Sink × ℤ) : Sink × ℤ :=
  chunks.foldl (putChunk n) state

@[simp]
theorem putChunks_nil (n : ℕ) (state : Sink × ℤ) : putChunks n [] state = state := rfl

@[simp]
theorem putChunks_cons (n : ℕ) (chunk : Chunk) (rest : List Chunk) (state : Sink × ℤ) :
    putChunks n (chunk :: rest) state = putChunks n rest (putChunk n state chunk) :=
  List.foldl_cons ..

@[simp]
theorem putText_nil (base : ℤ) (n : ℕ) (state : Sink × ℤ) : putText base n [] state = state := rfl

@[simp]
theorem putText_cons (base : ℤ) (n : ℕ) (c : UInt8) (text : List UInt8) (state : Sink × ℤ) :
    putText base n (c :: text) state = putText base n text (putChar base n state c) :=
  List.foldl_cons ..

theorem formatDecimal_eq_putText (base : ℤ) (n : ℕ) (type : IntType) (value : ℤ) (sink : Sink) :
    formatDecimal base n type value sink = putText base n (decimalText type value) (sink, 0) := by
  simp only [formatDecimal, decimalText]
  split
  · rw [putText_cons]
  · rfl

/-- A conversion calls the handler of its chunk, and fails where it has none. -/
theorem convert_eq_handle (kernel : Bool) (n : ℕ) (spec : FormatSpec) (j : ℤ) (sink : Sink)
    (args : List Arg) :
    convert kernel n spec j sink args =
      (conversionChunk kernel spec args).map fun (chunk, args) =>
        (handle n j sink chunk, args) := by
  simp only [convert, conversionChunk]
  simp only [formatDecimal_eq_putText]
  split_ifs
  · cases argLongLong args <;> rfl
  · cases argLong args <;> rfl
  · cases argInt args <;> rfl
  · cases argUnsigned spec args <;> rfl
  · cases argUnsigned spec args <;> rfl
  · cases argUnsigned spec args <;> rfl
  · cases argString args <;> rfl
  · cases argInt args <;> rfl
  · cases argPointer args <;> rfl
  · rfl
  · rfl

/-- The scan loop prints the chunks of the format, whatever the size of the buffer. -/
theorem scanLoop_eq_putChunks (kernel : Bool) (n fuel : ℕ) (rest : List UInt8) (j : ℤ)
    (sink : Sink) (args : List Arg) :
    scanLoop kernel n fuel rest j sink args =
      { sink := (putChunks n (scan kernel fuel rest args).1 (sink, j)).1
        j := (putChunks n (scan kernel fuel rest args).1 (sink, j)).2
        stop := (scan kernel fuel rest args).2 } := by
  induction fuel generalizing rest j sink args with
  | zero => cases rest <;> rfl
  | succ fuel ih =>
      cases rest with
      | nil => rfl
      | cons c rest =>
          rw [scanLoop, scan]
          by_cases conversion : c = chr '%' ∧ rest ≠ []
          · rw [if_pos conversion, if_pos conversion]
            by_cases percent : rest.headD 0 = chr '%'
            · simp only [if_pos percent, ih, putChunks_cons, putChunk, handle]
            · simp only [if_neg percent, convert_eq_handle]
              cases conversionChunk kernel (scanSpec rest).1 args with
              | error stop => simp only [Except.map, putChunks_nil]
              | ok converted =>
                  cases (scanSpec rest).2 with
                  | none => simp only [Except.map, putChunks_cons, putChunks_nil, putChunk]
                  | some after => simp only [Except.map, ih, putChunks_cons, putChunk]
          · simp only [if_neg conversion, ih, putChunks_cons, putChunk, handle]

end Dvnetos.Stdio
