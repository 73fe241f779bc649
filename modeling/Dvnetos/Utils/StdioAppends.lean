import Dvnetos.Utils.StdioTruncation

/-!
# Chains of appends

The descriptions of the SMBIOS structures are put together by appends
`n += ksnprintf(buf + n, size - n, format, ...)`. Since `ksnprintf` returns the
number of characters it has left in its buffer, the next append starts at the
NUL of the one before, and once the buffer is full every append gets the last
byte and puts the NUL there again. The result is the concatenation of the
renderings, truncated to the buffer. As for a single call, the counters are
`int`s.
-/

namespace Dvnetos.Stdio

open Word

theorem putText_frame (n : ℕ) (base : ℕ) (text : List UInt8) (sink : Sink) {j : ℕ}
    (fits : j + text.length < 2 ^ 31) :
    TracedStore.Frame (0 ≤ ·) sink.buffer (putText base n text (sink, j)).1.buffer := by
  induction text generalizing sink j with
  | nil => exact TracedStore.Frame.refl _
  | cons c text ih =>
      rw [List.length_cons] at fits
      have next : int32 ((j : ℤ) + 1) = (j + 1 : ℕ) := int32_succ (by omega)
      have address : (0 : ℤ) ≤ base + j := by omega
      have rest (buffer : TracedStore ℤ UInt8) :=
        ih { buffer, total_chars := int32 (sink.total_chars + 1) } (j := j + 1) (by omega)
      simp only [putText_cons, putChar, next]
      split
      · exact (TracedStore.Frame.store sink.buffer c address).trans (rest _)
      · exact rest sink.buffer

theorem putChunk_frame (n : ℕ) (chunk : Chunk) (sink : Sink) {j : ℕ}
    (fits : j + chunk.chars.length < 2 ^ 31) :
    TracedStore.Frame (0 ≤ ·) sink.buffer (putChunk n (sink, j) chunk).1.buffer := by
  have inside : (0 : ℤ) ≤ j := Int.natCast_nonneg j
  cases chunk with
  | literal c =>
      simp only [putChunk, handle]
      split
      · exact TracedStore.Frame.store _ _ inside
      · exact TracedStore.Frame.refl _
  | percent =>
      simp only [putChunk, handle, putChar]
      split
      · exact TracedStore.Frame.store _ _ (by simp)
      · exact TracedStore.Frame.refl _
  | character c =>
      simp only [putChunk, handle, formatChar]
      split
      · exact TracedStore.Frame.store _ _ inside
      · exact TracedStore.Frame.refl _
  | text chars =>
      have short : 0 + chars.length < 2 ^ 31 := by
        simp only [Chunk.chars] at fits
        omega
      exact putText_frame _ j chars sink short

theorem putChunks_frame (n : ℕ) (chunks : List Chunk) (sink : Sink) {j : ℕ}
    (fits : j + (charsOf chunks).length < 2 ^ 31) :
    TracedStore.Frame (0 ≤ ·) sink.buffer (putChunks n chunks (sink, j)).1.buffer ∧
      (putChunks n chunks (sink, j)).2 = (j + (charsOf chunks).length : ℕ) := by
  induction chunks generalizing sink j with
  | nil => exact ⟨TracedStore.Frame.refl _, rfl⟩
  | cons chunk rest ih =>
      rw [charsOf_cons, List.length_append] at fits
      have frame := putChunk_frame n chunk sink (j := j) (by omega)
      have position := putChunk_position n sink j chunk
      have next : int32 ((j : ℤ) + chunk.chars.length) = (j + chunk.chars.length : ℕ) := by
        rw [int32_of_fits (by omega) (by omega)]
        push_cast
        rfl
      rw [next] at position
      obtain ⟨later, final⟩ := ih (putChunk n (sink, j) chunk).1 (j := j + chunk.chars.length)
        (by omega)
      rw [← position, Prod.mk.eta] at later final
      rw [putChunks_cons]
      refine ⟨frame.trans later, ?_⟩
      rw [final, charsOf_cons, List.length_append, Nat.add_assoc]

/-- A call stores nothing in front of its buffer. -/
theorem kvsnprintf_frame (kernel : Bool) (n : BufferSize) {format : CString} {args : List Arg}
    (contents : ℤ → UInt8) (matching : Matches format.chars args)
    (fits : (rendering kernel format args).length < 2 ^ 31) :
    TracedStore.Frame (0 ≤ ·) (.fresh contents)
      (kvsnprintf kernel n format args contents).buffer := by
  obtain ⟨frame, position⟩ := putChunks_frame n.bytes (chunks kernel format args)
    { buffer := .fresh contents, total_chars := 0 } (j := 0) (by simpa [rendering] using fits)
  rw [Nat.cast_zero] at frame position
  simp only [kvsnprintf_eq_of_matches kernel n matching, terminate]
  refine frame.trans ?_
  split_ifs
  · exact TracedStore.Frame.store _ 0 (by omega)
  · exact TracedStore.Frame.store _ 0 (by omega)
  · exact TracedStore.Frame.refl _

/-- A call stores only inside its buffer if and only if its chunks do. -/
theorem kvsnprintf_inside_chunks (kernel : Bool) (n : BufferSize) {format : CString}
    {args : List Arg} (contents : ℤ → UInt8) (matching : Matches format.chars args) :
    (kvsnprintf kernel n format args contents).buffer.Within (Inside n.bytes) ↔
      ChunksInside n.bytes 0 (chunks kernel format args) := by
  have within := putChunks_within n.isObject (chunks kernel format args)
    { buffer := .fresh contents, total_chars := 0 } (j := 0) (by norm_num) (by norm_num)
  obtain ⟨lower, upper⟩ := putChunks_position_fits n.bytes (chunks kernel format args)
    { buffer := .fresh contents, total_chars := 0 } (j := 0) (by norm_num) (by norm_num)
  rw [kvsnprintf_eq_of_matches kernel n matching, terminate_within n.isObject lower upper, within]
  exact and_iff_left (by simp)

/-- `ksnprintf` returns the number of characters it has left in the buffer. -/
theorem ksnprintf_holds (kernel : Bool) {n : BufferSize} {format : CString} {args : List Arg}
    (contents : ℤ → UInt8) (matching : Matches format.chars args) (nonempty : 1 ≤ n.bytes)
    (fits : (rendering kernel format args).length < 2 ^ 31) :
    let text := rendering kernel format args
    let output := ksnprintf kernel n format args contents
    output.returned = .ok ((min text.length (n.bytes - 1) : ℕ) : ℤ) ∧
      (∀ k (bound : k < text.length), k < n.bytes - 1 → output.buffer.cells k = text[k]) ∧
      output.buffer.cells (min text.length (n.bytes - 1) : ℕ) = 0 := by
  have isObject := n.isObject
  rcases kvsnprintf_holds kernel contents matching nonempty fits with ⟨returned, cells, terminator⟩
  refine ⟨?_, cells, terminator⟩
  simp only [ksnprintf, returned, Except.map]
  have length : sizeT (rendering kernel format args).length =
      (rendering kernel format args).length :=
    sizeT_natCast (by omega)
  rw [length, sub64_of_le (by omega) nonempty]
  congr 1
  split
  · rw [int32_of_fits (by omega) (by omega)]
    omega
  · omega

/-- The types that callers give `n`: `auto n = ksnprintf(..)` is an `int`. -/
inductive Counter where
  | int
  | size_t
  deriving DecidableEq

namespace Counter

/-- `n += result`. -/
def add : Counter → ℤ → ℤ → ℤ
  | .int, n, result => int32 (n + result)
  | .size_t, n, result => add64 (sizeT n) (sizeT result)

/-- The number of characters can be counted. -/
def Counts : Counter → ℕ → Prop
  | .int, count => count < 2 ^ 31
  | .size_t, _ => True

theorem Counts.mono {counter : Counter} {smaller count : ℕ} (counts : counter.Counts count)
    (le : smaller ≤ count) : counter.Counts smaller := by
  cases counter with
  | int => exact Nat.lt_of_le_of_lt le counts
  | size_t => trivial

end Counter

/-- The format and the arguments of one append. -/
structure Append where
  format : CString
  args : List Arg

namespace Append

/-- The arguments are those that the format takes. -/
def Matching (append : Append) : Prop := Matches append.format.chars append.args

/-- The full rendering of the append. -/
def text (kernel : Bool) (append : Append) : List UInt8 :=
  rendering kernel append.format append.args

end Append

/-- The buffer between two appends, addressed from its start, and `n`. -/
structure Appended where
  cells : ℤ → UInt8
  n : ℤ

/-- What ends a chain of appends. -/
inductive AppendStop where
  | stopped (stop : Stop)
  /-- `S - n` is not the size of an object. -/
  | badSize (size : ℕ)

/-- `n += ksnprintf(buf + n, S - n, format, ...)`. -/
def append (kernel : Bool) (counter : Counter) (size : BufferSize) (state : Appended)
    (append : Append) : Except AppendStop Appended :=
  let rest := sub64 size.bytes (sizeT state.n)
  if isObject : rest < 2 ^ 63 then
    let output := ksnprintf kernel ⟨rest, isObject⟩ append.format append.args
      fun index => state.cells (state.n + index)
    match output.returned with
    | .error stop => .error (.stopped stop)
    | .ok result =>
        .ok { cells := fun address => output.buffer.cells (address - state.n)
              n := counter.add state.n result }
  else .error (.badSize rest)

/-- A list of appends to a buffer, starting from `n = 0`. -/
def appendAll (kernel : Bool) (counter : Counter) (size : BufferSize) (contents : ℤ → UInt8)
    (appends : List Append) : Except AppendStop Appended :=
  appends.foldlM (append kernel counter size) { cells := contents, n := 0 }

/-- The concatenation of the full renderings. -/
def appendedText (kernel : Bool) (appends : List Append) : List UInt8 :=
  appends.flatMap (Append.text kernel)

/-- The buffer holds the first `S - 1` characters of the text, and `n` is their number. -/
structure HoldsPrefix (size : ℕ) (text : List UInt8) (state : Appended) : Prop where
  count : state.n = (min text.length (size - 1) : ℕ)
  cells : ∀ k (bound : k < text.length), k < size - 1 → state.cells k = text[k]

/-- An append whose call returns. -/
theorem append_of_returned {kernel : Bool} {counter : Counter} {size : BufferSize}
    {state : Appended} {call : Append} {result : ℤ}
    (isObject : sub64 size.bytes (sizeT state.n) < 2 ^ 63)
    (returned : (ksnprintf kernel ⟨sub64 size.bytes (sizeT state.n), isObject⟩ call.format call.args
      fun index => state.cells (state.n + index)).returned = .ok result) :
    append kernel counter size state call = .ok
      { cells := fun address =>
          (ksnprintf kernel ⟨sub64 size.bytes (sizeT state.n), isObject⟩ call.format call.args
            fun index => state.cells (state.n + index)).buffer.cells (address - state.n)
        n := counter.add state.n result } := by
  simp only [append, dif_pos isObject]
  rw [returned]

/-- An append to a buffer that holds a prefix extends the text and puts a NUL behind it. -/
theorem append_holds {kernel : Bool} {counter : Counter} {size : BufferSize}
    (nonempty : 1 ≤ size.bytes) {text : List UInt8} {state : Appended}
    (holds : HoldsPrefix size.bytes text state) {call : Append} (matching : call.Matching)
    (fits : (call.text kernel).length < 2 ^ 31)
    (counts : counter.Counts (min (text ++ call.text kernel).length (size.bytes - 1))) :
    ∃ next, append kernel counter size state call = .ok next ∧
      HoldsPrefix size.bytes (text ++ call.text kernel) next ∧ next.cells next.n = 0 := by
  rcases holds with ⟨count, cells⟩
  have isObject := size.isObject
  rw [List.length_append] at counts
  let start := min text.length (size.bytes - 1)
  have offset : sizeT state.n = start := by
    rw [count]
    exact sizeT_natCast (by omega)
  have rest : sub64 size.bytes (sizeT state.n) = size.bytes - start := by
    rw [offset, sub64_of_le (by omega) (by omega)]
  have restIsObject : sub64 size.bytes (sizeT state.n) < 2 ^ 63 := by omega
  let contents (index : ℤ) : UInt8 := state.cells (state.n + index)
  let n : BufferSize := ⟨sub64 size.bytes (sizeT state.n), restIsObject⟩
  have bytes : n.bytes = size.bytes - start := rest
  obtain ⟨returned, stored, terminator⟩ :=
    ksnprintf_holds kernel (n := n) contents matching (by omega) fits
  have front := kvsnprintf_frame kernel n contents matching fits
  change _ = Except.ok ((min (call.text kernel).length (n.bytes - 1) : ℕ) : ℤ) at returned
  let added := min (call.text kernel).length (n.bytes - 1)
  have sum : start + added = min (text.length + (call.text kernel).length) (size.bytes - 1) := by
    omega
  have advanced : counter.add state.n added = (start + added : ℕ) := by
    cases counter with
    | int =>
        change _ < 2 ^ 31 at counts
        rw [Counter.add, int32_of_fits (by omega) (by omega)]
        omega
    | size_t =>
        have length : sizeT added = added := sizeT_natCast (by omega)
        rw [Counter.add, offset, length, add64_of_lt (by omega)]
  refine ⟨_, append_of_returned restIsObject returned, ⟨?_, ?_⟩, ?_⟩
  · rw [List.length_append, ← sum]
    exact advanced
  · intro k bound inside
    rw [List.length_append] at bound
    by_cases before : k < start
    · -- the characters held so far are in front of the part of the buffer that the call gets
      have kept := front.cells (k - state.n) (by omega)
      have address : state.n + ((k : ℤ) - state.n) = k := by omega
      simp only [TracedStore.fresh_cells, contents, address] at kept
      rw [List.getElem_append_left (by omega), ← cells k (by omega) inside]
      exact kept
    · have address : (k : ℤ) - state.n = (k - text.length : ℕ) := by omega
      rw [List.getElem_append_right (by omega)]
      simp only [address]
      exact stored (k - text.length) (by change _ < (call.text kernel).length; omega) (by omega)
  · have address : counter.add state.n added - state.n = added := by omega
    let output := ksnprintf kernel n call.format call.args contents
    exact (congrArg output.buffer.cells address).trans terminator

/--
A chain of appends never leaves its buffer: after each append `n` is at most
`S - 1`, the buffer holds the first `S - 1` characters of the concatenation of the
renderings so far, `n` is their number, and a NUL follows them.
-/
theorem appendAll_truncates (kernel : Bool) (counter : Counter) (size : BufferSize)
    (nonempty : 1 ≤ size.bytes) (contents : ℤ → UInt8) (appends : List Append)
    (matching : ∀ call ∈ appends, call.Matching)
    (fits : ∀ call ∈ appends, (call.text kernel).length < 2 ^ 31)
    (counts : counter.Counts (min (appendedText kernel appends).length (size.bytes - 1))) :
    ∀ step ≤ appends.length, ∃ state,
      appendAll kernel counter size contents (appends.take step) = .ok state ∧
        0 ≤ state.n ∧ state.n ≤ size.bytes - 1 ∧
        HoldsPrefix size.bytes (appendedText kernel (appends.take step)) state ∧
        (step ≠ 0 → state.cells state.n = 0) := by
  intro step
  induction step with
  | zero =>
      intro _
      refine ⟨⟨contents, 0⟩, rfl, le_rfl, by simpa using nonempty, ⟨by simp [appendedText], ?_⟩, ?_⟩
      · simp [appendedText]
      · simp
  | succ step ih =>
      intro le
      rcases ih (by omega) with ⟨state, run, -, -, holds, -⟩
      have mem : appends[step] ∈ appends := List.getElem_mem (by omega)
      have taken : appends.take (step + 1) = appends.take step ++ [appends[step]] :=
        List.take_succ_eq_append_getElem (by omega)
      have text : appendedText kernel (appends.take (step + 1)) =
          appendedText kernel (appends.take step) ++ (appends[step]).text kernel := by
        rw [taken, appendedText, List.flatMap_append, List.flatMap_singleton]
        rfl
      have counted : counter.Counts
          (min (appendedText kernel (appends.take (step + 1))).length (size.bytes - 1)) := by
        apply counts.mono
        have whole : appendedText kernel appends =
            appendedText kernel (appends.take (step + 1)) ++
              appendedText kernel (appends.drop (step + 1)) := by
          simp only [appendedText, ← List.flatMap_append, List.take_append_drop]
        rw [whole, List.length_append]
        omega
      rw [text] at counted ⊢
      obtain ⟨next, stepped, holdsNext, terminator⟩ :=
        append_holds nonempty holds (matching _ mem) (fits _ mem) counted
      have count := holdsNext.count
      refine ⟨next, ?_, by omega, by omega, holdsNext, fun _ => terminator⟩
      rw [appendAll] at run ⊢
      rw [taken, List.foldlM_append, run]
      simp only [List.foldlM_cons, List.foldlM_nil, bind_pure]
      exact stepped

/-- The append of a number to `ab`. -/
def numberAppend (value : BitVec 32) : Append := ⟨decimalFormat, [.int value]⟩

/-- `ab57` and `ab1` leave `ab57a` in a buffer of 6 bytes. -/
theorem appendAll_truncates_ab57ab1 :
    ∃ state,
      appendAll true .int ⟨6, by decide⟩ (fun _ => 1) [numberAppend 57, numberAppend 1] =
          .ok state ∧
        0 ≤ state.n ∧ state.n ≤ (6 : ℕ) - 1 ∧
        HoldsPrefix 6 (appendedText true [numberAppend 57, numberAppend 1]) state ∧
        state.cells state.n = 0 := by
  have matching : ∀ call ∈ [numberAppend 57, numberAppend 1], call.Matching := by
    intro call mem
    rcases List.mem_pair.mp mem with rfl | rfl
    · exact decimalFormat_matches 57
    · exact decimalFormat_matches 1
  have fits : ∀ call ∈ [numberAppend 57, numberAppend 1], (call.text true).length < 2 ^ 31 := by
    intro call mem
    rcases List.mem_pair.mp mem with rfl | rfl <;> decide
  obtain ⟨state, run, lower, upper, holds, terminator⟩ := appendAll_truncates true .int
    ⟨6, by decide⟩ (by decide) (fun _ => 1) [numberAppend 57, numberAppend 1] matching fits
    (Nat.lt_of_le_of_lt (Nat.min_le_right _ _) (by decide)) 2 (by decide)
  exact ⟨state, run, lower, upper, holds, terminator (by decide)⟩

/-- The append of the string of 2^31 characters. -/
def longAppend : Append := ⟨stringFormat, [.string (some longString)]⟩

theorem longAppend_returned {n : BufferSize} (bytes : n.bytes = 2 ^ 32) (contents : ℤ → UInt8) :
    (ksnprintf true n longAppend.format longAppend.args contents).returned = .ok (-1) := by
  have counted := kvsnprintf_returned true n (stringFormat_matches longString) contents
  have negative : int32 ((2 ^ 31 : ℕ) : ℤ) = -2 ^ 31 := by decide
  have large : sizeT (-2 ^ 31) = 2 ^ 64 - 2 ^ 31 := by decide
  have last : int32 (sub64 (2 ^ 32) 1) = -1 := by decide
  rw [rendering_stringFormat, longString_length, negative] at counted
  rw [ksnprintf, longAppend, counted, Except.map, bytes, large, if_pos (by norm_num), last]

/--
A rendering of 2^31 characters in a buffer of 2^32 bytes makes `n` negative, and no
append at all leaves a buffer without a NUL as it was.
-/
theorem appendAll_counter_wraps :
    longAppend.Matching ∧
      (∃ state, appendAll true .int ⟨2 ^ 32, by decide⟩ (fun _ => 0) [longAppend] = .ok state ∧
        state.n = -1) ∧
      ∃ state, appendAll true .int ⟨1, by decide⟩ (fun _ => 1) [] = .ok state ∧
        state.cells state.n ≠ 0 := by
  refine ⟨stringFormat_matches longString, ?_, ⟨fun _ => 1, 0⟩, rfl, by decide⟩
  have rest : sub64 (2 ^ 32) (sizeT 0) = 2 ^ 32 := by decide
  have isObject : sub64 (2 ^ 32) (sizeT 0) < 2 ^ 63 := by decide
  have appended := @append_of_returned true .int ⟨2 ^ 32, by decide⟩ ⟨fun _ => 0, 0⟩ longAppend (-1)
    isObject (longAppend_returned rest fun _ => 0)
  simp only [appendAll, List.foldlM_cons, List.foldlM_nil, bind_pure, appended]
  exact ⟨_, rfl, rfl⟩

end Dvnetos.Stdio
