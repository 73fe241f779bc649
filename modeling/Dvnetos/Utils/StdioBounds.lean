import Dvnetos.Utils.Rendering

/-!
# Where formatted output stores

The literal branch and `formatChar` test the room that is left; the other
handlers and the `%%` branch compare with `n - 1`, which is the largest
`size_t` when no room is left. A conversion that starts behind the end of the
buffer therefore stores there. This file finds the exact condition under which
a call stores only inside its buffer: no number, string or pointer with at least
one character may start where `rem` is zero.
-/

namespace Dvnetos.Stdio

open Word

/-- An index of a buffer of `n` bytes. -/
def Inside (n : ℕ) (index : ℤ) : Prop := 0 ≤ index ∧ index < n

/-- Printing this chunk at position `j` stores only inside the buffer. -/
def ChunkInside (n : ℕ) (j : ℤ) : Chunk → Prop
  | .literal _ => True
  | .character _ => True
  | .percent => 0 < n ∨ j = -1
  | .text chars => chars = [] ∨ rem j n ≠ 0

/-- Every chunk is inside where it starts, the first one starting at `j`. -/
def ChunksInside (n : ℕ) : ℤ → List Chunk → Prop
  | _, [] => True
  | j, chunk :: rest =>
      ChunkInside n j chunk ∧ ChunksInside n (int32 (j + chunk.chars.length)) rest

theorem rem_eq_zero_iff {n : ℕ} {j : ℤ} (isObject : n < 2 ^ 63) (lower : -2 ^ 31 ≤ j)
    (upper : j < 2 ^ 31) : rem j n = 0 ↔ ¬Inside n j := by
  rw [rem, Inside, sub64, sizeT]
  split <;> omega

theorem rem_natCast {n offset : ℕ} (isObject : n < 2 ^ 63) (fits : offset < 2 ^ 31) :
    rem offset n = n - offset := by
  rw [rem, sizeT_natCast (by omega)]
  split_ifs with behind
  · exact (Nat.sub_eq_zero_of_le behind).symm
  · exact sub64_of_le (by omega) (by omega)

theorem rem_of_inside {n : ℕ} {j : ℤ} (isObject : n < 2 ^ 63) (lower : -2 ^ 31 ≤ j)
    (upper : j < 2 ^ 31) (inside : Inside n j) : (rem j n : ℤ) = n - j := by
  unfold Inside at inside
  rw [rem, sub64, sizeT]
  split <;> omega

theorem putText_position (base : ℤ) (n : ℕ) (text : List UInt8) (sink : Sink) (j : ℤ) :
    (putText base n text (sink, int32 j)).2 = int32 (j + text.length) := by
  induction text generalizing sink j with
  | nil => simp
  | cons c text ih =>
      rw [putText_cons, putChar, int32_int32_add]
      rw [ih]
      congr 1
      push_cast [List.length_cons]
      ring

theorem putText_total_chars (base : ℤ) (n : ℕ) (text : List UInt8) (buffer : TracedStore ℤ UInt8)
    (total j : ℤ) :
    (putText base n text ({ buffer, total_chars := int32 total }, j)).1.total_chars =
      int32 (total + text.length) := by
  induction text generalizing buffer total j with
  | nil => simp
  | cons c text ih =>
      rw [putText_cons, putChar, int32_int32_add]
      rw [ih]
      congr 1
      push_cast [List.length_cons]
      ring

theorem handle_returned (n : ℕ) (j : ℤ) (sink : Sink) (chunk : Chunk) :
    (handle n j sink chunk).2 = int32 chunk.chars.length := by
  have one : int32 1 = 1 := int32_of_fits (by norm_num) (by norm_num)
  cases chunk with
  | literal c => simp [handle, Chunk.chars, one]
  | percent => simp [handle, Chunk.chars, one]
  | character c => simp [handle, formatChar, Chunk.chars, one]
  | text chars =>
      have position := putText_position j (rem j n) chars sink 0
      simpa [handle, Chunk.chars, int32_of_fits] using position

theorem putChunk_position (n : ℕ) (sink : Sink) (j : ℤ) (chunk : Chunk) :
    (putChunk n (sink, j) chunk).2 = int32 (j + chunk.chars.length) := by
  simp only [putChunk, handle_returned, int32_add_int32]

theorem putChar_within {n : ℕ} {base : ℤ} {size : ℕ} {sink : Sink} {j : ℤ} {c : UInt8} :
    (putChar base n (sink, j) c).1.buffer.Within (Inside size) ↔
      (sizeT j < sub64 n 1 → Inside size (base + j)) ∧ sink.buffer.Within (Inside size) := by
  simp only [putChar]
  split_ifs with stores
  · simp [stores]
  · simp [stores]

/-- A footprint only grows, so a store outside is never undone. -/
theorem within_of_putText_within {base : ℤ} {n : ℕ} {text : List UInt8} {size : ℕ} {sink : Sink}
    {j : ℤ} (within : (putText base n text (sink, j)).1.buffer.Within (Inside size)) :
    sink.buffer.Within (Inside size) := by
  induction text generalizing sink j with
  | nil => exact within
  | cons c text ih =>
      rw [putText_cons] at within
      exact (putChar_within.mp (ih within)).2

/-- A handler that starts inside the buffer stores only inside it. -/
theorem putText_within {base : ℤ} {n : ℕ} (isObject : n < 2 ^ 63) (lower : -2 ^ 31 ≤ base)
    (upper : base < 2 ^ 31) (inside : Inside n base) {text : List UInt8} {sink : Sink} {j : ℤ}
    (start : sink.buffer.Within (Inside n)) (jLower : -2 ^ 31 ≤ j) (jUpper : j < 2 ^ 31) :
    (putText base (rem base n) text (sink, j)).1.buffer.Within (Inside n) := by
  induction text generalizing sink j with
  | nil => exact start
  | cons c text ih =>
      rw [putText_cons]
      refine ih ?_ (int32_lower _) (int32_upper _)
      refine putChar_within.mpr ⟨fun stores => ?_, start⟩
      have room := rem_of_inside isObject lower upper inside
      simp only [Inside] at inside ⊢
      unfold sub64 sizeT at stores
      omega

theorem putChunk_within {n : ℕ} (isObject : n < 2 ^ 63) {sink : Sink} {j : ℤ}
    (lower : -2 ^ 31 ≤ j) (upper : j < 2 ^ 31) (chunk : Chunk) :
    (putChunk n (sink, j) chunk).1.buffer.Within (Inside n) ↔
      ChunkInside n j chunk ∧ sink.buffer.Within (Inside n) := by
  have noRoom := rem_eq_zero_iff isObject lower upper
  cases chunk with
  | literal c =>
      simp only [putChunk, handle, ChunkInside, true_and]
      split_ifs with room
      · have inside : Inside n j := by
          by_contra outside
          rw [← noRoom] at outside
          omega
        simp [inside]
      · rfl
  | percent =>
      simp only [putChunk, handle, ChunkInside, putChar_within, zero_add]
      refine and_congr_left fun _ => ?_
      simp only [Inside, sub64, sizeT]
      omega
  | character c =>
      simp only [putChunk, handle, formatChar, ChunkInside, true_and]
      split_ifs with room
      · have inside : Inside n j := by
          by_contra outside
          rw [← noRoom] at outside
          omega
        simp [inside]
      · rfl
  | text chars =>
      simp only [putChunk, handle, ChunkInside]
      constructor
      · intro within
        refine ⟨?_, within_of_putText_within within⟩
        rcases chars with _ | ⟨c, chars⟩
        · exact Or.inl rfl
        · right
          intro full
          -- with no room the first character is stored at `j` itself
          have first := (putChar_within.mp (within_of_putText_within (putText_cons .. ▸ within))).1
          rw [full] at first
          rw [noRoom] at full
          exact full (by simpa using first (by decide))
      · rintro ⟨empty | room, start⟩
        · simpa [empty] using start
        · have inside : Inside n j := by
            by_contra outside
            exact room (noRoom.mpr outside)
          exact putText_within isObject lower upper inside start (by norm_num) (by norm_num)

theorem putChunks_within {n : ℕ} (isObject : n < 2 ^ 63) (chunks : List Chunk) (sink : Sink) {j : ℤ}
    (lower : -2 ^ 31 ≤ j) (upper : j < 2 ^ 31) :
    (putChunks n chunks (sink, j)).1.buffer.Within (Inside n) ↔
      ChunksInside n j chunks ∧ sink.buffer.Within (Inside n) := by
  induction chunks generalizing sink j with
  | nil => simp [ChunksInside]
  | cons chunk rest ih =>
      have position := putChunk_position n sink j chunk
      rw [putChunks_cons, ← Prod.mk.eta (p := putChunk n (sink, j) chunk), position,
        ih _ (int32_lower _) (int32_upper _), putChunk_within isObject lower upper, ChunksInside]
      tauto

/-- The terminating NUL is stored inside every buffer with room for it. -/
theorem terminate_within {n : ℕ} (isObject : n < 2 ^ 63) {j : ℤ} (lower : -2 ^ 31 ≤ j)
    (upper : j < 2 ^ 31) (buffer : TracedStore ℤ UInt8) :
    (terminate n j buffer).Within (Inside n) ↔ buffer.Within (Inside n) := by
  simp only [terminate]
  split_ifs with room nonempty
  · have inside : Inside n j := by
      simp only [Inside]
      unfold sizeT at room
      omega
    simp only [TracedStore.within_store, inside, true_and]
  · have inside : Inside n (sub64 n 1) := by
      simp only [Inside, sub64]
      omega
    simp only [TracedStore.within_store, inside, true_and]
  · rfl

theorem kvsnprintf_buffer (kernel : Bool) (n : BufferSize) (format : CString) (args : List Arg)
    (contents : ℤ → UInt8) :
    (kvsnprintf kernel n format args contents).buffer =
      let (sink, j) := putChunks n.bytes (chunks kernel format args)
        ({ buffer := .fresh contents, total_chars := 0 }, 0)
      if (stop kernel format args).isSome then sink.buffer
      else terminate n.bytes j sink.buffer := by
  simp only [kvsnprintf, scanLoop_eq_putChunks, chunks, stop]
  split
  · next stopped => simp [stopped]
  · next finished => simp [finished]

theorem putChunks_position_fits (n : ℕ) (chunks : List Chunk) (sink : Sink) {j : ℤ}
    (lower : -2 ^ 31 ≤ j) (upper : j < 2 ^ 31) :
    -2 ^ 31 ≤ (putChunks n chunks (sink, j)).2 ∧ (putChunks n chunks (sink, j)).2 < 2 ^ 31 := by
  induction chunks generalizing sink j with
  | nil => exact ⟨lower, upper⟩
  | cons chunk rest ih =>
      have position := putChunk_position n sink j chunk
      rw [putChunks_cons, ← Prod.mk.eta (p := putChunk n (sink, j) chunk), position]
      exact ih _ (int32_lower _) (int32_upper _)

/--
A call stores only inside its buffer exactly if every conversion with a loop of
its own that prints something starts where there is room left.
-/
theorem kvsnprintf_within_iff (kernel : Bool) (n : BufferSize) (format : CString)
    (args : List Arg) (contents : ℤ → UInt8) :
    (kvsnprintf kernel n format args contents).buffer.Within (Inside n.bytes) ↔
      ChunksInside n.bytes 0 (chunks kernel format args) := by
  have within := putChunks_within n.isObject (chunks kernel format args)
    { buffer := .fresh contents, total_chars := 0 } (j := 0) (by norm_num) (by norm_num)
  obtain ⟨lower, upper⟩ := putChunks_position_fits n.bytes (chunks kernel format args)
    { buffer := .fresh contents, total_chars := 0 } (j := 0) (by norm_num) (by norm_num)
  rw [kvsnprintf_buffer]
  split_ifs
  · simpa using within
  · rw [terminate_within n.isObject lower upper]
    simpa using within

/--
Three characters fill a buffer of 3 bytes; the `%d` behind them stores its
digit at index 3.
-/
theorem kvsnprintf_stores_behind :
    ¬(kvsnprintf true ⟨3, by decide⟩ ⟨['a', 'b', 'c', '%', 'd'].map chr, by decide⟩
      [.int 1] (fun _ => 0)).buffer.Within (Inside 3) := by
  intro within
  have stored : (3 : ℤ) ∈ (kvsnprintf true ⟨3, by decide⟩
      ⟨['a', 'b', 'c', '%', 'd'].map chr, by decide⟩ [.int 1] (fun _ => 0)).buffer.footprint := by
    decide
  exact absurd (within 3 stored).2 (by decide)

end Dvnetos.Stdio
