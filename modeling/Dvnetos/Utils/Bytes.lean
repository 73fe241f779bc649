import Dvnetos.Lib.Fallible
import Dvnetos.Utils.ByteParts
import Dvnetos.Utils.StdioAppends

/-!
# Human readable byte counts

This file models `bytesToHumanReadable` from `utils/bytes.cpp`, which prints the
largest unit of a byte count and calls itself on the remainder behind it. The
separator between two parts is stored over the NUL of the first one; if that was
the last byte of the buffer, the call on the remainder gets no room, in which
`kvsnprintf` stores digits and no NUL. So the text is right if and only if there
is room for all parts but the last with the spaces behind them.
-/

namespace Dvnetos.Bytes

open Stdio Word

/-- `ksnprintf(buf, len, format, ...)` with a buffer that lies at `buf` in memory. -/
def ksnprintfAt (kernel : Bool) (memory : TracedStore ℤ UInt8) (buf : ℤ) (len : ℕ)
    (format : CString) (args : List Arg) : Except AppendStop (TracedStore ℤ UInt8 × ℤ) :=
  if isObject : len < 2 ^ 63 then
    let output := ksnprintf kernel ⟨len, isObject⟩ format args
      fun index => memory.cells (buf + index)
    match output.returned with
    | .error stop => .error (.stopped stop)
    | .ok result =>
        .ok ({ cells := fun address => output.buffer.cells (address - buf)
               footprint := output.buffer.footprint.map (buf + ·) ++ memory.footprint }, result)
  else .error (.badSize len)

/-- The formats `"%lu B"`, `"%lu KiB"`, `"%lu MiB"` and `"%lu GiB"`. -/
def unitFormat : ByteUnit → CString
  | .b => ⟨['%', 'l', 'u', ' ', 'B'].map chr, by decide⟩
  | .kib => ⟨['%', 'l', 'u', ' ', 'K', 'i', 'B'].map chr, by decide⟩
  | .mib => ⟨['%', 'l', 'u', ' ', 'M', 'i', 'B'].map chr, by decide⟩
  | .gib => ⟨['%', 'l', 'u', ' ', 'G', 'i', 'B'].map chr, by decide⟩

/-- What one branch of `bytesToHumanReadable` prints, and its `remainder`. -/
structure FirstPart where
  unit : ByteUnit
  value : ℕ
  remainder : ℕ

/-- The four branches. -/
def firstPart (bytes : ℕ) : FirstPart :=
  if bytes < 1024 then
    { unit := .b, value := bytes, remainder := 0 }
  else if bytes < 1024 * 1024 then
    { unit := .kib, value := bytes / 1024, remainder := bytes % 1024 }
  else if bytes < 1024 * 1024 * 1024 then
    { unit := .mib, value := bytes / 1024 / 1024, remainder := bytes % (1024 * 1024) }
  else
    { unit := .gib, value := bytes / 1024 / 1024 / 1024, remainder := bytes % (1024 * 1024 * 1024) }

theorem firstPart_remainder_lt {bytes : ℕ} (more : 0 < (firstPart bytes).remainder) :
    (firstPart bytes).remainder < bytes := by
  simp only [firstPart] at more ⊢
  split_ifs at more ⊢
  · exact absurd more (lt_irrefl 0)
  · exact (Nat.mod_lt _ (by omega)).trans_le (by omega)
  · exact (Nat.mod_lt _ (by omega)).trans_le (by omega)
  · exact (Nat.mod_lt _ (by omega)).trans_le (by omega)

/--
`bytesToHumanReadable(buf, len, bytes)`. In the branch for single bytes `llen` stays
0, which nothing reads, since there is no remainder.
-/
def bytesToHumanReadable (kernel : Bool) (memory : TracedStore ℤ UInt8) (buf : ℤ) (len : ℕ)
    (bytes : ℕ) : Except AppendStop (TracedStore ℤ UInt8) := do
  let (memory, llen) ← ksnprintfAt kernel memory buf len (unitFormat (firstPart bytes).unit)
    [.long (BitVec.ofNat 64 (firstPart bytes).value)]
  if _more : 0 < (firstPart bytes).remainder ∧ sizeT llen < len then
    let next := int32 (llen + 1)
    bytesToHumanReadable kernel (memory.store (buf + llen) (chr ' ')) (buf + next)
      (sub64 len (sizeT next)) (firstPart bytes).remainder
  else pure memory
termination_by bytes
decreasing_by exact firstPart_remainder_lt _more.1

theorem unitFormat_matches (unit : ByteUnit) (value : BitVec 64) :
    Matches (unitFormat unit).chars [.long value] := by
  have unsigned (type : UInt8) (isU : type = chr 'u') : IsNumber type :=
    Or.inr (Or.inr (Or.inr (Or.inr isU)))
  cases unit with
  | b =>
      exact .conversion (by decide) rfl ⟨unsigned _ rfl, rfl, by decide⟩
        (.literal (by decide) (.literal (by decide) .done))
  | kib =>
      exact .conversion (by decide) rfl ⟨unsigned _ rfl, rfl, by decide⟩
        (.literal (by decide) (.literal (by decide) (.literal (by decide)
          (.literal (by decide) .done))))
  | mib =>
      exact .conversion (by decide) rfl ⟨unsigned _ rfl, rfl, by decide⟩
        (.literal (by decide) (.literal (by decide) (.literal (by decide)
          (.literal (by decide) .done))))
  | gib =>
      exact .conversion (by decide) rfl ⟨unsigned _ rfl, rfl, by decide⟩
        (.literal (by decide) (.literal (by decide) (.literal (by decide)
          (.literal (by decide) .done))))

theorem chunks_unitFormat (kernel : Bool) (unit : ByteUnit) (value : BitVec 64) :
    chunks kernel (unitFormat unit) [.long value] =
      .text (digits 10 decimalDigit value.toNat) :: .literal (chr ' ') ::
        unit.name.map Chunk.literal := by
  cases unit <;> rfl

theorem charsOf_literals (chars : List UInt8) : charsOf (chars.map Chunk.literal) = chars := by
  induction chars with
  | nil => rfl
  | cons c chars ih => simp [Chunk.chars, ih]

theorem rendering_unitFormat (kernel : Bool) (unit : ByteUnit) {value : ℕ}
    (isWord : value < 2 ^ 64) :
    rendering kernel (unitFormat unit) [.long (BitVec.ofNat 64 value)] =
      Part.text ⟨value, unit⟩ := by
  have number : (BitVec.ofNat 64 value).toNat = value := Nat.mod_eq_of_lt isWord
  simp only [rendering, chunks_unitFormat, number, charsOf_cons, charsOf_literals, Chunk.chars,
    Part.text, List.singleton_append]

theorem chunksInside_unitFormat (kernel : Bool) (unit : ByteUnit) (value : BitVec 64) (n : ℕ) :
    ChunksInside n 0 (chunks kernel (unitFormat unit) [.long value]) ↔ rem 0 n ≠ 0 := by
  have literals (j : ℤ) (chars : List UInt8) : ChunksInside n j (chars.map Chunk.literal) := by
    induction chars generalizing j with
    | nil => trivial
    | cons c chars ih => exact ⟨trivial, ih _⟩
  have nonempty : digits 10 decimalDigit value.toNat ≠ [] :=
    @digits_ne_nil 10 (by omega) _ _
  simp [chunks_unitFormat, ChunksInside, ChunkInside, literals, nonempty]

/-- What a call at `buf` stores lies between `buf` and `buf + len`. -/
structure StoresBetween (buf : ℤ) (len : ℕ) (before after : TracedStore ℤ UInt8) : Prop where
  front : ∀ address < buf, after.cells address = before.cells address
  footprint : ∀ address ∈ after.footprint,
    (buf ≤ address ∧ address < buf + len) ∨ address ∈ before.footprint

/-- The first `len - 1` characters of a text and a NUL behind them are in memory at `buf`. -/
structure Truncated (buf : ℤ) (len : ℕ) (text : List UInt8) (memory : TracedStore ℤ UInt8) :
    Prop where
  cells : ∀ k (bound : k < text.length), k < len - 1 → memory.cells (buf + k) = text[k]
  terminator : memory.cells (buf + (min text.length (len - 1) : ℕ)) = 0

/-- The memory behind a call at `buf`. -/
def callMemory (memory : TracedStore ℤ UInt8) (buf : ℤ) (output : Output) : TracedStore ℤ UInt8 :=
  { cells := fun address => output.buffer.cells (address - buf)
    footprint := output.buffer.footprint.map (buf + ·) ++ memory.footprint }

theorem ksnprintfAt_of_returned {kernel : Bool} {memory : TracedStore ℤ UInt8} {buf : ℤ}
    {n : BufferSize} {format : CString} {args : List Arg} {result : ℤ}
    (returned : (ksnprintf kernel n format args
      fun index => memory.cells (buf + index)).returned = .ok result) :
    ksnprintfAt kernel memory buf n.bytes format args =
      .ok (callMemory memory buf
        (ksnprintf kernel n format args fun index => memory.cells (buf + index)), result) := by
  simp only [ksnprintfAt, dif_pos n.isObject]
  rw [returned]
  rfl

theorem length_unitText_le (unit : ByteUnit) {value : ℕ} (isWord : value < 2 ^ 64) :
    (Part.text ⟨value, unit⟩).length ≤ 24 := by
  have number := @length_decimal_le value 20 (by omega) (isWord.trans (by norm_num))
  have name : unit.name.length ≤ 3 := by cases unit <;> decide
  simp only [Part.text, List.length_append, List.length_cons]
  omega

theorem rendering_unitFormat_fits (kernel : Bool) (unit : ByteUnit) {value : ℕ}
    (isWord : value < 2 ^ 64) :
    (rendering kernel (unitFormat unit) [.long (BitVec.ofNat 64 value)]).length < 2 ^ 31 := by
  rw [rendering_unitFormat kernel unit isWord]
  exact (length_unitText_le unit isWord).trans_lt (by omega)

/-- A call with room prints the text of its part. -/
theorem ksnprintfAt_of_room (kernel : Bool) (memory : TracedStore ℤ UInt8) (buf : ℤ) {len : ℕ}
    (isObject : len < 2 ^ 63) (room : 1 ≤ len) (unit : ByteUnit) {value : ℕ}
    (isWord : value < 2 ^ 64) :
    ∃ next, ksnprintfAt kernel memory buf len (unitFormat unit) [.long (BitVec.ofNat 64 value)] =
        .ok (next, (min (Part.text ⟨value, unit⟩).length (len - 1) : ℕ)) ∧
      StoresBetween buf len memory next ∧ Truncated buf len (Part.text ⟨value, unit⟩) next := by
  let n : BufferSize := ⟨len, isObject⟩
  let contents (index : ℤ) : UInt8 := memory.cells (buf + index)
  have matching := unitFormat_matches unit (BitVec.ofNat 64 value)
  have text := rendering_unitFormat kernel unit isWord
  have fits := rendering_unitFormat_fits kernel unit isWord
  have hasRoom : rem 0 len ≠ 0 := by
    rw [← Nat.cast_zero, rem_natCast isObject (by omega)]
    omega
  have inside := (kvsnprintf_inside_chunks kernel n contents matching).mpr
    ((chunksInside_unitFormat kernel unit _ len).mpr hasRoom)
  have front := kvsnprintf_frame kernel n contents matching fits
  obtain ⟨returned, cells, terminator⟩ :=
    ksnprintf_holds kernel (n := n) contents matching room fits
  simp only [text] at returned cells terminator
  refine ⟨_, ksnprintfAt_of_returned returned, ⟨?_, ?_⟩, ⟨?_, ?_⟩⟩
  · intro address before
    have kept := front.cells (address - buf) (by omega)
    have sum : buf + (address - buf) = address := by omega
    exact kept.trans (congrArg memory.cells sum)
  · intro address stored
    rcases List.mem_append.mp stored with new | old
    · rcases List.mem_map.mp new with ⟨index, mem, rfl⟩
      rcases inside index mem with ⟨lower, upper⟩
      exact Or.inl ⟨by omega, by change _ < buf + n.bytes; omega⟩
    · exact Or.inr old
  · intro k bound below
    simpa [callMemory] using cells k bound below
  · simpa [callMemory] using terminator

/-- A call without room stores at its buffer, which it may not, and returns -1. -/
theorem ksnprintfAt_of_noRoom (kernel : Bool) (memory : TracedStore ℤ UInt8) (buf : ℤ)
    (unit : ByteUnit) {value : ℕ} (isWord : value < 2 ^ 64) :
    ∃ next, ksnprintfAt kernel memory buf 0 (unitFormat unit) [.long (BitVec.ofNat 64 value)] =
        .ok (next, -1) ∧
      ∃ address ∈ next.footprint, buf ≤ address := by
  let n : BufferSize := ⟨0, by norm_num⟩
  let contents (index : ℤ) : UInt8 := memory.cells (buf + index)
  have matching := unitFormat_matches unit (BitVec.ofNat 64 value)
  have fits := rendering_unitFormat_fits kernel unit isWord
  have noRoom : ¬rem 0 0 ≠ 0 := by decide
  have outside := mt (kvsnprintf_inside_chunks kernel n contents matching).mp
    (mt (chunksInside_unitFormat kernel unit _ 0).mp noRoom)
  have front := kvsnprintf_frame kernel n contents matching fits
  have returned : (ksnprintf kernel n (unitFormat unit) [.long (BitVec.ofNat 64 value)]
      contents).returned = .ok (-1) := by
    have last : int32 (sub64 0 1) = -1 := by decide
    simp only [ksnprintf, kvsnprintf_returned kernel n matching contents, Except.map]
    rw [if_pos (Nat.zero_le _), last]
  refine ⟨_, ksnprintfAt_of_returned returned, ?_⟩
  simp only [TracedStore.Within, not_forall] at outside
  rcases outside with ⟨index, stored, -⟩
  have nonneg : 0 ≤ index := by simpa using front.footprint index stored
  refine ⟨buf + index, List.mem_append_left _ (List.mem_map_of_mem stored), by omega⟩

/-- The first part of a count, and the parts of the remainder behind it. -/
theorem parts_eq_firstPart (bytes : ℕ) :
    parts bytes =
      ⟨(firstPart bytes).value, (firstPart bytes).unit⟩ ::
        nonzeroParts (firstPart bytes).remainder := by
  simp only [firstPart]
  split_ifs with b kib mib
  · rcases Nat.eq_zero_or_pos bytes with rfl | positive
    · rfl
    · rw [parts_of_ne_zero (by omega), nonzeroParts_of_b positive b, nonzeroParts_zero]
  · rw [parts_of_ne_zero (by omega), nonzeroParts_of_kib (by omega) kib]
  · rw [parts_of_ne_zero (by omega), nonzeroParts_of_mib (by omega) mib]
  · rw [parts_of_ne_zero (by omega), nonzeroParts_of_gib (by omega)]

theorem firstPart_value_le (bytes : ℕ) : (firstPart bytes).value ≤ bytes := by
  simp only [firstPart]
  split_ifs
  · exact le_rfl
  · exact Nat.div_le_self _ _
  · exact (Nat.div_le_self _ _).trans (Nat.div_le_self _ _)
  · exact ((Nat.div_le_self _ _).trans (Nat.div_le_self _ _)).trans (Nat.div_le_self _ _)

/-- The characters of all parts but the last, each with the space behind it. -/
def separated (bytes : ℕ) : ℕ := width (parts bytes).dropLast

theorem separated_of_last {bytes : ℕ} (last : (firstPart bytes).remainder = 0) :
    parts bytes = [⟨(firstPart bytes).value, (firstPart bytes).unit⟩] ∧ separated bytes = 0 := by
  have whole := parts_eq_firstPart bytes
  rw [last, nonzeroParts_zero] at whole
  exact ⟨whole, by simp [separated, whole, width]⟩

theorem separated_of_more {bytes : ℕ} (more : 0 < (firstPart bytes).remainder) :
    parts bytes = ⟨(firstPart bytes).value, (firstPart bytes).unit⟩ ::
        parts (firstPart bytes).remainder ∧
      separated bytes = (Part.text ⟨(firstPart bytes).value, (firstPart bytes).unit⟩).length + 1 +
        separated (firstPart bytes).remainder := by
  have whole := parts_eq_firstPart bytes
  rw [← parts_of_ne_zero (by omega)] at whole
  refine ⟨whole, ?_⟩
  rw [separated, whole, List.dropLast_cons_of_ne_nil (parts_ne_nil _)]
  rfl

/-- The call on the remainder, behind the space. -/
theorem bytesToHumanReadable_of_more {kernel : Bool} {memory next : TracedStore ℤ UInt8} {buf : ℤ}
    {len bytes llen : ℕ}
    (called : ksnprintfAt kernel memory buf len (unitFormat (firstPart bytes).unit)
      [.long (BitVec.ofNat 64 (firstPart bytes).value)] = .ok (next, (llen : ℤ)))
    (more : 0 < (firstPart bytes).remainder) (lt : llen < len) (isObject : len < 2 ^ 63)
    (counted : llen + 1 < 2 ^ 31) :
    bytesToHumanReadable kernel memory buf len bytes =
      bytesToHumanReadable kernel (next.store (buf + llen) (chr ' ')) (buf + (llen + 1 : ℕ))
        (len - (llen + 1)) (firstPart bytes).remainder := by
  have guard : sizeT llen < len := by
    rw [sizeT_natCast (by omega)]
    exact lt
  have advanced : int32 ((llen : ℤ) + 1) = (llen + 1 : ℕ) := int32_succ counted
  have rest : sub64 len (sizeT (llen + 1 : ℕ)) = len - (llen + 1) := by
    rw [sizeT_natCast (by omega), sub64_of_le (by omega) lt]
  rw [bytesToHumanReadable, called]
  simp only [Fallible.ok_bind, more, guard, and_self, dif_pos, advanced, rest]

theorem bytesToHumanReadable_of_done {kernel : Bool} {memory next : TracedStore ℤ UInt8} {buf : ℤ}
    {len bytes : ℕ} {llen : ℤ}
    (called : ksnprintfAt kernel memory buf len (unitFormat (firstPart bytes).unit)
      [.long (BitVec.ofNat 64 (firstPart bytes).value)] = .ok (next, llen))
    (done : ¬(0 < (firstPart bytes).remainder ∧ sizeT llen < len)) :
    bytesToHumanReadable kernel memory buf len bytes = .ok next := by
  rw [bytesToHumanReadable, called]
  simp only [Fallible.ok_bind, dif_neg done]
  rfl

/-- A text, a space over its NUL, and a text behind the space. -/
theorem Truncated.join {buf : ℤ} {len : ℕ} {text rest : List UInt8}
    {next final : TracedStore ℤ UInt8} (room : text.length + 1 < len)
    (first : Truncated buf len text next)
    (stores : StoresBetween (buf + (text.length + 1 : ℕ)) (len - (text.length + 1))
      (next.store (buf + text.length) (chr ' ')) final)
    (second : Truncated (buf + (text.length + 1 : ℕ)) (len - (text.length + 1)) rest final) :
    Truncated buf len (text ++ chr ' ' :: rest) final := by
  have length : (text ++ chr ' ' :: rest).length = text.length + 1 + rest.length := by
    simp
    omega
  constructor
  · intro k bound below
    rw [length] at bound
    rcases Nat.lt_trichotomy k text.length with before | rfl | behind
    · rw [stores.front _ (by omega), TracedStore.cells_store_of_ne _ _ (by omega),
        first.cells k before below, List.getElem_append_left]
    · rw [stores.front _ (by omega), TracedStore.cells_store_same]
      simp
    · rcases Nat.exists_eq_add_of_lt behind with ⟨index, rfl⟩
      have address : buf + ((text.length + index + 1 : ℕ) : ℤ) =
          buf + (text.length + 1 : ℕ) + index := by omega
      have offset : text.length + index + 1 - text.length = index + 1 := by omega
      rw [address, second.cells index (by omega) (by omega), List.getElem_append_right (by omega)]
      simp only [offset, List.getElem_cons_succ]
  · have address : buf + ((min (text ++ chr ' ' :: rest).length (len - 1) : ℕ) : ℤ) =
        buf + (text.length + 1 : ℕ) +
          (min rest.length (len - (text.length + 1) - 1) : ℕ) := by
      rw [length]
      omega
    rw [address]
    exact second.terminator

/-- What a call and a call behind it store lies between the start of the first and the end. -/
theorem StoresBetween.join {buf : ℤ} {len : ℕ} {count : ℕ} {memory next final : TracedStore ℤ UInt8}
    (room : count + 1 < len) (first : StoresBetween buf len memory next)
    (second : StoresBetween (buf + (count + 1 : ℕ)) (len - (count + 1))
      (next.store (buf + count) (chr ' ')) final) :
    StoresBetween buf len memory final := by
  constructor
  · intro address front
    rw [second.front address (by omega), TracedStore.cells_store_of_ne _ _ (by omega),
      first.front address front]
  · intro address stored
    rcases second.footprint address stored with between | earlier
    · exact Or.inl (by omega)
    · rcases List.mem_cons.mp earlier with rfl | old
      · exact Or.inl (by omega)
      · exact first.footprint address old

/-- With room for all parts but the last, the truncated text of all parts is left at `buf`. -/
theorem bytesToHumanReadable_of_room (kernel : Bool) {bytes : ℕ} (isWord : bytes < 2 ^ 64)
    (memory : TracedStore ℤ UInt8) (buf : ℤ) (len : ℕ) (isObject : len < 2 ^ 63)
    (room : separated bytes < len) :
    ∃ final, bytesToHumanReadable kernel memory buf len bytes = .ok final ∧
      StoresBetween buf len memory final ∧ Truncated buf len (textOf (parts bytes)) final := by
  induction bytes using Nat.strong_induction_on generalizing memory buf len with
  | _ bytes ih =>
      have valueIsWord := (firstPart_value_le bytes).trans_lt isWord
      obtain ⟨next, called, stores, truncated⟩ := ksnprintfAt_of_room kernel memory buf isObject
        (by omega) (firstPart bytes).unit valueIsWord
      rcases Nat.eq_zero_or_pos (firstPart bytes).remainder with last | more
      · rcases separated_of_last last with ⟨single, -⟩
        refine ⟨next, bytesToHumanReadable_of_done called (by omega), stores, ?_⟩
        rw [single, textOf_singleton]
        exact truncated
      · rcases separated_of_more more with ⟨split, width⟩
        have short := length_unitText_le (firstPart bytes).unit valueIsWord
        generalize textEq : Part.text ⟨(firstPart bytes).value, (firstPart bytes).unit⟩ = text
          at called truncated width short
        have printed : min text.length (len - 1) = text.length := by omega
        rw [printed] at called
        have smaller := firstPart_remainder_lt more
        obtain ⟨final, run, storesRest, truncatedRest⟩ := ih (firstPart bytes).remainder smaller
          (by omega) (next.store (buf + text.length) (chr ' ')) (buf + (text.length + 1 : ℕ))
          (len - (text.length + 1)) (by omega) (by omega)
        refine ⟨final, ?_, stores.join (by omega) storesRest, ?_⟩
        · rw [bytesToHumanReadable_of_more called more (by omega) isObject (by omega)]
          exact run
        · rw [split, textOf_cons _ (parts_ne_nil _), textEq]
          exact truncated.join (by omega) storesRest truncatedRest

/-- Without that room, the call on some remainder gets no room, and stores behind the buffer. -/
theorem bytesToHumanReadable_of_noRoom (kernel : Bool) {bytes : ℕ} (isWord : bytes < 2 ^ 64)
    (memory : TracedStore ℤ UInt8) (buf : ℤ) (len : ℕ) (isObject : len < 2 ^ 63)
    (nonempty : 1 ≤ len) (noRoom : len ≤ separated bytes) :
    ∃ final, bytesToHumanReadable kernel memory buf len bytes = .ok final ∧
      ∃ address ∈ final.footprint, buf + len ≤ address := by
  induction bytes using Nat.strong_induction_on generalizing memory buf len with
  | _ bytes ih =>
      have valueIsWord := (firstPart_value_le bytes).trans_lt isWord
      obtain ⟨next, called, -, -⟩ := ksnprintfAt_of_room kernel memory buf isObject nonempty
        (firstPart bytes).unit valueIsWord
      rcases Nat.eq_zero_or_pos (firstPart bytes).remainder with last | more
      · rcases separated_of_last last with ⟨-, zero⟩
        omega
      · rcases separated_of_more more with ⟨-, width⟩
        have short := length_unitText_le (firstPart bytes).unit valueIsWord
        have smaller := firstPart_remainder_lt more
        generalize Part.text ⟨(firstPart bytes).value, (firstPart bytes).unit⟩ = text
          at called width short
        rcases Nat.lt_or_ge (text.length + 1) len with fits | full
        · have printed : min text.length (len - 1) = text.length := by omega
          rw [printed] at called
          obtain ⟨final, run, address, stored, behind⟩ := ih (firstPart bytes).remainder smaller
            (by omega) (next.store (buf + text.length) (chr ' ')) (buf + (text.length + 1 : ℕ))
            (len - (text.length + 1)) (by omega) (by omega) (by omega)
          refine ⟨final, ?_, address, stored, by omega⟩
          rw [bytesToHumanReadable_of_more called more (by omega) isObject (by omega)]
          exact run
        · -- the space is stored over the NUL in the last byte
          have printed : min text.length (len - 1) = len - 1 := by omega
          have rest : len - (len - 1 + 1) = 0 := by omega
          rw [printed] at called
          obtain ⟨final, run, address, stored, behind⟩ := ksnprintfAt_of_noRoom kernel
            (next.store (buf + (len - 1 : ℕ)) (chr ' ')) (buf + (len - 1 + 1 : ℕ))
            (firstPart (firstPart bytes).remainder).unit
            ((firstPart_value_le _).trans_lt (smaller.trans isWord))
          have done :
              ¬(0 < (firstPart (firstPart bytes).remainder).remainder ∧ sizeT (-1) < 0) := by
            omega
          refine ⟨final, ?_, address, stored, by omega⟩
          rw [bytesToHumanReadable_of_more called more (by omega) isObject (by omega), rest]
          exact bytesToHumanReadable_of_done run done

theorem separated_le (bytes : ℕ) : separated bytes ≤ (textOf (parts bytes)).length := by
  have whole := length_textOf (parts_ne_nil bytes)
  have last := width_dropLast (parts_ne_nil bytes)
  simp only [separated]
  omega

/-- The string in a buffer with a truncated text. -/
theorem Truncated.stringIn_eq_take {len : ℕ} {text : List UInt8} {memory : TracedStore ℤ UInt8}
    (truncated : Truncated 0 len text memory) (nonempty : 1 ≤ len) (noNul : (0 : UInt8) ∉ text) :
    stringIn memory.cells len = text.take (len - 1) := by
  rcases truncated with ⟨cells, terminator⟩
  apply stringIn_eq
  · exact fun mem => noNul (List.mem_of_mem_take mem)
  · rw [List.length_take]
    omega
  · intro k bound
    rw [List.length_take] at bound
    have cell := cells k (by omega) (by omega)
    rw [zero_add] at cell
    rw [cell, List.getElem_take]
  · rw [zero_add, Nat.min_comm] at terminator
    rw [List.length_take]
    exact terminator

/-- With at least 41 bytes the text is complete. -/
theorem bytesToHumanReadable_text (kernel : Bool) {bytes : ℕ} (isWord : bytes < 2 ^ 64)
    (contents : ℤ → UInt8) (len : BufferSize) (large : 41 ≤ len.bytes) :
    ∃ final, bytesToHumanReadable kernel (.fresh contents) 0 len.bytes bytes = .ok final ∧
      stringIn final.cells len.bytes = textOf (parts bytes) := by
  have short := length_textOf_parts_le isWord
  have room := separated_le bytes
  obtain ⟨final, run, -, truncated⟩ := bytesToHumanReadable_of_room kernel isWord
    (.fresh contents) 0 len.bytes len.isObject (by omega)
  refine ⟨final, run, ?_⟩
  rw [truncated.stringIn_eq_take (by omega) (nul_notMem_textOf _),
    List.take_of_length_le (by omega)]

/--
A byte count is printed as a list of parts with decreasing units and without zero
parts, whose sum is the count, so that different counts have different texts.
-/
theorem bytesToHumanReadable_exact (kernel : Bool) (contents : ℤ → UInt8) (len : BufferSize)
    (large : 41 ≤ len.bytes) (bytes : ℕ) (isWord : bytes < 2 ^ 64) :
    ∃ final list, bytesToHumanReadable kernel (.fresh contents) 0 len.bytes bytes = .ok final ∧
      stringIn final.cells len.bytes = textOf list ∧
      (list.Pairwise fun part later => later.unit.size < part.unit.size) ∧
      (∀ part ∈ list, part.value = 0 → list = [⟨0, .b⟩]) ∧
      (∀ part ∈ list, part.unit ≠ .gib → part.value < 1024) ∧
      total list = bytes ∧
      ∀ other < 2 ^ 64, ∀ otherFinal,
        bytesToHumanReadable kernel (.fresh contents) 0 len.bytes other = .ok otherFinal →
        stringIn otherFinal.cells len.bytes = stringIn final.cells len.bytes → other = bytes := by
  rcases bytesToHumanReadable_text kernel isWord contents len large with ⟨final, run, text⟩
  refine ⟨final, parts bytes, run, text, parts_decreasing bytes, ?_, ?_, total_parts bytes, ?_⟩
  · intro part mem zero
    exact parts_of_zero_mem mem zero
  · intro part mem notLeading
    exact parts_value_lt mem notLeading
  · intro other otherIsWord otherFinal otherRun same
    obtain ⟨otherFinal', otherRun', otherText⟩ :=
      bytesToHumanReadable_text kernel otherIsWord contents len large
    obtain rfl : otherFinal' = otherFinal := Except.ok.inj (otherRun'.symm.trans otherRun)
    rw [otherText, text] at same
    have read := congrArg readText same
    simpa only [readText_textOf (parts_ne_nil _), total_parts] using read

/-- Sixteen GiB and one byte: the units between vanish. -/
theorem bytesToHumanReadable_exact_gib :
    ∃ final list, bytesToHumanReadable true (.fresh fun _ => 1) 0 64 17179869185 = .ok final ∧
      stringIn final.cells 64 = textOf list ∧
      (list.Pairwise fun part later => later.unit.size < part.unit.size) ∧
      (∀ part ∈ list, part.value = 0 → list = [⟨0, .b⟩]) ∧
      (∀ part ∈ list, part.unit ≠ .gib → part.value < 1024) ∧
      total list = 17179869185 ∧
      ∀ other < 2 ^ 64, ∀ otherFinal,
        bytesToHumanReadable true (.fresh fun _ => 1) 0 64 other = .ok otherFinal →
        stringIn otherFinal.cells 64 = stringIn final.cells 64 → other = 17179869185 :=
  bytesToHumanReadable_exact true (fun _ => 1) ⟨64, by norm_num⟩ (by norm_num) 17179869185
    (by norm_num)

/--
In a buffer with at least one byte, the call stores only inside the buffer and
leaves a NUL-terminated prefix of the complete text exactly if there is room for
all parts but the last, each with the space behind it.
-/
theorem bytesToHumanReadable_truncates_iff (kernel : Bool) (contents : ℤ → UInt8) (len : BufferSize)
    (nonempty : 1 ≤ len.bytes) (bytes : ℕ) (isWord : bytes < 2 ^ 64) :
    (∃ final, bytesToHumanReadable kernel (.fresh contents) 0 len.bytes bytes = .ok final ∧
      final.Within (Inside len.bytes) ∧
      (∃ k < len.bytes, final.cells (k : ℕ) = 0) ∧
      ∀ (large : BufferSize) (others : ℤ → UInt8), 41 ≤ large.bytes → ∃ complete,
        bytesToHumanReadable kernel (.fresh others) 0 large.bytes bytes = .ok complete ∧
          stringIn final.cells len.bytes <+: stringIn complete.cells large.bytes) ↔
    separated bytes < len.bytes := by
  constructor
  · rintro ⟨final, run, within, -⟩
    by_contra full
    obtain ⟨final', run', address, stored, behind⟩ := bytesToHumanReadable_of_noRoom kernel isWord
      (.fresh contents) 0 len.bytes len.isObject nonempty (by omega)
    obtain rfl : final' = final := Except.ok.inj (run'.symm.trans run)
    have inside := within address stored
    have before := inside.2
    omega
  · intro room
    obtain ⟨final, run, stores, truncated⟩ := bytesToHumanReadable_of_room kernel isWord
      (.fresh contents) 0 len.bytes len.isObject room
    refine ⟨final, run, ?_, ⟨min (textOf (parts bytes)).length (len.bytes - 1), ?_, ?_⟩, ?_⟩
    · intro address stored
      have between := stores.footprint address stored
      simpa [Inside] using between
    · exact (Nat.min_le_right (textOf (parts bytes)).length (len.bytes - 1)).trans_lt (by omega)
    · simpa using truncated.terminator
    · intro large others isLarge
      obtain ⟨complete, runLarge, text⟩ :=
        bytesToHumanReadable_text kernel isWord others large isLarge
      refine ⟨complete, runLarge, ?_⟩
      rw [text, truncated.stringIn_eq_take nonempty (nul_notMem_textOf _)]
      exact List.take_prefix _ _

/-- Seven bytes hold `1 KiB` and the space behind it. -/
theorem bytesToHumanReadable_truncates_1025 :
    ∃ final, bytesToHumanReadable true (.fresh fun _ => 1) 0 7 1025 = .ok final ∧
      final.Within (Inside 7) ∧
      (∃ k < 7, final.cells (k : ℕ) = 0) ∧
      ∀ (large : BufferSize) (others : ℤ → UInt8), 41 ≤ large.bytes → ∃ complete,
        bytesToHumanReadable true (.fresh others) 0 large.bytes 1025 = .ok complete ∧
          stringIn final.cells 7 <+: stringIn complete.cells large.bytes :=
  (bytesToHumanReadable_truncates_iff true (fun _ => 1) ⟨7, by norm_num⟩ (by norm_num) 1025
    (by norm_num)).mpr (by decide)

/-- In six bytes the space is stored over the NUL of `1 KiB`, and a digit behind the buffer. -/
theorem bytesToHumanReadable_stores_behind :
    ∃ final, bytesToHumanReadable true (.fresh fun _ => 1) 0 6 1025 = .ok final ∧
      ¬final.Within (Inside 6) := by
  obtain ⟨final, run, address, stored, behind⟩ := @bytesToHumanReadable_of_noRoom true 1025
    (by norm_num) (.fresh fun _ => 1) 0 6 (by norm_num) (by norm_num) (by decide)
  refine ⟨final, run, fun within => ?_⟩
  have before := (within address stored).2
  omega

end Dvnetos.Bytes
