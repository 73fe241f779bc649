import Dvnetos.Utils.StdioBounds

/-!
# Truncation of formatted output

A call with a buffer of `n` bytes leaves the first `n - 1` characters of the
full rendering in it, terminated by a NUL, and returns the length of the full
rendering. The proof carries one invariant through the chunks: the characters
rendered so far that lie below `n - 1` are in the buffer, whatever the stores
behind it did. The counters are `int`s, so the law needs a rendering that an
`int` can count; `kvsnprintf_counter_wraps` shows what happens otherwise.
-/

namespace Dvnetos.Stdio

open Word

/-- The specifiers of the number conversions. -/
def IsNumber (type : UInt8) : Prop :=
  (type = chr 'd' ∨ type = chr 'i') ∨ type = chr 'x' ∨ type = chr 'X' ∨ type = chr 'o' ∨
    type = chr 'u'

/-- The conversion is a supported one and the argument has the type it takes. -/
def TakesArg (spec : FormatSpec) : Arg → Prop
  | .int _ => (IsNumber spec.type ∧ spec.lengthMod0 ≠ chr 'l') ∨ spec.type = chr 'c'
  | .long _ => IsNumber spec.type ∧ spec.lengthMod0 = chr 'l' ∧ spec.lengthMod1 ≠ chr 'l'
  | .longLong _ => IsNumber spec.type ∧ spec.lengthMod0 = chr 'l' ∧ spec.lengthMod1 = chr 'l'
  | .string _ => spec.type = chr 's'
  | .pointer _ => spec.type = chr 'p'

/--
The format consists of literal characters, `%%` and supported conversions, and
the arguments match it. As in C, further arguments may follow.
-/
inductive Matches : List UInt8 → List Arg → Prop where
  | done {args : List Arg} : Matches [] args
  | literal {c : UInt8} {rest : List UInt8} {args : List Arg}
      (plain : ¬(c = chr '%' ∧ rest ≠ [])) (tail : Matches rest args) : Matches (c :: rest) args
  | percent {rest : List UInt8} {args : List Arg} (tail : Matches rest args) :
      Matches (chr '%' :: chr '%' :: rest) args
  | conversion {rest after : List UInt8} {arg : Arg} {args : List Arg}
      (single : rest.headD 0 ≠ chr '%') (scanned : (scanSpec rest).2 = some after)
      (takes : TakesArg (scanSpec rest).1 arg) (tail : Matches after args) :
      Matches (chr '%' :: rest) (arg :: args)

namespace Matches

theorem noModifier : (0 : UInt8) ≠ chr 'l' := by decide

/-- Characters without a `%` in front of a format take no argument. -/
theorem literals {chars rest : List UInt8} {args : List Arg} (plain : chr '%' ∉ chars)
    (tail : Matches rest args) : Matches (chars ++ rest) args := by
  induction chars with
  | nil => exact tail
  | cons c chars ih =>
      simp only [List.mem_cons, not_or] at plain
      exact .literal (fun percent => plain.1 percent.1.symm) (ih plain.2)

theorem string {rest : List UInt8} {args : List Arg} (text : Option CString)
    (tail : Matches rest args) : Matches (chr '%' :: chr 's' :: rest) (.string text :: args) :=
  .conversion (by decide : chr 's' ≠ chr '%') rfl rfl tail

theorem pointer {rest : List UInt8} {args : List Arg} (value : BitVec 64)
    (tail : Matches rest args) : Matches (chr '%' :: chr 'p' :: rest) (.pointer value :: args) :=
  .conversion (by decide : chr 'p' ≠ chr '%') rfl rfl tail

theorem decimal {rest : List UInt8} {args : List Arg} (value : BitVec 32)
    (tail : Matches rest args) : Matches (chr '%' :: chr 'd' :: rest) (.int value :: args) :=
  .conversion (by decide : chr 'd' ≠ chr '%') rfl (Or.inl ⟨Or.inl (Or.inl rfl), noModifier⟩) tail

theorem hex {rest : List UInt8} {args : List Arg} (value : BitVec 32)
    (tail : Matches rest args) : Matches (chr '%' :: chr 'x' :: rest) (.int value :: args) :=
  .conversion (by decide : chr 'x' ≠ chr '%') rfl (Or.inl ⟨Or.inr (Or.inl rfl), noModifier⟩) tail

theorem unsignedLong {rest : List UInt8} {args : List Arg} (value : BitVec 64)
    (tail : Matches rest args) :
    Matches (chr '%' :: chr 'l' :: chr 'u' :: rest) (.long value :: args) :=
  .conversion (by decide : chr 'l' ≠ chr '%') rfl
    ⟨Or.inr (Or.inr (Or.inr (Or.inr rfl))), rfl, noModifier⟩ tail

end Matches

theorem skipIf_length (c : UInt8) (rest : List UInt8) : (skipIf c rest).2.length ≤ rest.length := by
  simp only [skipIf]
  split
  · rfl
  · split <;> simp

theorem scanNumber_length (number : ℤ) (rest : List UInt8) :
    (scanNumber number rest).2.length ≤ rest.length := by
  induction rest generalizing number with
  | nil => rfl
  | cons x rest ih =>
      simp only [scanNumber]
      split
      · exact (ih _).trans (by simp)
      · rfl

theorem scanLengthMod_length (rest : List UInt8) : (scanLengthMod rest).2.length ≤ rest.length := by
  simp only [scanLengthMod]
  split
  · rfl
  · split <;> simp

/-- A conversion specification consumes at least its specifier. -/
theorem scanSpec_length {rest after : List UInt8} (scanned : (scanSpec rest).2 = some after) :
    after.length < rest.length := by
  simp only [scanSpec] at scanned
  generalize zeroEq : (skipIf (chr '0') rest).2 = zero at scanned
  generalize plusEq : (skipIf (chr '+') zero).2 = plus at scanned
  generalize minusEq : (skipIf (chr '-') plus).2 = minus at scanned
  generalize widthEq : (scanNumber 0 minus).2 = width at scanned
  generalize dotEq : (skipIf (chr '.') width).2 = dot at scanned
  have zeroLe := skipIf_length (chr '0') rest
  have plusLe := skipIf_length (chr '+') zero
  have minusLe := skipIf_length (chr '-') plus
  have widthLe := scanNumber_length 0 minus
  have dotLe := skipIf_length (chr '.') width
  rw [zeroEq] at zeroLe
  rw [plusEq] at plusLe
  rw [minusEq] at minusLe
  rw [widthEq] at widthLe
  rw [dotEq] at dotLe
  have tail : ∀ {l : List UInt8}, l.tail? = some after → after.length < l.length := by
    intro l eq
    cases l with
    | nil => cases eq
    | cons x l =>
        cases eq
        simp
  have last := tail scanned
  have numberLe := scanNumber_length 0 dot
  split_ifs at last <;> grind [scanLengthMod_length]

theorem not_signed_of_unsigned {type : UInt8}
    (unsigned : type = chr 'x' ∨ type = chr 'X' ∨ type = chr 'o' ∨ type = chr 'u') :
    ¬(type = chr 'd' ∨ type = chr 'i') := by
  rcases unsigned with rfl | rfl | rfl | rfl <;> decide

theorem conversionChunk_of_unsigned (kernel : Bool) {spec : FormatSpec} {args rest : List Arg}
    (value : ℕ)
    (unsigned : spec.type = chr 'x' ∨ spec.type = chr 'X' ∨ spec.type = chr 'o' ∨
      spec.type = chr 'u')
    (taken : argUnsigned spec args = .ok (value, rest)) :
    ∃ chunk, conversionChunk kernel spec args = .ok (chunk, rest) := by
  simp only [conversionChunk, if_neg (not_signed_of_unsigned unsigned), if_pos unsigned, taken]
  split_ifs
  · exact ⟨_, rfl⟩
  · exact ⟨_, rfl⟩
  · exact ⟨_, rfl⟩

/-- A conversion with its argument has a chunk. -/
theorem conversionChunk_of_takesArg (kernel : Bool) {spec : FormatSpec} {arg : Arg}
    (takes : TakesArg spec arg) (args : List Arg) :
    ∃ chunk, conversionChunk kernel spec (arg :: args) = .ok (chunk, args) := by
  cases arg with
  | int value =>
      rcases takes with ⟨signed | unsigned, short⟩ | isChar
      · exact ⟨.text (decimalText .int value.toInt), by
          simp [conversionChunk, signed, short, argInt]⟩
      · refine conversionChunk_of_unsigned kernel value.toNat unsigned ?_
        simp [argUnsigned, short, argInt]
      · exact ⟨.character value, by simp +decide [conversionChunk, isChar, argInt]⟩
  | long value =>
      rcases takes with ⟨signed | unsigned, long, short⟩
      · exact ⟨.text (decimalText .long value.toInt), by
          simp [conversionChunk, signed, long, short, argLong]⟩
      · refine conversionChunk_of_unsigned kernel value.toNat unsigned ?_
        simp [argUnsigned, long, short, argLong]
  | longLong value =>
      rcases takes with ⟨signed | unsigned, long, longLong⟩
      · exact ⟨.text (decimalText .longLong value.toInt), by
          simp [conversionChunk, signed, long, longLong, argLongLong]⟩
      · refine conversionChunk_of_unsigned kernel value.toNat unsigned ?_
        simp [argUnsigned, long, longLong, argLongLong]
  | string value =>
      have isString : spec.type = chr 's' := takes
      exact ⟨.text (stringText value), by simp +decide [conversionChunk, isString, argString]⟩
  | pointer value =>
      have isPointer : spec.type = chr 'p' := takes
      exact ⟨.text (pointerText value), by simp +decide [conversionChunk, isPointer, argPointer]⟩

/-- A format with matching arguments is scanned to its end. -/
theorem scan_reaches_end (kernel : Bool) {rest : List UInt8} {args : List Arg}
    (matching : Matches rest args) {fuel : ℕ} (enough : rest.length < fuel) :
    (scan kernel fuel rest args).2 = none := by
  induction matching generalizing fuel with
  | done => rw [scan]
  | literal plain tail ih =>
      rcases Nat.exists_eq_add_of_lt enough with ⟨fuel, rfl⟩
      rw [scan]
      simp only [if_neg plain]
      exact ih (by simp at enough ⊢; omega)
  | percent tail ih =>
      rcases Nat.exists_eq_add_of_lt enough with ⟨fuel, rfl⟩
      rw [scan]
      simp only [ne_eq, reduceCtorEq, not_false_eq_true, and_self, if_true, List.headD_cons,
        List.tail_cons]
      exact ih (by simp at enough ⊢; omega)
  | @conversion rest after arg args single scanned takes tail ih =>
      rcases Nat.exists_eq_add_of_lt enough with ⟨fuel, rfl⟩
      have consumed := scanSpec_length scanned
      have nonempty : rest ≠ [] := by
        rintro rfl
        simp at consumed
      rcases conversionChunk_of_takesArg kernel takes args with ⟨chunk, taken⟩
      rw [scan]
      simp only [nonempty, ne_eq, not_false_eq_true, and_self, if_true, if_neg single, taken,
        scanned]
      exact ih (by simp at enough ⊢; omega)

theorem stop_of_matches (kernel : Bool) {format : CString} {args : List Arg}
    (matching : Matches format.chars args) : stop kernel format args = none :=
  scan_reaches_end kernel matching (Nat.lt_succ_self _)

/--
The characters rendered so far have been counted, and those below `n - 1` are in
the buffer.
-/
structure Holds (n : ℕ) (written : List UInt8) (state : Sink × ℤ) : Prop where
  position : state.2 = written.length
  total : state.1.total_chars = written.length
  cells : ∀ k (bound : k < written.length), k < n - 1 →
    state.1.buffer.cells k = written[k]

theorem Holds.store {n : ℕ} {written : List UInt8} {buffer : TracedStore ℤ UInt8}
    (cells : ∀ k (bound : k < written.length), k < n - 1 → buffer.cells k = written[k])
    (c : UInt8) (k : ℕ) (bound : k < (written ++ [c]).length) (inside : k < n - 1) :
    (buffer.store written.length c).cells k = (written ++ [c])[k] := by
  by_cases last : k = written.length
  · simp [last]
  · have before : k < written.length := by
      simp at bound
      omega
    rw [TracedStore.cells_store_of_ne _ _ (by exact_mod_cast last), cells k before inside,
      List.getElem_append_left]

/-- A store that is left out, or made behind the buffer, does not matter at or behind `n - 1`. -/
theorem Holds.skip {n : ℕ} {written : List UInt8} {buffer : TracedStore ℤ UInt8}
    (cells : ∀ k (bound : k < written.length), k < n - 1 → buffer.cells k = written[k])
    (full : n - 1 ≤ written.length) (c : UInt8) (k : ℕ) (bound : k < (written ++ [c]).length)
    (inside : k < n - 1) : buffer.cells k = (written ++ [c])[k] := by
  have before : k < written.length := by omega
  rw [cells k before inside, List.getElem_append_left]

/-- One character more, stored where it belongs or not stored if it lies at or behind `n - 1`. -/
theorem Holds.push {n : ℕ} {written : List UInt8} {sink : Sink}
    (holds : Holds n written (sink, written.length)) (c : UInt8) (stores : Prop) [Decidable stores]
    (needed : written.length < n - 1 → stores) (fits : written.length + 1 < 2 ^ 31) :
    Holds n (written ++ [c])
      ({ buffer := if stores then sink.buffer.store written.length c else sink.buffer
         total_chars := int32 (sink.total_chars + 1) }, ((written ++ [c]).length : ℤ)) where
  position := rfl
  total := by
    have total := holds.total
    simp only at total
    rw [total, int32_of_fits (by omega) (by omega)]
    simp
  cells := by
    split_ifs with doesStore
    · exact Holds.store holds.cells c
    · exact Holds.skip holds.cells (by by_contra inside; exact doesStore (needed (by omega))) c

/-- The output loop of a handler called at position `base` with the room left there. -/
theorem Holds.putText {n : ℕ} (nonempty : 1 ≤ n) (isObject : n < 2 ^ 63) {base : ℕ} (offset : ℕ)
    (text : List UInt8) {written : List UInt8} {sink : Sink}
    (holds : Holds n written (sink, written.length)) (position : base + offset = written.length)
    (fits : written.length + text.length < 2 ^ 31) :
    Holds n (written ++ text)
      ((Stdio.putText base (rem base n) text (sink, offset)).1, (written ++ text).length) := by
  induction text generalizing written sink offset with
  | nil => simpa using holds
  | cons c text ih =>
      rw [List.length_cons] at fits
      have pushed := holds.push c (sizeT offset < sub64 (rem base n) 1)
        (by
          intro inside
          rw [sizeT_natCast (by omega), rem_natCast isObject (by omega),
            sub64_of_le (by omega) (by omega)]
          omega) (by omega)
      have next := ih (offset + 1) pushed (by simp; omega) (by simp; omega)
      rw [putText_cons, putChar]
      have address : (base + offset : ℤ) = written.length := by exact_mod_cast position
      have advanced : int32 ((offset : ℤ) + 1) = (offset + 1 : ℕ) :=
        int32_succ (by omega)
      rw [List.append_assoc, List.singleton_append] at next
      rw [address, advanced]
      exact next

theorem Holds.putChunk {n : ℕ} (nonempty : 1 ≤ n) (isObject : n < 2 ^ 63) (chunk : Chunk)
    {written : List UInt8} {state : Sink × ℤ} (holds : Holds n written state)
    (fits : written.length + chunk.chars.length < 2 ^ 31) :
    Holds n (written ++ chunk.chars) (Stdio.putChunk n state chunk) := by
  rcases state with ⟨sink, j⟩
  obtain rfl : j = written.length := holds.position
  have position := putChunk_position n sink written.length chunk
  rw [int32_of_fits (by omega) (by omega)] at position
  rw [← Prod.mk.eta (p := Stdio.putChunk n (sink, (written.length : ℤ)) chunk), position]
  have length : (written.length + chunk.chars.length : ℤ) = (written ++ chunk.chars).length := by
    simp
  rw [length]
  cases chunk with
  | literal c =>
      refine holds.push c (1 < rem written.length n) ?_ (by simpa [Chunk.chars] using fits)
      intro inside
      rw [rem_natCast isObject (by omega)]
      omega
  | percent =>
      have pushed := holds.push (chr '%') (sizeT written.length < sub64 n 1)
        (by
          intro inside
          rw [sizeT_natCast (by omega), sub64_of_le (by omega) nonempty]
          exact inside) (by simpa [Chunk.chars] using fits)
      simpa [Stdio.putChunk, handle, putChar, Chunk.chars] using pushed
  | character c =>
      refine holds.push _ (0 < rem written.length n) ?_ (by simpa [Chunk.chars] using fits)
      intro inside
      rw [rem_natCast isObject (by omega)]
      omega
  | text chars =>
      exact holds.putText nonempty isObject 0 chars (by simp) fits

theorem Holds.putChunks {n : ℕ} (nonempty : 1 ≤ n) (isObject : n < 2 ^ 63) (chunks : List Chunk)
    {written : List UInt8} {state : Sink × ℤ} (holds : Holds n written state)
    (fits : written.length + (charsOf chunks).length < 2 ^ 31) :
    Holds n (written ++ charsOf chunks) (Stdio.putChunks n chunks state) := by
  induction chunks generalizing written state with
  | nil => simpa using holds
  | cons chunk rest ih =>
      rw [charsOf_cons, List.length_append] at fits
      have first := holds.putChunk nonempty isObject chunk (by omega)
      have next := ih first (by rw [List.length_append]; omega)
      simpa using next

/-- The NUL goes behind the text, or to the last byte if the text does not fit. -/
theorem Holds.terminated {n : ℕ} (nonempty : 1 ≤ n) (isObject : n < 2 ^ 63) {text : List UInt8}
    {state : Sink × ℤ} (holds : Holds n text state) (fits : text.length < 2 ^ 31) :
    (∀ k (bound : k < text.length), k < n - 1 →
        (terminate n state.2 state.1.buffer).cells k = text[k]) ∧
      (terminate n state.2 state.1.buffer).cells (min text.length (n - 1) : ℕ) = 0 := by
  have position := holds.position
  by_cases room : text.length < n
  · have terminator : terminate n state.2 state.1.buffer = state.1.buffer.store text.length 0 := by
      have inside : sizeT state.2 < n := by
        rw [position, sizeT_natCast (by omega)]
        exact room
      rw [terminate, if_pos inside, position]
    rw [terminator, Nat.min_eq_left (by omega)]
    constructor
    · intro k bound inside
      rw [TracedStore.cells_store_of_ne _ _ (by omega), holds.cells k bound inside]
    · exact TracedStore.cells_store_same ..
  · have terminator : terminate n state.2 state.1.buffer = state.1.buffer.store (n - 1 : ℕ) 0 := by
      have behind : ¬sizeT state.2 < n := by
        rw [position, sizeT_natCast (by omega)]
        exact room
      have last : sub64 n 1 = n - 1 := sub64_of_le (by omega) nonempty
      rw [terminate, if_neg behind, if_pos (by omega), last]
    rw [terminator, Nat.min_eq_right (by omega)]
    constructor
    · intro k bound inside
      rw [TracedStore.cells_store_of_ne _ _ (by omega), holds.cells k bound inside]
    · exact TracedStore.cells_store_same ..

/-- The buffer a call starts with holds the empty text. -/
theorem Holds.start (n : ℕ) (contents : ℤ → UInt8) :
    Holds n [] ({ buffer := .fresh contents, total_chars := 0 }, 0) where
  position := rfl
  total := rfl
  cells := by simp

theorem kvsnprintf_eq_of_matches (kernel : Bool) (n : BufferSize) {format : CString}
    {args : List Arg} (matching : Matches format.chars args) (contents : ℤ → UInt8) :
    kvsnprintf kernel n format args contents =
      let state := putChunks n.bytes (chunks kernel format args)
        ({ buffer := .fresh contents, total_chars := 0 }, 0)
      { buffer := terminate n.bytes state.2 state.1.buffer
        returned := .ok state.1.total_chars } := by
  have finished := stop_of_matches kernel matching
  unfold stop at finished
  simp only [kvsnprintf, scanLoop_eq_putChunks, chunks, finished]

/-- The first `n - 1` characters of the rendering are in the buffer, with a NUL behind them. -/
theorem kvsnprintf_holds (kernel : Bool) {n : BufferSize} {format : CString} {args : List Arg}
    (contents : ℤ → UInt8) (matching : Matches format.chars args) (nonempty : 1 ≤ n.bytes)
    (fits : (rendering kernel format args).length < 2 ^ 31) :
    let text := rendering kernel format args
    let output := kvsnprintf kernel n format args contents
    output.returned = .ok (text.length : ℤ) ∧
      (∀ k (bound : k < text.length), k < n.bytes - 1 → output.buffer.cells k = text[k]) ∧
      output.buffer.cells (min text.length (n.bytes - 1) : ℕ) = 0 := by
  simp only [kvsnprintf_eq_of_matches kernel n matching contents]
  have held := (Holds.start n.bytes contents).putChunks nonempty n.isObject
    (chunks kernel format args) (by simpa [rendering] using fits)
  rw [List.nil_append] at held
  rcases held.terminated nonempty n.isObject fits with ⟨cells, terminator⟩
  exact ⟨congrArg Except.ok held.total, cells, terminator⟩

/--
The truncation law: the returned length is that of the full rendering, and the
buffer holds its first `n - 1` characters and a NUL behind them, which are the
characters that the same call leaves in any buffer large enough for all of them.
-/
theorem kvsnprintf_truncates (kernel : Bool) (n : BufferSize) (format : CString) (args : List Arg)
    (contents : ℤ → UInt8) (matching : Matches format.chars args) (nonempty : 1 ≤ n.bytes)
    (fits : (rendering kernel format args).length < 2 ^ 31) :
    let text := rendering kernel format args
    let output := kvsnprintf kernel n format args contents
    output.returned = .ok (text.length : ℤ) ∧
      (∀ k (bound : k < text.length), k < n.bytes - 1 → output.buffer.cells k = text[k]) ∧
      output.buffer.cells (min text.length (n.bytes - 1) : ℕ) = 0 ∧
      ∀ (large : BufferSize) (others : ℤ → UInt8), text.length < large.bytes →
        ∀ k, k < text.length → k < n.bytes - 1 →
          output.buffer.cells k = (kvsnprintf kernel large format args others).buffer.cells k := by
  rcases kvsnprintf_holds kernel contents matching nonempty fits with
    ⟨returned, cells, terminator⟩
  refine ⟨returned, cells, terminator, ?_⟩
  intro large others large_enough k bound inside
  rcases kvsnprintf_holds (n := large) kernel others matching (by omega) fits with
    ⟨-, unlimited, -⟩
  rw [cells k bound inside, unlimited k bound (by omega)]

/-- The format `ab%d`. -/
def decimalFormat : CString := ⟨['a', 'b', '%', 'd'].map chr, by decide⟩

theorem decimalFormat_matches (value : BitVec 32) : Matches decimalFormat.chars [.int value] := by
  refine .literal (by decide) (.literal (by decide) (.conversion (by decide) rfl ?_ .done))
  exact Or.inl ⟨Or.inl (Or.inl rfl), by decide⟩

/-- `ab57` in a buffer of 4 bytes leaves `ab5`. -/
theorem kvsnprintf_truncates_ab57 :
    let output := kvsnprintf true ⟨4, by decide⟩ decimalFormat [.int 57] fun _ => 1
    output.returned = .ok 4 ∧
      [output.buffer.cells 0, output.buffer.cells 1, output.buffer.cells 2,
        output.buffer.cells 3] = [chr 'a', chr 'b', chr '5', 0] := by
  obtain ⟨returned, cells, terminator, -⟩ := kvsnprintf_truncates true ⟨4, by decide⟩
    decimalFormat [.int 57] (fun _ => 1) (decimalFormat_matches 57) (by decide) (by decide)
  refine ⟨returned, ?_⟩
  have first := cells 0 (by decide) (by decide)
  have second := cells 1 (by decide) (by decide)
  have third := cells 2 (by decide) (by decide)
  exact List.cons_eq_cons.mpr ⟨first, List.cons_eq_cons.mpr ⟨second,
    List.cons_eq_cons.mpr ⟨third, List.cons_eq_cons.mpr ⟨terminator, rfl⟩⟩⟩⟩

theorem putChunk_total_chars (n : ℕ) (chunk : Chunk) (buffer : TracedStore ℤ UInt8) (total j : ℤ) :
    (putChunk n ({ buffer, total_chars := int32 total }, j) chunk).1.total_chars =
      int32 (total + chunk.chars.length) := by
  cases chunk with
  | text chars => exact putText_total_chars ..
  | literal c => simp [putChunk, handle, Chunk.chars]
  | percent => simp [putChunk, handle, putChar, Chunk.chars]
  | character c => simp [putChunk, handle, formatChar, Chunk.chars]

theorem putChunks_total_chars (n : ℕ) (chunks : List Chunk) (buffer : TracedStore ℤ UInt8)
    (total j : ℤ) :
    (putChunks n chunks ({ buffer, total_chars := int32 total }, j)).1.total_chars =
      int32 (total + (charsOf chunks).length) := by
  induction chunks generalizing buffer total j with
  | nil => simp
  | cons chunk rest ih =>
      have first := putChunk_total_chars n chunk buffer total j
      rcases putted : putChunk n ({ buffer, total_chars := int32 total }, j) chunk with
        ⟨⟨buffer', total'⟩, j'⟩
      rw [putted] at first
      obtain rfl : total' = int32 (total + chunk.chars.length) := first
      rw [putChunks_cons, putted, ih, charsOf_cons, List.length_append]
      congr 1
      push_cast
      ring

/-- Whatever its length, a call returns the length of the full rendering as an `int`. -/
theorem kvsnprintf_returned (kernel : Bool) (n : BufferSize) {format : CString} {args : List Arg}
    (matching : Matches format.chars args) (contents : ℤ → UInt8) :
    (kvsnprintf kernel n format args contents).returned =
      .ok (int32 (rendering kernel format args).length) := by
  rw [kvsnprintf_eq_of_matches kernel n matching]
  have zero : int32 0 = 0 := int32_of_fits (by norm_num) (by norm_num)
  have total := putChunks_total_chars n.bytes (chunks kernel format args) (.fresh contents) 0 0
  rw [zero, zero_add] at total
  exact congrArg Except.ok total

/-- The format `%s`. -/
def stringFormat : CString := ⟨['%', 's'].map chr, by decide⟩

theorem stringFormat_matches (text : CString) :
    Matches stringFormat.chars [.string (some text)] :=
  .conversion (by decide) rfl rfl .done

theorem rendering_stringFormat (kernel : Bool) (text : CString) :
    rendering kernel stringFormat [.string (some text)] = text.chars := by
  cases kernel <;> exact List.append_nil _

/-- A string of 2^31 characters. -/
def longString : CString where
  chars := List.replicate (2 ^ 31) (chr 'a')
  noNul := fun nul => absurd (List.eq_of_mem_replicate nul) (by decide)

theorem longString_length : longString.chars.length = 2 ^ 31 := by
  rw [longString, List.length_replicate]

attribute [irreducible] longString

/-- A rendering of 2^31 characters is returned as a negative number. -/
theorem kvsnprintf_counter_wraps :
    Matches stringFormat.chars [.string (some longString)] ∧
      (rendering true stringFormat [.string (some longString)]).length = 2 ^ 31 ∧
      (kvsnprintf true ⟨1, by decide⟩ stringFormat [.string (some longString)]
        fun _ => 0).returned = .ok (-2 ^ 31) := by
  have length : (rendering true stringFormat [.string (some longString)]).length = 2 ^ 31 := by
    rw [rendering_stringFormat, longString_length]
  have negative : int32 (2 ^ 31 : ℕ) = -2 ^ 31 := by decide
  refine ⟨stringFormat_matches longString, length, ?_⟩
  rw [kvsnprintf_returned true _ (stringFormat_matches longString), length, negative]

end Dvnetos.Stdio
