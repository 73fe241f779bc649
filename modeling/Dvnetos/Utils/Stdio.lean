import Dvnetos.Lib.TracedStore
import Dvnetos.Lib.Word
import Mathlib.Data.List.TakeWhile

/-!
# Formatted output

This file models `kvsnprintf` and its conversion handlers from
`utils/stdio.cpp`. The buffer is addressed relative to its start and remembers
every store, so both what a call leaves in the buffer and where it writes can
be read off the result.

The counters `j` and `total_chars` are `int`s and wrap around; the comparisons
with the buffer size convert them to `size_t`, as the source does. The format
is scanned as the list of its characters before the terminating NUL, and an
empty rest stands for that NUL. The `temp` arrays of the number handlers are as
long as the digits they receive.
-/

namespace Dvnetos.Stdio

open Word

/-- The character code of a `char` literal. -/
def chr (c : Char) : UInt8 := c.toUInt8

/-- The characters of a C string, without its terminating NUL. -/
structure CString where
  chars : List UInt8
  noNul : (0 : UInt8) ∉ chars

/-- A buffer of `bytes` bytes. No C++ object has more than `PTRDIFF_MAX` bytes. -/
structure BufferSize where
  bytes : ℕ
  isObject : bytes < 2 ^ 63

/-- One variadic argument. An `unsigned` argument has the bits of the signed type. -/
inductive Arg where
  | int (value : BitVec 32)
  | long (value : BitVec 64)
  | longLong (value : BitVec 64)
  | string (value : Option CString)
  | pointer (value : BitVec 64)

/-- The fields of `formatSpec` that `kvsnprintf` sets. -/
structure FormatSpec where
  type : UInt8
  padding : UInt8
  lengthMod0 : UInt8
  lengthMod1 : UInt8
  leftJustify : Bool
  forceSign : Bool
  minLength : ℤ
  precision : ℤ

/-- What ends a call before it returns. -/
inductive Stop where
  /-- `kpanicf("unsupported format specifier: %c", spec.type)`. -/
  | unsupportedSpecifier (type : UInt8)
  /-- `va_arg` with a type the next argument does not have. -/
  | badArgument
  /-- `format[i]` behind the terminating NUL. -/
  | readPastFormat
  /-- The scan loop has more iterations than the model was given fuel for. -/
  | outOfFuel
  deriving DecidableEq

/-- What every handler writes to: the buffer and `*total_chars`. -/
structure Sink where
  buffer : TracedStore ℤ UInt8
  total_chars : ℤ

/--
The store that ends every handler: `if (j < n - 1) buffer[j] = c; j++; total_chars++`.
The handler's `buffer` argument points to `base`.
-/
def putChar (base : ℤ) (n : ℕ) (state : Sink × ℤ) (c : UInt8) : Sink × ℤ :=
  let (sink, j) := state
  ({ buffer := if sizeT j < sub64 n 1 then sink.buffer.store (base + j) c else sink.buffer
     total_chars := int32 (sink.total_chars + 1) },
    int32 (j + 1))

/-- The output loop of a handler. -/
def putText (base : ℤ) (n : ℕ) (text : List UInt8) (state : Sink × ℤ) : Sink × ℤ :=
  text.foldl (putChar base n) state

/--
The loop `do { temp[k++] = digit(value % radix); value /= radix; } while (value)`.
The last digit stored is the first of the result. Division truncates, as in C++.
-/
def digitLoop (radix : ℤ) (digit : ℤ → UInt8) : ℕ → ℤ → List UInt8 → List UInt8
  | 0, _, temp => temp
  | fuel + 1, value, temp =>
      let stored := digit (value.tmod radix) :: temp
      if value.tdiv radix = 0 then stored
      else digitLoop radix digit fuel (value.tdiv radix) stored

/-- The `temp` array of a number handler, from index `k - 1` down to index `0`. -/
def digits (radix : ℤ) (digit : ℤ → UInt8) (value : ℤ) : List UInt8 :=
  digitLoop radix digit (value.natAbs + 1) value []

/-- `'0' + digit`, converted to `unsigned char`. -/
def decimalDigit (digit : ℤ) : UInt8 :=
  UInt8.ofNat ((48 + digit) % 256).toNat

/-- A hexadecimal digit; `letterA` is `'A'` or `'a'`. -/
def hexDigit (letterA : UInt8) (digit : ℤ) : UInt8 :=
  if digit < 10 then decimalDigit digit else letterA + UInt8.ofNat (digit - 10).toNat

/-- The types `formatDecimal` is instantiated with. -/
inductive IntType where
  | int
  | long
  | longLong
  | unsignedLongLong
  deriving DecidableEq

namespace IntType

/-- Whether the type has a sign. -/
def isSigned : IntType → Bool
  | .unsignedLongLong => false
  | _ => true

/-- The width of the type. -/
def bits : IntType → ℕ
  | .int => 32
  | _ => 64

/-- The value `-value` has in the type: the lowest value is its own negation. -/
def negate (type : IntType) (value : ℤ) : ℤ := (-value).bmod (2 ^ type.bits)

end IntType

/-- `formatDecimal`. -/
def formatDecimal (base : ℤ) (n : ℕ) (type : IntType) (value : ℤ) (sink : Sink) : Sink × ℤ :=
  if type.isSigned && decide (value < 0) then
    putText base n (digits 10 decimalDigit (type.negate value))
      (putChar base n (sink, 0) (chr '-'))
  else
    putText base n (digits 10 decimalDigit value) (sink, 0)

/-- `formatHex`, in lower or upper case. -/
def formatHex (base : ℤ) (n : ℕ) (format : FormatSpec) (value : ℕ) (sink : Sink) : Sink × ℤ :=
  putText base n
    (digits 16 (hexDigit (if format.type = chr 'X' then chr 'A' else chr 'a')) value) (sink, 0)

/-- `formatOct`. -/
def formatOct (base : ℤ) (n : ℕ) (value : ℕ) (sink : Sink) : Sink × ℤ :=
  putText base n (digits 8 decimalDigit value) (sink, 0)

/-- The characters `"(null)"`. -/
def nullText : List UInt8 := ['(', 'n', 'u', 'l', 'l', ')'].map chr

/-- `formatString`, which prints a text of its own for null. -/
def formatString (base : ℤ) (n : ℕ) (ptr : Option CString) (sink : Sink) : Sink × ℤ :=
  putText base n
    (match ptr with
      | none => nullText
      | some text => text.chars)
    (sink, 0)

/-- `c` is an `int` and is stored as a `char`. -/
def formatChar (base : ℤ) (n : ℕ) (c : BitVec 32) (sink : Sink) : Sink × ℤ :=
  ({ buffer := if 0 < n then sink.buffer.store base (UInt8.ofNat c.toNat) else sink.buffer
     total_chars := int32 (sink.total_chars + 1) },
    1)

/-- The shifts `60, 56, .., 0` of `formatPointer`. -/
def pointerShifts : List ℕ := (List.range 16).reverse.map (4 * ·)

/-- The `temp` array of `formatPointer` up to its NUL. -/
def pointerText (ptr : BitVec 64) : List UInt8 :=
  [chr '0', chr 'x'] ++
    pointerShifts.map fun shift => hexDigit (chr 'a') (((ptr >>> shift) &&& 0xF).toNat : ℤ)

/-- `formatPointer`. -/
def formatPointer (base : ℤ) (n : ℕ) (ptr : BitVec 64) (sink : Sink) : Sink × ℤ :=
  putText base n (pointerText ptr) (sink, 0)

/-- `if (format[i] == c) i++`, with the outcome of the test. -/
def skipIf (c : UInt8) : List UInt8 → Bool × List UInt8
  | [] => (false, [])
  | x :: rest => if x = c then (true, rest) else (false, x :: rest)

/-- `while ('0' <= format[i] <= '9') { number = number * 10 + (format[i] - '0'); i++; }`. -/
def scanNumber (number : ℤ) : List UInt8 → ℤ × List UInt8
  | [] => (number, [])
  | x :: rest =>
      if chr '0' ≤ x ∧ x ≤ chr '9' then
        scanNumber (int32 (number * 10 + (x.toNat - (chr '0').toNat : ℤ))) rest
      else (number, x :: rest)

/-- `if (format[i] == 'l' || format[i] == 'h') lengthMod = format[i++]`, with 0 otherwise. -/
def scanLengthMod : List UInt8 → UInt8 × List UInt8
  | [] => (0, [])
  | x :: rest => if x = chr 'l' ∨ x = chr 'h' then (x, rest) else (0, x :: rest)

/--
The conversion specification behind a `%`. The rest is `none` when the specifier
read is the terminating NUL, since `i++` then leaves the format.
-/
def scanSpec (rest : List UInt8) : FormatSpec × Option (List UInt8) :=
  let (zero, rest) := skipIf (chr '0') rest
  let (forceSign, rest) := skipIf (chr '+') rest
  let (leftJustify, rest) := skipIf (chr '-') rest
  let (minLength, rest) := scanNumber 0 rest
  let (dot, rest) := skipIf (chr '.') rest
  let (precision, rest) := if dot then scanNumber 0 rest else (0, rest)
  let (lengthMod0, rest) := scanLengthMod rest
  let (lengthMod1, rest) := if lengthMod0 = 0 then (0, rest) else scanLengthMod rest
  ({ type := rest.headD 0
     padding := if zero then chr '0' else chr ' '
     lengthMod0, lengthMod1, leftJustify, forceSign, minLength, precision },
    rest.tail?)

/-- `va_arg(args, int)` and `va_arg(args, unsigned int)`. -/
def argInt : List Arg → Except Stop (BitVec 32 × List Arg)
  | .int value :: args => .ok (value, args)
  | _ => .error .badArgument

/-- `va_arg(args, long)` and `va_arg(args, unsigned long)`. -/
def argLong : List Arg → Except Stop (BitVec 64 × List Arg)
  | .long value :: args => .ok (value, args)
  | _ => .error .badArgument

/-- `va_arg(args, long long)` and `va_arg(args, unsigned long long)`. -/
def argLongLong : List Arg → Except Stop (BitVec 64 × List Arg)
  | .longLong value :: args => .ok (value, args)
  | _ => .error .badArgument

/-- `va_arg(args, const char *)`. -/
def argString : List Arg → Except Stop (Option CString × List Arg)
  | .string value :: args => .ok (value, args)
  | _ => .error .badArgument

/-- `va_arg(args, void *)`. -/
def argPointer : List Arg → Except Stop (BitVec 64 × List Arg)
  | .pointer value :: args => .ok (value, args)
  | _ => .error .badArgument

/-- The `unsigned long long value` of the conversions `x`, `X`, `o` and `u`. -/
def argUnsigned (spec : FormatSpec) (args : List Arg) : Except Stop (ℕ × List Arg) :=
  if spec.lengthMod0 = chr 'l' ∧ spec.lengthMod1 = chr 'l' then do
    let (value, args) ← argLongLong args
    pure (value.toNat, args)
  else if spec.lengthMod0 = chr 'l' then do
    let (value, args) ← argLong args
    pure (value.toNat, args)
  else do
    let (value, args) ← argInt args
    pure (value.toNat, args)

/-- The macro `rem`. -/
def rem (j : ℤ) (n : ℕ) : ℕ := if n ≤ sizeT j then 0 else sub64 n (sizeT j)

/-- The `if` chain on `spec.type`. The result holds the handler's return value. -/
def convert (kernel : Bool) (n : ℕ) (spec : FormatSpec) (j : ℤ) (sink : Sink) (args : List Arg) :
    Except Stop ((Sink × ℤ) × List Arg) :=
  if spec.type = chr 'd' ∨ spec.type = chr 'i' then
    if spec.lengthMod0 = chr 'l' ∧ spec.lengthMod1 = chr 'l' then do
      let (value, args) ← argLongLong args
      pure (formatDecimal j (rem j n) .longLong value.toInt sink, args)
    else if spec.lengthMod0 = chr 'l' then do
      let (value, args) ← argLong args
      pure (formatDecimal j (rem j n) .long value.toInt sink, args)
    else do
      let (value, args) ← argInt args
      pure (formatDecimal j (rem j n) .int value.toInt sink, args)
  else if spec.type = chr 'x' ∨ spec.type = chr 'X' ∨ spec.type = chr 'o' ∨
      spec.type = chr 'u' then do
    let (value, args) ← argUnsigned spec args
    if spec.type = chr 'u' then
      pure (formatDecimal j (rem j n) .unsignedLongLong value sink, args)
    else if spec.type = chr 'o' then
      pure (formatOct j (rem j n) value sink, args)
    else
      pure (formatHex j (rem j n) spec value sink, args)
  else if spec.type = chr 's' then do
    let (ptr, args) ← argString args
    pure (formatString j (rem j n) ptr sink, args)
  else if spec.type = chr 'c' then do
    let (c, args) ← argInt args
    pure (formatChar j (rem j n) c sink, args)
  else if spec.type = chr 'p' then do
    let (ptr, args) ← argPointer args
    pure (formatPointer j (rem j n) ptr sink, args)
  else if kernel then
    .error (.unsupportedSpecifier spec.type)
  else
    pure ((sink, 0), args)

/-- The state in which the scan loop ended, and why if not at the terminating NUL. -/
structure LoopEnd where
  sink : Sink
  j : ℤ
  stop : Option Stop

/-- The scan loop of `kvsnprintf`; `kernel` tells whether `__KERNEL__` is defined. -/
def scanLoop (kernel : Bool) (n : ℕ) : ℕ → List UInt8 → ℤ → Sink → List Arg → LoopEnd
  | _, [], j, sink, _ => ⟨sink, j, none⟩
  | 0, _ :: _, j, sink, _ => ⟨sink, j, some .outOfFuel⟩
  | fuel + 1, c :: rest, j, sink, args =>
      if c = chr '%' ∧ rest ≠ [] then
        if rest.headD 0 = chr '%' then
          -- `%%` tests `j` against the whole buffer, not against the room left
          let (sink, _) := putChar 0 n (sink, j) (chr '%')
          scanLoop kernel n fuel rest.tail (int32 (j + 1)) sink args
        else
          let (spec, after) := scanSpec rest
          match convert kernel n spec j sink args with
          | .error stop => ⟨sink, j, some stop⟩
          | .ok ((sink, returned), args) =>
              match after with
              | none => ⟨sink, int32 (j + returned), some .readPastFormat⟩
              | some rest => scanLoop kernel n fuel rest (int32 (j + returned)) sink args
      else
        let sink :=
          { buffer := if 1 < rem j n then sink.buffer.store j c else sink.buffer
            total_chars := int32 (sink.total_chars + 1) }
        scanLoop kernel n fuel rest (int32 (j + 1)) sink args

/-- The stores behind the loop, which terminate the text. -/
def terminate (n : ℕ) (j : ℤ) (buffer : TracedStore ℤ UInt8) : TracedStore ℤ UInt8 :=
  if sizeT j < n then buffer.store j 0
  else if 0 < n then buffer.store (sub64 n 1) 0
  else buffer

/-- A finished or stopped call: the buffer and the returned `total_chars`. -/
structure Output where
  buffer : TracedStore ℤ UInt8
  returned : Except Stop ℤ

/-- `kvsnprintf(buffer, n, format, args)` on a buffer with the given contents. -/
def kvsnprintf (kernel : Bool) (n : BufferSize) (format : CString) (args : List Arg)
    (contents : ℤ → UInt8) : Output :=
  let loop := scanLoop kernel n.bytes (format.chars.length + 1) format.chars 0
    { buffer := .fresh contents, total_chars := 0 } args
  match loop.stop with
  | some stop => { buffer := loop.sink.buffer, returned := .error stop }
  | none =>
      { buffer := terminate n.bytes loop.j loop.sink.buffer
        returned := .ok loop.sink.total_chars }

/--
`ksnprintf(buffer, n, format, ...)`. The `int` result is converted to `size_t` for
the comparison with `n`, and `n - 1` back to an `int`.
-/
def ksnprintf (kernel : Bool) (n : BufferSize) (format : CString) (args : List Arg)
    (contents : ℤ → UInt8) : Output :=
  let output := kvsnprintf kernel n format args contents
  { output with
    returned := output.returned.map fun result =>
      if n.bytes ≤ sizeT result then int32 (sub64 n.bytes 1) else result }

/-- The characters up to the first NUL in a buffer of `size` bytes. -/
def stringIn (cells : ℤ → UInt8) (size : ℕ) : List UInt8 :=
  ((List.range size).map fun (k : ℕ) => cells k).takeWhile (· ≠ 0)

theorem stringIn_noNul (cells : ℤ → UInt8) (size : ℕ) : (0 : UInt8) ∉ stringIn cells size := by
  intro nul
  simpa using List.mem_takeWhile_imp nul

theorem stringIn_length_le (cells : ℤ → UInt8) (size : ℕ) :
    (stringIn cells size).length ≤ size := by
  have le := (List.takeWhile_prefix (l := (List.range size).map fun (k : ℕ) => cells k)
    (fun c => decide (c ≠ 0))).length_le
  simpa [stringIn] using le

theorem stringIn_eq {cells : ℤ → UInt8} {size : ℕ} {text : List UInt8}
    (noNul : (0 : UInt8) ∉ text) (room : text.length < size)
    (stored : ∀ k (bound : k < text.length), cells k = text[k])
    (terminator : cells text.length = 0) :
    stringIn cells size = text := by
  rcases Nat.exists_eq_add_of_lt room with ⟨rest, rfl⟩
  have before : (List.range text.length).map (fun (k : ℕ) => cells k) = text := by
    apply List.ext_getElem
    · simp
    · intro k inside inside'
      simpa using stored k inside'
  have nonzero : ∀ c ∈ text, decide (c ≠ 0) = true := by
    intro c mem
    refine decide_eq_true ?_
    rintro rfl
    exact noNul mem
  rw [stringIn, Nat.add_assoc, List.range_add, List.range_succ_eq_map, List.map_append, before,
    List.takeWhile_append_of_pos nonzero]
  simp [terminator]

attribute [irreducible] stringIn

end Dvnetos.Stdio
