import Dvnetos.Utils.StdioDigits
import Dvnetos.Utils.StdioTruncation

/-!
# Unsigned numbers and pointers

What `%llu`, `%llx`, `%llX` and `%p` print is a numeral: digits of an alphabet, without a
leading zero unless the numeral is that zero, which stand for the value. A pointer has all of
its sixteen digits. The handlers return what they add to `total_chars`.
-/

namespace Dvnetos.Stdio

/-- The digits of decimal numerals. -/
def decimalAlphabet : List UInt8 := "0123456789".toList.map chr

/-- The digits of hexadecimal numerals in lower case. -/
def lowerHexAlphabet : List UInt8 := "0123456789abcdef".toList.map chr

/-- The digits of hexadecimal numerals in upper case. -/
def upperHexAlphabet : List UInt8 := "0123456789ABCDEF".toList.map chr

/-- The number that characters stand for, each of which stands for its place in the alphabet. -/
def parseNumeral (alphabet text : List UInt8) : ℕ :=
  Numeral.value alphabet.length (text.map (alphabet.idxOf ·))

/-- Digits without a leading zero, which parse to the value. -/
structure IsNumeral (alphabet text : List UInt8) (value : ℕ) : Prop where
  nonempty : text ≠ []
  isDigit : ∀ c ∈ text, c ∈ alphabet
  noLeadingZero : text.head? = some (chr '0') → text = [chr '0']
  parses : parseNumeral alphabet text = value

/-- The characters of digits. -/
structure Spells (alphabet : List UInt8) (digit : ℕ → UInt8) : Prop where
  nodup : alphabet.Nodup
  spelled : ∀ d < alphabet.length, alphabet[d]? = some (digit d)

namespace Spells

variable {alphabet : List UInt8} {digit : ℕ → UInt8} (spells : Spells alphabet digit)

include spells

theorem mem {d : ℕ} (isDigit : d < alphabet.length) : digit d ∈ alphabet :=
  List.mem_of_getElem? (spells.spelled d isDigit)

theorem idxOf_digit {d : ℕ} (isDigit : d < alphabet.length) : alphabet.idxOf (digit d) = d := by
  have spelled := spells.spelled d isDigit
  rw [List.getElem?_eq_getElem isDigit] at spelled
  rw [← Option.some.inj spelled]
  exact spells.nodup.idxOf_getElem d isDigit

theorem parseNumeral_map {numeral : List ℕ} (isDigit : ∀ d ∈ numeral, d < alphabet.length) :
    parseNumeral alphabet (numeral.map digit) = Numeral.value alphabet.length numeral := by
  have places : ∀ d ∈ numeral, alphabet.idxOf (digit d) = d :=
    fun d mem => spells.idxOf_digit (isDigit d mem)
  rw [parseNumeral, List.map_map]
  simp only [Function.comp_def]
  rw [List.map_congr_left places, List.map_id']

/-- The digits of a number are its numeral. -/
theorem isNumeral (base_gt : 1 < alphabet.length) (zero : digit 0 = chr '0') (value : ℕ) :
    IsNumeral alphabet ((Numeral.digits alphabet.length value).map digit) value := by
  have isDigit : ∀ d ∈ Numeral.digits alphabet.length value, d < alphabet.length :=
    fun d mem => Numeral.lt_of_mem_digits base_gt mem
  constructor
  · simpa using Numeral.digits_ne_nil alphabet.length value
  · intro c mem
    rcases List.mem_map.mp mem with ⟨d, inNumeral, rfl⟩
    exact spells.mem (isDigit d inNumeral)
  · intro leading
    rw [List.head?_map, Option.map_eq_some_iff] at leading
    rcases leading with ⟨d, head, isZero⟩
    have places := congrArg alphabet.idxOf (isZero.trans zero.symm)
    rw [spells.idxOf_digit (isDigit d (List.mem_of_head? head)),
      spells.idxOf_digit (by omega)] at places
    rw [places] at head
    rw [Numeral.head_digits_eq_zero head, List.map_singleton, zero]
  · rw [spells.parseNumeral_map isDigit, Numeral.value_digits]

end Spells

theorem spells_decimal : Spells decimalAlphabet fun d => decimalDigit d :=
  ⟨by decide, by decide⟩

theorem spells_lowerHex : Spells lowerHexAlphabet fun d => hexDigit (chr 'a') d :=
  ⟨by decide, by decide⟩

theorem spells_upperHex : Spells upperHexAlphabet fun d => hexDigit (chr 'A') d :=
  ⟨by decide, by decide⟩

theorem isNumeral_decimal (value : ℕ) :
    IsNumeral decimalAlphabet (digits 10 decimalDigit value) value := by
  rw [decimalDigits_natCast]
  exact spells_decimal.isNumeral (by decide) rfl value

theorem isNumeral_lowerHex (value : ℕ) :
    IsNumeral lowerHexAlphabet (digits 16 (hexDigit (chr 'a')) value) value := by
  have text := @digits_natCast 16 (by decide) (hexDigit (chr 'a')) value
  rw [Nat.cast_ofNat] at text
  rw [text]
  exact spells_lowerHex.isNumeral (by decide) rfl value

theorem isNumeral_upperHex (value : ℕ) :
    IsNumeral upperHexAlphabet (digits 16 (hexDigit (chr 'A')) value) value := by
  have text := @digits_natCast 16 (by decide) (hexDigit (chr 'A')) value
  rw [Nat.cast_ofNat] at text
  rw [text]
  exact spells_upperHex.isNumeral (by decide) rfl value

/-- The digits of `formatPointer`. -/
def pointerDigits (ptr : BitVec 64) : List UInt8 :=
  pointerShifts.map fun shift => hexDigit (chr 'a') (((ptr >>> shift) &&& 0xF).toNat : ℤ)

theorem nibble_toNat (ptr : BitVec 64) (place : ℕ) :
    ((ptr >>> (4 * place)) &&& 0xF).toNat = ptr.toNat / 16 ^ place % 16 := by
  have power : 2 ^ (4 * place) = 16 ^ place := pow_mul 2 4 place
  rw [BitVec.toNat_and, BitVec.toNat_ushiftRight, Nat.shiftRight_eq_div_pow, power]
  exact Nat.and_two_pow_sub_one_eq_mod _ 4

theorem pointerDigits_eq_map (ptr : BitVec 64) :
    pointerDigits ptr =
      ((List.range 16).reverse.map fun place => ptr.toNat / 16 ^ place % 16).map
        fun (d : ℕ) => hexDigit (chr 'a') d := by
  simp only [pointerDigits, pointerShifts, List.map_map, Function.comp_def, nibble_toNat]

/-- Sixteen digits, which parse to the pointer. -/
theorem pointerDigits_spec (ptr : BitVec 64) :
    (pointerDigits ptr).length = 16 ∧ (∀ c ∈ pointerDigits ptr, c ∈ lowerHexAlphabet) ∧
      parseNumeral lowerHexAlphabet (pointerDigits ptr) = ptr.toNat := by
  have isDigit : ∀ d ∈ (List.range 16).reverse.map fun place => ptr.toNat / 16 ^ place % 16,
      d < lowerHexAlphabet.length := by
    intro d mem
    rcases List.mem_map.mp mem with ⟨place, -, rfl⟩
    exact Nat.mod_lt _ (by decide)
  refine ⟨by simp [pointerDigits, pointerShifts], ?_, ?_⟩
  · intro c mem
    rw [pointerDigits_eq_map] at mem
    rcases List.mem_map.mp mem with ⟨d, inNumeral, rfl⟩
    exact spells_lowerHex.mem (isDigit d inNumeral)
  · have bound : ptr.toNat < 16 ^ 16 := by
      rw [show 16 ^ 16 = 2 ^ 64 by norm_num]
      exact ptr.isLt
    rw [pointerDigits_eq_map, spells_lowerHex.parseNumeral_map isDigit]
    exact (Numeral.value_places 16 ptr.toNat 16).trans (Nat.mod_eq_of_lt bound)

/-- A format of one conversion prints the text: its handler, and a call with that format. -/
structure Converts (kernel : Bool) (format : CString) (arg : Arg) (text : List UInt8) : Prop where
  handler : ∀ (n : ℕ) (j : ℤ) (sink : Sink) (args : List Arg), n < 2 ^ 64 →
    text.length < rem j n → ∃ result,
      convert kernel n (scanSpec format.chars.tail).1 j sink (arg :: args) = .ok (result, args) ∧
        Prints j text sink result
  call : ∀ (n : BufferSize) (contents : ℤ → UInt8), text.length < n.bytes →
    let output := kvsnprintf kernel n format [arg] contents
    output.returned = .ok (text.length : ℤ) ∧ stringIn output.buffer.cells n.bytes = text

theorem converts_of_chunk {kernel : Bool} {format : CString} {arg : Arg} {text : List UInt8}
    (matching : Matches format.chars [arg])
    (chunk : ∀ args, conversionChunk kernel (scanSpec format.chars.tail).1 (arg :: args) =
      .ok (.text text, args))
    (rendered : rendering kernel format [arg] = text) (nonempty : text ≠ [])
    (noNul : (0 : UInt8) ∉ text) (counted : text.length < 2 ^ 31) :
    Converts kernel format arg text := by
  constructor
  · intro n j sink args isSize room
    have roomIsSize : rem j n < 2 ^ 64 := by
      rw [rem]
      split_ifs
      · decide
      · exact Word.sub64_lt _ _
    refine ⟨putText j (rem j n) text (sink, 0), ?_,
      putText_prints roomIsSize nonempty sink room counted⟩
    rw [convert_eq_handle, chunk]
    rfl
  · intro n contents room
    rw [← rendered] at room counted noNul
    rcases kvsnprintf_holds (n := n) kernel contents matching (by omega) counted with
      ⟨returned, cells, terminator⟩
    rw [Nat.min_eq_left (by omega)] at terminator
    rw [← rendered]
    refine ⟨returned, stringIn_eq noNul room (fun k bound => ?_) terminator⟩
    exact cells k bound (by omega)

/-- `%llu`, `%llx`, `%llX` and `%p`. -/
def llu : CString := ⟨"%llu".toList.map chr, by decide⟩

/-- A format for hexadecimal numerals in lower case. -/
def llx : CString := ⟨"%llx".toList.map chr, by decide⟩

/-- A format for hexadecimal numerals in upper case. -/
def llX : CString := ⟨"%llX".toList.map chr, by decide⟩

/-- A format for pointers. -/
def p : CString := ⟨"%p".toList.map chr, by decide⟩

theorem length_digits_le {radix : ℕ} (radix_ge : 10 ≤ radix) (digit : ℤ → UInt8)
    (value : BitVec 64) : (digits radix digit value.toNat).length ≤ 20 := by
  rw [length_digits (by omega), Int.natAbs_natCast,
    Numeral.length_digits_le_iff (by omega) (by decide)]
  calc value.toNat < 2 ^ 64 := value.isLt
    _ ≤ 10 ^ 20 := by norm_num
    _ ≤ radix ^ 20 := Nat.pow_le_pow_left radix_ge 20

theorem IsNumeral.noNul {alphabet text : List UInt8} {value : ℕ}
    (numeral : IsNumeral alphabet text value) (noNul : (0 : UInt8) ∉ alphabet) :
    (0 : UInt8) ∉ text :=
  fun nul => noNul (numeral.isDigit 0 nul)

/-- Unsigned numbers and pointers are printed so that they can be read back. -/
theorem unsigned_roundTrip (kernel : Bool) (value : BitVec 64) :
    (∃ text, IsNumeral decimalAlphabet text value.toNat ∧
        Converts kernel llu (.longLong value) text) ∧
      (∃ text, IsNumeral lowerHexAlphabet text value.toNat ∧
        Converts kernel llx (.longLong value) text) ∧
      (∃ text, IsNumeral upperHexAlphabet text value.toNat ∧
        Converts kernel llX (.longLong value) text) ∧
      ∃ hexDigits, hexDigits.length = 16 ∧ (∀ c ∈ hexDigits, c ∈ lowerHexAlphabet) ∧
        parseNumeral lowerHexAlphabet hexDigits = value.toNat ∧
        Converts kernel p (.pointer value) (chr '0' :: chr 'x' :: hexDigits) := by
  have decimal := isNumeral_decimal value.toNat
  have lower := isNumeral_lowerHex value.toNat
  have upper := isNumeral_upperHex value.toNat
  have pointer := pointerDigits_spec value
  refine ⟨⟨_, decimal, ?_⟩, ⟨_, lower, ?_⟩, ⟨_, upper, ?_⟩, _, pointer.1, pointer.2.1,
    pointer.2.2, ?_⟩
  · have short := @length_digits_le 10 (by decide) decimalDigit value
    have isNumber : IsNumber (scanSpec llu.chars.tail).1.type := .inr (.inr (.inr (.inr rfl)))
    have matching : Matches llu.chars [.longLong value] :=
      .conversion (by decide) rfl ⟨isNumber, rfl, rfl⟩ .done
    apply converts_of_chunk matching (fun _ => rfl) _ decimal.nonempty (decimal.noNul (by decide))
    · exact Nat.lt_of_le_of_lt short (by decide)
    · exact List.append_nil _
  · have short := @length_digits_le 16 (by decide) (hexDigit (chr 'a')) value
    have isNumber : IsNumber (scanSpec llx.chars.tail).1.type := .inr (.inl rfl)
    have matching : Matches llx.chars [.longLong value] :=
      .conversion (by decide) rfl ⟨isNumber, rfl, rfl⟩ .done
    apply converts_of_chunk matching (fun _ => rfl) _ lower.nonempty (lower.noNul (by decide))
    · exact Nat.lt_of_le_of_lt short (by decide)
    · exact List.append_nil _
  · have short := @length_digits_le 16 (by decide) (hexDigit (chr 'A')) value
    have isNumber : IsNumber (scanSpec llX.chars.tail).1.type := .inr (.inr (.inl rfl))
    have matching : Matches llX.chars [.longLong value] :=
      .conversion (by decide) rfl ⟨isNumber, rfl, rfl⟩ .done
    apply converts_of_chunk matching (fun _ => rfl) _ upper.nonempty (upper.noNul (by decide))
    · exact Nat.lt_of_le_of_lt short (by decide)
    · exact List.append_nil _
  · have matching : Matches p.chars [.pointer value] :=
      .conversion (by decide) rfl rfl .done
    apply converts_of_chunk matching (fun _ => rfl) (List.append_nil _) (List.cons_ne_nil _ _)
    · intro nul
      rcases List.mem_cons.mp nul with isZero | nul
      · exact absurd isZero (by decide)
      rcases List.mem_cons.mp nul with isX | nul
      · exact absurd isX (by decide)
      exact absurd (pointer.2.1 0 nul) (by decide)
    · have length : (pointerText value).length = 16 + 2 := congrArg (· + 2) pointer.1
      omega

end Dvnetos.Stdio
