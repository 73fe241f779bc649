import Dvnetos.Lib.Numerals
import Dvnetos.Utils.StdioBounds

/-!
# The digit loops

The handlers of numbers take the digits off the end of a value and store them
in a `temp` array of 20 bytes, from where they are copied in reverse. This file
relates the digits to the numerals of the value, says for which values the
output of `formatDecimal` is right, and for which values `temp` is long enough.
The lowest value of a signed type is its own negation, so that its digits are
taken off a negative number, and octal numbers from 2^60 on have more than 20
digits.
-/

namespace Dvnetos.Stdio

open Word

/-- The loop takes the digits off a value of either sign, which the digits then have. -/
theorem digitLoop_eq_map {radix : ℕ} (radix_gt : 1 < radix) (digit : ℤ → UInt8) {sign : ℤ}
    (isSign : sign = 1 ∨ sign = -1) {fuel n : ℕ} (enough : n < fuel) (temp : List UInt8) :
    digitLoop radix digit fuel (sign * n) temp =
      ((Numeral.digits radix n).map fun (d : ℕ) => digit (sign * d)) ++ temp := by
  induction fuel generalizing n temp with
  | zero => omega
  | succ fuel ih =>
      have remainder : (sign * n).tmod radix = sign * (n % radix : ℕ) := by
        rcases isSign with rfl | rfl <;> simp [Int.neg_tmod, Int.tmod_eq_emod_of_nonneg]
      have quotient : (sign * n).tdiv radix = sign * (n / radix : ℕ) := by
        rcases isSign with rfl | rfl <;> simp [Int.neg_tdiv]
      have nonzero : sign ≠ 0 := by rcases isSign with rfl | rfl <;> simp
      rw [digitLoop, Numeral.digits_eq_append radix_gt n]
      simp only [remainder, quotient, mul_eq_zero, nonzero, false_or, Nat.cast_eq_zero]
      split
      · simp
      · next more =>
          have smaller : n / radix < n := by
            apply Nat.div_lt_self _ radix_gt
            rcases Nat.eq_zero_or_pos n with rfl | positive
            · simp at more
            · exact positive
          rw [ih (by omega)]
          simp

theorem digits_natCast {radix : ℕ} (radix_gt : 1 < radix) (digit : ℤ → UInt8) (n : ℕ) :
    digits radix digit n = (Numeral.digits radix n).map fun (d : ℕ) => digit d := by
  have loop := digitLoop_eq_map radix_gt digit (Or.inl rfl) (Nat.lt_succ_self n) []
  simpa [digits] using loop

theorem digits_neg_natCast {radix : ℕ} (radix_gt : 1 < radix) (digit : ℤ → UInt8) (n : ℕ) :
    digits radix digit (-n) = (Numeral.digits radix n).map fun (d : ℕ) => digit (-d) := by
  have loop := digitLoop_eq_map radix_gt digit (Or.inr rfl) (Nat.lt_succ_self n) []
  simpa [digits] using loop

theorem length_digits {radix : ℕ} (radix_gt : 1 < radix) (digit : ℤ → UInt8) (value : ℤ) :
    (digits radix digit value).length = (Numeral.digits radix value.natAbs).length := by
  rcases Int.eq_nat_or_neg value with ⟨n, rfl | rfl⟩
  · simp [digits_natCast radix_gt]
  · simp [digits_neg_natCast radix_gt]

theorem decimalDigit_toNat {d : ℕ} (isDigit : d < 10) : (decimalDigit d).toNat = 48 + d := by
  simp only [decimalDigit]
  rw [UInt8.toNat_ofNat']
  omega

/--
The loop `do { temp[k++] = digit(value % radix); value /= radix; } while (value)`
on the array, with the index `k` it ends with.
-/
def tempLoop (radix : ℤ) (digit : ℤ → UInt8) :
    ℕ → ℤ → ℕ → TracedStore ℕ UInt8 → TracedStore ℕ UInt8 × ℕ
  | 0, _, k, temp => (temp, k)
  | fuel + 1, value, k, temp =>
      let temp := temp.store k (digit (value.tmod radix))
      if value.tdiv radix = 0 then (temp, k + 1)
      else tempLoop radix digit fuel (value.tdiv radix) (k + 1) temp

/-- The array a handler has filled, and the number of digits in it. -/
def fillTemp (radix : ℤ) (digit : ℤ → UInt8) (value : ℤ) (contents : ℕ → UInt8) :
    TracedStore ℕ UInt8 × ℕ :=
  tempLoop radix digit (value.natAbs + 1) value 0 (.fresh contents)

/-- `formatDecimal` fills the array behind the test of the sign. -/
def decimalTemp (type : IntType) (value : ℤ) (contents : ℕ → UInt8) : TracedStore ℕ UInt8 × ℕ :=
  fillTemp 10 decimalDigit
    (if type.isSigned && decide (value < 0) then type.negate value else value) contents

/-- The digits that `formatHex` stores to `temp`. -/
def hexTemp (format : FormatSpec) (value : ℕ) (contents : ℕ → UInt8) : TracedStore ℕ UInt8 × ℕ :=
  fillTemp 16 (hexDigit (if format.type = chr 'X' then chr 'A' else chr 'a')) value contents

/-- The digits that `formatOct` stores to `temp`. -/
def octTemp (value : ℕ) (contents : ℕ → UInt8) : TracedStore ℕ UInt8 × ℕ :=
  fillTemp 8 decimalDigit value contents

/-- The bytes of an array from index `k - 1` down to index `0`, as the output loops read them. -/
def readDown (temp : TracedStore ℕ UInt8) (k : ℕ) : List UInt8 :=
  (List.range k).reverse.map temp.cells

theorem readDown_store (temp : TracedStore ℕ UInt8) (k : ℕ) (c : UInt8) :
    readDown (temp.store k c) (k + 1) = c :: readDown temp k := by
  have below : ∀ i ∈ (List.range k).reverse, (temp.store k c).cells i = temp.cells i := by
    intro i mem
    have lt : i < k := by simpa using mem
    exact temp.cells_store_of_ne c (by omega)
  simp only [readDown, List.range_succ, List.reverse_append, List.reverse_singleton,
    List.singleton_append, List.map_cons, TracedStore.cells_store_same]
  rw [List.map_congr_left below]

theorem readDown_tempLoop (radix : ℤ) (digit : ℤ → UInt8) (fuel : ℕ) (value : ℤ) (k : ℕ)
    (temp : TracedStore ℕ UInt8) :
    readDown (tempLoop radix digit fuel value k temp).1 (tempLoop radix digit fuel value k temp).2 =
      digitLoop radix digit fuel value (readDown temp k) := by
  induction fuel generalizing value k temp with
  | zero => rfl
  | succ fuel ih =>
      simp only [tempLoop, digitLoop]
      split
      · exact readDown_store ..
      · simp only [ih, readDown_store]

/-- What the output loop of a handler reads from its array is what the handler prints. -/
theorem readDown_fillTemp (radix : ℤ) (digit : ℤ → UInt8) (value : ℤ) (contents : ℕ → UInt8) :
    readDown (fillTemp radix digit value contents).1 (fillTemp radix digit value contents).2 =
      digits radix digit value :=
  readDown_tempLoop ..

theorem footprint_tempLoop (radix : ℤ) (digit : ℤ → UInt8) (fuel : ℕ) (value : ℤ) {k : ℕ}
    {temp : TracedStore ℕ UInt8} (filled : temp.footprint = (List.range k).reverse) :
    (tempLoop radix digit fuel value k temp).1.footprint =
      (List.range (tempLoop radix digit fuel value k temp).2).reverse := by
  induction fuel generalizing value k temp with
  | zero => exact filled
  | succ fuel ih =>
      have stored (c : UInt8) : (temp.store k c).footprint = (List.range (k + 1)).reverse := by
        simp [filled, List.range_succ]
      simp only [tempLoop]
      split
      · exact stored _
      · exact ih _ (stored _)

/-- The indexes stored to are those of the digits. -/
theorem fillTemp_within_iff {radix : ℕ} (radix_gt : 1 < radix) (digit : ℤ → UInt8) (value : ℤ)
    (contents : ℕ → UInt8) {size : ℕ} (positive : 0 < size) :
    (fillTemp radix digit value contents).1.Within (· < size) ↔ value.natAbs < radix ^ size := by
  have count : (fillTemp radix digit value contents).2 =
      (Numeral.digits radix value.natAbs).length := by
    rw [← length_digits radix_gt digit, ← readDown_fillTemp _ _ _ contents]
    simp [readDown]
  have footprint : (fillTemp radix digit value contents).1.footprint =
      (List.range (fillTemp radix digit value contents).2).reverse :=
    footprint_tempLoop _ _ _ _ rfl
  rw [← Numeral.length_digits_le_iff radix_gt positive, ← count]
  simp only [TracedStore.Within, footprint, List.mem_reverse, List.mem_range]
  constructor
  · intro within
    by_contra longer
    exact lt_irrefl _ (within size (by omega))
  · intro le k lt
    omega

namespace IntType

/-- The value of the low bits of a word in the type. -/
def ofBits : IntType → BitVec 64 → ℤ
  | .int, word => (word.setWidth 32).toInt
  | .long, word => word.toInt
  | .longLong, word => word.toInt
  | .unsignedLongLong, word => word.toNat

/-- The lowest value of the type. -/
def lowest (type : IntType) : ℤ := if type.isSigned then -2 ^ (type.bits - 1) else 0

/-- The highest value of the type. -/
def highest (type : IntType) : ℤ :=
  if type.isSigned then 2 ^ (type.bits - 1) - 1 else 2 ^ type.bits - 1

/-- The type can represent the value. -/
def Fits (type : IntType) (value : ℤ) : Prop := type.lowest ≤ value ∧ value ≤ type.highest

instance (type : IntType) : DecidablePred type.Fits :=
  fun value => inferInstanceAs (Decidable (type.lowest ≤ value ∧ value ≤ type.highest))

theorem fits_ofBits (type : IntType) (word : BitVec 64) : type.Fits (type.ofBits word) := by
  cases type with
  | int =>
      exact ⟨(word.setWidth 32).le_toInt, Int.le_sub_one_of_lt (word.setWidth 32).toInt_lt⟩
  | long => exact ⟨word.le_toInt, Int.le_sub_one_of_lt word.toInt_lt⟩
  | longLong => exact ⟨word.le_toInt, Int.le_sub_one_of_lt word.toInt_lt⟩
  | unsignedLongLong =>
      have upper : (word.toNat : ℤ) < 2 ^ 64 := by exact_mod_cast word.isLt
      exact ⟨Int.natCast_nonneg _, Int.le_sub_one_of_lt upper⟩

/-- A value of a signed type can be negated in the type unless it is the lowest one. -/
theorem negate_eq_neg {type : IntType} (signed : type.isSigned = true) {value : ℤ}
    (fits : type.Fits value) (notLowest : value ≠ type.lowest) : type.negate value = -value := by
  unfold Fits at fits
  simp only [negate]
  rw [Int.bmod_def]
  cases type <;> simp [lowest, highest, isSigned, bits] at signed fits notLowest ⊢ <;> omega

theorem negate_lowest {type : IntType} (signed : type.isSigned = true) :
    type.negate type.lowest = type.lowest := by
  cases type with
  | unsignedLongLong => cases signed
  | _ => rfl

/-- The value whose digits `formatDecimal` takes has at most 64 bits. -/
theorem natAbs_lt {type : IntType} {value : ℤ} (fits : type.Fits value) :
    (if type.isSigned && decide (value < 0) then type.negate value else value).natAbs < 2 ^ 64 := by
  unfold Fits at fits
  simp only [negate]
  rw [Int.bmod_def]
  cases type <;> simp [lowest, highest, isSigned, bits] at fits ⊢ <;> omega

end IntType

/--
The 20 bytes of `temp` are enough for the decimal digits of every type and for
hexadecimal digits, and for the octal digits of the values below 2^60.
-/
theorem temp_within_iff (word : BitVec 64) (format : FormatSpec) (contents : ℕ → UInt8) :
    (∀ type : IntType, (decimalTemp type (type.ofBits word) contents).1.Within (· < 20)) ∧
        (hexTemp format word.toNat contents).1.Within (· < 20) ∧
        (octTemp word.toNat contents).1.Within (· < 20) ↔
      word.toNat < 2 ^ 60 := by
  have decimal (type : IntType) :
      (decimalTemp type (type.ofBits word) contents).1.Within (· < 20) := by
    refine (@fillTemp_within_iff 10 (by omega) _ _ _ _ (by omega)).mpr ?_
    exact (IntType.natAbs_lt (type.fits_ofBits word)).trans (by norm_num)
  have hex : (hexTemp format word.toNat contents).1.Within (· < 20) := by
    refine (@fillTemp_within_iff 16 (by omega) _ _ _ _ (by omega)).mpr ?_
    simpa using word.isLt.trans (by norm_num)
  have oct : (octTemp word.toNat contents).1.Within (· < 20) ↔ word.toNat < 2 ^ 60 := by
    have power : 8 ^ 20 = 2 ^ 60 := by norm_num
    rw [← power]
    exact @fillTemp_within_iff 8 (by omega) decimalDigit word.toNat contents 20 (by omega)
  simp only [decimal, hex, oct, implies_true, true_and]

/-- The 21st octal digit of 2^60 is stored behind the array. -/
theorem formatOct_stores_behind_temp :
    ¬(octTemp (2 ^ 60) fun _ => 0).1.Within (· < 20) := by
  intro within
  exact absurd (within 20 (by decide)) (by decide)

/-- A character from `'0'` to `'9'`. -/
def IsDigit (c : UInt8) : Prop := chr '0' ≤ c ∧ c ≤ chr '9'

instance : DecidablePred IsDigit := fun c => inferInstanceAs (Decidable (chr '0' ≤ c ∧ c ≤ chr '9'))

/-- The number that digits stand for. -/
def digitsValue (digits : List UInt8) : ℕ :=
  Numeral.value 10 (digits.map fun c => c.toNat - (chr '0').toNat)

/-- The text behind an optional minus sign. -/
def dropSign (text : List UInt8) : List UInt8 :=
  if text.head? = some (chr '-') then text.tail else text

/-- The number that an optional minus sign and digits stand for. -/
def parseDecimal (text : List UInt8) : ℤ :=
  if text.head? = some (chr '-') then -digitsValue text.tail else digitsValue text

/-- An optional minus sign and digits without a leading zero, which parse to the value. -/
structure CanonicalDecimal (text : List UInt8) (value : ℤ) : Prop where
  nonempty : dropSign text ≠ []
  isDigit : ∀ c ∈ dropSign text, IsDigit c
  noLeadingZero : (dropSign text).head? = some (chr '0') → text = [chr '0']
  parses : parseDecimal text = value

@[simp]
theorem chr_zero_toNat : (chr '0').toNat = 48 := rfl

theorem IsDigit.bounds {c : UInt8} (isDigit : IsDigit c) : 48 ≤ c.toNat ∧ c.toNat ≤ 57 :=
  ⟨UInt8.le_iff_toNat_le.mp isDigit.1, UInt8.le_iff_toNat_le.mp isDigit.2⟩

/-- A digit is the character of its own value. -/
theorem IsDigit.eq_decimalDigit {c : UInt8} (isDigit : IsDigit c) :
    c.toNat - 48 < 10 ∧ c = decimalDigit ((c.toNat - 48 : ℕ) : ℤ) := by
  rcases isDigit.bounds with ⟨lower, upper⟩
  have lt : c.toNat - 48 < 10 := by omega
  refine ⟨lt, UInt8.toNat_inj.mp ?_⟩
  rw [decimalDigit_toNat lt]
  omega

theorem decimalDigit_isDigit {d : ℕ} (lt : d < 10) : IsDigit (decimalDigit d) := by
  have code := decimalDigit_toNat lt
  constructor
  · rw [UInt8.le_iff_toNat_le, code]
    exact Nat.le_add_right 48 d
  · rw [UInt8.le_iff_toNat_le, code]
    exact Nat.add_le_add_left (Nat.le_of_lt_succ lt) 48

theorem IsDigit.ne_sign {c : UInt8} (isDigit : IsDigit c) : c ≠ chr '-' := by
  rintro rfl
  exact absurd isDigit.1 (by decide)

theorem decimalDigits_natCast (n : ℕ) :
    digits 10 decimalDigit n = (Numeral.digits 10 n).map fun (d : ℕ) => decimalDigit d :=
  @digits_natCast 10 (by omega) decimalDigit n

theorem digits_isDigit (n : ℕ) : ∀ c ∈ digits 10 decimalDigit n, IsDigit c := by
  intro c mem
  rw [decimalDigits_natCast] at mem
  rcases List.mem_map.mp mem with ⟨d, isDigit, rfl⟩
  exact decimalDigit_isDigit (Numeral.lt_of_mem_digits (by omega) isDigit)

theorem digits_ne_nil (radix : ℕ) (radix_gt : 1 < radix) (digit : ℤ → UInt8) (value : ℤ) :
    digits radix digit value ≠ [] := by
  apply List.ne_nil_of_length_pos
  rw [length_digits radix_gt]
  exact List.length_pos_of_ne_nil (Numeral.digits_ne_nil _ _)

theorem digitsValue_digits (n : ℕ) : digitsValue (digits 10 decimalDigit n) = n := by
  have codes : ∀ d ∈ Numeral.digits 10 n, (decimalDigit d).toNat - (chr '0').toNat = d := by
    intro d mem
    rw [decimalDigit_toNat (Numeral.lt_of_mem_digits (by omega) mem)]
    exact Nat.add_sub_cancel_left 48 d
  rw [decimalDigits_natCast]
  simp only [digitsValue, List.map_map, Function.comp_def]
  rw [List.map_congr_left codes, List.map_id', Numeral.value_digits]

theorem digits_head_zero {n : ℕ} (leading : (digits 10 decimalDigit n).head? = some (chr '0')) :
    n = 0 := by
  rw [decimalDigits_natCast, List.head?_map, Option.map_eq_some_iff] at leading
  rcases leading with ⟨d, head, isZero⟩
  have lt := Numeral.lt_of_mem_digits (by omega) (List.mem_of_head? head)
  have code := decimalDigit_toNat lt
  rw [isZero] at code
  obtain rfl : d = 0 := Nat.left_eq_add.mp code
  have alone := Numeral.head_digits_eq_zero head
  rw [← Numeral.digits_zero 10] at alone
  exact Numeral.digits_injective 10 alone

/-- The digits of a number are its canonical decimal. -/
theorem canonical_digits (n : ℕ) : CanonicalDecimal (digits 10 decimalDigit n) n := by
  have unsigned : dropSign (digits 10 decimalDigit n) = digits 10 decimalDigit n := by
    simp only [dropSign]
    split
    · next minus => exact absurd rfl (digits_isDigit n _ (List.mem_of_head? minus)).ne_sign
    · rfl
  constructor
  · rw [unsigned]
    exact @digits_ne_nil 10 (by omega) _ _
  · rw [unsigned]
    exact digits_isDigit n
  · rw [unsigned]
    intro leading
    rw [digits_head_zero leading]
    rfl
  · simp only [parseDecimal]
    split
    · next minus => exact absurd rfl (digits_isDigit n _ (List.mem_of_head? minus)).ne_sign
    · rw [digitsValue_digits]

/-- A minus sign and the digits of a positive number are the canonical decimal of its negation. -/
theorem canonical_neg_digits {n : ℕ} (positive : 0 < n) :
    CanonicalDecimal (chr '-' :: digits 10 decimalDigit n) (-n) := by
  constructor
  · exact @digits_ne_nil 10 (by omega) _ _
  · exact digits_isDigit n
  · intro leading
    have zero := digits_head_zero leading
    omega
  · exact congrArg (fun value : ℕ => -(value : ℤ)) (digitsValue_digits n)

theorem eq_digits_of_isDigit {text : List UInt8} (nonempty : text ≠ [])
    (isDigit : ∀ c ∈ text, IsDigit c)
    (noLeadingZero : text.head? = some (chr '0') → text = [chr '0']) :
    text = digits 10 decimalDigit (digitsValue text) := by
  have leading : (text.map fun c => c.toNat - 48).head? = some 0 →
      (text.map fun c => c.toNat - 48) = [0] := by
    intro leading
    rw [List.head?_map, Option.map_eq_some_iff] at leading
    rcases leading with ⟨c, head, zero⟩
    have isZero := (isDigit c (List.mem_of_head? head)).eq_decimalDigit.2
    rw [zero] at isZero
    rw [noLeadingZero (head.trans (congrArg some isZero))]
    rfl
  have isNumeral : ∀ d ∈ text.map fun c => c.toNat - 48, d < 10 := by
    intro d mem
    rcases List.mem_map.mp mem with ⟨c, isChar, rfl⟩
    exact (isDigit c isChar).eq_decimalDigit.1
  have nonempty' : text.map (fun c => c.toNat - 48) ≠ [] := by simpa using nonempty
  have numeral := Numeral.digits_value (by omega) nonempty' isNumeral leading
  simp only [decimalDigits_natCast, digitsValue, chr_zero_toNat, numeral, List.map_map]
  calc text = text.map id := (List.map_id text).symm
    _ = text.map _ := List.map_congr_left fun c mem => (isDigit c mem).eq_decimalDigit.2

/-- The canonical decimal of a value is its digits, behind a sign if it is negative. -/
theorem CanonicalDecimal.eq_digits {text : List UInt8} {value : ℤ}
    (canonical : CanonicalDecimal text value) :
    text = if value < 0 then chr '-' :: digits 10 decimalDigit value.natAbs
      else digits 10 decimalDigit value.natAbs := by
  rcases canonical with ⟨nonempty, isDigit, noLeadingZero, parses⟩
  by_cases minus : text.head? = some (chr '-')
  · simp only [dropSign, parseDecimal, minus, if_true] at nonempty isDigit noLeadingZero parses
    rcases List.head?_eq_some_iff.mp minus with ⟨rest, rfl⟩
    rw [List.tail_cons] at nonempty isDigit noLeadingZero parses
    have noZero : rest.head? ≠ some (chr '0') := by
      intro leading
      exact absurd (noLeadingZero leading) (by simp +decide)
    have restDigits := eq_digits_of_isDigit nonempty isDigit fun leading => absurd leading noZero
    have positive : digitsValue rest ≠ 0 := by
      intro zero
      rw [zero] at restDigits
      rw [restDigits] at noZero
      exact noZero rfl
    have magnitude : value.natAbs = digitsValue rest := by omega
    rw [if_pos (by omega), magnitude, ← restDigits]
  · simp only [dropSign, parseDecimal, minus, if_false] at nonempty isDigit noLeadingZero parses
    have magnitude : value.natAbs = digitsValue text := by omega
    rw [if_neg (by omega), magnitude]
    exact eq_digits_of_isDigit nonempty isDigit noLeadingZero

theorem canonical_decimalText {type : IntType} (signed : type.isSigned = true) {value : ℤ}
    (fits : type.Fits value) (notLowest : value ≠ type.lowest) :
    CanonicalDecimal (decimalText type value) value := by
  simp only [decimalText]
  split
  · next negative =>
      have lt : value < 0 := by simpa [signed] using negative
      rcases Int.exists_eq_neg_ofNat (le_of_lt lt) with ⟨n, rfl⟩
      rw [IntType.negate_eq_neg signed fits notLowest, neg_neg]
      exact canonical_neg_digits (by omega)
  · next nonnegative =>
      have ge : 0 ≤ value := by simpa [signed] using nonnegative
      rcases Int.eq_ofNat_of_zero_le ge with ⟨n, rfl⟩
      exact canonical_digits n

/-- The last digit of the lowest value is `'0' - 8`. -/
theorem not_canonical_lowest {type : IntType} (signed : type.isSigned = true) :
    ¬CanonicalDecimal (decimalText type type.lowest) type.lowest := by
  have negative : type.lowest < 0 := by
    cases type with
    | unsignedLongLong => cases signed
    | _ => decide
  have last : type.lowest.natAbs % 10 = 8 := by
    cases type with
    | unsignedLongLong => cases signed
    | _ => decide
  have nonpositive : type.lowest = -(type.lowest.natAbs : ℤ) := by omega
  have text : decimalText type type.lowest =
      chr '-' :: (Numeral.digits 10 type.lowest.natAbs).map fun (d : ℕ) => decimalDigit (-d) := by
    rw [decimalText, signed, Bool.true_and, decide_eq_true negative, if_pos rfl,
      IntType.negate_lowest signed]
    have loop := @digits_neg_natCast 10 (by omega) decimalDigit type.lowest.natAbs
    rw [← nonpositive] at loop
    exact congrArg (List.cons (chr '-')) loop
  intro canonical
  have mem : decimalDigit (-8) ∈ dropSign (decimalText type type.lowest) := by
    have inNumeral : 8 ∈ Numeral.digits 10 type.lowest.natAbs := by
      rw [Numeral.digits_eq_append (by omega), last]
      exact List.mem_append_right _ (List.mem_singleton_self 8)
    rw [text]
    exact List.mem_map_of_mem (f := fun (d : ℕ) => decimalDigit (-d)) inNumeral
  have notDigit : ¬IsDigit (decimalDigit (-8)) := by decide
  exact notDigit (canonical.isDigit _ mem)

/-- The results of `value % 10`, `'0' + (value % 10)` and `value / 10` in the digit loop. -/
def digitSteps : ℕ → ℤ → List ℤ
  | 0, _ => []
  | fuel + 1, value =>
      [value.tmod 10, 48 + value.tmod 10, value.tdiv 10] ++
        if value.tdiv 10 = 0 then [] else digitSteps fuel (value.tdiv 10)

/-- The exact results of the computations that `formatDecimal` makes in the type. -/
def decimalSteps (type : IntType) (value : ℤ) : List ℤ :=
  if type.isSigned && decide (value < 0) then
    -value :: digitSteps ((type.negate value).natAbs + 1) (type.negate value)
  else digitSteps (value.natAbs + 1) value

/-- What a handler does that prints the text at `base`: the text, and nothing else, is stored. -/
structure Prints (base : ℤ) (text : List UInt8) (before : Sink) (result : Sink × ℤ) : Prop where
  cells : ∀ k (bound : k < text.length), result.1.buffer.cells (base + k) = text[k]
  frame : TracedStore.Frame (fun address => base ≤ address ∧ address < base + text.length)
    before.buffer result.1.buffer
  total_chars : result.1.total_chars = int32 (before.total_chars + text.length)
  returned : result.2 = text.length

theorem putText_cells {base : ℤ} {n : ℕ} (isSize : n < 2 ^ 64) (text : List UInt8) (sink : Sink)
    {j : ℕ} (room : j + text.length < n) (counted : j + text.length < 2 ^ 31) :
    (∀ k (bound : k < text.length),
        (putText base n text (sink, j)).1.buffer.cells (base + j + k) = text[k]) ∧
      TracedStore.Frame (fun address => base + j ≤ address ∧ address < base + j + text.length)
        sink.buffer (putText base n text (sink, j)).1.buffer := by
  induction text generalizing sink j with
  | nil => exact ⟨by simp, TracedStore.Frame.refl _⟩
  | cons c text ih =>
      rw [List.length_cons] at room counted
      have stores : sizeT j < sub64 n 1 := by
        rw [sizeT_natCast (by omega), sub64_of_le (by omega) (by omega)]
        omega
      have next : int32 ((j : ℤ) + 1) = (j + 1 : ℕ) := int32_succ (by omega)
      simp only [putText_cons, putChar, stores, if_true, next]
      obtain ⟨cells, frame⟩ := ih
        { buffer := sink.buffer.store (base + j) c, total_chars := int32 (sink.total_chars + 1) }
        (j := j + 1) (by omega) (by omega)
      constructor
      · intro k bound
        cases k with
        | zero =>
            rw [frame.cells _ (by push_cast; omega)]
            simp
        | succ k =>
            have address : base + j + (k + 1 : ℕ) = base + (j + 1 : ℕ) + k := by omega
            rw [address, List.getElem_cons_succ]
            exact cells k (Nat.lt_of_succ_lt_succ bound)
      · refine TracedStore.Frame.trans (TracedStore.Frame.store _ c ?_) (frame.mono ?_)
        · simp only [List.length_cons]
          omega
        · intro address inside
          push_cast [List.length_cons] at inside ⊢
          omega

/-- A handler with enough room prints its text. -/
theorem putText_prints {base : ℤ} {n : ℕ} (isSize : n < 2 ^ 64) {text : List UInt8}
    (nonempty : text ≠ []) (sink : Sink) (room : text.length < n)
    (counted : text.length < 2 ^ 31) :
    Prints base text sink (putText base n text (sink, 0)) := by
  obtain ⟨cells, frame⟩ := @putText_cells base n isSize text sink 0 (by omega)
    (by omega)
  have position := putText_position base n text sink 0
  have zero : int32 0 = 0 := int32_of_fits (by omega) (by omega)
  rw [zero, zero_add, int32_of_fits (by omega) (by omega)] at position
  constructor
  · simpa using cells
  · simpa using frame
  · cases text with
    | nil => exact absurd rfl nonempty
    | cons c text =>
        rw [putText_cons, putChar, putText_total_chars]
        congr 1
        push_cast [List.length_cons]
        ring
  · exact position

/-- The digit loop on a number stays between zero and the number or the code of `'9'`. -/
theorem digitSteps_bounds (fuel n : ℕ) :
    ∀ step ∈ digitSteps fuel n, 0 ≤ step ∧ step ≤ max n 57 := by
  induction fuel generalizing n with
  | zero => simp [digitSteps]
  | succ fuel ih =>
      intro step mem
      have remainder : (n : ℤ).tmod 10 = (n % 10 : ℕ) := (Int.ofNat_tmod n 10).symm
      have quotient : (n : ℤ).tdiv 10 = (n / 10 : ℕ) := (Int.ofNat_tdiv n 10).symm
      simp only [digitSteps, remainder, quotient, List.cons_append, List.nil_append,
        List.mem_cons] at mem
      rcases mem with rfl | rfl | rfl | later
      · omega
      · omega
      · omega
      · split at later
        · cases later
        · have bounds := ih (n / 10) step later
          omega

/-- The computations overflow only where the value has no negation. -/
theorem decimalSteps_fit_iff {type : IntType} (signed : type.isSigned = true) {value : ℤ}
    (fits : type.Fits value) :
    (∀ step ∈ decimalSteps type value, type.Fits step) ↔ value ≠ type.lowest := by
  have range : type.lowest + type.highest = -1 ∧ 57 ≤ type.highest := by
    cases type with
    | unsignedLongLong => cases signed
    | _ => decide
  have fits' := fits
  simp only [IntType.Fits] at fits'
  have inRange (fuel n : ℕ) (le : (n : ℤ) ≤ type.highest) :
      ∀ step ∈ digitSteps fuel n, type.Fits step := by
    intro step mem
    have bounds := digitSteps_bounds fuel n step mem
    constructor <;> omega
  constructor
  · rintro fit rfl
    have negation : type.Fits (-type.lowest) := by
      apply fit
      have negative : decide (type.lowest < 0) = true := decide_eq_true (by omega)
      simp [decimalSteps, signed, negative]
    have overflows := negation.2
    omega
  · intro notLowest step mem
    unfold decimalSteps at mem
    split at mem
    · next negative =>
        have lt : value < 0 := by simpa [signed] using negative
        rcases Int.exists_eq_neg_ofNat (le_of_lt lt) with ⟨n, rfl⟩
        rw [IntType.negate_eq_neg signed fits notLowest, neg_neg] at mem
        rcases List.mem_cons.mp mem with rfl | later
        · constructor <;> omega
        · exact inRange _ n (by omega) step later
    · next nonnegative =>
        have ge : 0 ≤ value := by simpa [signed] using nonnegative
        rcases Int.eq_ofNat_of_zero_le ge with ⟨n, rfl⟩
        exact inRange _ n (by omega) step mem

theorem length_decimalText_le {type : IntType} {value : ℤ} (fits : type.Fits value) :
    (decimalText type value).length ≤ 21 := by
  have count {number : ℤ} (bound : number.natAbs < 2 ^ 64) :
      (digits 10 decimalDigit number).length ≤ 20 := by
    have length := @length_digits 10 (by omega) decimalDigit number
    have le := (@Numeral.length_digits_le_iff 10 (by omega) 20 (by omega) number.natAbs).mpr
      (bound.trans (by norm_num))
    exact length.le.trans le
  have bound := IntType.natAbs_lt fits
  simp only [decimalText]
  split
  · next negative =>
      rw [if_pos negative] at bound
      exact Nat.succ_le_succ (count bound)
  · next nonnegative =>
      rw [if_neg nonnegative] at bound
      exact (count bound).trans (by omega)

theorem decimalText_ne_nil (type : IntType) (value : ℤ) : decimalText type value ≠ [] := by
  simp only [decimalText]
  split
  · simp
  · exact @digits_ne_nil 10 (by omega) _ _

/-- What `formatDecimal` prints with enough room is its text and nothing else. -/
theorem formatDecimal_prints {type : IntType} {value : ℤ} (fits : type.Fits value) (base : ℤ)
    {n : ℕ}
    (isSize : n < 2 ^ 64) (sink : Sink) (room : (decimalText type value).length < n) :
    Prints base (decimalText type value) sink (formatDecimal base n type value sink) := by
  rw [formatDecimal_eq_putText]
  have short := length_decimalText_le fits
  exact putText_prints isSize (decimalText_ne_nil type value) sink room (by omega)

theorem Prints.text_unique {base : ℤ} {text other : List UInt8} {before : Sink} {result : Sink × ℤ}
    (prints : Prints base text before result) (printsOther : Prints base other before result) :
    text = other := by
  have length : text.length = other.length := by
    have returned := prints.returned
    rw [printsOther.returned] at returned
    exact_mod_cast returned.symm
  apply List.ext_getElem length
  intro k bound bound'
  rw [← prints.cells k bound, ← printsOther.cells k bound']

/--
`formatDecimal` prints the canonical decimal of a value of a signed type, and none
of its computations overflows, exactly if the value is not the lowest one.
-/
theorem formatDecimal_canonical_iff (type : IntType) (signed : type.isSigned = true) (value : ℤ)
    (fits : type.Fits value) :
    (∃ text, CanonicalDecimal text value ∧
        ∀ (base : ℤ) (n : ℕ) (sink : Sink), n < 2 ^ 64 → text.length < n →
          Prints base text sink (formatDecimal base n type value sink)) ∧
      (∀ step ∈ decimalSteps type value, type.Fits step) ↔
    value ≠ type.lowest := by
  rw [decimalSteps_fit_iff signed fits, and_iff_right_iff_imp]
  intro notLowest
  refine ⟨decimalText type value, canonical_decimalText signed fits notLowest, ?_⟩
  intro base n sink isSize room
  exact formatDecimal_prints fits base isSize sink room

/-- A negative number is printed with its sign. -/
theorem formatDecimal_canonical_neg42 :
    (∃ text, CanonicalDecimal text (-42) ∧
        ∀ (base : ℤ) (n : ℕ) (sink : Sink), n < 2 ^ 64 → text.length < n →
          Prints base text sink (formatDecimal base n .int (-42) sink)) ∧
      (∀ step ∈ decimalSteps .int (-42), IntType.int.Fits step) :=
  (formatDecimal_canonical_iff .int rfl (-42) (by decide)).mpr (by decide)

/-- Neither is the lowest `int` printed right, nor does its negation fit. -/
theorem formatDecimal_lowest_int :
    (¬∃ text, CanonicalDecimal text (-2 ^ 31) ∧
        ∀ (base : ℤ) (n : ℕ) (sink : Sink), n < 2 ^ 64 → text.length < n →
          Prints base text sink (formatDecimal base n .int (-2 ^ 31) sink)) ∧
      ¬∀ step ∈ decimalSteps .int (-2 ^ 31), IntType.int.Fits step := by
  have fits : IntType.int.Fits (-2 ^ 31) := by decide
  constructor
  · rintro ⟨text, canonical, prints⟩
    have short : text.length < 22 := by
      rw [canonical.eq_digits]
      decide
    have printed := prints 0 22 ⟨.fresh fun _ => 0, 0⟩ (by norm_num) short
    have own := formatDecimal_prints fits 0 (n := 22) (by norm_num) ⟨.fresh fun _ => 0, 0⟩
      (Nat.lt_succ_of_le (length_decimalText_le fits))
    rw [printed.text_unique own] at canonical
    exact @not_canonical_lowest .int rfl canonical
  · rw [decimalSteps_fit_iff rfl fits]
    exact fun notLowest => notLowest rfl

end Dvnetos.Stdio
