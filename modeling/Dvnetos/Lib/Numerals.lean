import Mathlib.Data.Nat.Digits.Lemmas

/-!
# Numerals

The digits of a natural number with the most significant digit first, as they
are written down. Zero has one digit. Mathlib's `Nat.digits` has the least
significant digit first and no digit for zero.
-/

namespace Numeral

/-- The digits of a number in a base, the most significant first. -/
def digits (base n : ℕ) : List ℕ :=
  if n = 0 then [0] else (Nat.digits base n).reverse

/-- The number that a list of digits stands for. -/
def value (base : ℕ) (numeral : List ℕ) : ℕ :=
  Nat.ofDigits base numeral.reverse

@[simp]
theorem digits_zero (base : ℕ) : digits base 0 = [0] := rfl

@[simp]
theorem value_nil (base : ℕ) : value base [] = 0 := rfl

@[simp]
theorem value_append_singleton (base : ℕ) (numeral : List ℕ) (digit : ℕ) :
    value base (numeral ++ [digit]) = value base numeral * base + digit := by
  simp [value, Nat.ofDigits_cons]
  ring

theorem value_cons (base digit : ℕ) (numeral : List ℕ) :
    value base (digit :: numeral) = digit * base ^ numeral.length + value base numeral := by
  simp [value, Nat.ofDigits_append, Nat.ofDigits_cons]
  ring

/-- The digits of a number at the lowest places, also those in front of its first one. -/
theorem value_places (base n places : ℕ) :
    value base ((List.range places).reverse.map fun place => n / base ^ place % base) =
      n % base ^ places := by
  induction places with
  | zero => simp [Nat.mod_one]
  | succ places ih =>
      rw [List.range_succ, List.reverse_append, List.reverse_singleton, List.singleton_append,
        List.map_cons, value_cons, ih, List.length_map, List.length_reverse, List.length_range,
        Nat.mod_pow_succ]
      ring

theorem value_digits (base n : ℕ) : value base (digits base n) = n := by
  simp only [digits]
  split
  · next zero => simp [value, zero]
  · simp [value, Nat.ofDigits_digits]

/-- Different numbers have different digits. -/
theorem digits_injective (base : ℕ) : Function.Injective (digits base) :=
  Function.LeftInverse.injective (value_digits base)

theorem digits_ne_nil (base n : ℕ) : digits base n ≠ [] := by
  simp only [digits]
  split
  · simp
  · next positive => simpa [Nat.digits_eq_nil_iff_eq_zero] using positive

theorem lt_of_mem_digits {base : ℕ} (base_gt : 1 < base) {n digit : ℕ}
    (mem : digit ∈ digits base n) : digit < base := by
  unfold digits at mem
  split at mem
  · obtain rfl : digit = 0 := by simpa using mem
    omega
  · exact Nat.digits_lt_base base_gt (List.mem_reverse.mp mem)

/-- A number is less than its base to the power of the number of its digits. -/
theorem length_digits_le_iff {base : ℕ} (base_gt : 1 < base) {length : ℕ} (positive : 0 < length)
    (n : ℕ) : (digits base n).length ≤ length ↔ n < base ^ length := by
  simp only [digits]
  split
  · next zero =>
      have power : 0 < base ^ length := by positivity
      simp [zero, power]
      omega
  · simp [Nat.digits_length_le_iff base_gt]

/-- Only zero is written with a leading zero. -/
theorem head_digits_eq_zero {base n : ℕ} (leading : (digits base n).head? = some 0) :
    digits base n = [0] := by
  by_cases zero : n = 0
  · simp [zero]
  · have last := Nat.getLast_digit_ne_zero base zero
    simp only [digits, zero, if_false, List.head?_reverse] at leading
    rw [List.getLast?_eq_getLast_of_ne_nil (Nat.digits_ne_nil_iff_ne_zero.mpr zero)] at leading
    exact absurd (Option.some.inj leading) last

/-- A list of digits without a leading zero is the numeral of what it stands for. -/
theorem digits_value {base : ℕ} (base_gt : 1 < base) {numeral : List ℕ} (nonempty : numeral ≠ [])
    (isDigit : ∀ digit ∈ numeral, digit < base)
    (noLeadingZero : numeral.head? = some 0 → numeral = [0]) :
    digits base (value base numeral) = numeral := by
  by_cases leading : numeral.head? = some 0
  · simp [noLeadingZero leading, value]
  · have last : ∀ h : numeral.reverse ≠ [], numeral.reverse.getLast h ≠ 0 := by
      intro h zero
      rw [List.getLast_reverse] at zero
      rw [List.head?_eq_some_head nonempty, zero] at leading
      exact leading rfl
    have low := Nat.digits_ofDigits base base_gt numeral.reverse
      (fun digit mem => isDigit digit (List.mem_reverse.mp mem)) last
    have positive : value base numeral ≠ 0 := by
      intro zero
      rw [value] at zero
      rw [zero, Nat.digits_zero] at low
      exact nonempty (List.reverse_eq_nil_iff.mp low.symm)
    rw [digits, if_neg positive, value, low, List.reverse_reverse]

/-- The last digit is the remainder, and the digits before it are those of the quotient. -/
theorem digits_eq_append {base : ℕ} (base_gt : 1 < base) (n : ℕ) :
    digits base n = (if n / base = 0 then [] else digits base (n / base)) ++ [n % base] := by
  by_cases zero : n = 0
  · simp [zero]
  · have step := Nat.digits_def' base_gt (Nat.pos_of_ne_zero zero)
    simp only [digits, zero, if_false, step, List.reverse_cons]
    split
    · next last => simp [last]
    · rfl

end Numeral
