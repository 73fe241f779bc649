import Dvnetos.Lib.Reversal
import Dvnetos.Utils.StdioNumerals

/-!
# Numbers as text

This file models `intToString` of `utils/inttostring.cpp`, which stores the digits from the
last one on and reverses the text in place. The memory is addressed from `str`. What comes out
is a numeral exactly for the values that are not negative: the sign in front of a decimal is
reversed with its digits, and in other bases the first digit of a negative number is looked up
in front of the table.
-/

namespace Dvnetos.IntToString

open Stdio Word

/-- What ends a call before it returns. -/
inductive Stop where
  /-- A read of the string literal at a place it does not have. -/
  | outsideLiteral (index : ℤ)
  /-- The loop has more iterations than the model was given fuel for. -/
  | outOfFuel

/-- `"0123456789abcdef"[index]`. The literal ends with a NUL. -/
def digitAt (index : ℤ) : Except Stop UInt8 :=
  if 0 ≤ index ∧ index ≤ 16 then .ok ((lowerHexAlphabet ++ [0]).getD index.toNat 0)
  else .error (.outsideLiteral index)

/-- The `do` loop, with the memory and the `ptr` it ends with. Division truncates. -/
def digitLoop (base : ℤ) :
    ℕ → ℤ → ℕ → TracedStore ℕ UInt8 → Except Stop (TracedStore ℕ UInt8 × ℕ)
  | 0, _, _, _ => .error .outOfFuel
  | fuel + 1, tmpValue, ptr, str =>
      let value := tmpValue.tdiv base
      match digitAt (tmpValue - value * base) with
      | .error stop => .error stop
      | .ok c =>
          let str := str.store ptr c
          if value = 0 then .ok (str, ptr + 1) else digitLoop base fuel value (ptr + 1) str

/-- The branch for a sign. The negation wraps around for the lowest value. -/
def putSign (value base : ℤ) (str : TracedStore ℕ UInt8) : ℤ × ℕ × TracedStore ℕ UInt8 :=
  if value < 0 ∧ base = 10 then (int32 (-value), 1, str.store 0 (chr '-')) else (value, 0, str)

/-- `intToString(value, str, base)`, with `ptr1` at `str` for the reversal. -/
def intToString (value base : ℤ) (str : TracedStore ℕ UInt8) :
    Except Stop (TracedStore ℕ UInt8) :=
  let (value, ptr, str) := putSign value base str
  match digitLoop base (value.natAbs + 1) value ptr str with
  | .error stop => .error stop
  | .ok (str, ptr) => .ok ((str.store ptr 0).reverseBetween 0 (ptr - 1))

theorem digitAt_natCast {digit : ℕ} (isDigit : digit < 16) :
    digitAt digit = .ok (hexDigit (chr 'a') digit) := by
  have spelled := spells_lowerHex.spelled digit isDigit
  have inside : digit < lowerHexAlphabet.length := isDigit
  rw [digitAt, if_pos (by omega), Int.toNat_natCast, List.getD_eq_getElem?_getD,
    List.getElem?_append_left inside, spelled, Option.getD_some]

/-- The loop on a value that is not negative is the loop of the handlers in `stdio.cpp`. -/
theorem digitLoop_natCast {base : ℕ} (base_gt : 1 < base) (base_le : base ≤ 16) {fuel n : ℕ}
    (enough : n < fuel) (ptr : ℕ) (str : TracedStore ℕ UInt8) :
    digitLoop base fuel n ptr str =
      .ok (tempLoop base (hexDigit (chr 'a')) fuel n ptr str) := by
  induction fuel generalizing n ptr str with
  | zero => omega
  | succ fuel ih =>
      have quotient : (n : ℤ).tdiv base = (n / base : ℕ) := rfl
      have remainder : (n : ℤ) - (n / base : ℕ) * base = (n % base : ℕ) := by
        rw [Int.natCast_mod, Int.emod_def, Int.natCast_div, Int.mul_comm]
      have tmod : (n : ℤ).tmod base = (n % base : ℕ) := rfl
      have isDigit : n % base < 16 := (Nat.mod_lt _ (by omega)).trans_le base_le
      simp only [digitLoop, tempLoop, quotient, remainder, tmod, digitAt_natCast isDigit]
      split_ifs with last
      · rfl
      · refine ih ?_ _ _
        have positive : 0 < n := by
          by_contra zero
          obtain rfl : n = 0 := by omega
          simp at last
        have smaller := Nat.div_lt_self positive base_gt
        omega

/-- A negative value has a digit that is looked up in front of the table. -/
theorem digitLoop_of_neg {base : ℕ} (base_gt : 1 < base) (fuel : ℕ) {value : ℤ}
    (negative : value < 0) (ptr : ℕ) (str : TracedStore ℕ UInt8)
    (result : TracedStore ℕ UInt8 × ℕ) : digitLoop base fuel value ptr str ≠ .ok result := by
  induction fuel generalizing value ptr str with
  | zero => exact fun same => nomatch same
  | succ fuel ih =>
      have remainder : value - value.tdiv base * base = value.tmod base := by
        rw [Int.tmod_def, Int.mul_comm]
      simp only [digitLoop, remainder]
      by_cases zero : value.tmod base = 0
      · have quotient : value.tdiv base < 0 := by
          have whole := Int.tdiv_mul_cancel_of_tmod_eq_zero zero
          have positive : (0 : ℤ) < base := by omega
          by_contra notNegative
          have product := Int.mul_nonneg (Int.not_lt.mp notNegative) positive.le
          omega
        split
        · exact fun same => nomatch same
        · rw [if_neg quotient.ne]
          exact ih quotient _ _
      · have opposite := Int.tmod_nonneg base (Int.neg_nonneg_of_nonpos negative.le)
        rw [Int.neg_tmod] at opposite
        have outside : digitAt (value.tmod base) = .error (.outsideLiteral (value.tmod base)) := by
          rw [digitAt, if_neg (by omega)]
        rw [outside]
        exact fun same => nomatch same

/-- A NUL-terminated text is in memory at `str`. -/
structure HoldsText (str : TracedStore ℕ UInt8) (text : List UInt8) : Prop where
  chars : ∀ i (inside : i < text.length), str.cells i = text[i]
  noNul : (0 : UInt8) ∉ text
  terminator : str.cells text.length = 0

/-- The number that an optional minus sign and digits stand for. -/
def parseSigned (alphabet text : List UInt8) : ℤ :=
  if text.head? = some (chr '-') then -parseNumeral alphabet text.tail
  else parseNumeral alphabet text

/-- The numeral of the magnitude, with a minus sign exactly in front of a negative value. -/
structure IsSignedNumeral (alphabet text : List UInt8) (value : ℤ) : Prop where
  numeral : ∃ digits, IsNumeral alphabet digits value.natAbs ∧
    text = if value < 0 then chr '-' :: digits else digits
  parses : parseSigned alphabet text = value

/-- What the last loop makes of the digits: they are read from the last one stored on. -/
theorem holdsText_reverse {str : TracedStore ℕ UInt8} {count : ℕ}
    (noNul : (0 : UInt8) ∉ readDown str count) :
    HoldsText ((str.store count 0).reverseBetween 0 (count - 1)) (readDown str count) := by
  have length : (readDown str count).length = count := by simp [readDown]
  refine ⟨?_, noNul, ?_⟩
  · intro i inside
    rw [length] at inside
    rw [TracedStore.cells_reverseBetween_of_lt _ inside,
      TracedStore.cells_store_of_ne _ _ (by omega)]
    simp [readDown]
  · rw [length, TracedStore.cells_reverseBetween]
    split_ifs with below
    · obtain rfl : count = 0 := by omega
      exact TracedStore.cells_store_same _ _ _
    · exact TracedStore.cells_store_same _ _ _

theorem spells_base (base : ℕ) :
    Spells (lowerHexAlphabet.take base) fun d => hexDigit (chr 'a') d := by
  constructor
  · exact spells_lowerHex.nodup.sublist (List.take_sublist _ _)
  · intro d isDigit
    rw [List.length_take] at isDigit
    rw [List.getElem?_take_of_lt (by omega)]
    exact spells_lowerHex.spelled d (by omega)

theorem length_base {base : ℕ} (base_le : base ≤ 16) : (lowerHexAlphabet.take base).length = base :=
  List.length_take_of_le base_le

/-- A numeral has no sign. -/
theorem IsNumeral.head_ne_sign {base : ℕ} {text : List UInt8} {value : ℕ}
    (numeral : IsNumeral (lowerHexAlphabet.take base) text value) :
    text.head? ≠ some (chr '-') := by
  intro sign
  have mem := List.mem_of_mem_take (numeral.isDigit _ (List.mem_of_head? sign))
  exact absurd mem (by decide)

theorem HoldsText.length_le {str : TracedStore ℕ UInt8} {text other : List UInt8}
    (holds : HoldsText str text) (holdsOther : HoldsText str other) :
    text.length ≤ other.length := by
  by_contra shorter
  have inside := Nat.lt_of_not_le shorter
  have nul := (holds.chars _ inside).symm.trans holdsOther.terminator
  exact holds.noNul (nul ▸ List.getElem_mem inside)

/-- Only one text is in memory. -/
theorem HoldsText.unique {str : TracedStore ℕ UInt8} {text other : List UInt8}
    (holds : HoldsText str text) (holdsOther : HoldsText str other) : text = other := by
  apply List.ext_getElem
  · exact Nat.le_antisymm (holds.length_le holdsOther) (holdsOther.length_le holds)
  · intro i inside inside'
    rw [← holds.chars i inside, ← holdsOther.chars i inside']

/-- A call behind the branch for a sign, on a value that is not negative. -/
theorem intToString_of_putSign {value : ℤ} {base : ℕ} (base_gt : 1 < base) (base_le : base ≤ 16)
    {n ptr : ℕ} {contents str : TracedStore ℕ UInt8}
    (sign : putSign value base contents = ((n : ℤ), ptr, str))
    (noNul : (0 : UInt8) ∉ readDown str ptr) :
    ∃ after, intToString value base contents = .ok after ∧
      HoldsText after
        ((Numeral.digits base n).map (fun (d : ℕ) => hexDigit (chr 'a') d) ++
          readDown str ptr) := by
  have loop := digitLoop_natCast base_gt base_le (Nat.lt_succ_self n) ptr str
  have read := readDown_tempLoop base (hexDigit (chr 'a')) (n + 1) n ptr str
  have numeral := digitLoop_eq_map base_gt (hexDigit (chr 'a')) (.inl rfl) (Nat.lt_succ_self n)
    (readDown str ptr)
  simp only [Int.one_mul] at numeral
  rw [← numeral, ← read]
  refine ⟨_, ?_, holdsText_reverse ?_⟩
  · simp only [intToString, sign, Int.natAbs_natCast, loop]
  · rw [read, numeral, List.mem_append, not_or]
    refine ⟨?_, noNul⟩
    intro nul
    rcases List.mem_map.mp nul with ⟨d, mem, isNul⟩
    have isDigit := Numeral.lt_of_mem_digits base_gt mem
    have inAlphabet := spells_lowerHex.mem (show d < lowerHexAlphabet.length from
      isDigit.trans_le base_le)
    rw [isNul] at inAlphabet
    exact absurd inAlphabet (by decide)

/-- A value that is not negative is written as its numeral. -/
theorem intToString_natCast {base : ℕ} (base_gt : 1 < base) (base_le : base ≤ 16) (n : ℕ)
    (contents : TracedStore ℕ UInt8) :
    ∃ str text, intToString n base contents = .ok str ∧ HoldsText str text ∧
      IsSignedNumeral (lowerHexAlphabet.take base) text n := by
  have unsigned : putSign n base contents = ((n : ℤ), 0, contents) :=
    if_neg fun negative => absurd negative.1 (by omega)
  rcases intToString_of_putSign base_gt base_le unsigned List.not_mem_nil with ⟨str, done, holds⟩
  have numeral := (spells_base base).isNumeral (by rwa [length_base base_le]) rfl n
  rw [length_base base_le] at numeral
  rw [show readDown contents 0 = [] from rfl, List.append_nil] at holds
  refine ⟨str, _, done, holds, ⟨_, numeral, (if_neg (by omega)).symm⟩, ?_⟩
  rw [parseSigned, if_neg (IsNumeral.head_ne_sign numeral), numeral.parses]

/-- In base 10 the sign of a negative value ends up behind its digits. -/
theorem intToString_neg {n : ℕ} (positive : 0 < n) (fits : n < 2 ^ 31)
    (contents : TracedStore ℕ UInt8) :
    ∃ str, intToString (-n) 10 contents = .ok str ∧
      HoldsText str
        ((Numeral.digits 10 n).map (fun (d : ℕ) => hexDigit (chr 'a') d) ++ [chr '-']) := by
  have sign : putSign (-n) (10 : ℕ) contents = ((n : ℤ), 1, contents.store 0 (chr '-')) := by
    rw [putSign, if_pos ⟨by omega, rfl⟩, Int.neg_neg, int32_of_fits (by omega) (by omega)]
  have stored : readDown (contents.store 0 (chr '-')) 1 = [chr '-'] := by
    rw [readDown_store]
    rfl
  have noNul : (0 : UInt8) ∉ readDown (contents.store 0 (chr '-')) 1 := by
    rw [stored]
    decide
  have call := @intToString_of_putSign (-n) 10 (by decide) (by decide) _ _ _ _ sign noNul
  rwa [stored] at call

/-- What is written for a negative value does not start with a sign. -/
theorem not_holdsText_sign {value : ℤ} (negative : value < 0) (isInt : -2 ^ 31 ≤ value) {base : ℕ}
    (base_gt : 1 < base) {contents str : TracedStore ℕ UInt8}
    (done : intToString value base contents = .ok str) (rest : List UInt8) :
    ¬HoldsText str (chr '-' :: rest) := by
  by_cases written : base = 10 ∧ value ≠ -2 ^ 31
  · rcases written with ⟨rfl, notLowest⟩
    intro holds
    obtain ⟨n, rfl⟩ : ∃ n : ℕ, value = -n := ⟨value.natAbs, by omega⟩
    rcases intToString_neg (show 0 < n by omega) (by omega) contents with ⟨_, same, digits⟩
    obtain rfl := Except.ok.inj (same.symm.trans done)
    have text := digits.unique holds
    have nonempty := Numeral.digits_ne_nil 10 n
    rcases List.exists_cons_of_ne_nil nonempty with ⟨d, tail, numeral⟩
    have isDigit := @Numeral.lt_of_mem_digits 10 (by decide) n d (numeral ▸ List.mem_cons_self)
    rw [numeral, List.map_cons, List.cons_append] at text
    have inAlphabet := spells_lowerHex.mem (show d < lowerHexAlphabet.length from
      isDigit.trans (by decide))
    rw [(List.cons.inj text).1] at inAlphabet
    exact absurd inAlphabet (by decide)
  · have stays : (putSign value base contents).1 < 0 := by
      rw [putSign]
      split_ifs with decimal
      · obtain rfl : value = -2 ^ 31 := by
          by_contra notLowest
          exact written ⟨by exact_mod_cast decimal.2, notLowest⟩
        exact show int32 (- -2 ^ 31) < 0 by decide
      · exact negative
    have stopped := digitLoop_of_neg base_gt ((putSign value base contents).1.natAbs + 1) stays
      (putSign value base contents).2.1 (putSign value base contents).2.2
    simp only [intToString] at done
    split at done
    · cases done
    · next result => exact absurd result (stopped _)

/-- `intToString` is positional notation exactly for the values that are not negative. -/
theorem intToString_positional_iff (value : BitVec 32) {base : ℕ} (base_ge : 2 ≤ base)
    (base_le : base ≤ 16) (contents : TracedStore ℕ UInt8) :
    (∃ str text, intToString value.toInt base contents = .ok str ∧ HoldsText str text ∧
        IsSignedNumeral (lowerHexAlphabet.take base) text value.toInt) ↔
      0 ≤ value.toInt := by
  constructor
  · rintro ⟨str, text, done, holds, ⟨digits, -, rfl⟩, -⟩
    by_contra negative
    rw [if_pos (Int.not_le.mp negative)] at holds
    exact not_holdsText_sign (Int.not_le.mp negative) value.le_toInt base_ge done digits holds
  · intro notNegative
    obtain ⟨n, isNat⟩ := Int.eq_ofNat_of_zero_le notNegative
    rw [isNat]
    exact intToString_natCast base_ge base_le n contents

/-- The hexadecimal text of 255. -/
theorem intToString_positional_iff_ff :
    ∃ str text, intToString (255#32).toInt (16 : ℕ) (.fresh fun _ => 0) = .ok str ∧
      HoldsText str text ∧ IsSignedNumeral (lowerHexAlphabet.take 16) text (255#32).toInt :=
  (intToString_positional_iff 255#32 (by decide) (by decide) (.fresh fun _ => 0)).mpr (by decide)

/-- The text of -12 is `12-`. -/
theorem intToString_sign_last :
    (∃ str, intToString (-12) 10 (.fresh fun _ => 0) = .ok str ∧
        HoldsText str (['1', '2', '-'].map chr)) ∧
      ¬∃ str text, intToString (-12) 10 (.fresh fun _ => 0) = .ok str ∧ HoldsText str text ∧
        IsSignedNumeral (lowerHexAlphabet.take 10) text (-12) := by
  constructor
  · rcases @intToString_neg 12 (by decide) (by decide) (.fresh fun _ => 0) with ⟨str, done, holds⟩
    refine ⟨str, done, ?_⟩
    have digits : Numeral.digits 10 12 = [1, 2] := by simp [Numeral.digits]
    rw [digits] at holds
    exact holds
  · rintro ⟨str, text, done, holds, ⟨digits, -, rfl⟩, -⟩
    rw [if_pos (by decide)] at holds
    exact not_holdsText_sign (by decide) (by decide) (by decide) done digits holds

end Dvnetos.IntToString
