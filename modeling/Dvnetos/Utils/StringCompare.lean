import Dvnetos.Lib.CommonPrefix
import Dvnetos.Utils.Stdio
import Mathlib.Data.List.GetD

/-!
# Comparing strings

This file models `strcmp` and `strncmp` of `utils/cstring.cpp`. Both loops stop at the end of
the common prefix, that of `strncmp` no later than at the bound. But `strncmp` then subtracts
the characters at the bound, which it should not have looked at. Whether `char` is signed is
up to the target.
-/

namespace Dvnetos.Cstring

open Stdio (CString chr)

/-- `str[i]`, up to the terminating NUL. -/
def charAt (str : CString) (i : ℕ) : UInt8 := str.chars.getD i 0

/-- A `char` promoted to `int`. -/
def promote (charSigned : Bool) (c : UInt8) : ℤ := if charSigned then c.toInt8.toInt else c.toNat

/-- The index at which `while (str1[i] && str2[i] && str1[i] == str2[i]) i++` ends. -/
def strcmpLoop (str1 str2 : CString) (i : ℕ) : ℕ :=
  if _goesOn : charAt str1 i ≠ 0 ∧ charAt str2 i ≠ 0 ∧ charAt str1 i = charAt str2 i then
    strcmpLoop str1 str2 (i + 1)
  else i
termination_by str1.chars.length - i
decreasing_by
  have inside : i < str1.chars.length := by
    by_contra outside
    exact _goesOn.1 (List.getD_eq_default _ _ (Nat.le_of_not_lt outside))
  omega

/-- `strcmp(str1, str2)`. -/
def strcmp (charSigned : Bool) (str1 str2 : CString) : ℤ :=
  let i := strcmpLoop str1 str2 0
  promote charSigned (charAt str1 i) - promote charSigned (charAt str2 i)

/-- The same loop with the test `i < n` behind the others. -/
def strncmpLoop (str1 str2 : CString) (n i : ℕ) : ℕ :=
  if _goesOn : charAt str1 i ≠ 0 ∧ charAt str2 i ≠ 0 ∧ charAt str1 i = charAt str2 i ∧ i < n then
    strncmpLoop str1 str2 n (i + 1)
  else i
termination_by n - i

/-- `strncmp(str1, str2, n)`. -/
def strncmp (charSigned : Bool) (str1 str2 : CString) (n : ℕ) : ℤ :=
  let i := strncmpLoop str1 str2 n 0
  promote charSigned (charAt str1 i) - promote charSigned (charAt str2 i)

theorem promote_injective (charSigned : Bool) : Function.Injective (promote charSigned) := by
  intro c d same
  cases charSigned with
  | false => exact UInt8.toNat_inj.mp (Int.ofNat.inj same)
  | true => exact congrArg Int8.toUInt8 (Int8.toInt_inj.mp same)

theorem charAt_ne_zero_iff {str : CString} {i : ℕ} : charAt str i ≠ 0 ↔ i < str.chars.length := by
  constructor
  · intro nonzero
    by_contra outside
    exact nonzero (List.getD_eq_default _ _ (Nat.le_of_not_lt outside))
  · intro inside zero
    rw [charAt, List.getD_eq_getElem _ _ inside] at zero
    exact str.noNul (zero ▸ List.getElem_mem inside)

/-- The tests of the loops hold inside the common prefix, and not at its end. -/
theorem equal_chars_iff {str1 str2 : CString} {i : ℕ}
    (reached : i ≤ commonPrefix str1.chars str2.chars) :
    (charAt str1 i ≠ 0 ∧ charAt str2 i ≠ 0 ∧ charAt str1 i = charAt str2 i) ↔
      i < commonPrefix str1.chars str2.chars := by
  constructor
  · rintro ⟨first, second, same⟩
    rw [charAt_ne_zero_iff] at first second
    rw [charAt, charAt, List.getD_eq_getElem _ _ first, List.getD_eq_getElem _ _ second] at same
    refine lt_of_le_of_ne reached ?_
    rintro rfl
    exact CommonPrefix.stops (List.getElem?_eq_getElem first) (List.getElem?_eq_getElem second) same
  · intro inside
    have same : charAt str1 i = charAt str2 i := by
      rw [charAt, charAt, List.getD_eq_getElem?_getD, List.getD_eq_getElem?_getD,
        CommonPrefix.getElem?_eq inside]
    have first : charAt str1 i ≠ 0 := charAt_ne_zero_iff.mpr (CommonPrefix.le_iff.mp inside).2
    exact ⟨first, same ▸ first, same⟩

theorem strcmpLoop_eq {str1 str2 : CString} {i : ℕ}
    (reached : i ≤ commonPrefix str1.chars str2.chars) :
    strcmpLoop str1 str2 i = commonPrefix str1.chars str2.chars := by
  rw [strcmpLoop]
  split_ifs with goesOn
  · have inside := (equal_chars_iff reached).mp goesOn
    exact strcmpLoop_eq inside
  · have notInside := fun inside => goesOn ((equal_chars_iff reached).mpr inside)
    exact Nat.le_antisymm reached (Nat.le_of_not_lt notInside)
termination_by commonPrefix str1.chars str2.chars - i

theorem strncmpLoop_eq {str1 str2 : CString} {n i : ℕ}
    (reached : i ≤ min n (commonPrefix str1.chars str2.chars)) :
    strncmpLoop str1 str2 n i = min n (commonPrefix str1.chars str2.chars) := by
  have tests := equal_chars_iff (reached.trans (Nat.min_le_right _ _))
  rw [strncmpLoop]
  split_ifs with goesOn
  · have inside := tests.mp ⟨goesOn.1, goesOn.2.1, goesOn.2.2.1⟩
    exact strncmpLoop_eq (Nat.le_min.mpr ⟨goesOn.2.2.2, inside⟩)
  · refine Nat.le_antisymm reached (Nat.le_of_not_lt fun below => goesOn ?_)
    have both := Nat.lt_min.mp below
    have chars := tests.mpr both.2
    exact ⟨chars.1, chars.2.1, chars.2.2, both.1⟩
termination_by n - i
decreasing_by omega

theorem strcmp_eq (charSigned : Bool) (str1 str2 : CString) :
    strcmp charSigned str1 str2 =
      promote charSigned (charAt str1 (commonPrefix str1.chars str2.chars)) -
        promote charSigned (charAt str2 (commonPrefix str1.chars str2.chars)) := by
  rw [strcmp, strcmpLoop_eq (Nat.zero_le _)]

theorem strncmp_eq (charSigned : Bool) (str1 str2 : CString) (n : ℕ) :
    strncmp charSigned str1 str2 n =
      promote charSigned (charAt str1 (min n (commonPrefix str1.chars str2.chars))) -
        promote charSigned (charAt str2 (min n (commonPrefix str1.chars str2.chars))) := by
  rw [strncmp, strncmpLoop_eq (Nat.zero_le _)]

/-- The first `n` characters of a string. -/
def truncate (str : CString) (n : ℕ) : CString :=
  ⟨str.chars.take n, fun nul => str.noNul (List.mem_of_mem_take nul)⟩

theorem charAt_truncate {str : CString} {n i : ℕ} (below : i < n) :
    charAt (truncate str n) i = charAt str i := by
  rw [charAt, charAt, List.getD_eq_getElem?_getD, List.getD_eq_getElem?_getD, truncate,
    List.getElem?_take_of_lt below]

theorem charAt_truncate_end (str : CString) (n : ℕ) : charAt (truncate str n) n = 0 :=
  List.getD_eq_default _ _ (List.length_take_le _ _)

/-- What `strcmp` compares of truncated strings. -/
theorem strcmp_truncate (charSigned : Bool) (str1 str2 : CString) (n : ℕ) :
    strcmp charSigned (truncate str1 n) (truncate str2 n) =
      if commonPrefix str1.chars str2.chars < n then strncmp charSigned str1 str2 n else 0 := by
  have stop : commonPrefix (truncate str1 n).chars (truncate str2 n).chars =
      min n (commonPrefix str1.chars str2.chars) := CommonPrefix.take _ _ _
  rw [strcmp_eq, strncmp_eq, stop]
  split_ifs with differ
  · rw [Nat.min_eq_right differ.le, charAt_truncate differ, charAt_truncate differ]
  · rw [Nat.min_eq_left (Nat.le_of_not_lt differ), charAt_truncate_end, charAt_truncate_end,
      Int.sub_self]

/-- The strings have the same first `n` characters, and at least as many. -/
theorem le_commonPrefix_iff {str1 str2 : CString} {n : ℕ} :
    n ≤ commonPrefix str1.chars str2.chars ↔
      truncate str1 n = truncate str2 n ∧ n ≤ str1.chars.length := by
  rw [CommonPrefix.le_iff, truncate, truncate, CString.mk.injEq]

/-- Without a difference before the bound, the result is that of the characters there. -/
theorem strncmp_of_le {charSigned : Bool} {str1 str2 : CString} {n : ℕ}
    (agree : n ≤ commonPrefix str1.chars str2.chars) :
    strncmp charSigned str1 str2 n =
      promote charSigned (charAt str1 n) - promote charSigned (charAt str2 n) := by
  rw [strncmp_eq, Nat.min_eq_left agree]

/-- Equal truncations that are shorter than the bound are the whole strings. -/
theorem charAt_eq_of_short {str1 str2 : CString} {n : ℕ}
    (same : truncate str1 n = truncate str2 n) (short : str1.chars.length < n) :
    charAt str1 n = charAt str2 n := by
  have length := congrArg (·.chars.length) same
  simp only [truncate, List.length_take] at length
  have first : charAt str1 n = 0 := List.getD_eq_default _ _ short.le
  have second : charAt str2 n = 0 := List.getD_eq_default _ _ (by omega)
  rw [first, second]

/-- The result has the sign of `strcmp` of the truncated strings. -/
theorem strncmp_sign_iff (charSigned : Bool) (str1 str2 : CString) (n : ℕ) :
    (strncmp charSigned str1 str2 n).sign =
        (strcmp charSigned (truncate str1 n) (truncate str2 n)).sign ↔
      (truncate str1 n = truncate str2 n → charAt str1 n = charAt str2 n) := by
  rw [strcmp_truncate]
  split_ifs with differ
  · refine iff_of_true rfl fun same => charAt_eq_of_short same ?_
    by_contra long
    exact absurd (le_commonPrefix_iff.mpr ⟨same, Nat.le_of_not_lt long⟩) (Nat.not_le.mpr differ)
  · have agree := Nat.le_of_not_lt differ
    have same := (le_commonPrefix_iff.mp agree).1
    rw [Int.sign_zero, Int.sign_eq_zero_iff_zero, strncmp_of_le agree, Int.sub_eq_zero,
      (promote_injective charSigned).eq_iff]
    exact ⟨fun equal _ => equal, fun equal => equal same⟩

/-- The first `n` characters of a string of at least as many, with another one behind them. -/
def withChar (str : CString) (n : ℕ) (c : UInt8) (isChar : c ≠ 0) : CString :=
  ⟨str.chars.take n ++ [c], by
    rw [List.mem_append, List.mem_singleton, not_or]
    exact ⟨fun nul => str.noNul (List.mem_of_mem_take nul), isChar.symm⟩⟩

section WithChar

variable {str : CString} {n : ℕ} (long : n ≤ str.chars.length) {c : UInt8} (isChar : c ≠ 0)

include long

theorem truncate_withChar : truncate (withChar str n c isChar) n = truncate str n := by
  have length : (str.chars.take n).length = n := List.length_take_of_le long
  simp only [truncate, withChar, CString.mk.injEq]
  rw [List.take_append_of_le_length length.ge, List.take_take, Nat.min_self]

theorem charAt_withChar : charAt (withChar str n c isChar) n = c := by
  have length : (str.chars.take n).length = n := List.length_take_of_le long
  rw [charAt, withChar, List.getD_eq_getElem?_getD, List.getElem?_append_right length.le, length,
    Nat.sub_self]
  rfl

end WithChar

/-- The characters at the bound and behind it have no influence on the result. -/
def Independent (charSigned : Bool) (str1 str2 : CString) (n : ℕ) : Prop :=
  ∀ other1 other2, truncate other1 n = truncate str1 n → truncate other2 n = truncate str2 n →
    strncmp charSigned other1 other2 n = strncmp charSigned str1 str2 n

theorem independent_of_differ {charSigned : Bool} {str1 str2 : CString} {n : ℕ}
    (differ : commonPrefix str1.chars str2.chars < n) : Independent charSigned str1 str2 n := by
  intro other1 other2 same1 same2
  have before := strcmp_truncate charSigned str1 str2 n
  have after := strcmp_truncate charSigned other1 other2 n
  have alsoDiffer : commonPrefix other1.chars other2.chars < n := by
    have stop : commonPrefix (truncate other1 n).chars (truncate other2 n).chars = _ :=
      CommonPrefix.take other1.chars other2.chars n
    rw [same1, same2, truncate, truncate, CommonPrefix.take] at stop
    omega
  rw [if_pos differ] at before
  rw [if_pos alsoDiffer, same1, same2] at after
  exact after.symm.trans before

/-- The result has no influence from behind the bound if a difference stops the loop before. -/
theorem independent_iff (charSigned : Bool) (str1 str2 : CString) (n : ℕ) :
    Independent charSigned str1 str2 n ↔
      (truncate str1 n = truncate str2 n → str1.chars.length < n) := by
  constructor
  · intro independent same
    by_contra short
    have long := Nat.le_of_not_lt short
    have agree := le_commonPrefix_iff.mpr ⟨same, long⟩
    have long2 : n ≤ str2.chars.length := by
      have length := congrArg (·.chars.length) same
      simp only [truncate, List.length_take] at length
      omega
    have one : (1 : UInt8) ≠ 0 := by decide
    have two : (2 : UInt8) ≠ 0 := by decide
    -- the same character behind both of them, and different ones
    have equal := independent _ _ (truncate_withChar long one) (truncate_withChar long2 one)
    have different := independent _ _ (truncate_withChar long one) (truncate_withChar long2 two)
    have agreeWith {c d : UInt8} (isChar1 : c ≠ 0) (isChar2 : d ≠ 0) :
        n ≤ commonPrefix (withChar str1 n c isChar1).chars (withChar str2 n d isChar2).chars := by
      have inside := charAt_ne_zero_iff.mp ((charAt_withChar long isChar1).trans_ne isChar1)
      rw [le_commonPrefix_iff, truncate_withChar long, truncate_withChar long2]
      exact ⟨same, inside.le⟩
    rw [← different, strncmp_of_le (agreeWith one one), strncmp_of_le (agreeWith one two),
      charAt_withChar long, charAt_withChar long2, charAt_withChar long2] at equal
    cases charSigned <;> exact absurd equal (by decide)
  · intro short
    apply independent_of_differ
    by_contra agree
    have long := le_commonPrefix_iff.mp (Nat.le_of_not_lt agree)
    exact absurd (short long.1) (Nat.not_lt.mpr long.2)

/--
When `strncmp` is `strcmp` on truncated strings: of strings with the same first `n` characters
also the next ones are the same, and the result depends on the truncations only if there are no
next ones.
-/
theorem strncmp_truncates_iff (charSigned : Bool) (str1 str2 : CString) (n : ℕ) :
    ((strncmp charSigned str1 str2 n).sign =
        (strcmp charSigned (truncate str1 n) (truncate str2 n)).sign ↔
      (truncate str1 n = truncate str2 n → charAt str1 n = charAt str2 n)) ∧
    (Independent charSigned str1 str2 n ↔
      (truncate str1 n = truncate str2 n → str1.chars.length < n)) :=
  ⟨strncmp_sign_iff charSigned str1 str2 n, independent_iff charSigned str1 str2 n⟩

/-- `strncmp("ab", "ac", 1)` is negative, although the first characters are the same. -/
theorem strncmp_passes_bound :
    let str1 : CString := ⟨['a', 'b'].map chr, by decide⟩
    let str2 : CString := ⟨['a', 'c'].map chr, by decide⟩
    truncate str1 1 = truncate str2 1 ∧
      (strncmp true str1 str2 1).sign = -1 ∧
      (strcmp true (truncate str1 1) (truncate str2 1)).sign = 0 := by
  intro str1 str2
  refine ⟨rfl, ?_, ?_⟩
  · rw [strncmp_eq]
    decide
  · rw [strcmp_eq]
    decide

end Dvnetos.Cstring
