import Mathlib.Data.List.Basic

/-!
# Common prefixes

The length of the longest list that two lists start with.
-/

universe u

variable {α : Type u} [DecidableEq α]

/-- How many elements the two lists have in common at their start. -/
def commonPrefix : List α → List α → ℕ
  | x :: first, y :: second => if x = y then commonPrefix first second + 1 else 0
  | _, _ => 0

namespace CommonPrefix

theorem le_iff {first second : List α} {n : ℕ} :
    n ≤ commonPrefix first second ↔ first.take n = second.take n ∧ n ≤ first.length := by
  induction first generalizing second n with
  | nil =>
      cases n with
      | zero => simp [commonPrefix]
      | succ n => simp [commonPrefix]
  | cons x first ih =>
      cases n with
      | zero => simp
      | succ n =>
          cases second with
          | nil => simp [commonPrefix]
          | cons y second =>
              rw [commonPrefix]
              split_ifs with same
              · simp [same, ih]
              · simp [same]

/-- The lists are equal up to the end of the prefix. -/
theorem getElem?_eq {first second : List α} {i : ℕ} (inside : i < commonPrefix first second) :
    first[i]? = second[i]? := by
  have agree := (le_iff.mp (Nat.succ_le_of_lt inside)).1
  have place := congrArg (·[i]?) agree
  rwa [List.getElem?_take_of_succ, List.getElem?_take_of_succ] at place

/-- At the end of the prefix a list ends or the lists differ. -/
theorem stops {first second : List α} {x y : α}
    (atFirst : first[commonPrefix first second]? = some x)
    (atSecond : second[commonPrefix first second]? = some y) : x ≠ y := by
  rintro rfl
  have inside := (List.getElem?_eq_some_iff.mp atFirst).1
  have agree := (le_iff.mp (Nat.le_refl (commonPrefix first second))).1
  have longer : commonPrefix first second + 1 ≤ commonPrefix first second := by
    rw [le_iff, List.take_add_one, List.take_add_one, agree, atFirst, atSecond]
    exact ⟨rfl, inside⟩
  exact Nat.not_succ_le_self _ longer

theorem take (first second : List α) (n : ℕ) :
    commonPrefix (first.take n) (second.take n) = min n (commonPrefix first second) := by
  induction first generalizing second n with
  | nil => simp [commonPrefix]
  | cons x first ih =>
      cases n with
      | zero => simp [commonPrefix]
      | succ n =>
          cases second with
          | nil => simp [commonPrefix]
          | cons y second =>
              simp only [List.take_succ_cons, commonPrefix]
              split_ifs
              · rw [ih, Nat.succ_min_succ]
              · rw [Nat.min_zero]

end CommonPrefix
