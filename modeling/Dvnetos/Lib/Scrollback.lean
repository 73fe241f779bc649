import Mathlib.Data.List.GetD
import Mathlib.Tactic.Common

/-!
# An unbounded terminal

A terminal appends characters to its last row. A row ends when it is full or at a
newline, and the terminal keeps all rows. A window of some lines shows the last ones.
-/

universe u

namespace Scrollback

variable {Char : Type u}

/-- The rows that have ended, and the row that the next character goes to. -/
structure Terminal (Char : Type u) where
  ended : List (List Char)
  current : List Char

namespace Terminal

/-- Nothing has been typed yet. -/
def empty : Terminal Char := { ended := [], current := [] }

/-- All rows, the current one last. -/
def rows (terminal : Terminal Char) : List (List Char) := terminal.ended ++ [terminal.current]

/-- The current row ends and a new one begins. -/
def endRow (terminal : Terminal Char) : Terminal Char :=
  { ended := terminal.rows, current := [] }

/-- One character more in the current row. -/
def type (terminal : Terminal Char) (char : Char) : Terminal Char :=
  { terminal with current := terminal.current ++ [char] }

variable [DecidableEq Char] (newline : Char) (width : ℕ)

/-- One character. A full row ends at once. -/
def put (terminal : Terminal Char) (char : Char) : Terminal Char :=
  if char = newline then terminal.endRow
  else if width ≤ (terminal.type char).current.length then (terminal.type char).endRow
  else terminal.type char

/-- A text, character by character. -/
def puts (terminal : Terminal Char) (text : List Char) : Terminal Char :=
  text.foldl (put newline width) terminal

end Terminal

variable (lines : ℕ) (blank : Char) (rows : List (List Char))

/-- The last rows, as many as there are lines. -/
def window : List (List Char) := rows.drop (rows.length - lines)

/-- The character that the window shows in a line and a column. -/
def shown (line column : ℕ) : Char := ((window lines rows).getD line []).getD column blank

variable {lines blank rows}

/-- The window in front of its last row does not depend on that row. -/
theorem window_append_singleton (positive : 0 < lines) (ended : List (List Char))
    (row : List Char) :
    window lines (ended ++ [row]) = ended.drop (ended.length + 1 - lines) ++ [row] := by
  rw [window, List.length_append, List.length_singleton, List.drop_append_of_le_length (by omega)]

/-- A window shows its last row in the last line that it uses. -/
theorem shown_append_singleton (positive : 0 < lines) (ended : List (List Char)) (row : List Char)
    (line column : ℕ) :
    shown lines blank (ended ++ [row]) line column =
      if line + 1 = min (ended.length + 1) lines then row.getD column blank
      else ((ended.drop (ended.length + 1 - lines)).getD line []).getD column blank := by
  have length : (ended.drop (ended.length + 1 - lines)).length + 1 =
      min (ended.length + 1) lines := by
    rw [List.length_drop]
    omega
  rw [shown, window_append_singleton positive, ← length]
  split_ifs with last
  · rw [Nat.succ_inj.mp last, List.getD_append_right _ _ _ _ (Nat.le_refl _)]
    simp
  · congr 1
    rcases Nat.lt_or_gt_of_ne (fun same => last (congrArg Nat.succ same)) with before | behind
    · rw [List.getD_append _ _ _ _ before]
    · rw [List.getD_eq_default _ _ (Nat.le_of_lt behind), List.getD_eq_default]
      rw [List.length_append, List.length_singleton]
      exact behind

/-- A row that has just started is not seen as long as there are lines left. -/
theorem shown_newRow_of_lt (room : rows.length < lines) (line column : ℕ) :
    shown lines blank (rows ++ [[]]) line column = shown lines blank rows line column := by
  have whole : window lines rows = rows := by
    rw [window, Nat.sub_eq_zero_of_le (Nat.le_of_lt room), List.drop_zero]
  have wider : window lines (rows ++ [[]]) = rows ++ [[]] := by
    rw [window, List.length_append, List.length_singleton, Nat.sub_eq_zero_of_le room,
      List.drop_zero]
  rw [shown, shown, whole, wider]
  congr 1
  rcases Nat.lt_or_ge line rows.length with inside | behind
  · rw [List.getD_append _ _ _ _ inside]
  · rw [List.getD_append_right _ _ _ _ behind, List.getD_eq_default _ _ behind]
    rcases line - rows.length with _ | later
    · rfl
    · rfl

/-- A new row scrolls a window without free lines. -/
theorem shown_newRow_of_le (positive : 0 < lines) (full : lines ≤ rows.length) {line : ℕ}
    (inside : line < lines) (column : ℕ) :
    shown lines blank (rows ++ [[]]) line column =
      if line + 1 < lines then shown lines blank rows (line + 1) column else blank := by
  rw [shown_append_singleton positive, Nat.min_eq_right (by omega)]
  split_ifs with last notLast
  · omega
  · simp
  · rw [shown, window]
    congr 1
    rw [List.getD_eq_getElem?_getD, List.getD_eq_getElem?_getD, List.getElem?_drop,
      List.getElem?_drop]
    congr 2
    omega
  · omega

end Scrollback
