import Dvnetos.Framebuffer.ConsoleBounds
import Mathlib.Data.List.Induction

/-!
# The cursor and a change of the grid

`init` may be called at any time and changes the grid, but it leaves the cursor where
it was. With 8x16 cells every grid fits into the buffer, so texts keep a cursor inside
the grid, and everything depends on the cursor that `init` meets.
-/

namespace Dvnetos.Console

open Word Cstring
open Stdio (CString chr)

/-- A call that changes a console. -/
inductive Call where
  | appendText (text : CString)
  | init (framebuffer : Framebuffer)

/-- A screen with 8x16 cells and at least one of them. -/
structure Framebuffer.Usual (framebuffer : Framebuffer) : Prop where
  fontWidth : framebuffer.font.width = 8
  fontHeight : framebuffer.font.height = 16
  width : 8 ≤ framebuffer.width
  height : 16 ≤ framebuffer.height

namespace VirtualConsole

/-- The state after a call. -/
def call (console : VirtualConsole) : Call → VirtualConsole
  | .appendText text => console.appendText text
  | .init framebuffer => console.init framebuffer

/-- The state after calls, one after another. -/
def calls (console : VirtualConsole) (list : List Call) : VirtualConsole := list.foldl call console

theorem calls_append_singleton (console : VirtualConsole) (front : List Call) (last : Call) :
    console.calls (front ++ [last]) = (console.calls front).call last :=
  List.foldl_concat _ _ _ _

/-- The cursor names a cell of the grid, and the character stored at it goes to that cell. -/
structure CursorInside (console : VirtualConsole) : Prop where
  column : console.cursorX < console.lineLength
  row : console.cursorY < console.lineCount
  index : console.cursorIndex = console.cursorY * console.lineLength + console.cursorX
  inBuffer : InBuffer console.cursorIndex

/-- The grid for the screen has a cell at the cursor. -/
def Reaches (framebuffer : Framebuffer) (console : VirtualConsole) : Prop :=
  console.cursorX < lineLengthOf framebuffer ∧ console.cursorY < lineCountOf framebuffer

variable {console : VirtualConsole} {framebuffer : Framebuffer}

/-- A grid of 8x16 cells is never larger than the buffer. -/
theorem usual_fits (usual : framebuffer.Usual) :
    lineLengthOf framebuffer * lineCountOf framebuffer ≤ bufferSize := by
  have width := clamp_le framebuffer.width maxResWidth
  have height := clamp_le framebuffer.height maxResHeight
  rw [lineLengthOf, lineCountOf, usual.fontWidth, usual.fontHeight]
  exact Nat.mul_le_mul (Nat.div_le_div_right width) (Nat.div_le_div_right height)

theorem OnGrid.cursorInside (onGrid : console.OnGrid) : console.CursorInside := by
  have rowEnd := row_end_le onGrid.fits onGrid.row
  have column := onGrid.column
  have size : bufferSize < 2 ^ 64 := by decide
  exact ⟨onGrid.column, onGrid.row, cursorIndex_eq (by omega),
    cursorIndex_inBuffer onGrid.fits onGrid.column onGrid.row⟩

theorem appendChars_onGrid (onGrid : console.OnGrid) (within : console.buffer.Within InBuffer)
    (chars : List UInt8) :
    (chars.foldl appendChar console).OnGrid ∧
      (chars.foldl appendChar console).buffer.Within InBuffer := by
  induction chars generalizing console with
  | nil => exact ⟨onGrid, within⟩
  | cons c chars ih =>
      rcases appendChar_onGrid onGrid within c with ⟨next, nextWithin⟩
      exact ih next nextWithin

theorem appendText_onGrid (onGrid : console.OnGrid) (within : console.buffer.Within InBuffer)
    (text : CString) :
    (console.appendText text).OnGrid ∧ (console.appendText text).buffer.Within InBuffer := by
  have start : OnGrid { console with serial := console.serial ++ text.chars } :=
    ⟨onGrid.fits, onGrid.column, onGrid.row⟩
  rcases appendChars_onGrid start within text.chars with ⟨⟨fits, column, row⟩, later⟩
  rw [appendText]
  refine ⟨⟨?_, ?_, ?_⟩, ?_⟩
  · rw [updateScreen_lineLength, updateScreen_lineCount]
    exact fits
  · rw [updateScreen_cursorX, updateScreen_lineLength]
    exact column
  · rw [updateScreen_cursorY, updateScreen_lineCount]
    exact row
  · rw [updateScreen_buffer]
    exact later

/-- `init` keeps the cursor inside if the new grid reaches it. -/
theorem init_onGrid (usual : framebuffer.Usual) (reaches : Reaches framebuffer console)
    (within : console.buffer.Within InBuffer) :
    (console.init framebuffer).OnGrid ∧ (console.init framebuffer).buffer.Within InBuffer := by
  refine ⟨⟨?_, ?_, ?_⟩, ?_⟩
  · rw [init_lineLength, init_lineCount]
    exact usual_fits usual
  · rw [init_cursorX, init_lineLength]
    exact reaches.1
  · rw [init_cursorY, init_lineCount]
    exact reaches.2
  · rw [init, updateScreen_buffer]
    apply memset_within _ _ within
    intro i inside
    have size : bufferSize < 2 ^ 64 := by decide
    rw [add64_of_lt (by omega), Nat.zero_add]
    exact inside

/-- Every `init` in the list finds the cursor in the grid that it makes. -/
def InitsReach (console : VirtualConsole) (list : List Call) : Prop :=
  ∀ before framebuffer after, list = before ++ .init framebuffer :: after →
    Reaches framebuffer (console.calls before)

theorem InitsReach.of_prefix {front list : List Call} (isPrefix : front <+: list)
    (reach : InitsReach console list) : InitsReach console front := by
  rcases isPrefix with ⟨rest, rfl⟩
  intro before framebuffer after split
  apply reach before framebuffer (after ++ rest)
  rw [split, List.append_assoc, List.cons_append]

theorem calls_onGrid (onGrid : console.OnGrid) (within : console.buffer.Within InBuffer)
    {list : List Call} (usual : ∀ framebuffer, .init framebuffer ∈ list → framebuffer.Usual)
    (reach : InitsReach console list) :
    (console.calls list).OnGrid ∧ (console.calls list).buffer.Within InBuffer := by
  induction list using List.reverseRecOn with
  | nil => exact ⟨onGrid, within⟩
  | append_singleton front last ih =>
      have usualFront := fun framebuffer isInit =>
        usual framebuffer (List.mem_append_left [last] isInit)
      rcases ih usualFront (reach.of_prefix (List.prefix_append front [last])) with ⟨before, stored⟩
      rw [calls_append_singleton]
      cases last with
      | appendText text => exact appendText_onGrid before stored text
      | init framebuffer =>
          apply init_onGrid _ (reach front framebuffer [] rfl) stored
          exact usual framebuffer (List.mem_append_right front (List.mem_singleton.mpr rfl))

theorem initial_onGrid (contents : ℕ → UInt8) : (initial contents).OnGrid := by
  refine ⟨?_, Nat.zero_lt_succ 79, Nat.zero_lt_succ 9⟩
  change 80 * 10 ≤ bufferSize
  decide

/--
From the first `init` on the cursor is always inside the grid if and only if every `init` finds
the cursor in the grid that it makes.
-/
theorem cursorInside_iff (contents : ℕ → UInt8) {list : List Call}
    (usual : ∀ framebuffer, .init framebuffer ∈ list → framebuffer.Usual) :
    (∀ front, front <+: list → (∃ framebuffer, .init framebuffer ∈ front) →
        CursorInside ((initial contents).calls front)) ↔
      InitsReach (initial contents) list := by
  constructor
  · intro inside before framebuffer after split
    have isPrefix : before ++ [.init framebuffer] <+: list := by
      refine ⟨after, ?_⟩
      rw [split, List.append_assoc, List.singleton_append]
    have last : Call.init framebuffer ∈ before ++ [.init framebuffer] :=
      List.mem_append_right before (List.mem_singleton.mpr rfl)
    have here := inside _ isPrefix ⟨framebuffer, last⟩
    rw [calls_append_singleton, call] at here
    rcases here with ⟨column, row, -, -⟩
    rw [init_cursorX, init_lineLength] at column
    rw [init_cursorY, init_lineCount] at row
    exact ⟨column, row⟩
  · intro reach front isPrefix _
    have usualFront := fun framebuffer isInit =>
      usual framebuffer (isPrefix.subset isInit)
    exact (calls_onGrid (initial_onGrid contents) (TracedStore.within_fresh _ _) usualFront
      (reach.of_prefix isPrefix)).1.cursorInside

/-- A screen with one line of 80 characters. -/
def oneLine : Framebuffer := { width := 640, height := 16, font := { width := 8, height := 16 } }

theorem oneLine_usual : oneLine.Usual := by
  constructor <;> decide

/-- A newline, and `init` with one line. -/
def newlineAndInit : List Call := [.appendText newline, .init oneLine]

/-- The first call is an `init` that reaches the cursor, or a text. -/
theorem initsReach_cons_iff {first : Call} {rest : List Call} :
    InitsReach console (first :: rest) ↔
      (∀ framebuffer, first = .init framebuffer → Reaches framebuffer console) ∧
        InitsReach (console.call first) rest := by
  constructor
  · intro reach
    constructor
    · rintro framebuffer rfl
      exact reach [] framebuffer rest rfl
    · intro before framebuffer after split
      exact reach (first :: before) framebuffer after (by rw [split, List.cons_append])
  · rintro ⟨here, later⟩ before framebuffer after split
    cases before with
    | nil =>
        cases split
        exact here framebuffer rfl
    | cons other before =>
        rw [List.cons_append, List.cons.injEq] at split
        rcases split with ⟨rfl, split⟩
        exact later before framebuffer after split

theorem initsReach_nil : InitsReach console [] := by
  intro before framebuffer after split
  simp at split

/-- A screen with two lines of two characters. -/
def twoLines : Framebuffer := { width := 16, height := 32, font := { width := 8, height := 16 } }

theorem twoLines_usual : twoLines.Usual := by
  constructor <;> decide

/-- A text that is longer than both lines of `twoLines`. -/
def fiveLetters : CString := ⟨[chr 'a', chr 'b', chr 'c', chr 'd', chr 'e'], by decide⟩

/-- Texts that scroll a grid of one line and then, after a further `init`, a grid of two. -/
def resized : List Call :=
  [.init oneLine, .appendText newline, .init twoLines, .appendText fiveLetters, .init twoLines,
    .appendText newline]

theorem resized_reach : InitsReach (initial fun _ => 0) resized := by
  simp only [resized, initsReach_cons_iff, Call.init.injEq, reduceCtorEq, forall_eq', false_imp_iff,
    implies_true, true_and]
  refine ⟨?_, ?_, ?_, initsReach_nil⟩
  all_goals
    simp only [Reaches]
    decide +kernel

theorem resized_usual : ∀ framebuffer, .init framebuffer ∈ resized → framebuffer.Usual := by
  intro framebuffer isInit
  simp only [resized, List.mem_cons, Call.init.injEq, reduceCtorEq, false_or, List.not_mem_nil,
    or_false] at isInit
  rcases isInit with rfl | rfl | rfl
  · exact oneLine_usual
  · exact twoLines_usual
  · exact twoLines_usual

theorem cursorInside_iff_resized :
    CursorInside ((initial fun _ => 0).calls (resized.take 4)) ∧
      CursorInside ((initial fun _ => 0).calls resized) := by
  have inside := (cursorInside_iff (fun _ => 0) resized_usual).mpr resized_reach
  constructor
  · exact inside _ (List.take_prefix 4 resized) ⟨oneLine, by simp [resized]⟩
  · exact inside _ (List.prefix_refl _) ⟨oneLine, by simp [resized]⟩

/-- The cursor of the second line is below a grid of one line. -/
theorem cursor_below_grid :
    ¬∀ (contents : ℕ → UInt8) (list : List Call),
      (∀ framebuffer, .init framebuffer ∈ list → framebuffer.Usual) →
      ∀ front, front <+: list → (∃ framebuffer, .init framebuffer ∈ front) →
        CursorInside ((initial contents).calls front) := by
  intro claim
  have inside := claim (fun _ => 0) newlineAndInit (by
    intro framebuffer isInit
    simp only [newlineAndInit, List.mem_cons, reduceCtorEq, Call.init.injEq, List.not_mem_nil,
      or_false, false_or] at isInit
    rw [isInit]
    exact oneLine_usual) newlineAndInit (List.prefix_refl _) ⟨oneLine, by simp [newlineAndInit]⟩
  have row := inside.row
  change (((initial fun _ => 0).appendText newline).init oneLine).cursorY <
    (((initial fun _ => 0).appendText newline).init oneLine).lineCount at row
  rw [init_cursorY, init_lineCount] at row
  revert row
  decide

end VirtualConsole

end Dvnetos.Console
