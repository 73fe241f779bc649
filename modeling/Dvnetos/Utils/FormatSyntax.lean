import Dvnetos.Utils.Stdio

/-!
# The syntax of formats

Character by character, a format is in a text or in a conversion, of which only what may still
follow matters. A format that ends in a conversion of which something has been read is cut off.
The automaton says which formats these are without the scanner of `kvsnprintf`, and this file
shows that the scanner follows it.
-/

namespace Dvnetos.Stdio

/-- What has been read of a conversion last. -/
inductive Phase where
  /-- Not in a conversion. -/
  | text
  | percent
  | zero
  | plus
  /-- A minus sign or a digit of the length. -/
  | width
  | precision
  | length
  | secondLength
  deriving DecidableEq

namespace Phase

/-- A digit of a width or a precision. -/
def isDigit (c : UInt8) : Bool := chr '0' ≤ c && c ≤ chr '9'

/-- A length modifier. -/
def isLength (c : UInt8) : Bool := c = chr 'l' || c = chr 'h'

/-- The phase behind a character that may only be a length modifier or the type. -/
def afterLength (next : Phase) (c : UInt8) : Phase := if isLength c then next else text

/-- The phase behind the next character of a precision. -/
def afterPrecision (c : UInt8) : Phase :=
  if isDigit c then precision else afterLength length c

/-- The phase behind the next character of a width. -/
def afterWidth (c : UInt8) : Phase :=
  if isDigit c then width else if c = chr '.' then precision else afterLength length c

/-- The phase behind the character that follows a plus. -/
def afterPlus (c : UInt8) : Phase := if c = chr '-' then width else afterWidth c

/-- The phase behind the character that follows a zero. -/
def afterZero (c : UInt8) : Phase := if c = chr '+' then plus else afterPlus c

/-- The phase behind one more character. -/
def next : Phase → UInt8 → Phase
  | text, c => if c = chr '%' then percent else text
  | percent, c => if c = chr '%' then text else if c = chr '0' then zero else afterZero c
  | zero, c => afterZero c
  | plus, c => afterPlus c
  | width, c => afterWidth c
  | precision, c => afterPrecision c
  | length, c => afterLength secondLength c
  | secondLength, _ => text

/-- In a conversion, behind its first modifier. -/
def Inside (phase : Phase) : Prop := phase ≠ text ∧ phase ≠ percent

instance : DecidablePred Inside := fun _ => inferInstanceAs (Decidable (_ ∧ _))

/-- From this phase on, the characters end in a conversion. -/
def CutOff (phase : Phase) (chars : List UInt8) : Prop := (chars.foldl next phase).Inside

instance (phase : Phase) (chars : List UInt8) : Decidable (phase.CutOff chars) :=
  inferInstanceAs (Decidable (Inside _))

/-- The format ends in the middle of a conversion. -/
def EndsInConversion (chars : List UInt8) : Prop := text.CutOff chars

instance : DecidablePred EndsInConversion := fun chars =>
  inferInstanceAs (Decidable (text.CutOff chars))

theorem cutOff_cons (phase : Phase) (c : UInt8) (rest : List UInt8) :
    phase.CutOff (c :: rest) ↔ (phase.next c).CutOff rest := Iff.rfl

section Scanner

variable {rest : List UInt8}

theorem cutOff_skipIf {c : UInt8} {before after : Phase} (ends : before.Inside ↔ after.Inside)
    (skips : before.next c = after)
    (other : ∀ x ∈ rest.head?, x ≠ c → before.next x = after.next x) :
    before.CutOff rest ↔ after.CutOff (skipIf c rest).2 := by
  cases rest with
  | nil => exact ends
  | cons x rest =>
      rw [skipIf]
      split_ifs with same
      · rw [cutOff_cons, same, skips]
      · rw [cutOff_cons, cutOff_cons, other x rfl same]

theorem isDigit_iff (c : UInt8) : isDigit c = true ↔ chr '0' ≤ c ∧ c ≤ chr '9' := by
  rw [isDigit, Bool.and_eq_true, decide_eq_true_iff, decide_eq_true_iff]

theorem isLength_iff (c : UInt8) : isLength c = true ↔ c = chr 'l' ∨ c = chr 'h' := by
  rw [isLength, Bool.or_eq_true, decide_eq_true_iff, decide_eq_true_iff]

/-- A number is read in a phase that digits do not end. -/
theorem cutOff_scanNumber {phase : Phase} (stays : ∀ c, isDigit c = true → phase.next c = phase)
    (number : ℤ) : phase.CutOff rest ↔ phase.CutOff (scanNumber number rest).2 := by
  induction rest generalizing number with
  | nil => exact Iff.rfl
  | cons x rest ih =>
      rw [scanNumber]
      split_ifs with digit
      · rw [cutOff_cons, stays x ((isDigit_iff x).mpr digit)]
        exact ih _
      · exact Iff.rfl

/-- Behind a number stands no digit. -/
theorem scanNumber_head (number : ℤ) (rest : List UInt8) :
    ∀ c ∈ (scanNumber number rest).2.head?, isDigit c = false := by
  induction rest generalizing number with
  | nil => exact fun c head => nomatch head
  | cons x rest ih =>
      rw [scanNumber]
      split_ifs with digit
      · exact ih _
      · intro c head
        rw [← Option.some.inj head]
        exact Bool.eq_false_iff.mpr fun isDigit => digit ((isDigit_iff x).mp isDigit)

/-- The list is cut off unless there is a type in front of a list that is not. -/
def TypeThen (rest : List UInt8) : Prop :=
  match rest.tail? with
  | none => True
  | some after => text.CutOff after

theorem cutOff_afterWidth (notDigit : ∀ c ∈ rest.head?, isDigit c = false) :
    width.CutOff rest ↔ precision.CutOff
      (if (skipIf (chr '.') rest).1 then scanNumber 0 (skipIf (chr '.') rest).2
        else (0, (skipIf (chr '.') rest).2)).2 := by
  rw [cutOff_skipIf (c := chr '.') (by decide) (show width.next (chr '.') = precision by decide)]
  · split_ifs
    · exact cutOff_scanNumber (show ∀ c, isDigit c = true → precision.next c = precision from
        fun c digit => if_pos digit) 0
    · exact Iff.rfl
  · intro x head notDot
    simp only [next, afterWidth, afterPrecision, notDigit x head, notDot, Bool.false_eq_true,
      if_false]

/-- Behind the number there is no digit, also if there is no number. -/
theorem precision_head (notDigit : ∀ c ∈ rest.head?, isDigit c = false) :
    ∀ c ∈ (if (skipIf (chr '.') rest).1 then scanNumber 0 (skipIf (chr '.') rest).2
      else (0, (skipIf (chr '.') rest).2)).2.head?, isDigit c = false := by
  cases rest with
  | nil => exact notDigit
  | cons x rest =>
      by_cases dot : x = chr '.'
      · have skips : skipIf (chr '.') (x :: rest) = (true, rest) := if_pos dot
        rw [skips]
        exact scanNumber_head 0 rest
      · have stays : skipIf (chr '.') (x :: rest) = (false, x :: rest) := if_neg dot
        rw [stays]
        exact notDigit

theorem secondLength_typeThen : secondLength.CutOff rest ↔ TypeThen rest := by
  cases rest with
  | nil => exact iff_of_true (by decide) trivial
  | cons x rest => exact Iff.rfl

theorem length_typeThen : length.CutOff rest ↔ TypeThen (scanLengthMod rest).2 := by
  cases rest with
  | nil => exact iff_of_true (by decide) trivial
  | cons x rest =>
      rw [scanLengthMod, cutOff_cons, next, afterLength]
      simp only [isLength_iff]
      split_ifs
      · exact secondLength_typeThen
      · exact Iff.rfl

theorem precision_typeThen (notDigit : ∀ c ∈ rest.head?, isDigit c = false) :
    precision.CutOff rest ↔
      TypeThen (if (scanLengthMod rest).1 = 0 then (0, (scanLengthMod rest).2)
        else scanLengthMod (scanLengthMod rest).2).2 := by
  cases rest with
  | nil => exact iff_of_true (by decide) trivial
  | cons x rest =>
      rw [cutOff_cons, next, afterPrecision, notDigit x rfl, afterLength, if_neg Bool.false_ne_true]
      simp only [isLength_iff]
      by_cases isLength : x = chr 'l' ∨ x = chr 'h'
      · have nonzero : x ≠ 0 := by rcases isLength with rfl | rfl <;> decide
        have reads : scanLengthMod (x :: rest) = (x, rest) := if_pos isLength
        simp only [reads, if_pos isLength, if_neg nonzero]
        exact length_typeThen
      · have stays : scanLengthMod (x :: rest) = (0, x :: rest) := if_neg isLength
        simp only [stays, if_neg isLength, if_true]
        exact Iff.rfl

/-- What is cut off behind a percent sign is what the scanner finds no type in. -/
theorem cutOff_scanSpec (nonempty : rest ≠ []) (notPercent : rest.headD 0 ≠ chr '%') :
    percent.CutOff rest ↔
      match (scanSpec rest).2 with
      | none => True
      | some after => text.CutOff after := by
  have flag : percent.CutOff rest ↔ zero.CutOff (skipIf (chr '0') rest).2 := by
    cases rest with
    | nil => exact absurd rfl nonempty
    | cons x rest =>
        rw [List.headD_cons] at notPercent
        rw [cutOff_cons, next, if_neg notPercent, skipIf]
        split_ifs
        · exact Iff.rfl
        · exact Iff.rfl
  rw [flag, cutOff_skipIf (c := chr '+') (by decide) (show zero.next (chr '+') = plus by decide)
      fun x _ other => if_neg other,
    cutOff_skipIf (c := chr '-') (by decide) (show plus.next (chr '-') = width by decide)
      fun x _ other => if_neg other,
    cutOff_scanNumber (show ∀ c, isDigit c = true → width.next c = width from
      fun c digit => if_pos digit) 0,
    cutOff_afterWidth (scanNumber_head 0 _),
    precision_typeThen (precision_head (scanNumber_head 0 _))]
  exact Iff.rfl

end Scanner

end Phase

end Dvnetos.Stdio
