import Mathlib.Data.List.Basic
import Mathlib.Tactic.Common

/-!
# Items under headings

Some items of a list are headings. The other ones belong to the last heading in front of them,
or stand alone if there is none.
-/

universe u

namespace Headings

variable {Item : Type u} (heading : Item → Bool)

/-- The items in front of the first heading, and the headings with the items under them. -/
def sections : List Item → List Item × List (Item × List Item)
  | [] => ([], [])
  | item :: items =>
      if heading item then ([], (item, (sections items).1) :: (sections items).2)
      else (item :: (sections items).1, (sections items).2)

/-- Every heading and every item without one, with the items that belong to it. -/
def grouped (items : List Item) : List (Item × List Item) :=
  (sections heading items).1.map (fun item => (item, [])) ++ (sections heading items).2

/-- A group with one more item. -/
def extend (item : Item) (group : Item × List Item) : Item × List Item :=
  (group.1, group.2 ++ [item])

variable {heading} {items : List Item} {item : Item}

theorem sections_fst_append_flatMap (items : List Item) :
    (sections heading items).1 ++
      (sections heading items).2.flatMap (fun group => group.1 :: group.2) = items := by
  induction items with
  | nil => rfl
  | cons item items ih =>
      rw [sections]
      split_ifs
      · rw [List.nil_append, List.flatMap_cons, List.cons_append, ih]
      · rw [List.cons_append, ih]

/-- Every item is in one group, and the order is kept. -/
theorem flatMap_grouped (items : List Item) :
    (grouped heading items).flatMap (fun group => group.1 :: group.2) = items := by
  have alone (first : List Item) :
      (first.map fun item => (item, ([] : List Item))).flatMap (fun group => group.1 :: group.2) =
        first := by
    induction first with
    | nil => rfl
    | cons item first ih => rw [List.map_cons, List.flatMap_cons, ih, List.singleton_append]
  rw [grouped, List.flatMap_append, alone, sections_fst_append_flatMap]

theorem sections_concat_of_heading (isHeading : heading item = true) (items : List Item) :
    sections heading (items ++ [item]) =
      ((sections heading items).1, (sections heading items).2 ++ [(item, [])]) := by
  induction items with
  | nil => simp [sections, isHeading]
  | cons first items ih =>
      rw [List.cons_append, sections, sections, ih]
      split_ifs <;> rfl

theorem sections_of_none (none : items.any heading = false) :
    sections heading items = (items, []) := by
  induction items with
  | nil => rfl
  | cons first items ih =>
      rw [List.any_cons, Bool.or_eq_false_iff] at none
      rw [sections, ih none.2, none.1]
      rfl

/-- A heading, or an item in front of all of them, is a group of its own. -/
theorem grouped_concat_alone (alone : heading item = true ∨ items.any heading = false) :
    grouped heading (items ++ [item]) = grouped heading items ++ [(item, [])] := by
  cases isHeading : heading item with
  | true =>
      rw [grouped, sections_concat_of_heading isHeading, grouped, List.append_assoc]
  | false =>
      have none : items.any heading = false :=
        alone.resolve_left fun isTrue => by rw [isTrue] at isHeading; cases isHeading
      have noneAfter : (items ++ [item]).any heading = false := by
        rw [List.any_append, none, List.any_cons, isHeading]
        rfl
      rw [grouped, sections_of_none noneAfter, grouped, sections_of_none none]
      simp

theorem sections_concat_under (isItem : heading item = false) (some : items.any heading = true) :
    ∃ front last, (sections heading items).2 = front ++ [last] ∧
      sections heading (items ++ [item]) =
        ((sections heading items).1, front ++ [extend item last]) := by
  induction items with
  | nil => cases some
  | cons first items ih =>
      rw [List.cons_append, sections, sections]
      cases later : items.any heading with
      | true =>
          rcases ih later with ⟨front, last, before, after⟩
          rw [before, after]
          split_ifs
          · exact ⟨_ :: front, last, rfl, rfl⟩
          · exact ⟨front, last, rfl, rfl⟩
      | false =>
          have isHeading : heading first = true := by
            rwa [List.any_cons, later, Bool.or_false] at some
          have noneAfter : (items ++ [item]).any heading = false := by
            rw [List.any_append, later, List.any_cons, isItem]
            rfl
          rw [sections_of_none later, sections_of_none noneAfter, if_pos isHeading,
            if_pos isHeading]
          exact ⟨[], (first, items), rfl, rfl⟩

/-- Any other item is added to the last group. -/
theorem grouped_concat_under (isItem : heading item = false) (some : items.any heading = true) :
    ∃ front last, grouped heading items = front ++ [last] ∧
      grouped heading (items ++ [item]) = front ++ [extend item last] := by
  rcases sections_concat_under isItem some with ⟨front, last, before, after⟩
  refine ⟨(sections heading items).1.map (fun item => (item, [])) ++ front, last, ?_, ?_⟩
  · rw [grouped, before, List.append_assoc]
  · rw [grouped, after, List.append_assoc]

end Headings
