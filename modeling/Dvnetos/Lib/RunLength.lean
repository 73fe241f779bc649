import Mathlib.Data.List.Chain
import Mathlib.Data.List.Iterate
import Mathlib.Data.List.ReduceOption
import Mathlib.Tactic.Common

/-!
# Run-length encoding of places

An encoder reads a sequence of places, each of which holds an item or is empty. It keeps
the run it is in and gives it away where the next place is empty or holds an item that
does not continue the run. A run that is open behind the last place is never given away.

A run stands for the items that are made from its first one, step by step. The runs given
away stand for the items of all places exactly if the last place is empty and an item that
continues the one in front of it is what the step makes of that.
-/

universe u

namespace RunLength

variable {Item : Type u}

/-- A run of items, by its ends. -/
structure Run (Item : Type u) where
  first : Item
  last : Item
  count : ℕ

namespace Run

/-- A run of one item. -/
def single (item : Item) : Run Item := ⟨item, item, 1⟩

/-- The run with one item more. -/
def extend (run : Run Item) (item : Item) : Run Item := ⟨run.first, item, run.count + 1⟩

/-- The items of a run, each of them computed from the one before. -/
def expand (next : Item → Item) (run : Run Item) : List Item :=
  List.iterate next run.first run.count

end Run

section Encoder

variable (continues : Item → Item → Prop) [DecidableRel continues]

/-- The runs that are given away, from the run that is open in front of the places. -/
def encode : Option (Run Item) → List (Option Item) → List (Run Item)
  | _, [] => []
  | opened, none :: rest => opened.toList ++ encode none rest
  | none, some item :: rest => encode (some (.single item)) rest
  | some run, some item :: rest =>
      if continues run.last item then encode (some (run.extend item)) rest
      else run :: encode (some (.single item)) rest

variable {continues}

theorem count_le {opened : Option (Run Item)} {places : List (Option Item)} {run : Run Item}
    (given : run ∈ encode continues opened places) :
    run.count ≤ (opened.elim 0 Run.count) + places.length := by
  induction places generalizing opened with
  | nil => cases given
  | cons place rest ih =>
      rw [List.length_cons]
      cases place with
      | none =>
          rcases List.mem_append.mp given with isOpen | later
          · cases opened with
            | none => cases isOpen
            | some open_ =>
                cases List.mem_singleton.mp isOpen
                exact Nat.le_add_right _ _
          · have bound := ih later
            rw [Option.elim_none] at bound
            omega
      | some item =>
          cases opened with
          | none =>
              have bound := ih given
              change run.count ≤ 1 + rest.length at bound
              rw [Option.elim_none]
              omega
          | some open_ =>
              rw [encode] at given
              rw [Option.elim_some]
              split_ifs at given
              · have bound := ih given
                change run.count ≤ open_.count + 1 + rest.length at bound
                omega
              · rcases List.mem_cons.mp given with rfl | later
                · exact Nat.le_add_right _ _
                · have bound := ih later
                  change run.count ≤ 1 + rest.length at bound
                  omega

/-- The first run given away is the open one, longer by what has continued it. -/
theorem encode_first (run : Run Item) (places : List (Option Item)) :
    encode continues (some run) places = [] ∨
      ∃ longer rest, encode continues (some run) places = longer :: rest ∧
        longer.first = run.first ∧ run.count ≤ longer.count := by
  induction places generalizing run with
  | nil => exact Or.inl rfl
  | cons place rest ih =>
      cases place with
      | none => exact Or.inr ⟨run, _, rfl, rfl, Nat.le_refl _⟩
      | some item =>
          rw [encode]
          split_ifs
          · rcases ih (run.extend item) with nothing | ⟨longer, later, given, first, count⟩
            · exact Or.inl nothing
            · exact Or.inr ⟨longer, later, given, first, Nat.le_of_succ_le count⟩
          · exact Or.inr ⟨run, _, rfl, rfl, Nat.le_refl _⟩

end Encoder

section Lossless

variable (continues : Item → Item → Prop) (next : Item → Item)

/-- An item that continues the one in front of it is what the step makes of that. -/
def Steps (place following : Option Item) : Prop :=
  ∀ item ∈ place, ∀ later ∈ following, continues item later → later = next item

/-- The step behind the last item of the run is the one behind its expansion. -/
structure Exact (run : Run Item) : Prop where
  positive : 0 < run.count
  tip : next^[run.count] run.first = next run.last

variable {continues next}

theorem exact_single (item : Item) : Exact next (.single item) :=
  { positive := Nat.one_pos
    tip := rfl }

theorem Exact.expand_extend {run : Run Item} (exact : Exact next run) :
    (run.extend (next run.last)).expand next = run.expand next ++ [next run.last] := by
  rw [Run.expand, Run.expand, Run.extend, List.iterate_add, exact.tip]
  rfl

theorem Exact.extend {run : Run Item} (exact : Exact next run) :
    Exact next (run.extend (next run.last)) := by
  refine ⟨Nat.succ_pos _, ?_⟩
  change next^[run.count + 1] run.first = next (next run.last)
  rw [Function.iterate_succ_apply', exact.tip]

variable [DecidableRel continues]

/-- If the runs given away begin like the open run, what continues it is its next item. -/
theorem Exact.eq_next {run : Run Item} (exact : Exact next run) {item : Item}
    {places : List (Option Item)} {items : List Item}
    (same : (encode continues (some (run.extend item)) places).flatMap (Run.expand next) =
      run.expand next ++ item :: items) : item = next run.last := by
  rcases @encode_first Item continues _ (run.extend item) places with
    nothing | ⟨longer, later, given, first, count⟩
  · rw [nothing] at same
    simp at same
  · rw [given, List.flatMap_cons] at same
    change longer.first = run.first at first
    change run.count + 1 ≤ longer.count at count
    have place := congrArg (fun list => list[run.count]?) same
    simp only [Run.expand, first] at place
    rw [List.getElem?_append_left (by rw [List.length_iterate]; omega),
      List.getElem?_iterate _ _ _ _ count,
      List.getElem?_append_right (by rw [List.length_iterate]), List.length_iterate, Nat.sub_self,
      List.getElem?_cons_zero, exact.tip] at place
    exact (Option.some.inj place).symm

/-- Which places are given away as they are, from an open run on. -/
theorem lossless_iff (opened : Option (Run Item)) (exact : ∀ run ∈ opened, Exact next run)
    (places : List (Option Item)) :
    (encode continues opened places).flatMap (Run.expand next) =
        opened.elim [] (Run.expand next) ++ places.reduceOption ↔
      (opened.map Run.last :: places).IsChain (Steps continues next) ∧
        (opened.map Run.last :: places).getLast? = some none := by
  induction places generalizing opened with
  | nil =>
      cases opened with
      | none => simp [encode]
      | some run =>
          have positive := (exact run rfl).positive
          simp only [encode, Option.elim_some]
          simp [Run.expand]
          omega
  | cons place rest ih =>
      rw [List.isChain_cons_cons, List.getLast?_cons_cons, and_assoc]
      cases place with
      | none =>
          have free : Steps continues next (opened.map Run.last) none := fun _ _ _ later => by
            cases later
          have front :
              opened.toList.flatMap (Run.expand next) = opened.elim [] (Run.expand next) := by
            cases opened <;> simp
          have later := ih none (fun _ isOpen => by cases isOpen)
          rw [encode, List.flatMap_append, front, List.append_cancel_left_eq,
            List.reduceOption_cons_of_none, and_iff_right free]
          exact later
      | some item =>
          rw [List.reduceOption_cons_of_some]
          have single := ih (some (.single item)) fun run isOpen => by
            cases isOpen
            exact exact_single item
          cases opened with
          | none =>
              have free : Steps continues next none (some item) := fun _ earlier => by cases earlier
              rw [encode, Option.map_none, and_iff_right free]
              exact single
          | some run =>
              have tight := exact run rfl
              by_cases goesOn : continues run.last item
              · rw [encode, if_pos goesOn]
                by_cases isNext : item = next run.last
                · have steps : Steps continues next (some run.last) (some item) := by
                    rintro _ ⟨⟩ _ ⟨⟩ -
                    exact isNext
                  have extended := ih (some (run.extend item)) fun longer isOpen => by
                    cases isOpen
                    rw [isNext]
                    exact tight.extend
                  rw [Option.map_some, and_iff_right steps]
                  rw [Option.elim_some, isNext, tight.expand_extend, List.append_assoc] at extended
                  rw [isNext]
                  exact extended
                · constructor
                  · intro same
                    exact absurd (tight.eq_next same) isNext
                  · rintro ⟨steps, -⟩
                    exact absurd (steps run.last rfl item rfl goesOn) isNext
              · have steps : Steps continues next (some run.last) (some item) := by
                  rintro _ ⟨⟩ _ ⟨⟩ continued
                  exact absurd continued goesOn
                rw [encode, if_neg goesOn, Option.map_some, and_iff_right steps,
                  List.flatMap_cons, Option.elim_some, List.append_cancel_left_eq]
                exact single

/-- When the runs that are given away stand for all items. -/
theorem encode_lossless_iff (places : List (Option Item)) :
    (encode continues none places).flatMap (Run.expand next) = places.reduceOption ↔
      places.IsChain (Steps continues next) ∧ ∀ item, places.getLast? ≠ some (some item) := by
  have fromStart :=
    @lossless_iff Item continues next _ none (fun _ isOpen => by cases isOpen) places
  rw [Option.map_none, List.isChain_cons, List.getLast?_cons] at fromStart
  have free : ∀ place ∈ places.head?, Steps continues next none place :=
    fun _ _ _ earlier => by cases earlier
  have ends : some (places.getLast?.getD none) = some none ↔
      ∀ item, places.getLast? ≠ some (some item) := by
    cases places.getLast? with
    | none => simp
    | some place => cases place <;> simp
  rw [ends, and_iff_right free] at fromStart
  exact fromStart

end Lossless

end RunLength
