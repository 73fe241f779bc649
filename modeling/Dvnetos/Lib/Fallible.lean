import Mathlib.Tactic.Common

/-!
# Computations that may fail

Rules for `Except`: when a sequence of computations returns, and what a property
that every step keeps says about a whole run.
-/

universe u v w x

namespace Fallible

variable {Error : Type u} {α β State : Type v}

theorem bind_eq_ok_iff {first : Except Error α} {rest : α → Except Error β} {result : β} :
    (first >>= rest) = .ok result ↔ ∃ value, first = .ok value ∧ rest value = .ok result := by
  cases first with
  | error error =>
      constructor
      · intro returned
        cases returned
      · rintro ⟨value, returned, -⟩
        cases returned
  | ok value =>
      constructor
      · intro returned
        exact ⟨value, rfl, returned⟩
      · rintro ⟨_, same, returned⟩
        cases same
        exact returned

theorem ok_bind (value : α) (rest : α → Except Error β) :
    (Except.ok value >>= rest) = rest value := rfl

theorem pure_eq_ok_iff {value result : α} :
    (pure value : Except Error α) = .ok result ↔ value = result :=
  ⟨Except.ok.inj, congrArg Except.ok⟩

/-- A loop over a list, which goes on as long as the body says so. -/
def forEach (body : α → State → Except Error (Bool × State)) :
    List α → State → Except Error (Bool × State)
  | [], state => .ok (true, state)
  | value :: rest, state => do
      let (goOn, state) ← body value state
      if goOn then forEach body rest state else return (false, state)

theorem forEach_append (body : α → State → Except Error (Bool × State)) (front back : List α)
    (state : State) :
    forEach body (front ++ back) state = (do
      let (goOn, state) ← forEach body front state
      if goOn then forEach body back state else return (false, state)) := by
  induction front generalizing state with
  | nil => rfl
  | cons value rest ih =>
      simp only [List.cons_append, forEach]
      cases body value state with
      | error error => rfl
      | ok result =>
          rcases result with ⟨goOn, between⟩
          cases goOn with
          | false => rfl
          | true => exact ih between

theorem forEach_singleton (body : α → State → Except Error (Bool × State)) (value : α)
    (state : State) : forEach body [value] state = body value state := by
  simp only [forEach]
  cases body value state with
  | error error => rfl
  | ok result =>
      rcases result with ⟨goOn, after⟩
      cases goOn <;> rfl

/-- A loop of loops is one loop. -/
theorem forEach_flatMap (body : β → State → Except Error (Bool × State)) (values : List α)
    (inner : α → List β) (state : State) :
    forEach body (values.flatMap inner) state =
      forEach (fun value state => forEach body (inner value) state) values state := by
  induction values generalizing state with
  | nil => rfl
  | cons value rest ih =>
      rw [List.flatMap_cons, forEach_append, forEach]
      simp only [ih]

/-- Two loops are equal if their bodies are on the states that the loop comes to. -/
theorem forEach_congr {invariant : State → Prop}
    {body other : α → State → Except Error (Bool × State)}
    (same : ∀ value state, invariant state → body value state = other value state)
    (kept : ∀ value state goOn after, invariant state → other value state = .ok (goOn, after) →
      invariant after)
    (values : List α) {state : State} (holds : invariant state) :
    forEach body values state = forEach other values state := by
  induction values generalizing state with
  | nil => rfl
  | cons value rest ih =>
      simp only [forEach, same value state holds]
      cases ran : other value state with
      | error error => rfl
      | ok result =>
          rcases result with ⟨goOn, after⟩
          simp only [ok_bind, ih (kept value state goOn after holds ran)]

theorem exists_of_isOk {computation : Except Error α} (returns : computation.isOk = true) :
    ∃ result, computation = .ok result := by
  cases computation with
  | error error => cases returns
  | ok result => exact ⟨result, rfl⟩

theorem eq_ok_get {computation : Except Error α} (returns : computation.toOption.isSome = true) :
    computation = .ok (computation.toOption.get returns) := by
  cases computation with
  | error error => cases returns
  | ok result => rfl

section Simulation

variable {Abstract : Type w} {Command : Type x} {related : State → Abstract → Prop}
variable {exec : State → Command → Except Error State}
variable {spec : Abstract → Command → Option Abstract} {legal : Command → Prop}

/-- A run that does not fail follows a run of the abstract machine, if every step follows one. -/
theorem foldlM_simulates
    (step : ∀ state abstract command after, related state abstract → legal command →
      exec state command = .ok after →
        ∃ next, spec abstract command = some next ∧ related after next)
    {commands : List Command} (allLegal : ∀ command ∈ commands, legal command)
    {state after : State} {abstract : Abstract} (start : related state abstract)
    (ran : commands.foldlM exec state = .ok after) :
    ∃ final, commands.foldlM spec abstract = some final ∧ related after final := by
  induction commands generalizing state abstract with
  | nil =>
      cases ran
      exact ⟨abstract, rfl, start⟩
  | cons command rest ih =>
      rcases bind_eq_ok_iff.mp ran with ⟨between, first, later⟩
      have here := allLegal command (List.mem_cons_self ..)
      rcases step state abstract command between start here first with ⟨next, stepped, relates⟩
      have others : ∀ other ∈ rest, legal other :=
        fun other member => allLegal other (List.mem_cons_of_mem _ member)
      rcases ih others relates later with ⟨final, followed, relatesFinal⟩
      refine ⟨final, ?_, relatesFinal⟩
      rw [List.foldlM_cons, stepped]
      exact followed

end Simulation

end Fallible
