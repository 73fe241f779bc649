import Mathlib.Tactic.Common

/-!
# Traced computations

A computation that records events and may stop before it has a result. The rules say what
holds of every event of a sequence, a case distinction and a loop.
-/

universe u v w

/-- The events of a computation, in order, and its result or what stopped it. -/
structure Traced (Event : Type u) (Stop : Type v) (α : Type w) where
  events : List Event
  result : Except Stop α

namespace Traced

variable {Event : Type u} {Stop : Type v} {α β : Type w} {P : Event → Prop}

/-- What comes after a computation stopped is not run. -/
def after (x : Traced Event Stop α) (f : α → Traced Event Stop β) : Traced Event Stop β :=
  match x.result with
  | .error stop => ⟨x.events, .error stop⟩
  | .ok value => ⟨x.events ++ (f value).events, (f value).result⟩

instance : Monad (Traced Event Stop) where
  pure value := ⟨[], .ok value⟩
  bind := after

/-- One event. -/
def record (event : Event) : Traced Event Stop PUnit := ⟨[event], .ok ⟨⟩⟩

/-- A computation that stops. -/
def halt (stop : Stop) : Traced Event Stop α := ⟨[], .error stop⟩

/-- Every event has the property. -/
def All (P : Event → Prop) (x : Traced Event Stop α) : Prop := ∀ event ∈ x.events, P event

theorem all_pure (value : α) : (pure value : Traced Event Stop α).All P :=
  fun _ mem => absurd mem List.not_mem_nil

theorem all_halt (stop : Stop) : (halt stop : Traced Event Stop α).All P :=
  fun _ mem => absurd mem List.not_mem_nil

theorem all_record_iff (event : Event) :
    (record event : Traced Event Stop PUnit).All P ↔ P event :=
  List.forall_mem_singleton

theorem all_bind_iff (x : Traced Event Stop α) (f : α → Traced Event Stop β) :
    (x >>= f).All P ↔ x.All P ∧ ∀ value, x.result = .ok value → (f value).All P := by
  change (after x f).All P ↔ _
  cases result : x.result with
  | error stop =>
      simp only [after, result]
      exact ⟨fun all => ⟨all, fun _ same => nomatch same⟩, And.left⟩
  | ok value =>
      simp only [after, result, All, List.forall_mem_append]
      constructor
      · rintro ⟨first, second⟩
        refine ⟨first, fun other same => ?_⟩
        rw [← Except.ok.inj same]
        exact second
      · exact fun both => ⟨both.1, both.2 value rfl⟩

theorem result_bind {x : Traced Event Stop α} {value : α} (result : x.result = .ok value)
    (f : α → Traced Event Stop β) : (x >>= f).result = (f value).result := by
  change (after x f).result = _
  rw [after, result]

theorem result_bind_error {x : Traced Event Stop α} {stop : Stop}
    (result : x.result = .error stop) (f : α → Traced Event Stop β) :
    (x >>= f).result = .error stop := by
  change (after x f).result = _
  rw [after, result]

/-- Every event has the property, and the value is returned. -/
structure Runs (P : Event → Prop) (x : Traced Event Stop α) (value : α) : Prop where
  all : x.All P
  returns : x.result = .ok value

namespace Runs

variable {x : Traced Event Stop α} {f : α → Traced Event Stop β} {value : α} {final : β}

theorem pure (value : α) : Runs P (Pure.pure value : Traced Event Stop α) value :=
  ⟨all_pure value, rfl⟩

theorem record {event : Event} (holds : P event) :
    Runs P (Traced.record event : Traced Event Stop PUnit) ⟨⟩ :=
  ⟨(all_record_iff event).mpr holds, rfl⟩

theorem bind_all_iff (runs : Runs P x value) (f : α → Traced Event Stop β) :
    (x >>= f).All P ↔ (f value).All P := by
  rw [all_bind_iff, runs.returns]
  constructor
  · exact fun both => both.2 value rfl
  · intro all
    refine ⟨runs.all, fun other same => ?_⟩
    rw [← Except.ok.inj same]
    exact all

theorem bind (runs : Runs P x value) (next : Runs P (f value) final) :
    Runs P (x >>= f) final :=
  ⟨(runs.bind_all_iff f).mpr next.all, (result_bind runs.returns f).trans next.returns⟩

end Runs

/--
Under its condition a computation has only events with the property and ends with the outcome,
unless it gives up first. If every event has the property and it has not given up, the condition
holds. With enough resources it does not give up.
-/
structure Ends (gaveUp : Stop) (enough : Prop) (P : Event → Prop) (x : Traced Event Stop α)
    (condition : Prop) (outcome : Except Stop α) : Prop where
  all_of : condition → x.All P
  of_all : enough ∨ x.result ≠ .error gaveUp → x.All P → condition
  result : condition → x.result = outcome ∨ ¬enough ∧ x.result = .error gaveUp

namespace Ends

variable {x : Traced Event Stop α} {f : α → Traced Event Stop β} {value : α}
  {outcome : Except Stop α} {final : Except Stop β} {gaveUp : Stop} {enough first second : Prop}

theorem all_iff (ends : Ends gaveUp enough P x first outcome) (holds : enough) :
    x.All P ↔ first :=
  ⟨ends.of_all (.inl holds), ends.all_of⟩

theorem result_of (ends : Ends gaveUp enough P x first outcome) (holds : enough)
    (condition : first) : x.result = outcome :=
  (ends.result condition).resolve_right fun few => few.1 holds

theorem pure (value : α) :
    Ends gaveUp enough P (Pure.pure value : Traced Event Stop α) True (.ok value) :=
  ⟨fun _ => all_pure value, fun _ _ => trivial, fun _ => .inl rfl⟩

theorem halt (stop : Stop) :
    Ends gaveUp enough P (Traced.halt stop : Traced Event Stop α) True (.error stop) :=
  ⟨fun _ => all_halt stop, fun _ _ => trivial, fun _ => .inl rfl⟩

theorem record (event : Event) :
    Ends gaveUp enough P (Traced.record event : Traced Event Stop PUnit) (P event) (.ok ⟨⟩) :=
  ⟨(all_record_iff event).mpr, fun _ => (all_record_iff event).mp, fun _ => .inl rfl⟩

/-- A computation that gives up at once. -/
theorem giveUp (few : ¬enough) (condition : Prop) (outcome : Except Stop α) :
    Ends gaveUp enough P (Traced.halt gaveUp : Traced Event Stop α) condition outcome :=
  ⟨fun _ => all_halt gaveUp, fun settled => absurd rfl (settled.resolve_left few),
    fun _ => .inr ⟨few, rfl⟩⟩

/-- A sequence is followed computation by computation. -/
theorem bind_of (ends : Ends gaveUp enough P x first (.ok value))
    (next : first → Ends gaveUp enough P (f value) second final) :
    Ends gaveUp enough P (x >>= f) (first ∧ second) final where
  all_of := by
    rintro ⟨holds, later⟩
    refine (all_bind_iff x f).mpr ⟨ends.all_of holds, fun other same => ?_⟩
    rcases ends.result holds with returned | ⟨-, gave⟩
    · rw [returned] at same
      rw [← Except.ok.inj same]
      exact (next holds).all_of later
    · rw [gave] at same
      cases same
  of_all := by
    intro settled all
    rw [all_bind_iff] at all
    have here : enough ∨ x.result ≠ .error gaveUp :=
      settled.imp_right fun goesOn gave => goesOn (result_bind_error gave f)
    have holds := ends.of_all here all.1
    have returned := (ends.result holds).resolve_right fun few => here.elim few.1 (· few.2)
    rw [result_bind returned] at settled
    exact ⟨holds, (next holds).of_all settled (all.2 value returned)⟩
  result := by
    rintro ⟨holds, later⟩
    rcases ends.result holds with returned | ⟨few, gave⟩
    · rw [result_bind returned]
      exact (next holds).result later
    · exact .inr ⟨few, result_bind_error gave f⟩

theorem bind (ends : Ends gaveUp enough P x first (.ok value))
    (next : Ends gaveUp enough P (f value) second final) :
    Ends gaveUp enough P (x >>= f) (first ∧ second) final :=
  ends.bind_of fun _ => next

theorem congr (ends : Ends gaveUp enough P x first outcome) (same : first ↔ second) :
    Ends gaveUp enough P x second outcome := by
  rwa [same] at ends

/-- Nothing is asked of what follows a computation whose condition fails. -/
theorem blocked (ends : Ends gaveUp enough P x first (.ok value)) (fails : ¬first)
    (f : α → Traced Event Stop β) (final : Except Stop β) :
    Ends gaveUp enough P (x >>= f) False final := by
  have next : first → Ends gaveUp enough P (f value) True final := fun holds => absurd holds fails
  exact (ends.bind_of next).congr (iff_of_false (fun both => fails both.1) not_false)

/-- More resources are enough as well. -/
theorem of_enough {more : Prop} (ends : Ends gaveUp enough P x first outcome)
    (implies : more → enough) : Ends gaveUp more P x first outcome :=
  ⟨ends.all_of, fun settled => ends.of_all (settled.imp_left implies),
    fun holds => (ends.result holds).imp_right fun few => ⟨few.1 ∘ implies, few.2⟩⟩

theorem ite {test : Prop} [Decidable test] {y : Traced Event Stop α} {other : α}
    (yes : Ends gaveUp enough P x first (.ok value))
    (no : Ends gaveUp enough P y second (.ok other)) :
    Ends gaveUp enough P (if test then x else y) (if test then first else second)
      (.ok (if test then value else other)) := by
  split_ifs
  · exact yes
  · exact no

/-- `if (test) { ... }`. -/
theorem when {test : Prop} [Decidable test] {x : Traced Event Stop PUnit}
    (ends : Ends gaveUp enough P x first (.ok ⟨⟩)) :
    Ends gaveUp enough P (if test then x else Pure.pure ⟨⟩) (test → first) (.ok ⟨⟩) := by
  split_ifs with holds
  · exact ends.congr ⟨fun isFirst _ => isFirst, fun implied => implied holds⟩
  · exact (Ends.pure PUnit.unit).congr (iff_of_true trivial fun yes => absurd yes holds)

end Ends

/-- The loop body runs for one value after the other. -/
def forEach (body : β → Traced Event Stop PUnit) : List β → Traced Event Stop PUnit
  | [] => pure ⟨⟩
  | value :: rest => body value >>= fun _ => forEach body rest

theorem Ends.forEach {gaveUp : Stop} {enough : Prop} {body : β → Traced Event Stop PUnit}
    {condition : β → Prop} {values : List β}
    (ends : ∀ value ∈ values, Ends gaveUp enough P (body value) (condition value) (.ok ⟨⟩)) :
    Ends gaveUp enough P (Traced.forEach body values) (∀ value ∈ values, condition value)
      (.ok ⟨⟩) := by
  induction values with
  | nil => exact (Ends.pure PUnit.unit).congr (iff_of_true trivial (by simp))
  | cons value rest ih =>
      rw [List.forall_mem_cons] at ends
      exact (ends.1.bind (ih ends.2)).congr List.forall_mem_cons.symm

end Traced
