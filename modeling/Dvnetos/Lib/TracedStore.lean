import Mathlib.Data.List.Basic

/-!
# Memories that remember their stores

A `TracedStore` is a memory together with the addresses that have been stored
to, the latest first. Safety properties speak about the footprint, functional
properties about the cells.
-/

universe u v

/-- A memory with the list of the addresses stored to so far. -/
structure TracedStore (Addr : Type u) (Value : Type v) where
  cells : Addr → Value
  footprint : List Addr

namespace TracedStore

variable {Addr : Type u} {Value : Type v}

/-- A memory nothing has been stored to yet. -/
def fresh (cells : Addr → Value) : TracedStore Addr Value :=
  { cells, footprint := [] }

@[simp]
theorem fresh_cells (cells : Addr → Value) : (fresh cells).cells = cells := rfl

@[simp]
theorem fresh_footprint (cells : Addr → Value) : (fresh cells).footprint = [] := rfl

/-- Every address stored to, from the start on, satisfies the predicate. -/
def Within (inside : Addr → Prop) (memory : TracedStore Addr Value) : Prop :=
  ∀ address ∈ memory.footprint, inside address

@[simp]
theorem within_fresh (inside : Addr → Prop) (cells : Addr → Value) :
    (fresh cells).Within inside := by
  simp [Within]

variable [DecidableEq Addr]

/-- Store one value. -/
def store (memory : TracedStore Addr Value) (address : Addr) (value : Value) :
    TracedStore Addr Value :=
  { cells := fun other => if other = address then value else memory.cells other
    footprint := address :: memory.footprint }

@[simp]
theorem footprint_store (memory : TracedStore Addr Value) (address : Addr) (value : Value) :
    (memory.store address value).footprint = address :: memory.footprint := rfl

@[simp]
theorem cells_store_same (memory : TracedStore Addr Value) (address : Addr) (value : Value) :
    (memory.store address value).cells address = value := by
  simp [store]

theorem cells_store_of_ne (memory : TracedStore Addr Value) {address other : Addr}
    (value : Value) (different : other ≠ address) :
    (memory.store address value).cells other = memory.cells other := by
  simp [store, different]

@[simp]
theorem within_store (inside : Addr → Prop) (memory : TracedStore Addr Value)
    (address : Addr) (value : Value) :
    (memory.store address value).Within inside ↔ inside address ∧ memory.Within inside := by
  simp [Within]

/-- `after` comes from `before` by stores inside a set of addresses. -/
structure Frame (inside : Addr → Prop) (before after : TracedStore Addr Value) : Prop where
  cells : ∀ address, ¬inside address → after.cells address = before.cells address
  footprint : ∀ address ∈ after.footprint, inside address ∨ address ∈ before.footprint

namespace Frame

variable {inside wider : Addr → Prop} {before between after : TracedStore Addr Value}

omit [DecidableEq Addr] in
theorem refl (memory : TracedStore Addr Value) : Frame inside memory memory :=
  ⟨fun _ _ => rfl, fun _ stored => Or.inr stored⟩

omit [DecidableEq Addr] in
theorem trans (first : Frame inside before between) (second : Frame inside between after) :
    Frame inside before after := by
  constructor
  · intro address outside
    rw [second.cells address outside, first.cells address outside]
  · intro address stored
    rcases second.footprint address stored with isInside | earlier
    · exact Or.inl isInside
    · exact first.footprint address earlier

omit [DecidableEq Addr] in
theorem mono (weaker : ∀ address, inside address → wider address)
    (frame : Frame inside before after) : Frame wider before after := by
  constructor
  · intro address outside
    exact frame.cells address fun isInside => outside (weaker address isInside)
  · intro address stored
    exact (frame.footprint address stored).imp (weaker address) id

theorem store {address : Addr} (memory : TracedStore Addr Value) (value : Value)
    (isInside : inside address) : Frame inside memory (memory.store address value) := by
  constructor
  · intro other outside
    apply cells_store_of_ne
    rintro rfl
    exact outside isInside
  · intro other stored
    rcases List.mem_cons.mp stored with rfl | earlier
    · exact Or.inl isInside
    · exact Or.inr earlier

end Frame

end TracedStore
