import Mathlib.Data.Fin.Basic
import Mathlib.Data.List.Chain
import Mathlib.Data.List.FinRange
import Mathlib.Tactic.Common
import Mathlib.Tactic.Ring

/-!
# Tilings of an interval

A list of pieces tiles an interval of numbers if each piece starts where the one in
front of it ends.
-/

universe u

namespace Tiling

variable {Piece : Type u} (start extent : Piece → ℕ)

/-- Pieces that follow each other without a gap, from the first bound to the second. -/
inductive Tiles : ℕ → List Piece → ℕ → Prop
  | nil (bound : ℕ) : Tiles bound [] bound
  | cons {piece : Piece} {rest : List Piece} {upper : ℕ}
      (tiles : Tiles (start piece + extent piece) rest upper) :
      Tiles (start piece) (piece :: rest) upper

variable {start extent} {lower middle upper : ℕ}

theorem Tiles.append {front back : List Piece} (first : Tiles start extent lower front middle)
    (second : Tiles start extent middle back upper) :
    Tiles start extent lower (front ++ back) upper := by
  induction first with
  | nil => exact second
  | cons _ ih => exact Tiles.cons (ih second)

theorem tiles_singleton {piece : Piece} (starts : start piece = lower)
    (stops : lower + extent piece = upper) : Tiles start extent lower [piece] upper := by
  subst starts stops
  exact Tiles.cons (Tiles.nil _)

theorem Tiles.le {pieces : List Piece} (tiles : Tiles start extent lower pieces upper) :
    lower ≤ upper := by
  induction tiles with
  | nil => exact Nat.le_refl _
  | cons _ ih => exact Nat.le_trans (Nat.le_add_right _ _) ih

/-- Equal steps, each of them tiled, tile the whole. -/
theorem tiles_flatMap_finRange (count width : ℕ) {pieces : Fin count → List Piece}
    (each : ∀ number : Fin count,
      Tiles start extent (lower + number * width) (pieces number) (lower + (number + 1) * width)) :
    Tiles start extent lower ((List.finRange count).flatMap pieces) (lower + count * width) := by
  induction count generalizing lower with
  | zero =>
      rw [Nat.zero_mul]
      exact Tiles.nil lower
  | succ count ih =>
      rw [List.finRange_succ, List.flatMap_cons, List.flatMap_map]
      have first : Tiles start extent lower (pieces 0) (lower + width) := by
        simpa using each 0
      have rest : Tiles start extent (lower + width)
          ((List.finRange count).flatMap fun number => pieces number.succ)
          (lower + width + count * width) := by
        apply ih
        intro number
        have here := each number.succ
        rw [Fin.val_succ] at here
        convert here using 1
        · ring
        · ring
      have whole := first.append rest
      convert whole using 1
      ring

theorem Tiles.eq_of_nil (tiles : Tiles start extent lower [] upper) : lower = upper := by
  cases tiles
  rfl

theorem tiles_cons_iff {piece : Piece} {rest : List Piece} :
    Tiles start extent lower (piece :: rest) upper ↔
      start piece = lower ∧ Tiles start extent (lower + extent piece) rest upper := by
  constructor
  · intro tiles
    cases tiles with
    | cons tiles => exact ⟨rfl, tiles⟩
  · rintro ⟨rfl, tiles⟩
    exact Tiles.cons tiles

section Neighbours

variable {pieces : List Piece} {piece : Piece}

theorem Tiles.le_start (tiles : Tiles start extent lower pieces upper) (member : piece ∈ pieces) :
    lower ≤ start piece ∧ start piece + extent piece ≤ upper := by
  induction tiles with
  | nil => cases member
  | cons rest ih =>
      rcases List.mem_cons.mp member with rfl | later
      · exact ⟨Nat.le_refl _, rest.le⟩
      · rcases ih later with ⟨behind, inside⟩
        exact ⟨Nat.le_trans (Nat.le_add_right _ _) behind, inside⟩

variable (positive : ∀ piece, 0 < extent piece)

include positive

theorem Tiles.length_le (tiles : Tiles start extent lower pieces upper) :
    lower + pieces.length ≤ upper := by
  induction tiles with
  | nil => exact Nat.le_refl _
  | @cons first rest upper _ ih =>
      have := positive first
      rw [List.length_cons]
      omega

/-- The pieces behind a piece are those that start where it ends. -/
theorem Tiles.isChain_iff {R : Piece → Piece → Prop}
    (tiles : Tiles start extent lower pieces upper) :
    pieces.IsChain R ↔ ∀ piece ∈ pieces, ∀ later ∈ pieces,
      start later = start piece + extent piece → R piece later := by
  induction tiles with
  | nil => simp
  | @cons first rest upper tiles ih =>
      have behindFirst := fun later (member : later ∈ rest) => (tiles.le_start member).1
      have firstPos := positive first
      rw [List.isChain_cons, ih]
      constructor
      · rintro ⟨fromFirst, fromRest⟩ piece member later laterMember follows
        rcases List.mem_cons.mp laterMember with rfl | laterRest
        · rcases List.mem_cons.mp member with rfl | inRest
          · omega
          · have := behindFirst piece inRest
            omega
        · rcases List.mem_cons.mp member with rfl | inRest
          · apply fromFirst
            cases rest with
            | nil => cases laterRest
            | cons second others =>
                rcases List.mem_cons.mp laterRest with rfl | further
                · rfl
                · have := ((tiles_cons_iff.mp tiles).2.le_start further).1
                  have := positive second
                  omega
          · exact fromRest piece inRest later laterRest follows
      · intro all
        refine ⟨?_, ?_⟩
        · intro second isHead
          have member := List.mem_of_head? isHead
          apply all first (List.mem_cons_self ..) second (List.mem_cons_of_mem first member)
          cases rest with
          | nil => cases member
          | cons other others =>
              cases isHead
              exact (tiles_cons_iff.mp tiles).1
        · intro piece member later laterMember
          exact all piece (List.mem_cons_of_mem first member) later
            (List.mem_cons_of_mem first laterMember)

/-- The last piece is the one that ends where the tiling does. -/
theorem Tiles.getLast?_eq_some_iff (tiles : Tiles start extent lower pieces upper) :
    pieces.getLast? = some piece ↔ piece ∈ pieces ∧ start piece + extent piece = upper := by
  induction tiles with
  | nil => simp
  | @cons first rest upper tiles ih =>
      have firstPos := positive first
      cases rest with
      | nil =>
          simp only [List.getLast?_singleton, Option.some.injEq, List.mem_singleton]
          constructor
          · rintro rfl
            exact ⟨rfl, tiles.eq_of_nil⟩
          · exact fun both => both.1.symm
      | cons second others =>
          have secondPos := positive second
          have room := (tiles_cons_iff.mp tiles).2.le
          rw [List.getLast?_cons_cons, ih, List.mem_cons (b := first)]
          constructor
          · exact fun both => ⟨Or.inr both.1, both.2⟩
          · rintro ⟨rfl | member, stops⟩
            · omega
            · exact ⟨member, stops⟩

end Neighbours

end Tiling
