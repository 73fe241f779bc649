import Dvnetos.Paging.RunEncoding

/-!
# When the reported ranges are the pages of a walk

The ranges of `pageTableToRanges` stand for the pages of a walk exactly if the last place
of the walk is no page, since the block that is open there is not reported, and no block
goes on over a jump of the virtual addresses, since a block is only compared with the
physical address of the next page.
-/

namespace Dvnetos.PageTables

open RunLength Tiling

/-- Expanding the reported ranges gives these pages. -/
def Lossless (walk : WalkFormat) (tables : Word64 → Index → Word64)
    (mapFunc : Word64 → Word64) (roots : List (Bool × Word64)) (leaves : List Leaf) : Prop :=
  ∃ ranges, reportedRanges walk tables mapFunc roots = .ok ranges ∧
    ranges.flatMap PageTableRangeData.expand = leaves

namespace Visit

/-- The number behind the place. -/
def stop (visit : Visit) : ℕ := visit.start + visit.extent

theorem extent_pos (visit : Visit) : 0 < visit.extent := Nat.pow_pos (by decide)

end Visit

section Places

variable {walk : WalkFormat} {border : ℕ} {jump : Word64}

/--
A page of the walk, by its number and how many 4 KiB pages it spans. The virtual addresses grow with
the numbers, with a jump at the border.
-/
structure LeafAt (border : ℕ) (jump : Word64) (visit : Visit) (leaf : Leaf) : Prop where
  virtual : leaf.virtualAddress =
    BitVec.ofNat 64 (visit.start * 4096) + if visit.start < border then 0#64 else jump
  size : leaf.size = BitVec.ofNat 64 (visit.extent * 4096)
  extent : visit.extent = 512 ∨ visit.extent = 1
  aligned : visit.extent ∣ visit.start

theorem leaf_of_leaf? {visit : Visit} {leaf : Leaf} (found : leaf ∈ visit.leaf? walk) :
    ∃ entry, visit.found = .leaf entry := by
  rcases visit with ⟨half, path, here⟩
  cases here with
  | leaf entry => exact ⟨entry, rfl⟩
  | missing => cases found
  | unsupported panic => cases found

theorem leafAt_of_visit {visit : Visit} {leaf : Leaf} (found : leaf ∈ visit.leaf? walk)
    (level : visit.path.length = 3 ∨ visit.path.length = 4)
    (virtual : walk.pageIndexesToVirtual visit.higherHalf visit.path.reverse =
      BitVec.ofNat 64 (visit.start * 4096) + if visit.start < border then 0#64 else jump) :
    LeafAt border jump visit leaf := by
  rcases visit with ⟨half, path, here⟩
  cases here with
  | missing => cases found
  | unsupported panic => cases found
  | leaf entry =>
      cases found
      rcases level with three | four
      · change path.length = 3 at three
        refine ⟨virtual, ?_, ?_, ?_⟩
        · simp only [leafOf, Visit.extent, three]
          rfl
        · simp [Visit.extent, three]
        · simp only [Visit.extent, Visit.start, three, pathNumber]
          cases half with
          | false => simp [halfStart]
          | true =>
              simp only [halfStart, if_true]
              omega
      · change path.length = 4 at four
        refine ⟨virtual, ?_, ?_, ?_⟩
        · simp only [leafOf, Visit.extent, four]
          rfl
        · simp [Visit.extent, four]
        · simp [Visit.extent, four]

/-- No page lies on both sides of the border. -/
theorem LeafAt.side {visit : Visit} {leaf : Leaf} (leafAt : LeafAt border jump visit leaf)
    (aligned : 512 ∣ border) : visit.stop ≤ border ∨ border ≤ visit.start := by
  have dividesBorder : visit.extent ∣ border := by
    rcases leafAt.extent with huge | small
    · rwa [huge]
    · rw [small]
      exact Nat.one_dvd border
  rcases dividesBorder with ⟨count, isBorder⟩
  rcases leafAt.aligned with ⟨number, isStart⟩
  rw [Visit.stop, isBorder, isStart]
  rcases Nat.lt_or_ge number count with before | behind
  · left
    calc visit.extent * number + visit.extent = visit.extent * (number + 1) := by ring
      _ ≤ visit.extent * count := Nat.mul_le_mul_left _ before
  · exact Or.inr (Nat.mul_le_mul_left _ behind)

theorem LeafAt.address_end {visit : Visit} {leaf : Leaf} (leafAt : LeafAt border jump visit leaf) :
    leaf.virtualAddress + leaf.size =
      BitVec.ofNat 64 (visit.stop * 4096) + if visit.start < border then 0#64 else jump := by
  rw [leafAt.virtual, leafAt.size, Visit.stop, Nat.add_mul, BitVec.ofNat_add]
  ac_rfl

/-- A page behind another is the next one, if the addresses do not jump between them. -/
theorem eq_next_iff_of_leafAt (aligned : 512 ∣ border) {visit later : Visit} {leaf other : Leaf}
    (leafAt : LeafAt border jump visit leaf) (otherAt : LeafAt border jump later other)
    (follows : later.start = visit.stop) (continues : leaf.Continues other) :
    other = leaf.next ↔ (visit.stop = border → jump = 0#64) := by
  have positive := visit.extent_pos
  have here : BitVec.ofNat 64 (visit.start * 4096) + BitVec.ofNat 64 (visit.extent * 4096) =
      BitVec.ofNat 64 (visit.stop * 4096) := by
    rw [← BitVec.ofNat_add, Visit.stop, Nat.add_mul]
  rw [Leaf.eq_next_iff continues, leafAt.virtual, leafAt.size, otherAt.virtual, follows, ← here]
  rcases leafAt.side aligned with before | behind
  · have inFront : visit.start < border := by
      rw [Visit.stop] at before
      omega
    rw [if_pos inFront, BitVec.add_zero]
    by_cases atBorder : visit.stop = border
    · rw [if_neg (by omega), BitVec.add_right_eq_self]
      exact ⟨fun isZero _ => isZero, fun isZero => isZero atBorder⟩
    · rw [if_pos (by omega), BitVec.add_zero]
      exact iff_of_true rfl fun stops => absurd stops atBorder
  · have past : border < visit.stop := by
      rw [Visit.stop]
      omega
    rw [if_neg (by omega), if_neg (by omega)]
    apply iff_of_true
    · ac_rfl
    · intro stops
      omega

end Places

/-- The ranges are lossless if the runs that are given away are. -/
theorem lossless_iff_runs {walk : WalkFormat} {tables : Word64 → Index → Word64}
    {mapFunc : Word64 → Word64} {roots : List (Bool × Word64)}
    (supported : ∀ visit ∈ visits walk tables mapFunc roots, ∀ panic,
      visit.found ≠ .unsupported panic)
    (short : (visits walk tables mapFunc roots).length < 2 ^ 64) :
    Lossless walk tables mapFunc roots
        ((visits walk tables mapFunc roots).filterMap (Visit.leaf? walk)) ↔
      (encode Leaf.Continues none ((visits walk tables mapFunc roots).map
        (Visit.leaf? walk))).flatMap (Run.expand Leaf.next) =
          ((visits walk tables mapFunc roots).map (Visit.leaf? walk)).reduceOption := by
  rw [Lossless, reportedRanges_eq_encode supported]
  generalize visits walk tables mapFunc roots = visits at short
  have small : ∀ run ∈ encode Leaf.Continues none (visits.map (Visit.leaf? walk)),
      run.count < 2 ^ 64 := by
    intro run given
    have count := count_le given
    rw [Option.elim_none, List.length_map] at count
    omega
  have expanded : ((encode Leaf.Continues none (visits.map (Visit.leaf? walk))).map
      rangeOf).flatMap PageTableRangeData.expand =
        (encode Leaf.Continues none (visits.map (Visit.leaf? walk))).flatMap
          (Run.expand Leaf.next) := by
    rw [List.flatMap_map]
    exact List.flatMap_congr fun run given => expand_rangeOf (small run given)
  have leaves : visits.filterMap (Visit.leaf? walk) =
      (visits.map (Visit.leaf? walk)).reduceOption := by
    rw [List.reduceOption, List.filterMap_map]
    rfl
  rw [← expanded, ← leaves]
  constructor
  · rintro ⟨ranges, given, same⟩
    cases given
    exact same
  · exact fun same => ⟨_, rfl, same⟩

/-- What makes the reported ranges lossless, by the places of the walk. -/
theorem lossless_iff_visits {walk : WalkFormat} {border : ℕ} {jump : Word64}
    {tables : Word64 → Index → Word64} {mapFunc : Word64 → Word64}
    {roots : List (Bool × Word64)} {lower upper : ℕ} (aligned : 512 ∣ border)
    (tiles : Tiles Visit.start Visit.extent lower (visits walk tables mapFunc roots) upper)
    (bound : upper < 2 ^ 64)
    (supported : ∀ visit ∈ visits walk tables mapFunc roots, ∀ panic,
      visit.found ≠ .unsupported panic)
    (leafAt : ∀ visit ∈ visits walk tables mapFunc roots, ∀ leaf ∈ visit.leaf? walk,
      LeafAt border jump visit leaf) :
    Lossless walk tables mapFunc roots
        ((visits walk tables mapFunc roots).filterMap (Visit.leaf? walk)) ↔
      (∀ visit ∈ visits walk tables mapFunc roots, ∀ leaf ∈ visit.leaf? walk,
        visit.stop ≠ upper) ∧
      ∀ visit ∈ visits walk tables mapFunc roots, ∀ leaf ∈ visit.leaf? walk,
        ∀ later ∈ visits walk tables mapFunc roots, ∀ other ∈ later.leaf? walk,
          visit.stop = border → later.start = border → leaf.Continues other → jump = 0#64 := by
  have short : (visits walk tables mapFunc roots).length < 2 ^ 64 := by
    have length := tiles.length_le Visit.extent_pos
    omega
  rw [lossless_iff_runs supported short]
  generalize visits walk tables mapFunc roots = visits at tiles leafAt
  rw [encode_lossless_iff, List.isChain_map, tiles.isChain_iff Visit.extent_pos, and_comm]
  apply and_congr
  · rw [List.getLast?_map]
    constructor
    · intro noLeaf visit member leaf found stops
      apply noLeaf leaf
      rw [(tiles.getLast?_eq_some_iff Visit.extent_pos).mpr ⟨member, stops⟩, Option.map_some, found]
    · intro noLeaf leaf isLast
      rcases Option.map_eq_some_iff.mp isLast with ⟨visit, last, found⟩
      rcases (tiles.getLast?_eq_some_iff Visit.extent_pos).mp last with ⟨member, stops⟩
      exact noLeaf visit member leaf found stops
  · constructor
    · intro steps visit member leaf found later laterMember other otherFound stops starts continues
      have here := leafAt visit member leaf found
      have there := leafAt later laterMember other otherFound
      have follows : later.start = visit.stop := by omega
      have isNext :=
        steps visit member later laterMember follows leaf found other otherFound continues
      exact (eq_next_iff_of_leafAt aligned here there follows continues).mp isNext stops
    · intro noJump visit member later laterMember follows leaf found other otherFound continues
      have here := leafAt visit member leaf found
      have there := leafAt later laterMember other otherFound
      apply (eq_next_iff_of_leafAt aligned here there follows continues).mpr
      intro stops
      exact noJump visit member leaf found later laterMember other otherFound stops
        (follows.trans stops) continues

end Dvnetos.PageTables
