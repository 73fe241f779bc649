import Dvnetos.Smbios.PrinterReads
import Dvnetos.Smbios.StringScan

/-!
# Which bytes the table walk reads

Neither a printer nor the scan for the double NUL nor the step to the next structure looks at the
end of the table. The walk stays inside of the table exactly if every structure that it meets is
complete: what its printer reads, its length byte and the double NUL that closes its string set
lie inside of the table. It meets structures up to the one of type 127, of which only the type is
read, or up to the one at which a printer panics.
-/

namespace Dvnetos.Smbios

variable {memory : Memory} {limit ptr fuel : ℕ}

/-- The bytes of a member lie in front of the limit. -/
def Field.EndsBy (this limit : ℕ) (place : Field) : Prop :=
  ∀ address ∈ place.addresses this, address < limit

/-- What the printer of a structure reads lies in front of the limit. -/
def PrintsBy (memory : Memory) (ptr limit : ℕ) : Prop :=
  Prints memory ptr (Field.EndsBy ptr limit) limit (printer (memory ptr))

theorem PrintsBy.mono {longer : ℕ} (prints : PrintsBy memory ptr limit) (le : limit ≤ longer) :
    PrintsBy memory ptr longer :=
  Prints.mono prints (fun _ ends address mem => (ends address mem).trans_le le) le

/-- The structures from `ptr` on are complete inside a table that ends at `limit`. -/
inductive StructuresComplete (memory : Memory) (limit : ℕ) : ℕ → Prop where
  | finished {ptr : ℕ} (behind : limit ≤ ptr) : StructuresComplete memory limit ptr
  | endOfTable {ptr : ℕ} (inside : ptr < limit) (type : memory ptr = endOfTable) :
      StructuresComplete memory limit ptr
  | panics {ptr : ℕ} (inside : ptr < limit) (printed : PrintsBy memory ptr limit)
      (panics : Panics memory ptr (printer (memory ptr))) : StructuresComplete memory limit ptr
  | complete {ptr i : ℕ} (length : ptr + 1 < limit) (type : memory ptr ≠ endOfTable)
      (printed : PrintsBy memory ptr limit)
      (closed : ClosedAt memory (strtab memory ptr) i) (inside : strtab memory ptr + i < limit)
      (next : StructuresComplete memory limit (strtab memory ptr + i + 1)) :
      StructuresComplete memory limit ptr

theorem readsInside_iff {low : ℕ} (lower : low ≤ ptr) (event : Event) :
    ReadsInside (Field.EndsBy ptr limit) low limit event ↔
      ∀ address ∈ event.addresses ptr, low ≤ address ∧ address < limit := by
  cases event with
  | field place =>
      refine ⟨fun inside address mem => ⟨?_, inside address mem⟩,
        fun inside address mem => (inside address mem).2⟩
      have bounds := Field.mem_addresses.mp mem
      omega
  | character address => simp only [ReadsInside, Event.addresses, List.forall_mem_singleton]
  | ksnprintf | bytesToHumanReadable => simp [ReadsInside, Event.addresses]

/-- How the structure at `ptr` is printed in a table that ends at `limit`. -/
theorem printed_ends {low : ℕ} (lower : low ≤ ptr) :
    Traced.Ends .outOfFuel (limit - strtab memory ptr < fuel)
      (fun event => ∀ address ∈ event.addresses ptr, low ≤ address ∧ address < limit)
      (printEntry memory fuel ptr (printer (memory ptr))) (PrintsBy memory ptr limit)
      (if Panics memory ptr (printer (memory ptr)) then .error .unknownUnits else .ok ()) := by
  have ends := @printEntry_ends memory ptr low limit fuel (Field.EndsBy ptr limit)
    (lower.trans (Nat.le_add_right _ _)) (printer (memory ptr))
  have same : ReadsInside (Field.EndsBy ptr limit) low limit = fun event =>
      ∀ address ∈ event.addresses ptr, low ≤ address ∧ address < limit :=
    funext fun event => propext (readsInside_iff lower event)
  rwa [PrinterEnds, same] at ends

theorem forall_mem_printReads {P : ℕ → Prop} :
    (∀ address ∈ printReads memory fuel ptr, P address) ↔
      P ptr ∧ (printEntry memory fuel ptr (printer (memory ptr))).All fun event =>
        ∀ address ∈ event.addresses ptr, P address := by
  simp only [printReads, List.forall_mem_cons, List.mem_flatMap, Traced.All]
  refine and_congr_right fun _ => ⟨?_, ?_⟩
  · intro all event mem address read
    exact all address ⟨event, mem, read⟩
  · rintro all address ⟨event, mem, read⟩
    exact all event mem address read

/-- Behind a structure that the scan has closed. -/
theorem next_ptr (i : ℕ) :
    ptr + ((memory (ptr + 1)).toNat + i + 1) = strtab memory ptr + i + 1 := by
  rw [strtab]
  omega

theorem printReads_inside (inside : ptr < limit) (printed : PrintsBy memory ptr limit) :
    ∀ address ∈ printReads memory fuel ptr, ptr ≤ address ∧ address < limit :=
  forall_mem_printReads.mpr ⟨⟨Nat.le_refl _, inside⟩,
    (printed_ends (Nat.le_refl _)).all_of printed⟩

/-- A printer that panics does not return, also if a string takes too long. -/
theorem printEntry_ne_ok (printed : PrintsBy memory ptr limit)
    (panics : Panics memory ptr (printer (memory ptr))) :
    ∃ halt, (printEntry memory fuel ptr (printer (memory ptr))).result = .error halt := by
  rcases (@printed_ends memory limit ptr fuel ptr (Nat.le_refl _)).result printed with
    panicked | ⟨-, gave⟩
  · rw [if_pos panics] at panicked
    exact ⟨_, panicked⟩
  · exact ⟨_, gave⟩

/-- The scan of a closed string set reads up to its end, and finds it if it comes so far. -/
theorem smbiosStructLen_closed {i : ℕ} (length : ptr + 1 < limit)
    (closed : ClosedAt memory (strtab memory ptr) i) (inside : strtab memory ptr + i < limit) :
    ((smbiosStructLen memory fuel ptr).1 = none ∨
        (smbiosStructLen memory fuel ptr).1 = some ((memory (ptr + 1)).toNat + i + 1)) ∧
      ∀ address ∈ (smbiosStructLen memory fuel ptr).2, ptr ≤ address ∧ address < limit := by
  rcases scanStrings_of_closedAt closed fuel (Nat.le_refl 1) closed.positive with ⟨final, strings⟩
  have lower : ptr ≤ strtab memory ptr := Nat.le_add_right _ _
  constructor
  · rw [smbiosStructLen_final]
    rcases final with unfinished | found
    · exact .inl (by rw [unfinished, Option.map_none])
    · exact .inr (by rw [found, Option.map_some])
  · refine List.forall_mem_cons.mpr ⟨by omega, fun address mem => ?_⟩
    have bounds := strings address mem
    omega

/-- The walk over complete structures reads between its start and the end of the table. -/
theorem StructuresComplete.reads_inside (complete : StructuresComplete memory limit ptr)
    (fuel : ℕ) :
    ∀ address ∈ (dumpLoop memory limit fuel ptr).reads, ptr ≤ address ∧ address < limit := by
  induction complete generalizing fuel with
  | finished behind =>
      cases fuel with
      | zero => simp [dumpLoop]
      | succ fuel => simp [dumpLoop_behind behind]
  | @endOfTable ptr inside type =>
      cases fuel with
      | zero => simp [dumpLoop]
      | succ fuel =>
          rw [dumpLoop_endOfTable inside type]
          exact List.forall_mem_singleton.mpr ⟨Nat.le_refl _, inside⟩
  | @panics ptr inside printed panics =>
      cases fuel with
      | zero => simp [dumpLoop]
      | succ fuel =>
          rcases @printEntry_ne_ok memory limit ptr fuel printed panics with ⟨halt, halted⟩
          rw [dumpLoop_halted inside halted]
          exact printReads_inside inside printed
  | @complete ptr i length type printed closed inside next ih =>
      cases fuel with
      | zero => simp [dumpLoop]
      | succ fuel =>
          have started : ptr < limit := by omega
          have printedInside := @printReads_inside memory limit ptr fuel started printed
          cases result : (printEntry memory fuel ptr (printer (memory ptr))).result with
          | error halt =>
              rw [dumpLoop_halted started result]
              exact printedInside
          | ok value =>
              rcases @smbiosStructLen_closed memory limit ptr fuel i length closed inside with
                ⟨unfinished | found, scanned⟩
              · rw [dumpLoop_unclosed started type result unfinished]
                exact List.forall_mem_append.mpr ⟨printedInside, scanned⟩
              · rw [dumpLoop_next started type result found, next_ptr]
                refine List.forall_mem_append.mpr ⟨List.forall_mem_append.mpr
                  ⟨printedInside, scanned⟩, fun address mem => ?_⟩
                have lower : ptr ≤ strtab memory ptr := Nat.le_add_right _ _
                have bounds := ih fuel address mem
                omega

theorem printReads_subset (inside : ptr < limit) (type : memory ptr ≠ endOfTable) :
    printReads memory fuel ptr ⊆ (dumpLoop memory limit (fuel + 1) ptr).reads := by
  cases result : (printEntry memory fuel ptr (printer (memory ptr))).result with
  | error halt =>
      rw [dumpLoop_halted inside result]
      exact List.Subset.refl _
  | ok value =>
      cases final : (smbiosStructLen memory fuel ptr).1 with
      | none =>
          rw [dumpLoop_unclosed inside type result final]
          exact List.subset_append_left _ _
      | some length =>
          rw [dumpLoop_next inside type result final]
          exact List.Subset.trans (List.subset_append_left _ _) (List.subset_append_left _ _)

theorem scanned_subset (inside : ptr < limit) (type : memory ptr ≠ endOfTable)
    (printed : (printEntry memory fuel ptr (printer (memory ptr))).result = .ok ()) :
    (smbiosStructLen memory fuel ptr).2 ⊆ (dumpLoop memory limit (fuel + 1) ptr).reads := by
  cases final : (smbiosStructLen memory fuel ptr).1 with
  | none =>
      rw [dumpLoop_unclosed inside type printed final]
      exact List.subset_append_right _ _
  | some length =>
      rw [dumpLoop_next inside type printed final]
      exact List.Subset.trans (List.subset_append_right _ _) (List.subset_append_left _ _)

/-- A scan with enough fuel to leave the table finds a double NUL, or reads behind the table. -/
theorem closedAt_of_reads {strtab : ℕ} (enough : limit < fuel)
    (inside : ∀ address ∈ (scanStrings memory strtab fuel 1).2, address < limit) :
    ∃ i, ClosedAt memory strtab i ∧ strtab + i < limit ∧
      (scanStrings memory strtab fuel 1).1 = some i := by
  have closed : ∃ i, 1 ≤ i ∧ i ≤ fuel ∧ DoubleNul memory strtab i := by
    by_contra unclosed
    obtain ⟨steps, rfl⟩ : ∃ steps, fuel = steps + 1 := ⟨fuel - 1, by omega⟩
    have behind := inside _ (scanStrings_reads_on steps fun i positive before closed =>
      unclosed ⟨i, positive, by omega, closed⟩)
    omega
  have := Classical.decPred fun i => 1 ≤ i ∧ i ≤ fuel ∧ DoubleNul memory strtab i
  rcases Nat.find_spec closed with ⟨positive, early, doubleNul⟩
  have first : ClosedAt memory strtab (Nat.find closed) :=
    ⟨positive, doubleNul, fun k positive before isDouble =>
      Nat.find_min closed before ⟨positive, by omega, isDouble⟩⟩
  rcases scanStrings_finds first fuel (Nat.le_refl 1) positive (by omega) with ⟨found, mem⟩
  exact ⟨_, first, inside _ mem, found⟩

/-- A walk that does not read behind the table meets complete structures only. -/
theorem structuresComplete_of_reads {low : ℕ} (lower : low ≤ ptr)
    (enough : limit + (limit - ptr) < fuel)
    (inside : ∀ address ∈ (dumpLoop memory limit fuel ptr).reads, low ≤ address ∧ address < limit) :
    StructuresComplete memory limit ptr := by
  -- every structure is at least two bytes long, so the part of the table behind it shrinks
  induction fuel generalizing ptr with
  | zero => exact absurd enough (Nat.not_lt_zero _)
  | succ fuel ih =>
      by_cases started : ptr < limit
      · by_cases type : memory ptr = endOfTable
        · exact .endOfTable started type
        · have ends := @printed_ends memory limit ptr fuel low lower
          have few : limit - strtab memory ptr < fuel := by omega
          have printed : PrintsBy memory ptr limit :=
            ends.of_all (.inl few) (forall_mem_printReads.mp fun address mem =>
              inside address (printReads_subset started type mem)).2
          have result := ends.result_of few printed
          by_cases panics : Panics memory ptr (printer (memory ptr))
          · exact .panics started printed panics
          · rw [if_neg panics] at result
            have scanned : ∀ address ∈ (smbiosStructLen memory fuel ptr).2, address < limit :=
              fun address mem => (inside address (scanned_subset started type result mem)).2
            rw [smbiosStructLen, List.forall_mem_cons] at scanned
            rcases closedAt_of_reads (by omega) scanned.2 with ⟨i, closed, before, found⟩
            refine .complete scanned.1 type printed closed before ?_
            rw [dumpLoop_next started type result (by rw [smbiosStructLen_final, found]; rfl),
              next_ptr] at inside
            have later : ptr ≤ strtab memory ptr := Nat.le_add_right _ _
            exact ih (by omega) (by omega) fun address mem =>
              inside address (List.mem_append_right _ mem)
      · exact .finished (Nat.le_of_not_lt started)

/-- A header of type 2 and length 4, and no string set behind it in the table. -/
def truncatedTable : Memory := fun address => [2, 4, 0, 0].getD address 0xff

end Dvnetos.Smbios
