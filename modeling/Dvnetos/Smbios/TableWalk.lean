import Dvnetos.Smbios.RecordReads
import Dvnetos.Smbios.TableReads

/-!
# Walking a well-formed table

In a table of structures that stand one behind the other the walk meets one after the other, up
to the first one of type 127, or up to the first one of type 0 whose extended ROM size has a unit
that its printer does not know. Only a string without an end stops it before.
-/

namespace Dvnetos.Smbios

variable {memory : Memory} {entry : Structure} {entries : List Structure} {ptr limit fuel : ℕ}

/-- A structure of type 0 with all members, whose extended ROM size has an unknown unit. -/
def Structure.UnknownUnits (entry : Structure) : Prop :=
  entry.type = 0 ∧ entry.formattedArea.length = FirmwareInfo.sizeOf ∧
    128 ≤ (entry.formattedArea.getD 25 0).toNat

instance (entry : Structure) : Decidable entry.UnknownUnits :=
  inferInstanceAs (Decidable (_ ∧ _))

/-- What is in front of the first structure at which the walk ends, and that structure. -/
def upToHalt : List (ℕ × Structure) → List (ℕ × Structure)
  | [] => []
  | (start, entry) :: rest =>
      if entry.type = endOfTable ∨ entry.UnknownUnits then [(start, entry)]
      else (start, entry) :: upToHalt rest

theorem upToHalt_subset (places : List (ℕ × Structure)) : upToHalt places ⊆ places := by
  induction places with
  | nil => exact List.nil_subset _
  | cons place rest ih =>
      rw [upToHalt]
      split_ifs
      · exact List.cons_subset_cons _ (List.nil_subset _)
      · exact List.cons_subset_cons _ ih

theorem upToHalt_eq_upToEnd {places : List (ℕ × Structure)}
    (known : ∀ place ∈ upToEnd places, ¬place.2.UnknownUnits) :
    upToHalt places = upToEnd places := by
  induction places with
  | nil => rfl
  | cons place rest ih =>
      rw [upToEnd] at known
      rw [upToHalt, upToEnd]
      by_cases isEnd : place.2.type = endOfTable
      · rw [if_pos isEnd, if_pos (.inl isEnd)]
      · rw [if_neg isEnd, List.forall_mem_cons] at known
        rw [if_neg isEnd, if_neg (not_or.mpr ⟨isEnd, known.1⟩), ih known.2]

/-- The byte of a structure at an index. -/
theorem holds_getD {address : ℕ} {bytes : List UInt8} (holds : Holds memory address bytes) {i : ℕ}
    (inside : i < bytes.length) : memory (address + i) = bytes.getD i 0 := by
  induction bytes generalizing address i with
  | nil => cases inside
  | cons byte bytes ih =>
      cases i with
      | zero => exact holds.1
      | succ i =>
          have shift : address + (i + 1) = address + 1 + i := by omega
          rw [shift, List.getD_cons_succ]
          exact ih holds.2 (Nat.lt_of_succ_lt_succ inside)

theorem printer_eq_firmwareInfo {type : UInt8} : printer type = .firmwareInfo ↔ type = 0 := by
  constructor
  · intro kind
    by_contra other
    rw [printer] at kind
    split_ifs at kind
  · rintro rfl
    rfl

theorem panics_iff_unknownUnits (holds : Holds memory ptr entry.bytes) :
    Panics memory ptr (printer entry.type) ↔ entry.UnknownUnits := by
  have area := (holds_append.mp holds).1
  rw [Panics, Structure.UnknownUnits, FirmwareInfo.UnknownUnits, valueOf_length holds,
    printer_eq_firmwareInfo]
  refine and_congr_right fun _ => and_congr_right fun whole => ?_
  have last : memory (ptr + 25) = entry.formattedArea.getD 25 0 :=
    holds_getD area (by rw [whole]; decide)
  have low := (memory (ptr + 24)).toNat_lt
  have word : valueOf memory ptr FirmwareInfo.extendedFirmwareRomSize =
      (memory (ptr + 24)).toNat + 256 * ((memory (ptr + 25)).toNat + 256 * 0) := rfl
  rw [← last, word]
  omega

/-- The scan finds the end of a structure, if it ends. -/
theorem smbiosStructLen_unique (holds : Holds memory ptr entry.bytes) {length : ℕ}
    (found : (smbiosStructLen memory fuel ptr).1 = some length) :
    length = entry.bytes.length := by
  have closed := stringSet_closedAt entry.nonempty entry.nulFree (stringSet_holds holds)
  have positive := closed.positive
  have area := strtab_holds holds
  have sum := bytes_length entry
  rw [strtab] at area
  rw [smbiosStructLen_final] at found
  rcases (scanStrings_of_closedAt closed fuel (Nat.le_refl 1) positive).1 with none | some
  · rw [none] at found
    cases found
  · rw [some] at found
    have same : (memory (ptr + 1)).toNat + ((stringSet entry.strings).length - 1) + 1 = length :=
      Option.some.inj found
    omega

/-- A structure that is long enough, with indices that refer to its strings. -/
structure WellFormed (memory : Memory) (ptr : ℕ) (entry : Structure) : Prop where
  long : shortest (printer entry.type) ≤ entry.formattedArea.length
  printable : Printable memory ptr entry (printer entry.type)

/-- A well-formed structure is printed from its own bytes. -/
theorem WellFormed.printsBy (wellFormed : WellFormed memory ptr entry)
    (holds : Holds memory ptr entry.bytes) :
    PrintsBy memory ptr (ptr + entry.bytes.length) := by
  have type : memory ptr = entry.type := holds.1
  have length := bytes_length entry
  have prints := (prints_within_iff holds wellFormed.long).mpr wellFormed.printable
  rw [PrintsBy, type]
  refine prints.mono (fun place within address mem => ?_) (Nat.le_refl _)
  have before : place.offset + place.size ≤ entry.formattedArea.length := within
  have bounds := Field.mem_addresses.mp mem
  omega

/-- How the walk over these structures ends. -/
def outcomeOf (places : List (ℕ × Structure)) : Except Halt Unit :=
  if ∃ place ∈ places, place.2.UnknownUnits then .error .unknownUnits else .ok ()

theorem outcomeOf_cons {place : ℕ × Structure} (known : ¬place.2.UnknownUnits)
    (places : List (ℕ × Structure)) : outcomeOf (place :: places) = outcomeOf places := by
  simp only [outcomeOf, List.exists_mem_cons_iff, known, false_or]

theorem upToHalt_placedAt_cons (start : ℕ) (entry : Structure) (rest : List Structure) :
    ∃ places, upToHalt (placedAt start (entry :: rest)) = (start, entry) :: places := by
  rw [placedAt, upToHalt]
  split_ifs
  · exact ⟨_, rfl⟩
  · exact ⟨_, rfl⟩

/-- A printer whose strings end returns, unless it panics. -/
theorem printEntry_result (holds : Holds memory ptr entry.bytes) {bound : ℕ}
    (prints : PrintsBy memory ptr bound) (enough : bound < fuel) :
    (printEntry memory fuel ptr (printer (memory ptr))).result =
      if entry.UnknownUnits then .error .unknownUnits else .ok () := by
  have type : memory ptr = entry.type := holds.1
  have result := (printed_ends (Nat.le_refl ptr)).result_of
    (show bound - strtab memory ptr < fuel by omega) prints
  simp only [type, panics_iff_unknownUnits holds] at result ⊢
  exact result

/-- With enough fuel the walk from the pointer meets these structures, and ends as they say. -/
def Walks (memory : Memory) (limit ptr : ℕ) (places : List (ℕ × Structure)) : Prop :=
  ∃ enough, ∀ fuel, enough ≤ fuel →
    (dumpLoop memory limit fuel ptr).visited =
        places.map (fun place => (place.1, printer place.2.type)) ∧
      (dumpLoop memory limit fuel ptr).outcome = outcomeOf places

theorem walks_behind (behind : limit ≤ ptr) : Walks memory limit ptr [] := by
  refine ⟨1, fun fuel enough => ?_⟩
  obtain ⟨fuel, rfl⟩ := Nat.exists_eq_add_of_le' enough
  rw [dumpLoop_behind behind]
  exact ⟨rfl, rfl⟩

theorem walks_endOfTable (inside : ptr < limit) (holds : Holds memory ptr entry.bytes)
    (isEnd : entry.type = endOfTable) : Walks memory limit ptr [(ptr, entry)] := by
  have type : memory ptr = entry.type := holds.1
  have known : ¬entry.UnknownUnits := by
    rintro ⟨isFirmware, -⟩
    rw [isFirmware] at isEnd
    cases isEnd
  refine ⟨1, fun fuel enough => ?_⟩
  obtain ⟨fuel, rfl⟩ := Nat.exists_eq_add_of_le' enough
  rw [dumpLoop_endOfTable inside (type.trans isEnd), List.map_singleton, isEnd,
    outcomeOf_cons known]
  exact ⟨rfl, rfl⟩

theorem walks_unknownUnits (inside : ptr < limit) (holds : Holds memory ptr entry.bytes)
    (unknown : entry.UnknownUnits) {bound : ℕ} (prints : PrintsBy memory ptr bound) :
    Walks memory limit ptr [(ptr, entry)] := by
  have type : memory ptr = entry.type := holds.1
  refine ⟨bound + 2, fun fuel enough => ?_⟩
  obtain ⟨fuel, rfl⟩ := Nat.exists_eq_add_of_le' (Nat.one_le_of_lt enough)
  have halted := printEntry_result holds prints (show bound < fuel by omega)
  rw [if_pos unknown] at halted
  rw [dumpLoop_halted inside halted, type, outcomeOf, if_pos (by simp [unknown])]
  exact ⟨rfl, rfl⟩

theorem Walks.cons {places : List (ℕ × Structure)}
    (walks : Walks memory limit (ptr + entry.bytes.length) places) (inside : ptr < limit)
    (holds : Holds memory ptr entry.bytes) (notEnd : entry.type ≠ endOfTable)
    (known : ¬entry.UnknownUnits) {bound : ℕ} (prints : PrintsBy memory ptr bound) :
    Walks memory limit ptr ((ptr, entry) :: places) := by
  have type : memory ptr = entry.type := holds.1
  rcases walks with ⟨enough', walked⟩
  refine ⟨max enough' (max (bound + 1) entry.bytes.length) + 1, fun fuel enough => ?_⟩
  obtain ⟨fuel, rfl⟩ := Nat.exists_eq_add_of_le' (Nat.one_le_of_lt enough)
  have returned := printEntry_result holds prints (show bound < fuel by omega)
  rw [if_neg known] at returned
  have found := smbiosStructLen_holds holds (show entry.bytes.length ≤ fuel by omega)
  rcases walked fuel (by omega) with ⟨visited, outcome⟩
  rw [dumpLoop_next inside (by rwa [type]) returned found, visited, outcome, type,
    outcomeOf_cons known, List.map_cons]
  exact ⟨rfl, rfl⟩

/--
The walk of a table that ends at the limit meets the structures that start in front of it, if the
strings that are printed end.
-/
theorem dumpLoop_walks (holds : Holds memory ptr (tableBytes entries))
    (stop : limit ≤ ptr + (tableBytes entries).length) {places : List (ℕ × Structure)}
    (met : (upToHalt (placedAt ptr entries)).takeWhile (·.1 < limit) = places)
    (ends : ∀ place ∈ places, ∃ bound, PrintsBy memory place.1 bound) :
    Walks memory limit ptr places := by
  subst met
  induction entries generalizing ptr with
  | nil => exact walks_behind stop
  | cons entry rest ih =>
      rw [tableBytes_cons, holds_append] at holds
      rw [tableBytes_cons, List.length_append] at stop
      rcases holds with ⟨here, later⟩
      by_cases inside : ptr < limit
      · by_cases isEnd : entry.type = endOfTable
        · simpa [placedAt, upToHalt, isEnd, inside] using walks_endOfTable inside here isEnd
        · by_cases unknown : entry.UnknownUnits
          · simp only [placedAt, upToHalt, unknown, or_true, if_true, List.takeWhile_cons, inside,
              decide_true, List.takeWhile_nil] at ends ⊢
            rcases ends (ptr, entry) (List.mem_singleton_self _) with ⟨bound, prints⟩
            exact walks_unknownUnits inside here unknown prints
          · simp only [placedAt, upToHalt, isEnd, unknown, or_self, if_false, List.takeWhile_cons,
              inside, decide_true, if_true, List.forall_mem_cons] at ends ⊢
            rcases ends with ⟨⟨bound, prints⟩, others⟩
            exact (ih later (by omega) others).cons inside here isEnd unknown prints
      · rcases upToHalt_placedAt_cons ptr entry rest with ⟨others, first⟩
        simpa [first, inside] using walks_behind (Nat.le_of_not_lt inside)

/-- The strings end that a printer looks up which returns. -/
theorem exists_printsBy (returned :
    (printEntry memory fuel ptr (printer (memory ptr))).result = .ok ()) :
    (∃ bound, PrintsBy memory ptr bound) ∧ ¬Panics memory ptr (printer (memory ptr)) := by
  rcases ((printEntry memory fuel ptr (printer (memory ptr))).events.flatMap
    (Event.addresses ptr)).toFinset.exists_nat_subset_range with ⟨bound, below⟩
  have ends := @printed_ends memory bound ptr fuel 0 (Nat.zero_le _)
  have settled : (printEntry memory fuel ptr (printer (memory ptr))).result ≠
      .error .outOfFuel := by
    rw [returned]
    exact nofun
  have prints : PrintsBy memory ptr bound := ends.of_all (.inr settled) fun event mem address
      read =>
    ⟨Nat.zero_le _, Finset.mem_range.mp
      (below (List.mem_toFinset.mpr (List.mem_flatMap.mpr ⟨event, mem, read⟩)))⟩
  refine ⟨⟨bound, prints⟩, fun panics => ?_⟩
  rcases ends.result prints with panicked | ⟨-, gave⟩
  · rw [if_pos panics, returned] at panicked
    cases panicked
  · exact settled gave

theorem upToEnd_placedAt_cons (start : ℕ) (entry : Structure) (rest : List Structure) :
    ∃ places, upToEnd (placedAt start (entry :: rest)) = (start, entry) :: places := by
  rw [placedAt, upToEnd]
  split_ifs
  · exact ⟨_, rfl⟩
  · exact ⟨_, rfl⟩

/-- If the walk returns, so does the printer of the structure where it starts. -/
theorem printEntry_of_dumpLoop (inside : ptr < limit)
    (outcome : (dumpLoop memory limit (fuel + 1) ptr).outcome = .ok ()) :
    (printEntry memory fuel ptr (printer (memory ptr))).result = .ok () := by
  cases result : (printEntry memory fuel ptr (printer (memory ptr))).result with
  | error halt =>
      rw [dumpLoop_halted inside result] at outcome
      cases outcome
  | ok value => rfl

/-- Of a walk that has met all structures and returned, every printer has returned. -/
theorem printed_of_dumpLoop (holds : Holds memory ptr (tableBytes entries))
    (visited : (dumpLoop memory limit fuel ptr).visited =
      (upToEnd (placedAt ptr entries)).map fun place => (place.1, printer place.2.type))
    (outcome : (dumpLoop memory limit fuel ptr).outcome = .ok ()) :
    ∀ place ∈ upToEnd (placedAt ptr entries), place.1 < limit ∧ ¬place.2.UnknownUnits ∧
      ∃ bound, PrintsBy memory place.1 bound := by
  induction entries generalizing ptr fuel with
  | nil => simp [placedAt, upToEnd]
  | cons entry rest ih =>
      rw [tableBytes_cons, holds_append] at holds
      rcases holds with ⟨here, later⟩
      have type : memory ptr = entry.type := here.1
      cases fuel with
      | zero => cases outcome
      | succ fuel =>
          have inside : ptr < limit := by
            by_contra behind
            rcases upToEnd_placedAt_cons ptr entry rest with ⟨places, first⟩
            rw [dumpLoop_behind (Nat.le_of_not_lt behind), first] at visited
            cases visited
          have printed := printEntry_of_dumpLoop inside outcome
          rcases exists_printsBy printed with ⟨ends, known⟩
          rw [type, panics_iff_unknownUnits here] at known
          rw [placedAt, upToEnd] at visited ⊢
          by_cases isEnd : entry.type = endOfTable
          · rw [if_pos isEnd]
            exact List.forall_mem_singleton.mpr ⟨inside, known, ends⟩
          · rw [if_neg isEnd] at visited ⊢
            refine List.forall_mem_cons.mpr ⟨⟨inside, known, ends⟩, ?_⟩
            have notEnd : memory ptr ≠ endOfTable := by rwa [type]
            cases final : (smbiosStructLen memory fuel ptr).1 with
            | none =>
                rw [dumpLoop_unclosed inside notEnd printed final] at outcome
                cases outcome
            | some length =>
                have same := smbiosStructLen_unique here final
                rw [dumpLoop_next inside notEnd printed final, same] at visited outcome
                exact ih later (List.cons.inj visited).2 outcome

end Dvnetos.Smbios
