import Dvnetos.Smbios.Dump
import Mathlib.Data.Nat.Count

/-!
# Looking up strings

`getString` counts NULs, and `%s` reads up to the next one. Whatever is in memory, a string is
looked up and printed without reading behind a limit exactly if there are enough NULs in front
of it.
-/

namespace Dvnetos.Smbios

variable {memory : Memory} {ptr low limit fuel : ℕ} {inside : Field → Prop}

/-- The NULs from an address on in front of another one. -/
def nuls (memory : Memory) (start limit : ℕ) : ℕ :=
  Nat.count (fun i => memory (start + i) = 0) (limit - start)

theorem nuls_of_le (behind : limit ≤ ptr) : nuls memory ptr limit = 0 := by
  rw [nuls, Nat.sub_eq_zero_of_le behind, Nat.count_zero]

theorem nuls_of_lt (before : ptr < limit) :
    nuls memory ptr limit = nuls memory (ptr + 1) limit + if memory ptr = 0 then 1 else 0 := by
  obtain ⟨rest, length⟩ : ∃ rest, limit - ptr = rest + 1 := ⟨limit - ptr - 1, by omega⟩
  have behind : limit - (ptr + 1) = rest := by omega
  have shift : (fun i => memory (ptr + (i + 1)) = 0) = fun i => memory (ptr + 1 + i) = 0 := by
    funext i
    rw [Nat.add_comm i, Nat.add_assoc]
  simp only [nuls, length, behind, Nat.count_succ', shift, Nat.add_zero]

/-- The first NUL from an address on, or the limit. -/
def stringEnd (memory : Memory) (limit address : ℕ) : ℕ :=
  if address < limit ∧ memory address ≠ 0 then stringEnd memory limit (address + 1) else address
termination_by limit - address

theorem stringEnd_of_lt {address : ℕ} (before : address < limit) :
    stringEnd memory limit address =
      if memory address = 0 then address else stringEnd memory limit (address + 1) := by
  rw [stringEnd]
  simp only [before, true_and, ne_eq, ite_not]

theorem stringEnd_of_le {address : ℕ} (behind : limit ≤ address) :
    stringEnd memory limit address = address := by
  rw [stringEnd, if_neg fun goesOn => absurd goesOn.1 (Nat.not_lt.mpr behind)]

theorem le_stringEnd (address : ℕ) : address ≤ stringEnd memory limit address := by
  induction remaining : limit - address generalizing address with
  | zero => exact (stringEnd_of_le (Nat.sub_eq_zero_iff_le.mp remaining)).ge
  | succ remaining' ih =>
      rw [stringEnd_of_lt (by omega)]
      split_ifs
      · exact Nat.le_refl _
      · exact (Nat.le_succ _).trans (ih (address + 1) (by omega))

theorem nuls_stringEnd (address : ℕ) :
    nuls memory (stringEnd memory limit address + 1) limit = nuls memory address limit - 1 := by
  induction remaining : limit - address generalizing address with
  | zero =>
      have behind : limit ≤ address := Nat.sub_eq_zero_iff_le.mp remaining
      rw [stringEnd_of_le behind, nuls_of_le behind, nuls_of_le (behind.trans (Nat.le_succ _))]
  | succ remaining' ih =>
      have before : address < limit := by omega
      rw [stringEnd_of_lt before, nuls_of_lt before]
      split_ifs
      · rw [Nat.add_sub_cancel]
      · exact ih (address + 1) (by omega)

/-- Where `count` strings end that start at the address. -/
def stringAfter (memory : Memory) (limit : ℕ) : ℕ → ℕ → ℕ
  | 0, address => address
  | count + 1, address => stringAfter memory limit count (stringEnd memory limit address + 1)

theorem le_stringAfter (count address : ℕ) : address ≤ stringAfter memory limit count address := by
  induction count generalizing address with
  | zero => exact Nat.le_refl _
  | succ count ih =>
      exact (le_stringEnd address).trans ((Nat.le_succ _).trans (ih _))

theorem nuls_stringAfter (count address : ℕ) :
    nuls memory (stringAfter memory limit count address) limit =
      nuls memory address limit - count := by
  induction count generalizing address with
  | zero => rfl
  | succ count ih =>
      rw [stringAfter, ih, nuls_stringEnd]
      omega

/-- Fields are read for which it is allowed, and characters from `low` on in front of `limit`. -/
def ReadsInside (inside : Field → Prop) (low limit : ℕ) : Event → Prop
  | .field place => inside place
  | .character address => low ≤ address ∧ address < limit
  | .ksnprintf _ _ | .bytesToHumanReadable _ => True

/-- How a printer ends that has fuel for every character from the string set on. -/
abbrev PrinterEnds (memory : Memory) (ptr : ℕ) (inside : Field → Prop) (low limit fuel : ℕ)
    {α : Type} (x : Printing α) (condition : Prop) (outcome : Except Halt α) : Prop :=
  Traced.Ends .outOfFuel (limit - strtab memory ptr < fuel) (ReadsInside inside low limit) x
    condition outcome

theorem member_ends (place : Field) :
    PrinterEnds memory ptr inside low limit fuel (member memory ptr place) (inside place)
      (.ok (valueOf memory ptr place)) :=
  Traced.Ends.congr (Traced.Ends.bind (Traced.Ends.record _) (Traced.Ends.pure _))
    (and_iff_left trivial)

theorem valueOf_byte {place : Field} (byte : place.size = 1) :
    valueOf memory ptr place = (memory (ptr + place.offset)).toNat := by
  rw [valueOf, byte]
  rfl

theorem strtab_eq : strtab memory ptr = ptr + valueOf memory ptr TableHeader.length := by
  rw [valueOf_byte rfl]
  rfl

theorem result_member_byte {place : Field} (byte : place.size = 1) :
    (member memory ptr place).result = .ok (memory (ptr + place.offset)).toNat := by
  exact congrArg Except.ok (valueOf_byte byte)

/-- The result of a loop, of which there is none without enough fuel. -/
def orOutOfFuel {α : Type} : Option α → Except Halt α
  | none => .error .outOfFuel
  | some value => .ok value

theorem readString_result (address : ℕ) :
    (readString memory fuel address).result = orOutOfFuel (skipString memory fuel address) := by
  induction fuel generalizing address with
  | zero => rfl
  | succ fuel ih =>
      have here : (Traced.record (.character address) : Printing Unit).result = .ok () := rfl
      rw [readString, skipString, Traced.result_bind here]
      split_ifs
      · exact ih (address + 1)
      · rfl

theorem readStrings_result (count address : ℕ) :
    (readStrings memory fuel count address).result =
      orOutOfFuel (skipStrings memory fuel count address) := by
  induction count generalizing address with
  | zero => rfl
  | succ count ih =>
      have first := @readString_result memory fuel address
      rw [readStrings, skipStrings]
      cases skipped : skipString memory fuel address with
      | none =>
          rw [skipped] at first
          exact Traced.result_bind_error first _
      | some nul =>
          rw [skipped] at first
          rw [Traced.result_bind first]
          exact ih (nul + 1)

theorem stringOf_result {index : Field} (byte : index.size = 1) :
    (stringOf memory fuel ptr index).result =
      orOutOfFuel (getString memory fuel ptr (memory (ptr + index.offset))) := by
  have isZero : (memory (ptr + index.offset)).toNat = 0 ↔ memory (ptr + index.offset) = 0 :=
    UInt8.toNat_inj (b := 0)
  rw [stringOf, Traced.result_bind (result_member_byte byte), getString]
  simp only [isZero]
  split_ifs
  · rfl
  · have length := @result_member_byte memory ptr TableHeader.length rfl
    have walk := @readStrings_result memory fuel
      ((memory (ptr + index.offset)).toNat - 1) (strtab memory ptr)
    rw [Traced.result_bind length]
    cases skipped : skipStrings memory fuel ((memory (ptr + index.offset)).toNat - 1)
        (strtab memory ptr) with
    | none =>
        rw [skipped] at walk
        exact Traced.result_bind_error walk _
    | some pointer =>
        rw [skipped] at walk
        exact Traced.result_bind walk _

theorem readString_ends {address : ℕ} (lower : low ≤ address) :
    Traced.Ends .outOfFuel (limit - address < fuel) (ReadsInside inside low limit)
      (readString memory fuel address) (1 ≤ nuls memory address limit)
      (.ok (stringEnd memory limit address)) := by
  induction fuel generalizing address with
  | zero => exact .giveUp (Nat.not_lt_zero _) _ _
  | succ fuel ih =>
      have first := @Traced.Ends.record _ _ (ReadsInside inside low limit) Halt.outOfFuel
        (limit - address < fuel + 1) (.character address)
      by_cases before : address < limit
      · have here : ReadsInside inside low limit (.character address) := ⟨lower, before⟩
        rw [nuls_of_lt before, stringEnd_of_lt before]
        by_cases zero : memory address = 0
        · have closed := @Traced.Ends.pure _ _ _ (ReadsInside inside low limit) Halt.outOfFuel
            (limit - address < fuel + 1) address
          rw [if_pos zero, if_pos zero]
          refine (first.bind ?_).congr (iff_of_true ⟨here, trivial⟩ (Nat.le_add_left _ _))
          rwa [if_neg (not_not.mpr zero)]
        · have later := (@ih (address + 1) (by omega)).of_enough
            (show limit - address < fuel + 1 → limit - (address + 1) < fuel by omega)
          rw [if_neg zero, if_neg zero, Nat.add_zero]
          refine (first.bind ?_).congr (and_iff_right here)
          rwa [if_pos zero]
      · have behind : ¬ReadsInside inside low limit (.character address) :=
          fun allowed => before allowed.2
        rw [nuls_of_le (Nat.le_of_not_lt before)]
        exact (first.blocked behind _ _).congr (iff_of_false not_false (Nat.not_succ_le_zero 0))

section Strings

variable (lower : low ≤ strtab memory ptr)

include lower

theorem readStrings_ends (count : ℕ) {address : ℕ} (start : strtab memory ptr ≤ address) :
    PrinterEnds memory ptr inside low limit fuel (readStrings memory fuel count address)
      (count ≤ nuls memory address limit) (.ok (stringAfter memory limit count address)) := by
  induction count generalizing address with
  | zero => exact (Traced.Ends.pure _).congr (iff_of_true trivial (Nat.zero_le _))
  | succ count ih =>
      have first := (@readString_ends memory low limit fuel inside address
        (lower.trans start)).of_enough
          (show limit - strtab memory ptr < fuel → limit - address < fuel by omega)
      have next : strtab memory ptr ≤ stringEnd memory limit address + 1 :=
        start.trans ((le_stringEnd address).trans (Nat.le_succ _))
      have later := @ih (stringEnd memory limit address + 1) next
      refine Traced.Ends.congr (first.bind later) ?_
      rw [nuls_stringEnd]
      omega

/-- What `getString` returns for an index, if the strings end in front of the limit. -/
def pointerOf (memory : Memory) (ptr limit index : ℕ) : Option ℕ :=
  if index = 0 then none
  else some (stringAfter memory limit (index - 1) (strtab memory ptr))

/-- What `getString` reads. -/
def LooksUp (memory : Memory) (ptr : ℕ) (inside : Field → Prop) (limit : ℕ) (index : Field) :
    Prop :=
  inside index ∧
    (valueOf memory ptr index ≠ 0 → inside TableHeader.length ∧
      valueOf memory ptr index ≤ nuls memory (strtab memory ptr) limit + 1)

theorem stringOf_ends (index : Field) :
    PrinterEnds memory ptr inside low limit fuel (stringOf memory fuel ptr index)
      (LooksUp memory ptr inside limit index)
      (.ok (pointerOf memory ptr limit (valueOf memory ptr index))) := by
  refine (member_ends index).bind ?_
  by_cases zero : valueOf memory ptr index = 0
  · rw [if_pos zero, pointerOf, if_pos zero]
    exact (Traced.Ends.pure none).congr (iff_of_true trivial fun isIndex => absurd zero isIndex)
  · have walk := @readStrings_ends memory ptr low limit fuel inside lower
      (valueOf memory ptr index - 1) (strtab memory ptr) (Nat.le_refl _)
    have start : readStrings memory fuel (valueOf memory ptr index - 1) (strtab memory ptr) =
        readStrings memory fuel (valueOf memory ptr index - 1)
          (ptr + valueOf memory ptr TableHeader.length) := by rw [← strtab_eq]
    rw [start] at walk
    rw [if_neg zero, pointerOf, if_neg zero]
    refine Traced.Ends.congr ((member_ends TableHeader.length).bind (walk.bind (.pure _))) ?_
    simp only [ne_eq, zero, not_false_eq_true, true_implies, and_true]
    exact and_congr_right fun _ => by omega

/-- A string among the arguments starts behind the formatted area. -/
def StartsBehind (memory : Memory) (ptr : ℕ) : PrintArg → Prop
  | .string (some pointer) => strtab memory ptr ≤ pointer
  | _ => True

/-- A string among the arguments ends in front of the limit. -/
def ArgEnds (memory : Memory) (limit : ℕ) : PrintArg → Prop
  | .string (some pointer) => 1 ≤ nuls memory pointer limit
  | _ => True

omit lower in
theorem startsBehind_pointerOf (index : ℕ) :
    StartsBehind memory ptr (.string (pointerOf memory ptr limit index)) := by
  rw [pointerOf]
  split_ifs
  · trivial
  · exact le_stringAfter _ _

omit lower in
theorem argEnds_pointerOf_iff (index : ℕ) :
    ArgEnds memory limit (.string (pointerOf memory ptr limit index)) ↔
      index ≤ nuls memory (strtab memory ptr) limit := by
  rw [pointerOf]
  split_ifs with zero
  · exact iff_of_true trivial (by omega)
  · simp only [ArgEnds, nuls_stringAfter]
    omega

omit lower in
theorem startsBehind_byteCount (bytes : ℕ) : StartsBehind memory ptr (.byteCount bytes) := trivial

omit lower in
theorem argEnds_byteCount (bytes : ℕ) : ArgEnds memory limit (.byteCount bytes) := trivial

theorem readArg_ends {arg : PrintArg} (start : StartsBehind memory ptr arg) :
    PrinterEnds memory ptr inside low limit fuel (readArg memory fuel arg)
      (ArgEnds memory limit arg) (.ok ()) := by
  cases arg with
  | string pointer =>
      cases pointer with
      | none => exact .pure ()
      | some pointer =>
          have walk := (@readString_ends memory low limit fuel inside pointer
            (lower.trans start)).of_enough (show limit - strtab memory ptr < fuel →
              limit - pointer < fuel from fun enough => by
                have behind : strtab memory ptr ≤ pointer := start
                omega)
          exact Traced.Ends.congr (walk.bind (.pure ())) (and_iff_left trivial)
  | _ => exact .pure ()

theorem ksnprintf_ends (format : String) {args : List PrintArg}
    (start : ∀ arg ∈ args, StartsBehind memory ptr arg) :
    PrinterEnds memory ptr inside low limit fuel (ksnprintf memory fuel format args)
      (∀ arg ∈ args, ArgEnds memory limit arg) (.ok ()) :=
  Traced.Ends.congr
    (Traced.Ends.bind (.record _)
      (.forEach fun arg mem => readArg_ends lower (start arg mem)))
    (and_iff_right trivial)

/-- A call that prints no string of the table. -/
theorem ksnprintf_plain (format : String) {args : List PrintArg}
    (plain : ∀ arg ∈ args, ∀ pointer, arg ≠ .string pointer) :
    PrinterEnds memory ptr inside low limit fuel (ksnprintf memory fuel format args) True
      (.ok ()) := by
  have noString : ∀ arg ∈ args, StartsBehind memory ptr arg ∧ ArgEnds memory limit arg := by
    intro arg mem
    cases arg with
    | string pointer => exact absurd rfl (plain _ mem pointer)
    | _ => exact ⟨trivial, trivial⟩
  exact (ksnprintf_ends lower format fun arg mem => (noString arg mem).1).congr
    (iff_true_intro fun arg mem => (noString arg mem).2)

/-- A field is read that is in front of the field of which the offset is checked. -/
def InsideIfReached (memory : Memory) (ptr : ℕ) (inside : Field → Prop) (next value : Field) :
    Prop :=
  next.offset ≤ valueOf memory ptr TableHeader.length → inside value

theorem printIfReaches_ends (next value : Field) (format : String) {arg : ℕ → PrintArg}
    (plain : ∀ number pointer, arg number ≠ .string pointer) :
    PrinterEnds memory ptr inside low limit fuel
      (printIfReaches memory fuel ptr next value format arg)
      (inside TableHeader.length ∧ InsideIfReached memory ptr inside next value)
      (.ok ()) := by
  refine (member_ends TableHeader.length).bind (Traced.Ends.when ?_)
  refine Traced.Ends.congr ((member_ends value).bind ?_) (and_iff_left trivial)
  exact ksnprintf_plain lower format (List.forall_mem_singleton.mpr (plain _))

/-- A string is looked up and printed. -/
def Named (memory : Memory) (ptr : ℕ) (inside : Field → Prop) (limit : ℕ) (index : Field) : Prop :=
  inside index ∧
    (valueOf memory ptr index ≠ 0 → inside TableHeader.length) ∧
    valueOf memory ptr index ≤ nuls memory (strtab memory ptr) limit

omit lower in
theorem named_iff {index : Field} :
    Named memory ptr inside limit index ↔ LooksUp memory ptr inside limit index ∧
      valueOf memory ptr index ≤ nuls memory (strtab memory ptr) limit := by
  rw [Named, LooksUp, and_assoc]
  refine and_congr_right fun _ => and_congr_left fun fits => ?_
  exact forall_congr' fun _ => (and_iff_left (fits.trans (Nat.le_succ _))).symm

end Strings

end Dvnetos.Smbios
