import Dvnetos.Smbios.StringScan
import Mathlib.Data.List.TakeWhile

/-!
# The structure table as a format

A structure is a type, the other bytes of its formatted area and its strings. This file says how
structures are laid out one behind the other, and proves that `smbiosStructLen` finds where a
structure ends, and `getString` its strings.
-/

namespace Dvnetos.Smbios

/-- The bytes stand one behind the other from the address on. -/
def Holds (memory : Memory) : ℕ → List UInt8 → Prop
  | _, [] => True
  | address, byte :: rest => memory address = byte ∧ Holds memory (address + 1) rest

instance holdsDecidable (memory : Memory) :
    (address : ℕ) → (bytes : List UInt8) → Decidable (Holds memory address bytes)
  | _, [] => .isTrue trivial
  | address, _ :: rest =>
      have := holdsDecidable memory (address + 1) rest
      inferInstanceAs (Decidable (_ ∧ _))

/-- A structure of the table. -/
structure Structure where
  type : UInt8
  /-- The formatted area behind the type and the length byte. -/
  body : List UInt8
  strings : List (List UInt8)
  formatted : 4 ≤ body.length + 2 ∧ body.length + 2 ≤ 255
  countFits : strings.length ≤ 255
  nonempty : ∀ string ∈ strings, string ≠ []
  nulFree : ∀ string ∈ strings, 0 ∉ string

/-- The strings, each of them with its NUL. -/
def stringBytes (strings : List (List UInt8)) : List UInt8 := strings.flatMap (· ++ [0])

/-- The strings of a structure, each with a NUL behind it, and the last NUL. -/
def stringSet (strings : List (List UInt8)) : List UInt8 :=
  if strings.isEmpty then [0, 0] else stringBytes strings ++ [0]

/-- The type, the length and the body of a structure. -/
def Structure.formattedArea (entry : Structure) : List UInt8 :=
  entry.type :: UInt8.ofNat (entry.body.length + 2) :: entry.body

/-- A structure as it stands in the table. -/
def Structure.bytes (entry : Structure) : List UInt8 :=
  entry.formattedArea ++ stringSet entry.strings

/-- The structures one behind the other. -/
def tableBytes (entries : List Structure) : List UInt8 := entries.flatMap Structure.bytes

/-- The structures with their addresses, if the first one is at `start`. -/
def placedAt : ℕ → List Structure → List (ℕ × Structure)
  | _, [] => []
  | start, entry :: rest => (start, entry) :: placedAt (start + entry.bytes.length) rest

/-- What is in front of the first structure of type 127, and that structure. -/
def upToEnd : List (ℕ × Structure) → List (ℕ × Structure)
  | [] => []
  | (start, entry) :: rest =>
      if entry.type = endOfTable then [(start, entry)] else (start, entry) :: upToEnd rest

section

variable {memory : Memory}

theorem holds_append {address : ℕ} {front back : List UInt8} :
    Holds memory address (front ++ back) ↔
      Holds memory address front ∧ Holds memory (address + front.length) back := by
  induction front generalizing address with
  | nil => simp [Holds]
  | cons byte front ih =>
      simp only [List.cons_append, Holds, ih, List.length_cons, and_assoc]
      rw [Nat.add_assoc, Nat.add_comm 1]

theorem stringBytes_cons (string : List UInt8) (rest : List (List UInt8)) :
    stringBytes (string :: rest) = string ++ 0 :: stringBytes rest := by
  simp [stringBytes]

theorem stringBytes_length_cons (string : List UInt8) (rest : List (List UInt8)) :
    (stringBytes (string :: rest)).length = string.length + 1 + (stringBytes rest).length := by
  rw [stringBytes_cons, List.length_append, List.length_cons]
  omega

/-- A string with its NUL between the strings in front of it and those behind it. -/
theorem stringBytes_split {strings : List (List UInt8)} {k : ℕ} (inside : k < strings.length) :
    stringBytes strings = stringBytes (strings.take k) ++
      ((strings[k] ++ [0]) ++ stringBytes (strings.drop (k + 1))) := by
  calc stringBytes strings
      = stringBytes (strings.take k ++ strings.drop k) := by rw [List.take_append_drop]
    _ = stringBytes (strings.take k) ++
          stringBytes (strings[k] :: strings.drop (k + 1)) := by
        rw [List.getElem_cons_drop, stringBytes, List.flatMap_append]
        rfl
    _ = _ := by rw [stringBytes_cons, List.append_cons]

theorem skipString_holds {string : List UInt8} {address fuel : ℕ} (nulFree : 0 ∉ string)
    (holds : Holds memory address string) (closed : memory (address + string.length) = 0)
    (enough : string.length < fuel) :
    skipString memory fuel address = some (address + string.length) := by
  induction string generalizing address fuel with
  | nil =>
      cases fuel with
      | zero => omega
      | succ fuel =>
          rw [List.length_nil, Nat.add_zero] at closed ⊢
          rw [skipString, if_neg (not_not.mpr closed), Nat.add_zero]
  | cons byte string ih =>
      cases fuel with
      | zero => omega
      | succ fuel =>
          simp only [List.mem_cons, not_or] at nulFree
          simp only [List.length_cons] at closed enough ⊢
          have here : memory address ≠ 0 := by
            rw [holds.1]
            exact fun zero => nulFree.1 zero.symm
          rw [skipString, if_pos here, ih nulFree.2 holds.2 _ (by omega)]
          · congr 1
            omega
          · rw [← closed]
            congr 1
            omega

/-- The loop of `getString` skips as many strings as it has iterations. -/
theorem skipStrings_holds {strings : List (List UInt8)} {address fuel count : ℕ}
    (nulFree : ∀ string ∈ strings, 0 ∉ string) (holds : Holds memory address (stringBytes strings))
    (inside : count ≤ strings.length) (enough : (stringBytes strings).length ≤ fuel) :
    skipStrings memory fuel count address =
      some (address + (stringBytes (strings.take count)).length) := by
  induction count generalizing strings address with
  | zero => rfl
  | succ count ih =>
      cases strings with
      | nil => simp at inside
      | cons string rest =>
          rw [stringBytes_cons, holds_append] at holds
          rw [stringBytes_length_cons] at enough
          rcases holds with ⟨here, closed, later⟩
          have skipped := skipString_holds (nulFree string (List.mem_cons_self ..)) here closed
            (show string.length < fuel by omega)
          simp only [List.length_cons, Nat.add_le_add_iff_right] at inside
          simp only [skipStrings, skipped]
          rw [ih (fun other otherMem => nulFree other (List.mem_cons_of_mem string otherMem)) later
            inside (by omega)]
          rw [List.take_succ_cons, stringBytes_length_cons]
          congr 1
          omega

theorem holds_ne_zero {string : List UInt8} {address i : ℕ} (nulFree : 0 ∉ string)
    (holds : Holds memory address string) (inside : i < string.length) :
    memory (address + i) ≠ 0 := by
  induction string generalizing address i with
  | nil => cases inside
  | cons byte string ih =>
      simp only [List.mem_cons, not_or] at nulFree
      cases i with
      | zero =>
          rw [Nat.add_zero, holds.1]
          exact fun zero => nulFree.1 zero.symm
      | succ i =>
          rw [Nat.add_comm i, ← Nat.add_assoc]
          exact ih nulFree.2 holds.2 (Nat.lt_of_succ_lt_succ inside)

/-- Strings that are neither empty nor contain a NUL have no double NUL among them. -/
theorem no_doubleNul {strings : List (List UInt8)} {address i : ℕ}
    (nonempty : ∀ string ∈ strings, string ≠ []) (nulFree : ∀ string ∈ strings, 0 ∉ string)
    (holds : Holds memory address (stringBytes strings)) (positive : 1 ≤ i)
    (inside : i < (stringBytes strings).length) : ¬DoubleNul memory address i := by
  induction strings generalizing address i with
  | nil => simp [stringBytes] at inside
  | cons string rest ih =>
      rw [stringBytes_cons, holds_append] at holds
      rw [stringBytes_length_cons] at inside
      rcases holds with ⟨here, closed, later⟩
      have nonemptyRest := fun other otherMem =>
        nonempty other (List.mem_cons_of_mem string otherMem)
      have nulFreeRest := fun other otherMem => nulFree other (List.mem_cons_of_mem string otherMem)
      have noNul := nulFree string (List.mem_cons_self ..)
      rintro ⟨first, second⟩
      by_cases inString : i ≤ string.length
      · -- the first of the two bytes is in the string
        rw [Nat.add_sub_assoc positive] at first
        exact holds_ne_zero noNul here (by omega) first
      · by_cases atNul : i = string.length + 1
        · -- the second one starts the next string
          cases rest with
          | nil =>
              simp only [stringBytes, List.flatMap_nil, List.length_nil] at inside
              omega
          | cons next others =>
              rw [stringBytes_cons, holds_append] at later
              have length := List.length_pos_of_ne_nil (nonemptyRest next (List.mem_cons_self ..))
              have start := holds_ne_zero (nulFreeRest next (List.mem_cons_self ..)) later.1 length
              apply start
              rw [← second, atNul, Nat.add_zero, Nat.add_assoc]
        · refine ih nonemptyRest nulFreeRest later (i := i - (string.length + 1)) (by omega)
            (by omega) ⟨?_, ?_⟩
          · rw [← first]
            congr 1
            omega
          · rw [← second]
            congr 1
            omega

theorem stringBytes_ends {strings : List (List UInt8)} (nonempty : strings ≠ []) :
    ∃ front, stringBytes strings = front ++ [0] := by
  rcases List.eq_nil_or_concat strings with rfl | ⟨others, last, rfl⟩
  · exact absurd rfl nonempty
  · exact ⟨stringBytes others ++ last, by simp [stringBytes]⟩

/-- The string set ends at its first double NUL. -/
theorem stringSet_closedAt {strings : List (List UInt8)} {address : ℕ}
    (nonempty : ∀ string ∈ strings, string ≠ []) (nulFree : ∀ string ∈ strings, 0 ∉ string)
    (holds : Holds memory address (stringSet strings)) :
    ClosedAt memory address ((stringSet strings).length - 1) := by
  cases strings with
  | nil =>
      rcases holds with ⟨first, second, -⟩
      refine ⟨Nat.le_refl 1, ⟨first, second⟩, ?_⟩
      intro i positive below
      exact absurd below (Nat.not_lt.mpr positive)
  | cons string rest =>
      rw [stringSet, if_neg (by simp)] at holds ⊢
      rw [holds_append] at holds
      rcases holds with ⟨bytes, last, -⟩
      have length := stringBytes_length_cons string rest
      rw [List.length_append, List.length_singleton, Nat.add_sub_cancel]
      refine ⟨by omega, ⟨?_, last⟩, ?_⟩
      · rcases stringBytes_ends (List.cons_ne_nil string rest) with ⟨front, ends⟩
        rw [ends, holds_append] at bytes
        rw [ends, List.length_append, List.length_singleton]
        exact bytes.2.1
      · intro i positive below
        exact no_doubleNul nonempty nulFree bytes positive below

section Walk

variable {entry : Structure} {ptr fuel : ℕ}

theorem strtab_holds (holds : Holds memory ptr entry.bytes) :
    strtab memory ptr = ptr + entry.formattedArea.length := by
  have length : memory (ptr + 1) = UInt8.ofNat (entry.body.length + 2) := holds.2.1
  have fits : entry.body.length + 2 < 256 := by
    have := entry.formatted.2
    omega
  rw [strtab, length, UInt8.toNat_ofNat', Nat.mod_eq_of_lt fits, Structure.formattedArea]
  rfl

theorem stringSet_holds (holds : Holds memory ptr entry.bytes) :
    Holds memory (strtab memory ptr) (stringSet entry.strings) := by
  rw [strtab_holds holds]
  exact (holds_append.mp holds).2

theorem bytes_length (entry : Structure) :
    entry.bytes.length = entry.formattedArea.length + (stringSet entry.strings).length :=
  List.length_append

theorem stringSet_length (strings : List (List UInt8)) : 2 ≤ (stringSet strings).length := by
  cases strings with
  | nil => exact Nat.le_refl 2
  | cons string rest =>
      rw [stringSet, if_neg (by simp), List.length_append, stringBytes_length_cons]
      simp only [List.length_singleton]
      omega

theorem smbiosStructLen_holds (holds : Holds memory ptr entry.bytes)
    (enough : entry.bytes.length ≤ fuel) :
    (smbiosStructLen memory fuel ptr).1 = some entry.bytes.length := by
  have closed := stringSet_closedAt entry.nonempty entry.nulFree (stringSet_holds holds)
  have length := bytes_length entry
  have long := stringSet_length entry.strings
  have found := (scanStrings_finds closed fuel (Nat.le_refl 1) closed.positive (by omega)).1
  have lengthByte : (memory (ptr + 1)).toNat = entry.formattedArea.length := by
    have start := strtab_holds holds
    rw [strtab] at start
    omega
  simp only [smbiosStructLen, found, Option.map_some, lengthByte]
  congr 1
  omega

theorem tableBytes_cons (entry : Structure) (rest : List Structure) :
    tableBytes (entry :: rest) = entry.bytes ++ tableBytes rest := by
  simp [tableBytes]

/-- A structure lies inside the table. -/
theorem placedAt_inside {entries : List Structure} {start : ℕ} :
    ∀ place ∈ placedAt start entries,
      start ≤ place.1 ∧ place.1 + place.2.bytes.length ≤ start + (tableBytes entries).length := by
  induction entries generalizing start with
  | nil => simp [placedAt]
  | cons entry rest ih =>
      rw [tableBytes_cons, List.length_append]
      intro place placeMem
      rcases List.mem_cons.mp placeMem with rfl | later
      · exact ⟨Nat.le_refl _, Nat.add_le_add_left (Nat.le_add_right _ _) _⟩
      · have inside := ih place later
        omega

/-- Every structure of a table is held where it is placed. -/
theorem holds_of_placedAt {entries : List Structure} {start : ℕ}
    (holds : Holds memory start (tableBytes entries)) :
    ∀ place ∈ placedAt start entries,
      Holds memory place.1 place.2.bytes ∧ place.2.bytes.length ≤ (tableBytes entries).length := by
  induction entries generalizing start with
  | nil => simp [placedAt]
  | cons entry rest ih =>
      rw [tableBytes_cons, holds_append] at holds
      rw [tableBytes_cons, List.length_append]
      intro place placeMem
      rcases List.mem_cons.mp placeMem with rfl | later
      · exact ⟨holds.1, Nat.le_add_right _ _⟩
      · rcases ih holds.2 place later with ⟨here, length⟩
        exact ⟨here, Nat.le_trans length (Nat.le_add_left _ _)⟩

theorem upToEnd_subset (places : List (ℕ × Structure)) : upToEnd places ⊆ places := by
  induction places with
  | nil => exact List.nil_subset _
  | cons place rest ih =>
      rw [upToEnd]
      split_ifs
      · exact List.cons_subset_cons _ (List.nil_subset _)
      · exact List.cons_subset_cons _ ih

/-- Where the string behind the first `k` strings of a structure is. -/
def stringAddress (ptr : ℕ) (entry : Structure) (k : ℕ) : ℕ :=
  ptr + entry.formattedArea.length + (stringBytes (entry.strings.take k)).length

/-- `getString` points at the strings of a structure, which it counts from one. -/
theorem getString_holds (holds : Holds memory ptr entry.bytes)
    (enough : entry.bytes.length ≤ fuel) {k : ℕ} {string : List UInt8}
    (found : entry.strings[k]? = some string) :
    getString memory fuel ptr (UInt8.ofNat (k + 1)) = some (some (stringAddress ptr entry k)) ∧
      Holds memory (stringAddress ptr entry k) (string ++ [0]) := by
  have count := entry.countFits
  rcases List.getElem?_eq_some_iff.mp found with ⟨inside, rfl⟩
  have index : (UInt8.ofNat (k + 1)).toNat = k + 1 := by
    rw [UInt8.toNat_ofNat', Nat.mod_eq_of_lt (by omega)]
  have nonzero : UInt8.ofNat (k + 1) ≠ 0 := by
    intro zero
    rw [zero, UInt8.toNat_zero] at index
    omega
  have set := stringSet_holds holds
  have length := bytes_length entry
  have someStrings : ¬entry.strings.isEmpty = true := by
    intro empty
    rw [List.isEmpty_iff.mp empty] at inside
    exact absurd inside (Nat.not_lt_zero k)
  rw [stringSet, if_neg someStrings, List.length_append] at length
  rw [stringSet, if_neg someStrings, holds_append] at set
  have skipped := skipStrings_holds entry.nulFree set.1 (Nat.le_of_lt inside)
    (show (stringBytes entry.strings).length ≤ fuel by omega)
  rw [strtab_holds holds] at set skipped
  refine ⟨?_, ?_⟩
  · rw [getString, if_neg nonzero, index, Nat.add_sub_cancel, strtab_holds holds, skipped]
    rfl
  · have strings := set.1
    rw [stringBytes_split inside, holds_append, holds_append] at strings
    exact strings.2.1

end Walk

end

/-- A structure of type 1 with the strings "a" and "b". -/
def systemEntry : Structure where
  type := 1
  body := [0, 1, 1, 2]
  strings := [[97], [98]]
  formatted := by decide
  countFits := by decide
  nonempty := by decide
  nulFree := by decide

/-- The structure that ends the table. -/
def endEntry : Structure where
  type := endOfTable
  body := [0, 2]
  strings := []
  formatted := by decide
  countFits := by decide
  nonempty := by decide
  nulFree := by decide

/-- Memory that holds the two structures from address 4096 on. -/
def twoStructures : Memory := fun address =>
  (tableBytes [systemEntry, endEntry]).getD (address - 4096) 0

end Dvnetos.Smbios
