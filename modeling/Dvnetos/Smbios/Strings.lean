import Dvnetos.Smbios.Encoding
import Mathlib.Order.Monotone.Basic

/-!
# Indices of strings

`getString` counts NULs and does not notice the one that closes the string set. An index
behind the last string gives the empty string at the closing NUL; every larger one leads out
of the structure.
-/

namespace Dvnetos.Smbios

variable {memory : Memory} {entry : Structure} {ptr fuel : ℕ}

/-- The strings, with the empty ones that the closing NULs are. -/
def slots (strings : List (List UInt8)) : List (List UInt8) :=
  if strings.isEmpty then [[], []] else strings ++ [[]]

theorem stringSet_eq (strings : List (List UInt8)) :
    stringSet strings = stringBytes (slots strings) := by
  simp only [stringSet, slots]
  split_ifs
  · rfl
  · simp [stringBytes]

theorem length_slots (strings : List (List UInt8)) :
    (slots strings).length = max (strings.length + 1) 2 := by
  cases strings with
  | nil => rfl
  | cons string rest =>
      simp only [slots, List.isEmpty_cons, Bool.false_eq_true, if_false, List.length_append,
        List.length_cons, List.length_nil]
      omega

theorem slots_nulFree {strings : List (List UInt8)} (nulFree : ∀ string ∈ strings, 0 ∉ string) :
    ∀ string ∈ slots strings, 0 ∉ string := by
  intro string mem
  simp only [slots] at mem
  split_ifs at mem
  · rcases List.mem_cons.mp mem with rfl | mem
    · exact List.not_mem_nil
    · rw [List.mem_singleton.mp mem]
      exact List.not_mem_nil
  · rcases List.mem_append.mp mem with mem | mem
    · exact nulFree string mem
    · rw [List.mem_singleton.mp mem]
      exact List.not_mem_nil

theorem skipString_ge {address nul : ℕ} (skipped : skipString memory fuel address = some nul) :
    address ≤ nul := by
  induction fuel generalizing address with
  | zero => cases skipped
  | succ fuel ih =>
      rw [skipString] at skipped
      split_ifs at skipped
      · exact Nat.le_of_succ_le (ih skipped)
      · exact Nat.le_of_eq (Option.some.inj skipped)

theorem skipStrings_ge {count address final : ℕ}
    (skipped : skipStrings memory fuel count address = some final) : address + count ≤ final := by
  induction count generalizing address with
  | zero => exact Nat.le_of_eq (Option.some.inj skipped)
  | succ count ih =>
      rw [skipStrings] at skipped
      split at skipped
      · cases skipped
      case _ nul first =>
        have before := skipString_ge first
        have later := ih skipped
        omega

theorem skipStrings_add (first count address : ℕ) :
    skipStrings memory fuel (first + count) address =
      (skipStrings memory fuel first address).bind (skipStrings memory fuel count) := by
  induction first generalizing address with
  | zero => rw [Nat.zero_add]; rfl
  | succ first ih =>
      rw [Nat.succ_add, skipStrings, skipStrings]
      split
      · rfl
      · exact ih _

/-- Where the slot behind the first `k` slots of a structure is. -/
def slotAddress (ptr : ℕ) (entry : Structure) (k : ℕ) : ℕ :=
  ptr + entry.formattedArea.length + (stringBytes ((slots entry.strings).take k)).length

theorem slotAddress_zero (ptr : ℕ) (entry : Structure) :
    slotAddress ptr entry 0 = ptr + entry.formattedArea.length := rfl

theorem slotAddress_succ (ptr : ℕ) {k : ℕ} (inside : k < (slots entry.strings).length) :
    slotAddress ptr entry (k + 1) =
      slotAddress ptr entry k + (slots entry.strings)[k].length + 1 := by
  rw [slotAddress, slotAddress, List.take_add_one, List.getElem?_eq_getElem inside]
  simp only [stringBytes, Option.toList_some, List.flatMap_append, List.flatMap_singleton,
    List.length_append, List.length_singleton, Nat.add_assoc]

/-- Behind the last slot the structure ends. -/
theorem slotAddress_of_length_le (ptr : ℕ) {k : ℕ} (outside : (slots entry.strings).length ≤ k) :
    slotAddress ptr entry k = ptr + entry.bytes.length := by
  rw [slotAddress, List.take_of_length_le outside, bytes_length, stringSet_eq, Nat.add_assoc]

theorem slotAddress_mono (ptr : ℕ) (entry : Structure) : Monotone (slotAddress ptr entry) := by
  apply monotone_nat_of_le_succ
  intro k
  by_cases inside : k < (slots entry.strings).length
  · rw [slotAddress_succ ptr inside]
    omega
  · rw [slotAddress_of_length_le ptr (by omega), slotAddress_of_length_le ptr (by omega)]

/-- A slot and its NUL lie in front of the end. -/
theorem slotAddress_add_lt (ptr : ℕ) {k : ℕ} (inside : k < (slots entry.strings).length) :
    slotAddress ptr entry k + (slots entry.strings)[k].length < ptr + entry.bytes.length := by
  have next := slotAddress_mono ptr entry (Nat.succ_le_of_lt inside)
  rw [slotAddress_of_length_le ptr (Nat.le_refl _), slotAddress_succ ptr inside] at next
  exact next

section

variable (holds : Holds memory ptr entry.bytes) (enough : entry.bytes.length ≤ fuel)

include holds in
theorem slots_holds :
    Holds memory (ptr + entry.formattedArea.length) (stringBytes (slots entry.strings)) := by
  rw [← stringSet_eq, ← strtab_holds holds]
  exact stringSet_holds holds

include holds in
theorem slot_holds {k : ℕ} (inside : k < (slots entry.strings).length) :
    Holds memory (slotAddress ptr entry k) ((slots entry.strings)[k] ++ [0]) := by
  have bytes := slots_holds holds
  rw [stringBytes_split inside, holds_append, holds_append] at bytes
  exact bytes.2.1

include holds enough

/-- The loop of `getString` as long as it stays in the string set. -/
theorem skipStrings_slots {count : ℕ} (inside : count ≤ (slots entry.strings).length) :
    skipStrings memory fuel count (strtab memory ptr) =
      some (slotAddress ptr entry count) := by
  have length := bytes_length entry
  rw [stringSet_eq] at length
  rw [strtab_holds holds]
  exact skipStrings_holds (slots_nulFree entry.nulFree) (slots_holds holds) inside (by omega)

/-- Where an index leads, if the walk does not leave the structure. -/
theorem getString_slots {index : UInt8} (isIndex : index ≠ 0)
    (inside : index.toNat ≤ (slots entry.strings).length + 1) :
    getString memory fuel ptr index = some (some (slotAddress ptr entry (index.toNat - 1))) := by
  rw [getString, if_neg isIndex, skipStrings_slots holds enough (by omega)]
  rfl

/-- A larger index leads behind the structure. -/
theorem skipStrings_behind {count final : ℕ} (outside : (slots entry.strings).length ≤ count)
    (skipped : skipStrings memory fuel count (strtab memory ptr) = some final) :
    ptr + entry.bytes.length ≤ final := by
  have all := skipStrings_slots holds enough (Nat.le_refl _)
  rw [slotAddress_of_length_le ptr (Nat.le_refl _)] at all
  rw [← Nat.add_sub_cancel' outside, skipStrings_add, all] at skipped
  exact Nat.le_trans (Nat.le_add_right _ _) (skipStrings_ge skipped)

end

/-- Null, or a NUL-terminated string inside the string set of the structure. -/
def Contained (memory : Memory) (ptr : ℕ) (entry : Structure) : Option (Option ℕ) → Prop
  | none => False
  | some none => True
  | some (some address) =>
      ∃ string, 0 ∉ string ∧ Holds memory address (string ++ [0]) ∧
        ptr + entry.formattedArea.length ≤ address ∧
        address + (string ++ [0]).length ≤ ptr + entry.bytes.length

/-- `getString` stays inside the structure exactly if the index is at most one behind the last. -/
theorem getString_contained_iff (holds : Holds memory ptr entry.bytes)
    (enough : entry.bytes.length ≤ fuel) (index : UInt8) :
    Contained memory ptr entry (getString memory fuel ptr index) ↔
      index.toNat ≤ max (entry.strings.length + 1) 2 := by
  rw [← length_slots]
  by_cases isIndex : index = 0
  · simp [isIndex, getString, Contained]
  have positive : 0 < index.toNat := by
    rw [Nat.pos_iff_ne_zero]
    exact fun zero => isIndex (UInt8.toNat_inj.mp zero)
  constructor
  · intro contained
    by_contra outside
    rw [getString, if_neg isIndex] at contained
    cases skipped : skipStrings memory fuel (index.toNat - 1) (strtab memory ptr) with
    | none =>
        rw [skipped] at contained
        exact contained
    | some final =>
        have behind := skipStrings_behind holds enough (by omega) skipped
        rw [skipped] at contained
        rcases contained with ⟨string, -, -, -, within⟩
        simp only [List.length_append, List.length_singleton] at within
        omega
  · intro inside
    have inSlots : index.toNat - 1 < (slots entry.strings).length := by omega
    have within := slotAddress_add_lt ptr inSlots
    have start := slotAddress_mono ptr entry (Nat.zero_le (index.toNat - 1))
    rw [slotAddress_zero] at start
    rw [getString_slots holds enough isIndex (by omega)]
    refine ⟨_, slots_nulFree entry.nulFree _ (List.getElem_mem inSlots), slot_holds holds inSlots,
      start, ?_⟩
    rw [List.length_append, List.length_singleton]
    exact within

/-- The structure of type 1 has two strings; index 3 is its closing NUL. -/
theorem getString_contained_iff_twoStructures :
    Contained twoStructures 4096 systemEntry (getString twoStructures 20 4096 3) := by
  have holds : Holds twoStructures 4096 systemEntry.bytes := by decide
  exact (getString_contained_iff holds (by decide) 3).mpr (by decide)

/-- Index 4 gives the first byte of the following structure. -/
theorem getString_leaves_structure :
    getString twoStructures 20 4096 4 = some (some 4107) ∧
      (4107, endEntry) ∈ placedAt 4096 [systemEntry, endEntry] ∧
      ¬Contained twoStructures 4096 systemEntry (getString twoStructures 20 4096 4) := by
  have found : getString twoStructures 20 4096 4 = some (some 4107) := by decide
  refine ⟨found, List.mem_cons_of_mem _ (List.mem_cons_self ..), ?_⟩
  rw [found]
  rintro ⟨string, -, -, -, within⟩
  have size : 4096 + systemEntry.bytes.length = 4107 := by decide
  simp only [List.length_append, List.length_singleton] at within
  omega

end Dvnetos.Smbios
