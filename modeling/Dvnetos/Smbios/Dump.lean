import Dvnetos.Smbios.Records

/-!
# Walking the SMBIOS structure table

This file models `SMBIOS::dumpTable` from `smbios/smbios.cpp`. A structure is printed before its
length is looked for, so a printer that panics, or that finds no end of a string, stops the walk.
What a printer stores in `char buf[512]` is no part of the walk.
-/

namespace Dvnetos.Smbios

/-- The bytes of a member. -/
def Field.addresses (this : ℕ) (place : Field) : List ℕ :=
  (List.range place.size).map (this + place.offset + ·)

theorem Field.mem_addresses {this address : ℕ} {place : Field} :
    address ∈ place.addresses this ↔
      this + place.offset ≤ address ∧ address < this + place.offset + place.size := by
  rw [Field.addresses, List.mem_map]
  constructor
  · rintro ⟨i, inside, rfl⟩
    rw [List.mem_range] at inside
    omega
  · rintro ⟨start, stop⟩
    exact ⟨address - (this + place.offset), List.mem_range.mpr (by omega), by omega⟩

/-- What an event reads, of a structure at `this`. -/
def Event.addresses (this : ℕ) : Event → List ℕ
  | .field place => place.addresses this
  | .character address => [address]
  | .ksnprintf _ _ | .bytesToHumanReadable _ => []

/-- What a run of `dumpTable` has read and met. -/
structure Dump where
  reads : List ℕ
  /-- The structures met, in order, with the case that is chosen for them. -/
  visited : List (ℕ × Printer)
  /-- How the run has ended. -/
  outcome : Except Halt Unit

/-- A case of the `switch`. -/
def printEntry (memory : Memory) (fuel ptr : ℕ) : Printer → Printing Unit
  | .unhandled => do
      -- `"Unhandled type %s length %d\n"`
      let _ ← member memory ptr TableHeader.length
  | kind => toStringOf memory fuel ptr kind

/-- The loop of `dumpTable` from `ptr` on, in a table that ends at `limit`. -/
def dumpLoop (memory : Memory) (limit : ℕ) : ℕ → ℕ → Dump
  | 0, _ => { reads := [], visited := [], outcome := .error .outOfFuel }
  | fuel + 1, ptr =>
      if ptr < limit then
        let kind := printer (memory ptr)
        let printed := printEntry memory fuel ptr kind
        let reads := ptr :: printed.events.flatMap (Event.addresses ptr)
        let visited := [(ptr, kind)]
        match printed.result with
        | .error halt => { reads, visited, outcome := .error halt }
        | .ok () =>
            if kind = .endOfTable then { reads, visited, outcome := .ok () }
            else
              match smbiosStructLen memory fuel ptr with
              | (none, scanned) =>
                  { reads := reads ++ scanned, visited, outcome := .error .outOfFuel }
              | (some length, scanned) =>
                  let rest := dumpLoop memory limit fuel (ptr + length)
                  { reads := reads ++ scanned ++ rest.reads
                    visited := visited ++ rest.visited
                    outcome := rest.outcome }
      else { reads := [], visited := [], outcome := .ok () }

/-- `dumpTable(table, length)`. -/
def dumpTable (memory : Memory) (fuel table : ℕ) (length : UInt16) : Dump :=
  dumpLoop memory (table + length.toNat) fuel table

section Step

variable {memory : Memory} {limit fuel ptr : ℕ}

/-- What is read of a structure before its string set is scanned. -/
def printReads (memory : Memory) (fuel ptr : ℕ) : List ℕ :=
  ptr :: (printEntry memory fuel ptr (printer (memory ptr))).events.flatMap (Event.addresses ptr)

theorem printEntry_of_ne {kind : Printer} (handled : kind ≠ .unhandled) :
    printEntry memory fuel ptr kind = toStringOf memory fuel ptr kind := by
  cases kind with
  | unhandled => exact absurd rfl handled
  | _ => rfl

theorem printer_eq_endOfTable {type : UInt8} : printer type = .endOfTable ↔ type = endOfTable := by
  constructor
  · intro kind
    by_contra other
    rw [printer] at kind
    split_ifs at kind
  · rintro rfl
    rfl

/-- The loop ends where the table ends. -/
theorem dumpLoop_behind (behind : limit ≤ ptr) :
    dumpLoop memory limit (fuel + 1) ptr = { reads := [], visited := [], outcome := .ok () } := by
  rw [dumpLoop, if_neg (Nat.not_lt.mpr behind)]

/-- Of a structure of type 127 the walk reads the type, and it returns. -/
theorem dumpLoop_endOfTable (inside : ptr < limit) (type : memory ptr = endOfTable) :
    dumpLoop memory limit (fuel + 1) ptr =
      { reads := [ptr], visited := [(ptr, .endOfTable)], outcome := .ok () } := by
  rw [dumpLoop, if_pos inside, type]
  rfl

/-- A printer that does not return stops the walk. -/
theorem dumpLoop_halted (inside : ptr < limit) {halt : Halt}
    (halted : (printEntry memory fuel ptr (printer (memory ptr))).result = .error halt) :
    dumpLoop memory limit (fuel + 1) ptr =
      { reads := printReads memory fuel ptr
        visited := [(ptr, printer (memory ptr))]
        outcome := .error halt } := by
  rw [dumpLoop, if_pos inside]
  simp only [halted]
  rfl

/-- A string set without an end is scanned on and on. -/
theorem dumpLoop_unclosed (inside : ptr < limit) (type : memory ptr ≠ endOfTable)
    (printed : (printEntry memory fuel ptr (printer (memory ptr))).result = .ok ())
    (unclosed : (smbiosStructLen memory fuel ptr).1 = none) :
    dumpLoop memory limit (fuel + 1) ptr =
      { reads := printReads memory fuel ptr ++ (smbiosStructLen memory fuel ptr).2
        visited := [(ptr, printer (memory ptr))]
        outcome := .error .outOfFuel } := by
  rw [dumpLoop, if_pos inside]
  rcases scan : smbiosStructLen memory fuel ptr with ⟨final, scanned⟩
  rw [scan] at unclosed
  simp only at unclosed
  simp only [printed, printer_eq_endOfTable, if_neg type, unclosed]
  rfl

/-- The walk goes on behind a structure that is printed and closed. -/
theorem dumpLoop_next (inside : ptr < limit) (type : memory ptr ≠ endOfTable)
    (printed : (printEntry memory fuel ptr (printer (memory ptr))).result = .ok ())
    {length : ℕ} (closed : (smbiosStructLen memory fuel ptr).1 = some length) :
    dumpLoop memory limit (fuel + 1) ptr =
      { reads := printReads memory fuel ptr ++ (smbiosStructLen memory fuel ptr).2 ++
          (dumpLoop memory limit fuel (ptr + length)).reads
        visited := (ptr, printer (memory ptr)) ::
          (dumpLoop memory limit fuel (ptr + length)).visited
        outcome := (dumpLoop memory limit fuel (ptr + length)).outcome } := by
  rw [dumpLoop, if_pos inside]
  rcases scan : smbiosStructLen memory fuel ptr with ⟨final, scanned⟩
  rw [scan] at closed
  simp only at closed
  simp only [printed, printer_eq_endOfTable, if_neg type, closed]
  rfl

end Step

end Dvnetos.Smbios
