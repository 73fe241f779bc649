import Dvnetos.Smbios.DescriptionBounds
import Dvnetos.Smbios.TableWalk

/-!
# What the walk of a table does

The walk undoes the encoding of a table, as far as the printers let it. A unit of the extended ROM
size that is not known makes the printer panic, which is checked for. A string without an end,
or a description that is stored behind its buffer, is not.
-/

namespace Dvnetos.Smbios

variable {memory : Memory} {ptr : ℕ}

/-- The description of a structure is stored inside of `char buf[512]`. -/
def FitsBuffer (memory : Memory) (ptr : ℕ) (kind : Printer) : Prop :=
  ∀ fuel, (fullText memory fuel ptr kind).length < 2 ^ 31 ∧
    Along memory fuel (StartsInside memory fuel 512) 0 (toStringOf memory fuel ptr kind).events

/--
A table that holds structures one behind the other is walked structure by structure, up to the
first one of type 127 or with an unknown unit, at which the walk panics, if the strings that are
printed end and the descriptions are stored in their buffer. `getString` finds the strings of each
structure.
-/
theorem dumpTable_visits (entries : List Structure) (table : ℕ)
    (holds : Holds memory table (tableBytes entries)) (fits : (tableBytes entries).length < 65536)
    (ends : ∀ place ∈ upToHalt (placedAt table entries), ∃ bound, PrintsBy memory place.1 bound)
    (stays : ∀ place ∈ upToHalt (placedAt table entries),
      FitsBuffer memory place.1 (printer place.2.type)) :
    ∃ enough, ∀ fuel, enough ≤ fuel →
      let dump := dumpTable memory fuel table (UInt16.ofNat (tableBytes entries).length)
      let visited := upToHalt (placedAt table entries)
      dump.visited = visited.map (fun place => (place.1, printer place.2.type)) ∧
        dump.outcome = outcomeOf visited ∧
        ∀ place ∈ visited,
          (∀ statics contents, ∃ final,
            describe memory fuel statics ⟨512, by decide⟩ contents
                (toStringOf memory fuel place.1 (printer place.2.type)).events = .ok final ∧
              final.buf.Within (Stdio.Inside 512)) ∧
          ∀ k string, place.2.strings[k]? = some string →
            getString memory fuel place.1 (UInt8.ofNat (k + 1)) =
                some (some (stringAddress place.1 place.2 k)) ∧
              Holds memory (stringAddress place.1 place.2 k) (string ++ [0]) := by
  have length : (UInt16.ofNat (tableBytes entries).length).toNat = (tableBytes entries).length := by
    rw [UInt16.toNat_ofNat', Nat.mod_eq_of_lt fits]
  have inside : (upToHalt (placedAt table entries)).takeWhile
      (·.1 < table + (tableBytes entries).length) = upToHalt (placedAt table entries) := by
    rw [List.takeWhile_eq_self_iff]
    intro place placeMem
    have within := placedAt_inside place (upToHalt_subset _ placeMem)
    have sum := bytes_length place.2
    have long := stringSet_length place.2.strings
    exact decide_eq_true (by omega)
  rcases dumpLoop_walks holds (Nat.le_refl _) inside ends with ⟨enough, walked⟩
  refine ⟨max enough (tableBytes entries).length, fun fuel more => ?_⟩
  rcases walked fuel (by omega) with ⟨visited, outcome⟩
  simp only [dumpTable, length]
  refine ⟨visited, outcome, fun place placeMem => ⟨fun statics contents => ?_,
    fun k string found => ?_⟩⟩
  · rcases stays place placeMem fuel with ⟨short, starts⟩
    rcases toStringOf_describes memory fuel place.1 (printer place.2.type) statics contents
      short with ⟨final, run, -, -, within, -⟩
    exact ⟨final, run, within.mpr starts⟩
  · rcases holds_of_placedAt holds place (upToHalt_subset _ placeMem) with ⟨here, shorter⟩
    exact getString_holds here (by omega) found

/-- The descriptions of memory devices fit, whatever they are. -/
theorem MemoryDevice.fitsBuffer (memory : Memory) (ptr : ℕ) :
    FitsBuffer memory ptr .memoryDevice := by
  intro fuel
  have length : (fullText memory fuel ptr .memoryDevice).length ≤ 92 :=
    (@MemoryDevice.toString_short memory fuel ptr 512).length
  refine ⟨by omega, startsInside_of_fits ?_⟩
  rw [Nat.zero_add]
  exact length.trans_lt (by decide)

/-- A structure of type 17 with the strings "a" and "b". -/
def deviceEntry : Structure where
  type := 17
  body := List.replicate 19 0
  strings := [[97], [98]]
  formatted := by decide
  countFits := systemEntry.countFits
  nonempty := systemEntry.nonempty
  nulFree := systemEntry.nulFree

/-- Memory that holds the structures from address 4096 on. -/
def tableMemory (entries : List Structure) : Memory := fun address =>
  (tableBytes entries).getD (address - 4096) 0

theorem dumpTable_visits_deviceEntry :
    ∃ enough, ∀ fuel, enough ≤ fuel →
      let dump := dumpTable (tableMemory [deviceEntry, endEntry]) fuel 4096 (UInt16.ofNat 32)
      dump.visited = [(4096, .memoryDevice), (4122, .endOfTable)] ∧ dump.outcome = .ok () ∧
        getString (tableMemory [deviceEntry, endEntry]) fuel 4096 2 = some (some 4119) := by
  have size : (tableBytes [deviceEntry, endEntry]).length = 32 := by decide
  have places : upToHalt (placedAt 4096 [deviceEntry, endEntry]) =
      [(4096, deviceEntry), (4122, endEntry)] := rfl
  have device : WellFormed (tableMemory [deviceEntry, endEntry]) 4096 deviceEntry :=
    ⟨by decide, trivial⟩
  have holds : Holds (tableMemory [deviceEntry, endEntry]) 4096
      (tableBytes [deviceEntry, endEntry]) := by decide
  rcases dumpTable_visits [deviceEntry, endEntry] 4096 holds (by decide)
    (by
      simp only [places, List.forall_mem_cons, List.not_mem_nil, false_implies, implies_true,
        and_true]
      exact ⟨⟨_, device.printsBy (by decide)⟩, 0, trivial⟩)
    (by
      simp only [places, List.forall_mem_cons, List.not_mem_nil, false_implies, implies_true,
        and_true]
      exact ⟨MemoryDevice.fitsBuffer _ _, fun fuel => ⟨Nat.two_pow_pos 31, trivial⟩⟩) with
    ⟨enough, walked⟩
  refine ⟨enough, fun fuel more => ?_⟩
  rcases walked fuel more with ⟨visited, outcome, strings⟩
  rw [size] at visited outcome
  have known : outcomeOf [(4096, deviceEntry), (4122, endEntry)] = .ok () := by
    rw [outcomeOf, if_neg (by decide)]
  exact ⟨visited, outcome.trans known,
    ((strings (4096, deviceEntry) (List.mem_cons_self ..)).2 1 [98] rfl).1⟩

/-- A structure of type 0 without strings, whose extended ROM size has the unit 2. -/
def unitsEntry : Structure where
  type := 0
  body := List.replicate 23 0 ++ [0x80]
  strings := []
  formatted := by decide
  countFits := endEntry.countFits
  nonempty := endEntry.nonempty
  nulFree := endEntry.nulFree

/-- The walk panics at the first of three structures. -/
theorem dumpTable_unknownUnits :
    Holds (tableMemory [unitsEntry, systemEntry, endEntry]) 4096
        (tableBytes [unitsEntry, systemEntry, endEntry]) ∧
      (tableBytes [unitsEntry, systemEntry, endEntry]).length = 45 ∧
      ∀ fuel,
        (dumpTable (tableMemory [unitsEntry, systemEntry, endEntry]) fuel 4096
            (UInt16.ofNat 45)).visited ≠
          (upToEnd (placedAt 4096 [unitsEntry, systemEntry, endEntry])).map fun place =>
            (place.1, printer place.2.type) := by
  have holds : Holds (tableMemory [unitsEntry, systemEntry, endEntry]) 4096
      (tableBytes [unitsEntry, systemEntry, endEntry]) := by decide
  refine ⟨holds, by decide, fun fuel visited => ?_⟩
  have all : (upToEnd (placedAt 4096 [unitsEntry, systemEntry, endEntry])).map
      (fun place => (place.1, printer place.2.type)) =
        [(4096, .firmwareInfo), (4124, .systemInfo), (4135, .endOfTable)] := rfl
  have here : Holds (tableMemory [unitsEntry, systemEntry, endEntry]) 4096 unitsEntry.bytes := by
    decide
  have wellFormed : WellFormed (tableMemory [unitsEntry, systemEntry, endEntry]) 4096
      unitsEntry := by
    refine ⟨by decide, fun index => ?_⟩
    revert index
    decide
  have panics : Panics (tableMemory [unitsEntry, systemEntry, endEntry]) 4096
      (printer (tableMemory [unitsEntry, systemEntry, endEntry] 4096)) := by decide
  cases fuel with
  | zero =>
      rw [all] at visited
      cases visited
  | succ fuel =>
      rcases @printEntry_ne_ok _ _ 4096 fuel (wellFormed.printsBy here) panics with
        ⟨halt, halted⟩
      rw [dumpTable, dumpLoop_halted (by decide) halted, all] at visited
      cases visited

end Dvnetos.Smbios
