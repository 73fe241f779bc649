import Dvnetos.Paging.DirectMap
import Dvnetos.Smbios.Entry

/-!
# Every byte that init reads is mapped

`SMBIOS::init` calls `mapPartial` for the entry before it reads the entry, and for the table
before `dumpTable` reads headers, string sets, and the fields and strings of the structures it
prints. With a well-formed table all of that lies in the two ranges, and so in the direct map of
the page tables that the calls leave.
-/

namespace Dvnetos.Smbios

open PageTables
open Word

variable {memory : Memory} {fuel hhdmOffset limit ptr table : ℕ} {response : Response}
  {entries : List Structure}

/-- What `init` reads of the entry. -/
def entryReads (hhdmOffset : ℕ) (response : Response) : List ℕ :=
  if response.entry_64 ≠ 0 then
    [Entry64.major_version, Entry64.minor_version, Entry64.table_address,
      Entry64.table_length].flatMap (Field.addresses (add64 response.entry_64 hhdmOffset))
  else if response.entry_32 ≠ 0 then
    [Entry32.major_version, Entry32.minor_version, Entry32.table_address,
      Entry32.table_length].flatMap (Field.addresses (add64 response.entry_32 hhdmOffset))
  else []

/-- A walk of a shorter table reads less. -/
theorem dumpLoop_reads_limit {limit' : ℕ} (shorter : limit' ≤ limit) (fuel ptr : ℕ) :
    (dumpLoop memory limit' fuel ptr).reads ⊆ (dumpLoop memory limit fuel ptr).reads := by
  induction fuel generalizing ptr with
  | zero => exact List.Subset.refl _
  | succ fuel ih =>
      by_cases inside : ptr < limit'
      · have later := inside.trans_le shorter
        by_cases type : memory ptr = endOfTable
        · rw [dumpLoop_endOfTable inside type, dumpLoop_endOfTable later type]
          exact List.Subset.refl _
        · cases printed : (printEntry memory fuel ptr (printer (memory ptr))).result with
          | error halt =>
              rw [dumpLoop_halted inside printed, dumpLoop_halted later printed]
              exact List.Subset.refl _
          | ok value =>
              cases final : (smbiosStructLen memory fuel ptr).1 with
              | none =>
                  rw [dumpLoop_unclosed inside type printed final,
                    dumpLoop_unclosed later type printed final]
                  exact List.Subset.refl _
              | some length =>
                  rw [dumpLoop_next inside type printed final,
                    dumpLoop_next later type printed final]
                  exact List.append_subset.mpr
                    ⟨List.subset_append_left _ _, List.subset_append_of_subset_right _ (ih _)⟩
      · rw [dumpLoop_behind (Nat.le_of_not_lt inside)]
        exact List.nil_subset _

/-- A table of well-formed structures up to its end. -/
structure Readable (memory : Memory) (table : ℕ) (entries : List Structure) : Prop where
  holds : Holds memory table (tableBytes entries)
  wellFormed : ∀ place ∈ upToEnd (placedAt table entries), WellFormed memory place.1 place.2

theorem Readable.structuresComplete (readable : Readable memory ptr entries) :
    StructuresComplete memory (ptr + (tableBytes entries).length) ptr := by
  rcases readable with ⟨holds, wellFormed⟩
  induction entries generalizing ptr with
  | nil => exact .finished (Nat.le_refl _)
  | cons entry rest ih =>
      rw [tableBytes_cons, holds_append] at holds
      rcases holds with ⟨here, later⟩
      have length := bytes_length entry
      have long := stringSet_length entry.strings
      have area : 4 ≤ entry.formattedArea.length := entry.formatted.1
      have type : memory ptr = entry.type := here.1
      rw [tableBytes_cons, List.length_append]
      rw [placedAt, upToEnd] at wellFormed
      by_cases isEnd : entry.type = endOfTable
      · exact .endOfTable (by omega) (type.trans isEnd)
      · rw [if_neg isEnd, List.forall_mem_cons] at wellFormed
        have closed := stringSet_closedAt entry.nonempty entry.nulFree (stringSet_holds here)
        have start := strtab_holds here
        have printed := (wellFormed.1.printsBy here).mono (show ptr + entry.bytes.length ≤ ptr +
          (entry.bytes.length + (tableBytes rest).length) by omega)
        refine .complete (by omega) (by rwa [type]) printed closed (by omega) ?_
        have next := ih later wellFormed.2
        rw [show strtab memory ptr + ((stringSet entry.strings).length - 1) + 1 =
          ptr + entry.bytes.length by omega]
        rwa [← Nat.add_assoc]

/-- The walk over a table reads nothing outside of it, and no printer does. -/
theorem Readable.inside (readable : Readable memory table entries)
    (short : limit ≤ table + (tableBytes entries).length) :
    ∀ address ∈ (dumpLoop memory limit fuel table).reads,
      table ≤ address ∧ address < table + (tableBytes entries).length :=
  fun address read => readable.structuresComplete.reads_inside fuel address
    (dumpLoop_reads_limit short fuel table read)

namespace MapPartialCall

/-- The physical address of the call as a word. -/
def physicalWord (call : MapPartialCall) : Word64 := .ofNat 64 call.physical_address

/-- The size of the call as a word. -/
def sizeWord (call : MapPartialCall) : Word64 := .ofNat 64 call.size

/-- The flags of the call as a word. -/
def flagsWord (call : MapPartialCall) : Word64 := .ofNat 64 call.flags

/-- The virtual address of the call as a word. -/
def virtualWord (call : MapPartialCall) : Word64 := .ofNat 64 call.virtual_address

/-- The call of `mapMemory`. -/
def request (call : MapPartialCall) : Request :=
  partialRequest call.physicalWord call.virtualWord call.sizeWord call.flagsWord

/-- The property of every byte of physical memory that the call is to map. -/
def Each (call : MapPartialCall) (P : Word64 → Prop) : Prop :=
  ∀ offset < call.size, P (call.physicalWord + BitVec.ofNat 64 offset)

theorem virtualWord_eq {call : MapPartialCall}
    (virtual : call.virtual_address = add64 call.physical_address hhdmOffset) :
    call.virtualWord = call.physicalWord + BitVec.ofNat 64 hhdmOffset := by
  apply BitVec.eq_of_toNat_eq
  simp only [virtualWord, physicalWord, virtual, add64, BitVec.toNat_add, BitVec.toNat_ofNat]
  omega

section Fits

variable {call : MapPartialCall} (fits : call.physical_address + call.size ≤ 2 ^ 52)

include fits

theorem sizeWord_toNat : call.sizeWord.toNat = call.size := by
  rw [sizeWord, BitVec.toNat_ofNat]
  omega

theorem physicalWord_add_sizeWord : call.physicalWord.toNat + call.sizeWord.toNat ≤ 2 ^ 52 := by
  rw [physicalWord, sizeWord, BitVec.toNat_ofNat, BitVec.toNat_ofNat]
  omega

end Fits

theorem Each.read {call : MapPartialCall} {P : Word64 → Prop} (each : call.Each P)
    (virtual : call.virtual_address = add64 call.physical_address hhdmOffset) {address : ℕ}
    (start : call.virtual_address ≤ address) (stop : address < call.virtual_address + call.size) :
    P (BitVec.ofNat 64 address - BitVec.ofNat 64 hhdmOffset) := by
  have byte := each (address - call.virtual_address) (by omega)
  rw [virtual, add64] at byte start
  convert byte using 1
  apply BitVec.eq_of_toNat_eq
  simp only [physicalWord, BitVec.toNat_sub, BitVec.toNat_add, BitVec.toNat_ofNat]
  omega

end MapPartialCall

/-- What `init` does for an entry that the response has. -/
structure InitCalls (memory : Memory) (fuel hhdmOffset : ℕ) (response : Response)
    (entry table : MapPartialCall) : Prop where
  entryVirtual : entry.virtual_address = add64 entry.physical_address hhdmOffset
  tableVirtual : table.virtual_address = add64 table.physical_address hhdmOffset
  flags : ∀ call ∈ [entry, table], call.flags = if response.entry_64 ≠ 0 then 0x700 else 0
  entryInside : ∀ address ∈ entryReads hhdmOffset response,
    entry.virtual_address ≤ address ∧ address < entry.virtual_address + entry.size
  dump : (init memory fuel hhdmOffset (some response)).dump =
    some (dumpLoop memory (table.virtual_address + table.size % 65536) fuel table.virtual_address)

theorem init_calls {entry table : MapPartialCall}
    (calls : (init memory fuel hhdmOffset (some response)).mapped = [entry, table]) :
    InitCalls memory fuel hhdmOffset response entry table := by
  by_cases first : response.entry_64 ≠ 0
  · simp only [init, if_pos first, List.cons.injEq, and_true] at calls
    rcases calls with ⟨rfl, rfl⟩
    refine ⟨rfl, rfl, by simp [first], fun address read => ?_, ?_⟩
    · simp only [entryReads, if_pos first, List.flatMap_cons, List.flatMap_nil, List.mem_append,
        Field.mem_addresses, List.not_mem_nil, or_false, Entry64.major_version,
        Entry64.minor_version, Entry64.table_address, Entry64.table_length] at read
      simp only [Entry64.sizeOf]
      omega
    · simp only [init, if_pos first, dumpTable, UInt16.toNat_ofNat']
  · by_cases second : response.entry_32 ≠ 0
    · simp only [init, if_neg first, if_pos second, List.cons.injEq, and_true] at calls
      rcases calls with ⟨rfl, rfl⟩
      refine ⟨rfl, rfl, by simp [first], fun address read => ?_, ?_⟩
      · simp only [entryReads, if_neg first, if_pos second, List.flatMap_cons, List.flatMap_nil,
          List.mem_append, Field.mem_addresses, List.not_mem_nil, or_false, Entry32.major_version,
          Entry32.minor_version, Entry32.table_address, Entry32.table_length] at read
        simp only [Entry32.sizeOf]
        omega
      · simp only [init, if_neg first, if_pos second, dumpTable, UInt16.toNat_ofNat']
    · simp only [init, if_neg first, if_neg second] at calls
      cases calls

/-- What holds of the bytes of both ranges holds of all bytes that `init` reads. -/
theorem InitCalls.read {entry table : MapPartialCall} {P Q : Word64 → Prop}
    (calls : InitCalls memory fuel hhdmOffset response entry table)
    (readable : Readable memory table.virtual_address entries)
    (length : (tableBytes entries).length = table.size)
    (ofEntry : entry.Each P) (ofTable : table.Each Q) :
    (∀ address ∈ entryReads hhdmOffset response,
        P (BitVec.ofNat 64 address - BitVec.ofNat 64 hhdmOffset)) ∧
      ∀ dump, (init memory fuel hhdmOffset (some response)).dump = some dump →
        ∀ address ∈ dump.reads,
          Q (BitVec.ofNat 64 address - BitVec.ofNat 64 hhdmOffset) := by
  constructor
  · intro address read
    have inside := calls.entryInside address read
    exact ofEntry.read calls.entryVirtual inside.1 inside.2
  · intro dump isDump address read
    rw [calls.dump, Option.some.injEq] at isDump
    subst isDump
    have short : table.size % 65536 ≤ table.size := Nat.mod_le _ _
    have inside := readable.inside (by omega) address read
    exact ofTable.read calls.tableVirtual inside.1 (by omega)

theorem InitCalls.within {entry table : MapPartialCall}
    (calls : InitCalls memory fuel hhdmOffset response entry table) :
    ∀ call ∈ [entry, table], call.flagsWord &&& ~~~pageFlagsMask = 0#64 := by
  intro call mem
  rw [MapPartialCall.flagsWord, calls.flags call mem]
  split_ifs
  · decide
  · decide

theorem InitCalls.virtualWord_eq {entry table : MapPartialCall}
    (calls : InitCalls memory fuel hhdmOffset response entry table) :
    ∀ call ∈ [entry, table],
      call.virtualWord = call.physicalWord + BitVec.ofNat 64 hhdmOffset := by
  simp only [List.forall_mem_cons, List.not_mem_nil, false_implies, implies_true, and_true]
  exact ⟨MapPartialCall.virtualWord_eq calls.entryVirtual,
    MapPartialCall.virtualWord_eq calls.tableVirtual⟩

theorem hhdmOffset_aligned (aligned : hhdmOffset % 4096 = 0) :
    (BitVec.ofNat 64 hhdmOffset).toNat % 4096 = 0 := by
  rw [BitVec.toNat_ofNat]
  omega

/-- The direct map of the bootloader. -/
def higherHalf : ℕ := 0xFFFF800000000000

/-- An entry at 0x7000, and a table of 36 bytes at 0x8FF0. -/
def firmwareMemory : Memory := fun address =>
  if address < higherHalf + 0x8000 then
    ([0, 0, 0, 0, 0, 0, 0, 3, 0, 0, 0, 0, 36, 0, 0, 0, 0xF0, 0x8F] : List UInt8).getD
      (address - (higherHalf + 0x7000)) 0
  else (tableBytes [namedSystem, endEntry]).getD (address - (higherHalf + 0x8FF0)) 0

/-- The call for the entry. -/
def entryCall : MapPartialCall := ⟨0x7000, higherHalf + 0x7000, 24, 0x700⟩

/-- The call for the structure table. -/
def tableCall : MapPartialCall := ⟨0x8FF0, higherHalf + 0x8FF0, 36, 0x700⟩

theorem firmware_calls :
    (init firmwareMemory 40 higherHalf (some ⟨0x7000, 0⟩)).mapped = [entryCall, tableCall] := by
  decide

theorem firmware_readable :
    Readable firmwareMemory tableCall.virtual_address [namedSystem, endEntry] := by
  refine ⟨by decide, ?_⟩
  have places : upToEnd (placedAt tableCall.virtual_address [namedSystem, endEntry]) =
      [(higherHalf + 0x8FF0, namedSystem), (higherHalf + 0x900E, endEntry)] := rfl
  rw [places]
  simp only [List.forall_mem_cons, List.not_mem_nil, false_implies, implies_true, and_true]
  refine ⟨⟨by decide, ?_⟩, ⟨by decide, trivial⟩⟩
  refine ⟨by decide, ?_⟩
  intro index
  revert index
  decide

section X86

variable {paging : X86.Paging} {pool : InitialPool paging.pageTableOffset}
variable {memory0 memory1 memory2 tables tables' : TableMemory} {call : MapPartialCall}

/-- The call on the tables of x86. -/
def MapPartialCall.onX86 (paging : X86.Paging) (pool : InitialPool paging.pageTableOffset)
    (tables : TableMemory) (call : MapPartialCall) : Except Panic TableMemory :=
  X86.mapPartial paging pool tables call.physicalWord call.virtualWord call.sizeWord call.flagsWord

/-- The range can be mapped in these tables. -/
structure MapPartialCall.MappableX86 (paging : X86.Paging) (tables : Word64 → Index → Word64)
    (hhdmOffset : ℕ) (call : MapPartialCall) : Prop where
  fits : call.physical_address + call.size ≤ 2 ^ 52
  range : X86.CanonicalRange call.request
  mappable : X86.Mappable paging tables call.physicalWord (.ofNat 64 hhdmOffset) call.sizeWord

/-- The processor finds the byte in the direct map. -/
def ReadX86 (paging : X86.Paging) (tables : TableMemory) (hhdmOffset : ℕ) (physical : Word64) :
    Prop :=
  Direct (X86.translate paging tables.tables) (.ofNat 64 hhdmOffset) physical

theorem MapPartialCall.each_onX86 (reachable : X86.Reachable paging pool tables)
    (aligned : hhdmOffset % 4096 = 0) (within : call.flagsWord &&& ~~~pageFlagsMask = 0#64)
    (virtual : call.virtualWord = call.physicalWord + BitVec.ofNat 64 hhdmOffset)
    (mappable : call.MappableX86 paging tables.tables hhdmOffset)
    (mapped : call.onX86 paging pool tables = .ok tables') :
    call.Each (ReadX86 paging tables' hhdmOffset) := by
  rcases mappable with ⟨fits, range, mappable⟩
  rw [onX86, virtual] at mapped
  rw [request, virtual] at range
  intro offset inside
  rw [← sizeWord_toNat fits] at inside
  exact X86.mapPartial_direct reachable within (hhdmOffset_aligned aligned)
    (physicalWord_add_sizeWord fits) range mapped mappable inside

end X86

theorem emptyTables_mappableX86 : ∀ call ∈ [entryCall, tableCall],
    call.MappableX86 X86.kernelPaging X86.emptyTables.tables higherHalf := by
  have vacant : ∀ call ∈ [entryCall, tableCall], ∀ offset < call.sizeWord.toNat,
      X86.translate X86.kernelPaging X86.emptyTables.tables
        (call.physicalWord + BitVec.ofNat 64 offset + BitVec.ofNat 64 higherHalf) = none := by
    decide +kernel
  intro call mem
  refine ⟨?_, ?_, fun offset inside covered => ?_⟩
  · revert call
    decide
  · revert call
    decide
  · rcases covered with ⟨translation, translates, -⟩
    rw [vacant call mem offset inside] at translates
    cases translates

section Aarch64

variable {paging : Aarch64.Paging} {pool : InitialPool paging.pageTableOffset}
variable {memory0 memory1 memory2 tables tables' : TableMemory} {call : MapPartialCall}

/-- The call on the tables of aarch64. -/
def MapPartialCall.onAarch64 (paging : Aarch64.Paging) (pool : InitialPool paging.pageTableOffset)
    (tables : TableMemory) (call : MapPartialCall) : Except Panic TableMemory :=
  Aarch64.mapPartial paging pool tables call.physicalWord call.virtualWord call.sizeWord
    call.flagsWord

/-- The range has frames, and lies in the higher half. -/
structure MapPartialCall.MappableAarch64 (call : MapPartialCall) : Prop where
  fits : call.physical_address + call.size ≤ 2 ^ 52
  range : Aarch64.HighRange call.request.virtualAddress call.request.numPages call.request.size

/-- The flags with which `init` maps the pages: only those of a 64-bit entry are accessible. -/
def entryFlags (response : Response) : Word64 :=
  .ofNat 64 (if response.entry_64 ≠ 0 then 0x700 else 0)

/-- The processor finds the byte in the direct map, on a page with these flags. -/
def ReadAarch64 (paging : Aarch64.Paging) (tables : TableMemory) (hhdmOffset : ℕ)
    (flags physical : Word64) : Prop :=
  Aarch64.DirectPage paging tables.tables (.ofNat 64 hhdmOffset) flags physical

theorem MapPartialCall.each_onAarch64 (halves : paging.higherHalfOffset ≤ Aarch64.higherHalfStart)
    (both : Aarch64.BothSound paging pool tables)
    (aligned : hhdmOffset % 4096 = 0) (within : call.flagsWord &&& ~~~pageFlagsMask = 0#64)
    (virtual : call.virtualWord = call.physicalWord + BitVec.ofNat 64 hhdmOffset)
    (mappable : call.MappableAarch64) (mapped : call.onAarch64 paging pool tables = .ok tables') :
    call.Each fun physical =>
      Aarch64.higherHalfStart ≤ physical + BitVec.ofNat 64 hhdmOffset ∧
        ReadAarch64 paging tables' hhdmOffset call.flagsWord physical := by
  rcases mappable with ⟨fits, range⟩
  rw [onAarch64, virtual] at mapped
  rw [request, virtual] at range
  intro offset inside
  rw [← sizeWord_toNat fits] at inside
  have alignedWord := hhdmOffset_aligned aligned
  have fitsWords := physicalWord_add_sizeWord fits
  exact ⟨Aarch64.directRequest_high alignedWord fitsWords range inside,
    Aarch64.mapPartial_direct halves both within alignedWord fitsWords range mapped inside⟩

end Aarch64

end Dvnetos.Smbios
