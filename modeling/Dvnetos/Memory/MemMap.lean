import Dvnetos.Utils.Bytes
import Dvnetos.Utils.Panicf

/-!
# The memory map

This file models what `MemMap::init` of `memory/MemMap.cpp` prints before it hands the map on to
the page tables: a line for every entry that is not reserved, and a line for every type of memory
that there is any of, with the sum of the lengths. The sums do not depend on the order of the
entries, and the lines for the types tell them apart.
-/

namespace Dvnetos.MemMap

open Bytes (bytesToHumanReadable parts textOf)
open Console.VirtualConsole (formattedText)
open Stdio (AppendStop Arg CString Matches chr pointerText rendering)

/-- An entry that the boot loader reports. -/
structure Entry where
  base : BitVec 64
  length : BitVec 64
  type : BitVec 64

/-- What `init` reads of the responses of the boot loader, and the address of its own array. -/
structure Responses where
  entries : List Entry
  physicalBase : BitVec 64
  virtualBase : BitVec 64
  kernelAddress : BitVec 64
  offset : BitVec 64
  stack : BitVec 64

/-- `LIMINE_MEMMAP_RESERVED`. -/
def reserved : BitVec 64 := 1

/-- `LIMINE_MEMMAP_FRAMEBUFFER`. -/
def framebuffer : BitVec 64 := 7

/-- The names of the types of memory, at the numbers that Limine gives them. -/
def memTypeName : List CString :=
  [⟨"usable".toList.map chr, by decide⟩, ⟨"reserved".toList.map chr, by decide⟩,
    ⟨"ACPI reclaimable".toList.map chr, by decide⟩, ⟨"ACPI NVS".toList.map chr, by decide⟩,
    ⟨"bad memory".toList.map chr, by decide⟩,
    ⟨"bootloader reclaimable".toList.map chr, by decide⟩,
    ⟨"kernel and modules".toList.map chr, by decide⟩,
    ⟨"framebuffer".toList.map chr, by decide⟩]

/-- The name of a type that has none. -/
def unknown : CString := ⟨"unknown".toList.map chr, by decide⟩

/-- `getMemMapTypeDescription(typeCode)`. -/
def getMemMapTypeDescription (typeCode : BitVec 64) : CString :=
  if typeCode.toNat < memTypeName.length then memTypeName.getD typeCode.toNat unknown else unknown

/-- The arguments of a call of `kprintf`. -/
structure Print where
  format : CString
  args : List Arg

/-- The text that the call hands to the console, with what is in its `buf` before. -/
def Print.text (buf : ℤ → UInt8) (print : Print) : CString :=
  formattedText buf print.format print.args

/-- `"%lu mem map entries\n"`. -/
def countFormat : CString := ⟨"%lu mem map entries\n".toList.map chr, by decide⟩

/-- `"kernel at %p/%p stack at %p hhdm offset %p\n"`. -/
def kernelFormat : CString :=
  ⟨"kernel at %p/%p stack at %p hhdm offset %p\n".toList.map chr, by decide⟩

/-- `"limine response pointer is %p/%p\n"`. -/
def responseFormat : CString := ⟨"limine response pointer is %p/%p\n".toList.map chr, by decide⟩

/-- `"Entry %d: %p - %p %s %s\n"`. -/
def entryFormat : CString := ⟨"Entry %d: %p - %p %s %s\n".toList.map chr, by decide⟩

/-- `"%s: %s\n"`. -/
def totalFormat : CString := ⟨"%s: %s\n".toList.map chr, by decide⟩

/-- The string in a `buf[256]` with these contents behind `bytesToHumanReadable`. -/
def humanReadable (contents : ℤ → UInt8) (bytes : BitVec 64) : Except AppendStop CString := do
  let final ← bytesToHumanReadable true (.fresh contents) 0 256 bytes.toNat
  return { chars := Stdio.stringIn final.cells 256, noNul := Stdio.stringIn_noNul _ _ }

/-- `perTypeMemory[e->type] += e->length`, if the type is one of the array. -/
def addLength (perTypeMemory : ℕ → BitVec 64) (e : Entry) : ℕ → BitVec 64 :=
  if e.type ≤ framebuffer then
    Function.update perTypeMemory e.type.toNat (perTypeMemory e.type.toNat + e.length)
  else perTypeMemory

/-- The line for the entry at an index, unless it is reserved. -/
def entryPrint (contents : ℤ → UInt8) (i : ℕ) (e : Entry) : Except AppendStop (List Print) :=
  if e.type ≠ reserved then do
    let buf ← humanReadable contents e.length
    return [{
      format := entryFormat
      args := [.int (BitVec.ofNat 32 i), .pointer e.base, .pointer (e.base + e.length),
        .string (some buf), .string (some (getMemMapTypeDescription e.type))] }]
  else return []

/-- The loop over the entries, from an index on, with the stack that `buf` is on. -/
def entryLoop (contents : ℕ → ℤ → UInt8) :
    List Entry → ℕ → (ℕ → BitVec 64) → Except AppendStop (List Print × (ℕ → BitVec 64))
  | [], _, perTypeMemory => .ok ([], perTypeMemory)
  | e :: rest, i, perTypeMemory => do
      let here ← entryPrint (contents i) i e
      let (later, perTypeMemory) ← entryLoop contents rest (i + 1) (addLength perTypeMemory e)
      return (here ++ later, perTypeMemory)

/-- The line for a type, unless there is nothing of it. -/
def totalPrint (perTypeMemory : ℕ → BitVec 64) (i : ℕ) : Except AppendStop (List Print) :=
  if 0 < perTypeMemory i then do
    -- `char buf[256] = {}`
    let buf ← humanReadable (fun _ => 0) (perTypeMemory i)
    return [{
      format := totalFormat
      args := [.string (some (getMemMapTypeDescription (BitVec.ofNat 64 i))),
        .string (some buf)] }]
  else return []

/-- The loop over the types. -/
def totalLoop (perTypeMemory : ℕ → BitVec 64) : List ℕ → Except AppendStop (List Print)
  | [] => .ok []
  | i :: rest => do
      let here ← totalPrint perTypeMemory i
      let later ← totalLoop perTypeMemory rest
      return here ++ later

/-- The three prints in front of the loops. -/
def header (responses : Responses) : List Print :=
  [{ format := countFormat, args := [.long (BitVec.ofNat 64 responses.entries.length)] },
    { format := kernelFormat
      args := [.pointer responses.physicalBase, .pointer responses.virtualBase,
        .pointer responses.stack, .pointer responses.offset] },
    { format := responseFormat
      args := [.pointer responses.kernelAddress,
        .pointer (responses.kernelAddress - responses.offset)] }]

/-- The calls of `kprintf` in `MemMap::init`, in order. -/
def init (responses : Responses) (contents : ℕ → ℤ → UInt8) : Except AppendStop (List Print) := do
  let (entries, perTypeMemory) ← entryLoop contents responses.entries 0 fun _ => 0
  let totals ← totalLoop perTypeMemory (List.range (framebuffer.toNat + 1))
  return header responses ++ entries ++ totals

/-- The console gets this line from a print, whatever is in `buf` before. -/
def Shows (print : Print) (line : List UInt8) : Prop :=
  ∀ buf : ℤ → UInt8, (print.text buf).chars = line

/-- A text without a NUL that has at most `n` characters. -/
structure Bounded (n : ℕ) (chars : List UInt8) : Prop where
  short : chars.length ≤ n
  noNul : (0 : UInt8) ∉ chars

theorem Bounded.append {m n : ℕ} {chars rest : List UInt8} (front : Bounded m chars)
    (back : Bounded n rest) : Bounded (m + n) (chars ++ rest) where
  short := by
    have front := front.short
    have back := back.short
    simp only [List.length_append]
    omega
  noNul := by
    simp only [List.mem_append, not_or]
    exact ⟨front.noNul, back.noNul⟩

theorem Bounded.mono {m n : ℕ} {chars : List UInt8} (bounded : Bounded m chars) (le : m ≤ n) :
    Bounded n chars :=
  ⟨bounded.short.trans le, bounded.noNul⟩

/-- A text that fits into `buf` is shown as a whole. -/
theorem shows_of_rendering {print : Print} {line : List UInt8}
    (matching : Matches print.format.chars print.args)
    (printed : rendering true print.format print.args = line) (bounded : Bounded 1023 line) :
    Shows print line := by
  intro buf
  subst printed
  have short := bounded.short
  have chars := Panic.formattedText_chars buf matching (by omega) bounded.noNul
  rw [List.take_of_length_le short] at chars
  exact chars

/-- A text in a format string. -/
def literal (text : String) : List UInt8 := text.toList.map chr

theorem bounded_literal (text : String) (noNul : (0 : UInt8) ∉ literal text) :
    Bounded (literal text).length (literal text) :=
  ⟨le_rfl, noNul⟩

theorem bounded_pointerText (value : BitVec 64) : Bounded 18 (pointerText value) where
  short := by simp [Stdio.pointerText, Stdio.pointerShifts]
  noNul := Panic.pointerText_noNul value

theorem bounded_decimalText (value : BitVec 32) :
    Bounded 21 (Stdio.decimalText .int value.toInt) where
  short := Stdio.length_decimalText_le ⟨value.le_toInt, Int.le_sub_one_of_lt value.toInt_lt⟩
  noNul := Panic.decimalText_noNul _ _

theorem bounded_digits (value : BitVec 64) :
    Bounded 20 (Stdio.digits 10 Stdio.decimalDigit value.toNat) where
  short := Bytes.length_decimal_le (by decide) (value.isLt.trans (by decide))
  noNul := Panic.digits_noNul _

theorem bounded_textOf (bytes : BitVec 64) : Bounded 40 (textOf (parts bytes.toNat)) where
  short := Bytes.length_textOf_parts_le bytes.isLt
  noNul := Bytes.nul_notMem_textOf _

theorem bounded_description (typeCode : BitVec 64) :
    Bounded 22 (getMemMapTypeDescription typeCode).chars where
  short := by
    simp only [getMemMapTypeDescription]
    split
    · next known =>
        have bound : ∀ code < memTypeName.length,
            (memTypeName.getD code unknown).chars.length ≤ 22 := by decide
        exact bound _ known
    · decide
  noNul := (getMemMapTypeDescription typeCode).noNul

/-- The line for the entry at an index. -/
def entryLine (i : ℕ) (e : Entry) : List UInt8 :=
  literal "Entry " ++ Stdio.decimalText .int i ++ literal ": " ++ pointerText e.base ++
    literal " - " ++ pointerText (e.base + e.length) ++ literal " " ++
    textOf (parts e.length.toNat) ++ literal " " ++ (getMemMapTypeDescription e.type).chars ++
    literal "\n"

/-- The line for a type that there are some bytes of. -/
def totalLine (i bytes : ℕ) : List UInt8 :=
  (getMemMapTypeDescription (BitVec.ofNat 64 i)).chars ++ literal ": " ++ textOf (parts bytes) ++
    literal "\n"

/-- The first lines that `init` prints. -/
def headerLines (responses : Responses) : List (List UInt8) :=
  [Stdio.digits 10 Stdio.decimalDigit responses.entries.length ++ literal " mem map entries\n",
    literal "kernel at " ++ pointerText responses.physicalBase ++ literal "/" ++
      pointerText responses.virtualBase ++ literal " stack at " ++ pointerText responses.stack ++
      literal " hhdm offset " ++ pointerText responses.offset ++ literal "\n",
    literal "limine response pointer is " ++ pointerText responses.kernelAddress ++ literal "/" ++
      pointerText (responses.kernelAddress - responses.offset) ++ literal "\n"]

/-- The lines for the entries that are not reserved, the first of which has this index. -/
def entryLines (entries : List Entry) (first : ℕ) : List (List UInt8) :=
  ((entries.zipIdx first).filter fun (e, _) => e.type ≠ reserved).map fun (e, i) => entryLine i e

/-- The bytes of memory of a type, as a number with 64 bits. -/
def bytesOfType (entries : List Entry) (i : ℕ) : ℕ :=
  ((entries.filter fun e => e.type.toNat = i).map fun e => e.length.toNat).sum % 2 ^ 64

/-- The lines for the types that there are some bytes of. -/
def totalLines (bytes : ℕ → ℕ) : List (List UInt8) :=
  ((List.range 8).filter fun i => bytes i ≠ 0).map fun i => totalLine i (bytes i)

theorem totalLines_congr {bytes other : ℕ → ℕ} (same : ∀ i < 8, bytes i = other i) :
    totalLines bytes = totalLines other := by
  have kept : ((List.range 8).filter fun i => bytes i ≠ 0) =
      (List.range 8).filter fun i => other i ≠ 0 := by
    refine List.filter_congr fun i mem => ?_
    rw [same i (List.mem_range.mp mem)]
  rw [totalLines, totalLines, kept]
  refine List.map_congr_left fun i mem => ?_
  rw [same i (List.mem_range.mp (List.mem_of_mem_filter mem))]

theorem humanReadable_eq (contents : ℤ → UInt8) (bytes : BitVec 64) :
    humanReadable contents bytes =
      .ok ⟨textOf (parts bytes.toNat), (bounded_textOf bytes).noNul⟩ := by
  rcases Bytes.bytesToHumanReadable_text true bytes.isLt contents ⟨256, by decide⟩ (by decide) with
    ⟨final, run, text⟩
  simp only [humanReadable, run]
  simp only [bind, Except.bind, pure, Except.pure, text]

theorem entryFormat_matches (i : BitVec 32) (base top : BitVec 64) (size type : CString) :
    Matches entryFormat.chars
      [.int i, .pointer base, .pointer top, .string (some size), .string (some type)] := by
  refine @Matches.literals (literal "Entry ") (literal "%d: %p - %p %s %s\n") _ (by decide) ?_
  refine .decimal i (.literal (by decide) (.literal (by decide) (.pointer base ?_)))
  refine @Matches.literals (literal " - ") (literal "%p %s %s\n") _ (by decide) ?_
  refine .pointer top (.literal (by decide) (.string _ (.literal (by decide) (.string _ ?_))))
  exact .literal (by decide) .done

theorem totalFormat_matches (type size : CString) :
    Matches totalFormat.chars [.string (some type), .string (some size)] := by
  refine .string _ (.literal (by decide) (.literal (by decide) (.string _ ?_)))
  exact .literal (by decide) .done

theorem countFormat_matches (count : BitVec 64) : Matches countFormat.chars [.long count] := by
  refine .unsignedLong count ?_
  exact @Matches.literals (literal " mem map entries\n") [] _ (by decide) .done

theorem kernelFormat_matches (physical virtual stack offset : BitVec 64) :
    Matches kernelFormat.chars
      [.pointer physical, .pointer virtual, .pointer stack, .pointer offset] := by
  refine @Matches.literals (literal "kernel at ")
    (literal "%p/%p stack at %p hhdm offset %p\n") _ (by decide) ?_
  refine .pointer physical (.literal (by decide) (.pointer virtual ?_))
  refine @Matches.literals (literal " stack at ") (literal "%p hhdm offset %p\n") _ (by decide)
    (.pointer stack ?_)
  refine @Matches.literals (literal " hhdm offset ") (literal "%p\n") _ (by decide) ?_
  exact .pointer offset (.literal (by decide) .done)

theorem responseFormat_matches (response physical : BitVec 64) :
    Matches responseFormat.chars [.pointer response, .pointer physical] := by
  refine @Matches.literals (literal "limine response pointer is ") (literal "%p/%p\n") _
    (by decide) ?_
  exact .pointer response (.literal (by decide) (.pointer physical (.literal (by decide) .done)))

theorem shows_entryLine {i : ℕ} (isInt : i < 2 ^ 31) (e : Entry) (size : CString)
    (printed : size.chars = textOf (parts e.length.toNat)) :
    Shows {
      format := entryFormat
      args := [.int (BitVec.ofNat 32 i), .pointer e.base, .pointer (e.base + e.length),
        .string (some size), .string (some (getMemMapTypeDescription e.type))] }
      (entryLine i e) := by
  have index : (BitVec.ofNat 32 i).toInt = i := by
    rw [BitVec.toInt_eq_toNat_cond, BitVec.toNat_ofNat, Nat.mod_eq_of_lt (by omega),
      if_pos (by omega)]
  have number := bounded_decimalText (BitVec.ofNat 32 i)
  have bytes := bounded_textOf e.length
  rw [index] at number
  rw [← printed] at bytes
  refine shows_of_rendering (entryFormat_matches ..) ?_ ?_
  · have rendered : rendering true entryFormat
        [.int (BitVec.ofNat 32 i), .pointer e.base, .pointer (e.base + e.length),
          .string (some size), .string (some (getMemMapTypeDescription e.type))] =
        literal "Entry " ++ (Stdio.decimalText .int (BitVec.ofNat 32 i).toInt ++ (literal ": " ++
          (pointerText e.base ++ (literal " - " ++ (pointerText (e.base + e.length) ++
            (literal " " ++ (size.chars ++ (literal " " ++
              ((getMemMapTypeDescription e.type).chars ++ literal "\n"))))))))) := rfl
    simp only [rendered, index, printed, entryLine, List.append_assoc]
  · simp only [entryLine, ← printed, List.append_assoc]
    have bounded := (bounded_literal "Entry " (by decide)).append (number.append
      ((bounded_literal ": " (by decide)).append ((bounded_pointerText e.base).append
        ((bounded_literal " - " (by decide)).append
          ((bounded_pointerText (e.base + e.length)).append
            ((bounded_literal " " (by decide)).append (bytes.append
              ((bounded_literal " " (by decide)).append ((bounded_description e.type).append
                (bounded_literal "\n" (by decide)))))))))))
    exact bounded.mono (by decide)

theorem shows_totalLine (i : ℕ) (bytes : BitVec 64) (size : CString)
    (printed : size.chars = textOf (parts bytes.toNat)) :
    Shows {
      format := totalFormat
      args := [.string (some (getMemMapTypeDescription (BitVec.ofNat 64 i))),
        .string (some size)] }
      (totalLine i bytes.toNat) := by
  have bytes := bounded_textOf bytes
  rw [← printed] at bytes
  refine shows_of_rendering (totalFormat_matches ..) ?_ ?_
  · have rendered : rendering true totalFormat
        [.string (some (getMemMapTypeDescription (BitVec.ofNat 64 i))), .string (some size)] =
        (getMemMapTypeDescription (BitVec.ofNat 64 i)).chars ++
          (literal ": " ++ (size.chars ++ literal "\n")) := rfl
    simp only [rendered, printed, totalLine, List.append_assoc]
  · simp only [totalLine, ← printed, List.append_assoc]
    have bounded := (bounded_description (BitVec.ofNat 64 i)).append
      ((bounded_literal ": " (by decide)).append (bytes.append (bounded_literal "\n" (by decide))))
    exact bounded.mono (by decide)

theorem header_shows (responses : Responses) (few : responses.entries.length < 2 ^ 64) :
    List.Forall₂ Shows (header responses) (headerLines responses) := by
  have count : (BitVec.ofNat 64 responses.entries.length).toNat = responses.entries.length :=
    Nat.mod_eq_of_lt few
  refine .cons ?_ (.cons ?_ (.cons ?_ .nil))
  · have number := bounded_digits (BitVec.ofNat 64 responses.entries.length)
    refine shows_of_rendering (countFormat_matches _) ?_ ?_
    · have rendered : rendering true countFormat
          [.long (BitVec.ofNat 64 responses.entries.length)] =
          Stdio.digits 10 Stdio.decimalDigit (BitVec.ofNat 64 responses.entries.length).toNat ++
            literal " mem map entries\n" := rfl
      rw [rendered, count]
    · rw [count] at number
      exact (number.append (bounded_literal " mem map entries\n" (by decide))).mono (by decide)
  · refine shows_of_rendering (kernelFormat_matches ..) ?_ ?_
    · have rendered : rendering true kernelFormat
          [.pointer responses.physicalBase, .pointer responses.virtualBase,
            .pointer responses.stack, .pointer responses.offset] =
          literal "kernel at " ++ (pointerText responses.physicalBase ++ (literal "/" ++
            (pointerText responses.virtualBase ++ (literal " stack at " ++
              (pointerText responses.stack ++ (literal " hhdm offset " ++
                (pointerText responses.offset ++ literal "\n"))))))) := rfl
      simp only [rendered, List.append_assoc]
    · exact ((((((((bounded_literal "kernel at " (by decide)).append
        (bounded_pointerText _)).append (bounded_literal "/" (by decide))).append
        (bounded_pointerText _)).append (bounded_literal " stack at " (by decide))).append
        (bounded_pointerText _)).append (bounded_literal " hhdm offset " (by decide))).append
        (bounded_pointerText _)).append (bounded_literal "\n" (by decide)) |>.mono (by decide)
  · refine shows_of_rendering (responseFormat_matches ..) ?_ ?_
    · have rendered : rendering true responseFormat
          [.pointer responses.kernelAddress,
            .pointer (responses.kernelAddress - responses.offset)] =
          literal "limine response pointer is " ++ (pointerText responses.kernelAddress ++
            (literal "/" ++ (pointerText (responses.kernelAddress - responses.offset) ++
              literal "\n"))) := rfl
      simp only [rendered, List.append_assoc]
    · exact ((((bounded_literal "limine response pointer is " (by decide)).append
        (bounded_pointerText _)).append (bounded_literal "/" (by decide))).append
        (bounded_pointerText _)).append (bounded_literal "\n" (by decide)) |>.mono (by decide)

theorem addLength_toNat (entries : List Entry) (perTypeMemory : ℕ → BitVec 64) {i : ℕ}
    (known : i < 8) :
    (entries.foldl addLength perTypeMemory i).toNat =
      ((perTypeMemory i).toNat +
        ((entries.filter fun e => e.type.toNat = i).map fun e => e.length.toNat).sum) % 2 ^ 64 := by
  induction entries generalizing perTypeMemory with
  | nil => simp [Nat.mod_eq_of_lt (perTypeMemory i).isLt]
  | cons e entries ih =>
      rw [List.foldl_cons, ih]
      by_cases same : e.type.toNat = i
      · have counted : e.type ≤ framebuffer := by
          rw [BitVec.le_def, same]
          exact Nat.le_of_lt_succ known
        simp [addLength, counted, same, BitVec.toNat_add, Nat.add_assoc]
      · have other : addLength perTypeMemory e i = perTypeMemory i := by
          simp only [addLength]
          split
          · exact Function.update_of_ne (Ne.symm same) _ _
          · rfl
        simp [other, same]

theorem entryLines_cons (e : Entry) (entries : List Entry) (i : ℕ) :
    entryLines (e :: entries) i =
      (if e.type ≠ reserved then [entryLine i e] else []) ++ entryLines entries (i + 1) := by
  simp only [entryLines, List.zipIdx_cons, List.filter_cons]
  by_cases kept : e.type = reserved <;> simp [kept]

theorem entryPrint_shows (contents : ℤ → UInt8) {i : ℕ} (isInt : i < 2 ^ 31) (e : Entry) :
    ∃ prints, entryPrint contents i e = .ok prints ∧
      List.Forall₂ Shows prints (if e.type ≠ reserved then [entryLine i e] else []) := by
  simp only [entryPrint, humanReadable_eq]
  by_cases kept : e.type = reserved
  · simp only [ne_eq, kept, not_true_eq_false, if_false]
    exact ⟨[], rfl, .nil⟩
  · simp only [ne_eq, kept, not_false_eq_true, if_true]
    exact ⟨_, rfl, .cons (shows_entryLine isInt e _ rfl) .nil⟩

theorem entryLoop_shows (contents : ℕ → ℤ → UInt8) (entries : List Entry)
    (perTypeMemory : ℕ → BitVec 64) {i : ℕ} (few : i + entries.length ≤ 2 ^ 31) :
    ∃ prints,
      entryLoop contents entries i perTypeMemory =
        .ok (prints, entries.foldl addLength perTypeMemory) ∧
      List.Forall₂ Shows prints (entryLines entries i) := by
  induction entries generalizing i perTypeMemory with
  | nil => exact ⟨[], rfl, .nil⟩
  | cons e entries ih =>
      rw [List.length_cons] at few
      rcases entryPrint_shows (contents i) (by omega : i < 2 ^ 31) e with ⟨here, print, shown⟩
      rcases ih (addLength perTypeMemory e) (by omega : i + 1 + entries.length ≤ 2 ^ 31) with
        ⟨later, loop, rest⟩
      refine ⟨here ++ later, ?_, ?_⟩
      · simp only [entryLoop, print, loop, List.foldl_cons]
        rfl
      · rw [entryLines_cons]
        exact List.rel_append shown rest

theorem totalPrint_shows (perTypeMemory : ℕ → BitVec 64) (i : ℕ) :
    ∃ prints, totalPrint perTypeMemory i = .ok prints ∧
      List.Forall₂ Shows prints
        (if (perTypeMemory i).toNat ≠ 0 then [totalLine i (perTypeMemory i).toNat] else []) := by
  have positive : 0 < perTypeMemory i ↔ (perTypeMemory i).toNat ≠ 0 := by
    rw [BitVec.lt_def]
    exact Nat.pos_iff_ne_zero
  simp only [totalPrint, humanReadable_eq, positive]
  split
  · exact ⟨_, rfl, .cons (shows_totalLine i (perTypeMemory i) _ rfl) .nil⟩
  · exact ⟨[], rfl, .nil⟩

theorem totalLoop_shows (perTypeMemory : ℕ → BitVec 64) (types : List ℕ) :
    ∃ prints, totalLoop perTypeMemory types = .ok prints ∧
      List.Forall₂ Shows prints
        ((types.filter fun i => (perTypeMemory i).toNat ≠ 0).map fun i =>
          totalLine i (perTypeMemory i).toNat) := by
  induction types with
  | nil => exact ⟨[], rfl, .nil⟩
  | cons i types ih =>
      rcases totalPrint_shows perTypeMemory i with ⟨here, print, shown⟩
      rcases ih with ⟨later, loop, rest⟩
      refine ⟨here ++ later, ?_, ?_⟩
      · simp only [totalLoop, print, loop]
        rfl
      · have joined := List.rel_append shown rest
        by_cases some : (perTypeMemory i).toNat = 0
        · simpa [List.filter_cons, some] using joined
        · simpa [List.filter_cons, some] using joined

/-- The bytes of a type do not depend on the order of the entries. -/
theorem bytesOfType_perm {entries other : List Entry} (same : entries.Perm other) (i : ℕ) :
    bytesOfType entries i = bytesOfType other i := by
  rw [bytesOfType, bytesOfType]
  exact congrArg (· % 2 ^ 64) ((same.filter _).map _).sum_eq

/-- A line names its type and its bytes. -/
theorem totalLine_injective {i j m n : ℕ} (known : i < 8) (otherKnown : j < 8)
    (same : totalLine i m = totalLine j n) : i = j ∧ m = n := by
  have names : ∀ i < 8, chr ':' ∉ (getMemMapTypeDescription (BitVec.ofNat 64 i)).chars := by decide
  have differ : ∀ i < 8, ∀ j < 8, (getMemMapTypeDescription (BitVec.ofNat 64 i)).chars =
      (getMemMapTypeDescription (BitVec.ofNat 64 j)).chars → i = j := by decide
  have front (i : ℕ) (known : i < 8) (n : ℕ) : (totalLine i n).takeWhile (· ≠ chr ':') =
      (getMemMapTypeDescription (BitVec.ofNat 64 i)).chars := by
    rw [totalLine, List.append_assoc, List.append_assoc,
      List.takeWhile_append_of_pos fun c mem => by
        simpa using ne_of_mem_of_not_mem mem (names i known)]
    exact List.append_nil _
  have name := congrArg (List.takeWhile (· ≠ chr ':')) same
  rw [front i known, front j otherKnown] at name
  obtain rfl := differ i known j otherKnown name
  simp only [totalLine, List.append_assoc, List.append_cancel_left_eq] at same
  have bytes := congrArg Bytes.readText (List.append_cancel_right same)
  rw [Bytes.readText_textOf (Bytes.parts_ne_nil _), Bytes.readText_textOf (Bytes.parts_ne_nil _),
    Bytes.total_parts, Bytes.total_parts] at bytes
  exact ⟨rfl, bytes⟩

theorem eq_of_mem_totalLines {bytes other : ℕ → ℕ}
    (shown : ∀ line ∈ totalLines bytes, line ∈ totalLines other) {i : ℕ} (known : i < 8)
    (some : bytes i ≠ 0) : bytes i = other i := by
  have mem : totalLine i (bytes i) ∈ totalLines bytes := by
    refine List.mem_map.mpr ⟨i, ?_, rfl⟩
    simpa using ⟨known, some⟩
  rcases List.mem_map.mp (shown _ mem) with ⟨j, kept, same⟩
  simp only [List.mem_filter, List.mem_range] at kept
  rcases totalLine_injective kept.1 known same with ⟨rfl, amount⟩
  exact amount.symm

/-- The lines for the types tell how many bytes there are of each. -/
theorem totalLines_eq_iff (bytes other : ℕ → ℕ) :
    totalLines bytes = totalLines other ↔ ∀ i < 8, bytes i = other i := by
  constructor
  · intro same i known
    by_cases some : bytes i = 0
    · by_cases otherSome : other i = 0
      · rw [some, otherSome]
      · exact (eq_of_mem_totalLines (fun line mem => same ▸ mem) known otherSome).symm
    · exact eq_of_mem_totalLines (fun line mem => same ▸ mem) known some
  · exact totalLines_congr

/--
`init` returns from all of its prints. The console gets a line for every entry that is
not reserved, with its index, and a line for every type that there are some bytes of. The
lines for the types are those of another memory map exactly if it has as many bytes of every
type, whatever the order of its entries.
-/
theorem init_shows (responses : Responses) (few : responses.entries.length < 2 ^ 31)
    (contents : ℕ → ℤ → UInt8) :
    (∃ prints, init responses contents = .ok prints ∧
      List.Forall₂ Shows prints (headerLines responses ++ entryLines responses.entries 0 ++
        totalLines (bytesOfType responses.entries))) ∧
      (∀ other, totalLines (bytesOfType responses.entries) = totalLines (bytesOfType other) ↔
        ∀ i < 8, bytesOfType responses.entries i = bytesOfType other i) ∧
      ∀ other, responses.entries.Perm other →
        totalLines (bytesOfType responses.entries) = totalLines (bytesOfType other) := by
  refine ⟨?_, fun other => totalLines_eq_iff _ _, ?_⟩
  · rcases entryLoop_shows contents responses.entries (fun _ => 0)
      (by omega : 0 + responses.entries.length ≤ 2 ^ 31) with ⟨entries, loop, lines⟩
    rcases totalLoop_shows (responses.entries.foldl addLength fun _ => 0)
      (List.range (framebuffer.toNat + 1)) with ⟨totals, done, types⟩
    refine ⟨header responses ++ entries ++ totals, ?_, ?_⟩
    · simp only [init, loop]
      simp only [bind, Except.bind, done, pure, Except.pure]
    · have front := header_shows responses (by omega)
      have amount : ∀ i < 8, bytesOfType responses.entries i =
          (responses.entries.foldl addLength (fun _ => 0) i).toNat := by
        intro i known
        rw [addLength_toNat _ _ known, bytesOfType]
        simp
      rw [totalLines_congr amount]
      exact List.rel_append (List.rel_append front lines) types
  · intro other same
    exact totalLines_congr fun i _ => bytesOfType_perm same i

/-- A map with two entries of one type, and what it adds up to. -/
theorem init_shows_usable :
    ∃ prints, init ⟨[⟨0, 0x1000, 0⟩, ⟨0x2000, 0x1000, 0⟩], 0, 0, 0, 0, 0⟩ (fun _ _ => 0) =
        .ok prints ∧
      prints.length = 6 := by
  rcases (init_shows ⟨[⟨0, 0x1000, 0⟩, ⟨0x2000, 0x1000, 0⟩], 0, 0, 0, 0, 0⟩ (by decide)
    fun _ _ => 0).1 with ⟨prints, run, lines⟩
  refine ⟨prints, run, ?_⟩
  rw [lines.length_eq]
  decide

end Dvnetos.MemMap
