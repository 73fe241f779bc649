import Dvnetos.Lib.Traced
import Dvnetos.Utils.FormatSyntax
import Dvnetos.Utils.StdioTruncation
import Mathlib.Data.List.GetD

/-!
# What the scanner reads

The scan loop of `kvsnprintf` with the format in memory and its index `i`: every index that is
read is recorded. The loop on the list of the characters goes the same way, so the reads stay
inside the format unless that one runs out of characters. A second read of `format[i]` in one
condition is not recorded again.
-/

namespace Dvnetos.Stdio

open Word

/-- Reading the format, where every event is the index of a read. -/
abbrev Reading := Traced ℕ Stop

section Scanner

variable (format : ℕ → UInt8)

/-- `format[i]`. -/
def readFormat (i : ℕ) : Reading UInt8 := do
  Traced.record i
  pure (format i)

/-- `if (format[i] == c) i++`, with the outcome of the test. -/
def skipIfAt (c : UInt8) (i : ℕ) : Reading (Bool × ℕ) := do
  let x ← readFormat format i
  pure (if x = c then (true, i + 1) else (false, i))

/-- `while ('0' <= format[i] <= '9') { number = number * 10 + (format[i] - '0'); i++; }`. -/
def scanNumberAt : ℕ → ℤ → ℕ → Reading (ℤ × ℕ)
  | 0, _, _ => Traced.halt .outOfFuel
  | fuel + 1, number, i => do
      let x ← readFormat format i
      if chr '0' ≤ x ∧ x ≤ chr '9' then
        scanNumberAt fuel (int32 (number * 10 + (x.toNat - (chr '0').toNat : ℤ))) (i + 1)
      else pure (number, i)

/-- `if (format[i] == 'l' || format[i] == 'h') lengthMod = format[i++]`, with 0 otherwise. -/
def scanLengthModAt (i : ℕ) : Reading (UInt8 × ℕ) := do
  let x ← readFormat format i
  pure (if x = chr 'l' ∨ x = chr 'h' then (x, i + 1) else (0, i))

/-- The conversion specification behind a `%`, up to `i++` behind its type. -/
def scanSpecAt (fuel : ℕ) (i : ℕ) : Reading (FormatSpec × ℕ) := do
  let (zero, i) ← skipIfAt format (chr '0') i
  let (forceSign, i) ← skipIfAt format (chr '+') i
  let (leftJustify, i) ← skipIfAt format (chr '-') i
  let (minLength, i) ← scanNumberAt format fuel 0 i
  let (dot, i) ← skipIfAt format (chr '.') i
  let (precision, i) ← (if dot then scanNumberAt format fuel 0 i else pure (0, i))
  let (lengthMod0, i) ← scanLengthModAt format i
  let (lengthMod1, i) ← (if lengthMod0 = 0 then pure (0, i) else scanLengthModAt format i)
  let type ← readFormat format i
  pure
    ({ type
       padding := if zero then chr '0' else chr ' '
       lengthMod0, lengthMod1, leftJustify, forceSign, minLength, precision }, i + 1)

/-- `format[i] == '%' && format[i + 1] != '\0'` for the character `c` at `i`. -/
def startsConversion (c : UInt8) (i : ℕ) : Reading Bool :=
  if c = chr '%' then do
    let x ← readFormat format (i + 1)
    pure (x ≠ 0)
  else pure false

/-- Where the loop has ended at a NUL. -/
structure LoopExit where
  i : ℕ
  j : ℤ
  sink : Sink

/-- The scan loop of `kvsnprintf`. -/
def scanLoopAt (kernel : Bool) (n : ℕ) :
    ℕ → ℕ → ℤ → Sink → List Arg → Reading LoopExit
  | 0, _, _, _, _ => Traced.halt .outOfFuel
  | fuel + 1, i, j, sink, args => do
      let c ← readFormat format i
      if c = 0 then pure ⟨i, j, sink⟩
      else
        let conversion ← startsConversion format c i
        if conversion then
          let x ← readFormat format (i + 1)
          if x = chr '%' then
            let (sink, _) := putChar 0 n (sink, j) (chr '%')
            scanLoopAt kernel n fuel (i + 2) (int32 (j + 1)) sink args
          else
            let (spec, i) ← scanSpecAt format fuel (i + 1)
            match convert kernel n spec j sink args with
            | .error stop => Traced.halt stop
            | .ok ((sink, returned), args) =>
                scanLoopAt kernel n fuel i (int32 (j + returned)) sink args
        else
          let sink :=
            { buffer := if 1 < rem j n then sink.buffer.store j c else sink.buffer
              total_chars := int32 (sink.total_chars + 1) }
          scanLoopAt kernel n fuel (i + 1) (int32 (j + 1)) sink args

end Scanner

/-- The characters of the format and its NUL are in memory. -/
structure HoldsFormat (format : CString) (memory : ℕ → UInt8) : Prop where
  chars : ∀ i (inside : i < format.chars.length), memory i = format.chars[i]
  terminator : memory format.chars.length = 0

/-- The characters from an index on. -/
structure StandsAt (format : CString) (i : ℕ) (rest : List UInt8) : Prop where
  inside : i ≤ format.chars.length
  dropped : format.chars.drop i = rest

namespace StandsAt

variable {format : CString} {i : ℕ} {x : UInt8} {rest : List UInt8}

theorem next (stands : StandsAt format i (x :: rest)) : StandsAt format (i + 1) rest := by
  have length := congrArg List.length stands.dropped
  rw [List.length_drop, List.length_cons] at length
  refine ⟨by omega, ?_⟩
  rw [← List.drop_drop, stands.dropped, List.drop_one, List.tail_cons]

theorem atEnd (stands : StandsAt format i []) : i = format.chars.length := by
  have length := congrArg List.length stands.dropped
  rw [List.length_drop, List.length_nil] at length
  have inside := stands.inside
  omega

theorem ne_zero (stands : StandsAt format i (x :: rest)) : x ≠ 0 := by
  rintro rfl
  exact format.noNul (List.mem_of_mem_drop (stands.dropped ▸ List.mem_cons_self))

end StandsAt

section Reads

variable {format : CString} {memory : ℕ → UInt8} (holds : HoldsFormat format memory)
variable {i : ℕ} {rest : List UInt8}

/-- The index of the NUL is the last one that may be read. -/
def InFormat (format : CString) (i : ℕ) : Prop := i ≤ format.chars.length

include holds

theorem memory_eq_headD (stands : StandsAt format i rest) : memory i = rest.headD 0 := by
  cases rest with
  | nil =>
      rw [stands.atEnd]
      exact holds.terminator
  | cons x rest =>
      have length := congrArg List.length stands.dropped
      rw [List.length_drop, List.length_cons] at length
      have inside : i < format.chars.length := by omega
      have first := List.drop_eq_getElem_cons inside
      rw [stands.dropped] at first
      rw [holds.chars i inside, List.headD_cons, (List.cons.inj first).1]

theorem readFormat_runs (stands : StandsAt format i rest) :
    Traced.Runs (InFormat format) (readFormat memory i) (rest.headD 0) := by
  rw [← memory_eq_headD holds stands]
  have inside : InFormat format i := stands.inside
  exact Traced.Runs.bind (.record inside) (.pure _)

/-- One character is read, and taken if it passes a test that a NUL does not. -/
theorem takeIf_runs {α : Type} {test : UInt8 → Prop} [DecidablePred test] (notNul : ¬test 0)
    {value : UInt8 → α} {absent : α} {taken : List UInt8 → α × List UInt8}
    (atNul : taken [] = (absent, []))
    (atChar : ∀ x rest,
      taken (x :: rest) = if test x then (value x, rest) else (absent, x :: rest))
    (stands : StandsAt format i rest) :
    ∃ next, StandsAt format next (taken rest).2 ∧
      Traced.Runs (InFormat format)
        (readFormat memory i >>= fun x => pure (if test x then (value x, i + 1) else (absent, i)))
        ((taken rest).1, next) := by
  cases rest with
  | nil =>
      rw [atNul]
      refine ⟨i, stands, (readFormat_runs holds stands).bind ?_⟩
      rw [List.headD_nil, if_neg notNul]
      exact .pure _
  | cons x rest =>
      rw [atChar]
      by_cases passes : test x
      · rw [if_pos passes]
        refine ⟨i + 1, stands.next, (readFormat_runs holds stands).bind ?_⟩
        rw [List.headD_cons, if_pos passes]
        exact .pure _
      · rw [if_neg passes]
        refine ⟨i, stands, (readFormat_runs holds stands).bind ?_⟩
        rw [List.headD_cons, if_neg passes]
        exact .pure _

theorem skipIfAt_runs {c : UInt8} (isChar : c ≠ 0) (stands : StandsAt format i rest) :
    ∃ next, StandsAt format next (skipIf c rest).2 ∧
      Traced.Runs (InFormat format) (skipIfAt memory c i) ((skipIf c rest).1, next) :=
  takeIf_runs holds isChar.symm rfl (fun _ _ => rfl) stands

theorem scanNumberAt_runs {fuel : ℕ} (enough : rest.length < fuel) (number : ℤ)
    (stands : StandsAt format i rest) :
    ∃ next, StandsAt format next (scanNumber number rest).2 ∧
      Traced.Runs (InFormat format) (scanNumberAt memory fuel number i)
        ((scanNumber number rest).1, next) := by
  induction fuel generalizing number i rest with
  | zero => exact absurd enough (Nat.not_lt_zero _)
  | succ fuel ih =>
      cases rest with
      | nil =>
          refine ⟨i, stands, (readFormat_runs holds stands).bind ?_⟩
          rw [List.headD_nil, if_neg (by decide)]
          exact .pure _
      | cons x rest =>
          by_cases digit : chr '0' ≤ x ∧ x ≤ chr '9'
          · rw [scanNumber, if_pos digit]
            rcases ih (Nat.lt_of_succ_lt_succ enough)
              (int32 (number * 10 + (x.toNat - (chr '0').toNat : ℤ))) stands.next with
              ⟨next, standsNext, runs⟩
            refine ⟨next, standsNext, (readFormat_runs holds stands).bind ?_⟩
            rw [List.headD_cons, if_pos digit]
            exact runs
          · rw [scanNumber, if_neg digit]
            refine ⟨i, stands, (readFormat_runs holds stands).bind ?_⟩
            rw [List.headD_cons, if_neg digit]
            exact .pure _

theorem scanLengthModAt_runs (stands : StandsAt format i rest) :
    ∃ next, StandsAt format next (scanLengthMod rest).2 ∧
      Traced.Runs (InFormat format) (scanLengthModAt memory i)
        ((scanLengthMod rest).1, next) :=
  takeIf_runs holds (show ¬((0 : UInt8) = chr 'l' ∨ (0 : UInt8) = chr 'h') by decide) rfl
    (fun _ _ => rfl) stands

/-- `spec.precision`, which is only scanned behind a dot. -/
theorem precision_runs {fuel : ℕ} (enough : rest.length < fuel) (dot : Bool)
    (stands : StandsAt format i rest) :
    ∃ next, StandsAt format next (if dot then scanNumber 0 rest else (0, rest)).2 ∧
      Traced.Runs (InFormat format) (if dot then scanNumberAt memory fuel 0 i else pure (0, i))
        ((if dot then scanNumber 0 rest else (0, rest)).1, next) := by
  cases dot with
  | false => exact ⟨i, stands, .pure _⟩
  | true => exact scanNumberAt_runs holds enough 0 stands

/-- `spec.lengthMod[1]`, which is only scanned behind the first one. -/
theorem secondLength_runs (first : UInt8) (stands : StandsAt format i rest) :
    ∃ next, StandsAt format next (if first = 0 then (0, rest) else scanLengthMod rest).2 ∧
      Traced.Runs (InFormat format) (if first = 0 then pure (0, i) else scanLengthModAt memory i)
        ((if first = 0 then (0, rest) else scanLengthMod rest).1, next) := by
  by_cases none : first = 0
  · simp only [if_pos none]
    exact ⟨i, stands, .pure _⟩
  · simp only [if_neg none]
    exact scanLengthModAt_runs holds stands

/-- Where the index is behind a conversion: one behind the NUL if there was no type. -/
def Behind (format : CString) (next : ℕ) : Option (List UInt8) → Prop
  | none => next = format.chars.length + 1
  | some after => StandsAt format next after

omit holds in
theorem StandsAt.behind (stands : StandsAt format i rest) : Behind format (i + 1) rest.tail? := by
  cases rest with
  | nil => exact congrArg (· + 1) stands.atEnd
  | cons x rest => exact stands.next

theorem scanSpecAt_runs {fuel : ℕ} (enough : rest.length < fuel)
    (stands : StandsAt format i rest) :
    ∃ next, Behind format next (scanSpec rest).2 ∧
      Traced.Runs (InFormat format) (scanSpecAt memory fuel i) ((scanSpec rest).1, next) := by
  rcases skipIfAt_runs holds (show chr '0' ≠ 0 by decide) stands with ⟨i1, stands1, runs1⟩
  rcases skipIfAt_runs holds (show chr '+' ≠ 0 by decide) stands1 with ⟨i2, stands2, runs2⟩
  rcases skipIfAt_runs holds (show chr '-' ≠ 0 by decide) stands2 with ⟨i3, stands3, runs3⟩
  have enough3 := (skipIf_length (chr '-') _).trans
    ((skipIf_length (chr '+') _).trans (skipIf_length (chr '0') rest))
  rcases scanNumberAt_runs holds (enough3.trans_lt enough) 0 stands3 with ⟨i4, stands4, runs4⟩
  have enough4 := (scanNumber_length 0 _).trans enough3
  rcases skipIfAt_runs holds (show chr '.' ≠ 0 by decide) stands4 with ⟨i5, stands5, runs5⟩
  have enough5 := (skipIf_length (chr '.') _).trans enough4
  rcases precision_runs holds (enough5.trans_lt enough) (skipIf (chr '.') _).1 stands5 with
    ⟨i6, stands6, runs6⟩
  rcases scanLengthModAt_runs holds stands6 with ⟨i7, stands7, runs7⟩
  rcases secondLength_runs holds (scanLengthMod _).1 stands7 with ⟨i8, stands8, runs8⟩
  refine ⟨i8 + 1, stands8.behind, ?_⟩
  exact runs1.bind (runs2.bind (runs3.bind (runs4.bind (runs5.bind
    (runs6.bind (runs7.bind (runs8.bind
      ((readFormat_runs holds stands8).bind (.pure _)))))))))

theorem startsConversion_runs {c : UInt8} (stands : StandsAt format i (c :: rest)) :
    Traced.Runs (InFormat format) (startsConversion memory c i)
      (decide (c = chr '%' ∧ rest ≠ [])) := by
  by_cases percent : c = chr '%'
  · have nonempty : (rest.headD 0 ≠ 0) ↔ rest ≠ [] := by
      cases rest with
      | nil => simp
      | cons x rest => simpa using stands.next.ne_zero
    rw [startsConversion, if_pos percent]
    refine (readFormat_runs holds stands.next).bind ?_
    simp only [percent, true_and, nonempty]
    exact .pure _
  · rw [startsConversion, if_neg percent, decide_eq_false fun both => percent both.1]
    exact .pure _

end Reads

/-- A conversion stops for want of an argument, or by a panic. -/
theorem conversionChunk_error {kernel : Bool} {spec : FormatSpec} {args : List Arg} {stop : Stop}
    (stopped : conversionChunk kernel spec args = .error stop) :
    stop = .badArgument ∨ kernel = true ∧ stop = .unsupportedSpecifier spec.type := by
  simp only [conversionChunk, argUnsigned, argInt, argLong, argLongLong, argString, argPointer,
    bind, Except.bind, pure, Except.pure] at stopped
  grind

theorem convert_error {kernel : Bool} {n : ℕ} {spec : FormatSpec} {j : ℤ} {sink : Sink}
    {args : List Arg} {stop : Stop} (stopped : convert kernel n spec j sink args = .error stop) :
    stop = .badArgument ∨ kernel = true ∧ stop = .unsupportedSpecifier spec.type := by
  rw [convert_eq_handle] at stopped
  cases result : conversionChunk kernel spec args with
  | error other =>
      rw [result] at stopped
      rw [← Except.error.inj stopped]
      exact conversionChunk_error result
  | ok chunk =>
      rw [result] at stopped
      cases stopped

/-- The loop on the index goes as the one on the list does. -/
structure Agrees (format : CString) (loop : LoopEnd) (run : Reading LoopExit) : Prop where
  leaves : loop.stop = some .readPastFormat → ¬run.All (InFormat format)
  stays : loop.stop ≠ some .readPastFormat → run.All (InFormat format) ∧
    run.result = match loop.stop with
      | none => .ok ⟨format.chars.length, loop.j, loop.sink⟩
      | some stop => .error stop

theorem Agrees.bind {α : Type} {format : CString} {loop : LoopEnd} {x : Reading α}
    {f : α → Reading LoopExit} {value : α} (runs : Traced.Runs (InFormat format) x value)
    (agrees : Agrees format loop (f value)) : Agrees format loop (x >>= f) := by
  have result := Traced.result_bind runs.returns f
  constructor
  · intro stop all
    exact agrees.leaves stop ((runs.bind_all_iff f).mp all)
  · intro goesOn
    rw [result]
    exact ⟨(runs.bind_all_iff f).mpr (agrees.stays goesOn).1, (agrees.stays goesOn).2⟩

/-- Behind the NUL the loop reads on. -/
theorem leaves_format {format : CString} {memory : ℕ → UInt8} {kernel : Bool} {n fuel : ℕ}
    (positive : 0 < fuel) (j : ℤ) (sink : Sink) (args : List Arg) :
    ¬(scanLoopAt memory kernel n fuel (format.chars.length + 1) j sink args).All
      (InFormat format) := by
  cases fuel with
  | zero => exact absurd positive (Nat.lt_irrefl 0)
  | succ fuel =>
      intro all
      have first := ((Traced.all_bind_iff _ _).mp all).1
      have read := (Traced.all_record_iff _).mp ((Traced.all_bind_iff _ _).mp first).1
      exact Nat.not_succ_le_self _ read

theorem scanLoopAt_agrees {format : CString} {memory : ℕ → UInt8}
    (holds : HoldsFormat format memory) (kernel : Bool) (n : ℕ) {fuel : ℕ} {rest : List UInt8}
    (enough : rest.length < fuel) {i : ℕ} (stands : StandsAt format i rest) (j : ℤ) (sink : Sink)
    (args : List Arg) :
    Agrees format (scanLoop kernel n fuel rest j sink args)
      (scanLoopAt memory kernel n fuel i j sink args) := by
  induction fuel generalizing rest i j sink args with
  | zero => exact absurd enough (Nat.not_lt_zero _)
  | succ fuel ih =>
      refine .bind (readFormat_runs holds stands) ?_
      cases rest with
      | nil =>
          rw [List.headD_nil, if_pos rfl, stands.atEnd]
          exact ⟨fun stop => (nomatch stop), fun _ => ⟨Traced.all_pure _, rfl⟩⟩
      | cons c rest =>
          rw [List.headD_cons, if_neg stands.ne_zero]
          refine .bind (startsConversion_runs holds stands) ?_
          rw [scanLoop]
          by_cases conversion : c = chr '%' ∧ rest ≠ []
          · rw [if_pos (decide_eq_true conversion), if_pos conversion]
            refine .bind (readFormat_runs holds stands.next) ?_
            by_cases percent : rest.headD 0 = chr '%'
            · rw [if_pos percent, if_pos percent]
              cases rest with
              | nil => exact absurd rfl conversion.2
              | cons x rest =>
                  rw [List.length_cons, List.length_cons] at enough
                  exact ih (by omega) stands.next.next _ _ _
            · rw [if_neg percent, if_neg percent]
              have enoughRest := Nat.lt_of_succ_lt_succ enough
              rcases scanSpecAt_runs holds enoughRest stands.next with ⟨next, behind, runs⟩
              refine .bind runs ?_
              simp only
              cases converted : convert kernel n (scanSpec rest).1 j sink args with
              | error stop =>
                  have stopped : stop ≠ .readPastFormat := by
                    rcases convert_error converted with rfl | ⟨-, rfl⟩ <;> exact Stop.noConfusion
                  exact ⟨fun same => absurd (Option.some.inj same) stopped,
                    fun _ => ⟨Traced.all_halt stop, rfl⟩⟩
              | ok result =>
                  cases scanned : (scanSpec rest).2 with
                  | none =>
                      rw [scanned] at behind
                      obtain rfl : next = format.chars.length + 1 := behind
                      refine ⟨fun _ => leaves_format (by omega) _ _ _, ?_⟩
                      exact fun goesOn => absurd rfl goesOn
                  | some after =>
                      rw [scanned] at behind
                      exact ih ((scanSpec_length scanned).trans enoughRest) behind _ _ _
          · have noConversion : ¬decide (c = chr '%' ∧ rest ≠ []) = true := by
              simpa using conversion
            rw [if_neg noConversion, if_neg conversion]
            exact ih (Nat.lt_of_succ_lt_succ enough) stands.next _ _ _

/-- Why the loop ends on these characters. -/
inductive EndsBy (kernel : Bool) (rest : List UInt8) : Option Stop → Prop where
  | noArgument : EndsBy kernel rest (some .badArgument)
  | panic (isKernel : kernel = true) (type : UInt8) :
      EndsBy kernel rest (some (.unsupportedSpecifier type))
  | nul (whole : ¬Phase.text.CutOff rest) : EndsBy kernel rest none
  | leaving (notKernel : kernel = false) (cut : Phase.text.CutOff rest) :
      EndsBy kernel rest (some .readPastFormat)

theorem EndsBy.congr {kernel : Bool} {rest after : List UInt8} {stop : Option Stop}
    (same : Phase.text.CutOff rest ↔ Phase.text.CutOff after) (ends : EndsBy kernel after stop) :
    EndsBy kernel rest stop := by
  cases ends with
  | noArgument => exact .noArgument
  | panic isKernel type => exact .panic isKernel type
  | nul whole => exact .nul (mt same.mp whole)
  | leaving notKernel cut => exact .leaving notKernel (same.mpr cut)

/-- A conversion without a type has the terminating NUL for one. -/
theorem scanSpec_type_of_none {rest : List UInt8} (noType : (scanSpec rest).2 = none) :
    (scanSpec rest).1.type = 0 := by
  simp only [scanSpec] at noType ⊢
  generalize rest6 : (scanLengthMod _) = first at noType ⊢
  generalize (if first.1 = 0 then (0, first.2) else scanLengthMod first.2).2 = last at noType ⊢
  cases last with
  | nil => rfl
  | cons x last => cases noType

/-- The kernel panics at a NUL. -/
theorem conversionChunk_nul {spec : FormatSpec} (nul : spec.type = 0) (args : List Arg) :
    conversionChunk true spec args = .error (.unsupportedSpecifier spec.type) := by
  simp +decide [conversionChunk, nul]

theorem scan_endsBy (kernel : Bool) {fuel : ℕ} {rest : List UInt8} (enough : rest.length < fuel)
    (args : List Arg) : EndsBy kernel rest (scan kernel fuel rest args).2 := by
  induction fuel generalizing rest args with
  | zero => exact absurd enough (Nat.not_lt_zero _)
  | succ fuel ih =>
      cases rest with
      | nil => exact .nul (by decide)
      | cons c rest =>
          have enoughRest := Nat.lt_of_succ_lt_succ enough
          rw [scan]
          by_cases conversion : c = chr '%' ∧ rest ≠ []
          · rw [if_pos conversion]
            rcases conversion with ⟨rfl, nonempty⟩
            by_cases percent : rest.headD 0 = chr '%'
            · rw [if_pos percent]
              cases rest with
              | nil => exact absurd rfl nonempty
              | cons x rest =>
                  obtain rfl : x = chr '%' := percent
                  change EndsBy kernel _ (scan kernel fuel rest args).2
                  have same : Phase.text.CutOff (chr '%' :: chr '%' :: rest) ↔
                      Phase.text.CutOff rest := Iff.rfl
                  exact (ih (Nat.lt_of_succ_lt enoughRest) args).congr same
            · rw [if_neg percent]
              have cut := Phase.cutOff_scanSpec nonempty percent
              simp only
              cases converted : conversionChunk kernel (scanSpec rest).1 args with
              | error stop =>
                  rcases conversionChunk_error converted with rfl | ⟨isKernel, rfl⟩
                  · exact .noArgument
                  · exact .panic isKernel _
              | ok result =>
                  cases scanned : (scanSpec rest).2 with
                  | none =>
                      rw [scanned] at cut
                      refine .leaving ?_ (show Phase.percent.CutOff rest from cut.mpr trivial)
                      cases kernel with
                      | false => rfl
                      | true =>
                          rw [conversionChunk_nul (scanSpec_type_of_none scanned)] at converted
                          cases converted
                  | some after =>
                      rw [scanned] at cut
                      exact (ih ((scanSpec_length scanned).trans enoughRest) result.2).congr cut
          · rw [if_neg conversion]
            refine (ih enoughRest args).congr ?_
            by_cases percent : c = chr '%'
            · obtain rfl : rest = [] := by
                by_contra nonempty
                exact conversion ⟨percent, nonempty⟩
              rw [percent]
              decide
            · rw [Phase.cutOff_cons, Phase.next, if_neg percent]

/-- A conversion has an argument to take, or takes none. -/
theorem exists_takesArg (spec : FormatSpec) :
    (∃ arg, TakesArg spec arg) ∨
      ∀ args, conversionChunk false spec args = .ok (.text [], args) := by
  by_cases number : IsNumber spec.type
  · by_cases long : spec.lengthMod0 = chr 'l'
    · by_cases longLong : spec.lengthMod1 = chr 'l'
      · exact .inl ⟨.longLong 0, number, long, longLong⟩
      · exact .inl ⟨.long 0, number, long, longLong⟩
    · exact .inl ⟨.int 0, .inl ⟨number, long⟩⟩
  · by_cases string : spec.type = chr 's'
    · exact .inl ⟨.string none, string⟩
    · by_cases character : spec.type = chr 'c'
      · exact .inl ⟨.int 0, .inr character⟩
      · by_cases pointer : spec.type = chr 'p'
        · exact .inl ⟨.pointer 0, pointer⟩
        · rw [IsNumber, not_or] at number
          right
          intro args
          simp only [conversionChunk, if_neg number.1, if_neg number.2, if_neg string,
            if_neg character, if_neg pointer, if_neg Bool.false_ne_true]
          rfl

theorem exists_supply (spec : FormatSpec) (args : List Arg) :
    ∃ supply chunk, conversionChunk false spec supply = .ok (chunk, args) := by
  rcases exists_takesArg spec with ⟨arg, takes⟩ | takesNone
  · rcases conversionChunk_of_takesArg false takes args with ⟨chunk, converted⟩
    exact ⟨arg :: args, chunk, converted⟩
  · exact ⟨args, _, takesNone args⟩

/-- Every format has arguments with which no conversion lacks one. -/
theorem exists_args (fuel : ℕ) (rest : List UInt8) :
    ∃ args, (scan false fuel rest args).2 ≠ some .badArgument := by
  induction fuel generalizing rest with
  | zero => exact ⟨[], by cases rest <;> simp [scan]⟩
  | succ fuel ih =>
      cases rest with
      | nil => exact ⟨[], by simp [scan]⟩
      | cons c rest =>
          by_cases conversion : c = chr '%' ∧ rest ≠ []
          · by_cases percent : rest.headD 0 = chr '%'
            · rcases ih rest.tail with ⟨args, supplied⟩
              refine ⟨args, ?_⟩
              rw [scan, if_pos conversion, if_pos percent]
              exact supplied
            · rcases ih ((scanSpec rest).2.getD []) with ⟨args, supplied⟩
              rcases exists_supply (scanSpec rest).1 args with ⟨supply, chunk, converted⟩
              refine ⟨supply, ?_⟩
              rw [scan, if_pos conversion, if_neg percent]
              simp only [converted]
              cases scanned : (scanSpec rest).2 with
              | none => simp
              | some after =>
                  rw [scanned] at supplied
                  exact supplied
          · rcases ih rest with ⟨args, supplied⟩
            refine ⟨args, ?_⟩
            rw [scan, if_neg conversion]
            exact supplied

/-- The scan loop of `kvsnprintf(buffer, n, format, args)`, on a format of this length. -/
def kvsnprintfScan (kernel : Bool) (n : BufferSize) (format : ℕ → UInt8) (length : ℕ)
    (args : List Arg) (contents : ℤ → UInt8) : Reading LoopExit :=
  scanLoopAt format kernel n.bytes (length + 1) 0 0
    { buffer := .fresh contents, total_chars := 0 } args

/-- The run reads nothing behind the NUL, and ends there or in a panic. -/
structure StaysInside (format : CString) (run : Reading LoopExit) : Prop where
  reads : run.All (InFormat format)
  ends : (∃ exit, run.result = .ok exit ∧ exit.i = format.chars.length) ∨
    ∃ type, run.result = .error (.unsupportedSpecifier type)

/-- A memory with nothing but NULs behind the format. -/
theorem holdsFormat_getD (format : CString) :
    HoldsFormat format fun i => format.chars.getD i 0 :=
  ⟨fun _ inside => List.getD_eq_getElem _ _ inside,
    List.getD_eq_default _ _ (Nat.le_refl _)⟩

section Calls

variable {format : CString} {memory : ℕ → UInt8} (holds : HoldsFormat format memory)
variable {kernel : Bool} {args : List Arg}

include holds

theorem kvsnprintfScan_agrees (kernel : Bool) (n : BufferSize) (args : List Arg)
    (contents : ℤ → UInt8) :
    ∃ loop, loop.stop = stop kernel format args ∧
      Agrees format loop (kvsnprintfScan kernel n memory format.chars.length args contents) := by
  have whole : StandsAt format 0 format.chars := ⟨Nat.zero_le _, rfl⟩
  refine ⟨_, ?_, scanLoopAt_agrees holds kernel n.bytes (Nat.lt_succ_self _) whole _ _ _⟩
  rw [scanLoop_eq_putChunks]
  rfl

theorem not_staysInside_of_leaving (leaving : stop kernel format args = some .readPastFormat)
    (n : BufferSize) (contents : ℤ → UInt8) :
    ¬StaysInside format
      (kvsnprintfScan kernel n memory format.chars.length args contents) := by
  rcases kvsnprintfScan_agrees holds kernel n args contents with ⟨loop, same, agrees⟩
  exact fun stays => agrees.leaves (same.trans leaving) stays.reads

theorem staysInside_of_not_leaving (supplied : stop kernel format args ≠ some .badArgument)
    (staying : stop kernel format args ≠ some .readPastFormat) (n : BufferSize)
    (contents : ℤ → UInt8) :
    StaysInside format (kvsnprintfScan kernel n memory format.chars.length args contents) := by
  rcases kvsnprintfScan_agrees holds kernel n args contents with ⟨loop, same, agrees⟩
  rw [← same] at staying
  rcases agrees.stays staying with ⟨reads, result⟩
  refine ⟨reads, ?_⟩
  have endsBy : EndsBy kernel format.chars (stop kernel format args) :=
    scan_endsBy kernel (Nat.lt_succ_self _) args
  rw [same] at staying result
  generalize stop kernel format args = reason at endsBy supplied staying result
  cases endsBy with
  | noArgument => exact absurd rfl supplied
  | panic _ type => exact .inr ⟨type, result⟩
  | nul _ => exact .inl ⟨_, result, rfl⟩
  | leaving _ _ => exact absurd rfl staying

end Calls

/--
The scanner stays inside the format, whatever is behind it in memory, exactly if it is that of
the kernel or the format does not end in the middle of a conversion.
-/
theorem kvsnprintfScan_staysInside_iff (kernel : Bool) (format : CString) :
    (∀ (n : BufferSize) (memory : ℕ → UInt8) (args : List Arg) (contents : ℤ → UInt8),
      HoldsFormat format memory → stop kernel format args ≠ some .badArgument →
        StaysInside format
          (kvsnprintfScan kernel n memory format.chars.length args contents)) ↔
      kernel = true ∨ ¬Phase.EndsInConversion format.chars := by
  have endsBy (args : List Arg) : EndsBy kernel format.chars (stop kernel format args) :=
    scan_endsBy kernel (Nat.lt_succ_self _) args
  constructor
  · intro stays
    by_contra leaving
    rw [not_or, Bool.not_eq_true, Classical.not_not] at leaving
    rcases leaving with ⟨rfl, cut⟩
    rcases exists_args (format.chars.length + 1) format.chars with ⟨args, supplied⟩
    have holds := holdsFormat_getD format
    have inside := stays ⟨0, by decide⟩ _ args (fun _ => 0) holds supplied
    apply not_staysInside_of_leaving holds _ _ _ inside
    change stop false format args ≠ _ at supplied
    have ends := endsBy args
    generalize stop false format args = reason at ends supplied
    cases ends with
    | noArgument => exact absurd rfl supplied
    | panic isKernel _ => cases isKernel
    | nul whole => exact absurd cut whole
    | leaving _ _ => rfl
  · intro condition n memory args contents holds supplied
    refine staysInside_of_not_leaving holds supplied ?_ n contents
    intro leaving
    have ends := endsBy args
    rw [leaving] at ends
    cases ends with
    | leaving notKernel cut =>
        rcases condition with isKernel | whole
        · rw [notKernel] at isKernel
          cases isKernel
        · exact whole cut

/-- Outside of the kernel, the scan of `%5` goes on behind the NUL. -/
theorem kvsnprintfScan_leaves :
    let format : CString := ⟨['%', '5'].map chr, by decide⟩
    HoldsFormat format (fun i => format.chars.getD i 0) ∧
      stop false format [] ≠ some .badArgument ∧
      3 ∈ (kvsnprintfScan false ⟨16, by decide⟩ (fun i => format.chars.getD i 0)
        format.chars.length [] fun _ => 0).events := by
  intro format
  exact ⟨holdsFormat_getD format, by decide, by decide⟩

end Dvnetos.Stdio
