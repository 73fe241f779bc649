import Mathlib.Data.List.Basic
import Mathlib.Tactic.Common

/-!
# Files in a header

This file models `wrap_string` and `bin2h` of `CMake/bin2h.cmake`, with which the build puts the
font into `font_data.h`. A header is read by the tokens of its declarations, so the contents of a
file can be compared with the array that the compiler sees. A character is a byte of a CMake
string.
-/

namespace Dvnetos.Bin2h

/-- A text of CMake or C. -/
abbrev Text := List Char

/-- The `while` loop of `wrap_string`, with its variables. -/
def wrapLoop (string : Text) {column : ℕ} (positive : 0 < column) (stringLength offset : ℕ)
    (lines : Text) : Text :=
  if 0 < stringLength then
    let length := if column < stringLength then column else stringLength
    let line := (string.drop offset).take length
    wrapLoop string positive (stringLength - length) (offset + length) (lines ++ '\n' :: line)
  else lines
termination_by stringLength
decreasing_by split_ifs <;> omega

/-- `wrap_string(VARIABLE variable AT_COLUMN column)`. -/
def wrapString (string : Text) {column : ℕ} (positive : 0 < column) : Text :=
  wrapLoop string positive string.length 0 []

/-- A byte as `file(READ ... HEX)` writes it. -/
def hexPair (byte : UInt8) : Text :=
  [(byte.toNat / 16).digitChar, (byte.toNat % 16).digitChar]

/-- `file(READ file variable HEX)`. -/
def hexString (bytes : List UInt8) : Text := bytes.flatMap hexPair

/-- `[0-9a-f]`. -/
def isHex (c : Char) : Bool := ('0' ≤ c && c ≤ '9') || ('a' ≤ c && c ≤ 'f')

/-- `string(REGEX REPLACE "([0-9a-f][0-9a-f])" "0x\\1, " ...)`. -/
def replacePairs : Text → Text
  | first :: second :: rest =>
      if isHex first && isHex second then
        '0' :: 'x' :: first :: second :: ',' :: ' ' :: replacePairs rest
      else first :: replacePairs (second :: rest)
  | rest => rest

/-- `string(REGEX REPLACE ", $" "" ...)`. -/
def dropComma (string : Text) : Text :=
  match string.reverse with
  | ' ' :: ',' :: front => front.reverse
  | _ => string

/-- The characters that `MAKE_C_IDENTIFIER` leaves as they are. -/
def isWord (c : Char) : Bool := c.isAlphanum || c = '_'

/-- `string(MAKE_C_IDENTIFIER ...)`. -/
def makeCIdentifier (name : Text) : Text :=
  let name := if name.head?.any Char.isDigit then '_' :: name else name
  name.map fun c => if isWord c then c else '_'

/-- The arguments of `bin2h`, with the contents of the source file. -/
structure Call where
  sourceFile : List UInt8
  variableName : Text
  append : Bool
  nullTerminate : Bool

/-- `arrayValues`. -/
def Call.arrayValues (call : Call) : Text :=
  let hex := hexString call.sourceFile
  let hex := if call.nullTerminate then hex ++ ['0', '0'] else hex
  dropComma (replacePairs (wrapString hex (show 0 < 32 by decide)))

/-- `arraySize`, from the length without the appended byte. -/
def Call.arraySize (call : Call) : ℕ := (hexString call.sourceFile).length / 2

/-- The definition of the array. -/
def arrayDefinition (name values : Text) : Text :=
  -- The two escapes are the braces of the initializer.
  "const unsigned char ".toList ++ name ++ "[] = \x7b ".toList ++ values ++ " \x7d;".toList

/-- The definition of the size of the array. -/
def arraySizeDefinition (name : Text) (size : ℕ) : Text :=
  "const size_t ".toList ++ name ++ "_SIZE = ".toList ++ Nat.toDigits 10 size ++ ";".toList

/-- What the header has for one call: both definitions. -/
def Call.declarations (call : Call) : Text :=
  let name := makeCIdentifier call.variableName
  arrayDefinition name call.arrayValues ++ "\n\n".toList ++
    arraySizeDefinition name call.arraySize ++ "\n\n".toList

/-- A call for a header with these contents. Without a digit `string(LENGTH)` stops the build. -/
def bin2h (header : Text) (call : Call) : Option Text :=
  if call.sourceFile = [] then none
  else if call.append then some (header ++ call.declarations)
  else some call.declarations

/-- A token of C: a word, or a sign of its own. -/
inductive Token where
  | word (characters : Text)
  | sign (c : Char)
  deriving DecidableEq

/-- The word that has been read, if there is one. -/
def finishWord (word : Text) : List Token := if word = [] then [] else [.word word]

/-- The tokens of a text behind the start of a word. -/
def tokensFrom : Text → Text → List Token
  | word, [] => finishWord word
  | word, c :: rest =>
      if isWord c then tokensFrom (word ++ [c]) rest
      else if c = ' ' || c = '\n' then finishWord word ++ tokensFrom [] rest
      else finishWord word ++ .sign c :: tokensFrom [] rest

/-- The tokens of a text. -/
def tokens (text : Text) : List Token := tokensFrom [] text

/-- The value of a digit of hexadecimal numerals in lower case. -/
def hexValue (c : Char) : Option ℕ :=
  if '0' ≤ c && c ≤ '9' then some (c.toNat - 48)
  else if 'a' ≤ c && c ≤ 'f' then some (c.toNat - 87)
  else none

/-- An integer constant of two hexadecimal digits. -/
def parseByte : Text → Option UInt8
  | ['0', 'x', first, second] => do
      let high ← hexValue first
      let low ← hexValue second
      return UInt8.ofNat (16 * high + low)
  | _ => none

/-- The values up to the closing brace, and what is behind it. -/
def parseValues : List Token → Option (List UInt8 × List Token)
  | .word value :: .sign ',' :: rest => do
      let byte ← parseByte value
      let (bytes, rest) ← parseValues rest
      return (byte :: bytes, rest)
  | .word value :: .sign '}' :: rest => do
      let byte ← parseByte value
      return ([byte], rest)
  | _ => none

/-- An array with the constant that holds its size. -/
structure Embedded where
  name : Text
  bytes : List UInt8
  size : ℕ
  deriving DecidableEq

/-- A name of C: no empty word, and no number. -/
def isName (word : Text) : Bool := !word.isEmpty && !word.head?.any Char.isDigit

/-- The array and the constant in front of the tokens. -/
def parseEmbedded : List Token → Option (Embedded × List Token)
  | .word const :: .word unsigned :: .word char :: .word name :: .sign '[' :: .sign ']' ::
      .sign '=' :: .sign '{' :: rest =>
      if const = "const".toList ∧ unsigned = "unsigned".toList ∧ char = "char".toList ∧
          isName name then
        match parseValues rest with
        | some (bytes, .sign ';' :: .word const :: .word sizeT :: .word sizeName :: .sign '=' ::
            .word size :: .sign ';' :: rest) =>
            if const = "const".toList ∧ sizeT = "size_t".toList ∧
                sizeName = name ++ "_SIZE".toList ∧ size.all Char.isDigit then
              some (⟨name, bytes, Nat.ofDigitChars 10 size 0⟩, rest)
            else none
        | _ => none
      else none
  | _ => none

/-- The definitions that tokens stand for, one after another. -/
def parseTokens : ℕ → List Token → Option (List Embedded)
  | _, [] => some []
  | 0, _ => none
  | fuel + 1, list => do
      let (embedded, rest) ← parseEmbedded list
      let others ← parseTokens fuel rest
      return embedded :: others

/-- What a header declares. -/
def parseHeader (header : Text) : Option (List Embedded) :=
  parseTokens (tokens header).length (tokens header)

/-- Pairs of digits in lines: behind a newline stands a pair. -/
inductive Lines : List UInt8 → Text → Prop where
  | nil : Lines [] []
  | newline {byte : UInt8} {bytes : List UInt8} {text : Text} (lines : Lines (byte :: bytes) text) :
      Lines (byte :: bytes) ('\n' :: text)
  | byte (byte : UInt8) {bytes : List UInt8} {text : Text} (lines : Lines bytes text) :
      Lines (byte :: bytes) (hexPair byte ++ text)

theorem lines_hexString (bytes : List UInt8) : Lines bytes (hexString bytes) := by
  induction bytes with
  | nil => exact .nil
  | cons byte bytes ih => exact .byte byte ih

theorem Lines.append {first second : List UInt8} {text rest : Text} (lines : Lines first text)
    (others : Lines second rest) : Lines (first ++ second) (text ++ rest) := by
  induction lines with
  | nil => exact others
  | newline _ ih => exact .newline ih
  | byte byte _ ih =>
      rw [List.append_assoc]
      exact .byte byte ih

theorem length_hexString (bytes : List UInt8) : (hexString bytes).length = 2 * bytes.length := by
  induction bytes with
  | nil => rfl
  | cons byte bytes ih =>
      rw [hexString, List.flatMap_cons, List.length_append, ← hexString, ih, List.length_cons]
      simp only [hexPair, List.length_cons, List.length_nil]
      omega

theorem drop_hexString (bytes : List UInt8) (count : ℕ) :
    (hexString bytes).drop (2 * count) = hexString (bytes.drop count) := by
  induction count generalizing bytes with
  | zero => rfl
  | succ count ih =>
      cases bytes with
      | nil => simp [hexString]
      | cons byte bytes => exact ih bytes

theorem take_hexString (bytes : List UInt8) (count : ℕ) :
    (hexString bytes).take (2 * count) = hexString (bytes.take count) := by
  induction count generalizing bytes with
  | zero => rfl
  | succ count ih =>
      cases bytes with
      | nil => simp [hexString]
      | cons byte bytes =>
          have pair : (hexString (byte :: bytes)).take (2 * (count + 1)) =
              hexPair byte ++ (hexString bytes).take (2 * count) := rfl
          rw [pair, ih bytes]
          rfl

/-- A column that is even leaves the pairs together. -/
theorem wrapLoop_lines {bytes : List UInt8} {pairs done stringLength offset : ℕ} {text : Text}
    (positive : 0 < 2 * pairs) (remaining : stringLength = 2 * (bytes.length - done))
    (start : offset = 2 * done) (lines : Lines (bytes.take done) text) :
    Lines bytes (wrapLoop (hexString bytes) positive stringLength offset text) := by
  induction stringLength using Nat.strongRecOn generalizing done offset text with
  | _ stringLength ih =>
      rw [wrapLoop]
      by_cases more : 0 < stringLength
      · let count := min pairs (bytes.length - done)
        have length : (if 2 * pairs < stringLength then 2 * pairs else stringLength) =
            2 * count := by
          split_ifs <;> omega
        have line : ((hexString bytes).drop (2 * done)).take (2 * count) =
            hexString ((bytes.drop done).take count) := by
          rw [drop_hexString, take_hexString]
        have next : Lines (bytes.take (done + count))
            (text ++ '\n' :: hexString ((bytes.drop done).take count)) := by
          rw [List.take_add]
          apply lines.append
          -- the line is not empty
          cases taken : (bytes.drop done).take count with
          | nil =>
              have none := congrArg List.length taken
              rw [List.length_take, List.length_drop, List.length_nil] at none
              omega
          | cons byte rest => exact .newline (lines_hexString (byte :: rest))
        rw [if_pos more]
        simp only [length, start, line]
        exact ih (stringLength - 2 * count) (by omega) (by omega) (by omega) next
      · rw [if_neg more]
        rwa [List.take_of_length_le (show bytes.length ≤ done by omega)] at lines

theorem wrapString_lines (bytes : List UInt8) {pairs : ℕ} (positive : 0 < 2 * pairs) :
    Lines bytes (wrapString (hexString bytes) positive) := by
  have start : Lines (bytes.take 0) [] := .nil
  exact wrapLoop_lines positive (length_hexString bytes) rfl start

theorem isHex_digitChar : ∀ digit < 16, isHex digit.digitChar = true := by decide

theorem isWord_digitChar : ∀ digit < 16, isWord digit.digitChar = true := by decide

theorem hexValue_digitChar : ∀ digit < 16, hexValue digit.digitChar = some digit := by decide

/-- An array element. -/
def constant (byte : UInt8) : Text := '0' :: 'x' :: hexPair byte

theorem byte_halves (byte : UInt8) : byte.toNat / 16 < 16 ∧ byte.toNat % 16 < 16 := by
  have := byte.toNat_lt
  omega

theorem parseByte_constant (byte : UInt8) : parseByte (constant byte) = some byte := by
  rcases byte_halves byte with ⟨high, low⟩
  simp only [constant, hexPair, parseByte, hexValue_digitChar _ high, hexValue_digitChar _ low,
    Option.bind_eq_bind, Option.bind_some, Option.pure_def, Nat.div_add_mod, UInt8.ofNat_toNat]

theorem isWord_constant (byte : UInt8) : ∀ c ∈ constant byte, isWord c = true := by
  rcases byte_halves byte with ⟨high, low⟩
  simp only [constant, hexPair, List.forall_mem_cons, isWord_digitChar _ high,
    isWord_digitChar _ low, List.not_mem_nil, false_implies, implies_true, and_true]
  decide

theorem replacePairs_newline (text : Text) :
    replacePairs ('\n' :: text) = '\n' :: replacePairs text := by
  cases text with
  | nil => rfl
  | cons c rest =>
      rw [replacePairs, if_neg]
      simp [show isHex '\n' = false from rfl]

theorem replacePairs_hexPair (byte : UInt8) (text : Text) :
    replacePairs (hexPair byte ++ text) = constant byte ++ ',' :: ' ' :: replacePairs text := by
  rcases byte_halves byte with ⟨high, low⟩
  simp only [hexPair, constant, List.cons_append, List.nil_append, replacePairs,
    isHex_digitChar _ high, isHex_digitChar _ low, Bool.and_self, if_true]

theorem tokensFrom_word {word chars : Text} (rest : Text) (isWords : ∀ c ∈ chars, isWord c = true) :
    tokensFrom word (chars ++ rest) = tokensFrom (word ++ chars) rest := by
  induction chars generalizing word with
  | nil => rw [List.nil_append, List.append_nil]
  | cons c chars ih =>
      rcases List.forall_mem_cons.mp isWords with ⟨first, others⟩
      rw [List.cons_append, tokensFrom, if_pos first, ih others, List.append_assoc]
      rfl

theorem finishWord_of_ne_nil {word : Text} (nonempty : word ≠ []) :
    finishWord word = [.word word] := if_neg nonempty

/-- The tokens of the elements. -/
def valueTokens : List UInt8 → List Token
  | [] => []
  | [byte] => [.word (constant byte)]
  | byte :: bytes => .word (constant byte) :: .sign ',' :: valueTokens bytes

/-- The values without the last comma, as they are read in front of the closing brace. -/
theorem replacePairs_lines {bytes : List UInt8} {text : Text} (lines : Lines bytes text)
    (nonempty : bytes ≠ []) :
    ∃ front, replacePairs text = front ++ [',', ' '] ∧
      ∀ rest, tokensFrom [] (front ++ ' ' :: rest) = valueTokens bytes ++ tokensFrom [] rest := by
  induction lines with
  | nil => exact absurd rfl nonempty
  | newline _ ih =>
      rcases ih (List.cons_ne_nil _ _) with ⟨front, replaced, read⟩
      refine ⟨'\n' :: front, by rw [replacePairs_newline, replaced, List.cons_append], ?_⟩
      exact read
  | @byte byte bytes text lines ih =>
      have constantRead (rest : Text) :
          tokensFrom [] (constant byte ++ rest) = tokensFrom (constant byte) rest :=
        tokensFrom_word rest (isWord_constant byte)
      rw [replacePairs_hexPair]
      cases bytes with
      | nil =>
          cases lines
          refine ⟨constant byte, rfl, fun rest => ?_⟩
          rw [constantRead]
          rfl
      | cons next others =>
          rcases ih (List.cons_ne_nil _ _) with ⟨front, replaced, read⟩
          refine ⟨constant byte ++ ',' :: ' ' :: front, by simp [replaced], fun rest => ?_⟩
          rw [List.append_assoc, constantRead]
          change .word (constant byte) :: .sign ',' :: tokensFrom [] (front ++ ' ' :: rest) = _
          rw [read]
          rfl

theorem dropComma_append (front : Text) : dropComma (front ++ [',', ' ']) = front := by
  simp [dropComma]

/-- The bytes of the array. -/
def Call.bytes (call : Call) : List UInt8 :=
  call.sourceFile ++ if call.nullTerminate then [0] else []

theorem hexString_bytes (call : Call) :
    (if call.nullTerminate then hexString call.sourceFile ++ ['0', '0']
      else hexString call.sourceFile) = hexString call.bytes := by
  rw [Call.bytes]
  split_ifs
  · rw [hexString, hexString, List.flatMap_append]
    rfl
  · rw [List.append_nil]

theorem Call.bytes_ne_nil {call : Call} (contents : call.sourceFile ≠ []) : call.bytes ≠ [] :=
  List.append_ne_nil_of_left_ne_nil contents _

theorem arrayValues_tokens {call : Call} (contents : call.sourceFile ≠ []) (rest : Text) :
    tokensFrom [] (call.arrayValues ++ ' ' :: rest) =
      valueTokens call.bytes ++ tokensFrom [] rest := by
  have lines := wrapString_lines call.bytes (show 0 < 2 * 16 by decide)
  rcases replacePairs_lines lines (Call.bytes_ne_nil contents) with ⟨front, replaced, read⟩
  rw [Call.arrayValues]
  simp only [hexString_bytes]
  rw [replaced, dropComma_append]
  exact read rest

theorem parseValues_tokens {bytes : List UInt8} (nonempty : bytes ≠ []) (rest : List Token) :
    parseValues (valueTokens bytes ++ .sign '}' :: rest) = some (bytes, rest) := by
  induction bytes with
  | nil => exact absurd rfl nonempty
  | cons byte bytes ih =>
      cases bytes with
      | nil => simp [valueTokens, parseValues, parseByte_constant]
      | cons next others =>
          have later := ih (List.cons_ne_nil _ _)
          simp [valueTokens, parseValues, parseByte_constant, later]

theorem isWord_makeCIdentifier (name : Text) : ∀ c ∈ makeCIdentifier name, isWord c = true := by
  simp only [makeCIdentifier, List.forall_mem_map]
  intro c _
  split_ifs with isWords
  · exact isWords
  · decide

theorem makeCIdentifier_ne_nil {name : Text} (named : name ≠ []) : makeCIdentifier name ≠ [] := by
  rw [makeCIdentifier]
  split_ifs
  · simp
  · simpa using named

/-- The name that `MAKE_C_IDENTIFIER` makes is one. -/
theorem isName_makeCIdentifier {name : Text} (named : name ≠ []) :
    isName (makeCIdentifier name) = true := by
  cases name with
  | nil => exact absurd rfl named
  | cons c rest =>
      rw [makeCIdentifier]
      by_cases digit : c.isDigit = true
      · simp [isName, digit, show isWord '_' = true from rfl,
          show Char.isDigit '_' = false from rfl]
      · simp only [Bool.not_eq_true] at digit
        simp only [List.head?_cons, Option.any_some, digit, Bool.false_eq_true, if_false,
          List.map_cons, isName, List.isEmpty_cons, Bool.not_false, Bool.true_and]
        split_ifs
        · rw [digit]
          rfl
        · rfl

theorem arraySize_eq (call : Call) : call.arraySize = call.sourceFile.length := by
  rw [Call.arraySize, length_hexString]
  omega

theorem isDigit_toDigits (n : ℕ) : ∀ c ∈ Nat.toDigits 10 n, c.isDigit = true := fun _ mem =>
  Nat.isDigit_of_mem_toDigits (by decide) (by decide) mem

theorem isWord_toDigits (n : ℕ) : ∀ c ∈ Nat.toDigits 10 n, isWord c = true := fun c mem => by
  simp [isWord, Char.isAlphanum, isDigit_toDigits n c mem]

/-- The tokens of the definition of an array, in front of its values. -/
def arrayTokens (name : Text) : List Token :=
  [.word "const".toList, .word "unsigned".toList, .word "char".toList, .word name, .sign '[',
    .sign ']', .sign '=', .sign '{']

/-- The tokens of the definition of a size. -/
def sizeTokens (name : Text) (size : ℕ) : List Token :=
  [.word "const".toList, .word "size_t".toList, .word (name ++ "_SIZE".toList), .sign '=',
    .word (Nat.toDigits 10 size), .sign ';']

/-- The tokens of the declarations. -/
def Call.tokens (call : Call) : List Token :=
  let name := makeCIdentifier call.variableName
  arrayTokens name ++ valueTokens call.bytes ++ .sign '}' :: .sign ';' ::
    sizeTokens name call.sourceFile.length

section Definitions

variable {name : Text} (words : ∀ c ∈ name, isWord c = true) (nonempty : name ≠ [])

include words nonempty

theorem arrayDefinition_tokens {values : Text} {list : List Token}
    (read : ∀ rest, tokensFrom [] (values ++ ' ' :: rest) = list ++ tokensFrom [] rest)
    (rest : Text) :
    tokensFrom [] (arrayDefinition name values ++ rest) =
      arrayTokens name ++ list ++ .sign '}' :: .sign ';' :: tokensFrom [] rest := by
  have start (text : Text) : tokensFrom [] ("const unsigned char ".toList ++ text) =
      [.word "const".toList, .word "unsigned".toList, .word "char".toList] ++
        tokensFrom [] text := by
    simp [tokensFrom, isWord, finishWord]
  have opening (text : Text) : tokensFrom name ("[] = \x7b ".toList ++ text) =
      finishWord name ++ ([.sign '[', .sign ']', .sign '=', .sign '{'] ++
        tokensFrom [] text) := by
    simp [tokensFrom, isWord, finishWord]
  have closing (text : Text) : " \x7d;".toList ++ text = ' ' :: '}' :: ';' :: text := by simp
  have stop (text : Text) :
      tokensFrom [] ('}' :: ';' :: text) = .sign '}' :: .sign ';' :: tokensFrom [] text := by
    simp [tokensFrom, isWord, finishWord]
  unfold arrayDefinition arrayTokens
  simp only [List.append_assoc]
  rw [start, tokensFrom_word _ words, List.nil_append, opening, closing, read, stop,
    finishWord_of_ne_nil nonempty]
  simp only [List.cons_append, List.nil_append]

theorem arraySizeDefinition_tokens (size : ℕ) (rest : Text) :
    tokensFrom [] (arraySizeDefinition name size ++ rest) =
      sizeTokens name size ++ tokensFrom [] rest := by
  have sizeNonempty : name ++ "_SIZE".toList ≠ [] := List.append_ne_nil_of_left_ne_nil nonempty _
  have digits : Nat.toDigits 10 size ≠ [] := Nat.toDigits_ne_nil
  have start (text : Text) : tokensFrom [] ("const size_t ".toList ++ text) =
      [.word "const".toList, .word "size_t".toList] ++ tokensFrom [] text := by
    simp [tokensFrom, isWord, finishWord]
  have suffix (text : Text) :
      "_SIZE = ".toList ++ text = "_SIZE".toList ++ (" = ".toList ++ text) := by
    simp
  have suffixWords : ∀ c ∈ "_SIZE".toList, isWord c = true := by simp [isWord]
  have equals (word text : Text) : tokensFrom word (" = ".toList ++ text) =
      finishWord word ++ .sign '=' :: tokensFrom [] text := by
    simp [tokensFrom, isWord, finishWord]
  have stop (word text : Text) : tokensFrom word (";".toList ++ text) =
      finishWord word ++ .sign ';' :: tokensFrom [] text := by
    simp [tokensFrom, isWord]
  unfold arraySizeDefinition sizeTokens
  simp only [List.append_assoc]
  rw [start, tokensFrom_word _ words, List.nil_append, suffix, tokensFrom_word _ suffixWords,
    equals, tokensFrom_word _ (isWord_toDigits size), List.nil_append, stop,
    finishWord_of_ne_nil sizeNonempty, finishWord_of_ne_nil digits]
  simp only [List.cons_append, List.nil_append]

end Definitions

theorem declarations_tokens {call : Call} (named : call.variableName ≠ [])
    (contents : call.sourceFile ≠ []) (rest : Text) :
    tokensFrom [] (call.declarations ++ rest) = call.tokens ++ tokensFrom [] rest := by
  have words := isWord_makeCIdentifier call.variableName
  have nonempty := makeCIdentifier_ne_nil named
  have lines (text : Text) : tokensFrom [] ("\n\n".toList ++ text) = tokensFrom [] text := by
    simp [tokensFrom, isWord, finishWord]
  unfold Call.declarations Call.tokens
  simp only [List.append_assoc, arraySize_eq]
  rw [arrayDefinition_tokens words nonempty (arrayValues_tokens contents), lines,
    arraySizeDefinition_tokens words nonempty, lines]
  simp only [List.append_assoc, List.cons_append]

/-- What a call declares. -/
def Call.embedded (call : Call) : Embedded where
  name := makeCIdentifier call.variableName
  bytes := call.bytes
  size := call.sourceFile.length

theorem parseEmbedded_tokens {call : Call} (named : call.variableName ≠ [])
    (contents : call.sourceFile ≠ []) (rest : List Token) :
    parseEmbedded (call.tokens ++ rest) = some (call.embedded, rest) := by
  have values := parseValues_tokens (Call.bytes_ne_nil contents)
  have number : Nat.ofDigitChars 10 (Nat.toDigits 10 call.sourceFile.length) 0 =
      call.sourceFile.length := Nat.ofDigitChars_toDigits (by decide) (by decide)
  have digits : (Nat.toDigits 10 call.sourceFile.length).all Char.isDigit = true :=
    List.all_eq_true.mpr (isDigit_toDigits _)
  simp only [Call.tokens, arrayTokens, sizeTokens, List.cons_append, List.nil_append,
    List.append_assoc, parseEmbedded, isName_makeCIdentifier named, values, digits, number,
    and_self, if_true, Call.embedded]

/-- What a header declares behind a call. -/
def declare (declared : List Embedded) (call : Call) : List Embedded :=
  if call.append then declared ++ [call.embedded] else [call.embedded]

/-- A header that consists of declarations. -/
def Declares (header : Text) (declared : List Embedded) : Prop :=
  ∃ calls : List Call, (∀ call ∈ calls, call.variableName ≠ [] ∧ call.sourceFile ≠ []) ∧
    header = calls.flatMap Call.declarations ∧ declared = calls.map Call.embedded

theorem Declares.step {header : Text} {declared : List Embedded} {call : Call}
    (declares : Declares header declared) (named : call.variableName ≠ [])
    (contents : call.sourceFile ≠ []) :
    ∃ header', bin2h header call = some header' ∧ Declares header' (declare declared call) := by
  rcases declares with ⟨calls, complete, rfl, rfl⟩
  rw [bin2h, if_neg contents]
  by_cases append : call.append
  · refine ⟨_, if_pos append, calls ++ [call], ?_, ?_, ?_⟩
    · intro other mem
      rcases List.mem_append.mp mem with earlier | last
      · exact complete other earlier
      · rw [List.mem_singleton.mp last]
        exact ⟨named, contents⟩
    · simp
    · simp [declare, append]
  · refine ⟨_, if_neg append, [call], ?_, ?_, ?_⟩
    · simpa using ⟨named, contents⟩
    · simp
    · simp [declare, append]

theorem parseTokens_declares {calls : List Call}
    (complete : ∀ call ∈ calls, call.variableName ≠ [] ∧ call.sourceFile ≠ []) {fuel : ℕ}
    (enough : calls.length ≤ fuel) :
    parseTokens fuel (calls.flatMap Call.tokens) = some (calls.map Call.embedded) := by
  induction calls generalizing fuel with
  | nil => simp [parseTokens]
  | cons call calls ih =>
      rcases List.forall_mem_cons.mp complete with ⟨⟨named, contents⟩, others⟩
      cases fuel with
      | zero => exact absurd enough (Nat.not_succ_le_zero _)
      | succ fuel =>
          have first := parseEmbedded_tokens named contents (calls.flatMap Call.tokens)
          have later := ih others (Nat.le_of_succ_le_succ enough)
          have nonempty : ∃ token rest,
              call.tokens ++ calls.flatMap Call.tokens = token :: rest := ⟨_, _, rfl⟩
          rcases nonempty with ⟨token, rest, shape⟩
          rw [List.flatMap_cons, shape]
          rw [shape] at first
          simp only [parseTokens, first, Option.bind_eq_bind, Option.bind_some, later,
            Option.pure_def, List.map_cons]

theorem Declares.parse {header : Text} {declared : List Embedded}
    (declares : Declares header declared) : parseHeader header = some declared := by
  rcases declares with ⟨calls, complete, rfl, rfl⟩
  have read : tokens (calls.flatMap Call.declarations) = calls.flatMap Call.tokens := by
    induction calls with
    | nil => rfl
    | cons call calls ih =>
        rcases List.forall_mem_cons.mp complete with ⟨⟨named, contents⟩, others⟩
        rw [List.flatMap_cons, List.flatMap_cons, tokens, declarations_tokens named contents]
        exact congrArg _ (ih others)
  have enough : calls.length ≤ (calls.flatMap Call.tokens).length := by
    clear read complete
    induction calls with
    | nil => exact Nat.le_refl _
    | cons call calls ih =>
        have some : 0 < call.tokens.length := Nat.succ_pos _
        rw [List.flatMap_cons, List.length_append, List.length_cons]
        omega
  rw [parseHeader, read]
  exact parseTokens_declares complete enough

/--
A run of calls that starts with no header leaves one from which the compiler reads the contents of
all files since the last call without `APPEND`, with the sizes they have without a closing NUL.
-/
theorem header_round_trip {calls : List Call} (named : ∀ call ∈ calls, call.variableName ≠ [])
    (contents : ∀ call ∈ calls, call.sourceFile ≠ []) :
    ∃ header, calls.foldlM bin2h [] = some header ∧
      parseHeader header = some (calls.foldl declare []) := by
  have run : ∀ (header : Text) (declared : List Embedded), Declares header declared →
      ∃ header', calls.foldlM bin2h header = some header' ∧
        Declares header' (calls.foldl declare declared) := by
    induction calls with
    | nil => exact fun header declared declares => ⟨header, rfl, declares⟩
    | cons call calls ih =>
        intro header declared declares
        rcases List.forall_mem_cons.mp named with ⟨isNamed, othersNamed⟩
        rcases List.forall_mem_cons.mp contents with ⟨hasContents, othersContents⟩
        rcases declares.step isNamed hasContents with ⟨between, written, next⟩
        rcases ih othersNamed othersContents between _ next with ⟨header', rest, final⟩
        refine ⟨header', ?_, final⟩
        rw [List.foldlM_cons, written]
        exact rest
  rcases run [] [] ⟨[], by simp, rfl, rfl⟩ with ⟨header, written, declares⟩
  exact ⟨header, written, declares.parse⟩

/-- The magic number of a font, and a text with its closing NUL. -/
def fontAndText : List Call :=
  [⟨[0x72, 0xB5, 0x4A, 0x86], "font_data".toList, false, false⟩,
    ⟨[0x4F, 0x4B], "2nd file".toList, true, true⟩]

theorem header_round_trip_fontAndText :
    ∃ header, fontAndText.foldlM bin2h [] = some header ∧
      parseHeader header = some
        [⟨"font_data".toList, [0x72, 0xB5, 0x4A, 0x86], 4⟩,
          ⟨"_2nd_file".toList, [0x4F, 0x4B, 0], 2⟩] := by
  have complete : ∀ call ∈ fontAndText, call.variableName ≠ [] ∧ call.sourceFile ≠ [] := by decide
  have declared : fontAndText.foldl declare [] =
      [⟨"font_data".toList, [0x72, 0xB5, 0x4A, 0x86], 4⟩,
        ⟨"_2nd_file".toList, [0x4F, 0x4B, 0], 2⟩] := by decide
  rw [← declared]
  exact header_round_trip (fun call mem => (complete call mem).1) fun call mem =>
    (complete call mem).2

end Dvnetos.Bin2h
