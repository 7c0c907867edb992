import SetLang.Json.Value
import SetLang.Text.Wide

/-!
# Reading JSON

A JSON text is one value with blanks around it. Besides the standard's values the reader takes
`NaN`, `Infinity` and `-Infinity`; of two members with one name the later value counts. An escape may
name half of a pair of code units, and if the other half does not follow, the string holds the half
alone. A text that is refused is refused at a definite character; how deep arrays and objects nest is
no reason to refuse it.
-/

namespace SetLang.Json

/-- Why a text is not JSON. -/
inductive ReadCause where
  | expectedValue
  | expectedName
  | expectedColon
  | expectedComma
  | extraData
  | unterminatedString
  | controlCharacter
  | badEscape
  | badCodeUnit
  | byteOrderMark
deriving DecidableEq, Repr

/-- Why a value could not be read: a fault of the text, with the text from the character at fault
on, or an integer of more digits than decimal text may hold. -/
inductive ReadError where
  | malformed (cause : ReadCause) (rest : List Char)
  | tooManyDigits (count : Nat)
deriving DecidableEq, Repr

/-- The words that name a cause. -/
def ReadCause.message : ReadCause → String
  | .expectedValue => "Expecting value"
  | .expectedName => "Expecting property name enclosed in double quotes"
  | .expectedColon => "Expecting ':' delimiter"
  | .expectedComma => "Expecting ',' delimiter"
  | .extraData => "Extra data"
  | .unterminatedString => "Unterminated string starting at"
  | .controlCharacter => "Invalid control character at"
  | .badEscape => "Invalid \\escape"
  | .badCodeUnit => "Invalid \\uXXXX escape"
  | .byteOrderMark => "Unexpected UTF-8 BOM (decode using utf-8-sig)"

/-- The message of an error in a text: a fault is located by line, column and index. -/
def ReadError.message (text : List Char) : ReadError → String
  | .malformed cause rest =>
    let index := text.length - rest.length
    let place := Text.placeOf text index
    cause.message ++ ": line " ++ Integer.decimal place.line ++ " column " ++
      Integer.decimal place.column ++ " (char " ++ Integer.decimal index ++ ")"
  | .tooManyDigits count =>
    "Exceeds the limit (" ++ Integer.decimal decimalDigitLimit ++
      " digits) for integer string conversion: value has " ++ Integer.decimal count ++
      " digits; use sys.set_int_max_str_digits() to increase the limit"

/-- A blank of JSON. -/
def isSpace (c : Char) : Bool :=
  c == ' ' || c == '\t' || c == '\n' || c == '\r'

/-- Drops blanks. -/
def skipSpace (text : List Char) : List Char :=
  text.dropWhile isSpace

/-- The character that a one-letter escape stands for. -/
def escape? : Char → Option Char
  | '"' => some '"'
  | '\\' => some '\\'
  | '/' => some '/'
  | 'b' => some '\x08'
  | 'f' => some '\x0c'
  | 'n' => some '\n'
  | 'r' => some '\r'
  | 't' => some '\t'
  | _ => none

/-- The code unit that begins a text of four hexadecimal digits and at least one character more. -/
def codeUnit? : List Char → Option Nat
  | a :: b :: c :: d :: _ :: _ => natOfHexDigits? [a, b, c, d]
  | _ => none

/-- Whether a code unit is the first or the second half of a pair. -/
def isHighHalf (unit : Nat) : Bool := 0xD800 ≤ unit && unit ≤ 0xDBFF
@[inherit_doc isHighHalf]
def isLowHalf (unit : Nat) : Bool := 0xDC00 ≤ unit && unit ≤ 0xDFFF

/-- The code point of a code unit. -/
def pointOfUnit (unit : Nat) : CodePoint :=
  if h : 0xD800 ≤ unit ∧ unit ≤ 0xDFFF then .lone ⟨unit, h⟩ else .char (Char.ofNat unit)

/-- The character of a pair of code units. -/
def charOfPair (high low : Nat) : Char :=
  Char.ofNat (0x10000 + (high - 0xD800) * 0x400 + (low - 0xDC00))

/-- The code point of a code-unit escape, given the text after its `u`, and how many characters of
that text it takes: two halves of a pair make one character. -/
def unicodeEscape (text : List Char) : Except ReadError (CodePoint × Nat) :=
  match codeUnit? text with
  | none => .error (.malformed .badCodeUnit ('u' :: text))
  | some unit =>
    match isHighHalf unit, text.drop 4 with
    | true, '\\' :: 'u' :: more =>
      if more.length < 5 then .ok (pointOfUnit unit, 4)
      else
        match codeUnit? more with
        | none => .error (.malformed .badCodeUnit ('u' :: more))
        | some low =>
          .ok (if isLowHalf low then (.char (charOfPair unit low), 10) else (pointOfUnit unit, 4))
    | _, _ => .ok (pointOfUnit unit, 4)

/-- Reads the rest of a string after its opening quotation mark: the text from the mark on, where a
string that does not end is located, and the code points read so far, last first. -/
def readString (opening : List Char) (done : List CodePoint) :
    List Char → Except ReadError (WideText × List Char)
  | [] => .error (.malformed .unterminatedString opening)
  | '"' :: rest => .ok (⟨done.reverse⟩, rest)
  | '\\' :: [] => .error (.malformed .unterminatedString opening)
  | '\\' :: 'u' :: rest =>
    match unicodeEscape rest with
    | .error e => .error e
    | .ok (point, used) => readString opening (point :: done) (rest.drop used)
  | '\\' :: c :: rest =>
    match escape? c with
    | some value => readString opening (.char value :: done) rest
    | none => .error (.malformed .badEscape ('\\' :: c :: rest))
  | c :: rest =>
    if c.toNat < 0x20 then .error (.malformed .controlCharacter (c :: rest))
    else readString opening (.char c :: done) rest
termination_by text => text.length

/-- The digits of an integer part: a zero alone, or a run that starts with another digit. -/
def wholeDigits : List Char → List Char
  | '0' :: _ => ['0']
  | digits => digits.takeWhile isDigit

/-- The digits of a fraction; a point that no digit follows is none. -/
def fractionDigits : List Char → List Char
  | '.' :: rest => rest.takeWhile isDigit
  | _ => []

/-- An exponent with the length of its text; a letter that no digits follow is none. -/
def exponent? : List Char → Option (Int × Nat)
  | e :: rest =>
    if e = 'e' ∨ e = 'E' then
      let (negative, size, rest) :=
        match rest with
        | '-' :: rest => (true, 2, rest)
        | '+' :: rest => (false, 2, rest)
        | rest => (false, 1, rest)
      let digits := rest.takeWhile isDigit
      if digits.isEmpty then none
      else
        let value : Int := natOfDigits digits
        some (if negative then -value else value, size + digits.length)
    else none
  | [] => none

/-- The value of a number; it is an integer if it has neither a fraction nor an exponent. -/
def numberValue (negative : Bool) (whole fraction : List Char) (exponent : Option Int) :
    Except ReadError (Json WideText) :=
  if fraction.isEmpty && exponent.isNone then
    if decimalDigitLimit < whole.length then .error (.tooManyDigits whole.length)
    else
      let value : Int := natOfDigits whole
      .ok (.int (if negative then -value else value))
  else
    let power : Int := exponent.getD 0 - fraction.length
    .ok (.float (.ofDecimal negative (natOfDigits (whole ++ fraction)) power))

/-- Reads a number from behind its sign; `none` where no digit begins it. -/
def readUnsigned (negative : Bool) (text : List Char) :
    Option (Except ReadError (Json WideText × List Char)) :=
  let whole := wholeDigits text
  if whole.isEmpty then none
  else
    let afterWhole := text.drop whole.length
    let fraction := fractionDigits afterWhole
    let afterFraction :=
      if fraction.isEmpty then afterWhole else afterWhole.drop (fraction.length + 1)
    let exponent := exponent? afterFraction
    let rest := afterFraction.drop (exponent.elim 0 (·.2))
    some ((numberValue negative whole fraction (exponent.map (·.1))).map (·, rest))

/-- Reads a number; `none` where no number begins. -/
def readNumber (text : List Char) : Option (Except ReadError (Json WideText × List Char)) :=
  match text with
  | '-' :: rest => readUnsigned true rest
  | _ => readUnsigned false text

/-- The values that are spelled by a word. -/
def wordValues : List (List Char × Json WideText) := [
  ("null".toList, .null), ("true".toList, .bool true), ("false".toList, .bool false),
  ("NaN".toList, .float .notANumber), ("Infinity".toList, .float (.infinite false)),
  ("-Infinity".toList, .float (.infinite true))]

/-- Reads a word or a number. -/
def readScalar (text : List Char) : Except ReadError (Json WideText × List Char) :=
  match wordValues.find? fun (word, _) => word.isPrefixOf text with
  | some (word, value) => .ok (value, text.drop word.length)
  | none => (readNumber text).getD (.error (.malformed .expectedValue text))

mutual

/-- Reads a value at the head of a text. The fuel bounds the nesting. -/
def readValue : Nat → List Char → Except ReadError (Json WideText × List Char)
  | 0, text => .error (.malformed .expectedValue text)
  | fuel + 1, text =>
    match text with
    | '"' :: rest => (readString text [] rest).map fun (s, rest) => (.string s, rest)
    | '[' :: rest =>
      match skipSpace rest with
      | ']' :: rest => .ok (.array [], rest)
      | rest => readItems fuel [] rest
    | '\x7b' :: rest =>
      match skipSpace rest with
      | '\x7d' :: rest => .ok (.object [], rest)
      | rest => readMembers fuel [] rest
    | _ => readScalar text

/-- Reads the items of an array from the head of one, after those read so far, last first. -/
def readItems :
    Nat → List (Json WideText) → List Char → Except ReadError (Json WideText × List Char)
  | 0, _, text => .error (.malformed .expectedValue text)
  | fuel + 1, done, text => do
    let (item, rest) ← readValue fuel text
    match skipSpace rest with
    | ']' :: rest => .ok (.array (item :: done).reverse, rest)
    | ',' :: rest => readItems fuel (item :: done) (skipSpace rest)
    | rest => .error (.malformed .expectedComma rest)

/-- Reads the members of an object from the head of one, after those read so far, last first. -/
def readMembers : Nat → List (WideText × Json WideText) → List Char →
    Except ReadError (Json WideText × List Char)
  | 0, _, text => .error (.malformed .expectedName text)
  | fuel + 1, done, text =>
    match text with
    | '"' :: rest => do
      let (name, rest) ← readString text [] rest
      match skipSpace rest with
      | ':' :: rest =>
        let (value, rest) ← readValue fuel (skipSpace rest)
        match skipSpace rest with
        | '\x7d' :: rest => .ok (.object (membersOf ((name, value) :: done).reverse), rest)
        | ',' :: rest => readMembers fuel ((name, value) :: done) (skipSpace rest)
        | rest => .error (.malformed .expectedComma rest)
      | rest => .error (.malformed .expectedColon rest)
    | _ => .error (.malformed .expectedName text)

end

/-- Reads a text as one value. Every bracket and every separator takes at most two units of fuel, so
twice the length of the text is enough. -/
def readWide (text : List Char) : Except ReadError (Json WideText) :=
  match text with
  | '\uFEFF' :: _ => .error (.malformed .byteOrderMark text)
  | _ => do
    let (value, rest) ← readValue (2 * text.length + 2) (skipSpace text)
    match skipSpace rest with
    | [] => .ok value
    | rest => .error (.malformed .extraData rest)

/-- Reads a text as one value whose texts are shown: a lone half stays the escape that names it. -/
def read (text : List Char) : Except ReadError Json :=
  (readWide text).map (map WideText.shown)

end SetLang.Json
