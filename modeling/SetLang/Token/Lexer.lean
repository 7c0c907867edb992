import SetLang.Text.Blank
import SetLang.Token.Cursor
import SetLang.Token.Spelling

/-!
# Lexemes

A text is cut into lexemes with gaps between them. A gap is a run of blanks and of comments, which
reach from a number sign up to the end of the line. A lexeme is a word, a run of digits, a character
literal, or the longest fixed spelling; where none of these begins, one character stands alone as an
unknown token. Words without a fixed spelling are resolved by a table of aliases.
-/

namespace SetLang

/-! ## Gaps -/

/-- The gap at the head of a text, given whether it begins inside a comment. -/
def gapFrom (inComment : Bool) : List Char → List Char
  | [] => []
  | c :: rest =>
    if inComment then c :: gapFrom (c != '\n') rest
    else if isGapStart c then c :: gapFrom (c == '#') rest
    else []
where
  /-- A blank or a number sign begins a gap. -/
  isGapStart (c : Char) : Bool := Text.isBlank c || c == '#'

/-- The gap at the head of a text. -/
def gap (text : List Char) : List Char :=
  gapFrom false text

/-! ## Character literals -/

/-- How the reading of a character literal ends. -/
inductive LiteralEnd where
  | closed (value : Char)
  | failed (cause : LexicalCause)
  | pastEnd
deriving DecidableEq, Repr

/-- Closes a literal after its value, given how many characters were taken. The empty text as a
quote stands for the end of the text, which cannot be taken. -/
def closeLiteral (quote : String) (value : Char) (taken : Nat) : List Char → Nat × LiteralEnd
  | [] => (taken, if quote = "" then .pastEnd else .failed .unterminatedLiteral)
  | c :: _ =>
    if String.ofList [c] = quote then (taken + 1, .closed value)
    else (taken, .failed .unterminatedLiteral)

/-- Reads a character literal up to its closing quote: how many characters that takes and the value.
The first character, whatever it is, stands for the opening quote. -/
def literalBody (quote : String) : List Char → Nat × Except LiteralEnd Char
  | [] => (0, .error .pastEnd)
  | [_] => (1, .error (.failed .unterminatedLiteral))
  | _ :: c :: rest =>
    if String.ofList [c] = quote then (2, .error (.failed .emptyLiteral))
    else if c = '\\' then
      match rest with
      | [] => (2, .error (.failed .unterminatedLiteral))
      | e :: _ =>
        match escaped? e with
        | some value => (3, .ok value)
        | none => (3, .error (.failed (.unknownEscape e)))
    else (2, .ok c)

/-- Reads a character literal at the head of a text: how many characters it takes and how it
ends. -/
def readLiteral (quote : String) (text : List Char) : Nat × LiteralEnd :=
  match literalBody quote text with
  | (taken, .ok value) => closeLiteral quote value taken (text.drop taken)
  | (taken, .error ending) => (taken, ending)

/-- What comes of a character literal at a place, given the fault of a read past the end. -/
def LiteralEnd.result (kind : TokenKind) (place : Text.Place) (pastEnd : Fault) :
    LiteralEnd → Except Fault Token
  | closed value => .ok ⟨kind, .text (String.ofList [value]), place⟩
  | failed cause => .error (.lexical cause place)
  | .pastEnd => .error pastEnd

/-! ## Tokens at a cursor -/

/-- A table of aliases, as the lexer sees it: the kind that a word stands for. -/
abbrev Resolver := String → Option TokenKind

/-- The kind of a word: its fixed spelling, else its alias, else a plain word. -/
def wordKind (resolve : Resolver) (word : String) : TokenKind :=
  ((spelled? word).or (resolve word)).getD .word

namespace Cursor

/-- Moves over the gap ahead. -/
def skipGap (c : Cursor) : Cursor :=
  c.pass (gap c.ahead).length

/-- Moves up to the end of the line. -/
def skipComment (c : Cursor) : Cursor :=
  c.pass (c.ahead.takeWhile (· != '\n')).length

/-- Takes the longest fixed spelling ahead, if there is one. -/
def spelling? (c : Cursor) : Option (Token × Cursor) :=
  (spellingAt? c.ahead).map fun (text, kind) =>
    (⟨kind, .text (String.ofList text), c.place⟩, c.pass text.length)

/-- Takes a character literal with a given quote. -/
def charLiteral (c : Cursor) (quote : String) (kind : TokenKind) : Except Fault Token × Cursor :=
  let (taken, ending) := readLiteral quote c.ahead
  let after := c.pass taken
  (ending.result kind c.place after.pastEnd, after)

/-- Takes the word ahead. -/
def word (c : Cursor) (resolve : Resolver) : Token × Cursor :=
  let letters := c.ahead.takeWhile isWordChar
  let text := String.ofList letters
  (⟨wordKind resolve text, .text text, c.place⟩, c.pass letters.length)

/-- Takes the run of digits ahead. -/
def integer (c : Cursor) : Except Fault Token × Cursor :=
  let digits := c.ahead.takeWhile isDigit
  let after := c.pass digits.length
  if decimalDigitLimit < digits.length then (.error (.lexical .integerTooLong c.place), after)
  else (.ok ⟨.integer, .int (natOfDigits digits), c.place⟩, after)

/-- Takes the lexeme ahead, which starts with a given character. -/
def lexeme (c : Cursor) (resolve : Resolver) (first : Char) : Except Fault Token × Cursor :=
  if isWordStart first then
    let (token, after) := c.word resolve
    (.ok token, after)
  else if isDigit first then c.integer
  else if first = '"' then c.charLiteral "\"" .quotedChar
  else if first = '\'' then c.charLiteral "'" .testedChar
  else
    match c.spelling? with
    | some (token, after) => (.ok token, after)
    | none => (.ok (.ofUnknown first c.place), c.pass 1)

/-- Takes the next token; at the end of the text there is none. -/
def token? (c : Cursor) (resolve : Resolver) : Option (Except Fault Token × Cursor) :=
  let c := c.skipGap
  c.ahead.head?.map (c.lexeme resolve)

/-- Takes the next token, which is an end mark at the end of the text. -/
def token (c : Cursor) (resolve : Resolver) : Except Fault Token × Cursor :=
  (c.token? resolve).getD (.ok (.endAt c.skipGap.place), c.skipGap)

end Cursor

/-! ## Scans -/

/-- Everything a text yields from a cursor on: a token or a fault for each lexeme, with the cursor
after it, and the cursor at the end. -/
structure Scan where
  results : List (Except Fault Token × Cursor)
  final : Cursor

namespace Scan

/-- Scans on from a cursor. Every lexeme has a character, so the fuel is the number of characters
ahead. -/
def fromCursor (resolve : Resolver) : Nat → Cursor → Scan
  | 0, c => ⟨[], c.skipGap⟩
  | fuel + 1, c =>
    match c.token? resolve with
    | none => ⟨[], c.skipGap⟩
    | some result =>
      let scan := fromCursor resolve fuel result.2
      { scan with results := result :: scan.results }

/-- Scans everything ahead of a cursor. -/
def ofCursor (resolve : Resolver) (c : Cursor) : Scan :=
  fromCursor resolve c.ahead.length c

/-- Collects tokens up to the first fault, with the cursor where the collection ends. -/
def collect (final : Cursor) (done : List Token) :
    List (Except Fault Token × Cursor) → Except Fault (List Token) × Cursor
  | [] => (.ok (done.reverse ++ [.endAt final.place]), final)
  | (.ok token, _) :: rest => collect final (token :: done) rest
  | (.error fault, after) :: _ => (.error fault, after)

/-- All tokens of a scan with the end mark, or its first fault, and the cursor after them. -/
def tokens (scan : Scan) : Except Fault (List Token) × Cursor :=
  collect scan.final [] scan.results

end Scan

/-- The tokens of a text, ending with the end mark, or its first fault. -/
def tokenize (resolve : Resolver) (text : List Char) : Except Fault (List Token) :=
  (Scan.ofCursor resolve (.start text)).tokens.1

end SetLang
