import SetLang.Token.Kind

/-!
# Spellings of tokens

The fixed spellings of the marks, predicates and operators, the escapes of character literals, and
the classes of characters that make up words.
-/

namespace SetLang

/-- Every fixed spelling with the kind it denotes. -/
def spellings : List (String × TokenKind) := [
  ("%", .percent), ("Ø", .emptySet), ("∅", .emptySet), ("\x7b", .leftBrace), ("\x7d", .rightBrace),
  (",", .comma), ("*", .asterisk),
  ("⊆", .predicate .subset), ("<=", .predicate .subset),
  ("⊂", .predicate .properSubset), ("<", .predicate .properSubset),
  ("⊄", .predicate .notSubset), ("!<=", .predicate .notSubset),
  ("⊇", .predicate .superset), (">=", .predicate .superset),
  ("⊃", .predicate .properSuperset), (">", .predicate .properSuperset),
  ("⊅", .predicate .notSuperset), ("!>=", .predicate .notSuperset),
  ("=", .predicate .equal),
  ("∪", .operator .union), ("|", .operator .union),
  ("∩", .operator .intersection), ("&", .operator .intersection),
  ("∖", .operator .leftDifference), ("-", .operator .leftDifference),
  ("∸", .operator .rightDifference),
  ("c", .complement), ("::", .colon), (";", .semicolon), ("~", .tilde),
  ("/", .slash), ("\\", .backslash), ("[", .leftBracket), ("]", .rightBracket)]

/-- The kind that a fixed spelling denotes. -/
def spelled? (s : String) : Option TokenKind :=
  spellings.lookup s

/-- The longest spelling that begins a text, with its kind. -/
def spellingAt? (text : List Char) : Option (List Char × TokenKind) :=
  [3, 2, 1].findSome? fun n =>
    let candidate := text.take n
    if candidate.length = n then (spelled? (String.ofList candidate)).map (candidate, ·) else none

/-- The character that an escape of a character literal stands for. -/
def escaped? : Char → Option Char
  | 'n' => some '\n'
  | 't' => some '\t'
  | '\\' => some '\\'
  | '"' => some '"'
  | '\'' => some '\''
  | _ => none

/-- A letter of ASCII or an underscore begins a word. -/
def isWordStart (c : Char) : Bool :=
  c.isAlpha || c == '_'

/-- A letter or digit of ASCII or an underscore continues a word. -/
def isWordChar (c : Char) : Bool :=
  c.isAlphanum || c == '_'

/-- A text of any length is judged as a word start if it is an underscore or consists of letters. -/
def isWordStartText (s : String) : Bool :=
  s == "_" || (!s.isEmpty && s.toList.all Char.isAlpha)

/-- A text of any length is judged as word characters if it is an underscore or consists of letters
and digits. -/
def isWordCharText (s : String) : Bool :=
  s == "_" || (!s.isEmpty && s.toList.all Char.isAlphanum)

/-- Whether a text is a word: a word start followed by word characters. -/
def isWord (s : String) : Bool :=
  match s.toList with
  | c :: rest => isWordStart c && rest.all isWordChar
  | [] => false

end SetLang
