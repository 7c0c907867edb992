/-!
# `TokenKind`: the kinds of tokens

A token is a literal, a mark of the grammar, one of the seven loop predicates, one of the four set
operators, or something that no production accepts. Every kind has a name, by which aliases, trees
and messages refer to it.
-/

namespace SetLang

/-- A relation that a loop tests between the current set and its guard. -/
inductive Predicate where
  | subset
  | properSubset
  | notSubset
  | superset
  | properSuperset
  | notSuperset
  | equal
deriving DecidableEq, Repr

/-- An operation that combines the current set with an operand. -/
inductive SetOperator where
  | union
  | intersection
  | leftDifference
  | rightDifference
deriving DecidableEq, Repr

/-- The name of a predicate. -/
def Predicate.name : Predicate → String
  | .subset => "SUBSET"
  | .properSubset => "PROPER_SUBSET"
  | .notSubset => "NOT_SUBSET"
  | .superset => "SUPERSET"
  | .properSuperset => "PROPER_SUPERSET"
  | .notSuperset => "NOT_SUPERSET"
  | .equal => "EQUAL"

/-- The name of a set operator. -/
def SetOperator.name : SetOperator → String
  | .union => "UNION"
  | .intersection => "INTERSECTION"
  | .leftDifference => "LEFT_DIFFERENCE"
  | .rightDifference => "RIGHT_DIFFERENCE"

/-- All predicates. -/
def Predicate.all : List Predicate :=
  [.subset, .properSubset, .notSubset, .superset, .properSuperset, .notSuperset, .equal]

/-- All set operators. -/
def SetOperator.all : List SetOperator :=
  [.union, .intersection, .leftDifference, .rightDifference]

/-- The predicate of a name. -/
def Predicate.ofName? (name : String) : Option Predicate :=
  all.find? (·.name == name)

/-- The set operator of a name. -/
def SetOperator.ofName? (name : String) : Option SetOperator :=
  all.find? (·.name == name)

/-- The kind of a token. `word` and `unknown` occur in texts and in no production; `other` is a kind
that no text yields. -/
inductive TokenKind where
  | integer
  | percent
  | emptySet
  | leftBrace
  | rightBrace
  | comma
  | asterisk
  | quotedChar
  | predicate (predicate : Predicate)
  | operator (operator : SetOperator)
  | complement
  | colon
  | semicolon
  | tilde
  | testedChar
  | slash
  | backslash
  | leftBracket
  | rightBracket
  | endOfText
  | word
  | unknown
  | other (name : String)
deriving DecidableEq, Repr

namespace TokenKind

/-- The name of a kind. -/
def name : TokenKind → String
  | integer => "INTEGER"
  | percent => "VARIABLE"
  | emptySet => "EMPTY_SET"
  | leftBrace => "LBRACE"
  | rightBrace => "RBRACE"
  | comma => "COMMA"
  | asterisk => "ASTERISK"
  | quotedChar => "QUOTED_CHAR"
  | predicate p => p.name
  | operator o => o.name
  | complement => "COMPLEMENT"
  | colon => "COLON"
  | semicolon => "SEMICOLON"
  | tilde => "TILDE"
  | testedChar => "APOS_CHAR"
  | slash => "SLASH"
  | backslash => "BACKSLASH"
  | leftBracket => "LBRACKET"
  | rightBracket => "RBRACKET"
  | endOfText => "EOF"
  | word => "IDENT"
  | unknown => "ERROR"
  | other name => name

/-- Every kind that a text can yield. -/
def known : List TokenKind :=
  [integer, percent, emptySet, leftBrace, rightBrace, comma, asterisk, quotedChar] ++
    Predicate.all.map predicate ++ SetOperator.all.map operator ++
    [complement, colon, semicolon, tilde, testedChar, slash, backslash, leftBracket, rightBracket,
      endOfText, word, unknown]

/-- The kind of a name. -/
def ofName (name : String) : TokenKind :=
  (known.find? (·.name == name)).getD (other name)

/-- The kinds that aliases may stand for, in slot order. -/
def canonical : List TokenKind :=
  [percent, emptySet, asterisk] ++ Predicate.all.map predicate ++ SetOperator.all.map operator ++
    [complement, colon, semicolon, tilde, leftBrace, rightBrace, comma, slash, backslash,
      leftBracket, rightBracket]

end TokenKind

end SetLang
