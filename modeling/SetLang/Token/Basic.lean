import SetLang.Number.Integer
import SetLang.Text.Lines
import SetLang.Text.Quoted
import SetLang.Token.Kind

/-!
# `Token`: lexical units

A token has a kind, a value and a place. The value of an integer literal is the integer, that of a
character literal the character; any other token keeps the text it was read from.
-/

namespace SetLang

/-- What a token or a tree node carries besides its kind. -/
inductive Value where
  | absent
  | int (value : Int)
  | text (value : String)
deriving DecidableEq, Repr

/-- A value as messages show it; `none` for an integer past the limit of decimal text. -/
def Value.shown? : Value → Option String
  | .absent => some "None"
  | .int n => Integer.decimal? n
  | .text s => some (Text.quoted s)

/-- A lexical unit of a source text. -/
structure Token where
  kind : TokenKind
  value : Value
  place : Text.Place
deriving DecidableEq, Repr

namespace Token

/-- A token as messages show it; `none` for an integer past the limit of decimal text. -/
def shown? (t : Token) : Option String :=
  t.value.shown?.map fun value => "Token(" ++ t.kind.name ++ ", " ++ value ++ ")"

/-- The place of a token in words. -/
def location (t : Token) : String :=
  "line " ++ Integer.decimal t.place.line ++ ", col " ++ Integer.decimal t.place.column

/-- The token at the end of a text. -/
def endAt (place : Text.Place) : Token :=
  ⟨.endOfText, .text TokenKind.endOfText.name, place⟩

/-- The token of a character that begins no other token. -/
def ofUnknown (c : Char) (place : Text.Place) : Token :=
  ⟨.unknown, .text (String.ofList [c]), place⟩

end Token

end SetLang
