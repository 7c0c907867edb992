import SetLang.Json.Value
import SetLang.Text.Quoted

/-!
# Writing JSON

A value is written on one line, or with one item or member a line, indented by two blanks a level.
Strings escape the quotation mark, the backslash and the control characters below U+0020 only.
-/

namespace SetLang.Json

/-- One character of a JSON string. -/
def writeChar (c : Char) : List Char :=
  if c = '"' ∨ c = '\\' then ['\\', c]
  else if c = '\n' then ['\\', 'n']
  else if c = '\r' then ['\\', 'r']
  else if c = '\t' then ['\\', 't']
  else if c.toNat = 0x08 then ['\\', 'b']
  else if c.toNat = 0x0C then ['\\', 'f']
  else if c.toNat < 0x20 then '\\' :: 'u' :: Text.hexDigits 4 c.toNat
  else [c]

/-- A JSON string. -/
def writeString (s : String) : List Char :=
  '"' :: s.toList.flatMap writeChar ++ ['"']

/-- How the items of an array or object are set apart. -/
inductive Layout where
  /-- Everything on one line. -/
  | line
  /-- A line for each item, indented by its level. -/
  | block
deriving DecidableEq, Repr

/-- What stands before an item of a level, or before the closing bracket of the level below. -/
def Layout.lineBreak (layout : Layout) (level : Nat) : List Char :=
  match layout with
  | .line => []
  | .block => '\n' :: List.replicate (2 * level) ' '

/-- What stands between two items of a level. -/
def Layout.separator (layout : Layout) (level : Nat) : List Char :=
  match layout with
  | .line => [',', ' ']
  | .block => ',' :: layout.lineBreak level

/-- Encloses written items in brackets; no break stands in empty brackets. -/
def Layout.enclose (layout : Layout) (level : Nat) (opening closing : Char)
    (items : List (List Char)) : List Char :=
  if items.isEmpty then [opening, closing]
  else
    opening :: layout.lineBreak (level + 1) ++
      (layout.separator (level + 1)).intercalate items ++ layout.lineBreak level ++ [closing]

mutual

/-- Writes a value that stands at a level. -/
def writeAt (layout : Layout) (level : Nat) : Json → List Char
  | .null => "null".toList
  | .bool value => (if value then "true" else "false").toList
  | .int value => (Integer.decimal value).toList
  | .float value =>
    match value with
    | .notANumber => "NaN".toList
    | .infinite negative => (if negative then "-Infinity" else "Infinity").toList
    | finite => finite.text.toList
  | .string value => writeString value
  | .array items => layout.enclose level '[' ']' (writeItems layout (level + 1) items)
  | .object members => layout.enclose level '\x7b' '\x7d' (writeMembers layout (level + 1) members)

/-- Writes the items of an array. -/
def writeItems (layout : Layout) (level : Nat) : List Json → List (List Char)
  | [] => []
  | item :: rest => writeAt layout level item :: writeItems layout level rest

/-- Writes the members of an object. -/
def writeMembers (layout : Layout) (level : Nat) : List (String × Json) → List (List Char)
  | [] => []
  | (name, value) :: rest =>
    (writeString name ++ ':' :: ' ' :: writeAt layout level value) ::
      writeMembers layout level rest

end

/-- The text of a value. -/
def write (layout : Layout) (value : Json) : String :=
  String.ofList (writeAt layout 0 value)

end SetLang.Json
