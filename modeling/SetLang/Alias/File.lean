import SetLang.Alias.Table
import SetLang.Json.Reader
import SetLang.Text.Utf8

/-!
# Alias files

An alias file is a JSON object. Each name lists aliases between commas, each value is the symbol of
the kind that they stand for. A file that cannot be read at all is one more refused configuration.
-/

namespace SetLang

/-- The text of a file: its bytes as UTF-8, with one kind of line end. -/
def fileText (bytes : List UInt8) : Except Fault (List Char) :=
  match Text.decodeUtf8 bytes with
  | .ok text => .ok (Text.unifyNewlines text)
  | .error error => .error (.encoding error)

namespace AliasTable

/-- The aliases between the commas of a name, without the blanks around them. -/
def listedAliases (name : WideText) : List WideText :=
  name.strippedPieces ','

/-- The entries of an alias file with their aliases listed. -/
def fileConfig (members : List (WideText × Json WideText)) : Config :=
  .dictOf <| members.map fun (name, value) =>
    (.group ((listedAliases name).map .text), .ofJson value)

/-- The word for the type of a JSON value that is not an object. -/
def jsonTypeName : Json WideText → String
  | .null => "NoneType"
  | .bool _ => "bool"
  | .int _ => "int"
  | .float _ => "float"
  | .string _ => "str"
  | .array _ => "list"
  | .object _ => "dict"

/-- The configuration in the text of an alias file, or why there is none. -/
def parseFile (text : List Char) : Except String Config :=
  match Json.readWide text with
  | .error error => .error (error.message text)
  | .ok (.object members) => .ok (fileConfig members)
  | .ok other => .error ("'" ++ jsonTypeName other ++ "' object has no attribute 'items'")

/-- The configuration in an alias file; whatever keeps it from being read is told as the reason why
the configuration is refused. -/
def readFile (file : Except Fault (List UInt8)) : Except Fault Config :=
  match file.bind fileText with
  | .error fault => .error (.aliases (.unreadable fault.message))
  | .ok text =>
    match parseFile text with
    | .error reason => .error (.aliases (.unreadable reason))
    | .ok config => .ok config

/-- Extends a table by an alias file. -/
def load (table : AliasTable) (file : Except Fault (List UInt8)) : Except Fault AliasTable := do
  table.configure (← readFile file)

end AliasTable

end SetLang
