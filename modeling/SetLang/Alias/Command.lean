import SetLang.Alias.File
import SetLang.Host.Script
import SetLang.Text.Blank

/-!
# Alias commands

A session is asked about its aliases by a line that begins with `sugar`: alone it reports them,
with `diff` it reports those beyond the default words, with `load` and a path it reads an alias file,
and with anything else it takes a configuration in JSON. Case does not count in the command words.
-/

namespace SetLang

/-- A text with the capital letters of ASCII made small. -/
def smallLetters (s : String) : String :=
  String.ofList (s.toList.map Char.toLower)

/-- A text without its first characters. -/
def dropFirst (count : Nat) (s : String) : String :=
  String.ofList (s.toList.drop count)

/-- A text's first characters. -/
def takeFirst (count : Nat) (s : String) : String :=
  String.ofList (s.toList.take count)

namespace AliasTable

/-- Extends a table by the alias file at a path. -/
def loadFile (table : AliasTable) (path : String) : Script AliasTable := do
  let file ← Script.tryRead path
  Script.ofExcept (table.load file)

/-- The default words, extended by the alias file at a path if there is one. -/
def ofEnvironment (path : Option String) : Script AliasTable :=
  match path with
  | none => return canonical
  | some path => if path.isEmpty then return canonical else canonical.loadFile path

/-- Reports the bindings beyond the default words. -/
def printAdditions (table : AliasTable) : Script Unit := do
  let added := table.additions
  if added.isEmpty then Script.printLine "[sugar] >>> No aliases beyond the defaults."
  else
    Script.print <| String.join <| (sorted added).map fun (word, kind) =>
      reportLine word kind.name ++ "\n"

/-- Tells why a configuration was refused, and keeps the table. A fault that is no refusal goes on, and
so does that of a refusal that cannot be told. -/
def tellRefusal (table : AliasTable) (fault : Fault) : Script AliasTable :=
  match fault with
  | .aliases cause => do
    Script.printLine "[error] >>> Failed to configure sugar aliases:"
    Script.printWideLine cause.message
    Script.print (String.join (cause.conflicts.map fun conflict => " - " ++ conflict ++ "\n"))
    return table
  | .digitLimit => notConfiguration fault.message
  | _ => .fail fault
where
  /-- Tells why a text is no configuration. -/
  notConfiguration (reason : String) : Script AliasTable := do
    Script.printLine "[error] >>> Sugar configuration must be a JSON object or list:"
    Script.printLine reason
    return table

/-- Extends a table by a configuration in JSON. -/
def configureText (table : AliasTable) (text : String) : Script AliasTable :=
  match Json.readWide text.toList with
  | .error error => tellRefusal.notConfiguration table (error.message text.toList)
  | .ok json =>
    Script.orElse
      (do
        let extended ← Script.ofExcept (table.configure (.ofJson json))
        Script.printLine "[ok] >>> Sugar aliases updated."
        return extended)
      table.tellRefusal

/-- Extends a table by the alias file that a command names, with quotes around the path or not. -/
def loadNamed (table : AliasTable) (argument : String) : Script AliasTable :=
  let path := Text.stripChar '\'' (Text.stripChar '"' (Text.strip argument))
  Script.orElse
    (do
      let extended ← table.loadFile path
      Script.printLine ("[ok] >>> Sugar aliases loaded from " ++ path ++ ".")
      return extended)
    table.tellRefusal

/-- Carries out what follows `sugar` in a command. -/
def carryOut (table : AliasTable) (argument : String) : Script AliasTable :=
  if argument.isEmpty then do
    Script.printLine (table.report true)
    return table
  else if smallLetters argument = "diff" then do
    table.printAdditions
    return table
  else if smallLetters (takeFirst 5 argument) = "load " then table.loadNamed (dropFirst 5 argument)
  else table.configureText argument

/-- The script of an alias command; `none` for a text that is none. -/
def command? (table : AliasTable) (text : String) : Option (Script AliasTable) :=
  let text := Text.strip text
  if smallLetters (takeFirst 5 text) = "sugar" then
    some (table.carryOut (Text.strip (dropFirst 5 text)))
  else none

end AliasTable

end SetLang
