import SetLang.Alias.File
import SetLang.Json.Writer
import SetLang.Session.Entry

/-!
# Requests

A request has a source, which is a text or the path of a source file, and says what becomes of it: its
tree is shown, or its code is shown, written to a file, or executed. Everything that can be refused is
refused before the program runs.
-/

namespace SetLang

/-- What is to become of a source. -/
structure Request where
  source : String
  isText : Bool
  out : Option String
  execute : Bool
  pretty : Bool
  dumpTree : Bool
  aliases : AliasTable

namespace Request

/-- Whether a path names a source file. -/
def isSourcePath (path : String) : Bool :=
  sourceSuffix.toList.isSuffixOf path.toList

/-- The text of the source. -/
def sourceText (r : Request) : Script (List Char) := do
  if r.isText then return r.source.toList
  else if !isSourcePath r.source then .fail .notSourceFile
  else
    let file ← Script.tryRead r.source
    Script.ofExcept (file.bind fileText)

/-- A line between the parts of pretty output. -/
def rule : String := String.ofList (List.replicate 20 '=')

/-- The code of a program between rules. -/
def prettyCode (code : String) : String :=
  Text.joinWith "\n" [rule, "Transpiled Python", rule, code, rule, "", ""]

/-- Shows the tree of a program in JSON. -/
def showTree (r : Request) (tree : Node) : Script Unit :=
  Script.printLine (tree.toJson.write (if r.pretty then .block else .line))

/-- The path of the file that the code is written to; an empty path is none. -/
def outPath (r : Request) : Option String :=
  r.out.filter fun path => !path.isEmpty

/-- Shows the code of a program, if it is wanted or goes nowhere else. -/
def showCode (r : Request) (code : String) : Script Unit := do
  if r.pretty then Script.print (prettyCode code)
  else if r.outPath.isNone && !r.execute then Script.printLine code

/-- Writes the code of a program to a file, if that is wanted. -/
def saveCode (r : Request) (code : String) : Script Unit := do
  match r.outPath with
  | none => return
  | some path =>
    Script.write path (code ++ "\n")
    if r.pretty then Script.printLine ("(wrote to " ++ path ++ ")")

/-- Carries out a request, and leaves the program if it is to be executed. -/
def script (r : Request) : Script (Option Program) := do
  let text ← r.sourceText
  let tree ← Script.ofExcept (parseText r.aliases.kind? text)
  if r.dumpTree then
    r.showTree tree
    return none
  else
    let listing ← Script.ofExcept (Listing.ofProgram tree)
    r.showCode listing.text
    r.saveCode listing.text
    if r.execute then
      if r.pretty then Script.printLine "<<< OUTPUT >>>"
      Script.ofExcept listing.check
      let program ← Script.ofExcept (Program.ofTree tree)
      return some program
    else return none

end Request

end SetLang
