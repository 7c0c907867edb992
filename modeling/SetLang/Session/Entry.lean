import SetLang.Host.Script
import SetLang.Listing.Emitter
import SetLang.Program.Basic
import SetLang.Tree.Parser

/-!
# Entries

An entry is a program that a session runs. It is parsed, emitted, shown if that is wanted, and
checked before anything of it runs.
-/

namespace SetLang

/-- The program of a tree, or a fault if the tree is no program. -/
def Program.ofTree (tree : Node) : Except Fault Program :=
  match Program.ofNode? tree with
  | some program => .ok program
  | none => .error (.notStatement tree.kind)

/-- Prepares an entry: shows its code if that is wanted, and leaves the program to run. -/
def prepareEntry (resolve : Resolver) (verbose : Bool) (text : String) : Script Program := do
  let tree ← Script.ofExcept (parseText resolve text.toList)
  let listing ← Script.ofExcept (Listing.ofStatements tree)
  if verbose then Script.printLine ("[py] >>>\n" ++ listing.text)
  Script.ofExcept listing.check
  Script.ofExcept (Program.ofTree tree)

/-- What a token adds to the number of open blocks. -/
def depthChange (kind : TokenKind) : Int :=
  match kind with
  | .leftBracket => 1
  | .slash => 1
  | .rightBracket => -1
  | .backslash => -1
  | _ => 0

/-- The number of blocks that a text leaves open; none if it has a lexical fault. -/
def blockDepth (resolve : Resolver) (text : List Char) : Int :=
  match tokenize resolve text with
  | .ok tokens => tokens.foldl (fun depth t => depth + depthChange t.kind) 0
  | .error _ => 0

end SetLang
