import SetLang.Alias.Command
import SetLang.Machine
import SetLang.Session.Entry

/-!
# `Session`: a conversation line by line

A session collects lines until no block is open, and then takes them as one entry: a command about
the session or its aliases, or a program that runs on the machine of the session. A fault of a
program is told, and the session goes on.
-/

namespace SetLang

/-- The state of a session: whether code is shown, the aliases, the machine, and the lines of the
entry that is being collected. -/
structure Session where
  verbose : Bool
  aliases : AliasTable
  machine : Machine
  pending : List String

/-- What a session does after a line. -/
inductive Reaction where
  /-- It ends. -/
  | leave
  /-- It asks for the next line. -/
  | proceed (session : Session)
  /-- It runs a program before it asks for the next line. -/
  | execute (session : Session) (program : Program)

namespace Session

/-- A session at its first prompt. -/
def fresh (verbose : Bool) (aliases : AliasTable) : Session :=
  ⟨verbose, aliases, .fresh, []⟩

/-- The text that greets. -/
def banner : String := "Zermelo REPL. Type 'exit' or 'quit' to leave.\n"

/-- Greets and begins a session; without a table of aliases it takes that of the environment. -/
def opening (verbose : Bool) (aliases : Option AliasTable) (sugarPath : Option String) :
    Script Session := do
  Script.print banner
  let table ←
    match aliases with
    | some table => pure table
    | none => AliasTable.ofEnvironment sugarPath
  return fresh verbose table

/-- The prompt for the next line. -/
def prompt (s : Session) : String :=
  if s.pending.isEmpty then ">>> " else "... "

/-- How a fault of an entry is told. -/
def faultText (fault : Fault) : String :=
  "[error] >>>\n" ++ fault.className ++ ": " ++ fault.message ++ "\n\n"

/-- Prepares an entry as a program, or tells its fault. -/
def runProgram (s : Session) (text : String) : Script Reaction :=
  Script.orElse
    (do
      let program ← prepareEntry s.aliases.kind? s.verbose text
      return .execute s program)
    fun fault => do
      Script.print (faultText fault)
      return .proceed s

/-- Shows or hides code from now on. -/
def toggleVerbose (s : Session) : Script Reaction := do
  Script.printLine ("[mode] >>> Verbose mode " ++ if s.verbose then "OFF" else "ON")
  return .proceed { s with verbose := !s.verbose }

/-- Shows the machine. -/
def showState (s : Session) : Script Reaction := do
  let shown ← Script.ofExcept s.machine.shown
  Script.printLine ("[state] >>> " ++ shown)
  return .proceed s

/-- Carries out a complete entry without blanks around it. -/
def carryOut (s : Session) (text : String) : Script Reaction :=
  if text.isEmpty || text.toList.head? == some '#' then return .proceed s
  else if smallLetters text = "verbose-mode" then s.toggleVerbose
  else if smallLetters text = "state" then s.showState
  else
    match s.aliases.command? text with
    | some script => do
      let aliases ← script
      return .proceed { s with aliases }
    | none => s.runProgram text

/-- Takes a line. -/
def enter (s : Session) (line : String) : Script Reaction :=
  let word := Text.strip line
  if s.pending.isEmpty && (word == "exit" || word == "quit") then do
    Script.printLine "Exiting Zermelo REPL."
    return .leave
  else
    let lines := s.pending ++ [line]
    let text := Text.joinWith "\n" lines
    if 0 < blockDepth s.aliases.kind? text.toList then return .proceed { s with pending := lines }
    else carryOut { s with pending := [] } (Text.strip text)

/-- The text that a session ends with at the end of the input. -/
def farewell : String := "\nExiting Zermelo REPL.\n"

end Session

end SetLang
