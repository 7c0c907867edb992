import SetLang.Command.Options
import SetLang.Command.Request
import SetLang.Session.Basic

/-!
# The command

Without arguments, without a source, or if it is asked to, the command holds a session; otherwise it
carries out a request.
-/

namespace SetLang

/-- What is left to be done after the script of a command. -/
inductive Activity where
  | nothing
  | exit (code : Nat)
  | execute (program : Program)
  | converse (session : Session)

namespace Command

/-- The table of aliases that options and environment ask for. -/
def aliases (o : Options) (sugarPath : Option String) : Script AliasTable := do
  let table ← AliasTable.ofEnvironment sugarPath
  match o.aliasFile with
  | none => return table
  | some path => if path.isEmpty then return table else table.loadFile path

/-- The request that options make for a source. -/
def request (o : Options) (source : String) (aliases : AliasTable) : Request where
  source := source
  isText := o.isText
  out := o.out
  execute := o.execute
  pretty := o.pretty
  dumpTree := o.dumpTree
  aliases := aliases

/-- Carries out a request and leaves its program, if there is one to execute. -/
def carryOut (r : Request) : Script Activity := do
  match ← r.script with
  | some program => return .execute program
  | none => return .nothing

/-- Holds a session. -/
def converse (verbose : Bool) (aliases : Option AliasTable) (sugarPath : Option String) :
    Script Activity := do
  return .converse (← Session.opening verbose aliases sugarPath)

/-- The script of a command line. -/
def script (arguments : List String) (sugarPath : Option String) : Script Activity := do
  if arguments.isEmpty then converse false none sugarPath
  else
    match Options.read arguments with
    | .error stop => return .exit stop.exitCode
    | .ok o =>
      if o.logLevel.isNone then .fail .noLogLevel
      let table ← aliases o sugarPath
      match o.session, o.source with
      | false, some source => carryOut (request o source table)
      | _, _ => converse o.verbose (some table) sugarPath

end Command

end SetLang
