import SetLang.Command.Basic
import SetLang.Host.Console
import SetLang.Host.Files
import SetLang.Program.Run

/-!
# `Host`: a model of the surroundings

A host has files and a console. On it scripts are run, programs are executed and sessions are held,
up to a number of machine calls. Every round of a session takes a line of the input, so the length
of the input bounds the rounds.
-/

namespace SetLang

/-- Files and a console. -/
structure Host where
  files : Files
  console : Console
deriving DecidableEq, Repr

/-- How an activity ends. -/
inductive Ending where
  | done
  | exit (code : Nat)
  | fault (fault : Fault)
  /-- The machine calls are used up. -/
  | limit
deriving DecidableEq, Repr

namespace Host

/-- Shows a text. -/
def say (h : Host) (text : String) : Host :=
  { h with console := h.console.say text }

/-- Runs a script. -/
def run {α : Type} (h : Host) : Script α → Except Fault α × Host
  | .done result => (.ok result, h)
  | .fail fault => (.error fault, h)
  | .say text next => run (h.say text) next
  | .readFile path next => run h (next (h.files.read path))
  | .writeFile path text next =>
    match h.files.write path text with
    | .ok files => run { h with files } (next (.ok ()))
    | .error fault => run h (next (.error fault))

/-- Executes a program with at most some number of machine calls: how many are left, whether the
program halted, the machine, and the host. -/
def execute (h : Host) (calls : Nat) (machine : Machine) (program : Program) :
    Nat × Bool × Machine × Host :=
  let (left, r, out) := RunState.runFor calls ⟨program, machine, h.console.input⟩ ""
  (left, r.halted, r.machine, { h with console := { h.console with input := r.input } }.say out)

/-- Runs an entry on a machine with at most some number of machine calls: how it ends, the machine
after it, and the host. -/
def runEntry (h : Host) (calls : Nat) (resolve : Resolver) (verbose : Bool) (text : String)
    (machine : Machine) : Ending × Machine × Host :=
  match h.run (prepareEntry resolve verbose text) with
  | (.error fault, h) => (.fault fault, machine, h)
  | (.ok program, h) =>
    match h.execute calls machine program with
    | (_, halted, machine, h) => (if halted then .done else .limit, machine, h)

/-- Holds a session for at most some number of rounds, with at most some number of machine calls. -/
def converse : Nat → Nat → Host → Session → Ending × Session × Host
  | 0, _, h, s => (.limit, s, h)
  | rounds + 1, calls, h, s =>
    let h := { h with console := h.console.prompt s.prompt }
    match h.console.takeLine? with
    | none => (.done, s, h.say Session.farewell)
    | some (line, console) =>
      match run { h with console } (s.enter line) with
      | (.error fault, h) => (.fault fault, s, h)
      | (.ok .leave, h) => (.done, s, h)
      | (.ok (.proceed s), h) => converse rounds calls h s
      | (.ok (.execute s program), h) =>
        match h.execute calls s.machine program with
        | (calls, true, machine, h) => converse rounds calls h { s with machine }
        | (_, false, machine, h) => (.limit, { s with machine }, h)

/-- Holds a session to its end. -/
def holdSession (h : Host) (calls : Nat) (s : Session) : Ending × Session × Host :=
  converse (h.console.input.length + 1) calls h s

/-- Does what a script leaves to be done: how it ends, the machine after it, and the host. -/
def perform (h : Host) (calls : Nat) (script : Script Activity) : Ending × Machine × Host :=
  match h.run script with
  | (.error fault, h) => (.fault fault, .fresh, h)
  | (.ok .nothing, h) => (.done, .fresh, h)
  | (.ok (.exit code), h) => (.exit code, .fresh, h)
  | (.ok (.execute program), h) =>
    match h.execute calls .fresh program with
    | (_, halted, machine, h) => (if halted then .done else .limit, machine, h)
  | (.ok (.converse s), h) =>
    match h.holdSession calls s with
    | (ending, s, h) => (ending, s.machine, h)

end Host

end SetLang
