import SetLang.Command.Basic
import SetLang.Program.Run

/-!
# The program

The outer layer: requests of scripts are met by the real files and the real console, programs run
step by step, and sessions go on as long as lines come in. What is asked for and what is answered is
decided by scripts, steps and sessions.
-/

namespace SetLang.Main

/-- The cause that stands for an error of the system. -/
def pathCause (error : IO.Error) : PathCause :=
  match error with
  | .inappropriateType _ code _ => ofCode code
  | .invalidArgument _ code _ => ofCode code
  | .noFileOrDirectory _ code _ => ofCode code
  | .unsatisfiedConstraints code _ => ofCode code
  | _ => .notFound
where
  /-- The cause that stands for an error code of the system. -/
  ofCode (code : UInt32) : PathCause :=
    match code with
    | 20 => .notDirectory
    | 21 => .isDirectory
    | 36 => .nameTooLong
    | _ => .notFound

/-- Does something with a path, with a fault in the place of an error. -/
def withPath {α : Type} (path : String) (action : IO α) : IO (Except Fault α) := do
  try
    return .ok (← action)
  catch error =>
    return .error (.path (pathCause error) path)

/-- Shows a text at once. -/
def say (text : String) : IO Unit := do
  let out ← IO.getStdout
  out.putStr text
  out.flush

/-- Meets the requests of a script. -/
def run {α : Type} : Script α → IO (Except Fault α)
  | .done result => return .ok result
  | .fail fault => return .error fault
  | .say text next => do
    say text
    run next
  | .readFile path next => do
    let bytes ← withPath path (IO.FS.readBinFile path)
    run (next (bytes.map (·.toList)))
  | .writeFile path text next => do
    let result ← withPath path (IO.FS.writeFile path text)
    run (next result)

/-- Asks for one more line of input; nothing more comes at the end of the input. -/
def moreInput (input : List Char) : IO (List Char) := do
  let line ← (← IO.getStdin).getLine
  return input ++ line.toList

/-- Whether the next statement reads. -/
def wantsInput (r : RunState) : Bool :=
  match r.todo with
  | .read :: _ => r.input.isEmpty
  | _ => false

/-- Runs to the end. -/
partial def execute (r : RunState) : IO RunState := do
  let r ← if wantsInput r then pure { r with input := ← moreInput r.input } else pure r
  match r.step with
  | none => return r
  | some (call, next) =>
    if !call.written.isEmpty then say (String.ofList call.written)
    execute next

/-- Tells a fault that ends the program. -/
def tellFault (fault : Fault) : IO UInt32 := do
  IO.eprintln (fault.className ++ ": " ++ fault.message)
  return 1

/-- Holds a session, given the input that is not taken yet. -/
partial def converse (input : List Char) (s : Session) : IO UInt32 := do
  say s.prompt
  let input ← if input.contains '\n' then pure input else moreInput input
  if input.isEmpty then
    say Session.farewell
    return 0
  let line := input.takeWhile (· != '\n')
  let input := input.drop (line.length + 1)
  match ← run (s.enter (String.ofList line)) with
  | .error fault => tellFault fault
  | .ok .leave => return 0
  | .ok (.proceed s) => converse input s
  | .ok (.execute s program) =>
    let r ← execute ⟨program, s.machine, input⟩
    converse r.input { s with machine := r.machine }

end SetLang.Main

/-- Runs the command with the arguments and the environment of the process. -/
def main (arguments : List String) : IO UInt32 := do
  let sugarPath ← IO.getEnv "ZERMELO_SUGAR"
  match ← SetLang.Main.run (SetLang.Command.script arguments sugarPath) with
  | .error fault => SetLang.Main.tellFault fault
  | .ok .nothing => return 0
  | .ok (.exit code) => return code.toUInt32
  | .ok (.execute program) =>
    let _ ← SetLang.Main.execute ⟨program, .fresh, []⟩
    return 0
  | .ok (.converse session) => SetLang.Main.converse [] session
