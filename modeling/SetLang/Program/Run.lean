import SetLang.Machine
import SetLang.Program.Basic

/-!
# Running programs

A run is a sequence of calls of the machine. The statements that are still to be done are a list: a
loop whose predicate holds puts its body and itself back in front. Every step makes exactly one call,
so a number of calls bounds a run.
-/

namespace SetLang

/-- The value of an expression. -/
def Expr.eval (var : Int) : Expr → Int
  | literal value => value
  | percent => var

/-- The set of some expressions. -/
def evalSet (var : Int) (elements : List Expr) : IntSet :=
  .of (elements.map (·.eval var))

/-- A call of the machine with its arguments and, where it answers a question, the answer. -/
inductive Call where
  | flip (element : Int)
  | put (c : Char)
  | apply (operator : SetOperator) (operand : IntSet)
  | complement
  | increment
  | read
  | holds (predicate : Predicate) (guard : IntSet) (answer : Bool)
  | matches (c : Char) (answer : Bool)
deriving DecidableEq, Repr

/-- The text that a call writes. -/
def Call.written : Call → List Char
  | .put c => [c]
  | _ => []

/-- Where a run stands: the statements to be done, the machine, and the input that is left. -/
structure RunState where
  todo : List Statement
  machine : Machine
  input : List Char

namespace RunState

/-- Does the next call, unless nothing is left to be done. -/
def step (r : RunState) : Option (Call × RunState) :=
  let m := r.machine
  match r.todo with
  | [] => none
  | .flip element :: rest =>
    let x := element.eval m.var
    some (.flip x, { r with todo := rest, machine := m.flip x })
  | .put c :: rest => some (.put c, { r with todo := rest })
  | .apply operator operand :: rest =>
    let set := evalSet m.var operand
    some (.apply operator set, { r with todo := rest, machine := m.apply operator set })
  | .loop predicate guard body :: rest =>
    let set := evalSet m.var guard
    let answer := m.holds predicate set
    some (.holds predicate set answer,
      { r with todo := if answer then body ++ .loop predicate guard body :: rest else rest })
  | .test c body :: rest =>
    let answer := m.holdsChar c
    some (.matches c answer, { r with todo := if answer then body ++ rest else rest })
  | .complement :: rest => some (.complement, { r with todo := rest, machine := m.complement })
  | .increment :: rest => some (.increment, { r with todo := rest, machine := m.increment })
  | .read :: rest =>
    some (.read, ⟨rest, m.read r.input, r.input.drop 1⟩)

/-- Whether nothing is left to be done. -/
def halted (r : RunState) : Bool :=
  r.todo.isEmpty

/-- At most some number of calls, each with the state after it. -/
def trace : Nat → RunState → List (Call × RunState)
  | 0, _ => []
  | calls + 1, r =>
    match r.step with
    | none => []
    | some (call, next) => (call, next) :: trace calls next

/-- The state after some calls of a trace. -/
def after (r : RunState) (calls : List (Call × RunState)) : RunState :=
  (calls.getLast?.map (·.2)).getD r

/-- The text that some calls write. -/
def written (calls : List (Call × RunState)) : String :=
  String.ofList (calls.flatMap fun (call, _) => call.written)

/-- Makes at most some number of calls: the number that is left, the state, and the text so far with
what was written after it. -/
def runFor : Nat → RunState → String → Nat × RunState × String
  | 0, r, out => (0, r, out)
  | calls + 1, r, out =>
    match r.step with
    | none => (calls + 1, r, out)
    | some (call, next) => runFor calls next (call.written.foldl String.push out)

end RunState

end SetLang
