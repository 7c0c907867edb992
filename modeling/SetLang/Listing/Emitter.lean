import SetLang.Listing.Basic
import SetLang.Text.Lowercase
import SetLang.Tree.Node

/-!
# Emission

An emitter turns trees into lines of code that drive a machine. It keeps the lines of everything it
was given and a depth of indentation. A fault inside a block leaves the lines written so far and the
depth of the block. Trees may be of any height; the limits on nesting are those of a listing that is
to be run.
-/

namespace SetLang

/-! ## Expressions -/

/-- The name of the machine in emitted code. -/
def machineName : String := "machine"

/-- A call of the machine in emitted code. -/
def machineCall (operation : String) (arguments : String) : String :=
  machineName ++ "." ++ operation ++ "(" ++ arguments ++ ")"

/-- The code of a value that stands as a number. -/
def numberCode : Value → String
  | .absent => "None"
  | .int n => Integer.text n
  | .text s => s

/-- The code of a value that stands as an argument. -/
def valueCode (value : Value) : Except Fault String :=
  match value.shown? with
  | some shown => .ok shown
  | none => .error .digitLimit

mutual

/-- The code of an expression or a set. -/
def exprCode : Node → Except Fault String
  | .mk .integer value _ => .ok (numberCode value)
  | .mk .percent _ _ => .ok (machineName ++ ".var")
  | .mk .set _ elements => (elementCodes elements).map setCode
  | .mk kind _ _ => .error (.notExpression kind)
where
  /-- The code of a set with the codes of its elements. -/
  setCode (codes : List String) : String := "ZSet.of(" ++ Text.joinWith ", " codes ++ ")"

/-- The codes of some expressions. -/
def elementCodes : List Node → Except Fault (List String)
  | [] => .ok []
  | n :: rest => do
    let first ← exprCode n
    let more ← elementCodes rest
    .ok (first :: more)

end

/-- The code of a node as if it had a given kind, if that is the kind of an expression or a set. -/
def exprCodeAs? (kind : NodeKind) (n : Node) : Option (Except Fault String) :=
  match kind with
  | .integer => some (exprCode (.mk .integer n.value []))
  | .percent => some (exprCode (.leaf .percent))
  | .set => some (exprCode (.mk .set .absent n.children))
  | _ => none

/-! ## Emitters -/

/-- What an emitter has written, last line first, and its depth of indentation. -/
structure Emitter where
  written : List Line
  depth : Nat
deriving DecidableEq, Repr

/-- The lines before a program, which stand at the margin. -/
def preludeLines : Listing :=
  ["from zermelo.zermelo_runtime import Machine, ZSet", "", machineName ++ " = Machine()"].map (⟨0, ·⟩)

namespace Emitter

/-- An emitter that has written nothing. -/
def fresh : Emitter := ⟨[], 0⟩

/-- Everything that an emitter has written. -/
def listing (e : Emitter) : Listing :=
  e.written.reverse

/-- Everything that an emitter has written, as text. -/
def output (e : Emitter) : String :=
  e.listing.text

/-- Writes a line. -/
def line (e : Emitter) (code : String) : Emitter :=
  { e with written := ⟨e.depth, code⟩ :: e.written }

/-- Writes a line of code that may not exist. -/
def tryLine (e : Emitter) (code : Except Fault String) : Except Fault Unit × Emitter :=
  match code with
  | .ok code => (.ok (), e.line code)
  | .error fault => (.error fault, e)

/-- Writes the header of a block and goes one level deeper; an empty body has a line of its own. -/
def openBlock (e : Emitter) (header : String) (isEmpty : Bool) : Emitter :=
  let inside := { e.line header with depth := e.depth + 1 }
  if isEmpty then inside.line "pass" else inside

/-- Goes one level back, unless the block has a fault. -/
def closeBlock : Except Fault Unit × Emitter → Except Fault Unit × Emitter
  | (.ok _, e) => (.ok (), { e with depth := e.depth - 1 })
  | (.error fault, e) => (.error fault, e)

/-- The first child of a node as an expression. -/
def operandCode : List Node → Except Fault String
  | [] => .error .missingChild
  | n :: _ => exprCode n

/-- The header of a loop: a predicate and a guard, which only a loop has. -/
def loopHeader (n : Node) : Except Fault String := do
  let guard ← exprCode (← n.guard)
  let predicate ← valueCode n.value
  .ok ("while " ++ machineCall "holds" (predicate ++ ", " ++ guard) ++ ":")

/-- The header of a character test. -/
def testHeader (value : Value) : Except Fault String :=
  (valueCode value).map fun c => "if " ++ machineCall "matches" c ++ ":"

mutual

/-- Writes a node as if it had a given kind. -/
def emitAs (kind : NodeKind) : Node → Emitter → Except Fault Unit × Emitter
  | .mk own value children, e =>
    match kind with
    | .program => emitAll children { e with written := preludeLines.reverse ++ e.written }
    | .integer => (.ok (), e)
    | .percent => (.ok (), e)
    | .set => ((elementCodes children).map fun _ => (), e)
    | .flip => e.tryLine ((operandCode children).map (machineCall "flip"))
    | .printChar => e.tryLine ((valueCode value).map (machineCall "put"))
    | .setOperation =>
      e.tryLine do
        let operand ← operandCode children
        let operator ← valueCode value
        return machineCall "apply" (operator ++ ", " ++ operand)
    | .loop =>
      match loopHeader (.mk own value children), children with
      | .ok header, _ :: body =>
        closeBlock (emitAll body (e.openBlock header body.isEmpty))
      | .ok _, [] => (.error .missingChild, e)
      | .error fault, _ => (.error fault, e)
    | .charTest =>
      match testHeader value, own, children with
      | .ok header, .loop, _ :: body =>
        closeBlock (emitAll body (e.openBlock header body.isEmpty))
      | .ok header, _, body => closeBlock (emitAll body (e.openBlock header body.isEmpty))
      | .error fault, _, _ => (.error fault, e)
    | .complement => e.tryLine (.ok (machineCall "complement" ""))
    | .increment => e.tryLine (.ok (machineCall "increment" ""))
    | .readChar => e.tryLine (.ok (machineCall "read" ""))

/-- Writes some statements one after the other, up to the first fault. Expressions and sets are no
statements. -/
def emitAll : List Node → Emitter → Except Fault Unit × Emitter
  | [], e => (.ok (), e)
  | .mk kind value children :: rest, e =>
    if kind = .integer ∨ kind = .percent ∨ kind = .set then (.error (.notStatement kind), e)
    else
      match emitAs kind (.mk kind value children) e with
      | (.ok _, e) => emitAll rest e
      | (.error fault, e) => (.error fault, e)

end

/-- Writes a statement. -/
def statement (e : Emitter) (n : Node) : Except Fault Unit × Emitter :=
  emitAll [n] e

/-- Writes a block with a given header. -/
def block (e : Emitter) (header : String) (body : List Node) : Except Fault Unit × Emitter :=
  closeBlock (emitAll body (e.openBlock header body.isEmpty))

/-- Writes a node as its own kind demands. -/
def node (e : Emitter) (n : Node) : Except Fault Unit × Emitter :=
  emitAs n.kind n e

end Emitter

/-! ## Targets -/

/-- The names of the target language, in lower case. -/
def targetNames : List String := ["py", "python"]

/-- An emitter for a target language, which is named without regard to case. -/
def Emitter.forTarget (target : String) : Except Fault Emitter :=
  let name := Text.lowercase target
  if targetNames.contains name then .ok .fresh else .error (.unknownTarget name)

/-- The listing of a program with its prelude. -/
def Listing.ofProgram (program : Node) : Except Fault Listing :=
  let (result, e) := Emitter.fresh.node program
  result.map fun _ => e.listing

/-- The listing of the statements of a program alone. -/
def Listing.ofStatements (program : Node) : Except Fault Listing :=
  let (result, e) := Emitter.emitAll program.children .fresh
  result.map fun _ => e.listing

end SetLang
