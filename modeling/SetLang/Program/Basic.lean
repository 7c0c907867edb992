import SetLang.Tree.Node

/-!
# `Program`: what runs

A program is a list of statements. It is what a tree means: the trees of programs are exactly those
that `Program.toNode` makes, and `Program.ofNode?` is its inverse.
-/

namespace SetLang

/-- An integer that is given by a literal or by the variable. -/
inductive Expr where
  | literal (value : Int)
  | percent
deriving DecidableEq, Repr

/-- A statement of a program. -/
inductive Statement where
  | flip (element : Expr)
  | put (c : Char)
  | apply (operator : SetOperator) (operand : List Expr)
  | loop (predicate : Predicate) (guard : List Expr) (body : List Statement)
  | test (c : Char) (body : List Statement)
  | complement
  | increment
  | read

/-- A list of statements. -/
abbrev Program := List Statement

/-! ## Trees of programs -/

/-- The tree of an expression. -/
def Expr.toNode : Expr → Node
  | literal value => .mk .integer (.int value) []
  | percent => .leaf .percent

/-- The tree of a set. -/
def setToNode (elements : List Expr) : Node :=
  .mk .set .absent (elements.map Expr.toNode)

/-- The value of a node that carries one character. -/
def charValue (c : Char) : Value :=
  .text (String.ofList [c])

mutual

/-- The tree of a statement. -/
def Statement.toNode : Statement → Node
  | .flip element => .mk .flip .absent [element.toNode]
  | .put c => .mk .printChar (charValue c) []
  | .apply operator operand => .mk .setOperation (.text operator.name) [setToNode operand]
  | .loop predicate guard body =>
    .mk .loop (.text predicate.name) (setToNode guard :: toNodes body)
  | .test c body => .mk .charTest (charValue c) (toNodes body)
  | .complement => .leaf .complement
  | .increment => .leaf .increment
  | .read => .leaf .readChar

/-- The trees of some statements. -/
def toNodes : List Statement → List Node
  | [] => []
  | s :: rest => s.toNode :: toNodes rest

end

/-- The tree of a program. -/
def Program.toNode (program : Program) : Node :=
  .mk .program .absent (toNodes program)

/-! ## Programs of trees -/

/-- The expression of a tree. -/
def Expr.ofNode? : Node → Option Expr
  | .mk .integer (.int value) [] => some (.literal value)
  | .mk .percent .absent [] => some .percent
  | _ => none

/-- The elements of the tree of a set. -/
def setOfNode? : Node → Option (List Expr)
  | .mk .set .absent elements => elements.mapM Expr.ofNode?
  | _ => none

/-- The character that a value carries. -/
def charOfValue? : Value → Option Char
  | .text s =>
    match s.toList with
    | [c] => some c
    | _ => none
  | _ => none

/-- The text that a value carries. -/
def textOfValue? : Value → Option String
  | .text s => some s
  | _ => none

mutual

/-- The statement of a tree. -/
def Statement.ofNode? : Node → Option Statement
  | .mk .flip .absent [element] => (Expr.ofNode? element).map .flip
  | .mk .printChar value [] => (charOfValue? value).map .put
  | .mk .setOperation value [operand] => do
    let operator ← SetOperator.ofName? (← textOfValue? value)
    return .apply operator (← setOfNode? operand)
  | .mk .loop value (guard :: body) => do
    let predicate ← Predicate.ofName? (← textOfValue? value)
    let elements ← setOfNode? guard
    return .loop predicate elements (← ofNodes? body)
  | .mk .charTest value body => do
    let c ← charOfValue? value
    return .test c (← ofNodes? body)
  | .mk .complement .absent [] => some .complement
  | .mk .increment .absent [] => some .increment
  | .mk .readChar .absent [] => some .read
  | _ => none

/-- The statements of some trees. -/
def ofNodes? : List Node → Option (List Statement)
  | [] => some []
  | n :: rest => do
    let first ← Statement.ofNode? n
    return first :: (← ofNodes? rest)

end

/-- The program of a tree. -/
def Program.ofNode? : Node → Option Program
  | .mk .program .absent statements => ofNodes? statements
  | _ => none

end SetLang
