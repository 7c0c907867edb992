/-!
# `NodeKind`: the kinds of tree nodes

A tree is made of a program, its statements, their sets, and the expressions in the sets.
-/

namespace SetLang

/-- The kind of a tree node. -/
inductive NodeKind where
  | program
  | integer
  | percent
  | set
  | flip
  | printChar
  | setOperation
  | loop
  | charTest
  | complement
  | increment
  | readChar
deriving DecidableEq, Repr

namespace NodeKind

/-- The name of a kind. -/
def name : NodeKind → String
  | program => "program"
  | integer => "integer"
  | percent => "variable"
  | set => "set"
  | flip => "flip"
  | printChar => "print_char"
  | setOperation => "set_op"
  | loop => "loop"
  | charTest => "if_char"
  | complement => "complement"
  | increment => "increment"
  | readChar => "input_char"

/-- Every kind. -/
def all : List NodeKind :=
  [program, integer, percent, set, flip, printChar, setOperation, loop, charTest, complement,
    increment, readChar]

/-- The kind of a name. -/
def ofName? (name : String) : Option NodeKind :=
  all.find? (·.name == name)

end NodeKind

end SetLang
