import SetLang.Fault
import SetLang.IntSet.Basic

/-!
# `Machine`: the state of a program

A machine has a current set, the variable `%` and an input register. Its operations are pure: what is
written and read is the business of the run that uses it.
-/

namespace SetLang

/-- The state that a program works on. The register is empty until a character is read, and again at
the end of the input. -/
structure Machine where
  current : IntSet
  var : Int
  register : Option Char
deriving DecidableEq, Repr

namespace Machine

/-- A machine before the first statement. -/
def fresh : Machine := ⟨.empty, 0, none⟩

/-- Takes an integer out of the current set, or puts it in. -/
def flip (m : Machine) (element : Int) : Machine :=
  let single := IntSet.of [element]
  { m with
    current := if m.current.contains element then m.current.diff single
      else m.current.union single }

/-- Combines the current set with an operand. -/
def apply (m : Machine) (operator : SetOperator) (operand : IntSet) : Machine :=
  { m with
    current :=
      match operator with
      | .union => m.current.union operand
      | .intersection => m.current.inter operand
      | .leftDifference => m.current.diff operand
      | .rightDifference => operand.diff m.current }

/-- Whether the current set stands in a relation to a guard. -/
def holds (m : Machine) (predicate : Predicate) (guard : IntSet) : Bool :=
  match predicate with
  | .subset => m.current.subset guard
  | .properSubset => m.current.properSubset guard
  | .notSubset => !m.current.subset guard
  | .superset => m.current.superset guard
  | .properSuperset => m.current.properSuperset guard
  | .notSuperset => !m.current.superset guard
  | .equal => m.current == guard

/-- Combines the current set with an operand under an operator that is given by name. -/
def applyNamed (m : Machine) (operator : String) (operand : IntSet) : Except Fault Machine :=
  match SetOperator.ofName? operator with
  | some op => .ok (m.apply op operand)
  | none => .error (.unknownOperator operator)

/-- Whether the current set stands in a relation, given by name, to a guard. -/
def holdsNamed (m : Machine) (predicate : String) (guard : IntSet) : Except Fault Bool :=
  match Predicate.ofName? predicate with
  | some p => .ok (m.holds p guard)
  | none => .error (.unknownPredicate predicate)

/-- Replaces the current set by its complement. -/
def complement (m : Machine) : Machine :=
  { m with current := m.current.compl }

/-- Adds one to the variable. -/
def increment (m : Machine) : Machine :=
  { m with var := m.var + 1 }

/-- Reads the first character of an input into the register. -/
def read (m : Machine) (input : List Char) : Machine :=
  { m with register := input.head? }

/-- Whether the text of the register is the given one; an empty register has none. -/
def holdsText (m : Machine) (text : Option String) : Bool :=
  m.register.map (fun c => String.ofList [c]) == text

/-- Whether the register holds a character. -/
def holdsChar (m : Machine) (c : Char) : Bool :=
  m.register == some c

/-- The text of the register as messages show it. -/
def shownRegister (m : Machine) : String :=
  m.register.elim "None" fun c => Text.quoted (String.ofList [c])

/-- A machine as messages show it. -/
def shown (m : Machine) : Except Fault String :=
  match m.current.shown?, Integer.decimal? m.var with
  | some current, some var =>
    .ok ("Machine(current=" ++ current ++ ", var=" ++ var ++ ", char=" ++ m.shownRegister ++ ")")
  | _, _ => .error .digitLimit

end Machine

end SetLang
