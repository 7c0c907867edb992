import SetLang.Fault

/-!
# `Listing`: lines of emitted code

A listing is a sequence of lines, each with a depth of indentation. What runs is bounded in two ways:
no line may be indented too deep, and no loop may stand inside too many loops.
-/

namespace SetLang

/-- A line of emitted code: its depth of indentation and its code. -/
structure Line where
  depth : Nat
  code : String
deriving DecidableEq, Repr

namespace Line

/-- A line as text: four blanks for every level. -/
def text (l : Line) : String :=
  String.ofList (List.replicate (4 * l.depth) ' ') ++ l.code

/-- Whether a line is the header of a loop. -/
def isLoop (l : Line) : Bool :=
  "while ".toList.isPrefixOf l.code.toList

end Line

/-- A sequence of lines. -/
abbrev Listing := List Line

namespace Listing

/-- A listing as text. -/
def text (listing : Listing) : String :=
  Text.joinWith "\n" (listing.map Line.text)

/-- Lines are indented less than this. -/
def indentLimit : Nat := 100

/-- Loops stand at most this deep in one another. -/
def loopLimit : Nat := 20

/-- The first line that is indented too deep, given the number of the first one. -/
def tooDeepFrom (number : Nat) : Listing → Option Nat
  | [] => none
  | line :: rest =>
    if indentLimit ≤ line.depth then some number else tooDeepFrom (number + 1) rest

/-- The first loop that stands in too many loops, given the number of the first line and the depths
of the loops around it, innermost first. -/
def tooNestedFrom (number : Nat) (around : List Nat) : Listing → Option Nat
  | [] => none
  | line :: rest =>
    let around := around.dropWhile (line.depth ≤ ·)
    if line.isLoop then
      if loopLimit ≤ around.length then some number
      else tooNestedFrom (number + 1) (line.depth :: around) rest
    else tooNestedFrom (number + 1) around rest

/-- Refuses a listing that may not run. Lines are counted from one. -/
def check (listing : Listing) : Except Fault Unit :=
  match tooDeepFrom 1 listing with
  | some line => .error (.indentedTooDeep line)
  | none =>
    match tooNestedFrom 1 [] listing with
    | some line => .error (.nestedTooDeep line)
    | none => .ok ()

end Listing

end SetLang
