import SetLang.Fault

/-!
# `Cursor`: a position in a text

A cursor walks a text from front to back and keeps the line and column of the next character. It
can look at any character, before or after its position, but moves forwards only.
-/

namespace SetLang

/-- A position in a text with its place and the characters from it on. -/
structure Cursor where
  text : List Char
  position : Nat
  place : Text.Place
  ahead : List Char
  ahead_eq : ahead = text.drop position

namespace Cursor

/-- A cursor at a position of a text, which the caller says is at some place. -/
def startAt (text : List Char) (position : Nat) (place : Text.Place) : Cursor :=
  ⟨text, position, place, text.drop position, rfl⟩

/-- A cursor at the front of a text. -/
def start (text : List Char) : Cursor :=
  startAt text 0 Text.Place.origin

/-- Moves over some of the characters ahead. -/
def pass (c : Cursor) (count : Nat) : Cursor where
  text := c.text
  position := c.position + count
  place := c.place.afterAll (c.ahead.take count)
  ahead := c.ahead.drop count
  ahead_eq := by rw [c.ahead_eq, List.drop_drop]

/-- The text of a cursor never changes. -/
@[simp] theorem text_pass (c : Cursor) (count : Nat) : (c.pass count).text = c.text := rfl

/-- What is ahead after a move is what remains of it. -/
@[simp] theorem ahead_pass (c : Cursor) (count : Nat) :
    (c.pass count).ahead = c.ahead.drop count := rfl

/-- A move over nothing leaves the cursor where it is. -/
@[simp] theorem pass_zero (c : Cursor) : c.pass 0 = c := by
  simp [pass, Text.Place.afterAll]

/-- Whether no character is ahead. -/
def atEnd (c : Cursor) : Bool :=
  c.ahead.isEmpty

/-- The character at an offset from the position, if the text has one there. -/
def peek? (c : Cursor) (offset : Int) : Option Char :=
  let index : Int := c.position + offset
  if index < 0 then none else c.text[index.toNat]?

/-- The fault of a move at the end of the text. -/
def pastEnd (c : Cursor) : Fault :=
  .pastEnd c.position c.place.line

/-- Takes the next character. -/
def next (c : Cursor) : Except Fault Char × Cursor :=
  match c.ahead with
  | [] => (.error c.pastEnd, c)
  | x :: _ => (.ok x, c.pass 1)

end Cursor

end SetLang
