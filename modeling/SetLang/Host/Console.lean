import SetLang.Text.Lines

/-!
# `Console`: what is typed and what is shown

A console has the input that is not taken yet and everything that was shown, cut into segments: a
new segment begins whenever a line is asked for. Input is decoded text, so no lone half is typed; what
is shown has been encoded by the script that says it.
-/

namespace SetLang

/-- Input to be taken, and shown text: the finished segments, last first, and the current one. -/
structure Console where
  input : List Char
  finished : List String
  current : String
deriving DecidableEq, Repr

namespace Console

/-- A console with an input and nothing shown. -/
def ofInput (input : String) : Console :=
  ⟨input.toList, [], ""⟩

/-- Shows a text. -/
def say (c : Console) (text : String) : Console :=
  { c with current := c.current ++ text }

/-- Shows a prompt and begins a new segment. -/
def prompt (c : Console) (text : String) : Console :=
  { c with finished := (c.current ++ text) :: c.finished, current := "" }

/-- Takes a line of the input without its end; a line feed ends a line, and so does the end of the
input after a line that has begun. -/
def takeLine? (c : Console) : Option (String × Console) :=
  if c.input.isEmpty then none
  else
    let line := c.input.takeWhile (· != '\n')
    some (String.ofList line, { c with input := c.input.drop (line.length + 1) })

/-- Everything shown, in segments. -/
def segments (c : Console) : List String :=
  (c.current :: c.finished).reverse

end Console

end SetLang
