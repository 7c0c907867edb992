/-!
# Lines and columns of text

Line ends of files, the lines of a text, places in a text, and padding to a width. A new line
begins after a line feed and after nothing else.
-/

namespace SetLang.Text

/-- Replaces the line ends CR LF and CR by a line feed. -/
def unifyNewlines : List Char → List Char
  | '\r' :: '\n' :: rest => '\n' :: unifyNewlines rest
  | '\r' :: rest => '\n' :: unifyNewlines rest
  | c :: rest => c :: unifyNewlines rest
  | [] => []

/-- A line and a column of a text, both counted from one unless a text starts elsewhere. -/
structure Place where
  line : Int
  column : Int
deriving DecidableEq, Repr

/-- The place after one more character. -/
def Place.after (p : Place) (c : Char) : Place :=
  if c = '\n' then ⟨p.line + 1, 1⟩ else ⟨p.line, p.column + 1⟩

/-- The place after some more characters. -/
def Place.afterAll (p : Place) (cs : List Char) : Place :=
  cs.foldl Place.after p

/-- The place where a text starts. -/
def Place.origin : Place := ⟨1, 1⟩

/-- The place of the character with an index in a text. -/
def placeOf (text : List Char) (index : Nat) : Place :=
  Place.origin.afterAll (text.take index)

/-- Pads a text with blanks on the left to a width. -/
def padLeft (width : Nat) (s : String) : String :=
  String.ofList (List.replicate (width - s.length) ' ') ++ s

/-- Pads a text with blanks on the right to a width. -/
def padRight (width : Nat) (s : String) : String :=
  s ++ String.ofList (List.replicate (width - s.length) ' ')

/-- The pieces of a list between the occurrences of a separator; there is always at least one. -/
def splitAtEach {α : Type} [DecidableEq α] (separator : α) : List α → List (List α)
  | [] => [[]]
  | x :: rest =>
    if x = separator then [] :: splitAtEach separator rest
    else
      match splitAtEach separator rest with
      | [] => [[x]]
      | piece :: more => (x :: piece) :: more

/-- Joins texts with a separator between them. -/
def joinWith (separator : String) (texts : List String) : String :=
  separator.intercalate texts

/-- Sorted order of texts: by code point, a proper beginning first. -/
def textLe (a b : String) : Bool :=
  !decide (b < a)

end SetLang.Text
