/-!
# Blank characters

The characters that separate tokens and that are stripped from the ends of a text: the spaces, the
line separators and the four information separators of Unicode.
-/

namespace SetLang.Text

/-- A blank is a white-space character or one of the information separators U+001C to U+001F. -/
def isBlank (c : Char) : Bool :=
  let n := c.toNat
  (0x09 ≤ n && n ≤ 0x0D) || (0x1C ≤ n && n ≤ 0x20) || n == 0x85 || n == 0xA0 || n == 0x1680 ||
    (0x2000 ≤ n && n ≤ 0x200A) || n == 0x2028 || n == 0x2029 || n == 0x202F || n == 0x205F ||
    n == 0x3000

/-- Drops the elements at both ends that satisfy `p`. -/
def trimWhile {α : Type} (p : α → Bool) (l : List α) : List α :=
  ((l.dropWhile p).reverse.dropWhile p).reverse

/-- Drops the blanks at both ends of a text. -/
def strip (s : String) : String :=
  String.ofList (trimWhile isBlank s.toList)

/-- Drops every occurrence of one character at both ends of a text. -/
def stripChar (c : Char) (s : String) : String :=
  String.ofList (trimWhile (· == c) s.toList)

end SetLang.Text
