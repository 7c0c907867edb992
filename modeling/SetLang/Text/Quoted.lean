import SetLang.Text.Printable

/-!
# Quoted text

A text is shown between quotes, in a form that never breaks a line and never ends early. The quote
is an apostrophe, unless the text holds an apostrophe and no quotation mark. Inside, the quote and
the backslash are escaped, line feed, carriage return and tab have short escapes, and every other
unprintable character is written with two, four or eight hexadecimal digits.
-/

namespace SetLang.Text

/-- Hexadecimal digits of `n`, in lower case, padded with zeros to a width. -/
def hexDigits (width n : Nat) : List Char :=
  let digits := Nat.toDigits 16 n
  List.replicate (width - digits.length) '0' ++ digits

/-- The quote that encloses a text. -/
def quoteFor (text : List Char) : Char :=
  if text.contains '\'' && !text.contains '"' then '"' else '\''

/-- One character as it stands between a pair of quotes. -/
def quoteChar (quote c : Char) : List Char :=
  if c = quote ∨ c = '\\' then ['\\', c]
  else if c = '\n' then ['\\', 'n']
  else if c = '\r' then ['\\', 'r']
  else if c = '\t' then ['\\', 't']
  else if isPrintable c then [c]
  else if c.toNat < 0x100 then '\\' :: 'x' :: hexDigits 2 c.toNat
  else if c.toNat < 0x10000 then '\\' :: 'u' :: hexDigits 4 c.toNat
  else '\\' :: 'U' :: hexDigits 8 c.toNat

/-- The characters of a text in quotes. -/
def quoteChars (text : List Char) : List Char :=
  let quote := quoteFor text
  quote :: text.flatMap (quoteChar quote) ++ [quote]

/-- A text in quotes. -/
def quoted (s : String) : String :=
  String.ofList (quoteChars s.toList)

end SetLang.Text
