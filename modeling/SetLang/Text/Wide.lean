import SetLang.Text.Blank
import SetLang.Text.Lines
import SetLang.Text.Quoted

/-!
# `WideText`: texts with lone halves

A character beyond U+FFFF may be written as a pair of code units. Half of a pair that stands alone is
no character, and yet a text may hold one. Such a text is compared, cut and quoted like any other
text; only to encode it as UTF-8 fails, at its first half.
-/

namespace SetLang

/-- A code unit that is half of a pair. -/
structure Half where
  unit : Nat
  isHalf : 0xD800 ≤ unit ∧ unit ≤ 0xDFFF
deriving DecidableEq, Repr

/-- What stands in a wide text: a character, or half of a pair that stands alone. -/
inductive CodePoint where
  | char (c : Char)
  | lone (half : Half)
deriving DecidableEq, Repr

namespace CodePoint

/-- Whether a code point is blank; no half is. -/
def isBlank : CodePoint → Bool
  | char c => Text.isBlank c
  | lone _ => false

/-- The character that a code point is, if it is one. -/
def char? : CodePoint → Option Char
  | char c => some c
  | lone _ => none

/-- The escape of a half. -/
def escape (half : Half) : List Char :=
  '\\' :: 'u' :: Text.hexDigits 4 half.unit

/-- A code point as it stands between a pair of quotes. -/
def quoted (quote : Char) : CodePoint → List Char
  | char c => Text.quoteChar quote c
  | lone half => escape half

/-- A code point as it shows where every character can be shown. -/
def shown : CodePoint → List Char
  | char c => [c]
  | lone half => escape half

end CodePoint

/-- A text of characters and lone halves. -/
structure WideText where
  points : List CodePoint
deriving DecidableEq, Repr

/-- Why a text is not encoded: its first half, where this stands, and how many halves stand there in a
row. -/
structure EncodeError where
  half : Half
  position : Nat
  length : Nat
deriving DecidableEq, Repr

namespace WideText

/-- A text of characters as a wide text. -/
@[coe]
def ofString (s : String) : WideText :=
  ⟨s.toList.map .char⟩

instance : Coe String WideText :=
  ⟨ofString⟩

instance : Append WideText :=
  ⟨fun x y => ⟨x.points ++ y.points⟩⟩

/-! ## Encoding -/

/-- How many halves stand at the front. -/
def halvesInFront : List CodePoint → Nat
  | .lone _ :: rest => halvesInFront rest + 1
  | _ => 0

/-- The characters from a position on, if no half is among them. -/
def encodeFrom (position : Nat) : List CodePoint → Except EncodeError (List Char)
  | [] => .ok []
  | .char c :: rest => (encodeFrom (position + 1) rest).map (c :: ·)
  | .lone half :: rest => .error ⟨half, position, halvesInFront rest + 1⟩

/-- The text of characters that a wide text is, or why it cannot be encoded. -/
def encode (text : WideText) : Except EncodeError String :=
  (encodeFrom 0 text.points).map String.ofList

/-- The text of characters that a wide text is, if it is one. -/
def string? (text : WideText) : Option String :=
  text.encode.toOption

/-! ## Forms -/

/-- A wide text in quotes, with its halves escaped. -/
def quoted (text : WideText) : String :=
  let quote := Text.quoteFor (text.points.filterMap CodePoint.char?)
  String.ofList (quote :: text.points.flatMap (CodePoint.quoted quote) ++ [quote])

/-- A wide text as it shows, with its halves escaped. -/
def shown (text : WideText) : String :=
  String.ofList (text.points.flatMap CodePoint.shown)

/-- The pieces of a wide text between the occurrences of a character, without the blanks around
them. -/
def strippedPieces (separator : Char) (text : WideText) : List WideText :=
  (Text.splitAtEach (.char separator) text.points).map fun piece =>
    ⟨Text.trimWhile CodePoint.isBlank piece⟩

end WideText

end SetLang
