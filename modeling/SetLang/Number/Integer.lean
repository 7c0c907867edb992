/-!
# Integer text

Integers are written in decimal up to a fixed number of digits and in hexadecimal beyond it. The
readers take exactly the forms that are written, and the decimal reader also takes leading zeros.
-/

namespace SetLang

/-- Decimal text holds at most this many digits. -/
def decimalDigitLimit : Nat := 4300

/-- The value of a run of decimal digits. -/
def natOfDigits (digits : List Char) : Nat :=
  digits.foldl (fun n c => 10 * n + (c.toNat - '0'.toNat)) 0

/-- A decimal digit of ASCII. -/
def isDigit (c : Char) : Bool :=
  '0' ≤ c && c ≤ '9'

/-- The value of a hexadecimal digit, in either case. -/
def hexValue? (c : Char) : Option Nat :=
  if isDigit c then some (c.toNat - '0'.toNat)
  else if 'a' ≤ c && c ≤ 'f' then some (c.toNat - 'a'.toNat + 10)
  else if 'A' ≤ c && c ≤ 'F' then some (c.toNat - 'A'.toNat + 10)
  else none

/-- The value of a run of hexadecimal digits; `none` if another character stands among them. -/
def natOfHexDigits? (digits : List Char) : Option Nat :=
  digits.foldlM (fun n c => (hexValue? c).map (16 * n + ·)) 0

namespace Integer

/-- Writes a sign before the digits of the absolute value. -/
def signed (n : Int) (digits : Nat → List Char) : String :=
  String.ofList (if n < 0 then '-' :: digits n.natAbs else digits n.natAbs)

/-- The decimal text of an integer of any size. -/
def decimal (n : Int) : String :=
  signed n (Nat.toDigits 10)

/-- The hexadecimal text of an integer of any size. -/
def hex (n : Int) : String :=
  signed n fun m => '0' :: 'x' :: Nat.toDigits 16 m

/-- An integer fits decimal text if it has at most `decimalDigitLimit` digits. -/
def FitsDecimal (n : Int) : Prop :=
  n.natAbs < Nat.pow 10 decimalDigitLimit

instance (n : Int) : Decidable (FitsDecimal n) :=
  inferInstanceAs (Decidable (_ < _))

/-- The decimal text of an integer that fits. -/
def decimal? (n : Int) : Option String :=
  if FitsDecimal n then some (decimal n) else none

/-- The text of an integer of any size: decimal if it fits, hexadecimal otherwise. -/
def text (n : Int) : String :=
  (decimal? n).getD (hex n)

/-- Reads the digits of a natural number, in hexadecimal after `0x`. -/
def natOfText? : List Char → Option Nat
  | '0' :: 'x' :: digits => if digits.isEmpty then none else natOfHexDigits? digits
  | digits => if !digits.isEmpty && digits.all isDigit then some (natOfDigits digits) else none

/-- Reads an integer as `text` writes it. -/
def ofText? (s : String) : Option Int :=
  match s.toList with
  | '-' :: digits => (natOfText? digits).map fun n => -(n : Int)
  | digits => (natOfText? digits).map Int.ofNat

end Integer

end SetLang
