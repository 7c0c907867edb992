import SetLang.Number.Integer

/-!
# Binary floating-point numbers of 64 bits

A number read from decimal text is rounded to the nearest binary64 value, a tie going to the even
one. It is written with the fewest digits that round back to it, and of those with the nearest.
All arithmetic is exact, on natural numbers.
-/

namespace SetLang

/-- A binary64 value. A finite one is `mantissa · 2 ^ exponent`, with a mantissa below `2 ^ 53` and an
exponent of at least `-1074`. -/
inductive Binary64 where
  | finite (negative : Bool) (mantissa : Nat) (exponent : Int)
  | infinite (negative : Bool)
  | notANumber
deriving DecidableEq, Repr

namespace Binary64

/-- A positive ratio of natural numbers times a power of a base, as a ratio. -/
def scale (num den base : Nat) (power : Int) : Nat × Nat :=
  if 0 ≤ power then (num * base.pow power.toNat, den) else (num, den * base.pow power.natAbs)

/-- The nearest natural number to a ratio; a tie goes to the even neighbour. -/
def roundEven (num den : Nat) : Nat :=
  let q := num / den
  let r := num % den
  if 2 * r < den then q
  else if den < 2 * r then q + 1
  else if q % 2 = 0 then q else q + 1

/-- The least mantissa of full precision, `2 ^ 52`. -/
def leadingBit : Nat := 1 <<< 52

/-- The greatest exponent `e ≥ -1074` with `2 ^ 52 · 2 ^ e ≤ num / den`, or `-1074`. -/
def exponentFor (num den : Nat) : Int :=
  let guess : Int := (num.log2 : Int) - (den.log2 : Int) - 52
  let (n, d) := scale num den 2 (-guess)
  max (-1074) (if n < leadingBit * d then guess - 1 else guess)

/-- The nearest value to a positive ratio. -/
def ofRatio (negative : Bool) (num den : Nat) : Binary64 :=
  let e := exponentFor num den
  let (n, d) := scale num den 2 (-e)
  let m := roundEven n d
  let (m, e) := if m = 2 * leadingBit then (leadingBit, e + 1) else (m, e)
  if 971 < e then .infinite negative else .finite negative m e

/-- The nearest value to `digits · 10 ^ power`. Powers far out of range are settled at once. -/
def ofDecimal (negative : Bool) (digits : Nat) (power : Int) : Binary64 :=
  let size : Int := (Nat.toDigits 10 digits).length + power
  if digits = 0 then .finite negative 0 (-1074)
  else if 320 < size then .infinite negative
  else if size < -340 then .finite negative 0 (-1074)
  else
    let (n, d) := scale digits 1 10 power
    ofRatio negative n d

/-- The ends of the interval of ratios that round to `m · 2 ^ e`, in units of `2 ^ (e - 2)`. -/
def interval (m : Nat) (e : Int) : Nat × Nat :=
  (if m = leadingBit ∧ -1074 < e then 4 * m - 1 else 4 * m - 2, 4 * m + 2)

/-- Whether `digits · 10 ^ power` rounds to `m · 2 ^ e`; the ends belong to an even mantissa. -/
def roundsTo (m : Nat) (e : Int) (digits : Nat) (power : Int) : Bool :=
  let (low, high) := interval m e
  let (n, d) := scale digits 1 10 power
  let (n, d) := scale n d 2 (2 - e)
  if m % 2 = 0 then low * d ≤ n && n ≤ high * d else low * d < n && n < high * d

/-- The decimal exponent of `m · 2 ^ e`: the least `p` with `m · 2 ^ e < 10 ^ p`, searched upwards
from `p` for at most `steps` steps. -/
def pointFrom (m : Nat) (e : Int) : Nat → Int → Int
  | 0, p => p
  | steps + 1, p =>
    let (n, d) := scale m 1 2 e
    let (n, d) := scale n d 10 (-p)
    if n < d then p else pointFrom m e steps (p + 1)

/-- The digits of `m · 2 ^ e` on the decimal grid `10 ^ power`, if a neighbour on the grid rounds to
the value: the nearer of the two, and the even one in a tie. -/
def onGrid? (m : Nat) (e : Int) (power : Int) : Option Nat :=
  let (n, d) := scale m 1 2 e
  let (n, d) := scale n d 10 (-power)
  let below := n / d
  let nearest := roundEven n d
  let other := if nearest = below then below + 1 else below
  if roundsTo m e nearest power then some nearest
  else if roundsTo m e other power then some other
  else none

/-- The fewest digits that round to `m · 2 ^ e`, with the power of ten of the last one. With `tries`
tries left the grid of `18 - tries` digits is the next; seventeen digits always suffice. -/
def shortestFrom (m : Nat) (e point : Int) : Nat → Nat × Int
  | 0 => (0, point)
  | tries + 1 =>
    let power := point - 17 + tries
    match onGrid? m e power with
    | some digits => (digits, power)
    | none => shortestFrom m e point tries

/-- Drops trailing zeros of some digits, least significant first. -/
def dropZeros : List Char → List Char
  | '0' :: rest => dropZeros rest
  | digits => digits

/-- The significant digits of a positive value `m · 2 ^ e` and its decimal point: the value is
`0.d₁d₂… · 10 ^ point`. -/
def shortest (m : Nat) (e : Int) : List Char × Int :=
  let start : Int := ((m.log2 : Int) + e) * 3 / 10 - 2
  let point := pointFrom m e 8 start
  let (digits, power) := shortestFrom m e point 17
  let all := Nat.toDigits 10 digits
  ((dropZeros all.reverse).reverse, all.length + power)

/-- Writes significant digits with a decimal point. Values from `10⁻⁴` up to `10¹⁶` are positional
and keep a fraction digit; others have an exponent of at least two digits. -/
def layout (digits : List Char) (point : Int) : List Char :=
  if -3 ≤ point ∧ point ≤ 16 then
    if point ≤ 0 then '0' :: '.' :: List.replicate (-point).toNat '0' ++ digits
    else
      let whole := point.toNat
      let padded := digits ++ List.replicate (whole - digits.length) '0'
      let fraction := padded.drop whole
      padded.take whole ++ '.' :: (if fraction.isEmpty then ['0'] else fraction)
  else
    let exponent := point - 1
    let exponentDigits := Nat.toDigits 10 exponent.natAbs
    let mantissa :=
      match digits with
      | [] => ['0']
      | [d] => [d]
      | d :: rest => d :: '.' :: rest
    mantissa ++ 'e' :: (if exponent < 0 then '-' else '+') ::
      (List.replicate (2 - exponentDigits.length) '0' ++ exponentDigits)

/-- The text of a value. -/
def text : Binary64 → String
  | .notANumber => "nan"
  | .infinite negative => if negative then "-inf" else "inf"
  | .finite negative m e =>
    let body :=
      if m = 0 then ['0', '.', '0']
      else
        let (digits, point) := shortest m e
        layout digits point
    String.ofList (if negative then '-' :: body else body)

/-- Equality of values as numbers: the two zeros are one number, and so is every value that is not
a number. -/
def sameNumber (x y : Binary64) : Bool :=
  match x, y with
  | .finite _ 0 _, .finite _ 0 _ => true
  | _, _ => x == y

/-- The integer that a finite value equals, if it is one. -/
def toInt? : Binary64 → Option Int
  | .finite negative m e =>
    let (n, d) := scale m 1 2 e
    if n % d = 0 then some (if negative then -((n / d : Nat) : Int) else ((n / d : Nat) : Int))
    else none
  | _ => none

end Binary64

end SetLang
