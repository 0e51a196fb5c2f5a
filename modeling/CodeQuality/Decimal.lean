/-!
# Doubles as decimals

Everything that is printed about a double is worked out from the whole numbers that make it up.
-/

namespace CodeQuality.Decimal

/-!
## Binary floating point values

A double is a sign and a magnitude, and a finite magnitude is a whole number times a power of two.
Everything that is printed about a double is worked out from these whole numbers.
-/

/-- The magnitude of a double. -/
inductive Magnitude where
  | notANumber
  | infinite
  /-- The value `mantissa * 2 ^ (exponent - 1075)`. -/
  | finite (mantissa exponent : Nat)
  deriving DecidableEq, Repr

/-- The hidden bit of a normal value, two to the power of 52. -/
def hiddenBit : Nat := 4503599627370496

/-- The bit of the sign, two to the power of 63. -/
def signBit : Nat := 9223372036854775808

/-- The power of two that exponents are offset by. -/
def exponentOffset : Nat := 1075

/-- The sign bit is set. -/
def isNegative (x : Float) : Bool :=
  signBit ≤ x.toBits.toNat

/-- The magnitude by the bits of the double. -/
def magnitude (x : Float) : Magnitude :=
  let bits := x.toBits.toNat % signBit
  let exponent := bits / hiddenBit
  let fraction := bits % hiddenBit
  if exponent = 2047 then if fraction = 0 then .infinite else .notANumber
  else if exponent = 0 then .finite fraction 1
  else .finite (fraction + hiddenBit) exponent

/-!
## Decimals with a fixed number of places

The exact value of a double is rounded to a number of decimal places, a tie going to the even
neighbour.
-/

/-- The quotient rounded to the nearest whole number, a tie to the even one. -/
def roundDiv (numerator denominator : Nat) : Nat :=
  let quotient := numerator / denominator
  let twice := 2 * (numerator % denominator)
  if twice < denominator then quotient
  else if denominator < twice then quotient + 1
  else if quotient % 2 = 0 then quotient
  else quotient + 1

/-- A finite magnitude in units of the last of so many decimal places. -/
def scaled (mantissa exponent places : Nat) : Nat :=
  roundDiv (mantissa * Nat.pow 2 exponent * Nat.pow 10 places) (Nat.pow 2 exponentOffset)

/-- The digits of a number, with zeros in front up to the given width. -/
def padded (width n : Nat) : List Char :=
  let digits := Nat.toDigits 10 n
  List.replicate (width - digits.length) '0' ++ digits

/-- The sign of a negative double. -/
def signOf (x : Float) : String :=
  if isNegative x then "-" else ""

/-- The double with exactly so many decimal places. -/
def fixed (places : Nat) (x : Float) : String :=
  match magnitude x with
  | .notANumber => "NaN"
  | .infinite => signOf x ++ "inf"
  | .finite mantissa exponent =>
    let units := scaled mantissa exponent places
    let whole := signOf x ++ String.ofList (Nat.toDigits 10 (units / Nat.pow 10 places))
    if places = 0 then whole
    else whole ++ "." ++ String.ofList (padded places (units % Nat.pow 10 places))

/-- The share as a percentage with one decimal place. -/
def percent (ratio : Float) : String :=
  fixed 1 (ratio * 100) ++ "%"

/-!
## Shortest decimals

The fewest decimal digits that single out a double among all doubles, and of those the ones
nearest to it. The reals that round to the double form an interval around it. For one digit, two
digits and so on, the two decimals next to the double are tested against the interval.
-/

/-- A decimal: its digits without trailing zeros, and the number of them before the point. -/
structure Digits where
  digits : List Char
  point : Int
  deriving DecidableEq, Repr

/-- A positive double as a fraction with its rounding interval over the same denominator. -/
structure Interval where
  value : Nat
  low : Nat
  high : Nat
  denominator : Nat
  /-- The ends of the interval round to the double. -/
  closed : Bool

/-- The interval of a finite magnitude. Below a power of two the doubles lie twice as dense. -/
def Interval.of (mantissa exponent : Nat) : Interval where
  value := 4 * mantissa * Nat.pow 2 exponent
  low := (4 * mantissa - if mantissa = hiddenBit && 1 < exponent then 1 else 2) * Nat.pow 2 exponent
  high := (4 * mantissa + 2) * Nat.pow 2 exponent
  denominator := 4 * Nat.pow 2 exponentOffset
  closed := mantissa % 2 = 0

/-- The power of ten of the first digit of a fraction below one, searched from `-place` on. -/
def leadingPlace (value denominator : Nat) : Nat → Nat → Nat
  | 0, place => place
  | limit + 1, place =>
    if denominator ≤ value * Nat.pow 10 place then place
    else leadingPlace value denominator limit (place + 1)

/-- The power of ten of the first digit of a positive fraction. -/
def leadingExponent (value denominator : Nat) : Int :=
  if denominator ≤ value then ((Nat.toDigits 10 (value / denominator)).length : Int) - 1
  else -(leadingPlace value denominator 400 1 : Int)

/-- The decimal `n` on the grid of `10 ^ place` that singles the double out, when one of the two
next to the double does. -/
def onGrid? (interval : Interval) (place : Int) : Option Nat :=
  let up := Nat.pow 10 (-place).toNat
  let unit := interval.denominator * Nat.pow 10 place.toNat
  let value := interval.value * up
  let holds (n : Nat) : Bool :=
    if interval.closed then interval.low * up ≤ n * unit && n * unit ≤ interval.high * up
    else interval.low * up < n * unit && n * unit < interval.high * up
  let below := value / unit
  let above := below + 1
  if holds below && 0 < below then
    if holds above then some (roundDiv value unit) else some below
  else if holds above then some above
  else none

/-- The first grid, of those with `tried` digits and up to `limit` more, that has a decimal for
the double, with that decimal. -/
def shortestFrom (interval : Interval) (leading : Int) : Nat → Nat → Option (Nat × Int)
  | 0, _ => none
  | limit + 1, tried =>
    let place := leading + 1 - (tried : Int)
    match onGrid? interval place with
    | some n => some (n, place)
    | none => shortestFrom interval leading limit (tried + 1)

/-- The digits of a number without its trailing zeros. -/
def significant (n : Nat) : List Char :=
  ((Nat.toDigits 10 n).reverse.dropWhile (· == '0')).reverse

/-- The shortest decimal for a finite magnitude; zero has no digits. -/
def shortest (mantissa exponent : Nat) : Digits :=
  if mantissa = 0 then ⟨[], 0⟩
  else
    let interval := Interval.of mantissa exponent
    let leading := leadingExponent interval.value interval.denominator
    match shortestFrom interval leading 18 1 with
    | some (n, place) => ⟨significant n, (Nat.toDigits 10 n).length + place⟩
    | none => ⟨[], 0⟩

/-- The digits before the point, filled up with zeros, or a single zero. -/
def wholePart (decimal : Digits) : List Char :=
  let before := decimal.digits.take decimal.point.toNat
  if decimal.point ≤ 0 || decimal.digits.isEmpty then ['0']
  else before ++ List.replicate (decimal.point.toNat - before.length) '0'

/-- The digits behind the point. -/
def fractionPart (decimal : Digits) : List Char :=
  List.replicate (-decimal.point).toNat '0' ++ decimal.digits.drop decimal.point.toNat

/-- The double in positional notation, without a point when it is whole. -/
def plain (x : Float) : String :=
  match magnitude x with
  | .notANumber => "NaN"
  | .infinite => signOf x ++ "inf"
  | .finite mantissa exponent =>
    let decimal := shortest mantissa exponent
    let fraction := fractionPart decimal
    signOf x ++ String.ofList (wholePart decimal) ++
      if fraction.isEmpty then "" else "." ++ String.ofList fraction

end CodeQuality.Decimal
