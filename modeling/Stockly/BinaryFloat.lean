import Mathlib.Tactic

/-!
# Rounding and printing binary floats

Correctly rounded arithmetic on 64-bit floats is Lean's own `Float.Model`.
This file adds the three functions of a C library that turn such a float into
a whole number, into a text with a fixed number of decimals, and into the
shortest decimal that reads back as the same float.
-/

namespace BinaryFloat

open Float.Model Float.Model.UnpackedFloat

/-- `mantissa * 2 ^ exponent` as a fraction. -/
def fraction (mantissa : ℕ) (exponent : ℤ) : ℕ × ℕ :=
  (mantissa * 2 ^ exponent.toNat, 2 ^ (-exponent).toNat)

def roundHalfEven (numerator denominator : ℕ) : ℕ :=
  let quotient := numerator / denominator
  let twice := 2 * (numerator % denominator)
  if twice < denominator then quotient
  else if denominator < twice then quotient + 1
  else quotient + quotient % 2

def roundHalfAway (numerator denominator : ℕ) : ℕ :=
  (2 * numerator + denominator) / (2 * denominator)

def withSign (sign : Sign) (magnitude : Float.Model) : Float.Model :=
  match sign with
  | .negative => -magnitude
  | .positive => magnitude

/-- C's `round`: to the nearest whole number, ties away from zero. -/
def round (number : Float.Model) : Float.Model :=
  match number.unpack with
  | .finite sign mantissa exponent _ =>
      let (numerator, denominator) := fraction mantissa exponent
      withSign sign (.ofNat (roundHalfAway numerator denominator))
  | _ => number

/-! ## Fixed decimals -/

def minus : Sign → List Char
  | .negative => ['-']
  | .positive => []

def padded (width number : ℕ) : List Char :=
  let digits := Nat.toDigits 10 number
  List.replicate (width - digits.length) '0' ++ digits

/-- The magnitude `scaled / 10 ^ places`. -/
def fixedMagnitude (places scaled : ℕ) : List Char :=
  Nat.toDigits 10 (scaled / 10 ^ places) ++
    '.' :: padded places (scaled % 10 ^ places)

/-- C's `%.<places>f`, for a positive number of places. -/
def fixed (places : ℕ) (number : Float.Model) : String :=
  String.ofList <|
    match number.unpack with
    | .notANumber => "nan".toList
    | .infinity sign => minus sign ++ "inf".toList
    | .zero sign => minus sign ++ fixedMagnitude places 0
    | .finite sign mantissa exponent _ =>
        let (numerator, denominator) := fraction mantissa exponent
        minus sign ++ fixedMagnitude places
          (roundHalfEven (numerator * 10 ^ places) denominator)

/-! ## Shortest decimals -/

/-- `numerator / denominator` in units of `10 ^ scale`. -/
def inUnits (numerator denominator : ℕ) (scale : ℤ) : ℕ × ℕ :=
  (numerator * 10 ^ (-scale).toNat, denominator * 10 ^ scale.toNat)

/-- The decimal exponent of the first digit. -/
def leadingExponent (numerator denominator : ℕ) : ℤ :=
  let guess : ℤ := (Nat.toDigits 10 numerator).length -
    (Nat.toDigits 10 denominator).length
  let (scaled, unit) := inUnits numerator denominator guess
  if unit ≤ scaled then guess else guess - 1

/-- The nearest decimal in units of `10 ^ scale` that reads back as the given
magnitude, if either neighbour does. -/
def readsBack (magnitude : Float.Model) (numerator denominator : ℕ)
    (scale : ℤ) : Option ℕ :=
  let (scaled, unit) := inUnits numerator denominator scale
  let below := scaled / unit
  let nearest := roundHalfEven scaled unit
  [nearest, below, below + 1].find? fun digits =>
    decide (Float.Model.ofScientific digits scale = magnitude)

/-- The digits and the exponent of the shortest decimal, of which 17 digits
are always enough. -/
def shortestMagnitude (mantissa : ℕ) (exponent : ℤ) : ℕ × ℤ :=
  let magnitude := Float.Model.pack
    (if positive : 0 < mantissa then
      .finite .positive mantissa exponent positive
    else .zero .positive)
  let (numerator, denominator) := fraction mantissa exponent
  let leading := leadingExponent numerator denominator
  let scales := (List.range 17).map fun further : ℕ => leading - further
  (scales.findSome? fun scale =>
    (readsBack magnitude numerator denominator scale).map fun digits =>
      (digits, scale)).getD (0, 0)

example :
    fixed 2 (.ofScientific 1005 (-3)) = "1.00" ∧
      shortestMagnitude 7205759403792794 (-56) = (1, -1) := by
  decide +kernel

end BinaryFloat
