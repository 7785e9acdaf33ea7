import Stockly.BinaryFloat
import Stockly.Collection

/-!
# Computing with doubles and printing them

The digits of a `Double` name the binary number nearest to them, on which the
app's few arithmetic operations and its number formats work.
-/

namespace Stockly.Double

open Float.Model

def toModel (number : Double) : Float.Model :=
  let magnitude := ofScientific number.digits number.exponent
  if number.negative then -magnitude else magnitude

/-! ## Back to digits -/

/-- Move trailing zeros into the exponent, as often as the fuel lasts. -/
def stripZeros : ℕ → ℕ → ℤ → ℕ × ℤ
  | 0, digits, exponent => (digits, exponent)
  | fuel + 1, digits, exponent =>
      if digits % 10 = 0 then stripZeros fuel (digits / 10) (exponent + 1)
      else (digits, exponent)

theorem stripZeros_mod_ne_zero {fuel digits : ℕ} (exponent : ℤ)
    (hpositive : 0 < digits) (hfuel : digits ≤ fuel) :
    (stripZeros fuel digits exponent).1 % 10 ≠ 0 := by
  induction fuel generalizing digits exponent with
  | zero => omega
  | succ fuel ih =>
      unfold stripZeros
      split
      next hzero => exact ih (exponent + 1) (by omega) (by omega)
      next hdigit => exact hdigit

def ofDigits (negative : Bool) (digits : ℕ) (exponent : ℤ) : Double :=
  if hpositive : 0 < digits then
    { negative := negative
      digits := (stripZeros digits digits exponent).1
      exponent := (stripZeros digits digits exponent).2
      shortest :=
        .inl (stripZeros_mod_ne_zero exponent hpositive (Nat.le_refl digits)) }
  else
    { zero with negative := negative }

/-- The text which interpolating a computed number into a string gives. -/
def interpolated (number : Float.Model) : String :=
  match number.unpack with
  | .notANumber => "nan"
  | .infinity sign => String.ofList (BinaryFloat.minus sign ++ "inf".toList)
  | .zero sign => (ofDigits (sign == .negative) 0 0).description
  | .finite sign mantissa exponent _ =>
      let shortest := BinaryFloat.shortestMagnitude mantissa exponent
      (ofDigits (sign == .negative) shortest.1 shortest.2).description

/-! ## The formats of the app -/

/-- `Double(round(1000 * percentage)/1000)`. -/
def roundedPercent (percentage : Double) : Float.Model :=
  BinaryFloat.round (ofNat 1000 * percentage.toModel) / ofNat 1000

/-- `"\(roundedPercent)%"`. -/
def percentText (percentage : Double) : String :=
  interpolated percentage.roundedPercent ++ "%"

/-- `"$\(price)"`. -/
def priceText (price : Double) : String := "$" ++ price.description

/-- `String(format: "%.2f", number)`. -/
def twoDecimals (number : Double) : String :=
  BinaryFloat.fixed 2 number.toModel

/-- `String(format: "%.2fM", number/1e6)`. -/
def inMillions (number : Double) : String :=
  BinaryFloat.fixed 2 (number.toModel / ofScientific 1 6) ++ "M"

/-- `String(format: "%.2fB", number/1e9)`. -/
def inBillions (number : Double) : String :=
  BinaryFloat.fixed 2 (number.toModel / ofScientific 1 9) ++ "B"

example :
    percentText ⟨true, 12345, -6, by decide⟩ = "-0.012%" ∧
      inMillions ⟨false, 2734567, 1, by decide⟩ = "27.35M" := by
  decide +kernel

end Stockly.Double
