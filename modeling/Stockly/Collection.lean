import Mathlib.Tactic

/-!
# The values the app decodes and shows

A `Double` is its sign and its shortest decimal digits, which is all that its
description, its comparison with zero and its defaults depend on; decoded
numbers are finite.  A `String` stands for the canonical form of a Swift
string, on which Swift defines `==` and `<`.
-/

namespace Stockly

/-- A finite double: `± digits * 10 ^ exponent`, the digits without trailing
zeros.  Zero keeps its sign. -/
structure Double where
  negative : Bool
  digits : ℕ
  exponent : ℤ
  shortest : digits % 10 ≠ 0 ∨ digits = 0 ∧ exponent = 0
deriving DecidableEq, Repr

namespace Double

def zero : Double :=
  { negative := false, digits := 0, exponent := 0, shortest := .inr ⟨rfl, rfl⟩ }

/-- The magnitude is above `2 ^ 53`, from where on the description is
exponential. -/
def AboveExactIntegers (number : Double) : Prop :=
  2 ^ 53 * 10 ^ (-number.exponent).toNat <
    number.digits * 10 ^ number.exponent.toNat

instance (number : Double) : Decidable number.AboveExactIntegers :=
  inferInstanceAs (Decidable (_ < _))

/-- `d.ddde±XX`, where the digits stand for `0.dddd * 10 ^ point`. -/
def exponentialDescription (digits : List Char) (point : ℤ) : List Char :=
  let power := Nat.toDigits 10 (point - 1).natAbs
  let fraction :=
    if digits.length ≤ 1 then [] else '.' :: digits.drop 1
  digits.take 1 ++ fraction ++
    ['e', if point - 1 < 0 then '-' else '+'] ++
    List.replicate (2 - power.length) '0' ++ power

def decimalDescription (digits : List Char) (point : ℤ) : List Char :=
  if point ≤ 0 then
    ['0', '.'] ++ List.replicate (-point).toNat '0' ++ digits
  else if digits.length ≤ point.toNat then
    digits ++ List.replicate (point.toNat - digits.length) '0' ++ ['.', '0']
  else
    digits.take point.toNat ++ ['.'] ++ digits.drop point.toNat

/-- The text which interpolating the number into a string gives. -/
def description (number : Double) : String :=
  let sign := if number.negative then ['-'] else []
  let digits := Nat.toDigits 10 number.digits
  let point : ℤ := digits.length + number.exponent
  String.ofList <| sign ++
    if number.digits = 0 then ['0', '.', '0']
    else if point < -3 ∨ number.AboveExactIntegers then
      exponentialDescription digits point
    else decimalDescription digits point

example :
    description ⟨true, 5, -5, by decide⟩ = "-5e-05" ∧
      description ⟨false, 17321, -2, by decide⟩ = "173.21" := by
  decide

end Double

structure Quote where
  symbol : String
  companyName : String
  latestPrice : Option Double
  change : Option Double
  changePercent : Option Double
  previousClose : Option Double
  «open» : Option Double
  iexBidPrice : Option Double
  iexAskPrice : Option Double
  high : Option Double
  low : Option Double
  close : Option Double
  week52Low : Option Double
  week52High : Option Double
  latestVolume : Option Double
  avgTotalVolume : Option Double
  marketCap : Option Double
  peRatio : Option Double
deriving DecidableEq, Repr

structure News where
  datetime : Option ℤ
  headline : Option String
  source : Option String
  url : Option String
  summary : Option String
  related : Option String
deriving DecidableEq, Repr

structure Chart where
  date : Option String
  «open» : Option Double
  high : Option Double
  low : Option Double
  close : Option Double
  volume : Option Double
  unadjustedVolume : Option Double
  change : Option Double
  changePercent : Option Double
  vwap : Option Double
  label : Option String
  changeOverTime : Option Double
deriving DecidableEq, Repr

structure Batch where
  quote : Quote
  news : List News
  chart : List Chart
deriving DecidableEq, Repr

def Quote.named (symbol companyName : String) : Quote :=
  { symbol := symbol, companyName := companyName, latestPrice := none,
    change := none, changePercent := none, previousClose := none,
    «open» := none, iexBidPrice := none, iexAskPrice := none, high := none,
    low := none, close := none, week52Low := none, week52High := none,
    latestVolume := none, avgTotalVolume := none, marketCap := none,
    peRatio := none }

def Batch.named (symbol companyName : String) : Batch :=
  { quote := .named symbol companyName, news := [], chart := [] }

structure Logo where
  url : String
deriving DecidableEq, Repr

structure UserStock where
  id : String
  stockSymbol : String
  stockName : String
  stockPercentage : Double
  stockLatestPrice : Double
deriving DecidableEq, Repr

structure SearchStock where
  symbol : String
  securityName : String
  region : String
  exchange : String
deriving DecidableEq, Repr

structure Alert where
  title : String
  message : String
deriving DecidableEq, Repr

end Stockly
