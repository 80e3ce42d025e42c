import QuoteLisp.Number.Binary

/-! The fewest decimal digits that read back as the same number, and their positional form. -/

namespace QuoteLisp

/-- A decimal value `digits * 10 ^ exponent`. -/
structure Decimal where
  digits : Nat
  exponent : Int
  deriving DecidableEq, Repr

/-- A fraction of natural numbers, not necessarily in lowest terms. -/
structure Ratio where
  num : Nat
  den : Nat

namespace Ratio

/-- The value `m * 2 ^ e`. -/
def binary (m : Nat) (e : Int) : Ratio :=
  ⟨m * twoTo e.toNat, twoTo (-e).toNat⟩

/-- The value `m * 10 ^ e`. -/
def decimal (m : Nat) (e : Int) : Ratio :=
  ⟨m * tenTo e.toNat, tenTo (-e).toNat⟩

/-- Comparison by cross multiplication. -/
def lt (x y : Ratio) : Bool := x.num * y.den < y.num * x.den

/-- Comparison by cross multiplication, equality allowed. -/
def le (x y : Ratio) : Bool := x.num * y.den ≤ y.num * x.den

/-- How far two fractions are apart. -/
def distance (x y : Ratio) : Ratio :=
  ⟨(x.num * y.den - y.num * x.den) + (y.num * x.den - x.num * y.den), x.den * y.den⟩

end Ratio

namespace Binary

/-- The values halfway to the two neighbours of a positive number; below a power of two the grid is finer. -/
def halfway (mantissa : Nat) (exponent : Int) : Ratio × Ratio :=
  let upper := Ratio.binary (2 * mantissa + 1) (exponent - 1)
  let lower :=
    if mantissa = twoTo 52 ∧ leastExponent < exponent then Ratio.binary (4 * mantissa - 1) (exponent - 2)
    else Ratio.binary (2 * mantissa - 1) (exponent - 1)
  (lower, upper)

/-- A decimal reads back as the number when it lies between the halfway values, ends included for an even mantissa. -/
def readsBack (mantissa : Nat) (exponent : Int) (candidate : Decimal) : Bool :=
  let (lower, upper) := halfway mantissa exponent
  let value := Ratio.decimal candidate.digits candidate.exponent
  if mantissa % 2 = 0 then lower.le value && value.le upper
  else lower.lt value && value.lt upper

/-- The two neighbours of a positive number on the decimal grid of a given exponent. -/
def neighbours (mantissa : Nat) (exponent grid : Int) : Decimal × Decimal :=
  let value := Ratio.binary mantissa exponent
  let floor := value.num * tenTo (-grid).toNat / (value.den * tenTo grid.toNat)
  (⟨floor, grid⟩, ⟨floor + 1, grid⟩)

/-- On one decimal grid, the neighbour that reads back, and of two the nearer; a tie goes up. -/
def onGrid? (mantissa : Nat) (exponent grid : Int) : Option Decimal :=
  let (below, above) := neighbours mantissa exponent grid
  let value := Ratio.binary mantissa exponent
  let away (d : Decimal) := (Ratio.decimal d.digits d.exponent).distance value
  -- Below and above are the only points of the grid that can be nearest.
  match readsBack mantissa exponent below, readsBack mantissa exponent above with
  | true, true => some (if (away below).lt (away above) then below else above)
  | true, false => some below
  | false, true => some above
  | false, false => none

/-- The number of decimal digits before the point, zero or less for a fraction. -/
def magnitude (mantissa : Nat) (exponent : Int) : Int :=
  let value := Ratio.binary mantissa exponent
  if value.den ≤ value.num then (Nat.toDigits 10 (value.num / value.den)).length
  else
    -- The first power of ten that brings the fraction to one or more.
    let quotient := value.den / value.num
    let guess := (Nat.toDigits 10 quotient).length
    if value.den ≤ value.num * tenTo (guess - 1) then 2 - guess else 1 - guess

/-- The coarsest grid with a decimal that reads back; 17 digits always suffice. -/
def shortest (mantissa : Nat) (exponent : Int) : Decimal :=
  let places := magnitude mantissa exponent
  let found := (List.range 17).findSome? fun (extra : Nat) => onGrid? mantissa exponent (places - 1 - extra)
  found.getD (neighbours mantissa exponent (places - 17)).1

end Binary

/-- A decimal in positional form, without an exponent, trailing zeros of the fraction or a point after a whole number. -/
def Decimal.positional (d : Decimal) : List Char :=
  let digits := Nat.toDigits 10 d.digits
  if 0 ≤ d.exponent then digits ++ List.replicate d.exponent.toNat '0'
  else
    let places := (-d.exponent).toNat
    let padded := List.replicate (places + 1 - digits.length) '0' ++ digits
    let whole := padded.take (padded.length - places)
    let fraction := ((padded.drop (padded.length - places)).reverse.dropWhile (· == '0')).reverse
    if fraction.isEmpty then whole else whole ++ '.' :: fraction

/-- A number with the fewest digits that read back. -/
def Binary.shortestText : Binary → List Char
  | undefined => "NaN".toList
  | infinite negative => if negative then "-inf".toList else "inf".toList
  | finite negative mantissa exponent =>
    let magnitude := if mantissa = 0 then ['0'] else (shortest mantissa exponent).positional
    if negative then '-' :: magnitude else magnitude

end QuoteLisp
