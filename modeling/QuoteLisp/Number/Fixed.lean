import QuoteLisp.Number.Binary

/-! Numbers written with a fixed count of decimal places, rounded from their exact value. -/

namespace QuoteLisp

/-- A quotient rounded to the nearest whole number; a tie goes to the even neighbour. -/
def roundHalfEven (num den : Nat) : Nat :=
  let floor := num / den
  let rest := num % den
  if 2 * rest < den then floor
  else if den < 2 * rest then floor + 1
  else if floor % 2 = 0 then floor
  else floor + 1

/-- The decimal digits of a number, with zeros in front up to a given width. -/
def paddedDigits (width n : Nat) : List Char :=
  let digits := Nat.toDigits 10 n
  List.replicate (width - digits.length) '0' ++ digits

/-- A count of units of `10 ^ -places` in positional form. -/
def fixedPoint (places units : Nat) : List Char :=
  Nat.toDigits 10 (units / tenTo places) ++ '.' :: paddedDigits places (units % tenTo places)

namespace Binary

/-- The nearest count of units of `10 ^ -places` to a magnitude. -/
def units (places mantissa : Nat) (exponent : Int) : Nat :=
  roundHalfEven (mantissa * tenTo places * twoTo exponent.toNat) (twoTo (-exponent).toNat)

/-- The number with a fixed count of places; the sign stays also on a zero. -/
def fixed (places : Nat) : Binary → List Char
  | undefined => "NaN".toList
  | infinite negative => if negative then "-inf".toList else "inf".toList
  | finite negative mantissa exponent =>
    let magnitude := fixedPoint places (units places mantissa exponent)
    if negative then '-' :: magnitude else magnitude

end Binary

/-- Real values are shown with six decimal places. -/
def realText (x : Float) : List Char :=
  (Binary.ofFloat x).fixed 6

end QuoteLisp
