import QuoteLisp.Number.Binary

/-! The exact remainder of two double-precision numbers, with the sign of the dividend. -/

namespace QuoteLisp

namespace Binary

/-- The remainder of a division rounded toward zero, computed on the common grid and so without rounding. -/
def remainder : Binary → Binary → Binary
  | undefined, _ => undefined
  | infinite _, _ => undefined
  | finite .., undefined => undefined
  | finite negative mantissa exponent, infinite _ => finite negative mantissa exponent
  | finite negative mantissa exponent, finite _ divisor divisorExponent =>
    if divisor = 0 then undefined
    else
      let grid := min exponent divisorExponent
      let scaled := mantissa * twoTo (exponent - grid).toNat
      let scaledDivisor := divisor * twoTo (divisorExponent - grid).toNat
      finite negative (scaled % scaledDivisor) grid

end Binary

/-- The remainder of two machine numbers. -/
def remainder (x y : Float) : Float :=
  ((Binary.ofFloat x).remainder (Binary.ofFloat y)).toFloat

end QuoteLisp
