import QuoteLisp.Number.Binary
import QuoteLisp.Number.Integer

/-! Decimal fractions with an optional exponent, read to the nearest double-precision number. -/

namespace QuoteLisp

/-- A written number taken apart: sign, digits before and after the point, power of ten. -/
structure Numeral where
  negative : Bool
  whole : List Char
  fraction : List Char
  exponent : Int

/-- An optional sign in front of a text, and what follows it. -/
def takeSign : List Char → Bool × List Char
  | '-' :: rest => (true, rest)
  | '+' :: rest => (false, rest)
  | rest => (false, rest)

/-- The power of ten at the end of a number; the mark may be in either case and nothing may follow the digits. -/
def exponent? : List Char → Option Int
  | [] => some 0
  | mark :: rest =>
    if mark = 'e' ∨ mark = 'E' then readInt? rest else none

/-- Takes a written number apart; digits are needed before or after the point. -/
def numeral? (text : List Char) : Option Numeral := do
  let (negative, unsigned) := takeSign text
  let whole := unsigned.takeWhile Char.isDigit
  let afterWhole := unsigned.dropWhile Char.isDigit
  let (fraction, tail) := match afterWhole with
    | '.' :: rest => (rest.takeWhile Char.isDigit, rest.dropWhile Char.isDigit)
    | rest => ([], rest)
  guard (!(whole.isEmpty && fraction.isEmpty))
  let exponent ← exponent? tail
  return ⟨negative, whole, fraction, exponent⟩

/-- The nearest machine number to `digits * 10 ^ exponent`, infinite or zero beyond the range. -/
def nearestDecimal (digits : Nat) (exponent : Int) : Float :=
  -- A value that is not zero lies below ten to the power of its size, and at or above one power less.
  let size := (Nat.toDigits 10 digits).length + exponent
  if digits = 0 ∨ size < -400 then Float.ofBits 0
  else if 400 < size then (Binary.infinite false).toFloat
  else if 0 ≤ exponent then Float.ofScientific digits false exponent.toNat
  else Float.ofScientific digits true (-exponent).toNat

/-- The machine number nearest to a written one; the sign stays also on a zero. -/
def Numeral.toFloat (n : Numeral) : Float :=
  let size := nearestDecimal (numeralValue (n.whole ++ n.fraction)) (n.exponent - n.fraction.length)
  if n.negative then -size else size

/-- Reads a decimal fraction. -/
def readReal? (text : List Char) : Option Float :=
  (numeral? text).map Numeral.toFloat

end QuoteLisp
