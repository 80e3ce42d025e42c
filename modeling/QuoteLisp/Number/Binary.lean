import QuoteLisp.Number.Power

/-! Double-precision numbers as exact dyadic fractions, decoded from their bits and packed again. -/

namespace QuoteLisp

/-- What the bits of a double-precision number say. -/
inductive Binary where
  /-- Not a number. -/
  | undefined
  /-- An infinity with its sign. -/
  | infinite (negative : Bool)
  /-- The number `mantissa * 2 ^ exponent` with its sign, zeros included. -/
  | finite (negative : Bool) (mantissa : Nat) (exponent : Int)
  deriving DecidableEq, Repr

namespace Binary

/-- The exponent of the finest grid, on which the subnormal numbers lie. -/
def leastExponent : Int := -1074

/-- Decodes sign, exponent and fraction; a normal number has an implicit leading bit. -/
def ofBits (bits : UInt64) : Binary :=
  let word := bits.toNat
  let negative := word / twoTo 63 = 1
  let biased : Nat := word / twoTo 52 % twoTo 11
  let fraction := word % twoTo 52
  if biased = 2047 then
    if fraction = 0 then infinite negative else undefined
  else if biased = 0 then finite negative fraction leastExponent
  else finite negative (twoTo 52 + fraction) ((biased : Int) - 1075)

/-- The exact value of a machine number. -/
def ofFloat (x : Float) : Binary :=
  ofBits x.toBits

/-- Rescales a mantissa to the finest grid on which it has at most 53 bits; exact for every value on that grid. -/
def normalize (mantissa : Nat) (exponent : Int) : Nat × Int :=
  -- The leading bit goes to place 52 unless the grid cannot be that fine.
  let target := max leastExponent (exponent + mantissa.log2 - 52)
  if exponent ≤ target then (mantissa / twoTo (target - exponent).toNat, target)
  else (mantissa * twoTo (exponent - target).toNat, target)

/-- Packs a value that double precision represents exactly. -/
def toBits : Binary → UInt64
  | undefined => 0x7ff8000000000000
  | infinite negative => UInt64.ofNat ((if negative then twoTo 63 else 0) + 2047 * twoTo 52)
  | finite negative mantissa exponent =>
    let sign := if negative then twoTo 63 else 0
    let (scaled, grid) := normalize mantissa exponent
    if scaled < twoTo 52 then UInt64.ofNat (sign + scaled)
    else UInt64.ofNat (sign + (grid + 1075).toNat * twoTo 52 + (scaled - twoTo 52))

/-- The machine number with a given exact value. -/
def toFloat (value : Binary) : Float :=
  Float.ofBits value.toBits

end Binary

end QuoteLisp
