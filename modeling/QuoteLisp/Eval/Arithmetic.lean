import QuoteLisp.Number.Integer
import QuoteLisp.Number.Remainder
import QuoteLisp.Value.Basic

/-! Arithmetic: exact on integers, in double precision as soon as one operand is a real. -/

namespace QuoteLisp

variable {H : Type}

namespace Arithmetic

/-- The operation in words. -/
def description : Arithmetic → String
  | add => "addition"
  | sub => "subtraction"
  | mul => "multiplication"
  | div => "division"
  | rem => "modulo"

/-- A whole number as a machine integer, or the failure that it does not fit. -/
def exact (operation : String) (n : Int) : Except Error Int64 :=
  match exactInt? n with
  | some r => .ok r
  | none => .error (.integerOverflow operation)

/-- One step on integers. Division goes toward zero; a remainder has the sign of the dividend and needs the
quotient to fit as well. -/
def stepInteger (op : Arithmetic) (a b : Int64) : Except Error Int64 :=
  match op with
  | add => exact op.description (a.toInt + b.toInt)
  | sub => exact op.description (a.toInt - b.toInt)
  | mul => exact op.description (a.toInt * b.toInt)
  | div =>
    if b = 0 then .error .divisionByZero
    else exact op.description (a.toInt.tdiv b.toInt)
  | rem =>
    if b = 0 then .error .divisionByZero
    else do
      -- Only the least integer divided by minus one has no quotient.
      let _ ← exact op.description (a.toInt.tdiv b.toInt)
      exact op.description (a.toInt.tmod b.toInt)

/-- One step on reals; dividing by a zero of either sign fails. -/
def stepReal (op : Arithmetic) (x y : Float) : Except Error Float :=
  match op with
  | add => .ok (x + y)
  | sub => .ok (x - y)
  | mul => .ok (x * y)
  | div => if y == 0 then .error .divisionByZero else .ok (x / y)
  | rem => if y == 0 then .error .divisionByZero else .ok (remainder x y)

/-- The place and kind of the first argument that is no number, counted from a position on. -/
def firstOther? : Nat → List (Value H) → Option (Nat × Kind)
  | _, [] => none
  | index, arg :: rest => if arg.isNumber then firstOther? (index + 1) rest else some (index, arg.kind)

/-- The integers among the arguments. -/
def integers (args : List (Value H)) : List Int64 :=
  args.filterMap fun
    | .integer n => some n
    | _ => none

/-- Whether an argument is a real. -/
def isReal : Value H → Bool
  | .real _ => true
  | _ => false

/-- Combines integers from left to right; a single one is negated. -/
def foldIntegers (op : Arithmetic) : List Int64 → Except Error Int64
  | [] => .error (.arityMismatch op.name (.atLeast 1) 0)
  | [n] => exact "negation" (-n.toInt)
  | first :: rest => rest.foldlM op.stepInteger first

/-- Combines reals from left to right; a single one is negated. -/
def foldReals (op : Arithmetic) : List Float → Except Error Float
  | [] => .error (.arityMismatch op.name (.atLeast 1) 0)
  | [x] => .ok (-x)
  | first :: rest => rest.foldlM op.stepReal first

/-- Applies an operation to numbers: the kinds of all arguments are looked at before anything is computed. -/
def apply (op : Arithmetic) (args : List (Value H)) : Except Error (Value H) :=
  match firstOther? 0 args with
  | some (index, got) => .error (.typeMismatch op.name index .number got)
  | none =>
    -- One real makes the whole operation one on reals.
    if args.any isReal then (op.foldReals (args.filterMap Value.toReal?)).map .real
    else (op.foldIntegers (integers args)).map .integer

end Arithmetic

end QuoteLisp
