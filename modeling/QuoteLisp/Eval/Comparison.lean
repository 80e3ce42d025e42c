import QuoteLisp.Value.Equality

/-! Comparisons, which give one for true and zero for false. -/

namespace QuoteLisp

variable {H : Type}

namespace Comparison

/-- The comparison of two integers. -/
def ofIntegers (test : Comparison) (a b : Int64) : Bool :=
  match test with
  | greater => b < a
  | less => a < b
  | greaterEqual => b ≤ a
  | lessEqual => a ≤ b

/-- The comparison of two reals; none holds when one of them is not a number. -/
def ofReals (test : Comparison) (x y : Float) : Bool :=
  match test with
  | greater => y < x
  | less => x < y
  | greaterEqual => y ≤ x
  | lessEqual => x ≤ y

/-- Compares two numbers, as reals unless both are integers. -/
def ofValues (test : Comparison) (left right : Value H) : Except Error Bool :=
  match left, right with
  | .integer a, .integer b => .ok (test.ofIntegers a b)
  | left, right =>
    match left.toReal?, right.toReal? with
    | some x, some y => .ok (test.ofReals x y)
    | none, _ => .error (.typeMismatch test.name 0 .number left.kind)
    | _, none => .error (.typeMismatch test.name 1 .number right.kind)

/-- The comparison as an operation on arguments. -/
def apply (test : Comparison) : List (Value H) → Except Error (Value H)
  | [left, right] => (test.ofValues left right).map .ofBool
  | args => .error (.arityMismatch test.name (.exactly 2) args.length)

end Comparison

/-- Whether two arguments are the same value. -/
def equalOp : List (Value H) → Except Error (Value H)
  | [left, right] => .ok (.ofBool (left == right))
  | args => .error (.arityMismatch "==" (.exactly 2) args.length)

/-- Whether two arguments are different values. -/
def notEqualOp : List (Value H) → Except Error (Value H)
  | [left, right] => .ok (.ofBool (left != right))
  | args => .error (.arityMismatch "!=" (.exactly 2) args.length)

end QuoteLisp
