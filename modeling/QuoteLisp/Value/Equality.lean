import QuoteLisp.Value.Basic

/-! When two values are the same. -/

namespace QuoteLisp

variable {H : Type}

/-- Reals are the same when they compare equal, and also when neither is a number. -/
def sameReal (x y : Float) : Bool :=
  x == y || (x.isNaN && y.isNaN)

mutual

/-- Equality by structure; operations count by name, and the scope of a closure does not count. -/
def Value.same : Value H → Value H → Bool
  | .integer a, .integer b => a == b
  | .real a, .real b => sameReal a b
  | .error a, .error b => a == b
  | .symbol a, .symbol b => a == b
  | .string a, .string b => a == b
  | .sexpr a, .sexpr b => sameItems a b
  | .qexpr a, .qexpr b => sameItems a b
  -- Names of operations are unique, so they stand for the whole operation.
  | .builtin a, .builtin b => a.name == b.name
  | .special a, .special b => a.name == b.name
  | .closure formals body _, .closure otherFormals otherBody _ =>
    formals == otherFormals && sameItems body otherBody
  | .ok, .ok => true
  | .empty, .empty => true
  | .quit a, .quit b => a == b
  | _, _ => false

/-- Lists are the same when they have the same values in the same order. -/
def sameItems : List (Value H) → List (Value H) → Bool
  | [], [] => true
  | a :: as, b :: bs => a.same b && sameItems as bs
  | _, _ => false

end

instance : BEq (Value H) := ⟨Value.same⟩

end QuoteLisp
