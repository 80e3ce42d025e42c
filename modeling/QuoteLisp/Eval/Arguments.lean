import QuoteLisp.Value.Basic

/-! Arguments of the kind that an operation asks for. -/

namespace QuoteLisp

variable {H : Type}

/-- The failure of an argument of the wrong kind. -/
def wrongKind (operation : String) (index : Nat) (expected : Kind) (got : Value H) : Error :=
  .typeMismatch operation index (.kind expected) got.kind

/-- The items of a quoted list. -/
def expectList (operation : String) (index : Nat) : Value H → Except Error (List (Value H))
  | .qexpr items => .ok items
  | other => .error (wrongKind operation index .qexpr other)

/-- The text of a string. -/
def expectString (operation : String) (index : Nat) : Value H → Except Error String
  | .string text => .ok text
  | other => .error (wrongKind operation index .string other)

/-- The names in a list that holds only symbols; a failure points at the argument, not into the list. -/
def expectSymbols (operation : String) (index : Nat) : List (Value H) → Except Error (List String)
  | [] => .ok []
  | .symbol name :: rest => (expectSymbols operation index rest).map (name :: ·)
  | other :: _ => .error (wrongKind operation index .symbol other)

/-- What every argument gives, from a position on; the first failure counts. -/
def expectEach {β : Type} (expect : Nat → Value H → Except Error β) :
    Nat → List (Value H) → Except Error (List β)
  | _, [] => .ok []
  | index, arg :: rest => do
    let first ← expect index arg
    let others ← expectEach expect (index + 1) rest
    return first :: others

end QuoteLisp
