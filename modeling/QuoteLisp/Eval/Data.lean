import QuoteLisp.Eval.Arguments

/-! Operations on lists, strings and functions that only compute a value. -/

namespace QuoteLisp

variable {H : Type}

/-- The first element of a list, as a list. -/
def headOp : List (Value H) → Except Error (Value H)
  | [list] => do
    match ← expectList "head" 0 list with
    | [] => .error (.emptyListAccess "head" 0)
    | first :: _ => return .qexpr [first]
  | args => .error (.arityMismatch "head" (.exactly 1) args.length)

/-- A list without its first element. -/
def tailOp : List (Value H) → Except Error (Value H)
  | [list] => do
    match ← expectList "tail" 0 list with
    | [] => .error (.emptyListAccess "tail" 0)
    | _ :: rest => return .qexpr rest
  | args => .error (.arityMismatch "tail" (.exactly 1) args.length)

/-- Lists put together in order. -/
def joinOp (args : List (Value H)) : Except Error (Value H) := do
  let lists ← expectEach (expectList "join") 0 args
  return .qexpr lists.flatten

/-- Strings put together in order. -/
def concatOp (args : List (Value H)) : Except Error (Value H) := do
  let texts ← expectEach (expectString "strcat") 0 args
  return .string (String.join texts)

/-- A closure from a list of formals and a body; the kinds of both are looked at before the formals themselves. -/
def lambdaOp : List (Value H) → Except Error (Value H)
  | [formals, body] => do
    let formals ← expectList "\\" 0 formals
    let body ← expectList "\\" 1 body
    let names ← expectSymbols "\\" 0 formals
    return .lambda names body
  | args => .error (.arityMismatch "\\" (.exactly 2) args.length)

/-- Fails with a message. -/
def raiseOp : List (Value H) → Except Error (Value H)
  | [message] => do
    let text ← expectString "error" 0 message
    .error (.raised text)
  | args => .error (.arityMismatch "error" (.exactly 1) args.length)

/-- The wish to end the run, with code zero unless another is given. -/
def exitOp : List (Value H) → Except Error (Value H)
  | [] => .ok (.quit 0)
  | .integer code :: _ => .ok (.quit code)
  | other :: _ => .error (wrongKind "exit" 0 .integer other)

end QuoteLisp
