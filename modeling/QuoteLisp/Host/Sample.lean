import QuoteLisp.Host
import QuoteLisp.Number.Integer

/-! A few host operations, which between them use everything that a host operation may ask for. -/

namespace QuoteLisp

/-- Sample host operations. -/
inductive Sample where
  /-- Twice an integer. -/
  | double
  /-- The arguments as a quoted list. -/
  | quote
  /-- An error value as the result. -/
  | giveError
  /-- A quoted list that ends in an error value. -/
  | listError
  /-- The number of scopes. -/
  | envDepth
  /-- A call of the first argument with the others. -/
  | apply
  /-- A protected name in the innermost scope. -/
  | protect
  /-- The results of evaluating the arguments, error values included. -/
  | attempt
  deriving DecidableEq, Repr

namespace Sample

/-- Evaluates expressions in order; the results before are last first, and a failure ends it. -/
def attemptAll (results : List (Value Sample)) : List (Value Sample) → HostProgram Sample
  | [] => .done (.ok (.qexpr results.reverse))
  | expr :: rest => .eval expr fun
    | .ok value => attemptAll (value :: results) rest
    | .error e => .done (.error e)

/-- What each sample operation does with its arguments. -/
def program : Sample → List (Value Sample) → HostProgram Sample
  | double, [.integer n] =>
    .done <| match exactInt? (2 * n.toInt) with
      | some twice => .ok (.integer twice)
      | none => .error (.integerOverflow "double")
  | double, [other] => .done (.error (.typeMismatch "double" 0 (.kind .integer) other.kind))
  | double, args => .done (.error (.arityMismatch "double" (.exactly 1) args.length))
  | quote, args => .done (.ok (.qexpr args))
  | giveError, args =>
    let count := args.length
    .done (.ok (.error s!"given {count}"))
  | listError, args => .done (.ok (.qexpr (args ++ [.error "held"])))
  | envDepth, _ => .look fun env => .done (.ok (.integer (Int64.ofNat env.depth)))
  | apply, [] => .done (.error (.arityMismatch "apply" (.atLeast 1) 0))
  | apply, callee :: args =>
    if callee.isFunction then .call callee args .done
    else .done (.error (.typeMismatch "apply" 0 (.kind .function) callee.kind))
  | protect, [.symbol name, value] => .look fun env =>
    match env.bindProtected name value with
    | .ok bound => .replace bound (.done (.ok .ok))
    | .error e => .done (.error e)
  | protect, args => .done (.error (.arityMismatch "protect" (.exactly 2) args.length))
  | attempt, args => attemptAll [] args

end Sample

end QuoteLisp
