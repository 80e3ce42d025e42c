import QuoteLisp.Eval.Primitive

/-! Calls: operations with their argument counts, and closures with their formals. -/

namespace QuoteLisp

variable {H : Type}

/-- A closure's scope after a call has bound its arguments. -/
inductive Bound (H : Type) where
  /-- Formals that still wait for arguments. -/
  | waiting (formals : List String) (scope : Scope (Value H))
  /-- Every formal is bound. -/
  | complete (scope : Scope (Value H))

/-- Binds all further arguments, as a list, to the one formal that must follow the rest marker. -/
def bindRest (scope : Scope (Value H)) (after : List String) (args : List (Value H)) :
    Except Error (Bound H) :=
  match after with
  | [name] => (scope.bind name (.qexpr args)).map .complete
  | _ => .error .malformedVariadic

/-- Binds arguments to formals in order. The counts of the whole call are for the failure that reports them. -/
def bindArguments (formalCount argCount : Nat) :
    (formals : List String) → Scope (Value H) → List (Value H) → Except Error (Bound H)
  -- Arguments and formals end together.
  | [], scope, [] => .ok (.complete scope)
  | [], _, _ :: _ => .error (.tooManyArguments formalCount argCount)
  -- The arguments end first: a rest marker takes an empty list, every other formal waits.
  | formal :: after, scope, [] =>
    if formal = restMarker then bindRest scope after []
    else .ok (.waiting (formal :: after) scope)
  | formal :: after, scope, arg :: args =>
    if formal = restMarker then bindRest scope after (arg :: args)
    else do
      let bound ← scope.bind formal arg
      bindArguments formalCount argCount after bound args

/-- Calls a closure: with too few arguments it gives a closure that waits for the others, with all of them its
body is evaluated in its own scope on top of the caller's. -/
def callClosure (reduce : Reducer H) (formals : List String) (body : List (Value H)) (scope : Scope (Value H))
    (args : List (Value H)) : Eval H (Value H) := do
  match ← Eval.ofExcept (bindArguments formals.length args.length formals scope args) with
  | .waiting formals scope => pure (.closure formals body scope)
  -- The caller's scopes stay visible below.
  | .complete scope => Eval.within scope (reduce body)

/-- Runs what the host does for one of its operations. -/
abbrev HostRunner (H : Type) : Type := H → List (Value H) → Eval H (Value H)

/-- Runs an operation after checking the count of its arguments. -/
def Operation.runWith (folder : Folder) (reduce : Reducer H) (runHost : HostRunner H) (op : Operation H)
    (args : List (Value H)) : Eval H (Value H) := do
  Eval.ofExcept (op.arity.check op.name args.length)
  match op.action with
  | .primitive p => p.run folder reduce args
  | .host h => runHost h args

/-- An error value as the result of a call is a failure. -/
def raiseError : Value H → Eval H (Value H)
  | .error message => Eval.fail (.raised message)
  | value => pure value

/-- Calls a value with arguments as they are. -/
def callWith (folder : Folder) (reduce : Reducer H) (runHost : HostRunner H) (callee : Value H)
    (args : List (Value H)) : Eval H (Value H) := do
  let result ← match callee with
    | .builtin op => op.runWith folder reduce runHost args
    | .special op => op.runWith folder reduce runHost args
    | .closure formals body scope => callClosure reduce formals body scope args
    | other => Eval.fail (.notAFunction other.kind)
  raiseError result

/-- Runs a host operation, which may call others directly, at most as many one inside the other as the bound says. -/
def Machine.runHost (m : Machine H) (reduce : Reducer H) : Nat → HostRunner H
  | 0, _, _ => Eval.fail (.depthExceeded m.maxDepth)
  | bound + 1, op, args =>
    (m.host op args).run (guardedWith reduce) (callWith m.folder reduce (m.runHost reduce bound))

/-- Runs an operation on arguments, whatever it belongs to. -/
def Machine.runOperation (m : Machine H) (reduce : Reducer H) (op : Operation H) (args : List (Value H)) :
    Eval H (Value H) :=
  op.runWith m.folder reduce (m.runHost reduce (m.host.nesting args)) args

/-- Calls a value with arguments as they are. -/
def Machine.apply (m : Machine H) (reduce : Reducer H) (callee : Value H) (args : List (Value H)) :
    Eval H (Value H) :=
  callWith m.folder reduce (m.runHost reduce (m.host.nesting args)) callee args

end QuoteLisp
