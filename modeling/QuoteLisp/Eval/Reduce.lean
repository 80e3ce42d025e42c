import QuoteLisp.Eval.Call

/-! The reduction of S-expressions, down to a limit on nesting. -/

namespace QuoteLisp

variable {H : Type}

/-- Evaluates operands from left to right and stores each in the pool. The handles are given whatever the
outcome, so that the chunks can be freed. -/
def parkOperands (reduce : Reducer H) : List (Value H) → Eval H (List Handle × Except Error Unit)
  | [] => pure ([], .ok ())
  | operand :: rest => do
    match ← Eval.outcome (evalWith reduce operand >>= Eval.hold) with
    -- What is stored already stays in the pool until the caller frees it.
    | .error e => pure ([], .error e)
    | .ok handle => do
      let (handles, result) ← parkOperands reduce rest
      pure (handle :: handles, result)

/-- Stores the head and then the operands in the pool. -/
def park (reduce : Reducer H) (head : Value H) (operands : List (Value H)) :
    Eval H (List Handle × Except Error Unit) := do
  match ← Eval.outcome (Eval.hold head) with
  | .error e => pure ([], .error e)
  | .ok handle => do
    let (handles, result) ← parkOperands reduce operands
    pure (handle :: handles, result)

/-- The evaluated head and operands, which were in the pool until the last of them was there. -/
def evalOperands (reduce : Reducer H) (head : Value H) (operands : List (Value H)) : Eval H (List (Value H)) := do
  let (handles, result) ← park reduce head operands
  -- The chunks are freed before a failure is passed on.
  let values ← Eval.release handles
  Eval.ofExcept result
  pure values

namespace Machine

/-- Applies evaluated elements: a single one that is no function stands for itself. -/
def applyElements (m : Machine H) (reduce : Reducer H) : List (Value H) → Eval H (Value H)
  | [] => pure (.sexpr [])
  | [value] => if value.isFunction then m.apply reduce value [] else pure value
  | callee :: args => m.apply reduce callee args

/-- Reduces an S-expression given by its head and operands: a special form gets the operands as they are,
every other head gets them evaluated. -/
def reduce (m : Machine H) (inner : Reducer H) (first : Value H) (operands : List (Value H)) :
    Eval H (Value H) := do
  let head ← evalWith inner first
  match head with
  -- Nothing goes through the pool for a special form.
  | .special op => m.apply inner (.special op) operands
  | head => do
    let values ← evalOperands inner head operands
    m.applyElements inner values

/-- Reduces an S-expression one level deeper, unless the limit is reached; an empty one stands for itself. -/
def descend (m : Machine H) (inner : Value H → List (Value H) → Eval H (Value H)) : Reducer H
  | [] => pure (.sexpr [])
  | first :: operands => do
    let depth ← Eval.read (·.depth)
    if m.maxDepth ≤ depth then Eval.fail (.depthExceeded m.maxDepth)
    else Eval.deeper (inner first operands)

/-- Reduction with at most so many levels below; what is below them is given by `base`. -/
def nested (m : Machine H) (base : Value H → List (Value H) → Eval H (Value H)) : Nat → Reducer H
  | 0 => m.descend base
  | levels + 1 => m.descend (m.reduce (m.nested base levels))

/-- Reduces an S-expression. The levels that the limit leaves are enough, since each level is one deeper. -/
def reducer (m : Machine H) : Reducer H := fun items s =>
  m.nested (fun _ _ => Eval.fail (.depthExceeded m.maxDepth)) (m.maxDepth - s.depth) items s

/-- Evaluates an expression; every failure is passed on as one. -/
def tryEval (m : Machine H) (expr : Value H) : Eval H (Value H) :=
  evalWith m.reducer expr

/-- Evaluates an expression; a failure that is not fatal becomes an error value. -/
def eval (m : Machine H) (expr : Value H) : Eval H (Value H) :=
  guardedWith m.reducer expr

/-- Calls a value with arguments as they are. -/
def call (m : Machine H) (callee : Value H) (args : List (Value H)) : Eval H (Value H) :=
  m.apply m.reducer callee args

/-- Runs an operation on arguments as they are. -/
def run (m : Machine H) (op : Operation H) (args : List (Value H)) : Eval H (Value H) :=
  m.runOperation m.reducer op args

/-- Evaluates the expressions of a file in order. -/
def load (m : Machine H) (path : String) : Eval H (Value H) :=
  loadWith m.folder m.reducer path

/-- Evaluates a text as one S-expression; a text that cannot be parsed is a failure. -/
def evalText (m : Machine H) (source : String) : Eval H (Value H) := do
  let expr ← Eval.ofExcept (readSource source)
  m.eval expr

end Machine

end QuoteLisp
