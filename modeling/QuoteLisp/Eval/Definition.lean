import QuoteLisp.Eval.Arguments
import QuoteLisp.Eval.State

/-! The definition forms, which bind names to values, and the removal of names. -/

namespace QuoteLisp

variable {H : Type}

namespace DefineMode

/-- Whether a name cannot be bound: protected where it would go, or for a protected definition known at all. -/
def isBlocked (mode : DefineMode) (env : Environment (Value H)) (name : String) : Bool :=
  match mode with
  | global => env.root.isProtected name
  | globalProtected => env.root.contains name
  | innermost => env.innermost.isProtected name

/-- Binds a name where the form puts it. -/
def bind (mode : DefineMode) (env : Environment (Value H)) (name : String) (value : Value H) :
    Except Error (Environment (Value H)) :=
  match mode with
  | global => env.define name value
  | globalProtected => env.defineProtected name value
  | innermost => env.bind name value

/-- Fails at the first name that cannot be bound; a protected definition cannot bind one name twice either.
`earlier` are the names before. -/
def check (mode : DefineMode) (env : Environment (Value H)) :
    (earlier : List String) → List String → Except Error Unit
  | _, [] => .ok ()
  | earlier, name :: rest =>
    if mode = globalProtected ∧ name ∈ earlier ∨ mode.isBlocked env name then
      .error (.protectedRedefinition name)
    else mode.check env (name :: earlier) rest

/-- Binds names to values one after the other, as long as there are both. -/
def bindAll (mode : DefineMode) : List String → List (Value H) → Eval H Unit
  | name :: names, value :: values => do
    Eval.changeEnv fun env => mode.bind env name value
    mode.bindAll names values
  | _, _ => pure ()

end DefineMode

/-- The names that a definition is for: a symbol, a quoted list of symbols, or an S-expression that gives either. -/
def definedNames (reduce : Reducer H) (operation : String) (target : Value H) : Eval H (List String) := do
  let target ← match target with
    | .sexpr items => reduce items
    | other => pure other
  match target with
  | .symbol name => pure [name]
  | .qexpr items => Eval.ofExcept (expectSymbols operation 0 items)
  | other => Eval.fail (wrongKind operation 0 .qexpr other)

/-- A definition: the names are checked before the values are evaluated and once more after, since evaluating
them may have bound one; nothing is bound unless both checks pass. -/
def define (reduce : Reducer H) (mode : DefineMode) : List (Value H) → Eval H (Value H)
  | [] => Eval.fail (.arityMismatch mode.name (.atLeast 2) 0)
  | target :: operands => do
    let names ← definedNames reduce mode.name target
    -- The counts are compared before any operand is evaluated.
    if names.length ≠ operands.length then
      Eval.fail (.symbolArityMismatch mode.name names.length operands.length)
    else
      let before ← Eval.read (·.env)
      Eval.ofExcept (mode.check before [] names)
      let values ← evalAllWith reduce operands
      -- Evaluating the operands may itself have bound or protected one of the names.
      let after ← Eval.read (·.env)
      Eval.ofExcept (mode.check after [] names)
      mode.bindAll names values
      pure .empty

/-- The environment without some names, each taken out of the innermost scope that has it. -/
def removeAll (env : Environment (Value H)) (names : List String) : Environment (Value H) :=
  names.foldl (fun env name => (env.remove? name).getD env) env

/-- Removes names, protected ones too; names that are not bound are passed over. -/
def undefine : List (Value H) → Eval H (Value H)
  | [list] => do
    let items ← Eval.ofExcept (expectList "undef" 0 list)
    let names ← Eval.ofExcept (expectSymbols "undef" 0 items)
    Eval.modify fun s => { s with env := removeAll s.env names }
    pure .empty
  | args => Eval.fail (.arityMismatch "undef" (.exactly 1) args.length)

end QuoteLisp
