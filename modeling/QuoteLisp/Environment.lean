import QuoteLisp.Scope

/-! The chain of scopes that an evaluation sees: a root that always stays, and scopes entered on top of it. -/

namespace QuoteLisp

/-- A root scope and the scopes entered since, innermost first. -/
structure Environment (α : Type) where
  root : Scope α := {}
  inner : List (Scope α) := []
  deriving BEq, Repr

namespace Environment

variable {α : Type}

/-- Every scope, innermost first and the root last. -/
def scopes (env : Environment α) : List (Scope α) :=
  env.inner ++ [env.root]

/-- The number of scopes. -/
def depth (env : Environment α) : Nat :=
  env.inner.length + 1

/-- The scope entered last, or the root. -/
def innermost (env : Environment α) : Scope α :=
  env.inner.headD env.root

/-- The chain with another innermost scope. -/
def withInnermost (env : Environment α) (scope : Scope α) : Environment α :=
  match env.inner with
  | [] => { env with root := scope }
  | _ :: outer => { env with inner := scope :: outer }

/-- The value of a name in the innermost scope that has it. -/
def get? (env : Environment α) (name : String) : Option α :=
  -- The root is asked only when no scope above it has the name.
  match env.inner.findSome? (·.get? name) with
  | some value => some value
  | none => env.root.get? name

/-- The value of a name, or the failure that it has none. -/
def lookup (env : Environment α) (name : String) : Except Error α :=
  match env.get? name with
  | some value => .ok value
  | none => .error (.unboundSymbol name)

/-- Binds a name in the innermost scope. -/
def bind (env : Environment α) (name : String) (value : α) : Except Error (Environment α) :=
  (env.innermost.bind name value).map env.withInnermost

/-- Binds a protected name in the innermost scope. -/
def bindProtected (env : Environment α) (name : String) (value : α) : Except Error (Environment α) :=
  (env.innermost.bindProtected name value).map env.withInnermost

/-- Binds a name in the root scope. -/
def define (env : Environment α) (name : String) (value : α) : Except Error (Environment α) :=
  (env.root.bind name value).map fun root => { env with root := root }

/-- Binds a protected name in the root scope. -/
def defineProtected (env : Environment α) (name : String) (value : α) : Except Error (Environment α) :=
  (env.root.bindProtected name value).map fun root => { env with root := root }

/-- Takes a name out of the first scope of a list that has it. -/
def removeFirst? (name : String) : List (Scope α) → Option (List (Scope α))
  | [] => none
  | scope :: outer =>
    match scope.remove? name with
    | some (_, rest) => some (rest :: outer)
    | none => (removeFirst? name outer).map (scope :: ·)

/-- Takes a name out of the innermost scope that has it, protected or not. -/
def remove? (env : Environment α) (name : String) : Option (Environment α) :=
  -- Only the binding that a look-up would find is taken out.
  match removeFirst? name env.inner with
  | some inner => some { env with inner := inner }
  | none => (env.root.remove? name).map fun (_, root) => { env with root := root }

/-- Puts a scope on top of the chain. -/
def enter (env : Environment α) (scope : Scope α) : Environment α :=
  { env with inner := scope :: env.inner }

/-- Takes the scope entered last off the chain; the root stays. -/
def leave? (env : Environment α) : Option (Scope α × Environment α) :=
  match env.inner with
  | [] => none
  | scope :: outer => some (scope, { env with inner := outer })

/-- The chain without the scope entered last; a chain of the root alone stays as it is. -/
def leave (env : Environment α) : Environment α :=
  { env with inner := env.inner.tail }

/-- Adds a binding to a list of visible ones unless its name is already seen. -/
def addVisible (seen : List (String × α)) (binding : Binding α) : List (String × α) :=
  if seen.any (·.1 == binding.name) then seen else seen ++ [(binding.name, binding.value)]

/-- All visible bindings: those of inner scopes hide those of outer ones, sorted by name. -/
def bindings (env : Environment α) : List (String × α) :=
  -- Inner scopes come first, so what is seen first is what a look-up finds.
  let visible := (env.scopes.flatMap (·.bindings)).foldl addVisible []
  visible.mergeSort fun a b => decide (a.1 ≤ b.1)

end Environment

end QuoteLisp
