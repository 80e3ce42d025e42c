import QuoteLisp.Error

/-! One table of names, in order of insertion, some of them protected against a new value. -/

namespace QuoteLisp

/-- A name with its value. -/
structure Binding (α : Type) where
  name : String
  value : α
  isProtected : Bool
  deriving BEq, Repr

/-- An ordered table of bindings. -/
structure Scope (α : Type) where
  bindings : List (Binding α) := []
  deriving BEq, Repr

namespace Scope

variable {α : Type}

/-- The binding of a name. -/
def find? (scope : Scope α) (name : String) : Option (Binding α) :=
  scope.bindings.find? (·.name == name)

/-- The value of a name. -/
def get? (scope : Scope α) (name : String) : Option α :=
  (scope.find? name).map (·.value)

/-- Whether a name is bound. -/
def contains (scope : Scope α) (name : String) : Bool :=
  scope.bindings.any (·.name == name)

/-- Whether a name is bound and protected. -/
def isProtected (scope : Scope α) (name : String) : Bool :=
  scope.bindings.any fun binding => binding.name == name && binding.isProtected

/-- The number of bindings. -/
def size (scope : Scope α) : Nat := scope.bindings.length

/-- The table with one more binding at its end. -/
def push (scope : Scope α) (name : String) (value : α) (isProtected : Bool) : Scope α :=
  ⟨scope.bindings ++ [⟨name, value, isProtected⟩]⟩

/-- Gives the first binding of a name a new value, at the same place. -/
def revalue (name : String) (value : α) : List (Binding α) → List (Binding α)
  | [] => []
  | binding :: rest =>
    if binding.name == name then { binding with value := value } :: rest
    else binding :: revalue name value rest

/-- Binds a name: a new one at the end, a known one at its place unless it is protected. -/
def bind (scope : Scope α) (name : String) (value : α) : Except Error (Scope α) :=
  match scope.find? name with
  -- A new name goes to the end of the table.
  | none => .ok (scope.push name value false)
  -- A known name keeps its place.
  | some known =>
    if known.isProtected then .error (.protectedRedefinition name)
    else .ok ⟨revalue name value scope.bindings⟩

/-- Binds a new name for good; a known name is refused. -/
def bindProtected (scope : Scope α) (name : String) (value : α) : Except Error (Scope α) :=
  if scope.contains name then .error (.protectedRedefinition name)
  else .ok (scope.push name value true)

/-- Takes a binding out, protected or not, and gives its value. -/
def remove? (scope : Scope α) (name : String) : Option (α × Scope α) :=
  (scope.find? name).map fun known => (known.value, ⟨scope.bindings.eraseP (·.name == name)⟩)

end Scope

end QuoteLisp
