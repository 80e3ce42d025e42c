import QuoteLisp.Primitive
import QuoteLisp.Scope

/-! The values of the language. -/

namespace QuoteLisp

/-- What calling an operation does: something of the language, or something of the host program. -/
inductive Action (H : Type) where
  | primitive (op : Primitive)
  | host (op : H)
  deriving DecidableEq, Repr

/-- A named operation with the argument counts it takes. -/
structure Operation (H : Type) where
  name : String
  arity : Arity
  action : Action H
  deriving DecidableEq, Repr

/-- A value; the parameter is the type of the operations that a host program adds. -/
inductive Value (H : Type) where
  | integer (n : Int64)
  | real (x : Float)
  /-- An error as a value; evaluating it fails with its message. -/
  | error (message : String)
  | symbol (name : String)
  | string (text : String)
  /-- A list that is evaluated: its head is applied to the rest. -/
  | sexpr (items : List (Value H))
  /-- A quoted list, which evaluates to itself. -/
  | qexpr (items : List (Value H))
  /-- An operation whose operands are evaluated before the call. -/
  | builtin (op : Operation H)
  /-- An operation that receives its operands as written. -/
  | special (op : Operation H)
  /-- A function of the program: the formals that still wait for an argument, the body,
  and the scope of what is bound already. -/
  | closure (formals : List String) (body : List (Value H)) (scope : Scope (Value H))
  /-- What a call made for its effect gives. -/
  | ok
  /-- A result of which nothing is shown. -/
  | empty
  /-- The wish to end the run with an exit code. -/
  | quit (code : Int64)

/-- The formal that collects all further arguments in the one after it. -/
def restMarker : String := "&"

namespace Value

variable {H : Type}

/-- The kind of a value. -/
def kind : Value H → Kind
  | integer _ => .integer
  | real _ => .real
  | error _ => .error
  | symbol _ => .symbol
  | string _ => .string
  | sexpr _ => .sexpr
  | qexpr _ => .qexpr
  | builtin _ => .function
  | special _ => .function
  | closure .. => .function
  | ok => .ok
  | empty => .empty
  | quit _ => .quit

/-- Whether a value can be called. -/
def isFunction : Value H → Bool
  | builtin _ => true
  | special _ => true
  | closure .. => true
  | _ => false

/-- Whether a value is an operation, of the language or of the host. -/
def isOperation : Value H → Bool
  | builtin _ => true
  | special _ => true
  | _ => false

/-- Whether a value is a number. -/
def isNumber : Value H → Bool
  | integer _ => true
  | real _ => true
  | _ => false

/-- Whether a value is an error. -/
def isError : Value H → Bool
  | error _ => true
  | _ => false

/-- A result that prints nothing has no line of its own. -/
def suppressesNewline : Value H → Bool
  | empty => true
  | _ => false

/-- The name of an operation; closures have none. -/
def operationName? : Value H → Option String
  | builtin op => some op.name
  | special op => some op.name
  | _ => none

/-- A number as a real, the nearest one for a large integer. -/
def toReal? : Value H → Option Float
  | integer n => some (Float.ofInt n.toInt)
  | real x => some x
  | _ => none

/-- A closure with nothing bound yet. -/
def lambda (formals : List String) (body : List (Value H)) : Value H :=
  closure formals body {}

/-- Truth as a number, one or zero. -/
def ofBool (b : Bool) : Value H :=
  integer (if b then 1 else 0)

end Value

/-- The operation that a primitive is bound to. -/
def Primitive.operation {H : Type} (p : Primitive) : Operation H :=
  ⟨p.name, p.arity, .primitive p⟩

/-- The value that a primitive's name is bound to. -/
def Primitive.value {H : Type} (p : Primitive) : Value H :=
  if p.isSpecial then .special p.operation else .builtin p.operation

end QuoteLisp
