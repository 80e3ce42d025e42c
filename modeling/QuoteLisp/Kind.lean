/-! The kinds of value, by the names that error messages use. -/

namespace QuoteLisp

/-- The kind of a value. -/
inductive Kind where
  | integer
  | real
  | error
  | symbol
  | string
  | sexpr
  | qexpr
  | function
  | ok
  | empty
  | quit
  deriving DecidableEq, Repr

/-- The name of a kind. -/
def Kind.name : Kind → String
  | integer => "Integer"
  | real => "Real"
  | error => "Error"
  | symbol => "Symbol"
  | string => "String"
  | sexpr => "S-Expression"
  | qexpr => "Q-Expression"
  | function => "Function"
  | ok => "Ok"
  | empty => "Empty"
  | quit => "Quit"

/-- What an argument position asks for: values of one kind, or numbers of either kind. -/
inductive Wanted where
  | kind (kind : Kind)
  | number
  deriving DecidableEq, Repr

/-- The name of what is asked for. -/
def Wanted.name : Wanted → String
  | kind k => k.name
  | number => "Number"

end QuoteLisp
