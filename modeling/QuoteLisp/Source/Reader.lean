import QuoteLisp.Error
import QuoteLisp.Number.Integer
import QuoteLisp.Number.Reading
import QuoteLisp.Source.Node
import QuoteLisp.Text.Escape
import QuoteLisp.Value.Basic

/-! From syntax trees to values. -/

namespace QuoteLisp

variable {H : Type}

/-- A number: real when its text has a point, else an integer; an error value when it is neither. -/
def readNumber (text : String) : Value H :=
  let digits := text.toList
  let number := if digits.contains '.' then (readReal? digits).map .real else (readInt64? digits).map .integer
  number.getD (.error (Error.invalidNumber text).message)

mutual

/-- The value of a syntax tree: atoms by their rule, and every other node as a list of its children. -/
def Node.read : Node → Value H
  | .mk rules contents children =>
    -- A node with several rules counts as the first of these that it has.
    if rules.contains .number then readNumber contents
    else if rules.contains .symbol then .symbol contents
    else if rules.contains .string then .string (String.ofList (unquote contents.toList))
    else if rules.contains .qexpr then .qexpr (readAll children)
    else .sexpr (readAll children)

/-- The values of a list of trees, brackets and comments left out. -/
def readAll : List Node → List (Value H)
  | [] => []
  | node :: rest => if node.isTrivia then readAll rest else node.read :: readAll rest

end

end QuoteLisp
