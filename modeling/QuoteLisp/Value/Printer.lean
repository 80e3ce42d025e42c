import QuoteLisp.Number.Fixed
import QuoteLisp.Number.Integer
import QuoteLisp.Text.Escape
import QuoteLisp.Value.Basic

/-! The text of a value, as programs show it. -/

namespace QuoteLisp

variable {H : Type}

/-- Texts with one space between them. -/
def spaced : List (List Char) → List Char
  | [] => []
  | [text] => text
  | text :: rest => text ++ ' ' :: spaced rest

/-- A text between round brackets. -/
def inRound (inner : List Char) : List Char := '(' :: inner ++ [')']

/-- A text between curly brackets. -/
def inCurly (inner : List Char) : List Char := '{' :: inner ++ ['}']

mutual

/-- The text of a value; effects and wishes to quit have none. -/
def Value.render : Value H → List Char
  | .integer n => intText n.toInt
  | .real x => realText x
  | .error message => "Error: ".toList ++ message.toList
  | .symbol name => name.toList
  | .string text => quote text.toList
  | .sexpr items => inRound (spaced (renderItems items))
  | .qexpr items => inCurly (spaced (renderItems items))
  | .builtin _ => "<builtin>".toList
  | .special _ => "<macro>".toList
  | .closure formals body _ =>
    let parameters := inCurly (spaced (formals.map String.toList))
    inRound (spaced [['\\'], parameters, inCurly (spaced (renderItems body))])
  | .ok => []
  | .empty => []
  | .quit _ => []

/-- The texts of the values of a list. -/
def renderItems : List (Value H) → List (List Char)
  | [] => []
  | item :: rest => item.render :: renderItems rest

end

/-- The text of a value as a string. -/
def Value.text (value : Value H) : String :=
  String.ofList value.render

end QuoteLisp
