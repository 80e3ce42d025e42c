import QuoteLisp.Number.Integer
import QuoteLisp.Number.Shortest
import QuoteLisp.Value.Basic

/-! The text of a value for people who look into a program: every part with its kind. -/

namespace QuoteLisp

variable {H : Type}

/-- A character inside a quoted text; control characters are given by their code point. The texts are ASCII. -/
def inspectChar (c : Char) : List Char :=
  match c with
  | '"' => ['\\', '"']
  | '\\' => ['\\', '\\']
  | '\n' => ['\\', 'n']
  | '\t' => ['\\', 't']
  | '\r' => ['\\', 'r']
  | '\x00' => ['\\', '0']
  | c =>
    if c.toNat < 0x20 ∨ 0x7f ≤ c.toNat ∧ c.toNat < 0xa0 then
      "\\u\x7b".toList ++ Nat.toDigits 16 c.toNat ++ "\x7d".toList
    else [c]

/-- A text between double quotes, on one line. -/
def inspectText (text : String) : List Char :=
  '"' :: text.toList.flatMap inspectChar ++ ['"']

/-- Texts with a comma between them, in square brackets. -/
def inspectList (items : List (List Char)) : List Char :=
  '[' :: List.intercalate ", ".toList items ++ [']']

/-- A part with its kind in front. -/
def labelled (label : String) (inner : List Char) : List Char :=
  label.toList ++ '(' :: inner ++ [')']

mutual

/-- The text of a value with the kinds of all its parts. -/
def Value.inspect : Value H → List Char
  | .integer n => labelled "Integer" (intText n.toInt)
  | .real x => labelled "Real" (Binary.ofFloat x).shortestText
  | .error message => labelled "Error" (inspectText message)
  | .symbol name => labelled "Symbol" name.toList
  | .string text => labelled "String" (inspectText text)
  | .sexpr items => "SExpression".toList ++ inspectList (inspectItems items)
  | .qexpr items => "QExpression".toList ++ inspectList (inspectItems items)
  | .builtin op => labelled "Builtin" op.name.toList
  | .special op => labelled "Macro" op.name.toList
  | .closure formals body _ =>
    labelled "Closure" ("formals=".toList ++ inspectList (formals.map inspectText) ++
      ", body=".toList ++ inspectList (inspectItems body))
  | .ok => "Ok".toList
  | .empty => "Empty".toList
  | .quit code => labelled "Quit" (intText code.toInt)

/-- The texts of the values of a list. -/
def inspectItems : List (Value H) → List (List Char)
  | [] => []
  | item :: rest => item.inspect :: inspectItems rest

end

/-- An operation as it is stored in a value. -/
def Operation.inspect (op : Operation H) : String :=
  "Builtin(" ++ op.name ++ ", arity=" ++ op.arity.signature ++ ")"

/-- A primitive as the list of operations describes it. -/
def Primitive.inspect (p : Primitive) : String :=
  let quoted := String.ofList (inspectText p.name)
  let form := if p.isSpecial then "Macro" else "Function"
  "BuiltinOp \x7b name: " ++ quoted ++ ", kind: " ++ form ++ ", arity: " ++ p.arity.signature ++ ", .. \x7d"

end QuoteLisp
