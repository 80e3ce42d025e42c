/-! Syntax trees: what a grammar rule matched, with the text of leaves and the children of branches. -/

namespace QuoteLisp

/-- A grammar rule. -/
inductive Rule where
  | number
  | symbol
  | string
  | comment
  /-- A list in round brackets. -/
  | sexpr
  /-- A list in curly brackets. -/
  | qexpr
  /-- A bracket on its own. -/
  | delimiter
  /-- A whole program. -/
  | program
  /-- Any other rule of a grammar, by name. -/
  | other (name : String)
  deriving DecidableEq, Repr

namespace Rule

/-- The name of a rule. -/
def name : Rule → String
  | number => "number"
  | symbol => "symbol"
  | string => "string"
  | comment => "comment"
  | sexpr => "sexpr"
  | qexpr => "qexpr"
  | delimiter => "char"
  | program => ">"
  | other name => name

/-- The rule with a name. -/
def ofName (name : String) : Rule :=
  match [number, symbol, string, comment, sexpr, qexpr, delimiter, program].find? (·.name == name) with
  | some rule => rule
  | none => other name

end Rule

/-- The parts of a text between the occurrences of a character. -/
def splitAtChar (separator : Char) : List Char → List (List Char)
  | [] => [[]]
  | c :: rest =>
    if c = separator then [] :: splitAtChar separator rest
    else match splitAtChar separator rest with
      | [] => [[c]]
      | part :: parts => (c :: part) :: parts

/-- The rules that a compound tag names, with bars between them. -/
def rulesOfTag (tag : String) : List Rule :=
  (splitAtChar '|' tag.toList).map fun part => Rule.ofName (String.ofList part)

/-- A syntax tree. -/
inductive Node where
  /-- The rules that produced the node, the text of a leaf, and the children of a branch. -/
  | mk (rules : List Rule) (contents : String) (children : List Node)
  deriving Repr

namespace Node

/-- The rules that produced a node. -/
def rules : Node → List Rule
  | mk rules _ _ => rules

/-- The text of a leaf. -/
def contents : Node → String
  | mk _ contents _ => contents

/-- The children of a branch. -/
def children : Node → List Node
  | mk _ _ children => children

/-- A node without children. -/
def leaf (rule : Rule) (contents : List Char) : Node :=
  mk [rule] (String.ofList contents) []

/-- A node without text. -/
def branch (rule : Rule) (children : List Node) : Node :=
  mk [rule] "" children

/-- Whether a rule is among those that produced a node. -/
def hasRule (node : Node) (rule : Rule) : Bool :=
  node.rules.contains rule

/-- The rule names of a node with bars between them. -/
def tag (node : Node) : String :=
  "|".intercalate (node.rules.map Rule.name)

/-- Brackets and comments carry no value. -/
def isTrivia (node : Node) : Bool :=
  node.hasRule .delimiter || node.hasRule .comment

mutual

/-- The nodes of a tree from the root on, each with its depth. -/
def preorder (depth : Nat) : Node → List (Nat × Node)
  | mk rules contents children =>
    (depth, mk rules contents children) :: preorderAll (depth + 1) children

/-- The nodes of several trees, one tree after the other. -/
def preorderAll (depth : Nat) : List Node → List (Nat × Node)
  | [] => []
  | node :: rest => preorder depth node ++ preorderAll depth rest

end

end Node

end QuoteLisp
