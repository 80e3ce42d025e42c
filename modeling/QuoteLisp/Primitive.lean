import QuoteLisp.Arity

/-! The operations that every environment starts with: their names, argument counts and order. -/

namespace QuoteLisp

/-- The arithmetic operations. -/
inductive Arithmetic where
  | add
  | sub
  | mul
  | div
  | rem
  deriving DecidableEq, Repr

/-- The comparisons of numbers by size. -/
inductive Comparison where
  | greater
  | less
  | greaterEqual
  | lessEqual
  deriving DecidableEq, Repr

/-- Where a definition puts its names. -/
inductive DefineMode where
  /-- In the root scope. -/
  | global
  /-- In the root scope, protected. -/
  | globalProtected
  /-- In the innermost scope. -/
  | innermost
  deriving DecidableEq, Repr

/-- The operations of the language itself. -/
inductive Primitive where
  | print
  | raise
  | exit
  | define (mode : DefineMode)
  | undefine
  | lambda
  | list
  | head
  | tail
  | eval
  | join
  | concat
  | poolStats
  | arithmetic (op : Arithmetic)
  | branch
  | equal
  | notEqual
  | order (test : Comparison)
  | load
  deriving DecidableEq, Repr

/-- The name of an arithmetic operation. -/
def Arithmetic.name : Arithmetic → String
  | add => "+"
  | sub => "-"
  | mul => "*"
  | div => "/"
  | rem => "%"

/-- The name of a comparison. -/
def Comparison.name : Comparison → String
  | greater => ">"
  | less => "<"
  | greaterEqual => ">="
  | lessEqual => "<="

/-- The name of a definition form. -/
def DefineMode.name : DefineMode → String
  | global => "def"
  | globalProtected => "pdef"
  | innermost => "="

namespace Primitive

/-- The name under which an operation is bound. -/
def name : Primitive → String
  | print => "print"
  | raise => "error"
  | exit => "exit"
  | define mode => mode.name
  | undefine => "undef"
  | lambda => "\\"
  | list => "list"
  | head => "head"
  | tail => "tail"
  | eval => "eval"
  | join => "join"
  | concat => "strcat"
  | poolStats => "mem-pool-stats"
  | arithmetic op => op.name
  | branch => "if"
  | equal => "=="
  | notEqual => "!="
  | order test => test.name
  | load => "load"

/-- The argument counts an operation takes; only subtraction takes a single number. -/
def arity : Primitive → Arity
  | print => .any
  | raise => .exactly 1
  | exit => .between 0 1
  | define _ => .atLeast 2
  | undefine => .exactly 1
  | lambda => .exactly 2
  | list => .any
  | head => .exactly 1
  | tail => .exactly 1
  | eval => .exactly 1
  | join => .atLeast 1
  | concat => .atLeast 1
  | poolStats => .exactly 0
  | arithmetic .sub => .atLeast 1
  | arithmetic _ => .atLeast 2
  | branch => .between 2 3
  | equal => .exactly 2
  | notEqual => .exactly 2
  | order _ => .exactly 2
  | load => .exactly 1

/-- A special form receives its operands as written. -/
def isSpecial : Primitive → Bool
  | define _ => true
  | _ => false

/-- Every operation, in the order in which they are bound. -/
def all : List Primitive :=
  [print, raise, exit, define .global, define .globalProtected, define .innermost, undefine, lambda,
    list, head, tail, eval, join, concat, poolStats,
    arithmetic .add, arithmetic .sub, arithmetic .mul, arithmetic .div, arithmetic .rem,
    branch, equal, notEqual, order .greater, order .less, order .greaterEqual, order .lessEqual, load]

/-- The operation with a name. -/
def find? (name : String) : Option Primitive :=
  all.find? (·.name == name)

end Primitive

end QuoteLisp
