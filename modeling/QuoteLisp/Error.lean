import QuoteLisp.Arity
import QuoteLisp.Kind
import QuoteLisp.Source.ParseError

/-! The ways in which an evaluation can fail, and their messages. -/

namespace QuoteLisp

/-- Why the text of a file could not be had. -/
inductive FileFault where
  /-- There is no such file. -/
  | missing
  /-- The path names a directory. -/
  | directory
  /-- The contents are not UTF-8 text. -/
  | notText
  /-- The path has a zero character in it. -/
  | zeroInPath
  deriving DecidableEq, Repr

/-- The reason in words. -/
def FileFault.text : FileFault → String
  | missing => "No such file or directory (os error 2)"
  | directory => "Is a directory (os error 21)"
  | notText => "stream did not contain valid UTF-8"
  | zeroInPath => "file name contained an unexpected NUL byte"

/-- Why a file could not be loaded as a program. -/
inductive LoadFault where
  /-- Its text could not be had. -/
  | unreadable (fault : FileFault)
  /-- Its text is no program. -/
  | refused (error : ParseError)
  deriving DecidableEq, Repr

/-- The reason in words. -/
def LoadFault.text : LoadFault → String
  | unreadable fault => fault.text
  | refused error => "ParseError: " ++ error.text

/-- A failure of an evaluation. -/
inductive Error where
  /-- An operation was given a count of arguments that it does not take. -/
  | arityMismatch (operation : String) (expected : Arity) (got : Nat)
  /-- An argument has the wrong kind; positions count from zero. -/
  | typeMismatch (operation : String) (index : Nat) (expected : Wanted) (got : Kind)
  /-- An element of an empty list was asked for. -/
  | emptyListAccess (operation : String) (index : Nat)
  /-- A name has no binding. -/
  | unboundSymbol (name : String)
  /-- A protected name was to be bound again. -/
  | protectedRedefinition (name : String)
  /-- A closure was given more arguments than it has formals. -/
  | tooManyArguments (expected got : Nat)
  /-- The rest marker is not followed by exactly one formal. -/
  | malformedVariadic
  | divisionByZero
  /-- The head of an S-expression cannot be called. -/
  | notAFunction (got : Kind)
  /-- A definition with a different number of names and values. -/
  | symbolArityMismatch (operation : String) (symbols values : Nat)
  /-- A result does not fit in a machine integer. -/
  | integerOverflow (operation : String)
  /-- A text that is no number, or none that can be represented. -/
  | invalidNumber (text : String)
  /-- A file could not be loaded. -/
  | loadFailed (path : String) (fault : LoadFault)
  /-- An error raised by the program itself, or an error value met where a value was needed. -/
  | raised (message : String)
  /-- A source text was refused. -/
  | parse (error : ParseError)
  /-- No chunk is free and no further block may be created. -/
  | poolExhausted (maxBlocks chunksPerBlock : Nat)
  /-- Evaluation nested deeper than the limit. -/
  | depthExceeded (limit : Nat)
  deriving DecidableEq, Repr

namespace Error

/-- A fatal failure ends the whole evaluation and is never turned into a value. -/
def isFatal : Error → Bool
  | poolExhausted .. => true
  | depthExceeded _ => true
  | _ => false

/-- The failure in words. -/
def message : Error → String
  | arityMismatch operation expected got =>
    let expectedText := expected.text
    s!"Function '{operation}' passed incorrect number of arguments. Got {got}, Expected {expectedText}."
  | typeMismatch operation index expected got =>
    let gotName := got.name
    let expectedName := expected.name
    s!"Function '{operation}' passed incorrect type for argument {index}. Got {gotName}, Expected {expectedName}."
  | emptyListAccess operation index =>
    "Function '" ++ operation ++ "' passed \x7b\x7d for argument " ++ toString index ++ "."
  | unboundSymbol name => s!"Unbound Symbol '{name}'"
  | protectedRedefinition _ => "Cannot redefine protected functions"
  | tooManyArguments expected got =>
    s!"Function passed too many arguments. Got {got}, Expected {expected}."
  | malformedVariadic => "Function format invalid. Symbol '&' not followed by single symbol."
  | divisionByZero => "Division By Zero!"
  | notAFunction got =>
    let gotName := got.name
    s!"First element is not a function. Got {gotName}."
  | symbolArityMismatch operation symbols values =>
    s!"Function '{operation}' passed a different number of values than symbols. Got {values}, Expected {symbols}."
  | integerOverflow operation => s!"Integer overflow in {operation}"
  | invalidNumber text => s!"invalid number '{text}'"
  | loadFailed path fault => "Could not load Library " ++ path ++ ": " ++ fault.text
  | raised message => message
  | parse error => "ParseError: " ++ error.text
  | poolExhausted maxBlocks chunksPerBlock =>
    s!"Memory pool exhausted ({maxBlocks} pools of {chunksPerBlock} chunks)"
  | depthExceeded limit => s!"Evaluation depth limit exceeded (max: {limit})"

end Error

/-- Whether a count of arguments is accepted, as a check that fails with the operation's name. -/
def Arity.check (arity : Arity) (operation : String) (count : Nat) : Except Error Unit :=
  if arity.accepts count then .ok () else .error (.arityMismatch operation arity count)

end QuoteLisp
