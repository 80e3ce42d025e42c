/-! How many arguments an operation takes. -/

namespace QuoteLisp

/-- The accepted argument counts of an operation. -/
inductive Arity where
  /-- Exactly this many. -/
  | exactly (count : Nat)
  /-- This many or more. -/
  | atLeast (count : Nat)
  /-- Any count between the two, both included. -/
  | between (least most : Nat)
  /-- Any count. -/
  | any
  deriving DecidableEq, Repr

namespace Arity

/-- Whether a count of arguments is accepted. -/
def accepts : Arity → Nat → Bool
  | exactly n, count => count == n
  | atLeast n, count => n ≤ count
  | between least most, count => least ≤ count && count ≤ most
  | any, _ => true

/-- The accepted counts in words, as error messages give them. -/
def text : Arity → String
  | exactly n => toString n
  | atLeast n => s!"at least {n}"
  | between least most => s!"{least} to {most}"
  | any => "any number"

/-- The accepted counts as listings of operations give them. -/
def signature : Arity → String
  | exactly n => s!"Exact({n})"
  | atLeast n => s!"AtLeast({n})"
  | between least most => s!"Range({least}, {most})"
  | any => "Any"

end Arity

end QuoteLisp
