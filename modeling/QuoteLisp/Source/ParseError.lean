import QuoteLisp.Text.Blank
import QuoteLisp.Text.Measure

/-! Why a source text was refused, with the part of the text around the place. -/

namespace QuoteLisp

/-- The number of lists open at once that is too many. -/
def maxListDepth : Nat := 128

/-- The class of a refusal. -/
inductive ParseError.Kind where
  /-- A character or bracket that cannot stand where it does. -/
  | invalidSyntax
  /-- The text ends inside a string or a list. -/
  | incomplete
  /-- Too many lists are open at once. -/
  | tooDeeplyNested
  deriving DecidableEq, Repr

/-- A refused source text. -/
structure ParseError where
  kind : ParseError.Kind
  message : String
  context : Option String
  found : Option String
  deriving DecidableEq, Repr

namespace ParseError

/-- The most characters that a context shows. -/
def contextLength : Nat := 100

/-- How far before the place a context starts. -/
def contextLead : Nat := 20

/-- Line feeds are shown as an escape and carriage returns are left out, so that a context is one line. -/
def oneLine (text : List Char) : List Char :=
  text.flatMap fun c => if c = '\n' then ['\\', 'n'] else if c = '\r' then [] else [c]

/-- The shown part of a text around a byte offset, with marks where something is cut off.

The start is the offset less the lead, and that many characters are skipped. -/
def contextAt (input : List Char) (offset : Nat) : List Char :=
  let start := offset - contextLead
  let shown := (input.drop start).take contextLength
  let cut := "[...]".toList
  let before := if 0 < start then cut else []
  -- The start counts characters here and bytes there, which differ only in text beyond ASCII.
  let after := if start + byteLength shown < byteLength input then cut else []
  oneLine (before ++ shown ++ after)

/-- The start of the word at a byte offset, if the offset is the start of a character and a word follows. -/
def foundAt? (input : List Char) (offset : Nat) : Option (List Char) := do
  let rest ← dropBytes? offset input
  let word ← firstWord? rest
  return word.take 20

/-- A refusal at a byte offset of a text. -/
def atOffset (kind : Kind) (message : String) (input : List Char) (offset : Nat) : ParseError where
  kind := kind
  message := message
  context := some (String.ofList (contextAt input offset))
  found := (foundAt? input offset).map String.ofList

/-- The refusal in full: message, word found and context, each on a line of its own. -/
def text (e : ParseError) : String :=
  e.message ++ (e.found.map ("\nFound: " ++ ·)).getD "" ++ (e.context.map ("\nContext: " ++ ·)).getD ""

end ParseError

/-- What the parser met that it cannot accept. -/
inductive ParseFault where
  /-- A list inside too many open lists. -/
  | tooDeep
  /-- A string without a closing quote. -/
  | unterminatedString
  /-- The end of the text inside a list. -/
  | endOfInput
  /-- Inside a list, neither an expression nor the closing bracket. -/
  | misplaced
  /-- Outside every list, no expression. -/
  | unexpected
  deriving DecidableEq, Repr

namespace ParseFault

/-- The class of a fault. -/
def kind : ParseFault → ParseError.Kind
  | tooDeep => .tooDeeplyNested
  | unterminatedString => .incomplete
  | endOfInput => .incomplete
  | misplaced => .invalidSyntax
  | unexpected => .invalidSyntax

/-- The message of a fault at a byte offset, given the text from there on. -/
def message (fault : ParseFault) (offset : Nat) (rest : List Char) : String :=
  match fault with
  | tooDeep => s!"Expression too deeply nested (max depth: {maxListDepth})"
  | unterminatedString => "Unterminated string literal"
  | endOfInput => "Unexpected end of input"
  | misplaced =>
    let near := String.ofList (rest.take 10)
    s!"Invalid syntax at position {offset} near '{near}'"
  | unexpected =>
    let next := String.ofList (rest.take 1)
    s!"Unexpected '{next}' at position {offset}"

/-- The refusal for a fault, where a given rest of the input had not been read. -/
def toError (fault : ParseFault) (input rest : List Char) : ParseError :=
  let offset := byteLength input - byteLength rest
  .atOffset fault.kind (fault.message offset rest) input offset

end ParseFault

end QuoteLisp
