/-! String literals: how a text is written between double quotes and how it is read back. -/

namespace QuoteLisp

/-- The letter that stands after a backslash for a character that is not written as itself. -/
def escapeLetter? : Char → Option Char
  | '"' => some '"'
  | '\\' => some '\\'
  | '\n' => some 'n'
  | '\t' => some 't'
  | '\r' => some 'r'
  | '\x00' => some '0'
  | '\x07' => some 'a'
  | '\x08' => some 'b'
  | '\x0c' => some 'f'
  | '\x0b' => some 'v'
  | _ => none

/-- The character meant by a letter after a backslash; a single quote may be escaped too. -/
def escapedChar? : Char → Option Char
  | 'n' => some '\n'
  | 't' => some '\t'
  | 'r' => some '\r'
  | '0' => some '\x00'
  | 'a' => some '\x07'
  | 'b' => some '\x08'
  | 'f' => some '\x0c'
  | 'v' => some '\x0b'
  | '\\' => some '\\'
  | '"' => some '"'
  | '\x27' => some '\x27'
  | _ => none

/-- One character as it stands inside a literal. -/
def escapeChar (c : Char) : List Char :=
  match escapeLetter? c with
  | some letter => ['\\', letter]
  | none => [c]

/-- A text as a string literal, quotes included. -/
def quote (text : List Char) : List Char :=
  '"' :: text.flatMap escapeChar ++ ['"']

/-- Resolves the escapes of a text; an unknown escape and a backslash at the very end stay as they are. -/
def unescape : List Char → List Char
  | [] => []
  | [c] => [c]
  | c :: d :: rest =>
    if c = '\\' then
      match escapedChar? d with
      | some meant => meant :: unescape rest
      | none => c :: d :: unescape rest
    else c :: unescape (d :: rest)

/-- Removes one double quote at each end; a text without both keeps what it has. -/
def stripQuotes : List Char → List Char
  | '"' :: rest => if rest.getLast? = some '"' then rest.dropLast else '"' :: rest
  | raw => raw

/-- The text that a string literal stands for. -/
def unquote (literal : List Char) : List Char :=
  unescape (stripQuotes literal)

/-- The escape letter of a character means that character again. -/
theorem escapedChar?_escapeLetter? (c letter : Char) (escaped : escapeLetter? c = some letter) :
    escapedChar? letter = some c := by
  unfold escapeLetter? at escaped
  split at escaped <;> simp_all <;> subst escaped <;> rfl

/-- Escaping one character in front of a text is undone by resolving escapes. -/
theorem unescape_escapeChar_append (c : Char) (rest : List Char) :
    unescape (escapeChar c ++ rest) = c :: unescape rest := by
  unfold escapeChar
  split
  · next letter escaped => simp [unescape, escapedChar?_escapeLetter? c letter escaped]
  · next plain =>
    -- Only a backslash could start an escape, and a backslash is itself written as an escape.
    have other : c ≠ '\\' := by
      intro same
      subst same
      simp [escapeLetter?] at plain
    cases rest <;> simp [unescape, other]

/-- Reading a written literal gives the text back. -/
theorem unquote_quote (text : List Char) : unquote (quote text) = text := by
  have inner : unescape (text.flatMap escapeChar) = text := by
    induction text with
    | nil => rfl
    | cons c rest ih => simp [unescape_escapeChar_append, ih]
  simp [unquote, quote, stripQuotes, inner]

end QuoteLisp
