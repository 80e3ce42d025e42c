/-! The tokens of a source text: numbers, symbols, strings, comments and brackets, with blanks between them. -/

namespace QuoteLisp

/-- The two kinds of brackets. -/
inductive Bracket where
  | round
  | curly
  deriving DecidableEq, Repr

/-- The opening bracket of a kind. -/
def Bracket.opening : Bracket → Char
  | round => '('
  | curly => '{'

/-- The closing bracket of a kind. -/
def Bracket.closing : Bracket → Char
  | round => ')'
  | curly => '}'

/-- A token with its text as written. -/
inductive Token where
  | number (text : List Char)
  | symbol (text : List Char)
  /-- A string literal with its quotes and escapes. -/
  | string (text : List Char)
  /-- A comment from its semicolon to the end of its line. -/
  | comment (text : List Char)
  | opening (bracket : Bracket)
  | closing (bracket : Bracket)
  deriving DecidableEq, Repr

/-- The text of a token. -/
def Token.text : Token → List Char
  | number text => text
  | symbol text => text
  | string text => text
  | comment text => text
  | opening bracket => [bracket.opening]
  | closing bracket => [bracket.closing]

/-- The blanks between tokens. -/
def isLayout (c : Char) : Bool :=
  c == ' ' || c == '\t' || c == '\r' || c == '\n'

/-- The characters of symbols: ASCII letters and digits, and some signs. -/
def isSymbolChar (c : Char) : Bool :=
  c.isAlphanum || "_+-*/\\=<>!&%".toList.contains c

/-- A run of digits at the front of a text, and what follows it; none when there is no digit. -/
def takeDigits? (input : List Char) : Option (List Char × List Char) :=
  match input.takeWhile Char.isDigit with
  | [] => none
  | digits => some (digits, input.dropWhile Char.isDigit)

/-- A point with digits after it at the front of a text, if there is one, and what follows. -/
def takeFraction (input : List Char) : List Char × List Char :=
  match input with
  | '.' :: rest =>
    match takeDigits? rest with
    | some (digits, after) => ('.' :: digits, after)
    | none => ([], input)
  | _ => ([], input)

/-- The longest number at the front of a text, and what follows it. -/
def longestNumber? (input : List Char) : Option (List Char × List Char) := do
  let (sign, unsigned) := match input with
    | '-' :: rest => (['-'], rest)
    | _ => ([], input)
  let (digits, afterDigits) ← takeDigits? unsigned
  let (fraction, after) := takeFraction afterDigits
  return (sign ++ digits ++ fraction, after)

/-- A number token: the longest number, unless it runs into a symbol character. -/
def takeNumber? (input : List Char) : Option (List Char × List Char) := do
  let (text, after) ← longestNumber? input
  -- A sign with digits that goes on as a symbol is a symbol from its first character.
  guard (!(after.head?.any isSymbolChar))
  return (text, after)

/-- A run of symbol characters at the front of a text, and what follows it. -/
def takeSymbol? (input : List Char) : Option (List Char × List Char) :=
  match input.takeWhile isSymbolChar with
  | [] => none
  | text => some (text, input.dropWhile isSymbolChar)

/-- The part of a string literal after its opening quote, closing quote included, and what follows it;
a backslash takes the next character with it. -/
def takeStringBody? : List Char → Option (List Char × List Char)
  | [] => none
  -- The first quote that no backslash has taken ends the literal.
  | '"' :: rest => some (['"'], rest)
  | '\\' :: c :: rest => (takeStringBody? rest).map fun (body, after) => ('\\' :: c :: body, after)
  | c :: rest => (takeStringBody? rest).map fun (body, after) => (c :: body, after)

/-- Whether a character is part of a comment. -/
def isCommentChar (c : Char) : Bool := c != '\n' && c != '\r'

/-- What stands at the front of a text that does not start with a blank. -/
inductive Scan where
  /-- A token, and what follows it. -/
  | token (token : Token) (rest : List Char)
  /-- Nothing. -/
  | finished
  /-- A string without a closing quote. -/
  | unterminated
  /-- A character that starts no token. -/
  | stray
  deriving DecidableEq, Repr

/-- Takes one token from the front of a text; comments only when they are allowed. -/
def scan (comments : Bool) (input : List Char) : Scan :=
  -- Digits and signs are symbol characters too, so numbers are tried first.
  match takeNumber? input with
  | some (text, rest) => .token (.number text) rest
  | none =>
    match takeSymbol? input with
    | some (text, rest) => .token (.symbol text) rest
    | none =>
      match input with
      | [] => .finished
      | '(' :: rest => .token (.opening .round) rest
      | ')' :: rest => .token (.closing .round) rest
      | '{' :: rest => .token (.opening .curly) rest
      | '}' :: rest => .token (.closing .curly) rest
      | '"' :: rest =>
        match takeStringBody? rest with
        | some (body, after) => .token (.string ('"' :: body)) after
        | none => .unterminated
      | ';' :: rest =>
        if comments then .token (.comment (';' :: rest.takeWhile isCommentChar)) (rest.dropWhile isCommentChar)
        else .stray
      | _ => .stray

/-- What is left of a text behind a run of characters is shorter, if there is a run. -/
theorem length_dropWhile_lt {inClass : Char → Bool} {input : List Char} (run : input.takeWhile inClass ≠ []) :
    (input.dropWhile inClass).length < input.length := by
  have whole := congrArg List.length (@List.takeWhile_append_dropWhile _ inClass input)
  have positive := List.length_pos_iff.mpr run
  rw [List.length_append] at whole
  omega

/-- Digits take at least one character. -/
theorem length_lt_of_takeDigits? {input digits rest : List Char} (taken : takeDigits? input = some (digits, rest)) :
    rest.length < input.length := by
  unfold takeDigits? at taken
  split at taken
  · cases taken
  · next run =>
    cases taken
    exact length_dropWhile_lt run

/-- A fraction leaves no more than there was. -/
theorem length_takeFraction_le (input : List Char) : (takeFraction input).2.length ≤ input.length := by
  unfold takeFraction
  split
  · split
    · next digits after taken =>
      have shorter := length_lt_of_takeDigits? taken
      simp only [List.length_cons]
      omega
    · exact Nat.le_refl _
  · exact Nat.le_refl _

/-- A number takes at least one character. -/
theorem length_lt_of_takeNumber? {input text rest : List Char} (taken : takeNumber? input = some (text, rest)) :
    rest.length < input.length := by
  obtain ⟨⟨number, after⟩, longest, guarded⟩ := Option.bind_eq_some_iff.mp taken
  obtain ⟨⟨digits, behind⟩, found, same⟩ := Option.bind_eq_some_iff.mp longest
  obtain ⟨_, -, result⟩ := Option.bind_eq_some_iff.mp guarded
  obtain rfl : (takeFraction behind).2 = after := congrArg Prod.snd (Option.some.inj same)
  obtain rfl : (takeFraction behind).2 = rest := congrArg Prod.snd (Option.some.inj result)
  -- Only the digits are sure to take something, between a sign and a fraction that may be missing.
  have shorter := length_lt_of_takeDigits? found
  have fraction := length_takeFraction_le behind
  split at shorter
  · simp only [List.length_cons] at shorter ⊢
    omega
  · exact Nat.lt_of_le_of_lt fraction shorter

/-- A string takes at least its closing quote. -/
theorem length_lt_of_takeStringBody? {input body rest : List Char} (taken : takeStringBody? input = some (body, rest)) :
    rest.length < input.length := by
  induction input using takeStringBody?.induct generalizing body with
  | case1 => cases taken
  | case2 after =>
    cases taken
    simp
  | case3 c after ih =>
    obtain ⟨⟨inner, behind⟩, found, same⟩ := Option.map_eq_some_iff.mp taken
    cases same
    have shorter := ih found
    simp only [List.length_cons]
    omega
  | case4 c after noQuote noEscape ih =>
    rw [takeStringBody?] at taken
    obtain ⟨⟨inner, behind⟩, found, same⟩ := Option.map_eq_some_iff.mp taken
    cases same
    have shorter := ih found
    simp only [List.length_cons]
    omega
    all_goals assumption

/-- A token takes at least one character. -/
theorem length_lt_of_scan {comments : Bool} {input rest : List Char} {token : Token}
    (scanned : scan comments input = .token token rest) : rest.length < input.length := by
  unfold scan at scanned
  split at scanned
  · next taken =>
    cases scanned
    exact length_lt_of_takeNumber? taken
  · split at scanned
    · next taken =>
      cases scanned
      unfold takeSymbol? at taken
      split at taken
      · cases taken
      · next run =>
        cases taken
        exact length_dropWhile_lt run
    · split at scanned
      · cases scanned
      -- A bracket is a token of its own.
      · cases scanned
        exact Nat.lt_succ_self _
      · cases scanned
        exact Nat.lt_succ_self _
      · cases scanned
        exact Nat.lt_succ_self _
      · cases scanned
        exact Nat.lt_succ_self _
      · split at scanned
        · next taken =>
          cases scanned
          have shorter := length_lt_of_takeStringBody? taken
          simp only [List.length_cons]
          omega
        · cases scanned
      · split at scanned
        · cases scanned
          exact Nat.lt_succ_of_le (List.dropWhile_sublist _).length_le
        · cases scanned
      · cases scanned

/-- A token and the text from its first character on. -/
structure Lexeme where
  token : Token
  here : List Char
  deriving DecidableEq, Repr

/-- Why the tokens of a text end. -/
inductive Ending where
  | finished
  | unterminated
  | stray
  deriving DecidableEq, Repr

/-- The tokens of a text up to its end or to the first place where there is none. -/
structure Lexed where
  lexemes : List Lexeme
  ending : Ending
  /-- The text from the place on where the tokens end. -/
  rest : List Char
  deriving DecidableEq, Repr

/-- Takes tokens from a text that is no longer than the bound; every token takes at least one character. -/
def lexWithin (comments : Bool) : Nat → List Char → Lexed
  -- A text no longer than zero is empty.
  | 0, _ => ⟨[], .finished, []⟩
  | bound + 1, input =>
    let here := input.dropWhile isLayout
    match scan comments here with
    | .token token rest =>
      let lexed := lexWithin comments bound rest
      { lexed with lexemes := ⟨token, here⟩ :: lexed.lexemes }
    | .finished => ⟨[], .finished, here⟩
    | .unterminated => ⟨[], .unterminated, here⟩
    | .stray => ⟨[], .stray, here⟩

/-- The tokens of a text. -/
def lex (comments : Bool) (input : List Char) : Lexed :=
  lexWithin comments input.length input

end QuoteLisp
