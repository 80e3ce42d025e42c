import QuoteLisp.Number.Integer
import QuoteLisp.Source.Node
import QuoteLisp.Source.Parser

/-! The grammar of source texts, said without a way to read them: what a token is, which token stands at the front of
a text, which tokens a whole text consists of, and which trees the tokens spell. -/

namespace QuoteLisp

/-- A run of a class of characters goes no further: the rest is empty or starts with another character. -/
def RunEnds (inClass : Char → Bool) (rest : List Char) : Prop :=
  ∀ c, rest.head? = some c → inClass c = false

/-- The form of a number: an optional minus sign, digits, and optionally a point with digits behind it. -/
def IsNumber (text : List Char) : Prop :=
  ∃ sign whole fraction, text = sign ++ whole ++ fraction ∧ (sign = [] ∨ sign = ['-']) ∧ isNumeral whole ∧
    (fraction = [] ∨ ∃ digits, fraction = '.' :: digits ∧ isNumeral digits)

/-- The longest number at the front of a text, with what follows it. -/
structure LongestNumber (text rest : List Char) : Prop where
  isNumber : IsNumber text
  longest : ∀ other, IsNumber other → other <+: text ++ rest → other.length ≤ text.length

/-- What may stand between the quotes of a string literal: characters that are neither a quote nor a backslash, and
backslashes with any character behind them. -/
inductive IsStringBody : List Char → Prop where
  | nil : IsStringBody []
  | plain {c : Char} {body : List Char} (noQuote : c ≠ '"') (noBackslash : c ≠ '\\') (later : IsStringBody body) :
    IsStringBody (c :: body)
  | escape (c : Char) {body : List Char} (later : IsStringBody body) : IsStringBody ('\\' :: c :: body)

/-- Which token stands at the front of a text, and what follows it. -/
inductive TakesToken (comments : Bool) : List Char → Token → List Char → Prop where
  /-- The longest number, unless a symbol character comes right behind it. -/
  | number {text rest : List Char} (longest : LongestNumber text rest) (ends : RunEnds isSymbolChar rest) :
    TakesToken comments (text ++ rest) (.number text) rest
  /-- All symbol characters up to the first other one, where no number can be taken. -/
  | symbol {text rest : List Char} (nonempty : text ≠ []) (inside : ∀ c ∈ text, isSymbolChar c)
    (ends : RunEnds isSymbolChar rest)
    (noNumber : ∀ number after, number ++ after = text ++ rest → LongestNumber number after →
      ¬ RunEnds isSymbolChar after) :
    TakesToken comments (text ++ rest) (.symbol text) rest
  /-- From a quote to the first quote that no backslash has taken. -/
  | string {body rest : List Char} (isBody : IsStringBody body) :
    TakesToken comments ('"' :: body ++ '"' :: rest) (.string ('"' :: body ++ ['"'])) rest
  /-- From a semicolon to the end of the line or of the text, where comments are allowed. -/
  | comment {text rest : List Char} (allowed : comments = true) (inside : ∀ c ∈ text, isCommentChar c)
    (ends : RunEnds isCommentChar rest) :
    TakesToken comments (';' :: text ++ rest) (.comment (';' :: text)) rest
  | opening (bracket : Bracket) {rest : List Char} :
    TakesToken comments (bracket.opening :: rest) (.opening bracket) rest
  | closing (bracket : Bracket) {rest : List Char} :
    TakesToken comments (bracket.closing :: rest) (.closing bracket) rest

/-- The tokens of a whole text, with blanks before, between and after them. -/
inductive Tokenizes (comments : Bool) : List Char → List Token → Prop where
  | done {blanks : List Char} (layout : ∀ c ∈ blanks, isLayout c) : Tokenizes comments blanks []
  | next {blanks here rest : List Char} {token : Token} {tokens : List Token} (layout : ∀ c ∈ blanks, isLayout c)
    (takes : TakesToken comments here token rest) (later : Tokenizes comments rest tokens) :
    Tokenizes comments (blanks ++ here) (token :: tokens)

/-- The rule of a token that is no bracket. -/
def Token.atomRule? : Token → Option Rule
  | number _ => some .number
  | symbol _ => some .symbol
  | string _ => some .string
  | comment _ => some .comment
  | opening _ => none
  | closing _ => none

/-- The trees that tokens spell, with at most so many lists one inside the other: a leaf with its text for each token
that is no bracket, and a branch for each pair of brackets of one kind, the brackets themselves included. -/
inductive Spells : Nat → List Token → List Node → Prop where
  | nil {depth : Nat} : Spells depth [] []
  | atom {depth : Nat} {token : Token} {rule : Rule} {tokens : List Token} {nodes : List Node}
    (isAtom : token.atomRule? = some rule) (later : Spells depth tokens nodes) :
    Spells depth (token :: tokens) (.leaf rule token.text :: nodes)
  | list {depth : Nat} {bracket : Bracket} {inside tokens : List Token} {items nodes : List Node}
    (inner : Spells depth inside items) (later : Spells (depth + 1) tokens nodes) :
    Spells (depth + 1) (.opening bracket :: inside ++ .closing bracket :: tokens)
      (.branch bracket.rule (.leaf .delimiter [bracket.opening] :: items ++ [.leaf .delimiter [bracket.closing]]) ::
        nodes)

section Runs

variable {inClass : Char → Bool} {front back : List Char}

/-- An empty rest ends every run. -/
theorem runEnds_nil : RunEnds inClass [] := by
  intro c first
  cases first

/-- A run ends where another character stands. -/
@[simp] theorem runEnds_cons {c : Char} {rest : List Char} : RunEnds inClass (c :: rest) ↔ inClass c = false := by
  simp [RunEnds]

/-- What is left after a run does not go on with it. -/
theorem runEnds_dropWhile (inClass : Char → Bool) (text : List Char) : RunEnds inClass (text.dropWhile inClass) := by
  -- Dropping stops at the first character outside the class.
  intro c first
  have next := List.head?_dropWhile_not inClass text
  rw [first] at next
  exact next

/-- A run has only characters of its class. -/
theorem mem_takeWhile {text : List Char} {c : Char} (member : c ∈ text.takeWhile inClass) : inClass c :=
  List.all_eq_true.mp List.all_takeWhile c member

/-- Taking characters of a class takes a run that ends. -/
theorem takeWhile_run (inside : ∀ c ∈ front, inClass c) (ends : RunEnds inClass back) :
    (front ++ back).takeWhile inClass = front := by
  -- The run is passed over as a whole, and nothing of the rest belongs to it.
  rw [List.takeWhile_append_of_pos inside]
  cases back with
  | nil => simp
  | cons c rest => simp [runEnds_cons.mp ends]

/-- Dropping characters of a class drops a run that ends. -/
theorem dropWhile_run (inside : ∀ c ∈ front, inClass c) (ends : RunEnds inClass back) :
    (front ++ back).dropWhile inClass = back := by
  -- What is dropped is what would be taken.
  rw [List.dropWhile_append_of_pos inside]
  cases back with
  | nil => simp
  | cons c rest => simp [runEnds_cons.mp ends]

/-- Characters of a class at the front of a text are part of the run there. -/
theorem run_covers {part after : List Char} (partInside : ∀ c ∈ part, inClass c) (inside : ∀ c ∈ front, inClass c)
    (ends : RunEnds inClass back) (same : part ++ after = front ++ back) :
    ∃ more, front = part ++ more ∧ after = more ++ back := by
  -- The rest of the run is what the class takes after the part.
  have run := takeWhile_run inside ends
  have left := dropWhile_run inside ends
  rw [← same, List.takeWhile_append_of_pos partInside] at run
  rw [← same, List.dropWhile_append_of_pos partInside] at left
  refine ⟨after.takeWhile inClass, run.symm, ?_⟩
  rw [← left, List.takeWhile_append_dropWhile]

end Runs

end QuoteLisp
