import QuoteLisp.Proofs.Value.RoundTrip

/-! The tokens at the front of a text, and what becomes of them when the text goes on: a token stays as it is once
something stands behind it, with a single exception. -/

namespace QuoteLisp

variable {comments : Bool} {input rest more : List Char}

/-- Some tokens at the front of a text, with blanks before and between them, and what follows the last one. -/
inductive Reads (comments : Bool) : List Char → List Token → List Char → Prop where
  | none (rest : List Char) : Reads comments rest [] rest
  | next {blanks here behind rest : List Char} {token : Token} {tokens : List Token}
    (layout : ∀ c ∈ blanks, isLayout c) (takes : TakesToken comments here token behind)
    (later : Reads comments behind tokens rest) : Reads comments (blanks ++ here) (token :: tokens) rest

/-- A number token without a fraction. -/
def Token.IsWholeNumber : Token → Prop
  | number text => '.' ∉ text
  | _ => False

/-- A token that further text behind the rest cannot change: there is a rest already, other than a point behind a number
without a fraction, or the further text starts on a new line. -/
structure Token.Firm (token : Token) (rest more : List Char) : Prop where
  newLine : rest = [] → ∃ line, more = '\n' :: line
  noPoint : rest = ['.'] → ¬ token.IsWholeNumber

section Numbers

variable {text digits after : List Char}

/-- Digits that end stay the same when the text goes on. -/
theorem takeDigits?_append (taken : takeDigits? input = some (digits, after))
    (ends : after = [] → RunEnds Char.isDigit more) : takeDigits? (input ++ more) = some (digits, after ++ more) := by
  obtain ⟨rfl, numeral, stops⟩ := takeDigits?_eq_some.mp taken
  rw [takeDigits?_eq_some]
  refine ⟨by simp, numeral, ?_⟩
  cases after with
  | nil => exact ends rfl
  | cons c others => exact runEnds_cons.mpr (runEnds_cons.mp stops)

/-- Where no digit stands, none stands there when the text goes on. -/
theorem takeDigits?_append_eq_none (taken : takeDigits? input = none) (ends : input = [] → RunEnds Char.isDigit more) :
    takeDigits? (input ++ more) = none := by
  -- Digits at the front of the longer text would start with a character that is there already.
  cases longer : takeDigits? (input ++ more) with
  | none => rfl
  | some found =>
    obtain ⟨digits, after⟩ := found
    obtain ⟨same, numeral, -⟩ := takeDigits?_eq_some.mp longer
    obtain ⟨nonempty, inside⟩ := isNumeral_iff.mp numeral
    obtain ⟨first, others, rfl⟩ := List.exists_cons_of_ne_nil nonempty
    have digit : first.isDigit := inside first (by simp)
    cases input with
    | nil =>
      rw [List.nil_append] at same
      have stops := ends rfl
      rw [same, List.cons_append, runEnds_cons, digit] at stops
      cases stops
    | cons c behind =>
      obtain ⟨rfl, -⟩ := List.cons.inj same
      simp [takeDigits?, digit] at taken

/-- A fraction, or that there is none, stays the same when the text goes on, unless the text ends in a point. -/
theorem takeFraction_append (noPoint : input ≠ ['.']) (ends : (takeFraction input).2 = [] → ∃ line, more = '\n' :: line) :
    takeFraction (input ++ more) = ((takeFraction input).1, (takeFraction input).2 ++ more) := by
  -- A new line is neither a point nor a digit.
  match input with
  | [] =>
    obtain ⟨line, rfl⟩ := ends rfl
    rfl
  | c :: behind =>
    by_cases point : c = '.'
    · subst point
      cases taken : takeDigits? behind with
      | none =>
        have nonempty : behind ≠ [] := by
          rintro rfl
          exact noPoint rfl
        have longer : takeDigits? (behind ++ more) = none :=
          takeDigits?_append_eq_none taken fun empty => absurd empty nonempty
        simp [takeFraction, taken, longer]
      | some found =>
        obtain ⟨digits, after⟩ := found
        simp only [takeFraction, taken] at ends
        have longer : takeDigits? (behind ++ more) = some (digits, after ++ more) := by
          refine takeDigits?_append taken fun empty => ?_
          obtain ⟨line, rfl⟩ := ends empty
          exact runEnds_cons.mpr (by decide)
        simp [takeFraction, taken, longer]
    · simp [takeFraction, point]

/-- How a text that is not empty is read as a number, whatever follows it: the sign is decided by its first character. -/
theorem longestNumber?_split (nonempty : input ≠ []) :
    ∃ sign unsigned, input = sign ++ unsigned ∧ (sign = [] ∨ sign = ['-']) ∧ ∀ more,
      longestNumber? (input ++ more) = (takeDigits? (unsigned ++ more)).map fun run =>
        (sign ++ run.1 ++ (takeFraction run.2).1, (takeFraction run.2).2) := by
  obtain ⟨c, others, rfl⟩ := List.exists_cons_of_ne_nil nonempty
  by_cases minus : c = '-'
  · subst minus
    refine ⟨['-'], others, rfl, .inr rfl, fun more => ?_⟩
    simp only [List.cons_append, longestNumber?]
    cases takeDigits? (others ++ more) <;> rfl
  · refine ⟨[], c :: others, rfl, .inl rfl, fun more => ?_⟩
    simp only [List.cons_append, longestNumber?]
    split
    · next same => exact absurd (List.cons.inj same).1 minus
    · cases takeDigits? (c :: (others ++ more)) <;> rfl

/-- The longest number stays the same when the text goes on. -/
theorem longestNumber?_append (found : longestNumber? input = some (text, rest))
    (newLine : rest = [] → ∃ line, more = '\n' :: line) (noPoint : rest = ['.'] → '.' ∈ text) :
    longestNumber? (input ++ more) = some (text, rest ++ more) := by
  have nonempty : input ≠ [] := by
    rintro rfl
    cases found
  obtain ⟨sign, unsigned, -, form, read⟩ := longestNumber?_split nonempty
  have short := read []
  rw [List.append_nil, List.append_nil, found] at short
  obtain ⟨⟨digits, after⟩, taken, same⟩ := Option.map_eq_some_iff.mp short.symm
  obtain ⟨rfl, numeral, -⟩ := takeDigits?_eq_some.mp taken
  cases same
  -- Digits are followed by a lone point only where no fraction was read, and then no point is in the number.
  have whole : after ≠ ['.'] := by
    rintro rfl
    have point := noPoint rfl
    have isWhole : IsWhole (sign ++ digits) := ⟨sign, digits, rfl, form, numeral⟩
    simp only [takeFraction, takeDigits?, List.takeWhile_nil, List.append_nil] at point
    exact isWhole.no_point point
  have ends : after = [] → RunEnds Char.isDigit more := by
    rintro rfl
    obtain ⟨line, rfl⟩ := newLine rfl
    exact runEnds_cons.mpr (by decide)
  rw [read more, takeDigits?_append taken ends, Option.map_some, takeFraction_append whole newLine]

/-- Where no number stands, none stands there when the text goes on. -/
theorem longestNumber?_append_eq_none (found : longestNumber? input = none) (nonempty : input ≠ [])
    (newLine : input = ['-'] → ∃ line, more = '\n' :: line) : longestNumber? (input ++ more) = none := by
  obtain ⟨sign, unsigned, rfl, form, read⟩ := longestNumber?_split nonempty
  have short := read []
  rw [List.append_nil, found, List.append_nil] at short
  have ends : unsigned = [] → RunEnds Char.isDigit more := by
    rintro rfl
    -- Only the sign is there, so the text is a minus sign.
    rcases form with rfl | rfl
    · exact absurd rfl nonempty
    · obtain ⟨line, rfl⟩ := newLine rfl
      exact runEnds_cons.mpr (by decide)
  rw [read more, takeDigits?_append_eq_none (Option.map_eq_none_iff.mp short.symm) ends, Option.map_none]

/-- No number token stands at the front of a text when every number there runs into a symbol character. -/
theorem takeNumber?_eq_none : takeNumber? input = none ↔
    ∀ number after, number ++ after = input → LongestNumber number after → ¬ RunEnds isSymbolChar after := by
  constructor
  · intro taken number after same longest apart
    have found := takeNumber?_eq_some.mpr ⟨same.symm, longest, apart⟩
    rw [taken] at found
    cases found
  · intro none
    cases taken : takeNumber? input with
    | none => rfl
    | some found =>
      obtain ⟨same, longest, apart⟩ := takeNumber?_eq_some.mp taken
      exact absurd apart (none _ _ same.symm longest)

/-- Where no number token stands, none stands there when the text goes on, unless it ends right behind a number. -/
theorem takeNumber?_append_eq_none (taken : takeNumber? input = none) (nonempty : input ≠ [])
    (newLine : input = ['-'] → ∃ line, more = '\n' :: line) : takeNumber? (input ++ more) = none := by
  cases found : longestNumber? input with
  | none =>
    have longer := longestNumber?_append_eq_none found nonempty newLine
    simp [takeNumber?, longer]
  | some pair =>
    obtain ⟨number, after⟩ := pair
    -- The number runs into a symbol character, and that character stays behind it.
    cases after with
    | nil => simp [takeNumber?, found, guard] at taken
    | cons c others =>
      have symbol : isSymbolChar c := by
        cases other : isSymbolChar c with
        | true => rfl
        | false => simp [takeNumber?, found, other, guard] at taken
      have longer : longestNumber? (input ++ more) = some (number, c :: others ++ more) := by
        refine longestNumber?_append found (by simp) fun point => ?_
        cases point
        cases symbol
      simp [takeNumber?, longer, symbol, guard]

end Numbers

/-- A token that is firm is the same token when the text goes on. -/
theorem TakesToken.append {token : Token} (takes : TakesToken comments input token rest)
    (firm : token.Firm rest more) : TakesToken comments (input ++ more) token (rest ++ more) := by
  -- What ends a run of symbol characters or a comment is there already, or it is the new line.
  have ends : ∀ {inClass : Char → Bool}, inClass '\n' = false → RunEnds inClass rest →
      RunEnds inClass (rest ++ more) := by
    intro inClass other stops
    cases rest with
    | nil =>
      obtain ⟨line, rfl⟩ := firm.newLine rfl
      exact runEnds_cons.mpr other
    | cons c others => exact runEnds_cons.mpr (runEnds_cons.mp stops)
  cases takes with
  | @number text _ longest apart =>
    have found := longestNumber?_append (longestNumber?_eq_some.mpr ⟨rfl, longest⟩) firm.newLine
      fun point => by simpa [Token.IsWholeNumber] using firm.noPoint point
    obtain ⟨same, longest⟩ := longestNumber?_eq_some.mp found
    rw [same]
    exact .number longest (ends (by decide) apart)
  | @symbol text _ nonempty inside apart noNumber =>
    rw [List.append_assoc]
    refine .symbol nonempty inside (ends (by decide) apart) ?_
    have taken : takeNumber? (text ++ rest ++ more) = none := by
      refine takeNumber?_append_eq_none (takeNumber?_eq_none.mpr noNumber) (by simp [nonempty]) fun minus => ?_
      -- A lone minus sign has nothing behind it.
      obtain ⟨first, others, rfl⟩ := List.exists_cons_of_ne_nil nonempty
      obtain ⟨-, empty⟩ := List.cons.inj minus
      exact firm.newLine (List.append_eq_nil_iff.mp empty).2
    rw [List.append_assoc] at taken
    exact takeNumber?_eq_none.mp taken
  | @string body _ isBody =>
    have longer : TakesToken comments ('"' :: body ++ '"' :: (rest ++ more)) _ _ := .string isBody
    simpa using longer
  | @comment text _ allowed inside stops =>
    have longer := TakesToken.comment allowed inside (ends (by decide) stops)
    simpa using longer
  | opening bracket => exact .opening bracket
  | closing bracket => exact .closing bracket

namespace Reads

variable {tokens : List Token}

/-- Tokens behind tokens. -/
theorem append {later : List Token} {last : List Char} (front : Reads comments input tokens rest)
    (back : Reads comments rest later last) : Reads comments input (tokens ++ later) last := by
  induction front with
  | none => exact back
  | next layout takes _ ih => exact .next layout takes (ih back)

/-- Tokens up to some place, and from there the others. -/
theorem split {later : List Token} {last : List Char} (reads : Reads comments input (tokens ++ later) last) :
    ∃ middle, Reads comments input tokens middle ∧ Reads comments middle later last := by
  induction tokens generalizing input with
  | nil => exact ⟨input, .none input, reads⟩
  | cons token others ih =>
    cases reads with
    | next layout takes behind =>
      obtain ⟨middle, front, back⟩ := ih behind
      exact ⟨middle, .next layout takes front, back⟩

/-- The tokens of a whole text leave nothing but blanks. -/
theorem of_tokenizes (tokenizes : Tokenizes comments input tokens) :
    ∃ blanks, (∀ c ∈ blanks, isLayout c) ∧ Reads comments input tokens blanks := by
  induction tokenizes with
  | @done blanks layout => exact ⟨blanks, layout, .none blanks⟩
  | next layout takes _ ih =>
    obtain ⟨blanks, last, reads⟩ := ih
    exact ⟨blanks, last, .next layout takes reads⟩

/-- Tokens at the front and the tokens of all that follows are the tokens of the whole text. -/
theorem tokenizes {later : List Token} (reads : Reads comments input tokens rest)
    (behind : Tokenizes comments rest later) : Tokenizes comments input (tokens ++ later) := by
  induction reads with
  | none => exact behind
  | next layout takes _ ih => exact .next layout takes (ih behind)

/-- A text that starts with a token, blanks before it or not, is neither empty nor a lone point. -/
theorem firm {token other : Token} (reads : Reads comments rest (other :: tokens) input) : token.Firm rest more := by
  cases reads with
  | @next blanks here behind _ _ _ layout takes _ =>
    obtain ⟨c, others, rfl, -, -⟩ := takes.starts
    refine ⟨by simp, fun point => ?_⟩
    -- A point is no blank, and no token starts with one.
    cases blanks with
    | cons blank _ =>
      obtain ⟨rfl, -⟩ := List.cons.inj point
      cases layout '.' (by simp)
    | nil =>
      cases point
      have scanned := scan_complete takes
      cases scanned

/-- Tokens stay the same when the text goes on, as long as the last of them is firm. -/
theorem extend (reads : Reads comments input tokens rest)
    (firm : ∀ token, tokens.getLast? = some token → token.Firm rest more) :
    Reads comments (input ++ more) tokens (rest ++ more) := by
  induction reads with
  | none rest => exact .none (rest ++ more)
  | @next blanks here behind rest token tokens layout takes later ih =>
    -- A token before another one has that other one behind it.
    have stays : token.Firm behind more := by
      cases tokens with
      | nil =>
        cases later
        exact firm token rfl
      | cons other others => exact later.firm
    rw [List.append_assoc]
    refine .next layout (takes.append stays) (ih fun last found => firm last ?_)
    cases tokens with
    | nil => cases found
    | cons other others => simpa using found

end Reads

end QuoteLisp
