import Mathlib.Data.Option.Basic
import QuoteLisp.Proofs.Source.Grammar

/-! The scanner takes exactly the tokens of the grammar. -/

namespace QuoteLisp

variable {comments : Bool} {input text rest after : List Char}

/-- A numeral is a run of digits with at least one in it. -/
theorem isNumeral_iff : isNumeral text = true ↔ text ≠ [] ∧ ∀ c ∈ text, c.isDigit := by
  simp [isNumeral]

/-- A run of a class of characters at the front of a text, and what follows it; none where there is no such character. -/
def takeRun? (inClass : Char → Bool) (input : List Char) : Option (List Char × List Char) :=
  match input.takeWhile inClass with
  | [] => none
  | run => some (run, input.dropWhile inClass)

/-- A run is taken as far as it goes. -/
theorem takeRun?_eq_some {inClass : Char → Bool} : takeRun? inClass input = some (text, rest) ↔
    input = text ++ rest ∧ text ≠ [] ∧ (∀ c ∈ text, inClass c) ∧ RunEnds inClass rest := by
  -- The text is cut where the first character outside the class stands, and there is only one such place.
  unfold takeRun?
  constructor
  · intro taken
    split at taken
    · cases taken
    · next nonempty =>
      cases taken
      exact ⟨List.takeWhile_append_dropWhile.symm, nonempty, fun c member => mem_takeWhile member,
        runEnds_dropWhile _ _⟩
  · rintro ⟨rfl, nonempty, inside, ends⟩
    rw [takeWhile_run inside ends, dropWhile_run inside ends]
    obtain ⟨first, others, rfl⟩ := List.exists_cons_of_ne_nil nonempty
    rfl

/-- Digits are taken as far as they go. -/
theorem takeDigits?_eq_some {digits : List Char} :
    takeDigits? input = some (digits, after) ↔ input = digits ++ after ∧ isNumeral digits ∧ RunEnds Char.isDigit after := by
  have run : takeDigits? input = takeRun? Char.isDigit input := rfl
  rw [run, takeRun?_eq_some, isNumeral_iff, and_assoc]

/-- A text that starts with digits has a run of digits at its front, at least as long. -/
theorem takeDigits?_of_isNumeral {digits : List Char} (numeral : isNumeral digits) (after : List Char) :
    ∃ more rest, takeDigits? (digits ++ after) = some (digits ++ more, rest) ∧ after = more ++ rest ∧
      ∀ c ∈ more, c.isDigit := by
  -- The digits that are given go on with those that follow them.
  obtain ⟨nonempty, inside⟩ := isNumeral_iff.mp numeral
  refine ⟨after.takeWhile Char.isDigit, after.dropWhile Char.isDigit, ?_, List.takeWhile_append_dropWhile.symm,
    fun c member => mem_takeWhile member⟩
  rw [takeDigits?_eq_some, isNumeral_iff]
  refine ⟨by simp, ⟨by simp [nonempty], fun c member => ?_⟩, runEnds_dropWhile _ _⟩
  exact (List.mem_append.mp member).elim (inside c) mem_takeWhile

/-- A fraction is empty or a point with digits. -/
theorem takeFraction_sound (input : List Char) : input = (takeFraction input).1 ++ (takeFraction input).2 ∧
    ((takeFraction input).1 = [] ∨ ∃ digits, (takeFraction input).1 = '.' :: digits ∧ isNumeral digits) := by
  -- A point without digits behind it is left where it is.
  unfold takeFraction
  split
  · next rest =>
    split
    · next digits after taken =>
      obtain ⟨rfl, numeral, -⟩ := takeDigits?_eq_some.mp taken
      exact ⟨rfl, .inr ⟨digits, rfl, numeral⟩⟩
    · exact ⟨rfl, .inl rfl⟩
  · exact ⟨rfl, .inl rfl⟩

/-- A point with digits is taken, and all further digits with it. -/
theorem takeFraction_covers {digits : List Char} (numeral : isNumeral digits) (after : List Char) :
    digits.length + 1 ≤ (takeFraction ('.' :: digits ++ after)).1.length := by
  obtain ⟨more, rest, taken, -⟩ := takeDigits?_of_isNumeral numeral after
  simp [takeFraction, taken]

/-- A number is read as a sign, digits and a fraction. -/
theorem longestNumber?_eq (input : List Char) :
    ∃ sign unsigned, input = sign ++ unsigned ∧ (sign = ['-'] ∨ sign = [] ∧ input.head? ≠ some '-') ∧
      longestNumber? input = (takeDigits? unsigned).map fun run =>
        (sign ++ run.1 ++ (takeFraction run.2).1, (takeFraction run.2).2) := by
  -- Only the sign is told apart by the first character; all else is digits and what follows them.
  unfold longestNumber?
  split
  next sign unsigned parts =>
  refine ⟨sign, unsigned, ?_⟩
  split at parts
  · cases parts
    exact ⟨rfl, .inl rfl, by cases takeDigits? unsigned <;> rfl⟩
  · next noSign =>
    cases parts
    refine ⟨rfl, .inr ⟨rfl, fun first => ?_⟩, by cases takeDigits? input <;> rfl⟩
    obtain ⟨rest, same⟩ := List.head?_eq_some_iff.mp first
    exact noSign rest same

/-- What is read is a number at the front of the text. -/
theorem longestNumber?_sound (found : longestNumber? input = some (text, rest)) :
    input = text ++ rest ∧ IsNumber text := by
  -- The three parts are put together as they were cut.
  obtain ⟨sign, unsigned, rfl, form, read⟩ := longestNumber?_eq input
  rw [found] at read
  obtain ⟨⟨digits, after⟩, taken, same⟩ := Option.map_eq_some_iff.mp read.symm
  cases same
  obtain ⟨rfl, numeral, -⟩ := takeDigits?_eq_some.mp taken
  obtain ⟨split, fraction⟩ := takeFraction_sound after
  refine ⟨?_, sign, digits, (takeFraction after).1, rfl, form.symm.imp_left And.left, numeral, fraction⟩
  simp only [List.append_assoc, ← split]

/-- Where a text starts with a number, one at least as long is read. -/
theorem longestNumber?_covers {other : List Char} (number : IsNumber other) (after : List Char) :
    ∃ text rest, longestNumber? (other ++ after) = some (text, rest) ∧ other.length ≤ text.length := by
  obtain ⟨sign', whole, fraction, rfl, form', numeral, form⟩ := number
  obtain ⟨sign, unsigned, same, signForm, read⟩ := longestNumber?_eq (sign' ++ whole ++ fraction ++ after)
  obtain ⟨first, others, rfl⟩ := List.exists_cons_of_ne_nil (isNumeral_iff.mp numeral).1
  have digit : first.isDigit := (isNumeral_iff.mp numeral).2 first (by simp)
  -- A digit is no sign, so the sign that is read is the one of the number.
  have sameSign : sign' = sign := by
    rcases form' with rfl | rfl <;> rcases signForm with rfl | ⟨rfl, noSign⟩
    · cases same
      cases digit
    · rfl
    · rfl
    · simp at noSign
  subst sameSign
  simp only [List.append_assoc, List.append_cancel_left_eq] at same
  obtain ⟨more, left, taken, split, inside⟩ := takeDigits?_of_isNumeral numeral (fraction ++ after)
  rw [read, ← same, taken]
  refine ⟨_, _, rfl, ?_⟩
  rcases form with rfl | ⟨digits, rfl, decimals⟩
  · simp only [List.append_nil, List.length_append]
    omega
  · -- A point ends the digits, so the fraction that is read starts at the same place.
    obtain rfl : more = [] := by
      cases more with
      | nil => rfl
      | cons c _ =>
        obtain ⟨rfl, -⟩ := List.cons.inj split
        cases inside '.' (by simp)
    have covered := takeFraction_covers decimals after
    rw [List.nil_append] at split
    subst left
    simp only [List.append_nil, List.length_append, List.length_cons]
    omega

/-- The number that is read is the longest one. -/
theorem longestNumber?_eq_some :
    longestNumber? input = some (text, rest) ↔ input = text ++ rest ∧ LongestNumber text rest := by
  constructor
  · intro found
    obtain ⟨rfl, number⟩ := longestNumber?_sound found
    refine ⟨rfl, number, fun other otherNumber front => ?_⟩
    obtain ⟨after, same⟩ := front
    obtain ⟨text', rest', found', covers⟩ := longestNumber?_covers otherNumber after
    rw [same, found] at found'
    cases found'
    exact covers
  · rintro ⟨rfl, number, longest⟩
    obtain ⟨text', rest', found, covers⟩ := longestNumber?_covers number rest
    obtain ⟨same, number'⟩ := longestNumber?_sound found
    -- Neither of the two numbers can be longer than the other.
    have shorter := longest text' number' ⟨rest', same.symm⟩
    obtain ⟨rfl, rfl⟩ := List.append_inj same (by omega)
    exact found

/-- A number token is the longest number, where no symbol character comes right behind it. -/
theorem takeNumber?_eq_some : takeNumber? input = some (text, rest) ↔
    input = text ++ rest ∧ LongestNumber text rest ∧ RunEnds isSymbolChar rest := by
  -- The character behind the number is looked at only after the longest one is found.
  have ends : ∀ after : List Char, (!(after.head?.any isSymbolChar)) = true ↔ RunEnds isSymbolChar after := by
    intro after
    cases after <;> simp [RunEnds]
  unfold takeNumber?
  rw [← and_assoc, ← longestNumber?_eq_some]
  cases longestNumber? input with
  | none => simp
  | some found =>
    obtain ⟨text', rest'⟩ := found
    have apart := ends rest'
    simp only [Option.bind_eq_bind, Option.bind_some, guard]
    split
    · next free =>
      constructor
      · intro same
        cases same
        exact ⟨rfl, apart.mp free⟩
      · rintro ⟨same, -⟩
        cases same
        rfl
    · next runs =>
      constructor
      · intro impossible
        cases impossible
      · rintro ⟨same, ended⟩
        cases same
        exact absurd (apart.mpr ended) runs

/-- A symbol is a run of symbol characters. -/
theorem takeSymbol?_eq_some : takeSymbol? input = some (text, rest) ↔
    input = text ++ rest ∧ text ≠ [] ∧ (∀ c ∈ text, isSymbolChar c) ∧ RunEnds isSymbolChar rest :=
  takeRun?_eq_some

/-- The rest of a string literal is its body up to the first quote that no backslash has taken. -/
theorem takeStringBody?_eq_some {literal : List Char} : takeStringBody? input = some (literal, after) ↔
    ∃ body, literal = body ++ ['"'] ∧ IsStringBody body ∧ input = body ++ '"' :: after := by
  constructor
  -- Both directions follow the literal character by character, an escape counting as one.
  · intro taken
    fun_induction takeStringBody? input generalizing literal with
    | case1 => cases taken
    | case2 rest =>
      cases taken
      exact ⟨[], rfl, .nil, rfl⟩
    | case3 c rest ih =>
      obtain ⟨⟨literal', after'⟩, found, same⟩ := Option.map_eq_some_iff.mp taken
      cases same
      obtain ⟨body, rfl, isBody, rfl⟩ := ih found
      exact ⟨'\\' :: c :: body, rfl, .escape c isBody, rfl⟩
    | case4 c rest noQuote noEscape ih =>
      obtain ⟨⟨literal', after'⟩, found, same⟩ := Option.map_eq_some_iff.mp taken
      cases same
      obtain ⟨body, rfl, isBody, rfl⟩ := ih found
      refine ⟨c :: body, rfl, .plain noQuote (fun backslash => ?_) isBody, rfl⟩
      -- A backslash would have taken the character behind it, and there is one.
      cases body with
      | nil => exact noEscape '"' _ backslash rfl
      | cons d body => exact noEscape d _ backslash rfl
  · rintro ⟨body, rfl, isBody, rfl⟩
    induction isBody with
    | nil => rfl
    | @plain c body noQuote noBackslash later ih =>
      rw [List.cons_append, takeStringBody?.eq_4 _ _ noQuote fun _ _ same => absurd same noBackslash, ih]
      rfl
    | @escape c body later ih =>
      rw [List.cons_append, List.cons_append, takeStringBody?, ih]
      rfl

/-- A number starts with a symbol character. -/
theorem IsNumber.starts {number : List Char} (isNumber : IsNumber number) :
    ∃ c others, number = c :: others ∧ isSymbolChar c := by
  obtain ⟨sign, whole, fraction, rfl, form, numeral, -⟩ := isNumber
  obtain ⟨nonempty, digits⟩ := isNumeral_iff.mp numeral
  obtain ⟨first, others, rfl⟩ := List.exists_cons_of_ne_nil nonempty
  have digit : first.isDigit := digits first (by simp)
  rcases form with rfl | rfl
  · exact ⟨first, others ++ fraction, rfl, by simp [isSymbolChar, Char.isAlphanum, digit]⟩
  · exact ⟨'-', first :: others ++ fraction, rfl, by decide⟩

/-- Where no symbol character stands, neither a number nor a symbol is taken. -/
theorem takes_nothing_of_runEnds (other : RunEnds isSymbolChar input) :
    takeNumber? input = none ∧ takeSymbol? input = none := by
  -- Either token would start with a symbol character.
  constructor
  · cases taken : takeNumber? input with
    | none => rfl
    | some found =>
      obtain ⟨rfl, longest, -⟩ := takeNumber?_eq_some.mp taken
      obtain ⟨c, others, form, symbol⟩ := longest.isNumber.starts
      rw [form, List.cons_append, runEnds_cons, symbol] at other
      cases other
  · cases taken : takeSymbol? input with
    | none => rfl
    | some found =>
      obtain ⟨rfl, nonempty, inside, -⟩ := takeSymbol?_eq_some.mp taken
      obtain ⟨c, others, form⟩ := List.exists_cons_of_ne_nil nonempty
      rw [form, List.cons_append, runEnds_cons, inside c (by simp [form])] at other
      cases other

/-- What the scanner takes is the token that stands at the front of the text. -/
theorem scan_sound {token : Token} (scanned : scan comments input = .token token rest) :
    TakesToken comments input token rest := by
  -- The cases are those of the scanner, in the order in which it tries them.
  unfold scan at scanned
  split at scanned
  · next taken =>
    cases scanned
    obtain ⟨rfl, longest, ends⟩ := takeNumber?_eq_some.mp taken
    exact .number longest ends
  · next noNumber =>
    split at scanned
    · next taken =>
      cases scanned
      obtain ⟨rfl, nonempty, inside, ends⟩ := takeSymbol?_eq_some.mp taken
      refine .symbol nonempty inside ends fun number after same longest apart => ?_
      -- A number that ends here would have been taken before the symbol.
      have taken := takeNumber?_eq_some.mpr ⟨rfl, longest, apart⟩
      rw [same, noNumber] at taken
      cases taken
    · split at scanned
      · cases scanned
      · cases scanned
        exact .opening .round
      · cases scanned
        exact .closing .round
      · cases scanned
        exact .opening .curly
      · cases scanned
        exact .closing .curly
      · split at scanned
        · next taken =>
          cases scanned
          obtain ⟨body, rfl, isBody, rfl⟩ := takeStringBody?_eq_some.mp taken
          exact .string isBody
        · cases scanned
      · next _ line _ =>
        split at scanned
        · next allowed =>
          cases scanned
          have inside : ∀ c ∈ line.takeWhile isCommentChar, isCommentChar c := fun _ => mem_takeWhile
          have whole := TakesToken.comment allowed inside (runEnds_dropWhile isCommentChar line)
          rwa [List.cons_append, List.takeWhile_append_dropWhile] at whole
        · cases scanned
      · cases scanned

/-- The token that stands at the front of a text is the one that the scanner takes. -/
theorem scan_complete {token : Token} (takes : TakesToken comments input token rest) :
    scan comments input = .token token rest := by
  -- One case for each kind of token; the kinds tried before it must fail.
  cases takes with
  | number longest ends =>
    have taken := takeNumber?_eq_some.mpr ⟨rfl, longest, ends⟩
    simp only [scan, taken]
  | @symbol text _ nonempty inside ends noNumber =>
    have notTaken : takeNumber? (text ++ rest) = none := by
      cases taken : takeNumber? (text ++ rest) with
      | none => rfl
      | some found =>
        obtain ⟨same, longest, apart⟩ := takeNumber?_eq_some.mp taken
        exact absurd apart (noNumber _ _ same.symm longest)
    have taken := takeSymbol?_eq_some.mpr ⟨rfl, nonempty, inside, ends⟩
    simp only [scan, notTaken, taken]
  | @string body _ isBody =>
    have other : RunEnds isSymbolChar ('"' :: (body ++ '"' :: rest)) := runEnds_cons.mpr (by decide)
    obtain ⟨noNumber, noSymbol⟩ := takes_nothing_of_runEnds other
    have taken : takeStringBody? (body ++ '"' :: rest) = some (body ++ ['"'], rest) :=
      takeStringBody?_eq_some.mpr ⟨body, rfl, isBody, rfl⟩
    simp only [scan, List.cons_append, noNumber, noSymbol, taken]
  | @comment text _ allowed inside ends =>
    have other : RunEnds isSymbolChar (';' :: (text ++ rest)) := runEnds_cons.mpr (by decide)
    obtain ⟨noNumber, noSymbol⟩ := takes_nothing_of_runEnds other
    simp only [scan, List.cons_append, noNumber, noSymbol, allowed, if_true, takeWhile_run inside ends,
      dropWhile_run inside ends]
  | opening bracket =>
    have other : RunEnds isSymbolChar (bracket.opening :: rest) := runEnds_cons.mpr (by cases bracket <;> decide)
    obtain ⟨noNumber, noSymbol⟩ := takes_nothing_of_runEnds other
    cases bracket <;> simp only [Bracket.opening] at noNumber noSymbol ⊢ <;> simp only [scan, noNumber, noSymbol]
  | closing bracket =>
    have other : RunEnds isSymbolChar (bracket.closing :: rest) := runEnds_cons.mpr (by cases bracket <;> decide)
    obtain ⟨noNumber, noSymbol⟩ := takes_nothing_of_runEnds other
    cases bracket <;> simp only [Bracket.closing] at noNumber noSymbol ⊢ <;> simp only [scan, noNumber, noSymbol]

/-- At the end of a text there is nothing to scan, and only there. -/
theorem scan_eq_finished : scan comments input = .finished ↔ input = [] := by
  constructor
  · intro finished
    unfold scan at finished
    -- Every other case gives a token or says what is wrong.
    split at finished
    · cases finished
    · split at finished
      · cases finished
      · split at finished <;> try cases finished
        · rfl
        · split at finished <;> cases finished
        · split at finished <;> cases finished
  · rintro rfl
    rfl

end QuoteLisp
