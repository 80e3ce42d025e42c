import QuoteLisp.Proofs.Source.Acceptance
import QuoteLisp.Source.Reader
import QuoteLisp.Value.Printer

/-! The text of a value is read back as that value, wherever it stands among other texts. -/

namespace QuoteLisp

variable {H : Type} {text rest : List Char} {depth : Nat}

/-- A whole number: an optional minus sign and digits. -/
def IsWhole (text : List Char) : Prop :=
  ∃ sign digits, text = sign ++ digits ∧ (sign = [] ∨ sign = ['-']) ∧ isNumeral digits

/-- A name that is read as a symbol: symbol characters that are no whole number. -/
structure IsSymbolName (name : List Char) : Prop where
  nonempty : name ≠ []
  inside : ∀ c ∈ name, isSymbolChar c
  notWhole : ¬ IsWhole name

instance (text : List Char) : Decidable (IsWhole text) :=
  decidable_of_iff (isNumeral text ∨ text.head? = some '-' ∧ isNumeral text.tail) <| by
    constructor
    · rintro (unsigned | ⟨minus, signed⟩)
      · exact ⟨[], text, rfl, .inl rfl, unsigned⟩
      · obtain ⟨digits, rfl⟩ := List.head?_eq_some_iff.mp minus
        exact ⟨['-'], digits, rfl, .inr rfl, signed⟩
    · rintro ⟨sign, digits, rfl, rfl | rfl, numeral⟩
      · exact .inl numeral
      · exact .inr ⟨rfl, numeral⟩

instance (name : List Char) : Decidable (IsSymbolName name) :=
  decidable_of_iff (name ≠ [] ∧ name.all isSymbolChar ∧ ¬ IsWhole name)
    ⟨fun ⟨nonempty, inside, notWhole⟩ => ⟨nonempty, List.all_eq_true.mp inside, notWhole⟩,
      fun isName => ⟨isName.nonempty, List.all_eq_true.mpr isName.inside, isName.notWhole⟩⟩

/-- The values that can be written in source text with at most so many lists one inside the other. -/
inductive Legible : Nat → Value H → Prop where
  | integer {depth : Nat} (n : Int64) : Legible depth (.integer n)
  | string {depth : Nat} (text : String) : Legible depth (.string text)
  | symbol {depth : Nat} {name : String} (isName : IsSymbolName name.toList) : Legible depth (.symbol name)
  | sexpr {depth : Nat} {items : List (Value H)} (inside : ∀ item ∈ items, Legible depth item) :
    Legible (depth + 1) (.sexpr items)
  | qexpr {depth : Nat} {items : List (Value H)} (inside : ∀ item ∈ items, Legible depth item) :
    Legible (depth + 1) (.qexpr items)

/-- A text before which a number or a symbol ends: it starts neither with a symbol character nor with a point. -/
def Apart (rest : List Char) : Prop :=
  RunEnds (fun c => isSymbolChar c || c == '.') rest

/-- A text that is read as some values in a row, whatever stands behind it. -/
def Written (depth : Nat) (text : List Char) (values : List (Value H)) : Prop :=
  ∃ tokens nodes,
    (∀ rest later, Apart rest → Tokenizes true rest later → Tokenizes true (text ++ rest) (tokens ++ later)) ∧
    (∀ later more, Spells depth later more → Spells depth (tokens ++ later) (nodes ++ more)) ∧
    readAll nodes = values

namespace Apart

theorem nil : Apart [] := runEnds_nil

/-- A number or a symbol ends before a blank. -/
theorem of_isLayout {c : Char} (layout : isLayout c) (rest : List Char) : Apart (c :: rest) := by
  -- There are only four blanks to look at.
  simp only [isLayout, Bool.or_eq_true, beq_iff_eq] at layout
  refine runEnds_cons.mpr ?_
  rcases layout with ((rfl | rfl) | rfl) | rfl <;> decide

/-- No symbol goes on in such a text. -/
theorem runEnds_symbol (apart : Apart rest) : RunEnds isSymbolChar rest := by
  intro c first
  have other := apart c first
  simp only [Bool.or_eq_false_iff] at other
  exact other.1

end Apart

section Integers

/-- The decimal text of a natural number is a numeral. -/
theorem isNumeral_toDigits (n : Nat) : isNumeral (Nat.toDigits 10 n) :=
  isNumeral_iff.mpr ⟨Nat.toDigits_ne_nil, fun _ member => Nat.isDigit_of_mem_toDigits (by decide) (by decide) member⟩

/-- The text of an integer is a whole number. -/
theorem isWhole_intText (n : Int) : IsWhole (intText n) := by
  cases n with
  | ofNat n => exact ⟨[], Nat.toDigits 10 n, rfl, .inl rfl, isNumeral_toDigits n⟩
  | negSucc n => exact ⟨['-'], Nat.toDigits 10 (n + 1), rfl, .inr rfl, isNumeral_toDigits (n + 1)⟩

/-- The text of an integer is read as that integer. -/
theorem readInt?_intText (n : Int) : readInt? (intText n) = some n := by
  cases n with
  | negSucc n =>
    simp [intText, readInt?, isNumeral_toDigits, numeralValue, Nat.ofDigitChars_ten_toDigits, Int.negSucc_eq]
  | ofNat n =>
    -- Digits are no signs, so the text is read as digits only.
    have digits := (isNumeral_iff.mp (isNumeral_toDigits n)).2
    have value : numeralValue (Nat.toDigits 10 n) = n := Nat.ofDigitChars_ten_toDigits
    have numeral := isNumeral_toDigits n
    simp only [intText]
    generalize Nat.toDigits 10 n = text at digits value numeral
    unfold readInt?
    split
    · cases digits '-' (by simp)
    · cases digits '+' (by simp)
    · simp [numeral, value]

/-- There is no point in a whole number. -/
theorem IsWhole.no_point (whole : IsWhole text) : '.' ∉ text := by
  -- A point is neither a sign nor a digit.
  obtain ⟨sign, digits, rfl, form, numeral⟩ := whole
  intro member
  rcases List.mem_append.mp member with inSign | inDigits
  · rcases form with rfl | rfl
    · cases inSign
    · simp at inSign
  · cases (isNumeral_iff.mp numeral).2 '.' inDigits

/-- A number token with the text of an integer is read as that integer. -/
theorem readNumber_intText (n : Int64) : (readNumber (String.ofList (intText n.toInt)) : Value H) = .integer n := by
  have noPoint := (isWhole_intText n.toInt).no_point
  have exact : exactInt? n.toInt = some n := (exactInt?_eq_some_iff n.toInt n).mpr rfl
  simp [readNumber, noPoint, readInt64?, readInt?_intText, exact]

/-- A number has only signs, digits and points. -/
theorem IsNumber.of_mem {text : List Char} (number : IsNumber text) {c : Char} (member : c ∈ text) :
    c = '-' ∨ c.isDigit ∨ c = '.' := by
  obtain ⟨sign, whole, fraction, rfl, form, numeral, fractionForm⟩ := number
  rcases List.mem_append.mp member with inFront | inFraction
  · rcases List.mem_append.mp inFront with inSign | inWhole
    · rcases form with rfl | rfl
      · cases inSign
      · exact .inl (List.mem_singleton.mp inSign)
    · exact .inr (.inl ((isNumeral_iff.mp numeral).2 c inWhole))
  · rcases fractionForm with rfl | ⟨digits, rfl, numeral⟩
    · cases inFraction
    · rcases List.mem_cons.mp inFraction with point | inDigits
      · exact .inr (.inr point)
      · exact .inr (.inl ((isNumeral_iff.mp numeral).2 c inDigits))

/-- A number that stands apart is the longest number at its place. -/
theorem IsNumber.longestNumber (number : IsNumber text) (apart : Apart rest) : LongestNumber text rest := by
  refine ⟨number, fun other otherNumber front => ?_⟩
  rcases List.prefix_or_prefix_of_prefix front (List.prefix_append text rest) with inside | ⟨more, rfl⟩
  · exact inside.length_le
  · -- A longer number would go on with a character that no number has.
    obtain ⟨after, rfl⟩ := (List.prefix_append_right_inj text).mp front
    cases more with
    | nil => simp
    | cons c others =>
      have other : (isSymbolChar c || c == '.') = false := apart c rfl
      rcases otherNumber.of_mem (List.mem_append_right text List.mem_cons_self) with rfl | digit | rfl
      · cases other
      · simp [isSymbolChar, Char.isAlphanum, digit] at other
      · cases other

/-- A whole number is a number without a fraction. -/
theorem IsWhole.isNumber (whole : IsWhole text) : IsNumber text := by
  obtain ⟨sign, digits, rfl, form, numeral⟩ := whole
  exact ⟨sign, digits, [], by simp, form, numeral, .inl rfl⟩

end Integers

/-- The characters of a whole number are symbol characters. -/
theorem IsWhole.isSymbolChar (whole : IsWhole text) {c : Char} (member : c ∈ text) : isSymbolChar c := by
  obtain ⟨sign, digits, rfl, form, numeral⟩ := whole
  rcases List.mem_append.mp member with inSign | inDigits
  · rcases form with rfl | rfl
    · cases inSign
    · rw [List.mem_singleton.mp inSign]
      decide
  · simp [QuoteLisp.isSymbolChar, Char.isAlphanum, (isNumeral_iff.mp numeral).2 c inDigits]

/-- No number token stands where a symbol name does. -/
theorem IsSymbolName.no_number {name : List Char} (isName : IsSymbolName name) (apart : Apart rest)
    {number after : List Char} (same : number ++ after = name ++ rest) (longest : LongestNumber number after) :
    ¬ RunEnds isSymbolChar after := by
  -- Sign and digits of a number at this place are the beginning of the name.
  obtain ⟨sign, whole, fraction, rfl, form, numeral, fractionForm⟩ := longest.isNumber
  have isWhole : IsWhole (sign ++ whole) := ⟨sign, whole, rfl, form, numeral⟩
  rw [List.append_assoc] at same
  obtain ⟨more, split, behind⟩ := run_covers (fun c => isWhole.isSymbolChar) isName.inside apart.runEnds_symbol same
  -- The name goes on behind the digits, since it is more than a whole number, and not with a point.
  cases more with
  | nil => exact absurd (by simpa [split] using isWhole) isName.notWhole
  | cons c others =>
    have symbol : isSymbolChar c := isName.inside c (by simp [split])
    rcases fractionForm with rfl | ⟨digits, rfl, -⟩
    · rw [List.nil_append] at behind
      rw [behind, List.cons_append, runEnds_cons, symbol]
      exact Bool.noConfusion
    · obtain ⟨rfl, -⟩ := List.cons.inj behind
      cases symbol

/-- Escaped characters make the body of a string literal. -/
theorem isStringBody_escaped (text : List Char) : IsStringBody (text.flatMap escapeChar) := by
  -- A quote and a backslash are among the characters that are escaped.
  induction text with
  | nil => exact .nil
  | cons c others ih =>
    rw [List.flatMap_cons, escapeChar]
    split
    · next letter _ => exact .escape letter ih
    · next plain =>
      refine .plain ?_ ?_ ih
      · rintro rfl
        cases plain
      · rintro rfl
        cases plain

/-- A blank before tokens changes nothing. -/
theorem Tokenizes.blank {comments : Bool} {tokens : List Token} {c : Char} (layout : isLayout c)
    (tokenizes : Tokenizes comments rest tokens) : Tokenizes comments (c :: rest) tokens := by
  cases tokenizes with
  | done others => exact .done (by simpa using ⟨layout, others⟩)
  | @next blanks here _ _ _ others takes later =>
    have layout : ∀ d ∈ c :: blanks, isLayout d := by simpa using ⟨layout, others⟩
    exact .next layout takes later

/-- Blanks in front of a text change nothing about its tokens. -/
theorem Tokenizes.blanks {comments : Bool} {blanks : List Char} {tokens : List Token} (layout : ∀ c ∈ blanks, isLayout c)
    (tokenizes : Tokenizes comments rest tokens) : Tokenizes comments (blanks ++ rest) tokens := by
  induction blanks with
  | nil => exact tokenizes
  | cons c others ih => exact .blank (layout c (by simp)) (ih fun d member => layout d (by simp [member]))

/-- A token at the very front of a text. -/
theorem Tokenizes.front {comments : Bool} {tokens : List Token} {token : Token}
    (takes : TakesToken comments text token rest) (later : Tokenizes comments rest tokens) :
    Tokenizes comments text (token :: tokens) := by
  have noBlanks : ∀ c ∈ ([] : List Char), isLayout c := by simp
  exact .next noBlanks takes later

/-- The values of nodes in a row are read one after the other. -/
theorem readAll_append (front back : List Node) : (readAll (front ++ back) : List (Value H)) =
    readAll front ++ readAll back := by
  -- Brackets and comments are left out of both parts.
  induction front with
  | nil => rfl
  | cons node others ih =>
    simp only [List.cons_append, readAll]
    split
    · exact ih
    · rw [ih, List.cons_append]

/-- The node of a list is neither a bracket nor a comment. -/
theorem not_isTrivia_node (bracket : Bracket) (nodes : List Node) : (bracket.node nodes).isTrivia = false := by
  cases bracket <;> rfl

namespace Written

/-- No text is no values. -/
theorem nil : Written depth [] ([] : List (Value H)) :=
  ⟨[], [], fun _ _ _ tokenizes => tokenizes, fun _ _ spells => spells, rfl⟩

/-- A text that is one token, read as one value. -/
theorem atom (token : Token) {rule : Rule} {value : Value H} (isAtom : token.atomRule? = some rule)
    (takes : ∀ rest, Apart rest → TakesToken true (token.text ++ rest) token rest)
    (shown : (Node.leaf rule token.text).isTrivia = false) (reads : (Node.leaf rule token.text).read = value) :
    Written depth token.text [value] :=
  ⟨[token], [.leaf rule token.text], fun rest _ apart later => .front (takes rest apart) later,
    fun _ _ spells => .atom isAtom spells, by simp [readAll, shown, reads]⟩

/-- Texts with a blank between them are read one after the other. -/
theorem blank {c : Char} (layout : isLayout c) {text' : List Char} {values values' : List (Value H)}
    (first : Written depth text values) (second : Written depth text' values') :
    Written depth (text ++ c :: text') (values ++ values') := by
  obtain ⟨tokens, nodes, lexes, spells, rfl⟩ := first
  obtain ⟨tokens', nodes', lexes', spells', rfl⟩ := second
  refine ⟨tokens ++ tokens', nodes ++ nodes', fun rest later ends tokenizes => ?_, fun later more spelled => ?_,
    readAll_append nodes nodes'⟩
  · -- The blank ends the first text, whatever the second begins with.
    have behind := lexes (c :: (text' ++ rest)) (tokens' ++ later) (.of_isLayout layout _)
      ((lexes' rest later ends tokenizes).blank layout)
    simpa using behind
  · simpa using spells _ _ (spells' later more spelled)

/-- A text between brackets is read as a list. -/
theorem list (bracket : Bracket) {values : List (Value H)} {value : Value H} (inner : Written depth text values)
    (reads : ∀ items, readAll items = values → (bracket.node items).read = value) :
    Written (depth + 1) (bracket.opening :: text ++ [bracket.closing]) [value] := by
  -- The closing bracket ends what is inside, and the depth is counted by the list itself.
  obtain ⟨tokens, nodes, lexes, spells, same⟩ := inner
  refine ⟨.opening bracket :: tokens ++ [.closing bracket], [bracket.node nodes], fun rest later apart tokenizes => ?_,
    fun later more spelled => ?_, ?_⟩
  · have closed : Tokenizes true (bracket.closing :: rest) (.closing bracket :: later) :=
      .front (.closing bracket) tokenizes
    have behind := lexes _ _ (runEnds_cons.mpr (by cases bracket <;> decide)) closed
    have opened : Tokenizes true (bracket.opening :: (text ++ bracket.closing :: rest))
        (.opening bracket :: (tokens ++ .closing bracket :: later)) :=
      .front (.opening bracket) behind
    simpa using opened
  · have inside := spells [] [] .nil
    rw [List.append_nil, List.append_nil] at inside
    simpa [Bracket.node] using Spells.list inside spelled
  · simp [readAll, not_isTrivia_node, reads nodes same]

/-- The text of an integer. -/
theorem integer (n : Int64) : Written depth (Value.integer n : Value H).render [(.integer n : Value H)] := by
  refine atom (.number (intText n.toInt)) rfl (fun rest apart => ?_) rfl ?_
  · exact .number ((isWhole_intText n.toInt).isNumber.longestNumber apart) apart.runEnds_symbol
  · simp [Node.leaf, Node.read, Token.text, readNumber_intText]

/-- The text of a string. -/
theorem string (text : String) : Written depth (Value.string text : Value H).render [(.string text : Value H)] := by
  refine atom (.string (quote text.toList)) rfl (fun rest _ => ?_) rfl ?_
  · have takes : TakesToken true ('"' :: text.toList.flatMap escapeChar ++ '"' :: rest) _ rest :=
      .string (isStringBody_escaped text.toList)
    simpa [quote, Token.text] using takes
  · simp [Node.leaf, Node.read, Token.text, unquote_quote]

/-- The text of a symbol. -/
theorem symbol {name : String} (isName : IsSymbolName name.toList) :
    Written depth (Value.symbol name : Value H).render [(.symbol name : Value H)] := by
  refine atom (.symbol name.toList) rfl (fun rest apart => ?_) rfl ?_
  · exact .symbol isName.nonempty isName.inside apart.runEnds_symbol fun _ _ same longest =>
      isName.no_number apart same longest
  · simp [Node.leaf, Node.read, Token.text]

/-- The texts of the items of a list. -/
theorem items (items : List (Value H)) (inside : ∀ item ∈ items, Written depth item.render [item]) :
    Written depth (QuoteLisp.spaced (renderItems items)) items := by
  induction items with
  | nil => exact nil
  | cons item others ih =>
    have first := inside item (by simp)
    have behind := ih fun other member => inside other (by simp [member])
    cases others with
    | nil => exact first
    | cons next others => exact first.blank (by decide) behind

/-- A text that is read as some values and has nothing behind it is a program of these values. -/
theorem parses {source : String} {values : List (Value H)} (written : Written 127 source.toList values) :
    ∃ nodes, parse true source = .ok (.branch .program nodes) ∧ readAll nodes = values := by
  obtain ⟨tokens, nodes, lexes, spells, reads⟩ := written
  have tokenizes := lexes [] [] .nil (.done (by simp))
  have spelled := spells [] [] .nil
  simp only [List.append_nil] at tokenizes spelled
  exact ⟨nodes, parse_eq_ok.mpr ⟨nodes, parseNodes_eq_ok.mpr ⟨tokens, tokenizes, spelled⟩, rfl⟩, reads⟩

end Written

/-- The nodes of a list in brackets are read as the values of its items. -/
theorem read_node (bracket : Bracket) (nodes : List Node) : ((bracket.node nodes).read : Value H) =
    match bracket with
    | .round => .sexpr (readAll nodes)
    | .curly => .qexpr (readAll nodes) := by
  have opens : ∀ c, (Node.leaf .delimiter [c]).isTrivia = true := fun _ => rfl
  have inside : ∀ c d, (readAll (.leaf .delimiter [c] :: (nodes ++ [.leaf .delimiter [d]])) : List (Value H)) =
      readAll nodes := by
    intro c d
    rw [readAll, if_pos (opens c), readAll_append]
    simp [readAll, opens]
  cases bracket <;> simp [Bracket.node, Bracket.rule, Node.branch, Node.read, inside]

/-- The text of a legible value is read as that value. -/
theorem written_of_legible {value : Value H} (legible : Legible depth value) :
    Written depth value.render [value] := by
  -- One case for each form of a legible value.
  induction legible with
  | integer n => exact .integer n
  | string text => exact .string text
  | symbol isName => exact .symbol isName
  | @sexpr depth items _ ih =>
    exact (Written.items items ih).list .round fun nodes same => by rw [read_node, same]
  | @qexpr depth items _ ih =>
    exact (Written.items items ih).list .curly fun nodes same => by rw [read_node, same]

/-- A value of integers, strings, symbols and lists of them at most 127 deep is printed as a text that parses, and what
is read from the tree is that one value. -/
theorem legible_value_reads_back {value : Value H} (legible : Legible 127 value) :
    ∃ tree, parse true value.text = .ok tree ∧ tree.read = .sexpr [value] := by
  -- Nothing stands behind the value, so its text is the whole text.
  obtain ⟨tokens, nodes, lexes, spells, reads⟩ := written_of_legible legible
  have tokenizes := lexes [] [] .nil (.done (by simp))
  have spelled := spells [] [] .nil
  simp only [List.append_nil] at tokenizes spelled
  have done := parseNodes_eq_ok.mpr ⟨tokens, tokenizes, spelled⟩
  refine ⟨.branch .program nodes, by simp [parse, Value.text, done], ?_⟩
  simp [Node.branch, Node.read, reads]

/-- The least integer, a string of characters that are escaped, a symbol that starts like a number, and empty lists. -/
theorem legible_value_reads_back_mixed :
    let value : Value Empty :=
      .qexpr [.integer Int64.minValue, .string "\\\"\n\x00\x27", .sexpr [.symbol "-1-", .sexpr []], .qexpr []]
    Legible 127 value ∧ ∃ tree, parse true value.text = .ok tree ∧ tree.read = .sexpr [value] := by
  intro value
  have isName : IsSymbolName "-1-".toList := by
    refine ⟨by decide, List.all_eq_true.mp (by decide), ?_⟩
    rintro ⟨sign, digits, same, rfl | rfl, numeral⟩
    · obtain rfl : digits = ['-', '1', '-'] := same.symm
      cases numeral
    · obtain ⟨-, rest⟩ := List.cons.inj same
      obtain rfl : digits = ['1', '-'] := rest.symm
      cases numeral
  have empty : ∀ depth, Legible (depth + 1) (.sexpr [] : Value Empty) ∧ Legible (depth + 1) (.qexpr [] : Value Empty) :=
    fun _ => ⟨.sexpr (by simp), .qexpr (by simp)⟩
  have legible : Legible 127 value := by
    refine .qexpr fun item member => ?_
    simp only [List.mem_cons, List.not_mem_nil, or_false] at member
    rcases member with rfl | rfl | rfl | rfl
    · exact .integer _
    · exact .string _
    · exact .sexpr (by simpa using ⟨.symbol isName, (empty 124).1⟩)
    · exact (empty 125).2
  exact ⟨legible, legible_value_reads_back legible⟩

end QuoteLisp
