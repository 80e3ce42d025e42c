import QuoteLisp.Proofs.Source.BracketStack

/-! The parser accepts exactly the texts of the grammar, and gives the trees that their tokens spell. -/

namespace QuoteLisp

variable {comments : Bool} {input rest : List Char}

/-- No symbol character is a blank. -/
theorem not_isLayout_of_isSymbolChar {c : Char} (symbol : isSymbolChar c) : isLayout c = false := by
  cases blank : isLayout c with
  | false => rfl
  | true =>
    -- There are only four blanks to look at.
    simp only [isLayout, Bool.or_eq_true, beq_iff_eq] at blank
    rcases blank with ((rfl | rfl) | rfl) | rfl <;> revert symbol <;> decide

namespace TakesToken

variable {token : Token}

/-- A token takes a first character, and that is no blank. -/
theorem starts (takes : TakesToken comments input token rest) :
    ∃ c others, input = c :: others ∧ isLayout c = false ∧ rest.length ≤ others.length := by
  -- Numbers and symbols start with a symbol character, and the others with a sign of their own.
  cases takes with
  | @number text _ longest ends =>
    obtain ⟨c, others, rfl, symbol⟩ := longest.isNumber.starts
    exact ⟨c, others ++ rest, rfl, not_isLayout_of_isSymbolChar symbol, by simp⟩
  | @symbol text _ nonempty inside ends noNumber =>
    obtain ⟨c, others, rfl⟩ := List.exists_cons_of_ne_nil nonempty
    exact ⟨c, others ++ rest, rfl, not_isLayout_of_isSymbolChar (inside c (by simp)), by simp⟩
  | @string body _ isBody => exact ⟨'"', body ++ '"' :: rest, rfl, by decide, by simp; omega⟩
  | @comment text _ allowed inside ends => exact ⟨';', text ++ rest, rfl, by decide, by simp⟩
  | opening bracket => exact ⟨bracket.opening, rest, rfl, by cases bracket <;> decide, Nat.le_refl _⟩
  | closing bracket => exact ⟨bracket.closing, rest, rfl, by cases bracket <;> decide, Nat.le_refl _⟩

/-- The blanks before a token end where it starts. -/
theorem runEnds (takes : TakesToken comments input token rest) : RunEnds isLayout input := by
  obtain ⟨c, others, rfl, noBlank, -⟩ := takes.starts
  exact runEnds_cons.mpr noBlank

end TakesToken

/-- The lexer finds the tokens of a text, and finds its end only when the whole text consists of tokens. -/
theorem tokenizes_iff_lexWithin {bound : Nat} {tokens : List Token} (fits : input.length ≤ bound) :
    Tokenizes comments input tokens ↔ (lexWithin comments bound input).ending = .finished ∧
      tokens = (lexWithin comments bound input).lexemes.map (·.token) := by
  -- The bound shrinks with the text, since every token takes at least one character.
  constructor
  · intro tokenizes
    induction tokenizes generalizing bound with
    | @done blanks layout =>
      have nothing : (blanks ++ []).dropWhile isLayout = [] := dropWhile_run layout runEnds_nil
      rw [List.append_nil] at nothing
      cases bound with
      | zero => exact ⟨rfl, rfl⟩
      | succ bound => simp [lexWithin, nothing, scan_eq_finished.mpr rfl]
    | @next blanks here rest token tokens layout takes later ih =>
      obtain ⟨c, others, rfl, -, shorter⟩ := takes.starts
      simp only [List.length_append, List.length_cons] at fits
      cases bound with
      | zero => omega
      | succ bound =>
        have later := @ih bound (by omega)
        simp [lexWithin, dropWhile_run layout takes.runEnds, scan_complete takes, later]
  · induction bound generalizing input tokens with
    | zero =>
      obtain rfl : input = [] := List.length_eq_zero_iff.mp (by omega)
      rintro ⟨-, rfl⟩
      exact .done (by simp)
    | succ bound ih =>
      rintro ⟨finished, rfl⟩
      have split : input = input.takeWhile isLayout ++ input.dropWhile isLayout :=
        List.takeWhile_append_dropWhile.symm
      have layout : ∀ c ∈ input.takeWhile isLayout, isLayout c := fun c => mem_takeWhile
      generalize input.takeWhile isLayout = blanks at split layout
      -- What the scanner says of the text behind the blanks decides how the text goes on.
      simp only [lexWithin] at finished ⊢
      generalize input.dropWhile isLayout = here at split finished ⊢
      subst split
      cases scanned : scan comments here with
      | token token rest =>
        simp only [scanned] at finished ⊢
        have takes := scan_sound scanned
        obtain ⟨c, others, rfl, -, shorter⟩ := takes.starts
        simp only [List.length_append, List.length_cons] at fits
        exact .next layout takes (ih (by omega) ⟨finished, rfl⟩)
      | finished =>
        obtain rfl := scan_eq_finished.mp scanned
        simpa using Tokenizes.done layout
      | unterminated => simp [scanned] at finished
      | stray => simp [scanned] at finished

/-- The tokens of a text are those that the lexer finds. -/
theorem tokenizes_iff_lex {tokens : List Token} : Tokenizes comments input tokens ↔
    (lex comments input).ending = .finished ∧ tokens = (lex comments input).lexemes.map (·.token) :=
  tokenizes_iff_lexWithin (Nat.le_refl _)

variable {ending : Ending} {nodes result : List Node}

/-- Tokens that spell some nodes add these to the nodes of the innermost open list, and leave what is open as it is. -/
theorem assemble_of_spells {depth : Nat} {tokens : List Token} {items : List Node} (spells : Spells depth tokens items)
    {opened : List OpenList} (room : opened.length + depth < maxListDepth) {lexemes later : List Lexeme}
    (same : lexemes.map (·.token) = tokens) :
    assemble ending rest opened nodes (lexemes ++ later) = assemble ending rest opened (items.reverse ++ nodes) later := by
  -- By induction on how the tokens spell the nodes; what is open outside is never touched.
  induction spells generalizing opened nodes lexemes later with
  | nil =>
    obtain rfl := List.map_eq_nil_iff.mp same
    rfl
  | @atom depth token rule tokens others isAtom _ ih =>
    obtain ⟨⟨token, here⟩, more, rfl, rfl, others⟩ := List.map_eq_cons_iff.mp same
    have next : assemble ending rest opened (.leaf rule token.text :: nodes) (more ++ later) = _ := ih room others
    have shallow : ¬ maxListDepth ≤ opened.length := by omega
    simp only [List.cons_append, assemble, if_neg shallow, List.reverse_cons, List.append_assoc, List.nil_append]
    cases token <;> cases isAtom <;> exact next
  | @list depth bracket inside tokens items others _ _ innerIh laterIh =>
    -- The list's own tokens are the bracket, what is inside, and the bracket that closes it.
    obtain ⟨first, more, rfl, opens, sameMore⟩ := List.map_eq_cons_iff.mp same
    obtain ⟨innerLexemes, behind, rfl, sameInner, sameBehind⟩ := List.map_eq_append_iff.mp sameMore
    obtain ⟨last, outer, rfl, closes, sameOuter⟩ := List.map_eq_cons_iff.mp sameBehind
    obtain ⟨token, here⟩ := first
    obtain ⟨token', here'⟩ := last
    simp only at opens closes
    subst opens closes
    have shallow : ¬ maxListDepth ≤ opened.length := by omega
    have shallow' : ¬ maxListDepth ≤ opened.length + 1 := by omega
    have inner : assemble ending rest (⟨bracket, nodes⟩ :: opened) []
        (innerLexemes ++ ⟨.closing bracket, here'⟩ :: (outer ++ later)) = _ :=
      innerIh (by simp only [List.length_cons]; omega) sameInner
    have closed : assemble ending rest opened (bracket.node items :: nodes) (outer ++ later) = _ :=
      laterIh room sameOuter
    simp only [List.cons_append, List.append_assoc, assemble, if_neg shallow, inner, List.length_cons, if_neg shallow',
      if_true, List.append_nil, List.reverse_reverse, closed, List.reverse_cons]
    rfl

/-- How tokens close the lists that are open and go on to the end of the text: `nodes` are the nodes so far in the
innermost list, last first, and `result` are those of the whole text. -/
def Closes : List OpenList → List Node → List Token → List Node → Prop
  | [], nodes, tokens, result => ∃ more, Spells 127 tokens more ∧ result = nodes.reverse ++ more
  | ⟨bracket, before⟩ :: outer, nodes, tokens, result =>
    ∃ inside items behind, tokens = inside ++ .closing bracket :: behind ∧ Spells (126 - outer.length) inside items ∧
      Closes outer (bracket.node (nodes.reverse ++ items) :: before) behind result

/-- Tokens that spell one more node may stand before what closes the open lists. -/
theorem Closes.cons {opened : List OpenList} (front : List Token) {tokens : List Token} {node : Node}
    (spells : ∀ later nodes, Spells (127 - opened.length) later nodes →
      Spells (127 - opened.length) (front ++ later) (node :: nodes))
    (closes : Closes opened (node :: nodes) tokens result) : Closes opened nodes (front ++ tokens) result := by
  cases opened with
  | nil =>
    obtain ⟨more, spelled, rfl⟩ := closes
    exact ⟨node :: more, spells _ _ spelled, by simp⟩
  | cons innermost outer =>
    obtain ⟨inside, items, behind, rfl, spelled, later⟩ := closes
    have depth : 127 - (innermost :: outer).length = 126 - outer.length := by
      simp only [List.length_cons]
      omega
    rw [depth] at spells
    exact ⟨front ++ inside, node :: items, behind, by simp, spells _ _ spelled, by simpa using later⟩

/-- Where too many lists are open nothing is accepted. -/
theorem shallow_of_assemble {opened : List OpenList} {lexemes : List Lexeme}
    (done : assemble ending rest opened nodes lexemes = .ok result) : opened.length < maxListDepth := by
  by_cases deep : maxListDepth ≤ opened.length
  · cases lexemes <;> simp [assemble, deep] at done
  · omega

/-- Tokens that are put together close all open lists, and the text ends behind them. -/
theorem closes_of_assemble {opened : List OpenList} {lexemes : List Lexeme}
    (done : assemble ending rest opened nodes lexemes = .ok result) :
    ending = .finished ∧ Closes opened nodes (lexemes.map (·.token)) result := by
  -- By induction on the tokens, with the lists that are open as the invariant.
  have shallow : ¬ maxListDepth ≤ opened.length := Nat.not_le.mpr (shallow_of_assemble done)
  induction lexemes generalizing opened nodes with
  | nil =>
    simp only [assemble, if_neg shallow] at done
    split at done
    · cases done
    · cases done
      exact ⟨rfl, [], .nil, by simp⟩
    · cases done
  | cons lexeme lexemes ih =>
    have next : ∀ {opened nodes}, assemble ending rest opened nodes lexemes = .ok result →
        ending = .finished ∧ Closes opened nodes (lexemes.map (·.token)) result := fun done =>
      ih done (Nat.not_le.mpr (shallow_of_assemble done))
    -- A token that is no bracket is one node more.
    have atom : ∀ {token : Token} {rule}, token.atomRule? = some rule →
        assemble ending rest opened (.leaf rule token.text :: nodes) lexemes = .ok result →
        ending = .finished ∧ Closes opened nodes (token :: lexemes.map (·.token)) result := by
      intro token rule isAtom done
      obtain ⟨finished, closes⟩ := next done
      exact ⟨finished, closes.cons [token] fun _ _ => .atom isAtom⟩
    obtain ⟨token, here⟩ := lexeme
    simp only [assemble, if_neg shallow] at done
    cases token with
    | number text => exact atom rfl done
    | symbol text => exact atom rfl done
    | string text => exact atom rfl done
    | comment text => exact atom rfl done
    | opening bracket =>
      obtain ⟨finished, inside, items, behind, same, spelled, closes⟩ := next done
      refine ⟨finished, ?_⟩
      -- The list that is opened is closed further on, and then counts as one node.
      have room := shallow_of_assemble done
      simp only [List.length_cons, maxListDepth] at room
      have depth : 127 - opened.length = 126 - opened.length + 1 := by omega
      have list := closes.cons (.opening bracket :: inside ++ [.closing bracket]) fun later nodes spells => by
        rw [depth] at spells ⊢
        simpa [Bracket.node] using Spells.list spelled spells
      simpa [same] using list
    | closing bracket =>
      cases opened with
      | nil => cases done
      | cons innermost outer =>
        obtain ⟨open_, before⟩ := innermost
        simp only at done
        split at done
        · next sameKind =>
          subst sameKind
          obtain ⟨finished, closes⟩ := next done
          exact ⟨finished, [], [], _, rfl, .nil, by simpa using closes⟩
        · cases done

/-- The expressions of a text are what its tokens spell, with at most 127 lists one inside the other. -/
theorem parseNodes_eq_ok : parseNodes comments input = .ok nodes ↔
    ∃ tokens, Tokenizes comments input tokens ∧ Spells 127 tokens nodes := by
  rw [parseNodes_eq_assemble]
  constructor
  -- At the start no list is open, so closing all of them is spelling the whole text.
  · intro done
    obtain ⟨finished, more, spells, rfl⟩ := closes_of_assemble done
    exact ⟨_, tokenizes_iff_lex.mpr ⟨finished, rfl⟩, by simpa using spells⟩
  · rintro ⟨tokens, tokenizes, spells⟩
    obtain ⟨finished, rfl⟩ := tokenizes_iff_lex.mp tokenizes
    have spelled : assemble .finished (lex comments input).rest [] [] ((lex comments input).lexemes ++ []) = _ :=
      assemble_of_spells spells (by decide) rfl
    rw [List.append_nil, List.append_nil] at spelled
    rw [finished, spelled]
    simp [assemble, maxListDepth]

/-- An accepted text is a program node over its expressions. -/
theorem parse_eq_ok {source : String} {tree : Node} : parse comments source = .ok tree ↔
    ∃ nodes, parseNodes comments source.toList = .ok nodes ∧ tree = .branch .program nodes := by
  cases result : parseNodes comments source.toList with
  | ok nodes => simp [parse, result, eq_comm]
  | error misfit => simp [parse, result]

/-- A text is accepted with the nodes that its tokens are put together to. -/
theorem parse_of_assemble {source : String}
    (assembled : assemble (lex comments source.toList).ending (lex comments source.toList).rest [] []
      (lex comments source.toList).lexemes = .ok nodes) : parse comments source = .ok (.branch .program nodes) := by
  rw [← parseNodes_eq_assemble] at assembled
  exact parse_eq_ok.mpr ⟨nodes, assembled, rfl⟩

end QuoteLisp
