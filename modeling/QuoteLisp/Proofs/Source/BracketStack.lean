import QuoteLisp.Proofs.Source.Scanning

/-! The parser as a machine with a stack: the tokens of a text, taken one by one, with a stack of the lists that are open.
It gives for every text what looking for expressions inside one another gives, faults and their places included. -/

namespace QuoteLisp

/-- A list that is open: its bracket, and the nodes before it in the list around it, last first. -/
structure OpenList where
  bracket : Bracket
  before : List Node

/-- The fault of a place where neither an expression nor the closing bracket of the innermost open list stands. -/
def misfitAt (opened : List OpenList) (rest : List Char) : Misfit :=
  match opened, rest with
  | [], _ => ⟨.unexpected, rest⟩
  | _ :: _, [] => ⟨.endOfInput, rest⟩
  | _ :: _, _ :: _ => ⟨.misplaced, rest⟩

/-- Puts tokens together to nodes.

`opened` are the lists open so far, innermost first, and `nodes` the nodes read so far in the innermost one,
last first. -/
def assemble (ending : Ending) (rest : List Char) :
    (opened : List OpenList) → (nodes : List Node) → List Lexeme → Except Misfit (List Node)
  | opened, nodes, [] =>
    -- Too many open lists are reported before anything else, even where nothing follows.
    if maxListDepth ≤ opened.length then .error ⟨.tooDeep, rest⟩
    else
      match ending, opened with
      | .unterminated, _ => .error ⟨.unterminatedString, rest⟩
      | .finished, [] => .ok nodes.reverse
      | _, _ => .error (misfitAt opened rest)
  | opened, nodes, ⟨token, here⟩ :: lexemes =>
    if maxListDepth ≤ opened.length then .error ⟨.tooDeep, here⟩
    else
      match token with
      | .number text => assemble ending rest opened (.leaf .number text :: nodes) lexemes
      | .symbol text => assemble ending rest opened (.leaf .symbol text :: nodes) lexemes
      | .string text => assemble ending rest opened (.leaf .string text :: nodes) lexemes
      | .comment text => assemble ending rest opened (.leaf .comment text :: nodes) lexemes
      -- The nodes so far are set aside until the new list is closed.
      | .opening bracket => assemble ending rest (⟨bracket, nodes⟩ :: opened) [] lexemes
      | .closing bracket =>
        match opened with
        | [] => .error (misfitAt opened here)
        | innermost :: outer =>
          -- Only the bracket of the same kind closes the innermost list.
          if innermost.bracket = bracket then
            assemble ending rest outer (bracket.node nodes.reverse :: innermost.before) lexemes
          else .error (misfitAt opened here)

section Lexing

variable {comments : Bool} {input : List Char}

/-- A bound that a text keeps to makes no difference to its tokens. -/
theorem lexWithin_of_fits {bound other : Nat} (fits : input.length ≤ bound) (fits' : input.length ≤ other) :
    lexWithin comments bound input = lexWithin comments other input := by
  -- Both bounds shrink by one for each token, and the text by at least one character.
  induction bound generalizing input other with
  | zero =>
    obtain rfl : input = [] := List.length_eq_zero_iff.mp (by omega)
    cases other <;> rfl
  | succ bound ih =>
    cases other with
    | zero =>
      obtain rfl : input = [] := List.length_eq_zero_iff.mp (by omega)
      rfl
    | succ other =>
      have blanks := (List.dropWhile_sublist isLayout (l := input)).length_le
      simp only [lexWithin]
      cases scanned : scan comments (input.dropWhile isLayout) with
      | token token rest =>
        have shorter := length_lt_of_scan scanned
        simp only [@ih rest other (by omega) (by omega)]
      | _ => rfl

/-- The tokens of a text are the first one and the tokens of what follows it, or none for some reason. -/
theorem lex_eq (comments : Bool) (input : List Char) :
    lex comments input =
      match scan comments (input.dropWhile isLayout) with
      | .token token rest =>
        { lex comments rest with lexemes := ⟨token, input.dropWhile isLayout⟩ :: (lex comments rest).lexemes }
      | .finished => ⟨[], .finished, input.dropWhile isLayout⟩
      | .unterminated => ⟨[], .unterminated, input.dropWhile isLayout⟩
      | .stray => ⟨[], .stray, input.dropWhile isLayout⟩ := by
  -- A bound of one more than is needed leaves one for the first token.
  have looser : lex comments input = lexWithin comments (input.length + 1) input :=
    lexWithin_of_fits (Nat.le_refl _) (Nat.le_succ _)
  rw [looser, lexWithin]
  cases scanned : scan comments (input.dropWhile isLayout) with
  | token token rest =>
    have blanks := (List.dropWhile_sublist isLayout (l := input)).length_le
    have shorter := length_lt_of_scan scanned
    simp only [lex, @lexWithin_of_fits comments rest input.length rest.length (by omega) (Nat.le_refl _)]
  | _ => rfl

end Lexing

/-- Puts the tokens of a text together, where some lists are open already. -/
def assembleText (comments : Bool) (opened : List OpenList) (nodes : List Node) (input : List Char) :
    Except Misfit (List Node) :=
  assemble (lex comments input).ending (lex comments input).rest opened nodes (lex comments input).lexemes

section Assembly

variable {comments : Bool} {opened : List OpenList} {nodes : List Node} {input rest : List Char}

/-- Where too many lists are open the text is refused, whatever stands there. -/
theorem assembleText_of_deep (deep : maxListDepth ≤ opened.length) :
    assembleText comments opened nodes input = .error ⟨.tooDeep, input.dropWhile isLayout⟩ := by
  rw [assembleText, lex_eq]
  cases scan comments (input.dropWhile isLayout) <;> simp [assemble, deep]

/-- A token that is no bracket is one node more. -/
theorem assembleText_of_atom (shallow : ¬ maxListDepth ≤ opened.length) {token : Token} {rule : Rule}
    (scanned : scan comments (input.dropWhile isLayout) = .token token rest) (isAtom : token.atomRule? = some rule) :
    assembleText comments opened nodes input = assembleText comments opened (.leaf rule token.text :: nodes) rest := by
  rw [assembleText, lex_eq, scanned]
  simp only [assemble, if_neg shallow]
  cases token <;> cases isAtom <;> rfl

/-- An opening bracket opens a list with nothing in it yet. -/
theorem assembleText_of_opening (shallow : ¬ maxListDepth ≤ opened.length) {bracket : Bracket}
    (scanned : scan comments (input.dropWhile isLayout) = .token (.opening bracket) rest) :
    assembleText comments opened nodes input = assembleText comments (⟨bracket, nodes⟩ :: opened) [] rest := by
  rw [assembleText, lex_eq, scanned]
  simp only [assemble, if_neg shallow]
  rfl

/-- What becomes of the nodes of the innermost list where no further expression stands: the list is closed, and the text
goes on in the list around it, or the text is refused. Outside all lists the text must end there. -/
def resume (comments : Bool) : List OpenList → List Node × List Char → Except Misfit (List Node)
  | [], (nodes, behind) =>
    match behind.dropWhile isLayout with
    | [] => .ok nodes
    | left => .error ⟨.unexpected, left⟩
  | ⟨bracket, before⟩ :: outer, (items, behind) =>
    match behind.dropWhile isLayout with
    | [] => .error ⟨.endOfInput, []⟩
    | c :: rest =>
      if c = bracket.closing then assembleText comments outer (bracket.node items :: before) rest
      else .error ⟨.misplaced, c :: rest⟩

/-- A closing bracket closes the innermost list if it is of the same kind. -/
theorem assembleText_of_closing (shallow : ¬ maxListDepth ≤ opened.length) {bracket : Bracket}
    (scanned : scan comments (input.dropWhile isLayout) = .token (.closing bracket) rest) :
    assembleText comments opened nodes input = resume comments opened (nodes.reverse, input) := by
  have here : input.dropWhile isLayout = bracket.closing :: rest := by
    generalize input.dropWhile isLayout = here at scanned
    cases scan_sound scanned
    rfl
  rw [assembleText, lex_eq, scanned]
  simp only [assemble, if_neg shallow]
  cases opened with
  | nil => simp only [resume, here, misfitAt]
  | cons innermost outer =>
    obtain ⟨kind, before⟩ := innermost
    simp only [resume, here, misfitAt]
    -- The two kinds of brackets are told apart by their closing characters.
    by_cases same : kind = bracket
    · subst same
      rw [if_pos rfl, if_pos rfl]
      rfl
    · have different : ¬ bracket.closing = kind.closing := by
        revert same
        cases kind <;> cases bracket <;> decide
      rw [if_neg same, if_neg different]

/-- At the end of a text nothing is left to close a list. -/
theorem assembleText_of_finished (shallow : ¬ maxListDepth ≤ opened.length)
    (scanned : scan comments (input.dropWhile isLayout) = .finished) :
    assembleText comments opened nodes input = resume comments opened (nodes.reverse, input) := by
  have here : input.dropWhile isLayout = [] := scan_eq_finished.mp scanned
  rw [assembleText, lex_eq, scanned]
  simp only [assemble, if_neg shallow]
  cases opened with
  | nil => simp only [resume, here]
  | cons innermost outer => simp only [resume, here, misfitAt]

/-- A character that starts no token closes no list either. -/
theorem assembleText_of_stray (shallow : ¬ maxListDepth ≤ opened.length)
    (scanned : scan comments (input.dropWhile isLayout) = .stray) :
    assembleText comments opened nodes input = resume comments opened (nodes.reverse, input) := by
  rw [assembleText, lex_eq, scanned]
  simp only [assemble, if_neg shallow]
  -- At the end of a text there is nothing stray.
  cases here : input.dropWhile isLayout with
  | nil =>
    rw [here, scan_eq_finished.mpr rfl] at scanned
    cases scanned
  | cons c others =>
    cases opened with
    | nil => simp only [resume, here, misfitAt]
    | cons innermost outer =>
      have different : ¬ c = innermost.bracket.closing := by
        rintro rfl
        rw [here, scan_complete (.closing innermost.bracket)] at scanned
        cases scanned
      simp only [resume, here, misfitAt, if_neg different]

end Assembly

section Seeking

variable {seek : (input : List Char) → Sought input} {before : List Node} {input rest : List Char}

theorem seekMany_of_found {node : Node} {shorter : rest.length < (input.dropWhile isLayout).length}
    (sought : seek (input.dropWhile isLayout) = .found node rest shorter) :
    seekMany seek before input = seekMany seek (node :: before) rest := by
  rw [seekMany, sought]

theorem seekMany_of_absent (sought : seek (input.dropWhile isLayout) = .absent) :
    seekMany seek before input = .ok (before.reverse, input) := by
  rw [seekMany, sought]

theorem seekMany_of_refused {misfit : Misfit} (sought : seek (input.dropWhile isLayout) = .refused misfit) :
    seekMany seek before input = .error misfit := by
  rw [seekMany, sought]

/-- A list is closed behind the items that are found inside it. -/
theorem seekList_of_ok {bracket : Bracket} {items : List Node} {behind : List Char} {shorter : rest.length < input.length}
    (inside : seekMany seek [] rest = .ok (items, behind)) (less : behind.length < input.length) :
    seekList seek bracket rest shorter = closeList bracket items behind less := by
  unfold seekList
  split
  · next found =>
    rw [inside] at found
    cases found
    rfl
  · next found =>
    rw [inside] at found
    cases found

/-- A list is refused when something inside it is. -/
theorem seekList_of_error {bracket : Bracket} {misfit : Misfit} {shorter : rest.length < input.length}
    (inside : seekMany seek [] rest = .error misfit) : seekList seek bracket rest shorter = .refused misfit := by
  unfold seekList
  split
  · next found =>
    rw [inside] at found
    cases found
  · next found =>
    rw [inside] at found
    cases found
    rfl

/-- Closing the innermost list gives a node of the list around it, or a refusal of the text. -/
theorem resume_of_closeList (comments : Bool) (bracket : Bracket) (before : List Node) (outer : List OpenList)
    (items : List Node) {behind : List Char} (less : behind.length < input.length) :
    (∃ node after shorter, closeList bracket items behind less = .found node after shorter ∧
      resume comments (⟨bracket, before⟩ :: outer) (items, behind) = assembleText comments outer (node :: before) after) ∨
    ∃ misfit, closeList bracket items behind less = .refused misfit ∧
      resume comments (⟨bracket, before⟩ :: outer) (items, behind) = .error misfit := by
  -- The place behind the blanks decides: it is the end of the text, the bracket that is missing, or something else.
  unfold closeList
  split
  · next nothing => exact .inr ⟨_, rfl, by simp only [resume, nothing]⟩
  · next c after following =>
    have shorter : after.length < input.length := Nat.lt_trans (length_lt_of_dropWhile following) less
    by_cases closes : c = bracket.closing
    · exact .inl ⟨_, after, shorter, if_pos closes, by simp only [resume, following, if_pos closes]⟩
    · exact .inr ⟨_, if_neg closes, by simp only [resume, following, if_neg closes]⟩

/-- Where not too many lists are open, what the scanner finds decides. -/
theorem seekExpr_of_scan {comments : Bool} {depth : Nat} {front : Scan} (shallow : ¬ maxListDepth ≤ depth)
    (scanned : scan comments input = front) :
    seekExpr comments depth input = seekFrom (seekExpr comments (depth + 1)) front scanned := by
  subst scanned
  rw [seekExpr, if_neg shallow]

end Seeking

/-- Taking tokens with a stack of open lists gives what looking for expressions gives, as deep as the stack is. -/
theorem assembleText_eq_seekMany (comments : Bool) (opened : List OpenList) (nodes : List Node) (input : List Char) :
    assembleText comments opened nodes input =
      seekMany (seekExpr comments opened.length) nodes input >>= resume comments opened := by
  -- By induction on the length of the text, since a list is followed by what stands behind it and not by its items.
  induction size : input.length using Nat.strongRecOn generalizing opened nodes input with
  | ind length ih =>
    by_cases deep : maxListDepth ≤ opened.length
    · rw [assembleText_of_deep deep, seekMany_of_refused (by rw [seekExpr, if_pos deep])]
      rfl
    · have blanks := (List.dropWhile_sublist isLayout (l := input)).length_le
      -- A node found is followed by the text behind it, which is shorter.
      have goesOn : ∀ {node rest} {shorter : rest.length < (input.dropWhile isLayout).length},
          seekExpr comments opened.length (input.dropWhile isLayout) = .found node rest shorter →
          seekMany (seekExpr comments opened.length) nodes input >>= resume comments opened =
            assembleText comments opened (node :: nodes) rest := by
        intro node rest shorter found
        rw [seekMany_of_found found, ih rest.length (by omega) opened (node :: nodes) rest rfl]
      -- Where no node is found, the list or the whole text must end.
      have ends : seekExpr comments opened.length (input.dropWhile isLayout) = .absent →
          seekMany (seekExpr comments opened.length) nodes input >>= resume comments opened =
            resume comments opened (nodes.reverse, input) := by
        intro absent
        rw [seekMany_of_absent absent]
        rfl
      cases scanned : scan comments (input.dropWhile isLayout) with
      | finished => rw [assembleText_of_finished deep scanned, ends (seekExpr_of_scan deep scanned)]
      | stray => rw [assembleText_of_stray deep scanned, ends (seekExpr_of_scan deep scanned)]
      -- Nothing can make up for a closing quote.
      | unterminated =>
        rw [seekMany_of_refused (seekExpr_of_scan deep scanned), assembleText, lex_eq, scanned]
        simp only [assemble, if_neg deep]
        rfl
      | token token rest =>
        have shorter := length_lt_of_scan scanned
        cases token with
        | number text | symbol text | string text | comment text =>
          rw [assembleText_of_atom deep scanned rfl, goesOn (seekExpr_of_scan deep scanned)]
          rfl
        | closing bracket => rw [assembleText_of_closing deep scanned, ends (seekExpr_of_scan deep scanned)]
        | opening bracket =>
          -- The items are looked for with one more list open, and what stands behind them closes the list or not.
          have expr := seekExpr_of_scan deep scanned
          simp only [seekFrom] at expr
          rw [assembleText_of_opening deep scanned, ih rest.length (by omega) _ _ rest rfl, List.length_cons]
          cases inside : seekMany (seekExpr comments (opened.length + 1)) [] rest with
          | error misfit =>
            rw [seekList_of_error inside] at expr
            rw [seekMany_of_refused expr]
            rfl
          | ok found =>
            obtain ⟨items, behind⟩ := found
            have less : behind.length < (input.dropWhile isLayout).length :=
              Nat.lt_of_le_of_lt (length_le_of_seekMany inside) shorter
            rw [seekList_of_ok inside less] at expr
            rcases resume_of_closeList comments bracket nodes opened items less with
              ⟨node, after, shorter, closed, resumed⟩ | ⟨misfit, closed, resumed⟩
            · rw [closed] at expr
              rw [goesOn expr]
              exact resumed
            · rw [closed] at expr
              rw [seekMany_of_refused expr]
              exact resumed

/-- The parser is the machine that takes the tokens of the text with a stack of open lists. -/
theorem parseNodes_eq_assemble (comments : Bool) (input : List Char) :
    parseNodes comments input =
      assemble (lex comments input).ending (lex comments input).rest [] [] (lex comments input).lexemes :=
  (assembleText_eq_seekMany comments [] [] input).symm

end QuoteLisp
