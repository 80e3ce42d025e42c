import QuoteLisp.Proofs.Source.Refusal

/-! Which refused texts can still become programs: a text that is incomplete can go on to one, and a text that is
refused for another reason cannot, unless it ends in a point that the next digit would turn into a fraction. -/

namespace QuoteLisp

variable {comments : Bool} {input behind rest more : List Char} {tokens : List Token} {opened : List Bracket}

/-- From left to right, a 128th list is opened before anything is wrong. -/
def OpensTooMany (comments : Bool) (input : List Char) : Prop :=
  ∃ tokens bracket rest opened, Reads comments input (tokens ++ [.opening bracket]) rest ∧
    tokens.foldlM Token.nest? [] = some opened ∧ opened.length = 127

/-- The text ends in a point right behind a number without a fraction, and nothing is wrong before that. -/
def PointPending (comments : Bool) (input : List Char) : Prop :=
  ∃ tokens text opened, Reads comments input (tokens ++ [.number text]) ['.'] ∧ '.' ∉ text ∧
    tokens.foldlM Token.nest? [] = some opened

/-- At most 127 lists are open at once. -/
theorem length_le_of_nested {start : List Bracket} (room : start.length ≤ 127)
    (nested : tokens.foldlM Token.nest? start = some opened) : opened.length ≤ 127 := by
  induction tokens generalizing start with
  | nil =>
    cases nested
    exact room
  | cons token others ih =>
    rw [List.foldlM_cons] at nested
    obtain ⟨after, stands, nested⟩ := Option.bind_eq_some_iff.mp nested
    refine ih ?_ nested
    -- Only an opening bracket adds to what is open, and it needs room.
    cases token with
    | opening bracket =>
      obtain ⟨more, same⟩ := Option.ite_none_right_eq_some.mp stands
      cases same
      simp only [List.length_cons]
      omega
    | closing bracket =>
      obtain ⟨-, same⟩ := Option.ite_none_right_eq_some.mp stands
      cases same
      simp only [List.length_tail]
      omega
    | _ =>
      cases stands
      exact room

/-- Too many lists are reported exactly where the 128th of them is opened. -/
theorem opensTooMany_iff : OpensTooMany comments input ↔
    ∃ tokens behind opened, Stops comments input [] (some .tooDeeplyNested) tokens behind opened := by
  constructor
  · rintro ⟨tokens, bracket, rest, opened, reads, nested, full⟩
    obtain ⟨middle, front, back⟩ := reads.split
    obtain ⟨after, scanned, -⟩ := back.scan_first
    refine ⟨tokens, middle, opened, front, nested, ?_⟩
    rw [scanned]
    exact .tooDeep bracket after (by omega)
  · rintro ⟨tokens, behind, opened, reads, nested, verdict⟩
    generalize scanned : scan comments (behind.dropWhile isLayout) = place at verdict
    cases verdict with
    | tooDeep bracket rest full =>
      have most : opened.length ≤ 127 := length_le_of_nested (by decide) nested
      exact ⟨tokens, bracket, rest, opened, reads.append (.of_scan scanned (.none rest)), nested, by omega⟩

section Definite

/-- A character that starts no token does so whatever follows it. -/
theorem scan_stray_append (scanned : scan comments input = .stray) (more : List Char) :
    scan comments (input ++ more) = .stray := by
  cases input with
  | nil => cases scanned
  | cons c others =>
    have ends : isSymbolChar c = false := by
      cases symbol : isSymbolChar c with
      | false => rfl
      | true =>
        -- A symbol character starts a number or a symbol.
        unfold scan at scanned
        simp only [takeSymbol?, List.takeWhile_cons, symbol] at scanned
        split at scanned <;> cases scanned
    obtain ⟨noNumber, noSymbol⟩ := takes_nothing_of_runEnds (runEnds_cons.mpr ends : RunEnds _ (c :: others))
    obtain ⟨noNumber', noSymbol'⟩ := takes_nothing_of_runEnds (runEnds_cons.mpr ends : RunEnds _ (c :: (others ++ more)))
    simp only [scan, noNumber, noSymbol] at scanned
    simp only [List.cons_append, scan, noNumber', noSymbol']
    -- The first character alone decides among the signs.
    split at scanned <;> simp_all
    split at scanned <;> cases scanned

/-- A verdict other than that the text is incomplete is on something that is there, and stays when the text goes on. -/
theorem Verdict.stays {kind : ParseError.Kind}
    (verdict : Verdict opened (scan comments (behind.dropWhile isLayout)) (some kind)) (definite : kind ≠ .incomplete) :
    behind ≠ [] ∧ Verdict opened (scan comments ((behind ++ more).dropWhile isLayout)) (some kind) := by
  have present : behind.dropWhile isLayout ≠ [] := by
    intro empty
    rw [scan_eq_finished.mpr empty] at verdict
    cases verdict
    exact definite rfl
  refine ⟨fun empty => present (by rw [empty]; rfl), ?_⟩
  have longer : (behind ++ more).dropWhile isLayout = behind.dropWhile isLayout ++ more := by
    simp [List.dropWhile_append, present]
  rw [longer]
  generalize scanned : scan comments (behind.dropWhile isLayout) = place at verdict
  generalize behind.dropWhile isLayout = here at scanned
  cases verdict with
  | unclosed => exact absurd rfl definite
  | unterminated => exact absurd rfl definite
  | stray =>
    rw [scan_stray_append scanned]
    exact .stray opened
  | @unmatched _ bracket rest other =>
    cases scan_sound scanned with
    | closing =>
      rw [List.cons_append, scan_complete (.closing bracket)]
      exact .unmatched _ other
  | @tooDeep _ bracket rest full =>
    cases scan_sound scanned with
    | opening =>
      rw [List.cons_append, scan_complete (.opening bracket)]
      exact .tooDeep bracket _ full

/-- A text that is refused, and not as incomplete, is refused in the same way when it goes on, unless it ends in a
pending point. -/
theorem Stops.stays {kind : ParseError.Kind} (stops : Stops comments input [] (some kind) tokens behind opened)
    (definite : kind ≠ .incomplete) (noPoint : ¬ PointPending comments input) :
    Stops comments (input ++ more) [] (some kind) tokens (behind ++ more) opened := by
  obtain ⟨present, verdict⟩ := stops.verdict.stays definite
  refine ⟨stops.reads.extend fun token last => ⟨fun empty => absurd empty present, fun point whole => ?_⟩, stops.nested,
    verdict⟩
  -- The last token is a number without a fraction, and all that is left is a point.
  obtain ⟨front, rfl⟩ := List.getLast?_eq_some_iff.mp last
  cases token with
  | number text =>
    have reads := stops.reads
    rw [point] at reads
    have nested := stops.nested
    rw [List.foldlM_append] at nested
    obtain ⟨now, nested, -⟩ := Option.bind_eq_some_iff.mp nested
    exact noPoint ⟨front, text, now, reads, whole, nested⟩
  | _ => cases whole

end Definite

section Completion

/-- The brackets that close some lists are read as that. -/
theorem reads_closing (opened : List Bracket) :
    Reads comments (opened.map Bracket.closing) (opened.map Token.closing) [] := by
  induction opened with
  | nil => exact .none []
  | cons bracket outer ih =>
    have noBlanks : ∀ c ∈ ([] : List Char), isLayout c := by simp
    exact .next noBlanks (.closing bracket) ih

/-- The brackets that close the open lists leave none open. -/
theorem nested_closing (opened : List Bracket) :
    (opened.map Token.closing).foldlM Token.nest? opened = some [] := by
  induction opened with
  | nil => rfl
  | cons bracket outer ih =>
    rw [List.map_cons, List.foldlM_cons]
    simpa [Token.nest?] using ih

/-- A text is accepted when nothing but the missing brackets follows its tokens. -/
theorem accepted_of_closing {source : String} {blanks : List Char} (layout : ∀ c ∈ blanks, isLayout c)
    (reads : Reads comments source.toList tokens (blanks ++ opened.map Bracket.closing))
    (nested : tokens.foldlM Token.nest? [] = some opened) : ∃ tree, parse comments source = .ok tree := by
  have stops : ∃ tokens behind opened, Stops comments source.toList [] none tokens behind opened := by
    cases opened with
    | nil =>
      refine ⟨tokens, _, [], reads, nested, ?_⟩
      rw [List.map_nil, dropWhile_run layout runEnds_nil, scan_eq_finished.mpr rfl]
      exact .accepted
    | cons bracket outer =>
      have closing : Reads comments (blanks ++ (bracket :: outer).map Bracket.closing)
          ((bracket :: outer).map Token.closing) [] := .next layout (.closing bracket) (reads_closing outer)
      refine ⟨_, [], [], reads.append closing, ?_, .accepted⟩
      rw [List.foldlM_append, nested]
      exact nested_closing (bracket :: outer)
  have accepted := refusal?_parse.mpr stops
  cases result : parse comments source with
  | ok tree => exact ⟨tree, rfl⟩
  | error e =>
    rw [result] at accepted
    cases accepted

/-- What is said of a string without an end: a quote stands there, and behind it nothing ends the string. -/
theorem scan_eq_unterminated (scanned : scan comments input = .unterminated) :
    ∃ text, input = '"' :: text ∧ takeStringBody? text = none := by
  unfold scan at scanned
  split at scanned
  · cases scanned
  · split at scanned
    · cases scanned
    · split at scanned <;> try cases scanned
      · split at scanned
        · cases scanned
        · next noEnd => exact ⟨_, rfl, noEnd⟩
      · split at scanned <;> cases scanned

/-- A string without an end can be ended. -/
theorem takeStringBody?_completes {text : List Char} (noEnd : takeStringBody? text = none) :
    ∃ tail body, IsStringBody body ∧ text ++ tail = body ++ ['"'] := by
  -- A backslash at the very end still takes one character.
  fun_induction takeStringBody? text with
  | case1 => exact ⟨['"'], [], .nil, rfl⟩
  | case2 rest => cases noEnd
  | case3 c rest ih =>
    obtain ⟨tail, body, isBody, same⟩ := ih (by simpa using noEnd)
    exact ⟨tail, '\\' :: c :: body, .escape c isBody, by simp [same]⟩
  | case4 c rest noQuote noEscape ih =>
    by_cases backslash : c = '\\'
    · subst backslash
      cases rest with
      | nil => exact ⟨['"', '"'], ['\\', '"'], .escape '"' .nil, rfl⟩
      | cons d others => exact absurd rfl (noEscape d others rfl)
    · obtain ⟨tail, body, isBody, same⟩ := ih (by simpa using noEnd)
      exact ⟨tail, c :: body, .plain (fun quote => noQuote quote) backslash isBody, by simp [same]⟩

/-- A text with only blanks behind its tokens can go on to a program: a new line ends the last token, and the brackets
close what is open. -/
theorem completes_of_layout {source : String} (layout : ∀ c ∈ behind, isLayout c)
    (reads : Reads comments source.toList tokens behind) (nested : tokens.foldlM Token.nest? [] = some opened) :
    ∃ more tree, parse comments (source ++ more) = .ok tree := by
  have longer := reads.extend fun token last =>
    (⟨fun _ => ⟨opened.map Bracket.closing, rfl⟩, fun point whole => by cases layout '.' (by rw [point]; simp)⟩ :
      token.Firm behind _)
  refine ⟨String.ofList ('\n' :: opened.map Bracket.closing), ?_⟩
  refine @accepted_of_closing comments tokens opened _ (behind ++ ['\n']) ?_ ?_ nested
  · intro c member
    rcases List.mem_append.mp member with old | new
    · exact layout c old
    · rw [List.mem_singleton.mp new]
      decide
  · simpa using longer

/-- A text with a string without an end behind its tokens can go on to a program: the string is ended first. -/
theorem completes_of_noEnd {source : String} {blanks text : List Char} (layout : ∀ c ∈ blanks, isLayout c)
    (noEnd : takeStringBody? text = none) (reads : Reads comments source.toList tokens (blanks ++ '"' :: text))
    (nested : tokens.foldlM Token.nest? [] = some opened) :
    ∃ more tree, parse comments (source ++ more) = .ok tree := by
  obtain ⟨tail, body, isBody, same⟩ := takeStringBody?_completes noEnd
  have longer := reads.extend fun token last =>
    (⟨fun empty => by simp at empty, fun point => by
      -- Neither a blank nor a quote is a point.
      cases blanks with
      | nil => cases point
      | cons blank others =>
        obtain ⟨rfl, -⟩ := List.cons.inj point
        cases layout '.' (by simp)⟩ : token.Firm (blanks ++ '"' :: text) (tail ++ opened.map Bracket.closing))
  have takes : TakesToken comments ('"' :: (text ++ tail) ++ opened.map Bracket.closing)
      (.string ('"' :: body ++ ['"'])) (opened.map Bracket.closing) := by
    have takes : TakesToken comments ('"' :: body ++ '"' :: opened.map Bracket.closing) _ _ := .string isBody
    rw [same]
    simpa using takes
  have string : Reads comments (blanks ++ '"' :: text ++ (tail ++ opened.map Bracket.closing))
      [.string ('"' :: body ++ ['"'])] ([] ++ opened.map Bracket.closing) := by
    simpa using Reads.next layout takes (.none _)
  refine ⟨String.ofList (tail ++ opened.map Bracket.closing), ?_⟩
  refine @accepted_of_closing comments (tokens ++ [.string ('"' :: body ++ ['"'])]) opened _ [] (by simp) ?_ ?_
  · simpa using longer.append string
  · rw [List.foldlM_append, nested]
    rfl

/-- A text that is incomplete can go on to a program. -/
theorem Stops.completes {source : String}
    (stops : Stops comments source.toList [] (some .incomplete) tokens behind opened) :
    ∃ more tree, parse comments (source ++ more) = .ok tree := by
  obtain ⟨reads, nested, verdict⟩ := stops
  have layout : ∀ c ∈ behind.takeWhile isLayout, isLayout c := fun c => mem_takeWhile
  have cut : behind.takeWhile isLayout ++ behind.dropWhile isLayout = behind := List.takeWhile_append_dropWhile
  generalize scanned : scan comments (behind.dropWhile isLayout) = place at verdict
  cases verdict with
  | unclosed bracket outer =>
    rw [scan_eq_finished.mp scanned, List.append_nil] at cut
    rw [← cut] at reads
    exact completes_of_layout layout reads nested
  | unterminated =>
    obtain ⟨text, here, noEnd⟩ := scan_eq_unterminated scanned
    rw [← cut, here] at reads
    exact completes_of_noEnd layout noEnd reads nested

/-- A number without a fraction can be given one. -/
theorem IsNumber.add_fraction {text : List Char} (number : IsNumber text) (whole : '.' ∉ text) :
    IsNumber (text ++ ['.', '0']) := by
  obtain ⟨sign, digits, fraction, rfl, form, numeral, fractionForm⟩ := number
  rcases fractionForm with rfl | ⟨others, rfl, -⟩
  · exact ⟨sign, digits, ['.', '0'], by simp, form, numeral, .inr ⟨['0'], rfl, by decide⟩⟩
  · exact absurd (by simp) whole

/-- A text that ends in a pending point can go on to a program. -/
theorem PointPending.completes {source : String} (pending : PointPending comments source.toList) :
    ∃ more tree, parse comments (source ++ more) = .ok tree := by
  obtain ⟨tokens, text, opened, reads, whole, nested⟩ := pending
  obtain ⟨middle, front, back⟩ := reads.split
  -- A zero makes the point a fraction, and the brackets close what is open.
  have longer := front.extend fun token last => (back.firm : token.Firm middle ('0' :: opened.map Bracket.closing))
  have number : Reads comments (middle ++ '0' :: opened.map Bracket.closing) [.number (text ++ ['.', '0'])]
      ([] ++ opened.map Bracket.closing) := by
    cases back with
    | @next blanks here after _ _ _ layout takes later =>
      cases later
      cases takes with
      | number longest ends =>
        have decimal := longest.isNumber.add_fraction whole
        have apart : Apart (opened.map Bracket.closing) := by
          cases opened with
          | nil => exact .nil
          | cons bracket outer => exact runEnds_cons.mpr (by cases bracket <;> decide)
        have takes : TakesToken comments (text ++ ['.', '0'] ++ opened.map Bracket.closing) _ _ :=
          .number (decimal.longestNumber apart) apart.runEnds_symbol
        simpa using Reads.next layout takes (.none _)
  refine ⟨String.ofList ('0' :: opened.map Bracket.closing), ?_⟩
  refine @accepted_of_closing comments (tokens ++ [.number (text ++ ['.', '0'])]) opened _ [] (by simp) ?_ ?_
  · simpa using longer.append number
  · rw [List.foldlM_append, nested]
    rfl

end Completion

/-- A refused text is incomplete only if it can go on to a program; if it is refused for another reason, it can go on to
one exactly when it ends in a pending point. A text is refused as too deeply nested exactly when, from left to right,
a 128th list is opened before anything else is wrong. -/
theorem incomplete_means_extendable (comments : Bool) (source : String) :
    (∀ e, parse comments source = .error e →
      (e.kind = .incomplete → ∃ more tree, parse comments (source ++ more) = .ok tree) ∧
      (e.kind ≠ .incomplete →
        ((∃ more tree, parse comments (source ++ more) = .ok tree) ↔ PointPending comments source.toList))) ∧
    ((∃ e, parse comments source = .error e ∧ e.kind = .tooDeeplyNested) ↔ OpensTooMany comments source.toList) := by
  refine ⟨fun e refused => ?_, ?_⟩
  · obtain ⟨tokens, behind, opened, stops⟩ := (refusal?_parse.mp (congrArg refusal? refused) : ∃ _ _ _, Stops ..)
    refine ⟨fun incomplete => ?_, fun definite => ⟨?_, PointPending.completes⟩⟩
    · rw [refusal?, incomplete] at stops
      exact stops.completes
    · rintro ⟨more, tree, accepted⟩
      by_cases pending : PointPending comments source.toList
      · exact pending
      · have still : Stops comments (source.toList ++ more.toList) [] (some e.kind) tokens (behind ++ more.toList) opened :=
          stops.stays definite pending
        rw [← String.toList_append] at still
        have refused := refusal?_parse.mpr ⟨_, _, _, still⟩
        rw [accepted] at refused
        cases refused
  · rw [opensTooMany_iff, ← refusal?_parse]
    cases parse comments source <;> simp [refusal?]

/-- A list that ends behind the point of a number is no valid text, and yet it can go on to a program. -/
theorem incomplete_means_extendable_point : PointPending true "(1.".toList ∧
    ∃ e, parse true "(1." = .error e ∧ e.kind = .invalidSyntax ∧
      ∃ more tree, parse true ("(1." ++ more) = .ok tree := by
  have last : Reads true ['1', '.'] [.number ['1']] ['.'] := .of_scan rfl (.none ['.'])
  have pending : PointPending true "(1.".toList :=
    ⟨[.opening .round], ['1'], [.round], .of_scan rfl last, by decide, rfl⟩
  have kind : refusal? (parse true "(1.") = some .invalidSyntax := by
    rw [refusal?_parse_eq]
    decide
  cases refused : parse true "(1." with
  | ok tree => simp [refused, refusal?] at kind
  | error e =>
    have invalid : e.kind = .invalidSyntax := by simpa [refused, refusal?] using kind
    have definite : e.kind ≠ .incomplete := by simp [invalid]
    exact ⟨pending, e, rfl, invalid, (((incomplete_means_extendable true "(1.").1 e refused).2 definite).mpr pending⟩

end QuoteLisp
