import QuoteLisp.Proofs.Source.Continuation

/-! Where the reading of a text stops, and what the parser says there: every verdict follows from the tokens before one
place, the brackets they leave open, and what stands at the place. -/

namespace QuoteLisp

variable {comments : Bool} {input behind rest : List Char}

/-- The brackets that are open behind a token, innermost first; none where the token cannot stand, since 127 lists are
open already or the innermost one has a bracket of the other kind. -/
def Token.nest? (opened : List Bracket) : Token → Option (List Bracket)
  | opening bracket => if opened.length < 127 then some (bracket :: opened) else none
  | closing bracket => if opened.head? = some bracket then some opened.tail else none
  | _ => some opened

/-- The class of refusal for what stands at a place where some brackets are open; none where the text is accepted. -/
inductive Verdict : List Bracket → Scan → Option ParseError.Kind → Prop where
  | accepted : Verdict [] .finished none
  | unclosed (bracket : Bracket) (outer : List Bracket) : Verdict (bracket :: outer) .finished (some .incomplete)
  | unterminated (opened : List Bracket) : Verdict opened .unterminated (some .incomplete)
  | stray (opened : List Bracket) : Verdict opened .stray (some .invalidSyntax)
  | unmatched {opened : List Bracket} {bracket : Bracket} (rest : List Char) (other : opened.head? ≠ some bracket) :
    Verdict opened (.token (.closing bracket) rest) (some .invalidSyntax)
  | tooDeep {opened : List Bracket} (bracket : Bracket) (rest : List Char) (full : ¬ opened.length < 127) :
    Verdict opened (.token (.opening bracket) rest) (some .tooDeeplyNested)

/-- The reading of a text stops behind some tokens that leave some brackets open, with the verdict on what stands
there. -/
structure Stops (comments : Bool) (input : List Char) (start : List Bracket) (kind : Option ParseError.Kind)
    (tokens : List Token) (behind : List Char) (opened : List Bracket) : Prop where
  reads : Reads comments input tokens behind
  nested : tokens.foldlM Token.nest? start = some opened
  verdict : Verdict opened (scan comments (behind.dropWhile isLayout)) kind

/-- The class under which a text was refused; none when it was accepted. -/
def refusal? : Except ParseError Node → Option ParseError.Kind
  | .ok _ => none
  | .error e => some e.kind

/-- The class of the fault that ended the assembly of tokens, if one did. -/
def faultKind? : Except Misfit (List Node) → Option ParseError.Kind
  | .ok _ => none
  | .error misfit => some misfit.fault.kind

/-- A token that gets a verdict cannot stand where it does. -/
theorem Verdict.nest?_eq_none {opened : List Bracket} {token : Token} {kind : Option ParseError.Kind}
    (verdict : Verdict opened (.token token rest) kind) : token.nest? opened = none := by
  cases verdict with
  | unmatched _ other => simp [Token.nest?, other]
  | tooDeep _ _ full => simp [Token.nest?, full]

/-- There is one verdict on a place. -/
theorem Verdict.unique {opened : List Bracket} {place : Scan} {kind kind' : Option ParseError.Kind}
    (verdict : Verdict opened place kind) (verdict' : Verdict opened place kind') : kind = kind' := by
  cases verdict <;> cases verdict' <;> rfl

namespace Reads

variable {token : Token} {tokens : List Token}

/-- The first token of a text is what the scanner finds behind the blanks. -/
theorem scan_first (reads : Reads comments input (token :: tokens) rest) :
    ∃ behind, scan comments (input.dropWhile isLayout) = .token token behind ∧ Reads comments behind tokens rest := by
  cases reads with
  | next layout takes later =>
    rw [dropWhile_run layout takes.runEnds]
    exact ⟨_, scan_complete takes, later⟩

/-- What the scanner finds behind the blanks is the first token of a text. -/
theorem of_scan (scanned : scan comments (input.dropWhile isLayout) = .token token behind)
    (later : Reads comments behind tokens rest) : Reads comments input (token :: tokens) rest := by
  have layout : ∀ c ∈ input.takeWhile isLayout, isLayout c := fun c => mem_takeWhile
  have reads := Reads.next layout (scan_sound scanned) later
  rwa [List.takeWhile_append_dropWhile] at reads

end Reads

/-- The reading of a text stops in one way. -/
theorem Stops.unique {start opened opened' : List Bracket} {kind kind' : Option ParseError.Kind}
    {tokens tokens' : List Token} {behind' : List Char} (stops : Stops comments input start kind tokens behind opened)
    (stops' : Stops comments input start kind' tokens' behind' opened') : kind = kind' := by
  -- Both go through the same tokens, and neither can go on where the other one has its verdict.
  induction tokens generalizing input start tokens' with
  | nil =>
    obtain ⟨reads, nested, verdict⟩ := stops
    cases reads
    cases nested
    cases tokens' with
    | nil =>
      obtain ⟨reads', nested', verdict'⟩ := stops'
      cases reads'
      cases nested'
      exact verdict.unique verdict'
    | cons token others =>
      obtain ⟨behind, scanned, -⟩ := stops'.reads.scan_first
      rw [scanned] at verdict
      have nested' := stops'.nested
      rw [List.foldlM_cons, verdict.nest?_eq_none] at nested'
      cases nested'
  | cons token others ih =>
    obtain ⟨next, scanned, later⟩ := stops.reads.scan_first
    have nested := stops.nested
    rw [List.foldlM_cons] at nested
    obtain ⟨after, stands, nested⟩ := Option.bind_eq_some_iff.mp nested
    cases tokens' with
    | nil =>
      obtain ⟨reads', nested', verdict'⟩ := stops'
      cases reads'
      cases nested'
      rw [scanned] at verdict'
      rw [verdict'.nest?_eq_none] at stands
      cases stands
    | cons token' others' =>
      obtain ⟨next', scanned', later'⟩ := stops'.reads.scan_first
      rw [scanned] at scanned'
      cases scanned'
      have nested' := stops'.nested
      rw [List.foldlM_cons, stands] at nested'
      exact ih ⟨later, nested, stops.verdict⟩ ⟨later', nested', stops'.verdict⟩

section Assembly

variable {ending : Ending} {opened : List OpenList} {nodes : List Node}

/-- Where too many lists are open, that is the fault, whatever follows. -/
theorem faultKind?_assemble_deep (deep : maxListDepth ≤ opened.length) (lexemes : List Lexeme) :
    faultKind? (assemble ending rest opened nodes lexemes) = some .tooDeeplyNested := by
  cases lexemes <;> simp [assemble, deep, faultKind?, ParseFault.kind]

/-- A place where something stands that does not fit is a syntax fault. -/
theorem kind_misfitAt {c : Char} {others : List Char} :
    (misfitAt opened (c :: others)).fault.kind = .invalidSyntax := by
  cases opened <;> rfl

/-- As many open lists as a token may stand in are not too many. -/
theorem not_deep (room : opened.length ≤ 127) : ¬ maxListDepth ≤ opened.length := by
  unfold maxListDepth
  omega

/-- At the end of a text, the verdict is on the lists that are still open. -/
theorem verdict_at_end (room : opened.length ≤ 127) :
    Verdict (opened.map (·.bracket)) .finished (faultKind? (assemble .finished [] opened nodes [])) := by
  have shallow := not_deep room
  simp only [assemble, if_neg shallow]
  cases opened with
  | nil => exact .accepted
  | cons innermost outer => exact .unclosed _ _

/-- A token can stand where it does, and the assembly goes on behind it; or the verdict is on this token. -/
theorem assemble_token {c : Char} {others : List Char} (token : Token) (lexemes : List Lexeme)
    (room : opened.length ≤ 127) :
    (∃ opened' nodes', token.nest? (opened.map (·.bracket)) = some (opened'.map (·.bracket)) ∧ opened'.length ≤ 127 ∧
      assemble ending rest opened nodes (⟨token, c :: others⟩ :: lexemes) =
        assemble ending rest opened' nodes' lexemes) ∨
    ∀ behind, Verdict (opened.map (·.bracket)) (.token token behind)
      (faultKind? (assemble ending rest opened nodes (⟨token, c :: others⟩ :: lexemes))) := by
  have shallow := not_deep room
  simp only [assemble, if_neg shallow]
  cases token with
  | number text => exact .inl ⟨opened, _, rfl, room, rfl⟩
  | symbol text => exact .inl ⟨opened, _, rfl, room, rfl⟩
  | string text => exact .inl ⟨opened, _, rfl, room, rfl⟩
  | comment text => exact .inl ⟨opened, _, rfl, room, rfl⟩
  | opening bracket =>
    by_cases more : opened.length < 127
    · exact .inl ⟨⟨bracket, nodes⟩ :: opened, [], by simp [Token.nest?, more], more, rfl⟩
    · -- The list is counted before anything in it is looked at.
      have deep : maxListDepth ≤ (⟨bracket, nodes⟩ :: opened : List OpenList).length := by
        simp only [List.length_cons, maxListDepth]
        omega
      refine .inr fun behind => ?_
      simp only
      rw [faultKind?_assemble_deep deep]
      exact .tooDeep bracket behind (by simpa using more)
  | closing bracket =>
    cases opened with
    | nil => exact .inr fun behind => .unmatched behind (by simp)
    | cons innermost outer =>
      rw [List.length_cons] at room
      by_cases matching : innermost.bracket = bracket
      · exact .inl ⟨outer, bracket.node nodes.reverse :: innermost.before, by simp [Token.nest?, matching], by omega,
          if_pos matching⟩
      · refine .inr fun behind => ?_
        simp only [if_neg matching, faultKind?]
        rw [kind_misfitAt]
        exact .unmatched behind (by simpa using matching)

/-- The assembly of a text stops where its tokens cannot go on, with the verdict on that place. -/
theorem assemble_stops {bound : Nat} (fits : input.length ≤ bound) (room : opened.length ≤ 127) :
    ∃ tokens behind now, Stops comments input (opened.map (·.bracket))
      (faultKind? (assemble (lexWithin comments bound input).ending (lexWithin comments bound input).rest opened nodes
        (lexWithin comments bound input).lexemes)) tokens behind now := by
  -- By induction on the bound, along the tokens; the lists that are open are carried from one token to the next.
  induction bound generalizing input opened nodes with
  | zero =>
    obtain rfl : input = [] := List.length_eq_zero_iff.mp (by omega)
    exact ⟨[], [], _, .none [], rfl, verdict_at_end room⟩
  | succ bound ih =>
    -- What the scanner finds behind the blanks decides how the text goes on.
    have here : ∀ {kind}, Verdict (opened.map (·.bracket)) (scan comments (input.dropWhile isLayout)) kind →
        ∃ tokens behind now, Stops comments input (opened.map (·.bracket)) kind tokens behind now := fun verdict =>
      ⟨[], input, _, .none input, rfl, verdict⟩
    have shallow := not_deep room
    simp only [lexWithin]
    cases scanned : scan comments (input.dropWhile isLayout) with
    | finished =>
      rw [scanned] at here
      rw [scan_eq_finished.mp scanned]
      exact here (verdict_at_end room)
    | unterminated =>
      rw [scanned] at here
      apply here
      simp only [assemble, if_neg shallow]
      exact .unterminated _
    | stray =>
      rw [scanned] at here
      apply here
      simp only [assemble, if_neg shallow]
      -- At the end of a text there is nothing stray.
      obtain ⟨c, others, same⟩ : ∃ c others, input.dropWhile isLayout = c :: others := by
        refine List.exists_cons_of_ne_nil fun empty => ?_
        rw [scan_eq_finished.mpr empty] at scanned
        cases scanned
      rw [same, faultKind?, kind_misfitAt]
      exact .stray _
    | token token rest =>
      obtain ⟨c, others, same, -, shorter⟩ := (scan_sound scanned).starts
      have fits : rest.length ≤ bound := by
        have dropped : (input.dropWhile isLayout).length ≤ input.length := (List.dropWhile_sublist _).length_le
        rw [same, List.length_cons] at dropped
        omega
      simp only
      rw [same]
      rcases assemble_token token (lexWithin comments bound rest).lexemes room with
        ⟨opened', nodes', stands, room', goesOn⟩ | verdict
      · obtain ⟨tokens, behind, now, reads, nested, verdict⟩ := @ih rest opened' nodes' fits room'
        rw [goesOn]
        refine ⟨token :: tokens, behind, now, .of_scan scanned reads, ?_, verdict⟩
        rw [List.foldlM_cons, stands]
        exact nested
      · rw [scanned] at here
        exact here (verdict rest)

end Assembly

/-- A text is refused for the fault that ends the assembly of its tokens. -/
theorem refusal?_parse_eq (comments : Bool) (source : String) :
    refusal? (parse comments source) =
      faultKind? (assemble (lex comments source.toList).ending (lex comments source.toList).rest [] []
        (lex comments source.toList).lexemes) := by
  rw [← parseNodes_eq_assemble, parse]
  cases parseNodes comments source.toList <;> rfl

/-- The verdict of the parser is the one on the place where the reading of the text stops. -/
theorem refusal?_parse {source : String} {kind : Option ParseError.Kind} :
    refusal? (parse comments source) = kind ↔
      ∃ tokens behind opened, Stops comments source.toList [] kind tokens behind opened := by
  have stops : ∃ tokens behind opened,
      Stops comments source.toList [] (refusal? (parse comments source)) tokens behind opened := by
    rw [refusal?_parse_eq]
    exact @assemble_stops comments source.toList [] [] _ (Nat.le_refl _) (by decide)
  constructor
  · rintro rfl
    exact stops
  · rintro ⟨tokens, behind, opened, stops'⟩
    obtain ⟨_, _, _, stops⟩ := stops
    exact stops.unique stops'

end QuoteLisp
