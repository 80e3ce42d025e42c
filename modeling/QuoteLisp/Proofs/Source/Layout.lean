import QuoteLisp.Proofs.Source.Extension

/-! Layout carries no meaning: blanks and comments may be put between any two tokens of a program, and the program that is
read stays the same.

A token that ends where something else starts ends there too when layout comes between.
The one exception is a comment, which takes up what is put right behind it, and is left out by the reader all the same. -/

namespace QuoteLisp

variable {H : Type} {comments : Bool} {input rest front back filler : List Char} {tokens : List Token}

/-- Whether a token is a comment. -/
def Token.isComment : Token → Bool
  | comment _ => true
  | _ => false

/-- The tokens that are no comments. -/
def uncommented (tokens : List Token) : List Token :=
  tokens.filter (!·.isComment)

/-- What may be put between tokens: blanks, or a comment with the end of its line. -/
inductive IsFiller : List Char → Prop where
  | blanks {filler : List Char} (layout : ∀ c ∈ filler, isLayout c) : IsFiller filler
  | comment {text : List Char} (inside : ∀ c ∈ text, isCommentChar c) : IsFiller (';' :: text ++ ['\n'])

/-- A place between two tokens of a text, or at one of its ends: some tokens have been taken before it, and then only
blanks. -/
def BetweenTokens (front back : List Char) : Prop :=
  ∃ tokens blanks, (∀ c ∈ blanks, isLayout c) ∧ Reads true (front ++ back) tokens (blanks ++ back)

/-- Whether a token ends before a text: a number or symbol where neither goes on, a comment at the end of its line, and
every other token anywhere. -/
def Token.Ends (rest : List Char) : Token → Prop
  | number _ => Apart rest
  | symbol _ => Apart rest
  | comment _ => RunEnds isCommentChar rest
  | _ => True

section Ends

variable {token : Token}

/-- Only the first character of what follows decides whether a token ends. -/
theorem Token.Ends.of_head {rest' : List Char} (ends : token.Ends rest) (same : rest'.head? = rest.head?) :
    token.Ends rest' := by
  cases token with
  | number text => exact fun c first => ends c (same ▸ first)
  | symbol text => exact fun c first => ends c (same ▸ first)
  | comment text => exact fun c first => ends c (same ▸ first)
  | _ => trivial

/-- No accepted text starts with a point. -/
theorem Tokenizes.no_point (tokenizes : Tokenizes comments input tokens) : input.head? ≠ some '.' := by
  -- A point is no blank, and no token starts with one.
  intro point
  obtain ⟨others, rfl⟩ := List.head?_eq_some_iff.mp point
  obtain ⟨finished, -⟩ := tokenizes_iff_lex.mp tokenizes
  cases finished

/-- In an accepted text every token ends where it is followed by another one, by blanks or by nothing. -/
theorem TakesToken.ends (takes : TakesToken comments input token rest) (tokenizes : Tokenizes comments rest tokens) :
    token.Ends rest := by
  -- What the grammar does not ask for is that no point follows, and an accepted text starts with none.
  have apart : RunEnds isSymbolChar rest → Apart rest := by
    intro ends c first
    have noPoint : c ≠ '.' := by
      rintro rfl
      exact tokenizes.no_point first
    simp [ends c first, noPoint]
  cases takes with
  | number longest ends => exact apart ends
  | symbol nonempty inside ends noNumber => exact apart ends
  | comment allowed inside ends => exact ends
  | _ => trivial

/-- A token is taken from the front of a text as it is written there. -/
theorem TakesToken.text_append (takes : TakesToken comments input token rest) : input = token.text ++ rest := by
  cases takes with
  | string isBody => simp [Token.text]
  | _ => rfl

/-- A token that ends before one text is the same token before every other one before which it ends. -/
theorem TakesToken.before {rest' : List Char} (takes : TakesToken comments input token rest) (ends : token.Ends rest)
    (ends' : token.Ends rest') : TakesToken comments (token.text ++ rest') token rest' := by
  cases takes with
  | number longest => exact .number (longest.isNumber.longestNumber ends') (Apart.runEnds_symbol ends')
  | @symbol text _ nonempty inside _ noNumber =>
    have apart : Apart rest := ends
    have apart' : Apart rest' := ends'
    -- A whole number would have been taken as that.
    have isName : IsSymbolName text := ⟨nonempty, inside, fun whole =>
      noNumber text rest rfl (whole.isNumber.longestNumber apart) apart.runEnds_symbol⟩
    exact .symbol nonempty inside apart'.runEnds_symbol fun _ _ => isName.no_number apart'
  | @string body _ isBody =>
    have literal : TakesToken comments ('"' :: body ++ '"' :: rest') _ rest' := .string isBody
    simpa [Token.text] using literal
  | comment allowed inside => exact .comment allowed inside ends'
  | opening bracket => exact .opening bracket
  | closing bracket => exact .closing bracket

end Ends

section Blanks

/-- A blank at the front of a text is no part of its tokens. -/
theorem Tokenizes.of_blank {c : Char} (layout : isLayout c) (tokenizes : Tokenizes comments (c :: rest) tokens) :
    Tokenizes comments rest tokens := by
  generalize whole : c :: rest = text at tokenizes
  cases tokenizes with
  | done others =>
    subst whole
    exact .done fun d member => others d (List.mem_cons_of_mem c member)
  | @next blanks here _ _ _ others takes later =>
    cases blanks with
    | nil =>
      -- No token starts with a blank.
      obtain ⟨first, behind, rfl, noBlank, -⟩ := takes.starts
      obtain ⟨rfl, -⟩ := List.cons.inj whole
      rw [layout] at noBlank
      cases noBlank
    | cons blank blanks =>
      obtain ⟨-, rfl⟩ := List.cons.inj whole
      exact .next (fun d member => others d (List.mem_cons_of_mem blank member)) takes later

/-- Blanks at the front of a text are no part of its tokens. -/
theorem Tokenizes.of_blanks {blanks : List Char} (layout : ∀ c ∈ blanks, isLayout c)
    (tokenizes : Tokenizes comments (blanks ++ rest) tokens) : Tokenizes comments rest tokens := by
  induction blanks with
  | nil => exact tokenizes
  | cons c others ih => exact ih (fun d member => layout d (by simp [member])) (tokenizes.of_blank (layout c (by simp)))

/-- A text whose first token is known consists of that token and the tokens of the rest. -/
theorem TakesToken.tokenizes_rest {token : Token} (takes : TakesToken comments input token rest)
    (tokenizes : Tokenizes comments input tokens) : ∃ others, tokens = token :: others ∧ Tokenizes comments rest others := by
  obtain ⟨first, behind, form, noBlank, -⟩ := takes.starts
  cases tokenizes with
  | done layout =>
    rw [layout first (by simp [form])] at noBlank
    cases noBlank
  | @next blanks here _ _ _ layout takes' later =>
    -- The scanner finds one token only.
    have start := dropWhile_run layout takes'.runEnds
    have noBlanks : ∀ c ∈ ([] : List Char), isLayout c := by simp
    have start' : blanks ++ here = here := (dropWhile_run noBlanks takes.runEnds).symm.trans start
    have scanned := scan_complete takes
    rw [start', scan_complete takes'] at scanned
    cases scanned
    exact ⟨_, rfl, later⟩

/-- What is left behind the first tokens of a text has the other tokens. -/
theorem Reads.tokenizes_rest {whole : List Token} (reads : Reads comments input tokens rest)
    (tokenizes : Tokenizes comments input whole) : ∃ others, whole = tokens ++ others ∧ Tokenizes comments rest others := by
  induction reads generalizing whole with
  | none rest => exact ⟨whole, rfl, tokenizes⟩
  | next layout takes _ ih =>
    obtain ⟨others, rfl, later⟩ := takes.tokenizes_rest (tokenizes.of_blanks layout)
    obtain ⟨others, rfl, last⟩ := ih later
    exact ⟨others, rfl, last⟩

end Blanks

section Insertion

/-- A filler ends a number or a symbol that ends without it. -/
theorem IsFiller.apart (isFiller : IsFiller filler) (apart : Apart back) : Apart (filler ++ back) := by
  cases isFiller with
  | blanks layout =>
    cases filler with
    | nil => exact apart
    | cons c others => exact .of_isLayout (layout c (by simp)) _
  | comment inside => exact runEnds_cons.mpr (by decide)

/-- A filler adds no token but a comment. -/
theorem IsFiller.tokenizes (isFiller : IsFiller filler) (later : Tokenizes true back tokens) :
    ∃ longer, Tokenizes true (filler ++ back) longer ∧ uncommented longer = uncommented tokens := by
  -- The line end of a comment is one of the blanks before what follows.
  cases isFiller with
  | blanks layout => exact ⟨tokens, later.blanks layout, rfl⟩
  | @comment text inside =>
    have ends : RunEnds isCommentChar ('\n' :: back) := runEnds_cons.mpr (by decide)
    have longer := Tokenizes.front (.comment rfl inside ends) (later.blank (by decide : isLayout '\n'))
    exact ⟨.comment (';' :: text) :: tokens, by simpa using longer, rfl⟩

/-- A filler right behind a comment goes on with the comment up to the end of a line, and then there are only blanks. -/
theorem IsFiller.behind_comment (isFiller : IsFiller filler) (ends : RunEnds isCommentChar back) :
    ∃ line blanks, filler = line ++ blanks ∧ (∀ c ∈ line, isCommentChar c) ∧ (∀ c ∈ blanks, isLayout c) ∧
      RunEnds isCommentChar (blanks ++ back) := by
  -- Spaces and tabs are part of the comment, and so is another semicolon.
  cases isFiller with
  | blanks layout =>
    refine ⟨filler.takeWhile isCommentChar, filler.dropWhile isCommentChar, List.takeWhile_append_dropWhile.symm,
      fun c => mem_takeWhile, fun c member => layout c ((List.dropWhile_sublist _).mem member), ?_⟩
    have stops := runEnds_dropWhile isCommentChar filler
    generalize filler.dropWhile isCommentChar = blanks at stops
    cases blanks with
    | nil => exact ends
    | cons c others => exact runEnds_cons.mpr (runEnds_cons.mp stops)
  | @comment text inside =>
    have first : isCommentChar ';' := by decide
    have last : isLayout '\n' := by decide
    exact ⟨';' :: text, ['\n'], rfl, by simpa using ⟨first, inside⟩, by simpa using last, runEnds_cons.mpr (by decide)⟩

/-- A filler that is put somewhere behind a token leaves the token as it is, or makes a comment longer. -/
theorem TakesToken.insert {token : Token} {left : List Char} {longer : List Token} (isFiller : IsFiller filler)
    (takes : TakesToken true input token (left ++ back)) (tokenizes : Tokenizes true (left ++ back) tokens)
    (behind : Tokenizes true (left ++ filler ++ back) longer) (same : uncommented longer = uncommented tokens) :
    ∃ whole, Tokenizes true (token.text ++ (left ++ filler ++ back)) whole ∧
      uncommented whole = uncommented (token :: tokens) := by
  have ends := takes.ends tokenizes
  -- Unless a comment is followed by the filler, the token ends where it did.
  have stays : token.Ends (left ++ filler ++ back) → ∃ whole,
      Tokenizes true (token.text ++ (left ++ filler ++ back)) whole ∧ uncommented whole = uncommented (token :: tokens) := by
    intro ends'
    refine ⟨token :: longer, .front (takes.before ends ends') behind, ?_⟩
    simp only [uncommented, List.filter_cons] at same ⊢
    rw [same]
  cases left with
  | cons c others => exact stays (ends.of_head rfl)
  | nil =>
    cases takes with
    | number => exact stays (isFiller.apart ends)
    | symbol => exact stays (isFiller.apart ends)
    | @comment text _ allowed inside stops =>
      obtain ⟨line, blanks, rfl, goesOn, layout, stops'⟩ := isFiller.behind_comment ends
      have inside' : ∀ c ∈ text ++ line, isCommentChar c := fun c member =>
        (List.mem_append.mp member).elim (inside c) (goesOn c)
      have whole := Tokenizes.front (.comment allowed inside' stops') (.blanks layout tokenizes)
      exact ⟨.comment (';' :: (text ++ line)) :: tokens, by simpa [Token.text] using whole, rfl⟩
    | _ => exact stays trivial

/-- A filler that is put behind some tokens of a text, with only blanks in between, adds or changes nothing but
comments. -/
theorem Reads.insert {blanks : List Char} {others : List Token} (isFiller : IsFiller filler)
    (layout : ∀ c ∈ blanks, isLayout c) (later : Tokenizes true back others)
    (reads : Reads true input tokens (blanks ++ back)) :
    ∃ read whole, input = read ++ blanks ++ back ∧ Tokenizes true (read ++ blanks ++ filler ++ back) whole ∧
      uncommented whole = uncommented (tokens ++ others) := by
  -- By induction on the tokens before the filler, the last of which is the first to be looked at.
  generalize behind : blanks ++ back = rest at reads
  induction reads with
  | none rest =>
    subst behind
    obtain ⟨longer, tokenizes, same⟩ := isFiller.tokenizes later
    exact ⟨[], longer, rfl, by simpa using tokenizes.blanks layout, same⟩
  | @next first here middle rest token tokens layout' takes reads ih =>
    obtain ⟨read, longer, rfl, tokenizes, same⟩ := ih behind
    subst behind
    have unchanged := reads.tokenizes (later.blanks layout)
    obtain ⟨whole, inserted, same⟩ := takes.insert isFiller unchanged tokenizes same
    refine ⟨first ++ token.text ++ read, whole, ?_, ?_, same⟩
    · rw [takes.text_append]
      simp only [List.append_assoc]
    · simpa only [List.append_assoc] using inserted.blanks layout'

end Insertion

section Reading

/-- Comments before tokens add nothing that is read. -/
theorem Spells.behind_comments {depth : Nat} {nodes : List Node} {trivia : List Token}
    (onlyComments : ∀ token ∈ trivia, ¬ (!token.isComment) = true) (spells : Spells depth tokens nodes) :
    ∃ nodes', Spells depth (trivia ++ tokens) nodes' ∧ (readAll nodes' : List (Value H)) = readAll nodes := by
  -- Each comment is a leaf of its own, which the reader passes over.
  induction trivia with
  | nil => exact ⟨nodes, spells, rfl⟩
  | cons token others ih =>
    obtain ⟨nodes', spelled, same⟩ := ih fun other member => onlyComments other (List.mem_cons_of_mem token member)
    cases token with
    | comment text => exact ⟨.leaf .comment text :: nodes', .atom rfl spelled, same⟩
    | _ => exact absurd rfl (onlyComments _ List.mem_cons_self)

/-- Tokens that differ in their comments only are read as the same values, and the nesting is the same. -/
theorem Spells.of_uncommented {depth : Nat} {nodes : List Node} {tokens' : List Token}
    (spells : Spells depth tokens nodes) (same : uncommented tokens' = uncommented tokens) :
    ∃ nodes', Spells depth tokens' nodes' ∧ (readAll nodes' : List (Value H)) = readAll nodes := by
  -- By induction on how the tokens spell the nodes; each token is found again behind some comments.
  induction spells generalizing tokens' with
  | @nil depth =>
    have spelled := Spells.behind_comments (H := H) (List.filter_eq_nil_iff.mp same) (@Spells.nil depth)
    rwa [List.append_nil] at spelled
  | @atom depth token rule tokens nodes isAtom later ih =>
    cases kind : token.isComment with
    | true =>
      obtain ⟨nodes', spelled, reads⟩ := ih (by simpa [uncommented, kind] using same)
      cases token with
      | comment text =>
        cases isAtom
        exact ⟨nodes', spelled, reads⟩
      | _ => cases kind
    | false =>
      have found : uncommented tokens' = token :: uncommented tokens := by simpa [uncommented, kind] using same
      obtain ⟨trivia, behind, rfl, onlyComments, -, same⟩ := List.filter_eq_cons_iff.mp found
      obtain ⟨nodes', spelled, reads⟩ := ih same
      obtain ⟨whole, spelled, sameReads⟩ := Spells.behind_comments (H := H) onlyComments (.atom isAtom spelled)
      refine ⟨whole, spelled, sameReads.trans ?_⟩
      simp only [readAll, reads]
  | @list depth bracket inside tokens items nodes inner later innerIh laterIh =>
    have found : uncommented tokens' =
        .opening bracket :: (uncommented inside ++ .closing bracket :: uncommented tokens) := by
      simpa [uncommented, Token.isComment] using same
    obtain ⟨trivia, behind, rfl, onlyComments, -, same⟩ := List.filter_eq_cons_iff.mp found
    obtain ⟨inside', behind, rfl, sameInside, same⟩ := List.filter_eq_append_iff.mp same
    -- Comments before the closing bracket belong to the list.
    obtain ⟨trivia', behind, rfl, onlyComments', -, same⟩ := List.filter_eq_cons_iff.mp same
    have sameInside : uncommented (inside' ++ trivia') = uncommented inside := by
      rw [uncommented, List.filter_append, sameInside, List.filter_eq_nil_iff.mpr onlyComments', List.append_nil]
    obtain ⟨items', spelledInside, readsInside⟩ := innerIh sameInside
    obtain ⟨nodes', spelled, reads⟩ := laterIh same
    obtain ⟨whole, spelled, sameReads⟩ :=
      Spells.behind_comments (H := H) onlyComments (@Spells.list depth bracket _ _ _ _ spelledInside spelled)
    refine ⟨whole, by simpa using spelled, sameReads.trans ?_⟩
    have node : ((bracket.node items').read : Value H) = (bracket.node items).read := by
      rw [read_node, read_node, readsInside]
    change (readAll (bracket.node items' :: nodes') : List (Value H)) = readAll (bracket.node items :: nodes)
    simp only [readAll, not_isTrivia_node, node, reads]

end Reading

section Allowance

/-- Where comments are not allowed, the other tokens are taken as before, and no comment is. -/
theorem takesToken_false {token : Token} :
    TakesToken false input token rest ↔ TakesToken true input token rest ∧ token.isComment = false := by
  -- Only the rule for comments asks whether they are allowed.
  constructor
  · intro takes
    cases takes with
    | number longest ends => exact ⟨.number longest ends, rfl⟩
    | symbol nonempty inside ends noNumber => exact ⟨.symbol nonempty inside ends noNumber, rfl⟩
    | string isBody => exact ⟨.string isBody, rfl⟩
    | comment allowed => cases allowed
    | opening bracket => exact ⟨.opening bracket, rfl⟩
    | closing bracket => exact ⟨.closing bracket, rfl⟩
  · rintro ⟨takes, noComment⟩
    cases takes with
    | number longest ends => exact .number longest ends
    | symbol nonempty inside ends noNumber => exact .symbol nonempty inside ends noNumber
    | string isBody => exact .string isBody
    | comment => cases noComment
    | opening bracket => exact .opening bracket
    | closing bracket => exact .closing bracket

/-- Where comments are not allowed, the texts that have none have the same tokens, and no other text has any. -/
theorem tokenizes_false : Tokenizes false input tokens ↔
    Tokenizes true input tokens ∧ ∀ token ∈ tokens, token.isComment = false := by
  constructor
  · intro tokenizes
    induction tokenizes with
    | done layout => exact ⟨.done layout, by simp⟩
    | next layout takes _ ih =>
      obtain ⟨takes, noComment⟩ := takesToken_false.mp takes
      exact ⟨.next layout takes ih.1, List.forall_mem_cons.mpr ⟨noComment, ih.2⟩⟩
  · rintro ⟨tokenizes, noComments⟩
    induction tokenizes with
    | done layout => exact .done layout
    | next layout takes _ ih =>
      obtain ⟨noComment, others⟩ := List.forall_mem_cons.mp noComments
      exact .next layout (takesToken_false.mpr ⟨takes, noComment⟩) (ih others)

/-- No comment is among some trees or inside them. -/
def NoComments (level : Nat) (nodes : List Node) : Prop :=
  ∀ entry ∈ Node.preorderAll level nodes, entry.2.hasRule .comment = false

variable {depth level : Nat} {nodes : List Node}

/-- No comment is among no trees. -/
theorem noComments_nil : NoComments level [] := by
  simp [NoComments, Node.preorderAll]

/-- A row of trees has no comment when the first tree is none, has none inside, and the others have none. -/
theorem noComments_cons {rules : List Rule} {contents : String} {children : List Node} :
    NoComments level (.mk rules contents children :: nodes) ↔
      rules.contains .comment = false ∧ NoComments (level + 1) children ∧ NoComments level nodes := by
  simp only [NoComments, Node.preorderAll, Node.preorder, List.cons_append, List.forall_mem_cons, List.forall_mem_append]
  rfl

/-- Trees one after the other have no comment when neither the ones nor the others have one. -/
theorem noComments_append {more : List Node} :
    NoComments level (nodes ++ more) ↔ NoComments level nodes ∧ NoComments level more := by
  induction nodes with
  | nil => simp [noComments_nil]
  | cons node others ih =>
    obtain ⟨rules, contents, children⟩ := node
    rw [List.cons_append, noComments_cons, noComments_cons, ih, and_assoc, and_assoc]

/-- A leaf of any rule but that of comments is no comment. -/
theorem noComments_leaf {rule : Rule} {text : List Char} :
    NoComments level (.leaf rule text :: nodes) ↔ rule ≠ .comment ∧ NoComments level nodes := by
  simp [Node.leaf, noComments_cons, noComments_nil, eq_comm]

/-- The trees that tokens spell have a comment in them exactly when one of the tokens is a comment. -/
theorem Spells.noComments_iff (spells : Spells depth tokens nodes) :
    NoComments level nodes ↔ ∀ token ∈ tokens, token.isComment = false := by
  -- By induction on how the tokens spell the nodes; the brackets of a list are leaves that are no comments.
  induction spells generalizing level with
  | nil => simp [noComments_nil]
  | @atom depth token rule tokens nodes isAtom later ih =>
    have kind : rule ≠ .comment ↔ token.isComment = false := by
      cases token <;> cases isAtom <;> simp [Token.isComment]
    rw [noComments_leaf, List.forall_mem_cons, kind, ih]
  | @list depth bracket inside tokens items nodes inner later innerIh laterIh =>
    have rule : [bracket.rule].contains .comment = false := by cases bracket <;> rfl
    have opens : (Token.opening bracket).isComment = false := rfl
    have closes : (Token.closing bracket).isComment = false := rfl
    rw [Node.branch, noComments_cons, laterIh, List.cons_append, noComments_leaf, noComments_append, noComments_leaf,
      innerIh, List.cons_append, List.forall_mem_cons, List.forall_mem_append, List.forall_mem_cons]
    simp only [rule, opens, closes, noComments_nil, ne_eq, reduceCtorEq, not_false_eq_true, true_and, and_true]

/-- Without comments exactly those texts are accepted that have none, with the same tree. -/
theorem parse_false_eq_ok {source : String} {tree : Node} : parse false source = .ok tree ↔
    parse true source = .ok tree ∧ ∀ entry ∈ tree.preorder 0, entry.2.hasRule .comment = false := by
  -- The tree is the program node over what the tokens spell.
  have tree_iff : ∀ nodes, (∀ entry ∈ (Node.branch .program nodes).preorder 0, entry.2.hasRule .comment = false) ↔
      NoComments 1 nodes := by
    intro nodes
    have whole : NoComments 0 [.branch .program nodes] ↔ NoComments 1 nodes := by
      rw [Node.branch, noComments_cons]
      simp [noComments_nil]
    rw [← whole]
    simp [NoComments, Node.preorderAll]
  simp only [parse_eq_ok, parseNodes_eq_ok, tokenizes_false]
  constructor
  · rintro ⟨nodes, ⟨tokens, ⟨tokenizes, noComments⟩, spells⟩, rfl⟩
    exact ⟨⟨nodes, ⟨tokens, tokenizes, spells⟩, rfl⟩, (tree_iff nodes).mpr (spells.noComments_iff.mpr noComments)⟩
  · rintro ⟨⟨nodes, ⟨tokens, tokenizes, spells⟩, rfl⟩, noComments⟩
    exact ⟨nodes, ⟨tokens, ⟨tokenizes, spells.noComments_iff.mp ((tree_iff nodes).mp noComments)⟩, spells⟩, rfl⟩

end Allowance

/-- The two ends of an accepted text are places between tokens. -/
theorem betweenTokens_ends {source : String} {tree : Node} (accepted : parse true source = .ok tree) :
    BetweenTokens [] source.toList ∧ BetweenTokens source.toList [] := by
  obtain ⟨nodes, done, -⟩ := parse_eq_ok.mp accepted
  obtain ⟨tokens, tokenizes, -⟩ := parseNodes_eq_ok.mp done
  -- Behind the last token there are only blanks.
  obtain ⟨blanks, layout, reads⟩ := Reads.of_tokenizes tokenizes
  refine ⟨⟨[], [], by simp, .none _⟩, tokens, blanks, layout, ?_⟩
  rw [List.append_nil, List.append_nil]
  exact reads

/-- Layout does not change the meaning of a program.

Blanks, or a comment with the end of its line, may be put between any two tokens of an accepted text, and at its ends: the
longer text is accepted and read as the same value.
Where comments are not allowed, exactly those texts are accepted whose tree has no comment in it, with the same tree. -/
theorem layout_does_not_change_meaning :
    (∀ (source : String) (tree : Node), parse true source = .ok tree →
      BetweenTokens [] source.toList ∧ BetweenTokens source.toList []) ∧
    (∀ (front back filler : String) (tree : Node), parse true (front ++ back) = .ok tree →
      BetweenTokens front.toList back.toList → IsFiller filler.toList →
      ∃ tree', parse true (front ++ filler ++ back) = .ok tree' ∧ (tree'.read : Value H) = tree.read) ∧
    ∀ (source : String) (tree : Node), parse false source = .ok tree ↔
      parse true source = .ok tree ∧ ∀ entry ∈ tree.preorder 0, entry.2.hasRule .comment = false := by
  refine ⟨fun source tree => betweenTokens_ends, ?_, fun source tree => parse_false_eq_ok⟩
  intro front back filler tree accepted between isFiller
  obtain ⟨nodes, done, rfl⟩ := parse_eq_ok.mp accepted
  obtain ⟨whole, tokenizes, spells⟩ := parseNodes_eq_ok.mp done
  rw [String.toList_append] at tokenizes
  obtain ⟨tokens, blanks, layout, reads⟩ := between
  -- The tokens behind the place are those of the text from there on.
  obtain ⟨others, rfl, later⟩ := reads.tokenizes_rest tokenizes
  obtain ⟨read, longer, split, inserted, same⟩ := reads.insert isFiller layout (later.of_blanks layout)
  have place : front.toList = read ++ blanks := List.append_cancel_right split
  obtain ⟨nodes', spelled, reads⟩ := spells.of_uncommented (H := H) same
  refine ⟨.branch .program nodes', parse_eq_ok.mpr ⟨nodes', parseNodes_eq_ok.mpr ⟨longer, ?_, spelled⟩, rfl⟩, ?_⟩
  · simpa [place] using inserted
  · simp [Node.branch, Node.read, reads]

/-- A comment between a number and the bracket that closes its list, with another such bracket in the comment. -/
theorem layout_does_not_change_meaning_closing :
    (∃ tree, parse true ("(1" ++ ")") = .ok tree) ∧ BetweenTokens "(1".toList ")".toList ∧
      IsFiller "; )\n".toList ∧ ∃ tree, parse true ("(1" ++ "; )\n" ++ ")") = .ok tree ∧
        (tree.read : Value Empty) = .sexpr [.sexpr [.integer 1]] := by
  have between : BetweenTokens "(1".toList ")".toList :=
    ⟨[.opening .round, .number ['1']], [], by simp, .of_scan rfl (.of_scan rfl (.none _))⟩
  have isFiller : IsFiller "; )\n".toList := @IsFiller.comment " )".toList (List.all_eq_true.mp (by decide))
  obtain ⟨tree, accepted, reads⟩ : ∃ tree, parse true ("(1" ++ ")") = .ok tree ∧
      (tree.read : Value Empty) = .sexpr [.sexpr [.integer 1]] := ⟨_, parse_of_assemble rfl, rfl⟩
  obtain ⟨tree', accepted', same⟩ := layout_does_not_change_meaning.2.1 _ _ _ tree accepted between isFiller
  exact ⟨⟨tree, accepted⟩, between, isFiller, tree', accepted', same.trans reads⟩

end QuoteLisp
