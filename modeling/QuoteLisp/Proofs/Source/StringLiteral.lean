import QuoteLisp.Proofs.Source.Scanning
import QuoteLisp.Source.Reader

/-! String literals taken apart: the scanner that finds the end of a literal and the reader that resolves its escapes see
the same pieces between the quotes. -/

namespace QuoteLisp

/-- A piece of what stands between the quotes of a string literal. -/
inductive Piece where
  /-- A character that stands for itself. -/
  | plain (c : Char) (noQuote : c ≠ '"') (noBackslash : c ≠ '\\')
  /-- A backslash and the character behind it. -/
  | escape (c : Char)

namespace Piece

/-- The characters that mean something behind a backslash, and what they mean. -/
def knownEscapes : List (Char × Char) :=
  [('n', '\n'), ('t', '\t'), ('r', '\r'), ('0', '\x00'), ('a', '\x07'), ('b', '\x08'), ('f', '\x0c'), ('v', '\x0b'),
    ('\\', '\\'), ('"', '"'), ('\x27', '\x27')]

/-- A piece as it is written. -/
def written : Piece → List Char
  | plain c _ _ => [c]
  | escape c => ['\\', c]

/-- The text that a piece stands for; an escape that is not known stands for itself. -/
def meaning : Piece → List Char
  | plain c _ _ => [c]
  | escape c =>
    match knownEscapes.lookup c with
    | some meant => [meant]
    | none => ['\\', c]

/-- The literal made of some pieces. -/
def literal (pieces : List Piece) : List Char :=
  '"' :: pieces.flatMap written ++ ['"']

/-- What may stand between quotes is what is made of pieces. -/
theorem isStringBody_iff {body : List Char} : IsStringBody body ↔ ∃ pieces : List Piece, body = pieces.flatMap written := by
  constructor
  · intro isBody
    -- Each rule for a body adds the piece of the same kind.
    induction isBody with
    | nil => exact ⟨[], rfl⟩
    | plain noQuote noBackslash _ ih =>
      obtain ⟨pieces, rfl⟩ := ih
      exact ⟨plain _ noQuote noBackslash :: pieces, rfl⟩
    | escape c _ ih =>
      obtain ⟨pieces, rfl⟩ := ih
      exact ⟨escape c :: pieces, rfl⟩
  · rintro ⟨pieces, rfl⟩
    induction pieces with
    | nil => exact .nil
    | cons piece others ih =>
      cases piece with
      | plain c noQuote noBackslash => exact .plain noQuote noBackslash ih
      | escape c => exact .escape c ih

/-- Pieces in a row can be told apart again: a backslash starts an escape and nothing else. -/
theorem flatMap_written_injective : Function.Injective (List.flatMap written) := by
  intro pieces others same
  induction pieces generalizing others with
  | nil =>
    cases others with
    | nil => rfl
    | cons other rest => cases other <;> simp [written] at same
  | cons piece rest ih =>
    cases others with
    | nil => cases piece <;> simp [written] at same
    | cons other others =>
      rw [List.flatMap_cons, List.flatMap_cons] at same
      -- The first character tells which kind of piece it is.
      cases piece with
      | plain c noQuote noBackslash =>
        cases other with
        | plain d _ _ =>
          obtain ⟨rfl, later⟩ := List.cons.inj same
          rw [ih later]
        | escape d => exact absurd (List.cons.inj same).1 noBackslash
      | escape c =>
        cases other with
        | plain d _ noBackslash => exact absurd (List.cons.inj same).1.symm noBackslash
        | escape d =>
          obtain ⟨rfl, later⟩ := List.cons.inj (List.cons.inj same).2
          rw [ih later]

/-- A literal is made of its pieces in one way only. -/
theorem literal_injective : Function.Injective literal := by
  intro pieces others same
  have between : pieces.flatMap written ++ ['"'] = others.flatMap written ++ ['"'] := (List.cons.inj same).2
  exact flatMap_written_injective (List.append_cancel_right between)

/-- The two quotes of a literal are what is stripped from it. -/
theorem stripQuotes_literal (pieces : List Piece) : stripQuotes (literal pieces) = pieces.flatMap written := by
  simp [literal, stripQuotes]

/-- The reader knows just the escapes of the table. -/
theorem escapedChar?_eq_lookup (c : Char) : escapedChar? c = knownEscapes.lookup c := by
  unfold escapedChar?
  split <;> try rfl
  -- Any other character is in no row of the table.
  refine (List.lookup_eq_none_iff.mpr ?_).symm
  simp_all [knownEscapes]

end Piece

/-- Resolves escapes as `unescape` does, with any text in the place of a backslash that nothing follows. -/
def unescapeOr (lone : List Char) : List Char → List Char
  | [] => []
  | [c] => if c = '\\' then lone else [c]
  | c :: d :: rest =>
    if c = '\\' then
      match escapedChar? d with
      | some meant => meant :: unescapeOr lone rest
      | none => c :: d :: unescapeOr lone rest
    else c :: unescapeOr lone (d :: rest)

/-- With the backslash itself in that place, it is the same reading. -/
theorem unescapeOr_backslash (text : List Char) : unescapeOr ['\\'] text = unescape text := by
  fun_induction unescape text with
  | case1 => rfl
  | case2 c => by_cases backslash : c = '\\' <;> simp [unescapeOr, backslash]
  | case3 d rest meant known ih => simp [unescapeOr, known, ih]
  | case4 d rest unknown ih => simp [unescapeOr, unknown, ih]
  | case5 c d rest other ih => simp [unescapeOr, other, ih]

example : unescapeOr [] ['a', '\\'] ≠ unescape ['a', '\\'] := by decide

namespace Piece

/-- A piece in front of a text is read by itself. -/
theorem unescapeOr_written_append (lone : List Char) (piece : Piece) (rest : List Char) :
    unescapeOr lone (piece.written ++ rest) = piece.meaning ++ unescapeOr lone rest := by
  cases piece with
  | plain c noQuote noBackslash => cases rest <;> simp [written, meaning, unescapeOr, noBackslash]
  | escape c =>
    simp only [written, meaning, List.cons_append, List.nil_append, unescapeOr, if_true, escapedChar?_eq_lookup]
    cases knownEscapes.lookup c <;> rfl

/-- Pieces are read one by one, and no backslash is left without a character behind it. -/
theorem unescapeOr_flatMap_written (lone : List Char) (pieces : List Piece) :
    unescapeOr lone (pieces.flatMap written) = pieces.flatMap meaning := by
  induction pieces with
  | nil => rfl
  | cons piece others ih => rw [List.flatMap_cons, unescapeOr_written_append, ih, List.flatMap_cons]

end Piece

section Scanning

variable {comments : Bool} {text after rest : List Char}

/-- Behind a quote the scanner looks for the end of a string and for nothing else. -/
theorem scan_quote (comments : Bool) (rest : List Char) :
    scan comments ('"' :: rest) =
      match takeStringBody? rest with
      | some (body, after) => .token (.string ('"' :: body)) after
      | none => .unterminated := by
  have other : RunEnds isSymbolChar ('"' :: rest) := runEnds_cons.mpr (by decide)
  obtain ⟨noNumber, noSymbol⟩ := takes_nothing_of_runEnds other
  cases taken : takeStringBody? rest with
  | none => simp [scan, noNumber, noSymbol, taken]
  | some literal => simp [scan, noNumber, noSymbol, taken]

/-- A string token is a literal made of pieces, at the front of the text. -/
theorem pieces_of_scan {input : List Char} (scanned : scan comments input = .token (.string text) after) :
    ∃ pieces : List Piece, text = Piece.literal pieces ∧ input = text ++ after := by
  cases scan_sound scanned with
  | string isBody =>
    obtain ⟨pieces, rfl⟩ := Piece.isStringBody_iff.mp isBody
    exact ⟨pieces, rfl, by simp⟩

/-- Where a literal stands at the front of a text, the scanner takes it. -/
theorem scan_literal (comments : Bool) (pieces : List Piece) (after : List Char) :
    scan comments (Piece.literal pieces ++ after) = .token (.string (Piece.literal pieces)) after := by
  have takes : TakesToken comments ('"' :: pieces.flatMap Piece.written ++ '"' :: after) _ after :=
    .string (Piece.isStringBody_iff.mpr ⟨pieces, rfl⟩)
  simpa [Piece.literal] using scan_complete takes

/-- Behind a quote there is a string token, or no literal at all. -/
theorem scan_quote_cases (comments : Bool) (rest : List Char) :
    (∃ text after, scan comments ('"' :: rest) = .token (.string text) after) ∨
      scan comments ('"' :: rest) = .unterminated ∧ ∀ pieces, ¬ Piece.literal pieces <+: '"' :: rest := by
  have scanned := scan_quote comments rest
  cases taken : takeStringBody? rest with
  | some found => exact .inl ⟨_, _, by rw [scanned, taken]⟩
  | none =>
    rw [taken] at scanned
    refine .inr ⟨scanned, fun pieces front => ?_⟩
    -- A literal at the front would have been taken.
    obtain ⟨after, same⟩ := front
    have found := scan_literal comments pieces after
    rw [same, scanned] at found
    cases found

end Scanning

/--
The scanner and the reader of string literals agree on their pieces.

A string token is a literal made of pieces in one way only; the reader strips its two quotes and puts together what the
pieces stand for, and it makes no difference what it would do with a backslash at the very end. Behind a quote the scanner
fails only where no literal stands.
-/
theorem string_scanner_and_reader_agree {H : Type} (comments : Bool) (input : List Char) :
    (∀ text after, scan comments input = .token (.string text) after →
      input = text ++ after ∧
      ∃ pieces : List Piece, text = Piece.literal pieces ∧ (∀ others, text = Piece.literal others → others = pieces) ∧
        stripQuotes text = pieces.flatMap Piece.written ∧
        unquote text = pieces.flatMap Piece.meaning ∧
        (∀ lone, unescapeOr lone (stripQuotes text) = unquote text) ∧
        (Node.leaf .string text).read = (.string (String.ofList (pieces.flatMap Piece.meaning)) : Value H)) ∧
    ∀ rest, input = '"' :: rest →
      (∃ text after, scan comments input = .token (.string text) after) ∨
        scan comments input = .unterminated ∧ ∀ pieces, ¬ Piece.literal pieces <+: input := by
  constructor
  · intro text after scanned
    obtain ⟨pieces, rfl, same⟩ := pieces_of_scan scanned
    have stripped := Piece.stripQuotes_literal pieces
    have resolved := fun lone => Piece.unescapeOr_flatMap_written lone pieces
    have unquoted : unquote (Piece.literal pieces) = pieces.flatMap Piece.meaning := by
      rw [unquote, stripped, ← unescapeOr_backslash, resolved]
    refine ⟨same, pieces, rfl, fun others equal => (Piece.literal_injective equal).symm, stripped, unquoted,
      fun lone => ?_, ?_⟩
    · rw [stripped, resolved, unquoted]
    · simp [Node.leaf, Node.read, unquoted]
  · rintro rest rfl
    exact scan_quote_cases comments rest

/-- Runs of backslashes before quotes, an escape that is not known and a character of several bytes; and a text in which
every quote but the first is taken by a backslash. -/
theorem string_scanner_and_reader_agree_backslashes :
    let text := "\"é\\\\\\\"\\q\"".toList
    scan true (text ++ ['x']) = .token (.string text) ['x'] ∧
    (∃ pieces : List Piece, text = Piece.literal pieces ∧
      (Node.leaf .string text).read = (.string (String.ofList (pieces.flatMap Piece.meaning)) : Value Empty)) ∧
    unquote text = "é\\\"\\q".toList ∧
    scan true "\"a\\\"".toList = .unterminated ∧ ∀ pieces, ¬ Piece.literal pieces <+: "\"a\\\"".toList := by
  intro text
  have scanned : scan true (text ++ ['x']) = .token (.string text) ['x'] := by decide
  have unterminated : scan true "\"a\\\"".toList = .unterminated := by decide
  obtain ⟨-, pieces, made, -, -, -, -, read⟩ :=
    (string_scanner_and_reader_agree (H := Empty) true (text ++ ['x'])).1 text ['x'] scanned
  refine ⟨scanned, ⟨pieces, made, read⟩, by decide, unterminated, ?_⟩
  rcases (string_scanner_and_reader_agree (H := Empty) true "\"a\\\"".toList).2 _ rfl with ⟨_, _, taken⟩ | ⟨-, none⟩
  · rw [unterminated] at taken
    cases taken
  · exact none

end QuoteLisp
