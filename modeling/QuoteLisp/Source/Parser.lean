import QuoteLisp.Source.Node
import QuoteLisp.Source.ParseError
import QuoteLisp.Source.Token

/-! From a source text to the syntax tree of a program, or to the first fault: expressions are looked for one after the
other, and a list looks for the expressions inside it in the same way. -/

namespace QuoteLisp

/-- The rule of a list in a kind of brackets. -/
def Bracket.rule : Bracket → Rule
  | round => .sexpr
  | curly => .qexpr

/-- The node of a closed list, brackets included. -/
def Bracket.node (bracket : Bracket) (items : List Node) : Node :=
  .branch bracket.rule
    (.leaf .delimiter [bracket.opening] :: items ++ [.leaf .delimiter [bracket.closing]])

/-- A fault together with the text from its place on. -/
structure Misfit where
  fault : ParseFault
  rest : List Char
  deriving DecidableEq, Repr

/-- What comes of looking for a node at the front of a text. -/
inductive Sought (input : List Char) where
  /-- The node, and what follows it. -/
  | found (node : Node) (rest : List Char) (shorter : rest.length < input.length)
  /-- There is none, but something else may stand there. -/
  | absent
  /-- Whatever stands there, the whole text is refused. -/
  | refused (misfit : Misfit)

/-- Looks for nodes one after the other, with blanks before each, until one is absent; `before` are those found so far,
last first. -/
def seekMany (seek : (input : List Char) → Sought input) (before : List Node) (input : List Char) :
    Except Misfit (List Node × List Char) :=
  match seek (input.dropWhile isLayout) with
  | .found node rest shorter =>
    have : rest.length < input.length := Nat.lt_of_lt_of_le shorter (List.dropWhile_sublist _).length_le
    seekMany seek (node :: before) rest
  -- The blanks belong to what follows.
  | .absent => .ok (before.reverse, input)
  | .refused misfit => .error misfit
termination_by input.length

/-- What is left behind the nodes is no more than there was. -/
theorem length_le_of_seekMany {seek : (input : List Char) → Sought input} {before nodes : List Node}
    {input behind : List Char} (done : seekMany seek before input = .ok (nodes, behind)) :
    behind.length ≤ input.length := by
  fun_induction seekMany seek before input with
  | case1 before input node rest shorter _ less ih => exact Nat.le_trans (ih done) (Nat.le_of_lt less)
  | case2 before input _ =>
    cases done
    exact Nat.le_refl _
  | case3 => cases done

/-- What follows the first character behind some blanks is shorter than the text. -/
theorem length_lt_of_dropWhile {inClass : Char → Bool} {input rest : List Char} {c : Char}
    (behind : input.dropWhile inClass = c :: rest) : rest.length < input.length := by
  have whole := (List.dropWhile_sublist inClass (l := input)).length_le
  rw [behind, List.length_cons] at whole
  omega

/-- Closes a list behind its items. Once a list is open, nothing but its own closing bracket will do. -/
def closeList {input : List Char} (bracket : Bracket) (items : List Node) (behind : List Char)
    (shorter : behind.length < input.length) : Sought input :=
  match following : behind.dropWhile isLayout with
  | [] => .refused ⟨.endOfInput, []⟩
  | c :: rest =>
    if c = bracket.closing then
      .found (bracket.node items) rest (Nat.lt_trans (length_lt_of_dropWhile following) shorter)
    else .refused ⟨.misplaced, c :: rest⟩

/-- Looks for the rest of a list behind its opening bracket: its items, and then its end. -/
def seekList {input : List Char} (seek : (input : List Char) → Sought input) (bracket : Bracket) (rest : List Char)
    (shorter : rest.length < input.length) : Sought input :=
  match inside : seekMany seek [] rest with
  | .ok (items, behind) => closeList bracket items behind (Nat.lt_of_le_of_lt (length_le_of_seekMany inside) shorter)
  | .error misfit => .refused misfit

/-- The expression that starts with what the scanner has found, given how items of a list are looked for. -/
def seekFrom {comments : Bool} {input : List Char} (seek : (input : List Char) → Sought input) :
    (front : Scan) → scan comments input = front → Sought input
  | .token (.number text) rest, scanned => .found (.leaf .number text) rest (length_lt_of_scan scanned)
  | .token (.symbol text) rest, scanned => .found (.leaf .symbol text) rest (length_lt_of_scan scanned)
  | .token (.string text) rest, scanned => .found (.leaf .string text) rest (length_lt_of_scan scanned)
  | .token (.comment text) rest, scanned => .found (.leaf .comment text) rest (length_lt_of_scan scanned)
  | .token (.opening bracket) rest, scanned => seekList seek bracket rest (length_lt_of_scan scanned)
  -- A closing bracket may close the list around this place.
  | .token (.closing _) _, _ => .absent
  | .unterminated, _ => .refused ⟨.unterminatedString, input⟩
  | .finished, _ => .absent
  | .stray, _ => .absent

/-- Looks for an expression at a place with so many open lists around it. -/
def seekExpr (comments : Bool) (depth : Nat) (input : List Char) : Sought input :=
  -- Too many open lists are reported before anything else, even where nothing follows.
  if maxListDepth ≤ depth then .refused ⟨.tooDeep, input⟩
  else seekFrom (fun inner => seekExpr comments (depth + 1) inner) (scan comments input) rfl
termination_by maxListDepth - depth

/-- The expressions of a program text; comments are accepted only when asked for. -/
def parseNodes (comments : Bool) (input : List Char) : Except Misfit (List Node) := do
  let (nodes, behind) ← seekMany (seekExpr comments 0) [] input
  match behind.dropWhile isLayout with
  | [] => .ok nodes
  | left => .error ⟨.unexpected, left⟩

/-- The syntax tree of a program text. -/
def parse (comments : Bool) (source : String) : Except ParseError Node :=
  let input := source.toList
  match parseNodes comments input with
  | .ok nodes => .ok (.branch .program nodes)
  | .error misfit => .error (misfit.fault.toError input misfit.rest)

end QuoteLisp
