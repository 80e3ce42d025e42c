import QuoteLisp.Proofs.Eval.Definition
import QuoteLisp.Proofs.Eval.Levels
import QuoteLisp.Proofs.Value.NumberLiteral

/-! The first failure of a form is its outcome. The head, the operands and the values of a definition are evaluated from left
to right, so what fails first is followed by nothing: no other operand is looked at, nothing is called and no name is bound.
A whole number that no integer can hold fails in this way wherever it stands. -/

namespace QuoteLisp

variable {H : Type} {reduce : Reducer H} {expr : Value H} {earlier later : List (Value H)} {e : Error}
  {s t u : State H} {handles : List Handle}

/-- The form made of `first` and the operands comes to an expression: all that is evaluated before has a value, and the
expression is evaluated next. This happens in the state `t`, while the chunks in `handles` are in use for the form. -/
inductive Reaches (reduce : Reducer H) (expr : Value H) (s : State H) :
    (first : Value H) → (operands : List (Value H)) → (t : State H) → (handles : List Handle) → Prop where
  | head (operands : List (Value H)) : Reaches reduce expr s expr operands s []
  /-- The head and the operands before have each been stored in the pool. -/
  | operand {first head : Value H} {earlier later : List (Value H)} {handles : List Handle} {middle t : State H}
    (evaluated : evalWith reduce first s = (.ok head, middle)) (plain : ∀ op, head ≠ .special op)
    (parked : park reduce head earlier middle = (.ok (handles, .ok ()), t)) :
    Reaches reduce expr s first (earlier ++ expr :: later) t handles
  /-- The names of the definition are known and admitted, and nothing of it is in the pool. -/
  | definition {first target : Value H} {mode : DefineMode} {earlier later values : List (Value H)}
    {names : List String} {middle t : State H}
    (evaluated : evalWith reduce first s = (.ok (Primitive.define mode).value, middle))
    (prepared : Prepared reduce mode middle target (earlier ++ expr :: later) names)
    (before : evalAllWith reduce earlier (targetState reduce target middle) = (.ok values, t)) :
    Reaches reduce expr s first (target :: (earlier ++ expr :: later)) t []

/-- Takes a chunk and after it those of another step, which is left out where there is none for the first. -/
def chunkThen (chunk : Eval H Handle) (others : Eval H (List Handle × Except Error Unit)) :
    Eval H (List Handle × Except Error Unit) := do
  match ← Eval.outcome chunk with
  | .error e => pure ([], .error e)
  | .ok handle => do
    let (handles, result) ← others
    pure (handle :: handles, result)

section ChunkThen

variable {chunk : Eval H Handle} {others : Eval H (List Handle × Except Error Unit)} {middle : State H} {handle : Handle}
  {result : Except Error Unit}

/-- The chunks of the other step come behind the first. -/
theorem chunkThen_of_ok (taken : chunk s = (.ok handle, middle)) (stored : others middle = (.ok (handles, result), t)) :
    chunkThen chunk others s = (.ok (handle :: handles, result), t) := by
  simp [chunkThen, Eval.bind_apply, Eval.outcome, taken, stored]

/-- Where nothing has failed there is a first chunk, and the other step has not failed either. -/
theorem ok_of_chunkThen (done : chunkThen chunk others s = (.ok (handles, .ok ()), t)) :
    ∃ handle more middle, handles = handle :: more ∧ chunk s = (.ok handle, middle) ∧
      others middle = (.ok (more, .ok ()), t) := by
  -- A first step without a chunk would have been the failure of the whole.
  obtain ⟨outcome, middle, first, rest⟩ := Eval.ok_of_bind done
  cases outcome with
  | error e => cases rest
  | ok handle =>
    obtain ⟨stored, last, found, together⟩ := Eval.ok_of_bind rest
    obtain ⟨more, result⟩ := stored
    cases together
    have taken : chunk s = (.ok handle, middle) := by simpa [Eval.outcome, Prod.ext_iff] using first
    exact ⟨handle, more, middle, rfl, taken, found⟩

end ChunkThen

/-- Of operands stored in order, the first that fails is the last one looked at. -/
theorem parkOperands_of_failure (before : parkOperands reduce earlier s = (.ok (handles, .ok ()), t))
    (failed : evalWith reduce expr t = (.error e, u)) :
    parkOperands reduce (earlier ++ expr :: later) s = (.ok (handles, .error e), u) := by
  -- The handles are those of the operands before, since no chunk is taken for one that fails.
  induction earlier generalizing s handles with
  | nil =>
    cases before
    simp [parkOperands, Eval.bind_apply, Eval.outcome, failed]
  | cons other others ih =>
    obtain ⟨handle, more, middle, rfl, taken, stored⟩ := ok_of_chunkThen before
    exact chunkThen_of_ok taken (ih stored)

/-- What the head and the operands have taken of the pool is freed when an operand fails. -/
theorem evalOperands_of_failure {head : Value H} (before : park reduce head earlier s = (.ok (handles, .ok ()), t))
    (failed : evalWith reduce expr t = (.error e, u)) :
    evalOperands reduce head (earlier ++ expr :: later) s = (.error e, u.freed handles) := by
  have stopped : park reduce head (earlier ++ expr :: later) s = (.ok (handles, .error e), u) := by
    obtain ⟨handle, more, middle, rfl, taken, stored⟩ := ok_of_chunkThen before
    exact chunkThen_of_ok taken (parkOperands_of_failure stored failed)
  rw [evalOperands, Eval.bind_of_ok _ stopped]
  rfl

/-- A definition whose value fails has come to that value, and binds nothing. -/
theorem define_of_failure {mode : DefineMode} {target : Value H} {names : List String} {values : List (Value H)}
    (prepared : Prepared reduce mode s target (earlier ++ expr :: later) names)
    (before : evalAllWith reduce earlier (targetState reduce target s) = (.ok values, t))
    (failed : evalWith reduce expr t = (.error e, u)) :
    define reduce mode (target :: (earlier ++ expr :: later)) s = (.error e, u) := by
  rw [define_of_prepared prepared]
  have stopped : evalAllWith reduce (earlier ++ expr :: later) (targetState reduce target s) = (.error e, u) :=
    evalAllWith_eq_error.mpr ⟨earlier, expr, later, values, t, rfl, evalAllWith_eq_ok.mp before, failed⟩
  exact Eval.bind_of_error _ stopped

namespace Machine

/-- The head of a definition form gets the operands as they are. -/
theorem reduce_definition (m : Machine H) {first : Value H} {mode : DefineMode} {operands : List (Value H)}
    (evaluated : evalWith reduce first s = (.ok (Primitive.define mode).value, t)) :
    m.reduce reduce first operands s = m.apply reduce (Primitive.define mode).value operands t := by
  rw [Machine.reduce, Eval.bind_of_ok _ evaluated]
  rfl

/-- A head that is no special form gets its operands evaluated. -/
theorem reduce_plain (m : Machine H) {first head : Value H} {operands : List (Value H)}
    (evaluated : evalWith reduce first s = (.ok head, t)) (plain : ∀ op, head ≠ .special op) :
    m.reduce reduce first operands s = (evalOperands reduce head operands >>= m.applyElements reduce) t := by
  rw [Machine.reduce, Eval.bind_of_ok _ evaluated]
  cases head with
  | special op => exact absurd rfl (plain op)
  | _ => rfl

/-- A form that comes to an expression which fails has that failure as its outcome, whatever its head would do: the state is
the one that the expression leaves, with the chunks of the form freed. -/
theorem reduce_of_reaches (m : Machine H) {first : Value H} {operands : List (Value H)}
    (reaches : Reaches reduce expr s first operands t handles) (failed : evalWith reduce expr t = (.error e, u)) :
    m.reduce reduce first operands s = (.error e, u.freed handles) := by
  cases reaches with
  | head =>
    -- Nothing is in the pool yet, so there is nothing to free.
    exact Eval.bind_of_error _ failed
  | operand evaluated plain parked =>
    rw [m.reduce_plain evaluated plain]
    exact Eval.bind_of_error _ (evalOperands_of_failure parked failed)
  | @definition _ target _ earlier later _ _ _ _ evaluated prepared before =>
    -- There is at least this one value, so the form does not fail for want of operands.
    obtain ⟨value, values, shape⟩ : ∃ value values, earlier ++ expr :: later = value :: values :=
      List.exists_cons_of_ne_nil (by simp)
    have bound := define_of_failure prepared before failed
    rw [m.reduce_definition evaluated, shape, apply_define, ← shape]
    exact bound

end Machine

/-- Whole numbers in source text are read exactly or not at all.

A number token without a fraction is an optional minus sign and digits, as many as there may be.
It is read as the integer with just its value where that is at least `-2 ^ 63` and less than `2 ^ 63`.
Every other one is read as an error value with its text, and a form that comes to it fails with the message of this value.
The form then ends in the state in which it came to the number, but for the chunks that it frees and the level that it leaves:
its head is not called, whatever the machine would do, and no name is bound. -/
theorem whole_number_exact_or_raised (m : Machine H) (comments : Bool) (text : List Char) :
    let literal : Value H := (Node.leaf .number text).read
    let message := "invalid number '" ++ String.ofList text ++ "'"
    (IsWhole text ↔ '.' ∉ text ∧ ∃ input rest, scan comments input = .token (.number text) rest) ∧
      (IsWhole text → -2 ^ 63 ≤ wholeValue text → wholeValue text < 2 ^ 63 →
        ∃ n : Int64, n.toInt = wholeValue text ∧ literal = .integer n) ∧
      (IsWhole text → wholeValue text < -2 ^ 63 ∨ 2 ^ 63 ≤ wholeValue text →
        literal = .error message ∧
        (∀ reduce s first operands t handles, Reaches reduce literal s first operands t handles →
          m.reduce reduce first operands s = (.error (.raised message), t.freed handles)) ∧
        ∀ s first operands t handles, s.depth < m.maxDepth →
          Reaches m.reducer literal { s with depth := s.depth + 1 } first operands t handles →
            m.tryEval (.sexpr (first :: operands)) s =
              (.error (.raised message), { t.freed handles with depth := t.depth - 1 })) := by
  intro literal message
  refine ⟨isWhole_iff_token, fun whole low high => read_of_fits whole ⟨by omega, by omega⟩, fun whole outside => ?_⟩
  have outOfRange : ¬ Fits (wholeValue text) := by
    unfold Fits
    omega
  have isError : literal = .error message := read_of_not_fits whole outOfRange
  -- An error value fails as soon as it is evaluated, and changes nothing.
  have failed : ∀ (reduce : Reducer H) (t : State H), evalWith reduce literal t = (.error (.raised message), t) := by
    intro reduce t
    rw [isError]
    rfl
  refine ⟨isError, fun reduce s first operands t handles reaches => m.reduce_of_reaches reaches (failed reduce t),
    fun s first operands t handles below reaches => ?_⟩
  have started : m.tryEval (.sexpr (first :: operands)) s = m.reducer (first :: operands) s := rfl
  rw [started, m.reducer_of_below below, Eval.deeper_apply, m.reduce_of_reaches reaches (failed m.reducer t)]
  rfl

/-- The least integer is read, zeros in front of it or not. The number below it stops a call behind an operand that has
defined a name, before anything is printed, and a definition of two names of which the first has its value. -/
theorem whole_number_exact_or_raised_at_minimum :
    let m := Machine.plain 8 {}
    let least := "-0009223372036854775808".toList
    let below := "-0009223372036854775809".toList
    let number : Value Empty := (Node.leaf .number below).read
    let raised : Error := .raised "invalid number '-0009223372036854775809'"
    let define : Value Empty := (Primitive.define .global).value
    let defineX : Value Empty := .sexpr [define, .symbol "x", .integer 1]
    let names : Value Empty := .qexpr [.symbol "y", .symbol "z"]
    (∃ n : Int64, n.toInt = -9223372036854775808 ∧ (Node.leaf .number least).read = (.integer n : Value Empty)) ∧
      (∃ t, m.tryEval (.sexpr [Primitive.print.value, defineX, number]) {} = (.error raised, t) ∧
        t.env.root.names = ["x"] ∧ t.output = "") ∧
      ∃ t, m.tryEval (.sexpr [define, names, .integer 2, number]) {} = (.error raised, t) ∧ t.env.root.names = [] := by
  intro m least below number raised define defineX names
  have leastWhole : IsWhole least := ⟨['-'], _, rfl, .inr rfl, rfl⟩
  have belowWhole : IsWhole below := ⟨['-'], _, rfl, .inr rfl, rfl⟩
  have exactly := (whole_number_exact_or_raised m true least).2.1 leastWhole (by decide) (by decide)
  have raises := ((whole_number_exact_or_raised m true below).2.2 belowWhole (.inl (by decide))).2.2
  have call := raises {} Primitive.print.value ([defineX] ++ number :: []) _ _ (by decide)
    (.operand rfl (fun op same => by cases same) rfl)
  have definition := raises {} define (names :: ([.integer 2] ++ number :: [])) _ _ (by decide)
    (.definition rfl ⟨rfl, rfl, DefineMode.check_eq_ok.mp rfl⟩ rfl)
  exact ⟨exactly, ⟨_, call, rfl, rfl⟩, ⟨_, definition, rfl⟩⟩

end QuoteLisp
