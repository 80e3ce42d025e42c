import QuoteLisp.Proofs.Eval.Levels
import QuoteLisp.Proofs.Pool.Capacity
import QuoteLisp.Proofs.Value.RoundTrip
import QuoteLisp.Proofs.Value.Sameness
import QuoteLisp.Session

/-! The text of a closure is a program that makes the closure again: the printer writes the call of `\` with the formals and
the body as quoted lists, the text is read as that call, and the call gives a closure with nothing bound. -/

namespace QuoteLisp

variable {H : Type}

/-- The call that makes a closure from its formals and its body. -/
def lambdaCall (formals : List String) (body : List (Value H)) : Value H :=
  .sexpr [.symbol "\\", .qexpr (formals.map .symbol), .qexpr body]

section Text

variable {formals : List String} {body : List (Value H)}

/-- Symbols are written as their names. -/
theorem renderItems_symbols (names : List String) :
    renderItems (names.map .symbol : List (Value H)) = names.map String.toList := by
  induction names with
  | nil => rfl
  | cons name others ih => exact congrArg (name.toList :: ·) ih

/-- A closure is written as the call that makes it. -/
theorem render_closure (scope : Scope (Value H)) :
    (Value.closure formals body scope).render = (lambdaCall formals body).render := by
  have names := renderItems_symbols (H := H) formals
  exact congrArg (fun texts => inRound (spaced [['\\'], inCurly (spaced texts), inCurly (spaced (renderItems body))]))
    names.symm

/-- The call that makes a closure is two lists deeper than the values in its body. -/
theorem legible_lambdaCall {depth : Nat} (names : ∀ formal ∈ formals, IsSymbolName formal.toList)
    (legible : ∀ item ∈ body, Legible depth item) : Legible (depth + 2) (lambdaCall formals body) := by
  have formal : ∀ item ∈ (formals.map .symbol : List (Value H)), Legible depth item := by
    intro item member
    obtain ⟨name, inFormals, rfl⟩ := List.mem_map.mp member
    exact .symbol (names name inFormals)
  refine .sexpr fun item member => ?_
  simp only [List.mem_cons, List.not_mem_nil, or_false] at member
  rcases member with rfl | rfl | rfl
  · exact .symbol (by decide)
  · exact .qexpr formal
  · exact .qexpr legible

end Text

section Evaluation

variable {reduce : Reducer H} {operands : List (Value H)} {s : State H}

/-- Operands that stand for themselves are stored one after the other. -/
theorem parkOperands_of_still (still : ∀ operand ∈ operands, ∀ s, evalWith reduce operand s = (.ok operand, s))
    {base : Pool (Value H)} {held : List (Handle × Value H)} (holds : base.Holds s.pool held)
    (room : s.pool.CanAcquire operands.length) :
    ∃ stored pool, parkOperands reduce operands s = (.ok (stored.map (·.1), .ok ()), { s with pool := pool }) ∧
      stored.map (·.2) = operands ∧ base.Holds pool (held ++ stored) := by
  -- What is held so far is held against the same base at every operand.
  induction operands generalizing s held with
  | nil => exact ⟨[], s.pool, rfl, rfl, by simpa using holds⟩
  | cons operand others ih =>
    obtain ⟨handle, after, acquired, left⟩ := room operand
    have more := holds.snoc (Pool.stores_of_acquire acquired)
    obtain ⟨stored, pool, parked, values, kept⟩ := @ih { s with pool := after }
      (fun other member => still other (List.mem_cons_of_mem operand member)) _ more left
    refine ⟨(handle, operand) :: stored, pool, ?_, by simp [values], by simpa using kept⟩
    have first := still operand List.mem_cons_self s
    simp [parkOperands, Eval.bind_apply, Eval.outcome, first, Eval.hold, acquired, parked]

/-- Operands that stand for themselves are handed over as they are, and the pool holds again what it held. -/
theorem evalOperands_of_still (head : Value H)
    (still : ∀ operand ∈ operands, ∀ s, evalWith reduce operand s = (.ok operand, s))
    (room : s.pool.CanAcquire (operands.length + 1)) :
    ∃ pool, evalOperands reduce head operands s = (.ok (head :: operands), { s with pool := pool }) ∧
      s.pool.Holds pool [] := by
  obtain ⟨handle, after, acquired, left⟩ := room head
  have holds := (Pool.stores_of_acquire acquired).holds
  obtain ⟨stored, pool, parked, values, kept⟩ := @parkOperands_of_still _ _ _ { s with pool := after } still _ _ holds left
  obtain ⟨released, restored⟩ := kept.releaseAll
  simp only [List.cons_append, List.nil_append, List.map_cons, values] at released restored
  refine ⟨_, ?_, restored⟩
  simp [evalOperands, park, Eval.bind_apply, Eval.outcome, Eval.hold, acquired, parked, Eval.release, released,
    Eval.ofExcept]

/-- The names of symbols are found. -/
theorem expectSymbols_symbols (operation : String) (index : Nat) (names : List String) :
    expectSymbols operation index (names.map .symbol : List (Value H)) = .ok names := by
  induction names with
  | nil => rfl
  | cons name others ih => simp [expectSymbols, ih, Except.map]

/-- The operation that makes closures gives one with nothing bound. -/
theorem apply_lambda (m : Machine H) (formals : List String) (body : List (Value H)) :
    m.apply reduce Primitive.lambda.value [.qexpr (formals.map .symbol), .qexpr body] s =
      (.ok (.lambda formals body), s) := by
  -- Two arguments are what it takes, and a closure is no error that would be raised.
  have applied : m.apply reduce Primitive.lambda.value [.qexpr (formals.map .symbol), .qexpr body] s =
      (Eval.ofExcept (do
        let names ← expectSymbols "\\" 0 (formals.map .symbol : List (Value H))
        return .lambda names body) >>= raiseError) s := rfl
  rw [applied, expectSymbols_symbols]
  rfl

/-- The call that makes a closure, wherever its name stands for the operation: it takes one level and three chunks, and
changes nothing but the pool, which holds again what it held. -/
theorem tryEval_lambdaCall (m : Machine H) (formals : List String) (body : List (Value H))
    (resolves : s.env.lookup "\\" = .ok Primitive.lambda.value) (below : s.depth < m.maxDepth)
    (room : s.pool.CanAcquire 3) :
    ∃ pool, m.tryEval (lambdaCall formals body) s = (.ok (.lambda formals body), { s with pool := pool }) ∧
      s.pool.Holds pool [] := by
  let operands : List (Value H) := [.qexpr (formals.map .symbol), .qexpr body]
  let inside : State H := { s with depth := s.depth + 1 }
  have reduced := m.reducer_of_below below (.symbol "\\") operands
  have head : evalWith m.reducer (.symbol "\\") inside = (.ok Primitive.lambda.value, inside) :=
    congrArg (·, inside) resolves
  -- The operation and the two quoted lists are in the pool at once.
  have still : ∀ operand ∈ operands, ∀ t, evalWith m.reducer operand t = (.ok operand, t) := by
    simp [operands, evalWith]
  obtain ⟨pool, gathered, restored⟩ := @evalOperands_of_still H m.reducer operands inside Primitive.lambda.value still room
  refine ⟨pool, ?_, restored⟩
  have made : m.reduce m.reducer (.symbol "\\") operands inside = (.ok (.lambda formals body), { inside with pool := pool }) :=
    calc m.reduce m.reducer (.symbol "\\") operands inside
      _ = (evalOperands m.reducer Primitive.lambda.value operands >>= m.applyElements m.reducer) inside :=
        Eval.bind_of_ok _ head
      _ = m.apply m.reducer Primitive.lambda.value operands { inside with pool := pool } := Eval.bind_of_ok _ gathered
      _ = (.ok (.lambda formals body), { inside with pool := pool }) := apply_lambda m formals body
  have started : m.tryEval (lambdaCall formals body) s = m.reducer (.symbol "\\" :: operands) s := rfl
  rw [started, reduced, Eval.deeper_apply, made]
  rfl

end Evaluation

/-- A printed closure evaluates back to itself.

The text of a closure whose formals are names and whose body can be written at most 125 lists deep is read as one
S-expression.
In every state where `\` is the operation of that name, with one level and three chunks to spare, this gives a closure that
is equal to the first one, with the same formals and body and nothing bound, and changes nothing but the pool. -/
theorem printed_closure_evaluates_back {formals : List String} {body : List (Value H)} (scope : Scope (Value H))
    (names : ∀ formal ∈ formals, IsSymbolName formal.toList) (legible : ∀ item ∈ body, Legible 125 item) :
    ∃ tree items, parse true (Value.closure formals body scope).text = .ok tree ∧
      (tree.read : Value H) = .sexpr [.sexpr items] ∧
      ∀ (m : Machine H) (s : State H), s.env.lookup "\\" = .ok Primitive.lambda.value → s.depth < m.maxDepth →
        s.pool.CanAcquire 3 →
        ∃ result pool, m.tryEval (.sexpr items) s = (.ok result, { s with pool := pool }) ∧ s.pool.Holds pool [] ∧
          result = .closure formals body {} ∧ (result == .closure formals body scope) = true := by
  have written : Written 127 (Value.closure formals body scope).text.toList [lambdaCall formals body] := by
    rw [Value.text, String.toList_ofList, render_closure]
    exact written_of_legible (legible_lambdaCall names legible)
  obtain ⟨nodes, parsed, reads⟩ := written.parses
  refine ⟨.branch .program nodes, [.symbol "\\", .qexpr (formals.map .symbol), .qexpr body], parsed, ?_,
    fun m s resolves below room => ?_⟩
  · simp [Node.branch, Node.read, reads, lambdaCall]
  · obtain ⟨pool, evaluated, restored⟩ := tryEval_lambdaCall m formals body resolves below room
    -- The scope is the one thing in which the two differ, and equality does not look at it.
    exact ⟨.lambda formals body, pool, evaluated, restored, rfl, (Value.Rescoped.here {} scope).same⟩

/-- A closure of any number of arguments, with something bound and with quoting and escapes in its body, in a run that has
just one level and three chunks. -/
theorem printed_closure_evaluates_back_variadic :
    let formals := ["x", "&", "rest"]
    let body : List (Value Empty) := [.symbol "join", .qexpr [.sexpr [.qexpr []], .string "\"\\\n"], .integer (-1)]
    let closure : Value Empty := .closure formals body ⟨[⟨"y", .ok, false⟩]⟩
    ∃ tree items, parse true closure.text = .ok tree ∧ (tree.read : Value Empty) = .sexpr [.sexpr items] ∧
      ∃ result pool, (Machine.plain 1 {}).tryEval (.sexpr items) (.initial ⟨3, 1⟩) =
        (.ok result, { State.initial ⟨3, 1⟩ with pool := pool }) ∧ (result == closure) = true := by
  intro formals body closure
  have names : ∀ formal ∈ formals, IsSymbolName formal.toList := by decide
  have legible : ∀ item ∈ body, Legible 125 item := by
    have empty : Legible 123 (.qexpr [] : Value Empty) := .qexpr (by simp)
    have quoted : Legible 125 (.qexpr [.sexpr [.qexpr []], .string "\"\\\n"] : Value Empty) :=
      .qexpr (by simpa using ⟨.sexpr (by simpa using empty), .string _⟩)
    simpa [body] using ⟨.symbol (by decide), quoted, .integer _⟩
  obtain ⟨tree, items, parsed, reads, evaluates⟩ := printed_closure_evaluates_back ⟨[⟨"y", .ok, false⟩]⟩ names legible
  have room : (State.initial ⟨3, 1⟩ : State Empty).pool.CanAcquire 3 :=
    (Pool.valid_of_no_blocks rfl rfl).canAcquire (by decide)
  obtain ⟨result, pool, evaluated, -, -, same⟩ := evaluates (Machine.plain 1 {}) (.initial ⟨3, 1⟩) rfl (by decide) room
  exact ⟨tree, items, parsed, reads, result, pool, evaluated, same⟩

end QuoteLisp
