import Mathlib
import QuoteLisp.Proofs.Session.Invariant
import QuoteLisp.Proofs.Source.Acceptance

/-! Results are normal forms: only values that evaluate to themselves are ever bound to a name or given as a result, and
so errors and symbols occur in results only as items of quoted lists. -/

namespace QuoteLisp

variable {H : Type}

namespace Value

/-- The arguments that a closure has been given so far are normal. -/
def CapturesNormal : Value H → Prop
  | closure _ _ scope => scope.Binds IsNormal
  | _ => True

/-- A normal value, in which closures at any depth have been given only normal arguments. -/
def IsSettled (value : Value H) : Prop :=
  value.IsNormal ∧ value.Everywhere CapturesNormal

/-- Only a closure has been given arguments. -/
theorem IsPlain.capturesNormal {value : Value H} (plain : value.IsPlain) : value.CapturesNormal := by
  -- A closure is not plain, and nothing is asked of the other values.
  cases value with
  | closure formals body scope => exact plain.elim
  | _ => trivial

/-- Giving a closure one more normal argument. -/
theorem capturesNormal_bind {formals after : List String} {body : List (Value H)} {scope scope' : Scope (Value H)}
    {formal : String} {arg : Value H} (captures : (closure formals body scope).CapturesNormal) (normal : arg.IsNormal)
    (bound : scope.bind formal arg = .ok scope') : (closure after body scope').CapturesNormal := by
  -- A binding of the new scope is an old one or the one of the argument.
  intro binding member
  rcases Scope.mem_of_bind bound member with old | rfl
  · exact captures binding old
  · exact normal

end Value

/-- An operation of the language is a normal value with nothing inside. -/
theorem Primitive.value_isSettled (p : Primitive) : (p.value : Value H).IsSettled := by
  unfold Primitive.value
  split
  · exact ⟨trivial, Value.everywhere_of_leaf rfl trivial⟩
  · exact ⟨trivial, Value.everywhere_of_leaf rfl trivial⟩

/-- What is bound at the start are the operations of the language. -/
theorem standardEnvironment_settled : (standardEnvironment : Environment (Value H)).Binds Value.IsSettled := by
  -- There is one scope, and it binds one operation after the other.
  intro scope member binding inside
  obtain rfl := List.mem_singleton.mp member
  obtain ⟨p, -, rfl⟩ := List.mem_map.mp inside
  exact p.value_isSettled

/-- A state that binds only normal values. -/
def State.Settled (s : State H) : Prop := s.env.Binds Value.IsSettled

/-- Without host operations every step binds and gives only normal values. -/
theorem settled_preserved (m : Machine Empty) :
    Likeness.Preserves (fun (_ : Unit) => State.Settled) Value.CapturesNormal Value.IsNormal m where
  plain _ plain := plain.capturesNormal
  normal _ normal := normal
  lambda _ _ _ := by simp [Value.lambda, Value.CapturesNormal, Scope.Binds]
  skip _ _ _ _ captures := captures
  -- Arguments are evaluated before a closure is given them.
  bound _ _ _ _ _ _ captures evaluated bound := Value.capturesNormal_bind captures evaluated.1 bound
  program _ _ found := program_everywhere (fun _ plain => plain.capturesNormal) (fun _ => trivial) found
  lookup _ _ _ _ _ settled found := settled.get? found
  bind _ _ _ _ _ _ _ evaluated settled bound := settled.bind evaluated bound
  remove _ name _ _ _ _ _ settled := settled.remove name
  print _ _ _ settled := settled
  descend i _ settled := ⟨i, settled, fun _ inside => inside⟩
  enter _ _ i _ captures bindings settled :=
    ⟨i, settled.enter fun binding member => ⟨captures binding member, bindings binding member⟩,
      fun _ inside => inside.leave⟩
  hosts op := nomatch op

/-- A request that brings text and no values. -/
def Request.IsText : Request H → Prop
  | .evalText _ => True
  | .load _ => True
  | _ => False

namespace Machine

/-- A text binds only normal values when it is evaluated. -/
theorem answer_settled (m : Machine Empty) {request : Request Empty} (text : request.IsText) {s : State Empty}
    (settled : s.Settled) : (m.answer request s).2.Settled := by
  -- What is read has no closure in it.
  have sound : (Likeness.ofInvariant (fun (_ : Unit) => State.Settled) Value.CapturesNormal
      Value.IsNormal).SoundRequest request := by
    cases request with
    | evalText source =>
      exact fun expr found =>
        readSource_everywhere (fun _ plain => plain.capturesNormal) (fun _ => trivial) found
    | load path => trivial
    | _ => exact text.elim
  exact ((settled_preserved m).answer (balanced_of_empty m) (fun _ _ _ settled => settled) sound (i := ()) settled).1

/-- Evaluating an expression gives a normal value, and binds only such values on the way. -/
theorem tryEval_settled (m : Machine Empty) {s : State Empty} (settled : s.Settled) {expr : Value Empty}
    (captures : expr.Everywhere Value.CapturesNormal) :
    (m.tryEval expr s).2.Settled ∧ ∀ value, (m.tryEval expr s).1 = .ok value → value.IsSettled := by
  -- Reduction keeps what its steps keep, and the pool plays no part in it.
  have preserved := settled_preserved m
  have reducers := preserved.reducer_alike (balanced_of_empty m) fun _ _ _ settled => settled
  exact (Likeness.ofInvariant_ends (preserved.keptBy.evalWith_alike reducers captures) (i := ()) settled).2

/-- An empty list is not reduced. -/
theorem reducer_nil (m : Machine H) (s : State H) : m.reducer [] s = (.ok (.sexpr []), s) := by
  unfold reducer
  cases m.maxDepth - s.depth <;> rfl

/-- A normal value evaluates to itself, in every state. -/
theorem tryEval_of_isNormal (m : Machine H) {value : Value H} (normal : value.IsNormal) (s : State H) :
    m.tryEval value s = (.ok value, s) := by
  -- Only a name, an error and a list with items are evaluated to something else.
  cases value with
  | symbol name => exact normal.elim
  | error message => exact normal.elim
  | sexpr items =>
    cases items with
    | nil => exact m.reducer_nil s
    | cons first rest => exact normal.elim
  | _ => rfl

end Machine

/-- Results are normal forms. After any session of texts and files, every name of every scope is bound to a normal value,
and so is every argument captured in a closure anywhere inside; whatever expression with such closures is evaluated
then, its result is as normal as that, and evaluating the result gives it back and changes nothing. -/
theorem results_are_normal_forms (m : Machine Empty) (limits : PoolLimits) (requests : List (Request Empty))
    (texts : ∀ request ∈ requests, request.IsText) :
    (m.after (.initial limits) requests).env.Binds Value.IsSettled ∧
      ∀ (expr value : Value Empty) (t : State Empty), expr.Everywhere Value.CapturesNormal →
        m.tryEval expr (m.after (.initial limits) requests) = (.ok value, t) →
        value.IsSettled ∧ t.env.Binds Value.IsSettled ∧ ∀ u, m.tryEval value u = (.ok value, u) := by
  -- The operations of the language are normal, and each text keeps it so.
  have session : (m.after (.initial limits) requests).Settled := m.after_keeps State.Settled
    (fun request member _ settled => m.answer_settled (texts request member) settled) standardEnvironment_settled
  refine ⟨session, fun expr value t captures done => ?_⟩
  obtain ⟨settled, results⟩ := m.tryEval_settled session captures
  rw [done] at settled results
  have normal := results value rfl
  exact ⟨normal, settled, m.tryEval_of_isNormal normal.1⟩

/-- A quoted number that is out of range is an error inside a list; the list is bound and given to a closure as a normal
value, and the closure, which waits for another argument, evaluates to itself. -/
theorem results_are_normal_forms_waiting :
    let m := Machine.plain 8 {}
    let s := m.after (.initial {}) [.evalText "def {x} {99999999999999999999 y}"]
    let list : Value Empty := .qexpr [.error (Error.invalidNumber "99999999999999999999").message, .symbol "y"]
    let waiting : Value Empty := .closure ["b"] [.symbol "a"] ⟨[⟨"a", list, false⟩]⟩
    s.env.get? "x" = some list ∧ list.IsSettled ∧
      (∃ t, m.tryEval (.sexpr [.lambda ["a", "b"] [.symbol "a"], .symbol "x"]) s = (.ok waiting, t)) ∧
      waiting.IsSettled ∧ ∀ u, m.tryEval waiting u = (.ok waiting, u) := by
  intro m s list waiting
  have read : readSource "def {x} {99999999999999999999 y}" =
      .ok (.sexpr [.symbol "def", .qexpr [.symbol "x"], list]) := by
    -- The text is parsed first; only then are the leaves of the tree read.
    have parses : parse true "def {x} {99999999999999999999 y}" = .ok (.branch .program [.leaf .symbol "def".toList,
        Bracket.node .curly [.leaf .symbol ['x']],
        Bracket.node .curly [.leaf .number "99999999999999999999".toList, .leaf .symbol ['y']]]) :=
      parse_of_assemble rfl
    rw [readSource, parses]
    rfl
  have session : s = (m.eval (.sexpr [.symbol "def", .qexpr [.symbol "x"], list]) (.initial {})).2 := by
    simp only [s, Machine.after, List.foldl, Machine.answer, Machine.evalText, read]
    rfl
  have bound : s.env.get? "x" = some list := by
    rw [session]
    rfl
  have called : ∃ t, m.tryEval (.sexpr [.lambda ["a", "b"] [.symbol "a"], .symbol "x"]) s = (.ok waiting, t) := by
    rw [session]
    exact ⟨_, rfl⟩
  -- The function that is called has been given nothing yet.
  have symbols : ∀ name, (Value.symbol name : Value Empty).Everywhere Value.CapturesNormal :=
    fun name => Value.everywhere_of_leaf rfl trivial
  have function : (Value.lambda ["a", "b"] [.symbol "a"] : Value Empty).Everywhere Value.CapturesNormal :=
    Value.everywhere_iff.mpr ⟨by simp [Value.lambda, Value.CapturesNormal, Scope.Binds],
      by simpa [Value.lambda, Value.children] using symbols "a"⟩
  have captures : (Value.sexpr [.lambda ["a", "b"] [.symbol "a"], .symbol "x"] : Value Empty).Everywhere
      Value.CapturesNormal :=
    Value.everywhere_iff.mpr ⟨trivial, by simpa [Value.children] using ⟨function, symbols "x"⟩⟩
  have normal := results_are_normal_forms m {} [.evalText "def {x} {99999999999999999999 y}"] (by simp [Request.IsText])
  obtain ⟨t, done⟩ := called
  obtain ⟨settled, -, again⟩ := normal.2 _ waiting t captures done
  exact ⟨bound, normal.1.get? bound, ⟨t, done⟩, settled, again⟩

end QuoteLisp
