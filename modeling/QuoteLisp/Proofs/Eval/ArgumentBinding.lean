import QuoteLisp.Proofs.Environment.Rebinding
import QuoteLisp.Proofs.Eval.Currying

/-! What a call of a closure does with any number of arguments: it fails, it gives the closure that waits for more, or it
runs the body in a scope where the formals stand for the arguments. -/

namespace QuoteLisp

variable {H : Type}

/-- A scope that has received values for names. -/
structure Scope.Receives (scope : Scope (Value H)) (pairs : List (String × Value H)) (bound : Scope (Value H)) :
    Prop where
  /-- The names are bound one after the other. -/
  inOrder : pairs.foldlM (fun known pair => known.bind pair.1 pair.2) scope = .ok bound
  /-- Each name stands for what is given to it last, and nothing else is different. -/
  rebound : DefineMode.innermost.Rebound pairs scope bound

/-- Names that a scope does not protect can all be bound, also where one of them is repeated. -/
theorem Scope.receives_of_free {pairs : List (String × Value H)} {scope : Scope (Value H)}
    (free : ∀ pair ∈ pairs, scope.isProtected pair.1 = false) : ∃ bound, scope.Receives pairs bound := by
  -- A name that is bound is not protected by that, so the others stay free in the scope of the moment.
  induction pairs generalizing scope with
  | nil => exact ⟨scope, rfl, by simp [DefineMode.given?], rfl, by simp⟩
  | cons pair pairs ih =>
    have admitted : DefineMode.innermost.refuses scope pair.1 = false := free pair (by simp)
    obtain ⟨middle, done⟩ := DefineMode.bindIn_of_not_refuses pair.2 admitted
    have later : ∀ other ∈ pairs, middle.isProtected other.1 = false := by
      intro other member
      have before : DefineMode.innermost.refuses scope other.1 = false := free other (by simp [member])
      exact DefineMode.not_refuses_of_bindIn before (by simp [DefineMode.protects]) done
    obtain ⟨bound, inOrder, rebound⟩ := ih later
    have first : scope.bind pair.1 pair.2 = .ok middle := done
    refine ⟨bound, ?_, (DefineMode.rebound_of_bindIn done).cons rebound⟩
    rw [List.foldlM_cons, first]
    exact inOrder

/-- Binding names to values one after the other goes through the pairs of both. -/
theorem Scope.bindEach_eq_foldlM (scope : Scope (Value H)) (names : List String) (values : List (Value H)) :
    scope.bindEach names values = (names.zip values).foldlM (fun known pair => known.bind pair.1 pair.2) scope := by
  induction names generalizing scope values with
  | nil => rfl
  | cons name names ih =>
    cases values with
    | nil => rfl
    | cons value values =>
      simp only [bindEach, List.zip_cons_cons, List.foldlM_cons]
      cases scope.bind name value with
      | error e => rfl
      | ok bound => exact ih bound values

section Formals

variable {formals : List String}

/-- What stands at the place of the rest marker is the marker. -/
theorem drop_idxOf_restMarker (marked : restMarker ∈ formals) :
    formals.drop (formals.idxOf restMarker) = restMarker :: formals.drop (formals.idxOf restMarker + 1) := by
  have inside : formals.idxOf restMarker < formals.length := List.idxOf_lt_length_of_mem marked
  rw [List.drop_eq_getElem_cons inside, List.getElem_idxOf inside]

/-- At the rest marker all further arguments go to the one formal behind it. -/
theorem bindArguments_marker (formalCount argCount : Nat) (after : List String) (scope : Scope (Value H))
    (args : List (Value H)) :
    bindArguments formalCount argCount (restMarker :: after) scope args = bindRest scope after args := by
  cases args with
  | nil => simp [bindArguments]
  | cons arg args => simp [bindArguments]

/-- Formals and arguments before the rest marker, in pairs. -/
def pairedBefore (formals : List String) (args : List (Value H)) : List (String × Value H) :=
  (formals.take (formals.idxOf restMarker)).zip args

/-- Only formals are paired. -/
theorem mem_formals_of_pairedBefore {args : List (Value H)} {pair : String × Value H}
    (member : pair ∈ pairedBefore formals args) : pair.1 ∈ formals :=
  List.mem_of_mem_take (List.of_mem_zip member).1

/-- Formals that a scope does not protect receive their arguments. -/
theorem receives_pairedBefore {scope : Scope (Value H)} (args : List (Value H))
    (free : ∀ formal ∈ formals, scope.isProtected formal = false) :
    ∃ bound, scope.Receives (pairedBefore formals args) bound := by
  apply Scope.receives_of_free
  intro pair member
  exact free pair.1 (mem_formals_of_pairedBefore member)

/-- As many arguments as there are formals before the rest marker are bound in pairs. -/
theorem bindEach_take (formals : List String) (scope : Scope (Value H)) (args : List (Value H)) :
    scope.bindEach formals (args.take (formals.idxOf restMarker)) =
      (pairedBefore formals args).foldlM (fun known pair => known.bind pair.1 pair.2) scope := by
  rw [Scope.bindEach_eq_foldlM, pairedBefore]
  congr 1
  -- A pair needs both of its sides, so it does not matter which of the two lists is cut.
  apply List.ext_getElem?
  intro i
  simp only [List.zip, List.getElem?_zipWith, List.getElem?_take]
  by_cases before : i < formals.idxOf restMarker
  · simp only [if_pos before]
  · simp [if_neg before]

/-- Once the formals before the rest marker have their arguments, the marker and what is behind it take the others. -/
theorem bindArguments_reached {scope bound : Scope (Value H)} {args : List (Value H)}
    (received : scope.Receives (pairedBefore formals args) bound)
    (enough : formals.idxOf restMarker ≤ args.length) :
    bindArguments formals.length args.length formals scope args =
      bindArguments formals.length args.length (formals.drop (formals.idxOf restMarker)) bound
        (args.drop (formals.idxOf restMarker)) := by
  have cut : (args.take (formals.idxOf restMarker)).length = formals.idxOf restMarker := by
    rw [List.length_take]
    omega
  have split := bindArguments_append formals.length args.length scope (Nat.le_of_eq cut)
    (args.drop (formals.idxOf restMarker))
  rw [List.take_append_drop, bindEach_take, received.inOrder, cut] at split
  exact split

end Formals

namespace Machine

variable (m : Machine H) {formals : List String} (body : List (Value H)) {scope : Scope (Value H)}
  {args : List (Value H)} (s : State H)

/-- With too few arguments a closure gives the one that waits for the others. -/
theorem call_of_few (free : ∀ formal ∈ formals, scope.isProtected formal = false)
    (few : args.length < formals.idxOf restMarker) :
    ∃ bound, scope.Receives (pairedBefore formals args) bound ∧
      m.call (.closure formals body scope) args s =
        (.ok (.closure (formals.drop args.length) body bound), s) := by
  obtain ⟨bound, received⟩ := receives_pairedBefore args free
  refine ⟨bound, received, ?_⟩
  -- None of the arguments is cut off, so all of them are bound.
  have binds := bindEach_take formals scope args
  rw [List.take_of_length_le (Nat.le_of_lt few), received.inOrder] at binds
  rw [m.call_early body scope few, binds]
  rfl

/-- Without a rest marker, and with as many arguments as formals or more, either the body runs or there are too many. -/
theorem call_of_unmarked (free : ∀ formal ∈ formals, scope.isProtected formal = false)
    (unmarked : restMarker ∉ formals) (enough : formals.length ≤ args.length) :
    ∃ bound, scope.Receives (pairedBefore formals args) bound ∧
      m.call (.closure formals body scope) args s =
        if args.length = formals.length then (Eval.within bound (m.tryEval (.sexpr body)) >>= raiseError) s
        else (.error (.tooManyArguments formals.length args.length), s) := by
  have all : formals.idxOf restMarker = formals.length := List.idxOf_eq_length unmarked
  obtain ⟨bound, received⟩ := receives_pairedBefore args free
  refine ⟨bound, received, ?_⟩
  have reached := bindArguments_reached received (by omega)
  rw [all, List.drop_length] at reached
  rw [m.call_closure, reached]
  -- All formals are bound, so it is the arguments that are left over which decide.
  cases left : args.drop formals.length with
  | nil =>
    have same : args.length = formals.length := by
      have short := List.drop_eq_nil_iff.mp left
      omega
    rw [if_pos same]
    rfl
  | cons arg rest =>
    have more : args.length ≠ formals.length := by
      intro same
      rw [← same, List.drop_length] at left
      cases left
    rw [if_neg more]
    rfl

/-- A rest marker that is not followed by one formal alone is refused as soon as it is reached. -/
theorem call_of_malformed (free : ∀ formal ∈ formals, scope.isProtected formal = false)
    (marked : restMarker ∈ formals) (enough : formals.idxOf restMarker ≤ args.length)
    (malformed : ∀ last, formals.drop (formals.idxOf restMarker + 1) ≠ [last]) :
    m.call (.closure formals body scope) args s = (.error .malformedVariadic, s) := by
  obtain ⟨bound, received⟩ := receives_pairedBefore args free
  rw [m.call_closure, bindArguments_reached received enough, drop_idxOf_restMarker marked, bindArguments_marker]
  cases after : formals.drop (formals.idxOf restMarker + 1) with
  | nil => rfl
  | cons first others =>
    cases others with
    | nil => exact absurd after (malformed first)
    | cons second others => rfl

/-- With one formal behind the rest marker the body runs, and that formal has all further arguments in a list. -/
theorem call_of_marked (free : ∀ formal ∈ formals, scope.isProtected formal = false)
    (marked : restMarker ∈ formals) (enough : formals.idxOf restMarker ≤ args.length) {last : String}
    (one : formals.drop (formals.idxOf restMarker + 1) = [last]) :
    ∃ bound, scope.Receives
        (pairedBefore formals args ++ [(last, .qexpr (args.drop (formals.idxOf restMarker)))]) bound ∧
      m.call (.closure formals body scope) args s =
        (Eval.within bound (m.tryEval (.sexpr body)) >>= raiseError) s := by
  have lastFree : scope.isProtected last = false :=
    free last (List.mem_of_mem_drop (by rw [one]; simp))
  obtain ⟨middle, received⟩ := receives_pairedBefore args free
  obtain ⟨bound, complete⟩ := Scope.receives_of_free (show
    ∀ pair ∈ pairedBefore formals args ++ [(last, .qexpr (args.drop (formals.idxOf restMarker)))],
      scope.isProtected pair.1 = false by
    intro pair member
    rcases List.mem_append.mp member with member | member
    · exact free pair.1 (mem_formals_of_pairedBefore member)
    · rw [List.mem_singleton.mp member]
      exact lastFree)
  refine ⟨bound, complete, ?_⟩
  -- The list of the further arguments is bound where the formals before the marker are bound already.
  have bindsLast : middle.bind last (.qexpr (args.drop (formals.idxOf restMarker))) = .ok bound := by
    have inOrder := complete.inOrder
    rw [List.foldlM_append, received.inOrder] at inOrder
    exact (bind_pure _).symm.trans inOrder
  rw [m.call_closure, bindArguments_reached received enough, drop_idxOf_restMarker marked, bindArguments_marker, one,
    bindRest, bindsLast]
  rfl

/-- A body that runs in a scope sees it on top of the chain, and the call ends without it; an error value is raised. -/
theorem runBody_apply (bound : Scope (Value H)) :
    (Eval.within bound (m.tryEval (.sexpr body)) >>= raiseError) s =
      let ran := m.tryEval (.sexpr body) { s with env := { s.env with inner := bound :: s.env.inner } }
      (match ran.1 with
        | .ok (.error message) => .error (.raised message)
        | result => result,
      { ran.2 with env := { ran.2.env with inner := ran.2.env.inner.tail } }) := by
  rw [Eval.bind_apply, Eval.within_apply]
  simp only [Environment.enter, Environment.leave]
  generalize m.tryEval (.sexpr body) _ = ran
  obtain ⟨result, t⟩ := ran
  cases result with
  | error e => rfl
  | ok value => cases value <;> rfl

end Machine

/-- A call of a closure that protects none of its formals binds its arguments exactly: what is given before the rest
marker goes to the formals in order, what is given from there on goes to the last formal as a list, and the body runs
with these bindings in one scope on top of the caller's chain. The state is touched only when the body runs. -/
theorem argument_binding_exact (m : Machine H) (formals : List String) (body : List (Value H))
    (scope : Scope (Value H)) (free : ∀ formal ∈ formals, scope.isProtected formal = false) (args : List (Value H))
    (s : State H) :
    let marker := formals.idxOf restMarker
    let pairs := (formals.take marker).zip args
    let called := m.call (.closure formals body scope) args s
    -- The body as an S-expression, where one scope is pushed on the chain.
    let run := fun bound => m.tryEval (.sexpr body) { s with env := { s.env with inner := bound :: s.env.inner } }
    -- What the run leaves behind, without the scope on top; an error value is a failure.
    let finish := fun (ran : Except Error (Value H) × State H) =>
      (match ran.1 with
        | .ok (.error message) => .error (.raised message)
        | result => result,
      { ran.2 with env := { ran.2.env with inner := ran.2.env.inner.tail } })
    -- Without a rest marker.
    (restMarker ∉ formals →
      (formals.length < args.length → called = (.error (.tooManyArguments formals.length args.length), s)) ∧
      (args.length < formals.length → ∃ bound, scope.Receives pairs bound ∧
        called = (.ok (.closure (formals.drop args.length) body bound), s)) ∧
      (args.length = formals.length → ∃ bound, scope.Receives pairs bound ∧ called = finish (run bound))) ∧
    -- With one.
    (restMarker ∈ formals →
      (args.length < marker → ∃ bound, scope.Receives pairs bound ∧
        called = (.ok (.closure (formals.drop args.length) body bound), s)) ∧
      (marker ≤ args.length → (∀ last, formals.drop (marker + 1) ≠ [last]) →
        called = (.error .malformedVariadic, s)) ∧
      (∀ last, marker ≤ args.length → formals.drop (marker + 1) = [last] →
        ∃ bound, scope.Receives (pairs ++ [(last, .qexpr (args.drop marker))]) bound ∧
          called = finish (run bound))) := by
  intro marker pairs called run finish
  refine ⟨fun unmarked => ⟨fun more => ?_, fun fewer => ?_, fun same => ?_⟩, fun marked =>
    ⟨m.call_of_few body s free, m.call_of_malformed body s free marked, fun last enough one => ?_⟩⟩
  · obtain ⟨bound, -, done⟩ := m.call_of_unmarked body s free unmarked (Nat.le_of_lt more)
    rwa [if_neg (by omega)] at done
  · have all : formals.idxOf restMarker = formals.length := List.idxOf_eq_length unmarked
    have few : args.length < formals.idxOf restMarker := by omega
    exact m.call_of_few body s free few
  · obtain ⟨bound, received, done⟩ := m.call_of_unmarked body s free unmarked (Nat.le_of_eq same.symm)
    rw [if_pos same] at done
    exact ⟨bound, received, done.trans (m.runBody_apply body s bound)⟩
  · obtain ⟨bound, received, done⟩ := m.call_of_marked body s free marked enough one
    exact ⟨bound, received, done.trans (m.runBody_apply body s bound)⟩

/-- A closure with one formal twice and a rest formal: two arguments reach the marker and leave the rest empty, one
waits, and the second formal hides the first. The body sees the captured name before that of the caller, and the scope
is gone afterwards. A marker with nothing behind it is no obstacle before it is reached. -/
theorem argument_binding_exact_repeated :
    let m := Machine.plain 8 {}
    let s : State Empty :=
      { env := { root := ⟨[⟨"y", .integer 9, false⟩]⟩, inner := [⟨[⟨"x", .integer 5, false⟩]⟩] } }
    let body : List (Value Empty) := [Primitive.list.value, .symbol "a", .symbol "b", .symbol "x", .symbol "y"]
    let scope : Scope (Value Empty) := ⟨[⟨"x", .integer 0, false⟩]⟩
    let called := m.call (.closure ["a", "a", "&", "b"] body scope) [.integer 1, .integer 2] s
    (∃ bound, scope.Receives [("a", .integer 1), ("a", .integer 2), ("b", .qexpr [])] bound ∧
      bound.bindings = [⟨"x", .integer 0, false⟩, ⟨"a", .integer 2, false⟩, ⟨"b", .qexpr [], false⟩] ∧
      called.1 = (m.tryEval (.sexpr body) { s with env := { s.env with inner := bound :: s.env.inner } }).1) ∧
      called.1 = .ok (.qexpr [.integer 2, .qexpr [], .integer 0, .integer 9]) ∧ called.2.env = s.env ∧
      (∃ bound, scope.Receives [("a", .integer 1)] bound ∧
        m.call (.closure ["a", "a", "&"] body scope) [.integer 1] s =
          (.ok (.closure ["a", "&"] body bound), s)) ∧
      m.call (.closure ["a", "a", "&"] body scope) [.integer 1, .integer 2] s = (.error .malformedVariadic, s) ∧
      m.call (.closure ["a"] body scope) [.integer 1, .integer 2] s = (.error (.tooManyArguments 1 2), s) := by
  intro m s body scope called
  have variadic := argument_binding_exact m ["a", "a", "&", "b"] body scope (by decide) [.integer 1, .integer 2] s
  have early := argument_binding_exact m ["a", "a", "&"] body scope (by decide) [.integer 1] s
  have reached := argument_binding_exact m ["a", "a", "&"] body scope (by decide) [.integer 1, .integer 2] s
  have plain := argument_binding_exact m ["a"] body scope (by decide) [.integer 1, .integer 2] s
  obtain ⟨bound, received, runs⟩ := (variadic.2 (by decide)).2.2 "b" (by decide) rfl
  let entered : Scope (Value Empty) :=
    ⟨[⟨"x", .integer 0, false⟩, ⟨"a", .integer 2, false⟩, ⟨"b", .qexpr [], false⟩]⟩
  -- Binding in order is a computation, so the scope is the one that it ends with.
  have inOrder : Except.ok entered = .ok bound := received.inOrder
  obtain rfl := Except.ok.inj inOrder
  have result : (m.tryEval (.sexpr body) { s with env := { s.env with inner := entered :: s.env.inner } }).1 =
      .ok (.qexpr [.integer 2, .qexpr [], .integer 0, .integer 9]) := rfl
  have chain : (m.tryEval (.sexpr body) { s with env := { s.env with inner := entered :: s.env.inner } }).2.env =
      { s.env with inner := entered :: s.env.inner } := rfl
  have value : called.1 = .ok (.qexpr [.integer 2, .qexpr [], .integer 0, .integer 9]) := by
    simp only [called, runs, result]
  have env : called.2.env = s.env := by
    simp only [called, runs, chain, List.tail_cons]
  exact ⟨⟨entered, received, rfl, value.trans result.symm⟩, value, env, (early.2 (by decide)).1 (by decide),
    (reached.2 (by decide)).2.1 (by decide) fun last => (List.cons_ne_nil last []).symm,
    (plain.1 (by decide)).1 (by decide)⟩

end QuoteLisp
