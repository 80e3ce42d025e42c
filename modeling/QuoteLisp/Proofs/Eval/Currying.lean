import QuoteLisp.Eval.Reduce

/-! Arguments may be given to a closure in batches: as long as the formals before the rest marker are not used up, the
closure that waits for the others does with them what the closure itself does with all. -/

namespace QuoteLisp

variable {H α : Type}

/-- A failure of too many arguments without its counts; every other failure as it is. -/
def Error.withoutCounts : Error → Error
  | tooManyArguments _ _ => tooManyArguments 0 0
  | other => other

/-- Two ends of an evaluation that are the same up to the counts in a failure of too many arguments. -/
def SameButCounts (r r' : Except Error α × State H) : Prop :=
  r.1.mapError Error.withoutCounts = r'.1.mapError Error.withoutCounts ∧ r.2 = r'.2

namespace SameButCounts

theorem refl (r : Except Error α × State H) : SameButCounts r r := ⟨rfl, rfl⟩

theorem trans {r r' r'' : Except Error α × State H} (first : SameButCounts r r') (second : SameButCounts r' r'') :
    SameButCounts r r'' :=
  ⟨first.1.trans second.1, first.2.trans second.2⟩

end SameButCounts

/-- Binds names to values one after the other, as long as there are both. -/
def Scope.bindEach (scope : Scope (Value H)) : List String → List (Value H) → Except Error (Scope (Value H))
  | name :: names, value :: values => do
    let bound ← scope.bind name value
    bound.bindEach names values
  | _, _ => .ok scope

/-- A rest marker that is not the first of the formals is one place nearer among the others. -/
theorem idxOf_restMarker_cons {formal : String} {after : List String}
    (later : 0 < (formal :: after).idxOf restMarker) :
    formal ≠ restMarker ∧ (formal :: after).idxOf restMarker = after.idxOf restMarker + 1 := by
  have ordinary : formal ≠ restMarker := by
    rintro rfl
    simp at later
  exact ⟨ordinary, by rw [List.idxOf_cons, beq_eq_false_iff_ne.mpr ordinary, cond_false]⟩

/-- Without the names that stand before it the rest marker is so many places nearer. -/
theorem idxOf_restMarker_drop {formals : List String} {count : Nat} (early : count ≤ formals.idxOf restMarker) :
    (formals.drop count).idxOf restMarker = formals.idxOf restMarker - count := by
  -- Each name that is dropped is no rest marker, since the marker stands behind all of them.
  induction count generalizing formals with
  | zero => simp
  | succ count ih =>
    cases formals with
    | nil => simp
    | cons formal after =>
      have nearer := (idxOf_restMarker_cons (by omega : 0 < (formal :: after).idxOf restMarker)).2
      rw [List.drop_succ_cons, ih (by omega), nearer]
      omega

/-- Arguments before the rest marker are bound one by one, and what is left of the formals takes the others. -/
theorem bindArguments_append (formalCount argCount : Nat) {formals : List String} (scope : Scope (Value H))
    {xs : List (Value H)} (early : xs.length ≤ formals.idxOf restMarker) (ys : List (Value H)) :
    bindArguments formalCount argCount formals scope (xs ++ ys) =
      scope.bindEach formals xs >>= fun bound =>
        bindArguments formalCount argCount (formals.drop xs.length) bound ys := by
  induction xs generalizing formals scope with
  | nil => cases formals <;> rfl
  | cons x xs ih =>
    cases formals with
    | nil => simp at early
    | cons formal after =>
      -- The marker is not the first of the formals, so the first argument has a formal of its own.
      rw [List.length_cons] at early
      obtain ⟨ordinary, nearer⟩ := idxOf_restMarker_cons (by omega : 0 < (formal :: after).idxOf restMarker)
      simp only [List.cons_append, bindArguments, if_neg ordinary, Scope.bindEach]
      cases scope.bind formal x with
      | error e => rfl
      | ok bound => exact ih bound (by omega)

/-- The counts serve the failure that reports them and nothing else. -/
theorem bindArguments_counts (formalCount argCount formalCount' argCount' : Nat) (formals : List String)
    (scope : Scope (Value H)) (args : List (Value H)) :
    (bindArguments formalCount argCount formals scope args).mapError Error.withoutCounts =
      (bindArguments formalCount' argCount' formals scope args).mapError Error.withoutCounts := by
  -- Formals and arguments are followed together; only their ends and the rest marker decide anything.
  induction formals generalizing scope args with
  | nil => cases args <;> rfl
  | cons formal after ih =>
    cases args with
    | nil => rfl
    | cons arg args =>
      simp only [bindArguments]
      split
      · rfl
      · cases scope.bind formal arg with
        | error e => rfl
        | ok bound => exact ih bound args

namespace Machine

/-- What a call of a closure does once its arguments are bound. -/
def proceed (m : Machine H) (body : List (Value H)) : Bound H → Eval H (Value H)
  | .waiting formals scope => pure (.closure formals body scope)
  | .complete scope => Eval.within scope (m.reducer body) >>= raiseError

/-- A call of a closure binds the arguments without looking at the state, and then goes on. -/
theorem call_closure (m : Machine H) (formals : List String) (body : List (Value H)) (scope : Scope (Value H))
    (args : List (Value H)) (s : State H) :
    m.call (.closure formals body scope) args s =
      (Eval.ofExcept (bindArguments formals.length args.length formals scope args) >>= m.proceed body) s := by
  have called : m.call (.closure formals body scope) args s =
      (callClosure m.reducer formals body scope args >>= raiseError) s := rfl
  rw [called, callClosure]
  -- A closure that waits is no error value, so nothing is raised for it.
  cases bindArguments formals.length args.length formals scope args with
  | error e => rfl
  | ok bound => cases bound <;> rfl

/-- Bindings that agree but for their counts go on alike. -/
theorem proceed_of_counts (m : Machine H) (body : List (Value H)) {r r' : Except Error (Bound H)}
    (same : r.mapError Error.withoutCounts = r'.mapError Error.withoutCounts) (s : State H) :
    SameButCounts ((Eval.ofExcept r >>= m.proceed body) s) ((Eval.ofExcept r' >>= m.proceed body) s) := by
  -- Two failures stay what they are, and two results are one and the same.
  cases r with
  | error e =>
    cases r' with
    | error e' =>
      have failures : e.withoutCounts = e'.withoutCounts := Except.error.inj same
      exact ⟨congrArg Except.error failures, rfl⟩
    | ok bound => cases same
  | ok bound =>
    cases r' with
    | error e' => cases same
    | ok bound' =>
      cases same
      exact .refl _

/-- With too few arguments before the rest marker a closure fails to bind one of them, or it gives the closure that
waits for the others. -/
theorem call_early (m : Machine H) {formals : List String} (body : List (Value H)) (scope : Scope (Value H))
    {xs : List (Value H)} (early : xs.length < formals.idxOf restMarker) (s : State H) :
    m.call (.closure formals body scope) xs s =
      ((scope.bindEach formals xs).map fun bound => .closure (formals.drop xs.length) body bound, s) := by
  have split := bindArguments_append formals.length xs.length scope (Nat.le_of_lt early) []
  rw [List.append_nil] at split
  rw [call_closure, split]
  cases scope.bindEach formals xs with
  | error e => rfl
  | ok bound =>
    -- The next formal is no rest marker either, so it waits.
    have left := idxOf_restMarker_drop (Nat.le_of_lt early)
    cases rest : formals.drop xs.length with
    | nil =>
      rw [rest, List.idxOf_nil] at left
      omega
    | cons formal after =>
      rw [rest] at left
      obtain ⟨ordinary, -⟩ := idxOf_restMarker_cons (by omega : 0 < (formal :: after).idxOf restMarker)
      show (Eval.ofExcept (bindArguments formals.length xs.length (formal :: after) bound []) >>= m.proceed body) s = _
      rw [bindArguments, if_neg ordinary]
      rfl

/-- The closure that waits does with further arguments what the closure itself does with all of them. -/
theorem call_waiting (m : Machine H) {formals : List String} (body : List (Value H)) {scope bound : Scope (Value H)}
    {xs : List (Value H)} (early : xs.length < formals.idxOf restMarker)
    (done : scope.bindEach formals xs = .ok bound) (ys : List (Value H)) (s : State H) :
    SameButCounts (m.call (.closure (formals.drop xs.length) body bound) ys s)
      (m.call (.closure formals body scope) (xs ++ ys) s) := by
  -- Both go on with the same formals and the same scope; only the counts that they would report differ.
  rw [call_closure, call_closure, bindArguments_append _ _ scope (Nat.le_of_lt early), done]
  exact m.proceed_of_counts body (bindArguments_counts _ _ _ _ _ bound ys) s

/-- Calls a value with one batch of arguments after the other, each time the result of the call before. -/
def callInTurn (m : Machine H) (callee : Value H) : List (List (Value H)) → Eval H (Value H)
  | [] => pure callee
  | args :: batches => do
    let next ← m.call callee args
    m.callInTurn next batches

/-- Batches before the rest marker, and a last one that may reach it, do what all arguments at once do. -/
theorem callInTurn_closure (m : Machine H) (body : List (Value H)) (batches : List (List (Value H)))
    {formals : List String} (scope : Scope (Value H)) (early : batches.flatten.length < formals.idxOf restMarker)
    (last : List (Value H)) (s : State H) :
    SameButCounts (m.callInTurn (.closure formals body scope) (batches ++ [last]) s)
      (m.call (.closure formals body scope) (batches.flatten ++ last) s) := by
  induction batches generalizing formals scope with
  | nil =>
    -- A single batch is one call.
    have once : m.callInTurn (.closure formals body scope) [last] s = m.call (.closure formals body scope) last s := by
      simp only [callInTurn, Eval.bind_apply]
      generalize m.call (.closure formals body scope) last s = r
      obtain ⟨outcome, t⟩ := r
      cases outcome <;> rfl
    rw [List.nil_append, once]
    exact .refl _
  | cons args batches ih =>
    rw [List.flatten_cons, List.length_append] at early
    have first : args.length < formals.idxOf restMarker := by omega
    rw [List.flatten_cons, List.append_assoc, List.cons_append, callInTurn, Eval.bind_apply,
      m.call_early body scope first]
    cases done : scope.bindEach formals args with
    | error e =>
      -- Whatever follows the batch, its arguments are bound first and fail in the same way.
      rw [call_closure, bindArguments_append _ _ scope (Nat.le_of_lt first), done]
      exact .refl _
    | ok bound =>
      have left := idxOf_restMarker_drop (Nat.le_of_lt first)
      exact (ih bound (by omega)).trans (m.call_waiting body first done (batches.flatten ++ last) s)

end Machine

/-- A closure that is given too few arguments before its rest marker, and does not refuse one, gives a closure that
waits for the others and changes nothing; the waiting closure does with any further arguments, in any state, what the
closure itself does with all of them. So arguments may be split into batches in any way before the rest marker. -/
theorem closure_calls_curry (m : Machine H) (formals : List String) (body : List (Value H)) (scope : Scope (Value H)) :
    (∀ xs s value t, xs.length < formals.idxOf restMarker →
      m.call (.closure formals body scope) xs s = (.ok value, t) →
      t = s ∧ (∃ bound, value = .closure (formals.drop xs.length) body bound) ∧
        ∀ ys u, SameButCounts (m.call value ys u) (m.call (.closure formals body scope) (xs ++ ys) u)) ∧
    ∀ batches last u, batches.flatten.length < formals.idxOf restMarker →
      SameButCounts (m.callInTurn (.closure formals body scope) (batches ++ [last]) u)
        (m.call (.closure formals body scope) (batches.flatten ++ last) u) := by
  refine ⟨fun xs s value t early done => ?_,
    fun batches last u early => m.callInTurn_closure body batches scope early last u⟩
  rw [m.call_early body scope early] at done
  -- A call that succeeds has bound all its arguments.
  cases binds : scope.bindEach formals xs with
  | error e =>
    rw [binds] at done
    cases done
  | ok bound =>
    rw [binds] at done
    cases done
    exact ⟨rfl, ⟨bound, rfl⟩, m.call_waiting body early binds⟩

/-- A closure with one formal twice and a rest marker, given its arguments at once and in three batches, one of them
empty; and one whose rest marker is followed by nothing, which fails only when the marker is reached. -/
theorem closure_calls_curry_variadic :
    let m := Machine.plain 8 {}
    let s : State Empty := {}
    let body : List (Value Empty) := [Primitive.list.value, .symbol "a", .symbol "b"]
    let waiting : Value Empty := .closure ["a", "&", "b"] body ⟨[⟨"a", .integer 1, false⟩]⟩
    let malformed : Value Empty := .lambda ["a", "b", "&"] body
    (m.call (.lambda ["a", "a", "&", "b"] body) [.integer 1] s).1 = .ok waiting ∧
      (m.call waiting [.integer 2, .integer 3] s).1 = .ok (.qexpr [.integer 2, .qexpr [.integer 3]]) ∧
      SameButCounts (m.call waiting [.integer 2, .integer 3] s)
        (m.call (.lambda ["a", "a", "&", "b"] body) [.integer 1, .integer 2, .integer 3] s) ∧
      (m.call malformed [.integer 1, .integer 2, .integer 3] s).1 = .error .malformedVariadic ∧
      SameButCounts (m.callInTurn malformed [[], [.integer 1], [.integer 2, .integer 3]] s)
        (m.call malformed [.integer 1, .integer 2, .integer 3] s) := by
  intro m s body waiting malformed
  have first : m.call (.lambda ["a", "a", "&", "b"] body) [.integer 1] s = (.ok waiting, s) := by rfl
  have curried := closure_calls_curry m ["a", "a", "&", "b"] body {}
  have split := closure_calls_curry m ["a", "b", "&"] body {}
  refine ⟨by rw [first], by rfl, ?_, by rfl, ?_⟩
  · exact (curried.1 [.integer 1] s waiting s (by decide) first).2.2 [.integer 2, .integer 3] s
  · exact split.2 [[], [.integer 1]] [.integer 2, .integer 3] s (by decide)

end QuoteLisp
