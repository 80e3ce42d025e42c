import QuoteLisp.Eval.Reduce
import QuoteLisp.Proofs.Environment.Rebinding
import QuoteLisp.Session

/-! Definition forms bind all of their names or none. -/

namespace QuoteLisp

variable {H : Type} {reduce : Reducer H} {mode : DefineMode} {s : State H}

/-- The state after a definition form has looked at its target. -/
def targetState (reduce : Reducer H) (target : Value H) (s : State H) : State H :=
  (targetOf reduce target s).2

/-- A definition form whose operands get evaluated: the target gives as many names as there are operands, and none
of them is refused. -/
structure Prepared (reduce : Reducer H) (mode : DefineMode) (s : State H) (target : Value H)
    (operands : List (Value H)) (names : List String) : Prop where
  named : (definedNames reduce mode.name target s).1 = .ok names
  counted : names.length = operands.length
  admitted : mode.Admits (mode.home (targetState reduce target s).env) names

/-- Expressions evaluated from left to right: each has its value in the state that the one before leaves, and the last
one leaves the state `t`. -/
inductive ValuesInOrder (reduce : Reducer H) : State H → List (Value H) → List (Value H) → (t : State H) → Prop where
  | nil (s : State H) : ValuesInOrder reduce s [] [] s
  | cons {s middle t : State H} {expr value : Value H} {rest values : List (Value H)}
    (evaluated : evalWith reduce expr s = (.ok value, middle)) (later : ValuesInOrder reduce middle rest values t) :
    ValuesInOrder reduce s (expr :: rest) (value :: values) t

/-- How a definition form may end. Only the last case binds anything. -/
inductive DefinitionEnds (reduce : Reducer H) (mode : DefineMode) (s : State H) :
    List (Value H) → Except Error (Value H) × State H → Prop where
  | tooFew {args : List (Value H)} (few : args.length < 2) :
    DefinitionEnds reduce mode s args (.error (.arityMismatch mode.name (.atLeast 2) args.length), s)
  /-- No operand is evaluated. -/
  | refused {target : Value H} {operands : List (Value H)} {e : Error}
    (unprepared : ∀ names, ¬ Prepared reduce mode s target operands names) :
    DefinitionEnds reduce mode s (target :: operands) (.error e, targetState reduce target s)
  /-- An operand fails, and those behind it are not evaluated. -/
  | failed {target expr : Value H} {operands earlier later values : List (Value H)} {names : List String} {e : Error}
    {middle last : State H} (prepared : Prepared reduce mode s target operands names)
    (split : operands = earlier ++ expr :: later)
    (before : ValuesInOrder reduce (targetState reduce target s) earlier values middle)
    (failed : evalWith reduce expr middle = (.error e, last)) :
    DefinitionEnds reduce mode s (target :: operands) (.error e, last)
  /-- Evaluating the operands has made one of the names a refused one. -/
  | blocked {target : Value H} {operands values : List (Value H)} {names : List String} {e : Error} {last : State H}
    (prepared : Prepared reduce mode s target operands names)
    (evaluated : ValuesInOrder reduce (targetState reduce target s) operands values last)
    (refused : ¬ mode.Admits (mode.home last.env) names) :
    DefinitionEnds reduce mode s (target :: operands) (.error e, last)
  /-- Each name has a value of its own to be bound to. -/
  | done {target : Value H} {operands values : List (Value H)} {names : List String} {last : State H}
    {scope : Scope (Value H)} (prepared : Prepared reduce mode s target operands names)
    (evaluated : ValuesInOrder reduce (targetState reduce target s) operands values last)
    (paired : names.length = values.length) (admitted : mode.Admits (mode.home last.env) names)
    (rebound : mode.Rebound (names.zip values) (mode.home last.env) scope) :
    DefinitionEnds reduce mode s (target :: operands) (.ok .empty, { last with env := mode.withHome last.env scope })

/-- Whether or not a target gives names, the state afterwards is the one that its evaluation leaves. -/
theorem definedNames_state (reduce : Reducer H) (operation : String) (target : Value H) (s : State H) :
    (definedNames reduce operation target s).2 = targetState reduce target s := by
  -- What a target stands for is found without looking at the state.
  rw [definedNames_eq, targetState, Eval.bind_apply]
  generalize targetOf reduce target s = r
  obtain ⟨outcome, t⟩ := r
  cases outcome with
  | ok found => rfl
  | error e => rfl

section Evaluation

variable {exprs values : List (Value H)} {t : State H} {e : Error}

/-- There are as many values as expressions. -/
theorem ValuesInOrder.length_eq (inOrder : ValuesInOrder reduce s exprs values t) : values.length = exprs.length := by
  induction inOrder with
  | nil s => rfl
  | cons _ _ ih => rw [List.length_cons, List.length_cons, ih]

/-- Expressions that all have a value are evaluated in order. -/
theorem evalAllWith_eq_ok : evalAllWith reduce exprs s = (.ok values, t) ↔ ValuesInOrder reduce s exprs values t := by
  constructor
  · intro done
    -- A failure would have ended the evaluation, so every expression has given a value.
    induction exprs generalizing values s with
    | nil =>
      cases done
      exact .nil t
    | cons expr rest ih =>
      obtain ⟨value, middle, evaluated, restDone⟩ := Eval.ok_of_bind done
      obtain ⟨others, last, later, together⟩ := Eval.ok_of_bind restDone
      cases together
      exact .cons evaluated (ih later)
  · intro inOrder
    induction inOrder with
    | nil s => rfl
    | cons evaluated _ ih =>
      rw [evalAllWith, Eval.bind_of_ok _ evaluated, Eval.bind_of_ok _ ih]
      rfl

/-- The first expression that fails ends the evaluation, and those before it have been evaluated in order. -/
theorem evalAllWith_eq_error : evalAllWith reduce exprs s = (.error e, t) ↔
    ∃ earlier expr later values middle, exprs = earlier ++ expr :: later ∧
      ValuesInOrder reduce s earlier values middle ∧ evalWith reduce expr middle = (.error e, t) := by
  constructor
  · intro failed
    -- Either the first expression fails or, behind its value, one of the others.
    induction exprs generalizing s with
    | nil => cases failed
    | cons expr rest ih =>
      rcases Eval.error_of_bind failed with here | ⟨value, middle, evaluated, restFailed⟩
      · exact ⟨[], expr, rest, [], s, rfl, .nil s, here⟩
      · rcases Eval.error_of_bind restFailed with there | ⟨others, last, -, together⟩
        · obtain ⟨earlier, culprit, later, values, last, rfl, before, fails⟩ := ih there
          exact ⟨expr :: earlier, culprit, later, value :: values, last, rfl, .cons evaluated before, fails⟩
        · cases together
  · rintro ⟨earlier, expr, later, values, middle, rfl, before, failed⟩
    induction before with
    | nil s => exact Eval.bind_of_error _ failed
    | cons evaluated _ ih =>
      rw [List.cons_append, evalAllWith, Eval.bind_of_ok _ evaluated]
      exact Eval.bind_of_error _ (ih failed)

end Evaluation

/-- A definition form that is not prepared fails before any operand is evaluated. -/
theorem define_of_unprepared {target : Value H} {operands : List (Value H)}
    (unprepared : ∀ names, ¬ Prepared reduce mode s target operands names) :
    ∃ e, define reduce mode (target :: operands) s = (.error e, targetState reduce target s) := by
  -- A target without names, a wrong count and a refused name are the only things that can stop the form.
  have state := definedNames_state reduce mode.name target s
  cases named : definedNames reduce mode.name target s with
  | mk outcome middle =>
    rw [named] at state
    subst state
    cases outcome with
    | error e => exact ⟨e, Eval.bind_of_error _ named⟩
    | ok names =>
      simp only [define, Eval.bind_of_ok _ named]
      by_cases counted : names.length = operands.length
      · -- With names enough, only the check can stop the form.
        cases checked : mode.check (targetState reduce target s).env [] names with
        | error e => exact ⟨e, by simp [counted, Eval.bind_apply, Eval.read, Eval.ofExcept, checked]⟩
        | ok _ => exact absurd ⟨by rw [named], counted, DefineMode.check_eq_ok.mp checked⟩ (unprepared names)
      · exact ⟨_, by rw [if_pos counted, Eval.fail_apply]⟩

/-- A definition form that is prepared goes on with its operands. -/
theorem define_of_prepared {target : Value H} {operands : List (Value H)} {names : List String}
    (prepared : Prepared reduce mode s target operands names) :
    define reduce mode (target :: operands) s = (do
      let values ← evalAllWith reduce operands
      let after ← Eval.read (·.env)
      Eval.ofExcept (mode.check after [] names)
      mode.bindAll names values
      pure .empty : Eval H (Value H)) (targetState reduce target s) := by
  -- The names are found, as many as there are operands, and the first check passes.
  have named : definedNames reduce mode.name target s = (.ok names, targetState reduce target s) := by
    rw [← definedNames_state reduce mode.name target s, ← prepared.named]
  have checked := DefineMode.check_eq_ok.mpr prepared.admitted
  rw [define, Eval.bind_of_ok _ named, if_neg (by simp [prepared.counted])]
  rw [Eval.bind_of_ok _ (by rfl), Eval.bind_of_ok _ (by rw [Eval.ofExcept, checked])]

/-- A definition form with a target ends in one of the ways described. -/
theorem define_ends (reduce : Reducer H) (mode : DefineMode) (target : Value H) (operands : List (Value H))
    (s : State H) : DefinitionEnds reduce mode s (target :: operands) (define reduce mode (target :: operands) s) := by
  -- The steps of the form are taken one by one, and each failure ends it where it stands.
  by_cases isPrepared : ∃ names, Prepared reduce mode s target operands names
  · obtain ⟨names, prepared⟩ := isPrepared
    rw [define_of_prepared prepared]
    cases evaluated : evalAllWith reduce operands (targetState reduce target s) with
    | mk outcome last =>
      cases outcome with
      | error e =>
        rw [Eval.bind_of_error _ evaluated]
        obtain ⟨earlier, expr, later, values, middle, split, before, failed⟩ := evalAllWith_eq_error.mp evaluated
        exact .failed prepared split before failed
      | ok values =>
        have inOrder := evalAllWith_eq_ok.mp evaluated
        rw [Eval.bind_of_ok _ evaluated, Eval.bind_of_ok _ (by rfl)]
        cases checked : mode.check last.env [] names with
        | error e =>
          rw [Eval.bind_of_error _ (by rfl)]
          refine .blocked prepared inOrder fun admits => ?_
          have passed := DefineMode.check_eq_ok.mpr admits
          rw [checked] at passed
          cases passed
        | ok _ =>
          -- Once the second check has passed, no binding is refused any more.
          have admits := DefineMode.check_eq_ok.mp checked
          have sameLength : names.length = values.length := prepared.counted.trans inOrder.length_eq.symm
          obtain ⟨scope, done, rebound⟩ := DefineMode.bindAll_of_admits names values sameLength admits
          rw [Eval.bind_of_ok _ (by rfl), Eval.bind_of_ok _ done]
          exact .done prepared inOrder sameLength admits rebound
  · have unprepared : ∀ names, ¬ Prepared reduce mode s target operands names :=
      fun names prepared => isPrepared ⟨names, prepared⟩
    obtain ⟨e, refused⟩ := define_of_unprepared unprepared
    rw [refused]
    exact .refused unprepared

/-- A definition form that is called with a target and an operand does what it does once it is running. -/
theorem apply_define (m : Machine H) (reduce : Reducer H) (mode : DefineMode) (target operand : Value H)
    (operands : List (Value H)) (s : State H) :
    m.apply reduce (Primitive.define mode).value (target :: operand :: operands) s =
      define reduce mode (target :: operand :: operands) s := by
  -- Two arguments are enough for the form, so the count of arguments is never what it fails on.
  have ends := define_ends reduce mode target (operand :: operands) s
  have called : m.apply reduce (Primitive.define mode).value (target :: operand :: operands) s =
      (define reduce mode (target :: operand :: operands) >>= raiseError) s := rfl
  rw [called, Eval.bind_apply]
  -- The result is never an error value, so nothing is raised.
  generalize define reduce mode (target :: operand :: operands) s = r at ends ⊢
  cases ends <;> rfl

/-- A definition form that fails has bound nothing: the environment is the one left by evaluating the target and
those operands that were evaluated. A form that succeeds has given its names the values of the operands and changed
nothing else, since no name is refused once both checks have passed. -/
theorem definition_all_or_nothing (m : Machine H) (reduce : Reducer H) (mode : DefineMode) (args : List (Value H))
    (s : State H) :
    DefinitionEnds reduce mode s args (m.apply reduce (Primitive.define mode).value args s) ∧
      ∀ (names : List String) (values : List (Value H)) (t : State H), names.length = values.length →
        mode.check t.env [] names = .ok () → (mode.bindAll names values t).1 = .ok () := by
  constructor
  · match args with
    | [] => exact .tooFew (by simp)
    | [target] => exact .tooFew (by simp)
    | target :: operand :: operands =>
      rw [apply_define]
      exact define_ends reduce mode target (operand :: operands) s
  · intro names values t sameLength checked
    obtain ⟨scope, done, -⟩ := DefineMode.bindAll_of_admits names values sameLength (DefineMode.check_eq_ok.mp checked)
    rw [done]

/-- An operand that defines the name which the form is about to protect, and a name that is given two values. -/
theorem definition_all_or_nothing_blocked :
    let m := Machine.plain 8 {}
    let args : List (Value Empty) :=
      [.qexpr [.symbol "x"], .sexpr [(Primitive.define .global).value, .symbol "x", .integer 1]]
    (m.apply m.reducer (Primitive.define .globalProtected).value args {}).1 = .error (.protectedRedefinition "x") ∧
      DefinitionEnds m.reducer .globalProtected {} args
        (m.apply m.reducer (Primitive.define .globalProtected).value args {}) ∧
      (DefineMode.global.bindAll ["x", "x"] [.integer 1, .integer 2] ({} : State Empty)).1 = .ok () :=
  ⟨by rfl, (definition_all_or_nothing _ _ _ _ _).1,
    (definition_all_or_nothing (Machine.plain 8 {}) (Machine.plain 8 {}).reducer .global [] {}).2 _ _ _ rfl (by rfl)⟩

end QuoteLisp
