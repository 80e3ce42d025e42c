import QuoteLisp.Eval.Primitive
import QuoteLisp.Proofs.Value.Parts

/-! What the operations that only compute a value can return: nothing but parts of their arguments and new data. -/

namespace QuoteLisp

variable {H α β : Type}

/-- A sequence of two computations succeeds when both do. -/
theorem except_bind_eq_ok {x : Except Error α} {f : α → Except Error β} {b : β} :
    x >>= f = .ok b ↔ ∃ a, x = .ok a ∧ f a = .ok b := by
  -- A failure of the first computation is never a success of both.
  cases x <;> simp [Bind.bind, Except.bind]

/-- A changed result is the change of a result. -/
theorem except_map_eq_ok {x : Except Error α} {f : α → β} {b : β} :
    x.map f = .ok b ↔ ∃ a, x = .ok a ∧ f a = b := by
  cases x <;> simp [Except.map]

/-- A result without names or functions of its own, all of whose items come from the arguments. -/
structure ComputedFrom (args : List (Value H)) (value : Value H) : Prop where
  isNormal : value.IsNormal
  isPlain : value.IsPlain
  items : ∀ child ∈ value.children, ∃ arg ∈ args, child.OccursIn arg

/-- A result with nothing inside it comes from any arguments. -/
theorem computedFrom_leaf {args : List (Value H)} {value : Value H} (normal : value.IsNormal)
    (plain : value.IsPlain) (leaf : value.children = []) : ComputedFrom args value :=
  ⟨normal, plain, by simp [leaf]⟩

/-- A quoted list of parts of the arguments. -/
theorem computedFrom_qexpr {args items : List (Value H)} (inside : ∀ item ∈ items, ∃ arg ∈ args, item.OccursIn arg) :
    ComputedFrom args (.qexpr items) :=
  ⟨trivial, trivial, inside⟩

/-- The truth values are numbers. -/
theorem computedFrom_ofBool {args : List (Value H)} (b : Bool) : ComputedFrom args (.ofBool b) :=
  computedFrom_leaf trivial trivial rfl

/-- An item of a list occurs in it. -/
theorem occursIn_qexpr {items : List (Value H)} {item : Value H} (member : item ∈ items) :
    item.OccursIn (.qexpr items) :=
  .inside member .self

/-- Only a quoted list is accepted as a list. -/
theorem expectList_eq_ok {operation : String} {index : Nat} {value : Value H} {items : List (Value H)}
    (found : expectList operation index value = .ok items) : value = .qexpr items := by
  -- Every other kind of value is refused.
  cases value <;> simp_all [expectList]

/-- The names of a list of symbols determine the list. -/
theorem expectSymbols_eq_ok {operation : String} {index : Nat} {items : List (Value H)} {names : List String}
    (found : expectSymbols operation index items = .ok names) : items = names.map .symbol := by
  -- Each name that is found was a symbol, and the first other item would have ended the search.
  induction items generalizing names with
  | nil =>
    simp only [expectSymbols, Except.ok.injEq] at found
    simp [← found]
  | cons item rest ih =>
    cases item with
    | symbol name =>
      obtain ⟨more, others, rfl⟩ := except_map_eq_ok.mp found
      simp [ih others]
    | _ => simp [expectSymbols] at found

/-- Arguments that are all lists are the quoted lists of their items. -/
theorem expectEach_expectList_eq_ok {operation : String} {index : Nat} {args : List (Value H)}
    {lists : List (List (Value H))} (found : expectEach (expectList operation) index args = .ok lists) :
    args = lists.map .qexpr := by
  -- The positions only serve failures, so the induction is over the arguments at any position.
  induction args generalizing index lists with
  | nil =>
    simp only [expectEach, Except.ok.injEq] at found
    simp [← found]
  | cons arg rest ih =>
    obtain ⟨items, first, found⟩ := except_bind_eq_ok.mp found
    obtain ⟨more, others, found⟩ := except_bind_eq_ok.mp found
    cases found
    simp [ih others, expectList_eq_ok first]

/-- The first item of a list is an item of it. -/
theorem headOp_computed {args : List (Value H)} {value : Value H} (done : headOp args = .ok value) :
    ComputedFrom args value := by
  -- The result holds one item, and it was in the list.
  unfold headOp at done
  split at done
  · obtain ⟨items, found, done⟩ := except_bind_eq_ok.mp done
    cases items with
    | nil => simp at done
    | cons first rest =>
      cases done
      rw [expectList_eq_ok found]
      exact computedFrom_qexpr (by simp [occursIn_qexpr])
  · simp at done

/-- All items of a list but the first are items of it. -/
theorem tailOp_computed {args : List (Value H)} {value : Value H} (done : tailOp args = .ok value) :
    ComputedFrom args value := by
  -- The result holds items that were in the list behind its first.
  unfold tailOp at done
  split at done
  · obtain ⟨items, found, done⟩ := except_bind_eq_ok.mp done
    cases items with
    | nil => simp at done
    | cons first rest =>
      cases done
      rw [expectList_eq_ok found]
      exact computedFrom_qexpr fun item member => ⟨_, List.mem_singleton_self _,
        occursIn_qexpr (List.mem_cons_of_mem first member)⟩
  · simp at done

/-- An item of a joined list is an item of one of the lists. -/
theorem joinOp_computed {args : List (Value H)} {value : Value H} (done : joinOp args = .ok value) :
    ComputedFrom args value := by
  -- Joining only puts the items of the lists one behind the other.
  obtain ⟨lists, found, done⟩ := except_bind_eq_ok.mp done
  cases done
  rw [expectEach_expectList_eq_ok found]
  refine computedFrom_qexpr fun item member => ?_
  obtain ⟨list, inLists, inList⟩ := List.mem_flatten.mp member
  exact ⟨.qexpr list, List.mem_map_of_mem inLists, occursIn_qexpr inList⟩

/-- Strings give a string. -/
theorem concatOp_computed {args : List (Value H)} {value : Value H} (done : concatOp args = .ok value) :
    ComputedFrom args value := by
  -- Whatever the texts are, a string has nothing inside it.
  obtain ⟨texts, -, done⟩ := except_bind_eq_ok.mp done
  cases done
  exact computedFrom_leaf trivial trivial rfl

/-- Raising an error gives no result. -/
theorem raiseOp_ne_ok {args : List (Value H)} {value : Value H} : raiseOp args ≠ .ok value := by
  -- A text becomes a failure, and everything else is one already.
  intro done
  unfold raiseOp at done
  split at done
  · obtain ⟨text, -, done⟩ := except_bind_eq_ok.mp done
    cases done
  · simp at done

/-- The wish to end the run has only a number in it. -/
theorem exitOp_computed {args : List (Value H)} {value : Value H} (done : exitOp args = .ok value) :
    ComputedFrom args value := by
  unfold exitOp at done
  split at done
  · cases done
    exact computedFrom_leaf trivial trivial rfl
  · cases done
    exact computedFrom_leaf trivial trivial rfl
  · simp at done

/-- A comparison of values gives a truth value. -/
theorem equalOp_computed {args : List (Value H)} {value : Value H} (done : equalOp args = .ok value) :
    ComputedFrom args value := by
  unfold equalOp at done
  split at done
  · cases done
    exact computedFrom_ofBool _
  · simp at done

/-- And so does its opposite. -/
theorem notEqualOp_computed {args : List (Value H)} {value : Value H} (done : notEqualOp args = .ok value) :
    ComputedFrom args value := by
  unfold notEqualOp at done
  split at done
  · cases done
    exact computedFrom_ofBool _
  · simp at done

/-- A comparison of numbers gives a truth value. -/
theorem Comparison.apply_computed {test : Comparison} {args : List (Value H)} {value : Value H}
    (done : test.apply args = .ok value) : ComputedFrom args value := by
  unfold Comparison.apply at done
  split at done
  · obtain ⟨b, -, rfl⟩ := except_map_eq_ok.mp done
    exact computedFrom_ofBool b
  · simp at done

/-- Arithmetic gives a number. -/
theorem Arithmetic.apply_computed {op : Arithmetic} {args : List (Value H)} {value : Value H}
    (done : op.apply args = .ok value) : ComputedFrom args value := by
  unfold Arithmetic.apply at done
  split at done
  · simp at done
  · -- The result is a real or an integer, whatever it is computed from.
    split at done
    · obtain ⟨x, -, rfl⟩ := except_map_eq_ok.mp done
      exact computedFrom_leaf trivial trivial rfl
    · obtain ⟨n, -, rfl⟩ := except_map_eq_ok.mp done
      exact computedFrom_leaf trivial trivial rfl

/-- A closure is made of a list of symbols and a body. -/
theorem lambdaOp_eq_ok {args : List (Value H)} {value : Value H} (done : lambdaOp args = .ok value) :
    ∃ names body, args = [.qexpr (names.map .symbol), .qexpr body] ∧ value = .lambda names body := by
  -- Every step of the checks succeeds, and each says what its argument looks like.
  unfold lambdaOp at done
  split at done
  · obtain ⟨items, foundFormals, done⟩ := except_bind_eq_ok.mp done
    obtain ⟨body, foundBody, done⟩ := except_bind_eq_ok.mp done
    obtain ⟨names, foundNames, done⟩ := except_bind_eq_ok.mp done
    cases done
    refine ⟨names, body, ?_, rfl⟩
    rw [expectList_eq_ok foundFormals, expectList_eq_ok foundBody, expectSymbols_eq_ok foundNames]
  · simp at done

/-- The target of a definition form as it is looked at: only an S-expression is evaluated for that. -/
def targetOf (reduce : Reducer H) : Value H → Eval H (Value H)
  | .sexpr items => reduce items
  | other => pure other

/-- The names that a target stands for by its form. -/
def listedNames (operation : String) : Value H → Except Error (List String)
  | .symbol name => .ok [name]
  | .qexpr items => expectSymbols operation 0 items
  | other => .error (wrongKind operation 0 .qexpr other)

/-- The names of a definition are found in two steps, and only the first looks at the state. -/
theorem definedNames_eq (reduce : Reducer H) (operation : String) (target : Value H) :
    definedNames reduce operation target =
      targetOf reduce target >>= fun found => Eval.ofExcept (listedNames operation found) := by
  -- Both sides evaluate an S-expression and look at nothing else of the state.
  -- What is evaluated stands for names by its form, kind by kind.
  funext s
  cases target with
  | sexpr items =>
    simp only [definedNames, targetOf, Eval.bind_apply]
    generalize reduce items s = r
    obtain ⟨outcome, t⟩ := r
    cases outcome with
    | ok value => cases value <;> rfl
    | error e => rfl
  | _ => rfl

/-- What a text is read as. -/
theorem readSource_everywhere {property : Value H → Prop} (plain : ∀ value, value.IsPlain → property value)
    (symbols : ∀ name, property (.symbol name)) {source : String} {expr : Value H}
    (found : readSource source = .ok expr) : expr.Everywhere property := by
  -- A text that does not parse is read as nothing.
  unfold readSource at found
  split at found
  · cases found
    exact read_everywhere plain symbols _
  · cases found

/-- What a file is read as. -/
theorem program_everywhere {property : Value H → Prop} (plain : ∀ value, value.IsPlain → property value)
    (symbols : ∀ name, property (.symbol name)) {folder : Folder} {path : String} {exprs : List (Value H)}
    (found : folder.program path = .ok exprs) : ∀ expr ∈ exprs, expr.Everywhere property := by
  -- A file that is missing or does not parse has no expressions.
  unfold Folder.program at found
  split at found
  · cases found
  · split at found
    · cases found
    · cases found
      exact readAll_everywhere plain symbols _

end QuoteLisp
