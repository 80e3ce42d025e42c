import QuoteLisp.Proofs.Environment.Rebinding

/-! A root scope with one binding more: every operation on the environment that is about other names does the same with
it and without it, wherever among the others the binding stands. -/

namespace QuoteLisp

variable {H : Type}

/-- The second list is the first with one more binding somewhere in it. -/
inductive Inserted (extra : Binding (Value H)) : List (Binding (Value H)) → List (Binding (Value H)) → Prop where
  | here {bindings : List (Binding (Value H))} : Inserted extra bindings (extra :: bindings)
  | later {first : Binding (Value H)} {bindings bindings' : List (Binding (Value H))}
    (inserted : Inserted extra bindings bindings') : Inserted extra (first :: bindings) (first :: bindings')

namespace Inserted

variable {extra : Binding (Value H)} {bindings bindings' : List (Binding (Value H))} {name : String}

/-- A binding may stand behind all others. -/
theorem atEnd (extra : Binding (Value H)) (bindings : List (Binding (Value H))) :
    Inserted extra bindings (bindings ++ [extra]) := by
  induction bindings with
  | nil => exact .here
  | cons first rest ih => exact .later ih

/-- A search for another name passes over the binding. -/
theorem find?_eq (inserted : Inserted extra bindings bindings') (other : extra.name ≠ name) :
    bindings'.find? (·.name == name) = bindings.find? (·.name == name) := by
  induction inserted with
  | here => simp [other]
  | later _ ih => simp only [List.find?_cons, ih]

/-- A test that the binding does not pass is passed by the same ones. -/
theorem any_eq (inserted : Inserted extra bindings bindings') {test : Binding (Value H) → Bool}
    (fails : test extra = false) : bindings'.any test = bindings.any test := by
  induction inserted with
  | here => simp [fails]
  | later _ ih => simp only [List.any_cons, ih]

/-- What is added at the end comes behind the binding. -/
theorem append (inserted : Inserted extra bindings bindings') (more : List (Binding (Value H))) :
    Inserted extra (bindings ++ more) (bindings' ++ more) := by
  induction inserted with
  | here => exact .here
  | later _ ih => exact .later ih

/-- Another name gets its new value at the same place among the others. -/
theorem revalue (inserted : Inserted extra bindings bindings') (other : extra.name ≠ name) (value : Value H) :
    Inserted extra (Scope.revalue name value bindings) (Scope.revalue name value bindings') := by
  induction inserted with
  | here =>
    simp only [Scope.revalue, beq_iff_eq, other, if_false]
    exact .here
  | @later first _ _ inserted ih =>
    simp only [Scope.revalue]
    split
    · exact .later inserted
    · exact .later ih

/-- The first binding of another name is taken out of both. -/
theorem eraseP (inserted : Inserted extra bindings bindings') (other : extra.name ≠ name) :
    Inserted extra (bindings.eraseP (·.name == name)) (bindings'.eraseP (·.name == name)) := by
  induction inserted with
  | here =>
    rw [List.eraseP_cons_of_neg (by simpa using other)]
    exact .here
  | @later first _ _ inserted ih =>
    cases same : first.name == name with
    | true =>
      simp only [List.eraseP_cons, same, cond_true]
      exact inserted
    | false =>
      simp only [List.eraseP_cons, same, cond_false]
      exact .later ih

end Inserted

/-- Two computations that fail alike, or have results in a relation. -/
inductive BothOrNeither {α : Type} (related : α → α → Prop) : Except Error α → Except Error α → Prop where
  | ok {a b : α} (results : related a b) : BothOrNeither related (.ok a) (.ok b)
  | error {e : Error} : BothOrNeither related (.error e) (.error e)

/-- What is made of two related results is related. -/
theorem BothOrNeither.map {α β : Type} {related : α → α → Prop} {related' : β → β → Prop} {x y : Except Error α}
    {f g : α → β} (both : BothOrNeither related x y) (next : ∀ a b, related a b → related' (f a) (g b)) :
    BothOrNeither related' (x.map f) (y.map g) := by
  cases both with
  | ok results => exact .ok (next _ _ results)
  | error => exact .error

/-- The second scope is the first with one more binding. -/
def Scope.ExtendedBy (extra : Binding (Value H)) (scope scope' : Scope (Value H)) : Prop :=
  Inserted extra scope.bindings scope'.bindings

/-- The second environment is the first with one more binding in the root scope. -/
structure Environment.ExtendedBy (extra : Binding (Value H)) (env env' : Environment (Value H)) : Prop where
  root : env.root.ExtendedBy extra env'.root
  inner : env'.inner = env.inner

namespace Scope.ExtendedBy

variable {extra : Binding (Value H)} {scope scope' : Scope (Value H)} {name : String}

/-- Another name can be bound in both or in neither. -/
theorem bindIn (extended : scope.ExtendedBy extra scope') (other : extra.name ≠ name) (mode : DefineMode)
    (value : Value H) :
    BothOrNeither (Scope.ExtendedBy extra) (mode.bindIn scope name value) (mode.bindIn scope' name value) := by
  have known : scope'.contains name = scope.contains name := extended.any_eq (by simpa using other)
  have found : scope'.find? name = scope.find? name := extended.find?_eq other
  unfold DefineMode.bindIn
  split
  · -- A form that protects refuses every known name.
    simp only [Scope.bindProtected, known]
    split
    · exact .error
    · exact .ok (extended.append _)
  · simp only [Scope.bind, found]
    cases scope.find? name with
    | none => exact .ok (extended.append _)
    | some binding =>
      dsimp only
      split
      · exact .error
      · exact .ok (extended.revalue other value)

/-- Another name is refused by both or by neither. -/
theorem refuses_eq (extended : scope.ExtendedBy extra scope') (other : extra.name ≠ name) (mode : DefineMode) :
    mode.refuses scope' name = mode.refuses scope name := by
  unfold DefineMode.refuses
  split
  · exact extended.any_eq (by simpa using other)
  · exact extended.any_eq (by simp [other])

end Scope.ExtendedBy

namespace Environment.ExtendedBy

variable {extra : Binding (Value H)} {env env' : Environment (Value H)} {name : String}

/-- Another name stands for the same value in both. -/
theorem get?_eq (extended : env.ExtendedBy extra env') (other : extra.name ≠ name) :
    env'.get? name = env.get? name := by
  have found : env'.root.find? name = env.root.find? name := extended.root.find?_eq other
  simp only [Environment.get?, extended.inner, Scope.get?, found]

/-- A definition form writes to the root scope of both, or to the same scope above it. -/
theorem home (extended : env.ExtendedBy extra env') (mode : DefineMode) :
    ((mode.home env).ExtendedBy extra (mode.home env') ∧ ∀ scope scope', scope.ExtendedBy extra scope' →
      (mode.withHome env scope).ExtendedBy extra (mode.withHome env' scope')) ∨
    (mode.home env' = mode.home env ∧ ∀ scope,
      (mode.withHome env scope).ExtendedBy extra (mode.withHome env' scope)) := by
  obtain ⟨root, inner⟩ := env
  obtain ⟨root', inner'⟩ := env'
  obtain ⟨inserted, same⟩ := extended
  obtain rfl : inner' = inner := same
  -- Only a form for the innermost scope may find one above the root.
  cases mode with
  | innermost =>
    cases inner' with
    | nil => exact .inl ⟨inserted, fun _ _ changed => ⟨changed, rfl⟩⟩
    | cons first outer => exact .inr ⟨rfl, fun _ => ⟨inserted, rfl⟩⟩
  | _ => exact .inl ⟨inserted, fun _ _ changed => ⟨changed, rfl⟩⟩

/-- Another name is blocked in both or in neither. -/
theorem isBlocked_eq (extended : env.ExtendedBy extra env') (other : extra.name ≠ name) (mode : DefineMode) :
    mode.isBlocked env' name = mode.isBlocked env name := by
  rw [mode.isBlocked_eq, mode.isBlocked_eq]
  rcases extended.home mode with root | above
  · exact root.1.refuses_eq other mode
  · rw [above.1]

/-- Another name can be defined in both or in neither. -/
theorem bind (extended : env.ExtendedBy extra env') (other : extra.name ≠ name) (mode : DefineMode)
    (value : Value H) :
    BothOrNeither (Environment.ExtendedBy extra) (mode.bind env name value) (mode.bind env' name value) := by
  rw [mode.bind_eq, mode.bind_eq]
  rcases extended.home mode with root | above
  · exact (root.1.bindIn other mode value).map root.2
  · rw [above.1]
    cases mode.bindIn (mode.home env) name value with
    | ok scope => exact .ok (above.2 scope)
    | error e => exact .error

/-- Another name is removed from both at the same place. -/
theorem remove (extended : env.ExtendedBy extra env') (other : extra.name ≠ name) :
    ((env.remove? name).getD env).ExtendedBy extra ((env'.remove? name).getD env') := by
  have found : env'.root.find? name = env.root.find? name := extended.root.find?_eq other
  simp only [Environment.remove?, extended.inner]
  cases removeFirst? name env.inner with
  | some inner => exact ⟨extended.root, rfl⟩
  | none =>
    -- No scope above the root has the name.
    simp only [Scope.remove?, found]
    cases env.root.find? name with
    | none => exact extended
    | some known => exact ⟨extended.root.eraseP other, rfl⟩

theorem enter (extended : env.ExtendedBy extra env') (scope : Scope (Value H)) :
    (env.enter scope).ExtendedBy extra (env'.enter scope) :=
  ⟨extended.root, congrArg (scope :: ·) extended.inner⟩

theorem leave (extended : env.ExtendedBy extra env') : env.leave.ExtendedBy extra env'.leave :=
  ⟨extended.root, congrArg List.tail extended.inner⟩

end Environment.ExtendedBy

end QuoteLisp
