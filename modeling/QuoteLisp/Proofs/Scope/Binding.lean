import QuoteLisp.Environment

/-! What binding and removing a name can do to a scope, said once for all properties of scopes. -/

namespace QuoteLisp

namespace Scope

variable {α : Type} {scope scope' : Scope α} {name : String} {value : α}

/-- The names of a scope in order. -/
def names (scope : Scope α) : List String :=
  scope.bindings.map (·.name)

/-- A name that is not found is the name of no binding. -/
theorem find?_eq_none : scope.find? name = none ↔ ∀ binding ∈ scope.bindings, binding.name ≠ name := by
  -- The search compares names and nothing else.
  simp [find?]

/-- A binding that is found is the first one of its name. -/
theorem find?_eq_some {known : Binding α} (found : scope.find? name = some known) :
    ∃ before after, scope.bindings = before ++ known :: after ∧
      (∀ binding ∈ before, binding.name ≠ name) ∧ known.name = name := by
  -- The search stops at the first match, so no binding before it has the name.
  obtain ⟨named, before, after, split, earlier⟩ := List.find?_eq_some_iff_append.mp found
  exact ⟨before, after, split, by simpa using earlier, by simpa using named⟩

/-- Only the first binding of a name gets the new value. -/
theorem revalue_append (before after : List (Binding α)) (known : Binding α)
    (earlier : ∀ binding ∈ before, binding.name ≠ name) (named : known.name = name) :
    revalue name value (before ++ known :: after) = before ++ { known with value := value } :: after := by
  -- The bindings before it are passed over one by one.
  induction before with
  | nil => simp [revalue, named]
  | cons first rest ih =>
    have other := earlier first (by simp)
    simp [revalue, other, ih fun binding member => earlier binding (by simp [member])]

/-- Binding a name adds it at the end or gives the first binding of that name, unprotected, another value. -/
theorem bind_eq_ok (done : scope.bind name value = .ok scope') :
    ((∀ binding ∈ scope.bindings, binding.name ≠ name) ∧ scope' = scope.push name value false) ∨
    ∃ before known after, scope.bindings = before ++ known :: after ∧
      (∀ binding ∈ before, binding.name ≠ name) ∧ known.name = name ∧ known.isProtected = false ∧
      scope' = ⟨before ++ { known with value := value } :: after⟩ := by
  -- Whether a name is known decides where its value goes.
  unfold bind at done
  cases found : scope.find? name with
  | none =>
    simp only [found, Except.ok.injEq] at done
    exact .inl ⟨find?_eq_none.mp found, done.symm⟩
  | some known =>
    simp only [found] at done
    split at done
    · cases done
    · next free =>
      cases done
      obtain ⟨before, after, split, earlier, named⟩ := find?_eq_some found
      refine .inr ⟨before, known, after, split, earlier, named, by simpa using free, ?_⟩
      rw [split, revalue_append before after known earlier named]

/-- A name is bound for good only where it is new, and goes to the end. -/
theorem bindProtected_eq_ok (done : scope.bindProtected name value = .ok scope') :
    (∀ binding ∈ scope.bindings, binding.name ≠ name) ∧ scope' = scope.push name value true := by
  -- A name that is known at all is refused.
  unfold bindProtected at done
  split at done
  · cases done
  · next new =>
    cases done
    exact ⟨by simpa [contains] using new, rfl⟩

/-- After binding, a binding is an old one or has the new name and value. -/
theorem mem_of_bind {binding : Binding α} (done : scope.bind name value = .ok scope')
    (member : binding ∈ scope'.bindings) : binding ∈ scope.bindings ∨ binding = ⟨name, value, false⟩ := by
  rcases bind_eq_ok done with ⟨-, rfl⟩ | ⟨before, known, after, split, -, named, free, rfl⟩
  · simpa [push] using member
  · -- Only the binding at the place of the name differs.
    rw [split]
    simp only [List.mem_append, List.mem_cons] at member ⊢
    rcases member with earlier | rfl | later
    · exact .inl (.inl earlier)
    · exact .inr (by simp [named, free])
    · exact .inl (.inr (.inr later))

/-- After binding for good, a binding is an old one or the new one. -/
theorem mem_of_bindProtected {binding : Binding α} (done : scope.bindProtected name value = .ok scope')
    (member : binding ∈ scope'.bindings) : binding ∈ scope.bindings ∨ binding = ⟨name, value, true⟩ := by
  -- Nothing but the new binding is added, at the end.
  obtain ⟨-, rfl⟩ := bindProtected_eq_ok done
  simpa [push] using member

end Scope

end QuoteLisp
