import QuoteLisp.Proofs.Session.Invariant

/-! Protected names of the root scope are lost only through the operation that removes names: where it occurs in no
value, it never comes to occur in one, and no other operation touches a protected binding. -/

namespace QuoteLisp

variable {H : Type}

/-- The protected bindings of a scope in order. -/
def Scope.protectedBindings {α : Type} (scope : Scope α) : List (Binding α) :=
  scope.bindings.filter (·.isProtected)

namespace DefineMode

/-- Binding a name leaves every protected binding where it is. -/
theorem protectedBindings_of_bindIn {mode : DefineMode} {scope scope' : Scope (Value H)} {name : String}
    {value : Value H} (done : mode.bindIn scope name value = .ok scope') :
    scope.protectedBindings.Sublist scope'.protectedBindings := by
  -- Binding is refused where it would touch a protected name.
  rcases bindIn_eq_ok done with ⟨-, rfl⟩ | ⟨-, before, known, after, split, -, -, unprotected, rfl⟩
  · -- A new name goes behind all that is there.
    simp only [Scope.protectedBindings, Scope.push, List.filter_append]
    exact List.sublist_append_left _ _
  · -- Only an unprotected binding is given another value.
    simp [Scope.protectedBindings, split, unprotected]

/-- The scope that a definition form writes to is the root, or the root stays as it is. -/
theorem root_withHome (mode : DefineMode) (env : Environment (Value H)) (scope : Scope (Value H)) :
    (mode.withHome env scope).root = env.root ∨ (mode.withHome env scope).root = scope ∧ mode.home env = env.root := by
  -- Only a form that writes to the innermost scope can pass the root by.
  obtain ⟨root, inner⟩ := env
  cases mode with
  | innermost =>
    cases inner with
    | nil => exact .inr ⟨rfl, rfl⟩
    | cons _ _ => exact .inl rfl
  | _ => exact .inr ⟨rfl, rfl⟩

/-- A definition leaves the protected bindings of the root where they are. -/
theorem protectedBindings_of_bind {mode : DefineMode} {env env' : Environment (Value H)} {name : String}
    {value : Value H} (bound : mode.bind env name value = .ok env') :
    env.root.protectedBindings.Sublist env'.root.protectedBindings := by
  -- The root changes only when it is the scope written to.
  rw [mode.bind_eq] at bound
  obtain ⟨scope, done, rfl⟩ := except_map_eq_ok.mp bound
  rcases mode.root_withHome env scope with same | ⟨written, home⟩
  · exact same.symm ▸ List.Sublist.refl _
  · rw [written, ← home]
    exact protectedBindings_of_bindIn done

end DefineMode

/-- A state in which names cannot be removed and some bindings are still protected in the root scope. -/
structure Guards (kept : List (Binding (Value H))) (s : State H) : Prop where
  avoids : s.env.Avoids .undefine
  present : kept.Sublist s.env.root.protectedBindings

/-- Without host operations every step keeps protected bindings and brings no removal of names with it. -/
theorem guards_preserved (m : Machine Empty) :
    Likeness.Preserves Guards (fun part => ¬ part.Runs .undefine) (fun _ => True) m where
  plain _ plain := plain.not_runs .undefine
  normal _ _ := trivial
  lambda _ _ _ := id
  skip _ _ _ _ _ := id
  bound _ _ _ _ _ _ _ _ _ := id
  program _ _ found := program_everywhere (fun _ plain => plain.not_runs .undefine) (fun _ => id) found
  lookup _ _ _ _ _ guards found := ⟨trivial, guards.avoids.get? found⟩
  bind _ _ _ _ _ _ _ evaluated guards bound :=
    ⟨guards.avoids.bind evaluated.2 bound, guards.present.trans (DefineMode.protectedBindings_of_bind bound)⟩
  -- The only way to remove a name does not occur.
  remove _ _ _ _ runs avoids _ _ := absurd runs avoids
  print _ _ _ guards := ⟨guards.avoids, guards.present⟩
  descend kept _ guards := ⟨kept, ⟨guards.avoids, guards.present⟩, fun _ inside => ⟨inside.avoids, inside.present⟩⟩
  enter _ _ kept _ _ bindings guards :=
    ⟨kept, ⟨guards.avoids.enter bindings, guards.present⟩, fun _ inside => ⟨inside.avoids.leave, inside.present⟩⟩
  hosts op := nomatch op

/-- One request keeps what is protected, whatever its outcome, and its result cannot remove names either. -/
theorem guards_answer (m : Machine Empty) {request : Request Empty} (avoids : request.Avoids .undefine)
    {kept : List (Binding (Value Empty))} {s : State Empty} (guards : Guards kept s) :
    Guards kept (m.answer request s).2 ∧
      ∀ value, (m.answer request s).1 = .ok value → value.Avoids .undefine :=
  (guards_preserved m).answer (balanced_of_empty m) (fun _ _ _ guards => ⟨guards.avoids, guards.present⟩)
    (Likeness.soundRequest_of_avoids rfl avoids fun _ => trivial) guards

/-- Where the operation that removes names occurs neither in the requests nor in any binding, every protected binding
of the root scope stays, with its value and in its place among the others, through one request and through a whole
session; and the operation comes to occur neither in a result nor in a binding. -/
theorem protected_lost_only_by_removal (m : Machine Empty) (s : State Empty) (avoids : s.env.Avoids .undefine) :
    (∀ request : Request Empty, request.Avoids .undefine →
      s.env.root.protectedBindings.Sublist (m.answer request s).2.env.root.protectedBindings ∧
      (m.answer request s).2.env.Avoids .undefine ∧
      ∀ value, (m.answer request s).1 = .ok value → value.Avoids .undefine) ∧
    ∀ requests : List (Request Empty), (∀ request ∈ requests, request.Avoids .undefine) →
      s.env.root.protectedBindings.Sublist (m.after s requests).env.root.protectedBindings ∧
      (m.after s requests).env.Avoids .undefine := by
  -- What is protected at the start is what the invariant keeps.
  have start : Guards s.env.root.protectedBindings s := ⟨avoids, List.Sublist.refl _⟩
  constructor
  · intro request avoids
    obtain ⟨guards, result⟩ := guards_answer m avoids start
    exact ⟨guards.present, guards.avoids, result⟩
  · intro requests avoid
    have session := m.after_keeps (Guards s.env.root.protectedBindings)
      (fun request member _ guards => (guards_answer m (avoid request member) guards).1) start
    exact ⟨session.present, session.avoids⟩

/-- A session that tries to redefine a protected name, with the names that a run starts with but the removal. -/
theorem protected_lost_only_by_removal_standard :
    let m := Machine.plain 8 { files := [("a", .text "(def {x} 1) (pdef {head} 2)")] }
    let s : State Empty := { env := removeAll standardEnvironment ["undef"] }
    let request := Request.call (Primitive.define .global).value [.symbol "head", .integer 1]
    (m.answer request s).1 = .error (.protectedRedefinition "head") ∧
      s.env.root.protectedBindings.Sublist (m.answer request s).2.env.root.protectedBindings ∧
      s.env.root.protectedBindings.Sublist (m.after s [request, .load "a"]).env.root.protectedBindings := by
  intro m s request
  -- Removing the one name leaves the bindings of all other operations.
  have start : s.env = { root := ⟨(Primitive.all.filter (· ≠ .undefine)).map fun p => ⟨p.name, p.value, true⟩⟩ } := rfl
  have avoids : s.env.Avoids .undefine := by
    rw [start]
    intro scope member binding inside
    obtain rfl := List.mem_singleton.mp member
    obtain ⟨p, among, rfl⟩ := List.mem_map.mp inside
    exact p.value_avoids (by simpa using (List.mem_filter.mp among).2)
  -- The request holds a definition form, a name and a number.
  have avoided : request.Avoids .undefine := by
    intro value member
    simp only [request, Request.values, List.mem_cons, List.not_mem_nil, or_false] at member
    rcases member with rfl | rfl | rfl
    · exact Primitive.value_avoids (by decide)
    · exact Value.everywhere_of_leaf rfl id
    · exact Value.everywhere_of_leaf rfl id
  have kept := protected_lost_only_by_removal m s avoids
  exact ⟨by rfl, (kept.1 request avoided).1, (kept.2 _ (by simpa [Request.Avoids, Request.values] using avoided)).1⟩

end QuoteLisp
