import QuoteLisp.Eval.Definition
import QuoteLisp.Proofs.Eval.Results
import QuoteLisp.Proofs.Scope.Binding

/-! The scope that a definition form writes to, and what the form and the removal of names do to the chain. -/

namespace QuoteLisp

variable {H : Type}

namespace DefineMode

/-- The scope in which a definition form binds its names. -/
def home (mode : DefineMode) (env : Environment (Value H)) : Scope (Value H) :=
  match mode with
  | innermost => env.innermost
  | _ => env.root

/-- The chain with another scope in the place to which a definition form writes. -/
def withHome (mode : DefineMode) (env : Environment (Value H)) (scope : Scope (Value H)) : Environment (Value H) :=
  match mode with
  | innermost => env.withInnermost scope
  | _ => { env with root := scope }

/-- Whether a definition form protects the names it binds. -/
def protects : DefineMode → Bool
  | globalProtected => true
  | _ => false

/-- Binds a name in a scope the way a definition form does. -/
def bindIn (mode : DefineMode) (scope : Scope (Value H)) (name : String) (value : Value H) :
    Except Error (Scope (Value H)) :=
  if mode.protects then scope.bindProtected name value else scope.bind name value

/-- A definition form changes one scope of the chain and nothing else. -/
theorem bind_eq (mode : DefineMode) (env : Environment (Value H)) (name : String) (value : Value H) :
    mode.bind env name value = (mode.bindIn (mode.home env) name value).map (mode.withHome env) := by
  -- Each form binds in one scope and puts that scope back where it was.
  cases mode <;> rfl

@[simp] theorem home_withHome (mode : DefineMode) (env : Environment (Value H)) (scope : Scope (Value H)) :
    mode.home (mode.withHome env scope) = scope := by
  -- The innermost scope is the root only when nothing is entered.
  cases mode with
  | innermost => cases entered : env.inner <;> simp [home, withHome, Environment.innermost,
      Environment.withInnermost, entered]
  | _ => rfl

@[simp] theorem withHome_withHome (mode : DefineMode) (env : Environment (Value H)) (one two : Scope (Value H)) :
    mode.withHome (mode.withHome env one) two = mode.withHome env two := by
  -- The second scope takes the same place, whatever stood there.
  cases mode with
  | innermost => cases entered : env.inner <;> simp [withHome, Environment.withInnermost, entered]
  | _ => rfl

@[simp] theorem withHome_home (mode : DefineMode) (env : Environment (Value H)) :
    mode.withHome env (mode.home env) = env := by
  cases mode with
  | innermost =>
    obtain ⟨root, inner⟩ := env
    cases inner <;> rfl
  | _ => rfl

/-- Replacing one scope keeps the number of scopes. -/
@[simp] theorem depth_withHome (mode : DefineMode) (env : Environment (Value H)) (scope : Scope (Value H)) :
    (mode.withHome env scope).depth = env.depth := by
  -- A scope is replaced and never added.
  cases mode with
  | innermost => cases entered : env.inner <;> simp [withHome, Environment.withInnermost, Environment.depth, entered]
  | _ => rfl

/-- Every scope of the changed chain is the new one or was there before. -/
theorem mem_scopes_withHome {mode : DefineMode} {env : Environment (Value H)} {scope other : Scope (Value H)}
    (member : other ∈ (mode.withHome env scope).scopes) : other = scope ∨ other ∈ env.scopes := by
  -- The changed scope is the first of the chain or the last, depending on the form.
  obtain ⟨root, inner⟩ := env
  cases mode with
  | innermost =>
    cases inner with
    | nil =>
      have same : other = scope := by simpa [withHome, Environment.withInnermost, Environment.scopes] using member
      exact .inl same
    | cons first rest =>
      simp only [withHome, Environment.withInnermost, Environment.scopes, List.cons_append, List.mem_cons] at member ⊢
      exact member.imp_right .inr
  | _ =>
    simp only [withHome, Environment.scopes, List.mem_append, List.mem_singleton] at member ⊢
    exact member.elim (fun inner => .inr (.inl inner)) .inl

/-- The scope that a definition form writes to is in the chain. -/
theorem home_mem_scopes (mode : DefineMode) (env : Environment (Value H)) : mode.home env ∈ env.scopes := by
  -- Without entered scopes the innermost scope is the root.
  obtain ⟨root, inner⟩ := env
  cases mode with
  | innermost => cases inner <;> simp [home, Environment.innermost, Environment.scopes]
  | _ => simp [home, Environment.scopes]

/-- Binding a name adds it at the end or gives the first binding of that name, unprotected, another value. -/
theorem bindIn_eq_ok {mode : DefineMode} {scope scope' : Scope (Value H)} {name : String} {value : Value H}
    (done : mode.bindIn scope name value = .ok scope') :
    ((∀ binding ∈ scope.bindings, binding.name ≠ name) ∧ scope' = scope.push name value mode.protects) ∨
    mode.protects = false ∧ ∃ before known after, scope.bindings = before ++ known :: after ∧
      (∀ binding ∈ before, binding.name ≠ name) ∧ known.name = name ∧ known.isProtected = false ∧
      scope' = ⟨before ++ { known with value := value } :: after⟩ := by
  -- The two kinds of binding differ in what they do with a name that is known.
  unfold bindIn at done
  split at done
  · next protects =>
    rw [protects]
    exact .inl (Scope.bindProtected_eq_ok done)
  · next free =>
    -- Only a form that does not protect may meet a name that is known.
    simp only [Bool.not_eq_true] at free
    rw [free]
    exact (Scope.bind_eq_ok done).imp_right fun known => ⟨rfl, known⟩

/-- After a definition, a binding is an old one of the scope or the new one. -/
theorem mem_of_bindIn {mode : DefineMode} {scope scope' : Scope (Value H)} {name : String} {value : Value H}
    {binding : Binding (Value H)} (done : mode.bindIn scope name value = .ok scope')
    (member : binding ∈ scope'.bindings) : binding ∈ scope.bindings ∨ binding = ⟨name, value, mode.protects⟩ := by
  -- Either kind of binding keeps the old bindings and adds at most one.
  unfold bindIn at done
  split at done
  · next protects => simpa [protects] using Scope.mem_of_bindProtected done member
  · next free => simpa [free] using Scope.mem_of_bind done member

end DefineMode

/-- Every value that is bound has a property. -/
def Scope.Binds {α : Type} (holds : α → Prop) (scope : Scope α) : Prop :=
  ∀ binding ∈ scope.bindings, holds binding.value

/-- Every value bound in some scope of the chain has a property. -/
def Environment.Binds {α : Type} (holds : α → Prop) (env : Environment α) : Prop :=
  ∀ scope ∈ env.scopes, scope.Binds holds

namespace Environment

/-- Removing a name keeps the number of scopes. -/
theorem removeFirst?_length {α : Type} {name : String} {scopes removed : List (Scope α)}
    (done : removeFirst? name scopes = some removed) : removed.length = scopes.length := by
  -- The scope without the name takes the place of the one that had it.
  induction scopes generalizing removed with
  | nil => simp [removeFirst?] at done
  | cons scope outer ih =>
    simp only [removeFirst?] at done
    split at done
    · cases done
      rfl
    · obtain ⟨rest, found, rfl⟩ := Option.map_eq_some_iff.mp done
      simp [ih found]

theorem depth_remove? {α : Type} (env : Environment α) (name : String) :
    ((env.remove? name).getD env).depth = env.depth := by
  -- A name is taken out of a scope, and no scope out of the chain.
  unfold remove?
  split
  · next inner found => simp [depth, removeFirst?_length found]
  · cases env.root.remove? name <;> rfl

/-- After a definition, a binding of some scope is an old one or the new one. -/
theorem mem_of_bind {mode : DefineMode} {env env' : Environment (Value H)} {name : String} {value : Value H}
    (bound : mode.bind env name value = .ok env') {scope : Scope (Value H)} {binding : Binding (Value H)}
    (member : scope ∈ env'.scopes) (inside : binding ∈ scope.bindings) :
    (∃ old ∈ env.scopes, binding ∈ old.bindings) ∨ binding = ⟨name, value, mode.protects⟩ := by
  rw [mode.bind_eq] at bound
  obtain ⟨written, done, rfl⟩ := except_map_eq_ok.mp bound
  -- The scope that is written to holds old bindings and the new one.
  rcases DefineMode.mem_scopes_withHome member with rfl | old
  · exact (DefineMode.mem_of_bindIn done inside).imp_left fun old => ⟨_, mode.home_mem_scopes env, old⟩
  · exact .inl ⟨scope, old, inside⟩

/-- A look-up that succeeds finds a binding. -/
theorem lookup_eq_ok {α : Type} {env : Environment α} {name : String} {value : α} :
    env.lookup name = .ok value ↔ env.get? name = some value := by
  -- A name without a value is a failure and no result.
  unfold lookup
  cases env.get? name <;> simp

/-- Taking a name out of the first of some scopes adds no binding to any of them. -/
theorem subset_of_removeFirst? {α : Type} {name : String} {scopes removed : List (Scope α)}
    (done : removeFirst? name scopes = some removed) :
    ∀ scope ∈ removed, ∃ old ∈ scopes, scope.bindings ⊆ old.bindings := by
  -- Scopes up to the one that has the name are passed over as they are.
  induction scopes generalizing removed with
  | nil => simp [removeFirst?] at done
  | cons first outer ih =>
    simp only [removeFirst?] at done
    split at done
    · next taken =>
      cases done
      obtain ⟨known, -, same⟩ := Option.map_eq_some_iff.mp taken
      cases same
      intro scope member
      rcases List.mem_cons.mp member with rfl | old
      · exact ⟨first, by simp, List.eraseP_subset⟩
      · exact ⟨scope, by simp [old], List.Subset.refl _⟩
    · obtain ⟨rest, found, rfl⟩ := Option.map_eq_some_iff.mp done
      intro scope member
      rcases List.mem_cons.mp member with rfl | later
      · exact ⟨scope, by simp, List.Subset.refl _⟩
      · obtain ⟨old, among, subset⟩ := ih found scope later
        exact ⟨old, by simp [among], subset⟩

/-- Removing a name adds no binding to any scope. -/
theorem subset_of_remove? {α : Type} (env : Environment α) (name : String) :
    ∀ scope ∈ ((env.remove? name).getD env).scopes, ∃ old ∈ env.scopes, scope.bindings ⊆ old.bindings := by
  -- Either an entered scope gives up a binding, or the root does, or none.
  intro scope member
  have unchanged : ∀ other ∈ env.scopes, ∃ old ∈ env.scopes, other.bindings ⊆ old.bindings :=
    fun other member => ⟨other, member, List.Subset.refl _⟩
  unfold remove? at member
  split at member
  · next inner found =>
    simp only [Option.getD_some, scopes, List.mem_append, List.mem_singleton] at member
    rcases member with inside | rfl
    · obtain ⟨old, among, subset⟩ := subset_of_removeFirst? found scope inside
      exact ⟨old, by simp [scopes, among], subset⟩
    · exact unchanged env.root (by simp [scopes])
  · -- No scope above the root has the name.
    cases found : env.root.find? name with
    | none => exact unchanged scope (by simpa [Scope.remove?, found] using member)
    | some known =>
      simp only [Scope.remove?, found, Option.map_some, Option.getD_some, scopes, List.mem_append,
        List.mem_singleton] at member
      rcases member with inside | rfl
      · exact unchanged scope (by simp [scopes, inside])
      · exact ⟨env.root, by simp [scopes], List.eraseP_subset⟩

namespace Binds

variable {holds : Value H → Prop} {env env' : Environment (Value H)}

/-- What a look-up finds is bound in some scope. -/
theorem get? (binds : env.Binds holds) {name : String} {value : Value H} (found : env.get? name = some value) :
    holds value := by
  -- The value comes from a binding of one of the scopes, whichever has the name first.
  have bound : ∀ scope ∈ env.scopes, scope.get? name = some value → holds value := by
    intro scope member here
    obtain ⟨binding, named, rfl⟩ := Option.map_eq_some_iff.mp here
    exact binds scope member binding (List.mem_of_find?_eq_some named)
  unfold Environment.get? at found
  split at found
  · next inside =>
    cases found
    obtain ⟨scope, member, here⟩ := List.exists_of_findSome?_eq_some inside
    exact bound scope (by simp [scopes, member]) here
  · exact bound env.root (by simp [scopes]) found

/-- A definition binds one value more. -/
theorem bind (binds : env.Binds holds) {mode : DefineMode} {name : String} {value : Value H} (new : holds value)
    (bound : mode.bind env name value = .ok env') : env'.Binds holds := by
  intro scope member binding inside
  rcases mem_of_bind bound member inside with old | rfl
  · obtain ⟨before, among, here⟩ := old
    exact binds before among binding here
  · exact new

theorem enter (binds : env.Binds holds) {scope : Scope (Value H)} (inside : scope.Binds holds) :
    (env.enter scope).Binds holds := by
  -- The new scope stands before those of the chain.
  intro other member
  rcases List.mem_cons.mp member with rfl | old
  · exact inside
  · exact binds other old

theorem leave (binds : env.Binds holds) : env.leave.Binds holds := by
  -- What is left of the chain was in it before.
  intro scope member
  refine binds scope ?_
  simp only [scopes, Environment.leave, List.mem_append] at member ⊢
  exact member.imp_left List.mem_of_mem_tail

theorem remove (binds : env.Binds holds) (name : String) : ((env.remove? name).getD env).Binds holds := by
  -- A binding that is left was there before.
  intro scope member binding inside
  obtain ⟨old, among, subset⟩ := subset_of_remove? env name scope member
  exact binds old among binding (subset inside)

end Binds

-- A property of all parts of what is bound is one of what is bound.
namespace Everywhere

variable {property : Value H → Prop} {env env' : Environment (Value H)}

theorem get? (holds : env.Everywhere property) {name : String} {value : Value H} (found : env.get? name = some value) :
    value.Everywhere property :=
  Binds.get? holds found

theorem bind (holds : env.Everywhere property) {mode : DefineMode} {name : String} {value : Value H}
    (new : value.Everywhere property) (bound : mode.bind env name value = .ok env') : env'.Everywhere property :=
  Binds.bind holds new bound

theorem enter (holds : env.Everywhere property) {scope : Scope (Value H)} (inside : scope.Everywhere property) :
    (env.enter scope).Everywhere property :=
  Binds.enter holds inside

theorem leave (holds : env.Everywhere property) : env.leave.Everywhere property :=
  Binds.leave holds

theorem remove (holds : env.Everywhere property) (name : String) :
    ((env.remove? name).getD env).Everywhere property :=
  Binds.remove holds name

end Everywhere

end Environment

end QuoteLisp
