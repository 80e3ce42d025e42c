import Mathlib.Data.List.Basic
import Mathlib.Logic.Function.Basic
import QuoteLisp.Proofs.Scope.Binding

/-! Calls on one scope, one after another: what the scope shows is what a finite map shows on which the calls that were
carried out are replayed. The map asks nothing before it changes an entry; that the scope does is what makes protected
entries last. -/

namespace QuoteLisp

variable {α : Type}

/-- What can be asked to change a scope. -/
inductive ScopeCall (α : Type) where
  | bind (name : String) (value : α)
  | bindProtected (name : String) (value : α)
  | remove (name : String)

/-- What comes of such a call. -/
inductive ScopeReply (α : Type) where
  | bound
  | refused (e : Error)
  | removed (value : α)
  /-- There was nothing to remove. -/
  | absent

namespace Scope

/-- The reply to a binding; one that is refused leaves the scope as it was. -/
def settle (scope : Scope α) : Except Error (Scope α) → ScopeReply α × Scope α
  | .ok after => (.bound, after)
  | .error e => (.refused e, scope)

/-- The reply to a call, and the scope after it. -/
def perform (scope : Scope α) : ScopeCall α → ScopeReply α × Scope α
  | .bind name value => scope.settle (scope.bind name value)
  | .bindProtected name value => scope.settle (scope.bindProtected name value)
  | .remove name =>
    match scope.remove? name with
    | some (value, after) => (.removed value, after)
    | none => (.absent, scope)

/-- The scope after some calls. -/
def after (scope : Scope α) (calls : List (ScopeCall α)) : Scope α :=
  calls.foldl (fun scope call => (scope.perform call).2) scope

/-- The names of a scope with their values, in order. -/
def pairs (scope : Scope α) : List (String × α) :=
  scope.bindings.map fun binding => (binding.name, binding.value)

end Scope

/-- What a name stands for in a map. -/
structure Entry (α : Type) where
  value : α
  isProtected : Bool

/-- A finite map from names to entries, which lists each of its names once. -/
structure NameMap (α : Type) where
  entry : String → Option (Entry α)
  order : List String
  distinct : order.Nodup
  mem_order : ∀ name, name ∈ order ↔ (entry name).isSome

namespace NameMap

variable {map : NameMap α} {name : String} {known : Entry α}

/-- The map of no names. -/
def empty : NameMap α := ⟨fun _ => none, [], List.nodup_nil, by simp⟩

/-- The map without an entry for a name. -/
def drop (map : NameMap α) (name : String) : NameMap α where
  entry := Function.update map.entry name none
  order := map.order.erase name
  distinct := map.distinct.erase name
  mem_order := by
    intro other
    rw [map.distinct.mem_erase_iff, map.mem_order]
    by_cases same : other = name <;> simp [same]

/-- The bindings that names have according to their entries. -/
def listed (entry : String → Option (Entry α)) (names : List String) : List (Binding α) :=
  names.filterMap fun name => (entry name).map fun known => ⟨name, known.value, known.isProtected⟩

section Listed

variable {entry : String → Option (Entry α)} {names : List String}

end Listed

end NameMap

end QuoteLisp
