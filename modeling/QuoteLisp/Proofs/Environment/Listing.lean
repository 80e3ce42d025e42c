import QuoteLisp.Proofs.Environment.Rebinding
import QuoteLisp.Proofs.Text.ByteOrder

/-! Listing, look-up and removal of names all see the same binding of each name. -/

namespace QuoteLisp

variable {α : Type}

/-- Taking a name out of a scope takes out its first binding there. -/
theorem Scope.remove?_eq_some {scope scope' : Scope α} {name : String} {value : α}
    (done : scope.remove? name = some (value, scope')) :
    ∃ before known after, scope = ⟨before ++ known :: after⟩ ∧ (∀ binding ∈ before, binding.name ≠ name) ∧
      known.name = name ∧ value = known.value ∧ scope' = ⟨before ++ after⟩ := by
  -- The binding that is found is the one that is erased.
  obtain ⟨known, found, same⟩ := Option.map_eq_some_iff.mp done
  cases same
  obtain ⟨before, after, split, earlier, named⟩ := Scope.find?_eq_some found
  refine ⟨before, known, after, by rw [← split], earlier, named, rfl, ?_⟩
  rw [split, List.eraseP_append_right _ (by simpa using earlier), List.eraseP_cons_of_pos (by simpa using named)]

namespace Environment

/-- The value of a name in the first of some scopes that has it, or the failure that none has. -/
def lookupIn (scopes : List (Scope α)) (name : String) : Except Error α :=
  ((scopes.findSome? (·.get? name)).map .ok).getD (.error (.unboundSymbol name))

/-- The first scope that has a name has the first binding of that name. -/
theorem findSome?_get? (scopes : List (Scope α)) (name : String) :
    scopes.findSome? (·.get? name) = ((scopes.flatMap (·.bindings)).find? (·.name == name)).map (·.value) := by
  rw [List.find?_flatMap, List.map_findSome?]
  rfl

/-- The root is one more scope to be asked, after all others. -/
theorem get?_eq_findSome? (env : Environment α) (name : String) :
    env.get? name = env.scopes.findSome? (·.get? name) := by
  rw [get?, scopes, List.findSome?_append]
  cases env.inner.findSome? (·.get? name) <;> simp

theorem lookup_eq_lookupIn (env : Environment α) (name : String) :
    env.lookup name = lookupIn env.scopes name := by
  rw [lookup, get?_eq_findSome?, lookupIn]
  cases env.scopes.findSome? (·.get? name) <;> rfl

/-! ### The listing -/

/-- A binding is added where its name is new. -/
theorem addVisible_eq (seen : List (String × α)) (binding : Binding α) :
    addVisible seen binding =
      if binding.name ∈ seen.map (·.1) then seen else seen ++ [(binding.name, binding.value)] := by
  have known : seen.any (·.1 == binding.name) = true ↔ binding.name ∈ seen.map (·.1) := by simp
  simp only [addVisible, known]

/-- A name that is already seen is not added again. -/
theorem nodup_addVisible {seen : List (String × α)} (distinct : (seen.map (·.1)).Nodup) (binding : Binding α) :
    ((addVisible seen binding).map (·.1)).Nodup := by
  rw [addVisible_eq]
  split
  · exact distinct
  · next new =>
    rw [List.map_append, List.map_singleton, List.nodup_append]
    exact ⟨distinct, by simp, by grind⟩

/-- Names are seen once each. -/
theorem nodup_foldl_addVisible (bindings : List (Binding α)) {seen : List (String × α)}
    (distinct : (seen.map (·.1)).Nodup) : ((bindings.foldl addVisible seen).map (·.1)).Nodup := by
  induction bindings generalizing seen with
  | nil => exact distinct
  | cons binding rest ih => exact ih (nodup_addVisible distinct binding)

/-- What is seen in the end was seen at the start or is the first binding of a name that was not. -/
theorem mem_foldl_addVisible (bindings : List (Binding α)) (seen : List (String × α)) (name : String) (value : α) :
    (name, value) ∈ bindings.foldl addVisible seen ↔
      (name, value) ∈ seen ∨
        name ∉ seen.map (·.1) ∧ (bindings.find? (·.name == name)).map (·.value) = some value := by
  induction bindings generalizing seen with
  | nil => simp
  | cons binding rest ih =>
    rw [List.foldl_cons, ih, addVisible_eq, List.find?_cons]
    -- The binding at hand is the first one of its name, or leaves the search to those behind it.
    by_cases same : binding.name = name
    · grind
    · grind

/-- The listing holds each name with the value that a look-up gives it. -/
theorem mem_bindings (env : Environment α) (name : String) (value : α) :
    (name, value) ∈ env.bindings ↔ env.lookup name = .ok value := by
  rw [bindings, List.mem_mergeSort, mem_foldl_addVisible, lookup_eq_ok, get?_eq_findSome?,
    findSome?_get?]
  simp

/-- The names of the listing grow from each entry to the next, as bytes. -/
theorem bindings_increasing (env : Environment α) :
    (env.bindings.map fun pair => utf8Bytes pair.1).Pairwise (· < ·) := by
  -- Sorting leaves equal names side by side, but no name is listed twice.
  have sorted : env.bindings.Pairwise fun pair pair' => decide (pair.1 ≤ pair'.1) = true := by
    refine List.pairwise_mergeSort (fun _ _ _ first second => ?_) (fun _ _ => ?_) _
    · simp only [decide_eq_true_eq] at first second ⊢
      exact String.le_trans first second
    · simpa using String.le_total _ _
  have distinct : (env.bindings.map (·.1)).Nodup :=
    ((List.mergeSort_perm _ _).map _).nodup_iff.mpr (nodup_foldl_addVisible _ (by simp))
  rw [List.pairwise_map]
  refine (sorted.and (List.pairwise_map.mp distinct)).imp fun ⟨least, other⟩ => ?_
  exact utf8Bytes_lt (Std.lt_of_le_of_ne (of_decide_eq_true least) other)

/-! ### Removal -/

/-- A binding among those of a list of scopes, with what stands on both sides of it. -/
structure Place (α : Type) where
  /-- The scopes that are asked before the one with the binding. -/
  closer : List (Scope α)
  before : List (Binding α)
  known : Binding α
  after : List (Binding α)
  /-- The scopes that are asked after the one with the binding. -/
  outer : List (Scope α)

namespace Place

/-- The scopes around a place with the binding that stands there. -/
def whole (place : Place α) : List (Scope α) :=
  place.closer ++ ⟨place.before ++ place.known :: place.after⟩ :: place.outer

/-- The scopes around a place without the binding that stands there. -/
def rest (place : Place α) : List (Scope α) :=
  place.closer ++ ⟨place.before ++ place.after⟩ :: place.outer

/-- The binding at a place is the first one of a name on the way out. -/
structure IsFirst (place : Place α) (name : String) : Prop where
  closer : ∀ scope ∈ place.closer, scope.get? name = none
  before : ∀ binding ∈ place.before, binding.name ≠ name
  named : place.known.name = name

/-- A look-up stops at the first binding of a name. -/
theorem IsFirst.lookupIn_whole {place : Place α} {name : String} (first : place.IsFirst name) :
    lookupIn place.whole name = .ok place.known.value := by
  have passed : place.closer.findSome? (·.get? name) = none := List.findSome?_eq_none_iff.mpr first.closer
  have earlier : place.before.find? (·.name == name) = none := by simpa using first.before
  have found : Scope.get? ⟨place.before ++ place.known :: place.after⟩ name = some place.known.value := by
    simp [Scope.get?, Scope.find?, earlier, first.named]
  simp [lookupIn, whole, passed, found]

/-- Without the first binding of a name, and with no other in the same scope, outer scopes decide. -/
theorem IsFirst.lookupIn_rest {place : Place α} {name : String} (first : place.IsFirst name)
    (single : ∀ binding ∈ place.after, binding.name ≠ name) :
    lookupIn place.rest name = lookupIn place.outer name := by
  have passed : place.closer.findSome? (·.get? name) = none := List.findSome?_eq_none_iff.mpr first.closer
  have emptied : Scope.get? ⟨place.before ++ place.after⟩ name = none := by
    simpa [Scope.get?, Scope.find?] using ⟨first.before, single⟩
  simp [lookupIn, rest, passed, emptied]

/-- Other names than that of the binding are found where they were. -/
theorem lookupIn_rest_of_ne (place : Place α) {other : String} (different : place.known.name ≠ other) :
    lookupIn place.rest other = lookupIn place.whole other := by
  simp [lookupIn, findSome?_get?, rest, whole, different]

end Place

/-- A name is taken out at its first binding on the way out. -/
theorem removeFirst?_eq_some {name : String} {scopes left : List (Scope α)}
    (done : removeFirst? name scopes = some left) :
    ∃ place : Place α, place.IsFirst name ∧ scopes = place.whole ∧ left = place.rest := by
  induction scopes generalizing left with
  | nil => cases done
  | cons scope outer ih =>
    simp only [removeFirst?] at done
    split at done
    · next removed =>
      -- The closest scope has the name.
      cases done
      obtain ⟨before, known, after, rfl, earlier, named, -, rfl⟩ := Scope.remove?_eq_some removed
      exact ⟨⟨[], before, known, after, outer⟩, ⟨by simp, earlier, named⟩, rfl, rfl⟩
    · next absent =>
      -- A scope without the name is passed over.
      obtain ⟨rest, found, rfl⟩ := Option.map_eq_some_iff.mp done
      obtain ⟨place, first, rfl, rfl⟩ := ih found
      refine ⟨{ place with closer := scope :: place.closer }, ⟨?_, first.before, first.named⟩, rfl, rfl⟩
      have here : scope.get? name = none := by simpa [Scope.remove?, Scope.get?] using absent
      simpa [here] using first.closer

/-- A name that cannot be taken out is in no scope. -/
theorem removeFirst?_eq_none {name : String} {scopes : List (Scope α)} (failed : removeFirst? name scopes = none) :
    lookupIn scopes name = .error (.unboundSymbol name) := by
  -- Every scope is asked before the removal fails.
  have absent : scopes.findSome? (·.get? name) = none := by
    induction scopes with
    | nil => rfl
    | cons scope outer ih =>
      simp only [removeFirst?] at failed
      split at failed
      · cases failed
      · next here =>
        have missing : scope.get? name = none := by simpa [Scope.remove?, Scope.get?] using here
        rw [List.findSome?_cons, missing]
        exact ih (Option.map_eq_none_iff.mp failed)
  rw [lookupIn, absent]
  rfl

/-- The root is one more scope to take a name out of, after all others. -/
theorem removeFirst?_scopes (env : Environment α) (name : String) :
    removeFirst? name env.scopes = (env.remove? name).map (·.scopes) := by
  -- By induction on the scopes above the root, each of which either has the name or leaves it to the rest.
  have concat : ∀ inner : List (Scope α), removeFirst? name (inner ++ [env.root]) =
      ((removeFirst? name inner).map (· ++ [env.root])).or
        ((env.root.remove? name).map fun taken => inner ++ [taken.2]) := by
    intro inner
    induction inner with
    | nil => cases found : env.root.remove? name <;> simp [removeFirst?, found]
    | cons scope outer ih =>
      rw [List.cons_append, removeFirst?, removeFirst?]
      cases scope.remove? name with
      | some taken => rfl
      | none =>
        rw [ih]
        cases removeFirst? name outer <;> cases env.root.remove? name <;> rfl
  rw [scopes, concat, remove?]
  cases removeFirst? name env.inner with
  | some inner => rfl
  | none => cases env.root.remove? name <;> rfl

/-- What becomes of a chain when it loses the binding that a look-up of a name finds. -/
structure Loses (env : Environment α) (name : String) (env' : Environment α) : Prop where
  /-- Only the binding that the look-up finds is gone, whether or not it is protected. -/
  gone : ∃ place : Place α, place.IsFirst name ∧ env.scopes = place.whole ∧ env'.scopes = place.rest ∧
    env.lookup name = .ok place.known.value ∧ env'.lookup name = lookupIn place.outer name
  /-- Other names keep their values. -/
  others : ∀ other, other ≠ name → env'.lookup other = env.lookup other
  /-- There are as many scopes as before. -/
  depth : env'.depth = env.depth

/-- Where no scope has a name twice, removal takes away just what a look-up finds. -/
theorem loses_of_remove? {env env' : Environment α} {name : String}
    (distinct : ∀ scope ∈ env.scopes, scope.names.Nodup) (done : env.remove? name = some env') :
    env.Loses name env' := by
  have removed : removeFirst? name env.scopes = some env'.scopes := by rw [removeFirst?_scopes, done]; rfl
  obtain ⟨place, first, whole, rest⟩ := removeFirst?_eq_some removed
  -- The scope of the binding has its name once, so no binding behind it comes to light there.
  have single : ∀ binding ∈ place.after, binding.name ≠ name := by
    have once := distinct ⟨place.before ++ place.known :: place.after⟩ (by simp [whole, Place.whole])
    simp only [Scope.names, List.map_append, List.map_cons, first.named, List.nodup_append, List.nodup_cons] at once
    simpa using once.2.1.1
  refine ⟨⟨place, first, whole, rest, ?_, ?_⟩, fun other different => ?_, ?_⟩
  · rw [lookup_eq_lookupIn, whole, first.lookupIn_whole]
  · rw [lookup_eq_lookupIn, rest, first.lookupIn_rest single]
  · rw [lookup_eq_lookupIn, lookup_eq_lookupIn, whole, rest, place.lookupIn_rest_of_ne]
    rw [first.named]
    exact different.symm
  · have length := removeFirst?_length removed
    simpa [scopes, Environment.depth] using length

/--
Listing, look-up and removal agree on which binding of a name is the visible one.

The listing is in strictly growing byte order of names and has exactly the values that look-ups give. Where no
scope has a name twice, removing a name succeeds exactly when a look-up does and takes away the binding that
the look-up found, so that the next one further out is seen.
-/
theorem listing_lookup_and_removal_agree (env : Environment α) :
    (env.bindings.map fun pair => utf8Bytes pair.1).Pairwise (· < ·) ∧
    (∀ name value, (name, value) ∈ env.bindings ↔ env.lookup name = .ok value) ∧
    ((∀ scope ∈ env.scopes, scope.names.Nodup) → ∀ name,
      ((env.remove? name).isSome ↔ ∃ value, env.lookup name = .ok value) ∧
      ∀ env', env.remove? name = some env' → env.Loses name env') := by
  refine ⟨env.bindings_increasing, env.mem_bindings, fun distinct name =>
    ⟨?_, fun env' done => loses_of_remove? distinct done⟩⟩
  cases removed : env.remove? name with
  | some env' =>
    obtain ⟨place, -, -, -, found, -⟩ := (loses_of_remove? distinct removed).gone
    simp [found]
  | none =>
    have failed : removeFirst? name env.scopes = none := by rw [removeFirst?_scopes, removed]; rfl
    simp [lookup_eq_lookupIn, removeFirst?_eq_none failed]

/-- A protected constant and a name bound in two scopes can both be removed, and a name bound in none cannot. -/
theorem listing_lookup_and_removal_agree_shadowed :
    let root : Scope Nat := ⟨[⟨"pi", 3, true⟩, ⟨"b", 1, false⟩]⟩
    let env : Environment Nat := ⟨root, [⟨[⟨"b", 2, false⟩, ⟨"a", 4, false⟩]⟩]⟩
    (env.remove? "b" = some ⟨root, [⟨[⟨"a", 4, false⟩]⟩]⟩ ∧
      env.Loses "b" ⟨root, [⟨[⟨"a", 4, false⟩]⟩]⟩) ∧
    (∃ env', env.remove? "pi" = some env' ∧ env.Loses "pi" env') ∧
    env.remove? "c" = none := by
  intro root env
  obtain ⟨-, -, removal⟩ := listing_lookup_and_removal_agree env
  have distinct : ∀ scope ∈ env.scopes, scope.names.Nodup := by decide
  exact ⟨⟨rfl, (removal distinct "b").2 _ rfl⟩, ⟨_, rfl, (removal distinct "pi").2 _ rfl⟩, rfl⟩

end Environment

end QuoteLisp
