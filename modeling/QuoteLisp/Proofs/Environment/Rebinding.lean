import QuoteLisp.Proofs.Environment.Home

/-! What a definition form makes of the scope it writes to, once none of its names is refused there. -/

namespace QuoteLisp

variable {H : Type}

/-- The bindings of a scope for other names than some given ones. -/
def Scope.others {α : Type} (scope : Scope α) (names : List String) : List (Binding α) :=
  scope.bindings.filter (·.name ∉ names)

/-- Leaving out one more name. -/
theorem Scope.others_cons {α : Type} (scope : Scope α) (name : String) (names : List String) :
    scope.others (name :: names) = (scope.others names).filter (·.name ∉ [name]) ∧
      scope.others (name :: names) = (scope.others [name]).filter (·.name ∉ names) := by
  -- Leaving out names one after the other leaves out all of them, in any order.
  simp only [others, List.filter_filter, List.mem_cons, List.not_mem_nil, or_false, not_or, Bool.decide_and,
    true_and]
  simp [Bool.and_comm]

/-- A name is found among the bindings of other names than some it is not one of. -/
theorem Scope.find?_others {α : Type} {names : List String} {name : String} (outside : name ∉ names)
    (scope : Scope α) : (scope.others names).find? (·.name == name) = scope.find? name := by
  -- The bindings left out all have other names, so the search never stops at one.
  simp only [others, find?, List.find?_filter]
  congr 1
  funext binding
  by_cases same : binding.name = name
  · simp [same, outside]
  · simp [same]

namespace DefineMode

/-- Whether a scope refuses a name to a definition form. -/
def refuses (mode : DefineMode) (scope : Scope (Value H)) (name : String) : Bool :=
  if mode.protects then scope.contains name else scope.isProtected name

/-- A scope that refuses none of the names; a form that protects cannot bind one name twice either. -/
structure Admits (mode : DefineMode) (scope : Scope (Value H)) (names : List String) : Prop where
  free : ∀ name ∈ names, mode.refuses scope name = false
  once : mode.protects → names.Nodup

/-- The value that a list of names and values gives a name: the last one where the name is repeated. -/
def given? (pairs : List (String × Value H)) (name : String) : Option (Value H) :=
  pairs.reverse.lookup name

/-- A scope that differs from another in the values of some names and in nothing else. -/
structure Rebound (mode : DefineMode) (pairs : List (String × Value H)) (before after : Scope (Value H)) : Prop where
  /-- Each name has the value given to it last. -/
  targets : ∀ name value, given? pairs name = some value → after.find? name = some ⟨name, value, mode.protects⟩
  /-- Bindings of other names are the same ones in the same order. -/
  others : after.others (pairs.map (·.1)) = before.others (pairs.map (·.1))
  /-- Known names keep their places, and new ones follow in the order in which they are first given. -/
  order : after.names = before.names ++ ((pairs.map (·.1)).filter (· ∉ before.names)).eraseDups

/-- Blocking is a matter of the scope that the form writes to. -/
theorem isBlocked_eq (mode : DefineMode) (env : Environment (Value H)) (name : String) :
    mode.isBlocked env name = mode.refuses (mode.home env) name := by
  -- Each form asks the scope it writes to, and asks for what its own kind of binding refuses.
  cases mode <;> rfl

/-- A check that passes after some earlier names. -/
theorem check_eq_ok_after (mode : DefineMode) (env : Environment (Value H)) (earlier names : List String) :
    mode.check env earlier names = .ok () ↔
      (∀ name ∈ names, mode.refuses (mode.home env) name = false) ∧
        (mode.protects → names.Nodup ∧ ∀ name ∈ names, name ∉ earlier) := by
  have protects : mode = globalProtected ↔ mode.protects = true := by cases mode <;> simp [DefineMode.protects]
  induction names generalizing earlier with
  | nil => simp [check]
  | cons name rest ih =>
    -- The name at hand counts as an earlier one for those that follow.
    simp only [check, isBlocked_eq, protects]
    by_cases refused : mode.refuses (mode.home env) name = true
    · simp [refused]
    · by_cases repeated : mode.protects = true ∧ name ∈ earlier
      · simp [repeated]
      · have passed : ¬ (mode.protects = true ∧ name ∈ earlier ∨ mode.refuses (mode.home env) name = true) :=
          fun either => either.elim repeated refused
        rw [if_neg passed]
        refine (ih (name :: earlier)).trans ?_
        grind

/-- The check passes exactly when the scope admits the names. -/
theorem check_eq_ok {mode : DefineMode} {env : Environment (Value H)} {names : List String} :
    mode.check env [] names = .ok () ↔ mode.Admits (mode.home env) names := by
  -- Nothing is earlier than the first name.
  rw [check_eq_ok_after]
  exact ⟨fun ⟨free, once⟩ => ⟨free, fun protects => (once protects).1⟩,
    fun admits => ⟨admits.free, fun protects => ⟨admits.once protects, by simp⟩⟩⟩

/-- A name that is not refused can be bound. -/
theorem bindIn_of_not_refuses {mode : DefineMode} {scope : Scope (Value H)} {name : String} (value : Value H)
    (free : mode.refuses scope name = false) : ∃ scope', mode.bindIn scope name value = .ok scope' := by
  -- Blocking must agree with binding on every scope: what is not refused as protected is not refused
  -- as the first binding of its name either.
  unfold refuses at free
  unfold bindIn
  split
  · next protects => simp_all [Scope.bindProtected]
  · next protects =>
    simp only [protects] at free
    unfold Scope.bind
    cases found : scope.find? name with
    | none => exact ⟨_, rfl⟩
    | some known =>
      -- The binding that is found is one of those that would make the name refused.
      obtain ⟨before, after, split, -, named⟩ := Scope.find?_eq_some found
      have unprotected : known.isProtected = false := by
        simp [Scope.isProtected, split, named] at free
        exact free.2.1
      simp [unprotected]

/-- A name stays free while others are bound; where names are not protected, also when it is bound itself. -/
theorem not_refuses_of_bindIn {mode : DefineMode} {scope scope' : Scope (Value H)} {name other : String}
    {value : Value H} (free : mode.refuses scope other = false) (fresh : mode.protects → other ≠ name)
    (done : mode.bindIn scope name value = .ok scope') : mode.refuses scope' other = false := by
  -- A binding adds one name, and it adds protection only where names are bound once.
  rcases bindIn_eq_ok done with ⟨-, rfl⟩ | ⟨unprotected, before, known, after, split, -, -, unlocked, rfl⟩
  · cases protects : mode.protects with
    | true =>
      have different : name ≠ other := fun same => fresh protects same.symm
      simpa [refuses, protects, Scope.push, Scope.contains, different] using free
    | false => simpa [refuses, protects, Scope.push, Scope.isProtected] using free
  · simpa [refuses, unprotected, Scope.isProtected, split, unlocked] using free

/-- Binding one name changes what that name stands for. -/
theorem rebound_of_bindIn {mode : DefineMode} {scope scope' : Scope (Value H)} {name : String} {value : Value H}
    (done : mode.bindIn scope name value = .ok scope') : mode.Rebound [(name, value)] scope scope' := by
  -- A single name is given a single value, so only the place of the binding differs.
  have targeted : ∀ other given, given? [(name, value)] other = some given → other = name ∧ given = value := by
    intro other given found
    simp only [given?, List.reverse_cons, List.reverse_nil, List.nil_append, List.lookup_cons,
      List.lookup_nil] at found
    split at found
    · next same => exact ⟨by simpa using same, by simpa using found.symm⟩
    · cases found
  rcases bindIn_eq_ok done with ⟨new, rfl⟩ | ⟨unprotected, before, known, after, split, earlier, named, unlocked, rfl⟩
  · -- A new name stands behind all others.
    refine ⟨fun other given found => ?_, ?_, ?_⟩
    · obtain ⟨rfl, rfl⟩ := targeted other given found
      have absent : scope.bindings.find? (·.name == other) = none := by simpa using new
      simp [Scope.find?, Scope.push, absent]
    · simp [Scope.others, Scope.push]
    · have absent : name ∉ scope.names := by simpa [Scope.names] using new
      simp [absent, List.eraseDups_cons]
      simp [Scope.names, Scope.push]
  · -- A known name keeps its place, and only its value differs.
    refine ⟨fun other given found => ?_, ?_, ?_⟩
    · obtain ⟨rfl, rfl⟩ := targeted other given found
      have passed : before.find? (·.name == other) = none := by simpa using earlier
      simp [Scope.find?, passed, named, unlocked, unprotected]
    · simp [Scope.others, split, named]
    · have present : name ∈ scope.names := by simp [Scope.names, split, named]
      simp [present]
      simp [Scope.names, split]

/-- A name that is given no value is none of the names. -/
theorem given?_eq_none {pairs : List (String × Value H)} {name : String} :
    given? pairs name = none ↔ name ∉ pairs.map (·.1) := by
  -- A name without a value stands in no pair, from whichever end they are searched.
  simp only [given?, List.lookup_eq_none_iff, List.mem_reverse, List.mem_map]
  grind

/-- One name before others: what is bound first stays unless it is bound again. -/
theorem Rebound.cons {mode : DefineMode} {name : String} {value : Value H} {pairs : List (String × Value H)}
    {before middle after : Scope (Value H)} (first : mode.Rebound [(name, value)] before middle)
    (rest : mode.Rebound pairs middle after) : mode.Rebound ((name, value) :: pairs) before after := by
  -- The later bindings are made in the scope that the first one leaves.
  refine ⟨fun other given found => ?_, ?_, ?_⟩
  · have split : given? ((name, value) :: pairs) other = (given? pairs other).or (given? [(name, value)] other) := by
      simp [given?, List.lookup_append]
    rw [split] at found
    cases later : given? pairs other with
    | some last =>
      simp only [later, Option.some_or, Option.some.injEq] at found
      exact rest.targets other given (by rw [later, found])
    | none =>
      simp only [later, Option.none_or] at found
      -- The name is none of the later ones, so its binding is still the one made first.
      have kept := given?_eq_none.mp later
      rw [← Scope.find?_others kept, rest.others, Scope.find?_others kept]
      exact first.targets other given found
  · rw [List.map_cons, (after.others_cons name _).1, rest.others, ← (middle.others_cons name _).1,
      (middle.others_cons name _).2, (before.others_cons name _).2]
    exact congrArg _ first.others
  · have order := first.order
    rw [rest.order]
    by_cases known : name ∈ before.names
    · -- A known name is no new one, so the names are the same after the first step.
      have same : middle.names = before.names := by simpa [known] using order
      simp [same, known]
    · have added : middle.names = before.names ++ [name] := by simpa [known, List.eraseDups_cons] using order
      simp [added, known, List.eraseDups_cons, List.filter_filter, Bool.and_comm, Bool.beq_eq_decide_eq]

/-- Names that a scope admits are all bound: no later one is refused because of an earlier one. -/
theorem bindAll_of_admits {mode : DefineMode} (names : List String) (values : List (Value H))
    (sameLength : names.length = values.length) {s : State H} (admits : mode.Admits (mode.home s.env) names) :
    ∃ scope, mode.bindAll names values s = (.ok (), { s with env := mode.withHome s.env scope }) ∧
      mode.Rebound (names.zip values) (mode.home s.env) scope := by
  -- By induction on the names, with the scope of the moment in place of the first one.
  induction names generalizing values s with
  | nil => exact ⟨mode.home s.env, by simp [bindAll], by simp [given?], rfl, by simp⟩
  | cons name rest ih =>
    cases values with
    | nil => cases sameLength
    | cons value others =>
      obtain ⟨middle, bound⟩ := bindIn_of_not_refuses value (admits.free name (by simp))
      -- What is admitted before the first name is bound is admitted after it.
      have later : mode.Admits (mode.home (mode.withHome s.env middle)) rest := by
        refine ⟨fun other member => ?_, fun protects => (List.nodup_cons.mp (admits.once protects)).2⟩
        rw [home_withHome]
        refine not_refuses_of_bindIn (admits.free other (by simp [member])) (fun protects same => ?_) bound
        exact (List.nodup_cons.mp (admits.once protects)).1 (same ▸ member)
      obtain ⟨scope, done, rebound⟩ := @ih others (by simpa using sameLength)
        { s with env := mode.withHome s.env middle } later
      refine ⟨scope, ?_, ?_⟩
      · simp [bindAll, Eval.bind_apply, Eval.changeEnv, bind_eq, bound, Except.map, done]
      · rw [home_withHome] at rebound
        exact (rebound_of_bindIn bound).cons rebound

end DefineMode

end QuoteLisp
