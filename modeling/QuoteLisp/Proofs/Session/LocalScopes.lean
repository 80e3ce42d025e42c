import Mathlib.Logic.Relation
import QuoteLisp.Proofs.Environment.Rebinding
import QuoteLisp.Proofs.Eval.Definition
import QuoteLisp.Proofs.Eval.Supervision
import QuoteLisp.Proofs.Pool.Capacity
import QuoteLisp.Proofs.Session.CallerScopes
import QuoteLisp.Proofs.Session.NormalForms

/-! Protection lives in the root scope only: no other scope, entered or captured in a closure anywhere, ever holds a
protected binding or one name twice. So nothing stands in the way of a definition in a local scope, or of a formal with
the name of an operation. -/

namespace QuoteLisp

variable {H : Type}

/-- A scope other than the root: each name is there once, and none is protected. -/
structure Scope.IsLocal {α : Type} (scope : Scope α) : Prop where
  distinct : scope.names.Nodup
  unprotected : ∀ binding ∈ scope.bindings, binding.isProtected = false

/-- The scope that a closure has captured is a local one. -/
def Value.CapturesLocal : Value H → Prop
  | closure _ _ scope => scope.IsLocal
  | _ => True

/-- A value in which the scopes captured by closures, at any depth, are local ones. -/
abbrev Value.IsWellScoped (value : Value H) : Prop := value.Everywhere CapturesLocal

/-- A state in which each name of the root is there once, the scopes entered since are local ones, and all values that are
bound in them or stored in the pool are well-scoped. -/
structure State.WellScoped (s : State H) : Prop where
  root : s.env.root.names.Nodup
  entered : ∀ scope ∈ s.env.inner, scope.IsLocal
  bound : s.env.Everywhere Value.CapturesLocal
  stored : ∀ handle value, s.pool.get? handle = some value → value.IsWellScoped

/-- The single changes of a state that an evaluation is made of, with well-scoped values. -/
inductive State.Changes (s : State H) : State H → Prop where
  | print (line : String) : Changes s { s with output := s.output ++ line ++ "\n" }
  | descend : Changes s { s with depth := s.depth + 1 }
  | rise : Changes s { s with depth := s.depth - 1 }
  | enter {scope : Scope (Value H)} (isLocal : scope.IsLocal) (inside : scope.Everywhere Value.CapturesLocal) :
    Changes s { s with env := s.env.enter scope }
  | leave : Changes s { s with env := s.env.leave }
  | bind {mode : DefineMode} {name : String} {value : Value H} {env : Environment (Value H)}
    (wellScoped : value.IsWellScoped) (bound : mode.bind s.env name value = .ok env) : Changes s { s with env := env }
  | remove (name : String) : Changes s { s with env := (s.env.remove? name).getD s.env }
  | store {value : Value H} {handle : Handle} {pool : Pool (Value H)} (wellScoped : value.IsWellScoped)
    (acquired : s.pool.acquire value = .ok (handle, pool)) : Changes s { s with pool := pool }
  | free {handle : Handle} {value : Value H} {pool : Pool (Value H)}
    (released : s.pool.release? handle = some (value, pool)) : Changes s { s with pool := pool }

namespace Scope

variable {α : Type} {scope scope' : Scope α} {name : String} {value : α}

/-- A part of a scope has each name once if the scope has. -/
theorem IsPartOf.nodup (part : scope'.IsPartOf scope) (distinct : scope.names.Nodup) : scope'.names.Nodup :=
  (List.Sublist.map _ part).nodup distinct

/-- A part of a local scope is one. -/
theorem IsPartOf.isLocal (part : scope'.IsPartOf scope) (isLocal : scope.IsLocal) : scope'.IsLocal :=
  ⟨part.nodup isLocal.distinct, fun binding member => isLocal.unprotected binding (part.subset member)⟩

/-- Parts of local scopes are local scopes. -/
theorem locals_of_parts {scopes parts : List (Scope α)} (isPart : List.Forall₂ IsPartOf parts scopes)
    (locals : ∀ scope ∈ scopes, scope.IsLocal) : ∀ scope ∈ parts, scope.IsLocal := by
  induction isPart with
  | nil => simp
  | cons first _ ih =>
    rw [List.forall_mem_cons] at locals ⊢
    exact ⟨first.isLocal locals.1, ih locals.2⟩

/-- A name that is new keeps the names distinct. -/
theorem nodup_push {isProtected : Bool} (distinct : scope.names.Nodup)
    (new : ∀ binding ∈ scope.bindings, binding.name ≠ name) : (scope.push name value isProtected).names.Nodup := by
  have outside : name ∉ scope.names := by
    intro member
    obtain ⟨binding, inside, named⟩ := List.mem_map.mp member
    exact new binding inside named
  have longer : (scope.push name value isProtected).names = scope.names ++ [name] := by simp [names, push]
  rw [longer, List.nodup_append]
  refine ⟨distinct, by simp, ?_⟩
  rintro one inside _ last rfl
  exact outside (List.mem_singleton.mp last ▸ inside)

/-- Binding keeps the names distinct. -/
theorem nodup_bind (distinct : scope.names.Nodup) (done : scope.bind name value = .ok scope') :
    scope'.names.Nodup := by
  rcases bind_eq_ok done with ⟨new, rfl⟩ | ⟨before, known, after, split, -, -, -, rfl⟩
  · exact nodup_push distinct new
  · -- A known name keeps its place.
    simpa [names, split] using distinct

namespace IsLocal

/-- Nothing in a local scope stands in the way of a binding. -/
theorem bind_ok (isLocal : scope.IsLocal) (name : String) (value : α) : ∃ scope', scope.bind name value = .ok scope' := by
  unfold Scope.bind
  cases found : scope.find? name with
  | none => exact ⟨_, rfl⟩
  | some known => exact ⟨_, by simp only [isLocal.unprotected known (List.mem_of_find?_eq_some found)]; rfl⟩

/-- Binding in a local scope leaves it one. -/
theorem bind (isLocal : scope.IsLocal) (done : scope.bind name value = .ok scope') : scope'.IsLocal := by
  refine ⟨nodup_bind isLocal.distinct done, fun binding member => ?_⟩
  rcases mem_of_bind done member with old | rfl
  · exact isLocal.unprotected binding old
  · rfl

/-- A local scope refuses no name to a definition. -/
theorem not_isProtected (isLocal : scope.IsLocal) (name : String) : scope.isProtected name = false := by
  simp only [isProtected, List.any_eq_false]
  intro binding member
  simp [isLocal.unprotected binding member]

end IsLocal

end Scope

/-- The scope that a definition writes to keeps its names distinct. -/
theorem DefineMode.nodup_bindIn {mode : DefineMode} {scope scope' : Scope (Value H)} {name : String} {value : Value H}
    (distinct : scope.names.Nodup) (done : mode.bindIn scope name value = .ok scope') : scope'.names.Nodup := by
  unfold bindIn at done
  split at done
  · obtain ⟨new, rfl⟩ := Scope.bindProtected_eq_ok done
    exact Scope.nodup_push distinct new
  · exact Scope.nodup_bind distinct done

namespace State.WellScoped

variable {s t : State H}

/-- A definition leaves the state well-scoped, wherever it writes. -/
theorem bind (wellScoped : s.WellScoped) {mode : DefineMode} {name : String} {value : Value H}
    {env : Environment (Value H)} (sound : value.IsWellScoped) (done : mode.bind s.env name value = .ok env) :
    ({ s with env := env } : State H).WellScoped := by
  have inside : env.Everywhere Value.CapturesLocal := wellScoped.bound.bind sound done
  rw [mode.bind_eq] at done
  obtain ⟨scope, written, rfl⟩ := except_map_eq_ok.mp done
  -- What is written to is the root, or the innermost of the scopes that are entered.
  have atRoot : mode.home s.env = s.env.root → mode.withHome s.env scope = { s.env with root := scope } →
      ({ s with env := mode.withHome s.env scope } : State H).WellScoped := by
    intro home with_
    rw [home] at written
    refine ⟨?_, ?_, inside, wellScoped.stored⟩
    · simpa [with_] using DefineMode.nodup_bindIn wellScoped.root written
    · simpa [with_] using wellScoped.entered
  cases mode with
  | innermost =>
    cases entered : s.env.inner with
    | nil =>
      exact atRoot (by simp [DefineMode.home, Environment.innermost, entered])
        (by simp [DefineMode.withHome, Environment.withInnermost, entered])
    | cons first outer =>
      have locals := wellScoped.entered
      rw [entered] at locals
      simp only [DefineMode.home, Environment.innermost, entered, List.headD_cons] at written
      have isLocal : scope.IsLocal := (locals first (by simp)).bind written
      refine ⟨?_, ?_, inside, wellScoped.stored⟩
      · simpa [DefineMode.withHome, Environment.withInnermost, entered] using wellScoped.root
      · simp only [DefineMode.withHome, Environment.withInnermost, entered, List.forall_mem_cons]
        exact ⟨isLocal, fun other member => locals other (by simp [member])⟩
  | _ => exact atRoot rfl rfl

/-- Removing a name leaves the state well-scoped. -/
theorem remove (wellScoped : s.WellScoped) (name : String) :
    ({ s with env := (s.env.remove? name).getD s.env } : State H).WellScoped := by
  refine ⟨?_, fun scope member => ?_, wellScoped.bound.remove name, wellScoped.stored⟩
  · -- The root loses a binding or stays as it is.
    have part : ((s.env.remove? name).getD s.env).root.IsPartOf s.env.root := by
      unfold Environment.remove?
      split
      · exact .refl _
      · cases found : s.env.root.find? name with
        | none =>
          simp only [Scope.remove?, found]
          exact .refl _
        | some known =>
          simp only [Scope.remove?, found]
          exact List.eraseP_sublist
    exact part.nodup wellScoped.root
  · exact Scope.locals_of_parts (s.env.isPartOf_of_remove? name) wellScoped.entered scope member

/-- Every single change of a well-scoped state leaves it well-scoped. -/
theorem changes (wellScoped : s.WellScoped) (change : s.Changes t) : t.WellScoped := by
  obtain ⟨root, entered, bound, stored⟩ := wellScoped
  cases change with
  | print line => exact ⟨root, entered, bound, stored⟩
  | descend => exact ⟨root, entered, bound, stored⟩
  | rise => exact ⟨root, entered, bound, stored⟩
  | enter isLocal inside =>
    exact ⟨root, List.forall_mem_cons.mpr ⟨isLocal, entered⟩, bound.enter inside, stored⟩
  | leave => exact ⟨root, fun scope member => entered scope (List.mem_of_mem_tail member), bound.leave, stored⟩
  | bind sound done => exact bind ⟨root, entered, bound, stored⟩ sound done
  | remove name => exact remove ⟨root, entered, bound, stored⟩ name
  | @store value handle pool sound acquired =>
    refine ⟨root, entered, bound, fun other held found => ?_⟩
    -- The pool holds what it held, and the value that is stored.
    have stores := Pool.stores_of_acquire acquired
    by_cases same : other = handle
    · subst same
      rw [stores.stored] at found
      cases found
      exact sound
    · rw [stores.others other same] at found
      exact stored other held found
  | @free handle value pool released =>
    refine ⟨root, entered, bound, fun other held found => ?_⟩
    -- What is left in the pool was there before.
    obtain ⟨freed, again, frees⟩ := Pool.frees_of_get? (Pool.get?_of_release? released)
    rw [released] at again
    cases again
    rw [frees.contents] at found
    split at found
    · cases found
    · exact stored other held found

end State.WellScoped

/-- A state on the way of an evaluation: well-scoped, reached from where it starts by single changes, and with a given
number of scopes. -/
structure State.Underway (start : State H) (scopes : Nat) (s : State H) : Prop where
  wellScoped : s.WellScoped
  reached : Relation.ReflTransGen State.Changes start s
  scopes : s.env.depth = scopes

/-- One change more on the way. -/
theorem State.Underway.change {start s t : State H} {scopes scopes' : Nat} (underway : start.Underway scopes s)
    (change : s.Changes t) (depth : t.env.depth = scopes') : start.Underway scopes' t :=
  ⟨underway.wellScoped.changes change, underway.reached.tail change, depth⟩

/-- Only closures capture a scope. -/
theorem Value.IsPlain.capturesLocal {value : Value H} (plain : value.IsPlain) : value.CapturesLocal := by
  cases value with
  | closure formals body scope => exact plain.elim
  | _ => trivial

/-- At the start there is the root alone, with each operation of the language once and none of them a closure. -/
theorem State.wellScoped_initial (limits : PoolLimits) : (State.initial limits : State H).WellScoped where
  root := by
    have distinct : (Primitive.all.map (·.name)).Nodup := by decide
    simpa [State.initial, standardEnvironment, standardScope, Scope.names, Function.comp_def] using distinct
  entered _ member := nomatch member
  bound := by
    intro scope member binding inside
    obtain rfl := List.mem_singleton.mp member
    obtain ⟨p, -, rfl⟩ := List.mem_map.mp inside
    simp only [Primitive.value]
    split <;> exact Value.everywhere_of_leaf rfl trivial
  stored handle value found := by
    simp [State.initial, Pool.get?_eq, Pool.cell?] at found

/-- Without host operations, every step makes single changes, with well-scoped values only. -/
theorem wellScoped_preserved (m : Machine Empty) (start : State Empty) :
    Likeness.Preserves start.Underway Value.CapturesLocal (fun _ => True) m where
  plain _ plain := plain.capturesLocal
  normal _ _ := trivial
  lambda _ _ _ := ⟨by simp [Scope.names], by simp⟩
  skip _ _ _ _ captures := captures
  bound _ _ _ _ _ _ captures _ bound := Scope.IsLocal.bind captures bound
  program _ _ found := program_everywhere (fun _ plain => plain.capturesLocal) (fun _ => trivial) found
  lookup _ _ _ _ _ underway found := ⟨trivial, underway.wellScoped.bound.get? found⟩
  bind mode _ _ _ s _ _ evaluated underway bound := by
    refine underway.change (.bind evaluated.2 bound) ?_
    rw [mode.bind_eq] at bound
    obtain ⟨scope, -, rfl⟩ := except_map_eq_ok.mp bound
    exact (mode.depth_withHome s.env scope).trans underway.scopes
  remove _ name _ s _ _ _ underway := underway.change (.remove name) ((s.env.depth_remove? name).trans underway.scopes)
  print line _ _ underway := underway.change (.print line) underway.scopes
  descend scopes _ underway :=
    ⟨scopes, underway.change .descend underway.scopes, fun _ inside => inside.change .rise inside.scopes⟩
  enter _ scope scopes s captures bindings underway := by
    have before := underway.scopes
    simp only [Environment.depth] at before
    -- There is one scope more until it is left again.
    refine ⟨scopes + 1, underway.change (.enter captures bindings) ?_, fun s' inside =>
      inside.change .leave ?_⟩
    · simp only [Environment.depth, Environment.enter, List.length_cons]
      omega
    · have depth := inside.scopes
      simp only [Environment.depth] at depth
      simp only [Environment.depth, Environment.leave, List.length_tail]
      omega
  hosts op := nomatch op

/-- Storing and freeing are single changes too. -/
theorem wellScoped_keepsPool (start : State H) :
    Likeness.KeepsPool start.Underway Value.CapturesLocal (fun _ => True) where
  store _ _ _ _ _ underway evaluated acquired := underway.change (.store evaluated.2 acquired) underway.scopes
  free _ _ handle value _ underway released :=
    ⟨⟨trivial, underway.wellScoped.stored handle value (Pool.get?_of_release? released)⟩,
      underway.change (.free released) underway.scopes⟩

/-- What is looked at while a request is answered: the values at hand and the state are well-scoped, and the state has
been reached by single changes. -/
def State.SeenFrom (start : State H) (values : List (Value H)) (s : State H) : Prop :=
  (∀ value ∈ values, value.IsWellScoped) ∧ s.WellScoped ∧ Relation.ReflTransGen State.Changes start s

/-- A text is answered, under supervision or not, through well-scoped states and values only. -/
theorem Machine.answer_wellScoped (m : Machine Empty) {request : Request Empty} (text : request.IsText)
    {s : State Empty} (wellScoped : s.WellScoped) (instead : Eval Empty (Value Empty)) :
    m.answerWith (m.reducerUnder s.SeenFrom instead) request s = m.answer request s ∧
      (m.answer request s).2.WellScoped ∧ ∀ value, (m.answer request s).1 = .ok value → value.IsWellScoped := by
  -- What is read has no closure in it.
  have sound : (Likeness.ofInvariant s.Underway Value.CapturesLocal (fun _ => True)).SoundRequest request := by
    cases request with
    | evalText source =>
      exact fun expr found => readSource_everywhere (fun _ plain => plain.capturesLocal) (fun _ => trivial) found
    | load path => trivial
    | _ => exact text.elim
  have lenient : ∀ scopes values t, (∀ value ∈ values, value.IsWellScoped) → s.Underway scopes t → s.SeenFrom values t :=
    fun _ _ _ values underway => ⟨values, underway.wellScoped, underway.reached⟩
  obtain ⟨same, kept, results⟩ := (wellScoped_preserved m s).answer_supervised (wellScoped_keepsPool s) lenient instead
    sound ⟨wellScoped, .refl, rfl⟩
  exact ⟨same, kept.wellScoped, results⟩

section Consequences

/-- Binding arguments in a local scope never meets a protected name. -/
theorem bindArguments_unprotected {formalCount argCount : Nat} {formals : List String} {scope : Scope (Value H)}
    {args : List (Value H)} (isLocal : scope.IsLocal) (name : String) :
    bindArguments formalCount argCount formals scope args ≠ .error (.protectedRedefinition name) := by
  have rest : ∀ {after : List String} {scope : Scope (Value H)} {args : List (Value H)}, scope.IsLocal →
      bindRest scope after args ≠ .error (.protectedRedefinition name) := by
    intro after scope args isLocal
    unfold bindRest
    split
    · next last =>
      obtain ⟨scope', bound⟩ := isLocal.bind_ok last (.qexpr args)
      simp [bound, Except.map]
    · simp
  -- By induction on the formals: each one that is bound leaves the scope a local one.
  induction formals generalizing scope args with
  | nil => cases args <;> simp [bindArguments]
  | cons formal after ih =>
    cases args with
    | nil =>
      simp only [bindArguments]
      split
      · exact rest isLocal
      · simp
    | cons arg args =>
      simp only [bindArguments]
      split
      · exact rest isLocal
      · obtain ⟨scope', bound⟩ := isLocal.bind_ok formal arg
        rw [bound]
        exact ih (isLocal.bind bound)

/-- Inside an entered scope, a definition in the innermost scope is refused no name. -/
theorem State.WellScoped.admits {s : State H} (wellScoped : s.WellScoped) (inner : 1 < s.env.depth)
    (names : List String) : DefineMode.innermost.Admits (DefineMode.innermost.home s.env) names := by
  have isLocal : (DefineMode.innermost.home s.env).IsLocal := by
    cases entered : s.env.inner with
    | nil => simp [Environment.depth, entered] at inner
    | cons first outer =>
      have same : DefineMode.innermost.home s.env = first := by
        simp [DefineMode.home, Environment.innermost, entered]
      rw [same]
      exact wellScoped.entered first (by simp [entered])
  refine ⟨fun name _ => ?_, fun protects => by cases protects⟩
  simpa [DefineMode.refuses, DefineMode.protects] using isLocal.not_isProtected name

/-- A target that stands for no names is reported as that. -/
theorem listedNames_unprotected (operation : String) (target : Value H) (name : String) :
    listedNames operation target ≠ .error (.protectedRedefinition name) := by
  have symbols : ∀ items : List (Value H),
      expectSymbols operation 0 items ≠ .error (.protectedRedefinition name) := by
    intro items
    induction items with
    | nil => simp [expectSymbols]
    | cons item others ih =>
      cases item with
      | symbol first =>
        simp only [expectSymbols]
        cases found : expectSymbols operation 0 others with
        | ok names => simp [Except.map]
        | error e => simpa [Except.map, found] using ih
      | _ => simp [expectSymbols, wrongKind]
  cases target with
  | qexpr items => exact symbols items
  | _ => simp [listedNames, wrongKind]

/-- While the names of a definition are found, a protected one is met only in the evaluation of the target. -/
theorem targetOf_of_definedNames {reduce : Reducer H} {operation name : String} {target : Value H} {s t : State H}
    (failed : definedNames reduce operation target s = (.error (.protectedRedefinition name), t)) :
    targetOf reduce target s = (.error (.protectedRedefinition name), t) := by
  rw [definedNames_eq, Eval.bind_apply] at failed
  cases looked : targetOf reduce target s with
  | mk outcome last =>
    rw [looked] at failed
    cases outcome with
    | error e =>
      cases failed
      rfl
    | ok value => exact absurd (congrArg Prod.fst failed) (listedNames_unprotected operation value name)

/-- Inside an entered scope, a definition in the innermost scope meets a protected name only in a definition elsewhere, by
which its target or one of its operands is evaluated. -/
theorem Machine.innermost_unprotected (m : Machine Empty) (levels : Nat) {s t : State Empty} (wellScoped : s.WellScoped)
    (inner : 1 < s.env.depth) {target : Value Empty} {operands : List (Value Empty)} (soundTarget : target.IsWellScoped)
    (sound : ∀ operand ∈ operands, operand.IsWellScoped) {name : String}
    (failed : define (m.nestedVia evalOperands levels) .innermost (target :: operands) s =
      (.error (.protectedRedefinition name), t)) :
    targetOf (m.nestedVia evalOperands levels) target s = (.error (.protectedRedefinition name), t) ∨
      evalAllWith (m.nestedVia evalOperands levels) operands (targetState (m.nestedVia evalOperands levels) target s) =
        (.error (.protectedRedefinition name), t) := by
  have kept := (wellScoped_preserved m s).keptBy
  have reducers := kept.nestedVia_alike ((wellScoped_keepsPool s).evalOperands kept) (fun _ => trivial) levels
  generalize m.nestedVia evalOperands levels = reduce at failed reducers ⊢
  have start : s.Underway s.env.depth s := ⟨wellScoped, .refl, rfl⟩
  have names := Likeness.definedNames_alike reducers DefineMode.innermost.name soundTarget
  obtain ⟨-, found, -⟩ := Likeness.ofInvariant_ends names start
  rw [definedNames_state] at found
  cases named : definedNames reduce DefineMode.innermost.name target s with
  | mk outcome middle =>
    obtain rfl : targetState reduce target s = middle := by
      rw [← definedNames_state reduce DefineMode.innermost.name target s, named]
    cases outcome with
    | error e =>
      -- Without names the form ends here.
      rw [define, Eval.bind_of_error _ named] at failed
      cases failed
      exact .inl (targetOf_of_definedNames named)
    | ok names =>
      by_cases counted : names.length = operands.length
      · have prepared : Prepared reduce .innermost s target operands names :=
          ⟨congrArg Prod.fst named, counted, found.wellScoped.admits (by rw [found.scopes]; exact inner) names⟩
        rw [define_of_prepared prepared, Eval.bind_apply] at failed
        obtain ⟨-, ended, -⟩ := Likeness.ofInvariant_ends (kept.evalAllWith_alike reducers operands sound) found
        cases evaluated : evalAllWith reduce operands (targetState reduce target s) with
        | mk values last =>
          rw [evaluated] at failed ended
          cases values with
          | error e =>
            cases failed
            exact .inr rfl
          | ok values =>
            -- Both checks pass, and so nothing is left to stop the form.
            have admits := ended.wellScoped.admits (by rw [ended.scopes]; exact inner) names
            have sameLength := counted.trans (evalAllWith_eq_ok.mp evaluated).length_eq.symm
            obtain ⟨scope, done, -⟩ := DefineMode.bindAll_of_admits names values sameLength admits
            simp [Eval.bind_apply, Eval.read, Eval.ofExcept, DefineMode.check_eq_ok.mpr admits, done] at failed
      · rw [define, Eval.bind_of_ok _ named, if_pos counted] at failed
        cases failed

end Consequences

/-- Protection lives in the root scope only. After any session of texts and files the state is well-scoped: each name of
the root is there once, and every other scope, entered or captured in a closure anywhere in a value, has each name once
and none of them protected. While a further text is answered, all values and states that are seen before and after a
reduction, at every level, are well-scoped and reached by single changes of which each keeps it so: whatever were done
where that fails, the answer is the same.

So wherever a scope is entered, the form that defines in the innermost scope is refused no name and can bind every one;
a protected name can only be met in the evaluation of its target or of an operand. And no closure that occurs anywhere
refuses an argument because of the name of a formal. -/
theorem protection_lives_in_the_root (m : Machine Empty) (limits : PoolLimits) (requests : List (Request Empty))
    (texts : ∀ request ∈ requests, request.IsText) :
    let s := m.after (.initial limits) requests
    s.WellScoped ∧
    (∀ request : Request Empty, request.IsText →
      (∀ instead, m.answerWith (m.reducerUnder s.SeenFrom instead) request s = m.answer request s) ∧
      ∀ value, (m.answer request s).1 = .ok value → value.IsWellScoped) ∧
    (∀ t u : State Empty, t.WellScoped → t.Changes u → u.WellScoped) ∧
    (∀ t : State Empty, t.WellScoped → 1 < t.env.depth →
      (∀ names, DefineMode.innermost.check t.env [] names = .ok ()) ∧
      (∀ name value, ∃ env, DefineMode.innermost.bind t.env name value = .ok env) ∧
      ∀ levels target operands name u, target.IsWellScoped → (∀ operand ∈ operands, operand.IsWellScoped) →
        let reduce := m.nested (fun _ _ => Eval.fail (.depthExceeded m.maxDepth)) levels
        define reduce .innermost (target :: operands) t = (.error (.protectedRedefinition name), u) →
        targetOf reduce target t = (.error (.protectedRedefinition name), u) ∨
          evalAllWith reduce operands (targetState reduce target t) = (.error (.protectedRedefinition name), u)) ∧
    ∀ (formals : List String) (body : List (Value Empty)) (scope : Scope (Value Empty)) (args : List (Value Empty))
      (formalCount argCount : Nat) (name : String), (Value.closure formals body scope).IsWellScoped →
      bindArguments formalCount argCount formals scope args ≠ .error (.protectedRedefinition name) := by
  intro s
  have session : s.WellScoped := m.after_keeps State.WellScoped
    (fun request member _ start => (m.answer_wellScoped (texts request member) start (pure .empty)).2.1)
    (State.wellScoped_initial limits)
  refine ⟨session, fun request text => ⟨fun instead => (m.answer_wellScoped text session instead).1,
    (m.answer_wellScoped text session (pure .empty)).2.2⟩, fun t u start => start.changes, fun t start inner => ?_,
    fun formals body scope args _ _ name closure => bindArguments_unprotected closure.top name⟩
  refine ⟨fun names => DefineMode.check_eq_ok.mpr (start.admits inner names), fun name value => ?_, ?_⟩
  · obtain ⟨scope, bound⟩ := DefineMode.bindIn_of_not_refuses value ((start.admits inner [name]).free name (by simp))
    exact ⟨_, by rw [DefineMode.bind_eq, bound]; rfl⟩
  · intro levels target operands name u soundTarget sound
    rw [← m.nestedVia_evalOperands levels]
    exact m.innermost_unprotected levels start inner soundTarget sound

/-- A closure may take its argument under the name of an operation and bind that name anew. -/
theorem protection_lives_in_the_root_shadowed :
    let m := Machine.plain 8 {}
    let s := m.after (.initial {}) [.evalText "def {f} (\\ {+} {= {+} 2})"]
    let t : State Empty := { s with env := s.env.enter ⟨[⟨"+", .integer 1, false⟩]⟩ }
    s.WellScoped ∧ t.WellScoped ∧ 1 < t.env.depth ∧ DefineMode.innermost.check t.env [] ["+"] = .ok () ∧
      (∀ instead, m.answerWith (m.reducerUnder s.SeenFrom instead) (.evalText "f 1") s =
        m.answer (.evalText "f 1") s) ∧
      bindArguments 1 1 ["+"] {} [(.integer 1 : Value Empty)] ≠ .error (.protectedRedefinition "+") := by
  intro m s t
  have texts : ∀ request ∈ [(.evalText "def {f} (\\ {+} {= {+} 2})" : Request Empty)], request.IsText := by
    simp [Request.IsText]
  obtain ⟨session, answers, changes, assigns, binds⟩ := protection_lives_in_the_root m {} _ texts
  have isLocal : (⟨[⟨"+", .integer 1, false⟩]⟩ : Scope (Value Empty)).IsLocal := ⟨by simp [Scope.names], by simp⟩
  have inside : (⟨[⟨"+", .integer 1, false⟩]⟩ : Scope (Value Empty)).Everywhere Value.CapturesLocal := by
    intro binding member
    rw [List.mem_singleton.mp member]
    exact Value.everywhere_of_leaf rfl trivial
  have entered : t.WellScoped := changes s t session (.enter isLocal inside)
  have inner : 1 < t.env.depth := by simp [t, Environment.depth, Environment.enter]
  have closure : (Value.closure ["+"] [] {} : Value Empty).IsWellScoped :=
    Value.everywhere_of_leaf rfl ⟨by simp [Scope.names], by simp⟩
  exact ⟨session, entered, inner, (assigns t entered inner).1 ["+"], (answers (.evalText "f 1") trivial).1,
    binds ["+"] [] {} [.integer 1] 1 1 "+" closure⟩

end QuoteLisp
