import Mathlib.Data.List.Forall2
import QuoteLisp.Proofs.Eval.Currying
import QuoteLisp.Proofs.Session.Invariant

/-! A closure that is called cannot write to the scopes of its caller: whatever it does, names can only be lost from
them, and only through the operation that removes names. -/

namespace QuoteLisp

variable {H ι : Type}

/-- A scope without some of the bindings of another, the others in order and as they were. -/
def Scope.IsPartOf {α : Type} (after before : Scope α) : Prop :=
  after.bindings.Sublist before.bindings

theorem Scope.IsPartOf.refl {α : Type} (scope : Scope α) : scope.IsPartOf scope := List.Sublist.refl _

namespace Environment

variable {α : Type}

/-- Taking a name out of the first of some scopes that has it leaves parts of the scopes. -/
theorem isPartOf_of_removeFirst? {name : String} {scopes removed : List (Scope α)}
    (done : removeFirst? name scopes = some removed) : List.Forall₂ Scope.IsPartOf removed scopes := by
  -- Scopes up to the one that has the name are passed over, and those behind it are not looked at.
  have unchanged : ∀ scopes : List (Scope α), List.Forall₂ Scope.IsPartOf scopes scopes :=
    fun _ => List.forall₂_same.mpr fun scope _ => .refl scope
  induction scopes generalizing removed with
  | nil => simp [removeFirst?] at done
  | cons first outer ih =>
    simp only [removeFirst?] at done
    split at done
    · next taken =>
      cases done
      obtain ⟨known, -, same⟩ := Option.map_eq_some_iff.mp taken
      cases same
      exact .cons List.eraseP_sublist (unchanged outer)
    · obtain ⟨rest, found, rfl⟩ := Option.map_eq_some_iff.mp done
      exact .cons (.refl first) (ih found)

/-- Removing a name leaves parts of the scopes that were entered. -/
theorem isPartOf_of_remove? (env : Environment α) (name : String) :
    List.Forall₂ Scope.IsPartOf ((env.remove? name).getD env).inner env.inner := by
  have unchanged : List.Forall₂ Scope.IsPartOf env.inner env.inner :=
    List.forall₂_same.mpr fun scope _ => .refl scope
  unfold remove?
  split
  · next inner found => exact isPartOf_of_removeFirst? found
  · -- A name of the root, or of no scope, leaves the entered scopes as they are.
    cases env.root.remove? name <;> exact unchanged

/-- A definition writes to the root or to the innermost scope, and to no scope between them. -/
theorem outer_of_bind {env env' : Environment (Value H)} {mode : DefineMode} {name : String} {value : Value H}
    {innermost : Scope (Value H)} {outer : List (Scope (Value H))} (entered : env.inner = innermost :: outer)
    (bound : mode.bind env name value = .ok env') : ∃ innermost', env'.inner = innermost' :: outer := by
  rw [mode.bind_eq] at bound
  obtain ⟨scope, -, rfl⟩ := except_map_eq_ok.mp bound
  cases mode with
  | innermost => exact ⟨scope, by simp [DefineMode.withHome, withInnermost, entered]⟩
  | _ => exact ⟨innermost, entered⟩

end Environment

namespace HostProgram

/-- A host operation that keeps to what it is given: it never replaces the environment, and all parts of the values that
it asks for or gives back have a property as long as all parts of those that it sees have it. -/
def Stays (part : Value H → Prop) : HostProgram H → Prop
  | done result => ∀ value, result = .ok value → value.Everywhere part
  | eval expr next => expr.Everywhere part ∧
    ∀ result, (∀ value, result = .ok value → value.Everywhere part) → (next result).Stays part
  | call callee args next => callee.Everywhere part ∧ (∀ arg ∈ args, arg.Everywhere part) ∧
    ∀ result, (∀ value, result = .ok value → value.Everywhere part) → (next result).Stays part
  | look next => ∀ env, env.Everywhere part → (next env).Stays part
  | replace _ _ => False

/-- An operation that keeps to what it is given keeps what its evaluations and calls keep. -/
theorem Stays.alike {invariant : ι → State H → Prop} {part : Value H → Prop}
    (binds : ∀ i s, invariant i s → s.env.Everywhere part) {program : HostProgram H} (stays : program.Stays part)
    {evaluate evaluate' : Value H → Eval H (Value H)} {apply apply' : Value H → List (Value H) → Eval H (Value H)}
    (evaluates : ∀ expr, expr.Everywhere part → (Likeness.ofInvariant invariant part fun _ => True).Alike
      (Value.Everywhere part) (evaluate expr) (evaluate' expr))
    (applies : ∀ callee args, callee.Everywhere part → (∀ arg ∈ args, arg.Everywhere part) →
      (Likeness.ofInvariant invariant part fun _ => True).Alike (Value.Everywhere part) (apply callee args)
        (apply' callee args)) :
    (Likeness.ofInvariant invariant part fun _ => True).Alike (Value.Everywhere part) (program.run evaluate apply)
      (program.run evaluate' apply') := by
  induction program with
  | done result => exact Likeness.alike_ofExcept stays
  -- The operation goes on with the outcome of what it has asked for, whether that has failed or not.
  | eval expr next ih =>
    exact (Likeness.ofInvariant_outcome (evaluates expr stays.1)).bind fun outcome sound =>
      ih outcome (stays.2 outcome sound)
  | call callee args next ih =>
    exact (Likeness.ofInvariant_outcome (applies callee args stays.1 stays.2.1)).bind fun outcome sound =>
      ih outcome (stays.2.2 outcome sound)
  | look next ih =>
    rintro i s _ ⟨rfl, start⟩
    exact ih s.env (stays s.env (binds i s start)) i s s ⟨rfl, start⟩
  | replace env next => exact stays.elim

/-- An operation that never replaces the environment is balanced. -/
theorem Stays.balanced {program : HostProgram H} (stays : program.Stays fun _ => True) : program.Balanced := by
  intro evaluate apply evaluates applies
  have alike : (balance H).Alike (Value.Everywhere fun _ => True) (program.run evaluate apply)
      (program.run evaluate apply) :=
    stays.alike (fun _ _ _ _ _ _ _ _ _ => trivial)
      (fun expr _ => alike_of_balanced (fun _ _ _ => trivial) (evaluates expr))
      (fun callee args _ _ => alike_of_balanced (fun _ _ _ => trivial) (applies callee args))
  exact (balanced_of_alike alike).2

end HostProgram

/-- Operations are not plain. -/
theorem Value.IsPlain.not_isOperation {value : Value H} (plain : value.IsPlain) : value.isOperation = false := by
  cases value with
  | builtin op => exact plain.elim
  | special op => exact plain.elim
  | _ => rfl

/-- What an operation that removes names may do to the scopes that were entered, where only some operations occur. -/
structure Frame (part : Value H → Prop) (related : Scope (Value H) → Scope (Value H) → Prop) : Prop where
  /-- Nothing is asked of values that are no operations. -/
  ordinary : ∀ value, value.isOperation = false → part value
  refl : ∀ scope, related scope scope
  trans : ∀ {one two three}, related one two → related two three → related one three
  remove : ∀ op name (env : Environment (Value H)), Value.Runs .undefine op → part op →
    List.Forall₂ related ((env.remove? name).getD env).inner env.inner

/-- A state inside a call: below the innermost scope are the scopes of the callers, changed at most by removals. -/
structure Framed (part : Value H → Prop) (related : Scope (Value H) → Scope (Value H) → Prop)
    (callers : List (Scope (Value H))) (s : State H) : Prop where
  binds : s.env.Everywhere part
  entered : ∃ innermost outer, s.env.inner = innermost :: outer ∧ List.Forall₂ related outer callers

namespace Frame

variable {part : Value H → Prop} {related : Scope (Value H) → Scope (Value H) → Prop} (frame : Frame part related)

include frame

/-- Scopes are related to themselves, one by one. -/
theorem same (scopes : List (Scope (Value H))) : List.Forall₂ related scopes scopes :=
  List.forall₂_same.mpr fun scope _ => frame.refl scope

/-- Scopes changed by one removal after another are changed by removals. -/
theorem forall₂_trans {one two three : List (Scope (Value H))} (first : List.Forall₂ related one two)
    (second : List.Forall₂ related two three) : List.Forall₂ related one three := by
  induction first generalizing three with
  | nil => exact second
  | cons head _ ih =>
    cases second with
    | cons head' tail => exact .cons (frame.trans head head') (ih tail)

/-- Every step inside a call leaves the scopes of the callers as they are, or takes names out of them. -/
theorem preserves (m : Machine H)
    (hosts : ∀ op args, (∀ arg ∈ args, arg.Everywhere part) → (m.host op args).Stays part) :
    Likeness.Preserves (Framed part related) part (fun _ => True) m where
  plain value plain := frame.ordinary value plain.not_isOperation
  normal _ _ := trivial
  lambda _ _ _ := frame.ordinary _ rfl
  skip _ _ _ _ _ := frame.ordinary _ rfl
  bound _ _ _ _ _ _ _ _ _ := frame.ordinary _ rfl
  program _ _ found := program_everywhere (fun value plain => frame.ordinary value plain.not_isOperation)
    (fun _ => frame.ordinary _ rfl) found
  lookup _ _ _ _ _ framed found := ⟨trivial, framed.binds.get? found⟩
  bind _ _ _ callers s env _ evaluated framed bound := by
    -- The innermost scope is that of the call, so a definition goes there or to the root.
    obtain ⟨innermost, outer, inner, below⟩ := framed.entered
    obtain ⟨innermost', inner'⟩ := Environment.outer_of_bind inner bound
    exact ⟨framed.binds.bind evaluated.2 bound, innermost', outer, inner', below⟩
  remove op name callers s runs sound _ framed := by
    obtain ⟨innermost, outer, inner, below⟩ := framed.entered
    have removed := frame.remove op name s.env runs sound
    rw [inner] at removed
    refine ⟨framed.binds.remove name, ?_⟩
    -- There are as many scopes as before, so one of them is still the innermost.
    generalize ((s.env.remove? name).getD s.env).inner = left at removed ⊢
    cases removed with
    | @cons innermost' _ outer' _ _ rest => exact ⟨innermost', outer', rfl, frame.forall₂_trans rest below⟩
  print _ _ _ framed := ⟨framed.binds, framed.entered⟩
  descend callers _ framed := ⟨callers, ⟨framed.binds, framed.entered⟩, fun _ inside => ⟨inside.binds, inside.entered⟩⟩
  enter _ scope callers s _ bindings framed := by
    -- For a call inside this one, the scope that is now the innermost is one of the callers' scopes too.
    obtain ⟨innermost, outer, inner, below⟩ := framed.entered
    refine ⟨innermost :: callers, ⟨framed.binds.enter bindings, scope, innermost :: outer, ?_, ?_⟩, fun s' inside => ?_⟩
    · simp [Environment.enter, inner]
    · exact .cons (frame.refl innermost) below
    · obtain ⟨called, _, inner', related'⟩ := inside.entered
      cases related' with
      | @cons innermost' _ outer' _ _ below' =>
        exact ⟨inside.binds.leave, innermost', outer', by simp [Environment.leave, inner'], below'⟩
  hosts op args evaluate evaluate' apply apply' sound evaluates applies := by
    refine ((hosts op args sound).alike (fun _ _ framed => framed.binds) evaluates
      fun callee args soundCallee soundArgs => ?_).mono fun value sound => ⟨sound, fun _ => trivial⟩
    exact (applies callee args soundCallee fun arg member => ⟨trivial, soundArgs arg member⟩).mono fun _ done => done.2

/-- A closure that is called leaves the scopes of its callers as they are, or takes names out of them. -/
theorem call_closure (m : Machine H) (balanced : ∀ op args, (m.host op args).Balanced)
    (hosts : ∀ op args, (∀ arg ∈ args, arg.Everywhere part) → (m.host op args).Stays part) {formals : List String}
    {body : List (Value H)} {scope : Scope (Value H)} (soundCallee : (Value.closure formals body scope).Everywhere part)
    {args : List (Value H)} (soundArgs : ∀ arg ∈ args, arg.Everywhere part) {s : State H}
    (binds : s.env.Everywhere part) :
    List.Forall₂ related (m.call (.closure formals body scope) args s).2.env.inner s.env.inner := by
  have preserved := frame.preserves m hosts
  rw [m.call_closure, Eval.bind_apply, Eval.ofExcept]
  -- Binding the arguments does not look at the state; only the body of a closure that has them all is evaluated.
  cases bound : bindArguments formals.length args.length formals scope args with
  | error e => exact frame.same s.env.inner
  | ok result =>
    cases result with
    | waiting formals scope => exact frame.same s.env.inner
    | complete own =>
      have sound := preserved.keptBy.bindArguments_sound soundCallee
        (fun arg member => ⟨trivial, soundArgs arg member⟩) bound
      have inside : ∀ item ∈ body, item.Everywhere part := fun item member => sound.child (by
        simp [Bound.closure, Value.children, member])
      have bindings : own.Everywhere part := fun binding member => sound.child (by
        simp only [Bound.closure, Value.children, List.mem_append, List.mem_map]
        exact .inr ⟨binding, member, rfl⟩)
      have start : Framed part related s.env.inner { s with env := s.env.enter own } :=
        ⟨binds.enter bindings, own, s.env.inner, rfl, frame.same s.env.inner⟩
      have reducers := preserved.reducer_alike balanced fun _ _ _ framed => ⟨framed.binds, framed.entered⟩
      obtain ⟨-, framed, -⟩ := Likeness.ofInvariant_ends (reducers body inside) start
      -- The scope of the call is taken off, and the callers' scopes are left.
      obtain ⟨innermost, outer, inner, below⟩ := framed.entered
      have state : (m.proceed body (.complete own) s).2.env.inner = outer := by
        rw [Machine.proceed, Eval.bind_apply, Eval.within_apply]
        generalize m.reducer body { s with env := s.env.enter own } = r at inner ⊢
        obtain ⟨outcome, t⟩ := r
        cases outcome with
        | ok value => cases value <;> exact congrArg List.tail inner
        | error e => exact congrArg List.tail inner
      exact state ▸ below

end Frame

/-- Wherever names can be removed, scopes lose bindings and nothing else happens to them. -/
theorem frame_isPartOf : Frame (fun _ : Value H => True) Scope.IsPartOf where
  ordinary _ _ := trivial
  refl := .refl
  trans := List.Sublist.trans
  remove _ name env _ _ := env.isPartOf_of_remove? name

/-- Where names cannot be removed, nothing happens to scopes. -/
theorem frame_eq : Frame (fun part : Value H => ¬ part.Runs .undefine) (· = ·) where
  ordinary value ordinary := by
    cases value with
    | builtin op => cases ordinary
    | special op => cases ordinary
    | _ => exact id
  refl _ := rfl
  trans := .trans
  remove _ _ _ runs avoids := absurd runs avoids

/-- Evaluating arguments one after the other keeps to what is given. -/
theorem Sample.attemptAll_stays {part : Value Sample → Prop} (plain : ∀ value, value.IsPlain → part value)
    {exprs results : List (Value Sample)} (sound : ∀ expr ∈ exprs, expr.Everywhere part)
    (found : ∀ value ∈ results, value.Everywhere part) : (attemptAll results exprs).Stays part := by
  induction exprs generalizing results with
  | nil =>
    rintro value ⟨⟩
    exact Value.everywhere_iff.mpr ⟨plain _ trivial, by simpa [Value.children] using found⟩
  | cons expr rest ih =>
    refine ⟨sound expr (by simp), fun outcome good => ?_⟩
    cases outcome with
    | ok value => exact ih (fun other member => sound other (by simp [member])) (by simpa using ⟨good value rfl, found⟩)
    | error e => exact fun value same => by cases same

/-- Whatever a closure does when it is called, and whatever its outcome, its caller has as many scopes afterwards, and
each scope but the root is what it was, up to bindings that have been removed: none is new, moved, or has another value
or protection. Where the operation that removes names occurs neither in the closure nor in its arguments nor in any
binding, those scopes are the same. Host operations may take part as long as they leave the environment alone: they
never replace it, and bring no removal of names of their own. -/
theorem callee_keeps_callers_scopes (m : Machine H) (hosts : ∀ op args, (m.host op args).Stays fun _ => True)
    (formals : List String) (body : List (Value H)) (scope : Scope (Value H)) (args : List (Value H)) (s : State H) :
    (m.call (.closure formals body scope) args s).2.env.depth = s.env.depth ∧
    List.Forall₂ Scope.IsPartOf (m.call (.closure formals body scope) args s).2.env.inner s.env.inner ∧
    ((∀ op args, (∀ arg ∈ args, arg.Avoids .undefine) → (m.host op args).Stays fun part => ¬ part.Runs .undefine) →
      (Value.closure formals body scope).Avoids .undefine → (∀ arg ∈ args, arg.Avoids .undefine) →
      s.env.Avoids .undefine → (m.call (.closure formals body scope) args s).2.env.inner = s.env.inner) := by
  have balanced : ∀ op args, (m.host op args).Balanced := fun op args => (hosts op args).balanced
  have parts : List.Forall₂ Scope.IsPartOf (m.call (.closure formals body scope) args s).2.env.inner s.env.inner :=
    frame_isPartOf.call_closure m balanced (fun op args _ => hosts op args) (fun _ _ => trivial)
      (fun _ _ _ _ => trivial) fun _ _ _ _ _ _ => trivial
  refine ⟨congrArg (· + 1) parts.length_eq, parts, fun hosts avoids avoidArgs hidden => ?_⟩
  have same := frame_eq.call_closure m balanced hosts avoids avoidArgs hidden
  rwa [List.forall₂_eq_eq_eq] at same

/-- A closure that assigns to a name of its caller and removes another, by way of a host operation: the first keeps its
value and the second is gone. Without the removal nothing of the caller is touched. -/
theorem callee_keeps_callers_scopes_assigned :
    let m : Machine Sample := { maxDepth := 8, host := { program := fun _ args => Sample.attemptAll [] args } }
    let s : State Sample := { env := { inner := [⟨[⟨"x", .integer 1, false⟩, ⟨"y", .integer 2, false⟩]⟩] } }
    let attempt : Value Sample := .special ⟨"attempt", .any, .host .attempt⟩
    let assign : Value Sample := .sexpr [(Primitive.define .innermost).value, .symbol "y", .integer 5]
    let remove : Value Sample := .sexpr [Primitive.undefine.value, .qexpr [.symbol "x"]]
    let loses : Value Sample := .lambda [] [attempt, assign, remove]
    let keeps : Value Sample := .lambda [] [attempt, assign]
    (m.call loses [] s).1 = .ok (.qexpr [.empty, .empty]) ∧
      (m.call loses [] s).2.env.inner = [⟨[⟨"y", .integer 2, false⟩]⟩] ∧
      List.Forall₂ Scope.IsPartOf (m.call loses [] s).2.env.inner s.env.inner ∧
      (m.call keeps [] s).1 = .ok (.qexpr [.empty]) ∧ (m.call keeps [] s).2.env.inner = s.env.inner := by
  intro m s attempt assign remove loses keeps
  have hosts : ∀ op args, (m.host op args).Stays fun _ => True := fun _ _ =>
    Sample.attemptAll_stays (fun _ _ => trivial) (fun _ _ _ _ => trivial) (by simp)
  have quiet : ∀ op args, (∀ arg ∈ args, arg.Avoids .undefine) →
      (m.host op args).Stays fun part => ¬ part.Runs .undefine := fun _ _ avoids =>
    Sample.attemptAll_stays (fun _ plain => plain.not_runs .undefine) avoids (by simp)
  -- An assignment, a host operation, names and numbers are not the removal of names.
  have leaf : ∀ value : Value Sample, value.children = [] → ¬ value.Runs .undefine → value.Avoids .undefine :=
    fun _ empty other => Value.everywhere_of_leaf empty other
  have form : assign.Avoids .undefine := Value.everywhere_iff.mpr ⟨id, by
    simpa [assign, Value.children] using ⟨Primitive.value_avoids (by decide), leaf _ rfl id, leaf _ rfl id⟩⟩
  have operation : attempt.Avoids .undefine := leaf _ rfl (by simp [attempt, Value.Runs])
  have avoids : keeps.Avoids .undefine := Value.everywhere_iff.mpr ⟨id, by
    simpa [keeps, Value.lambda, Value.children] using ⟨operation, form⟩⟩
  have hidden : s.env.Avoids .undefine := by
    intro scope member binding inside
    simp only [s, Environment.scopes, List.cons_append, List.nil_append, List.mem_cons, List.not_mem_nil,
      or_false] at member
    rcases member with rfl | rfl
    · simp only [List.mem_cons, List.not_mem_nil, or_false] at inside
      rcases inside with rfl | rfl <;> exact leaf _ rfl id
    · cases inside
  have first := callee_keeps_callers_scopes m hosts [] [attempt, assign, remove] {} [] s
  have second := callee_keeps_callers_scopes m hosts [] [attempt, assign] {} [] s
  exact ⟨by rfl, by rfl, first.2.1, by rfl, second.2.2 quiet avoids (by simp) hidden⟩

end QuoteLisp
