import Mathlib
import QuoteLisp.Proofs.Environment.Insertion
import QuoteLisp.Proofs.Session.Invariant
import QuoteLisp.Proofs.Source.Acceptance

/-! A name that occurs nowhere does not matter: with one more binding for it in the root scope, every request has the same
outcome, prints the same and uses the pool in the same way. -/

namespace QuoteLisp

variable {H : Type}

/-- A value that has the name at its top: as a symbol, as a formal or as a name that a closure has bound. -/
def Value.Names (name : String) : Value H → Prop
  | symbol other => other = name
  | closure formals _ scope => name ∈ formals ∨ name ∈ scope.names
  | _ => False

/-- A value in which the name occurs at no nesting. -/
def Value.IsFreeOf (name : String) : Value H → Prop :=
  Value.Everywhere fun part => ¬ part.Names name

namespace Value

@[simp] theorem isFreeOf_symbol {name other : String} :
    (symbol other : Value H).IsFreeOf name ↔ other ≠ name :=
  ⟨fun free => free.top, fun different => everywhere_of_leaf rfl different⟩

@[simp] theorem isFreeOf_integer {name : String} (n : Int64) : (integer n : Value H).IsFreeOf name :=
  everywhere_of_leaf rfl id

@[simp] theorem isFreeOf_sexpr {name : String} {items : List (Value H)} :
    (sexpr items).IsFreeOf name ↔ ∀ item ∈ items, item.IsFreeOf name :=
  ⟨fun free _ member => free.child member, fun free => everywhere_iff.mpr ⟨id, free⟩⟩

@[simp] theorem isFreeOf_qexpr {name : String} {items : List (Value H)} :
    (qexpr items).IsFreeOf name ↔ ∀ item ∈ items, item.IsFreeOf name :=
  ⟨fun free _ member => free.child member, fun free => everywhere_iff.mpr ⟨id, free⟩⟩

/-- An operation of the language has neither a name at its top nor anything inside. -/
@[simp] theorem isFreeOf_primitive {name : String} (p : Primitive) : (p.value : Value H).IsFreeOf name := by
  unfold Primitive.value
  split
  · exact everywhere_of_leaf rfl id
  · exact everywhere_of_leaf rfl id

end Value

/-- An environment in which the name is bound nowhere and occurs in no value that is bound. -/
structure Environment.IsFreeOf (name : String) (env : Environment (Value H)) : Prop where
  unbound : ∀ scope ∈ env.scopes, ∀ binding ∈ scope.bindings, binding.name ≠ name
  values : env.Everywhere fun part => ¬ part.Names name

/-- A folder with no file in which the name occurs. -/
def Folder.IsFreeOf (name : String) (folder : Folder) : Prop :=
  ∀ path (exprs : List (Value Empty)), folder.program path = .ok exprs → ∀ expr ∈ exprs, expr.IsFreeOf name

/-- A request in which the name does not occur. -/
def Request.IsFreeOf (name : String) : Request H → Prop
  | .evalText source => ∀ expr : Value H, readSource source = .ok expr → expr.IsFreeOf name
  | request => ∀ value ∈ request.values, value.IsFreeOf name

/-- The second state is the first with one more binding in the root scope. -/
structure State.ExtendedBy (extra : Binding (Value H)) (s t : State H) : Prop where
  env : s.env.ExtendedBy extra t.env
  pool : t.pool = s.pool
  depth : t.depth = s.depth
  output : t.output = s.output

/-- Nothing but the environment is different. -/
theorem State.ExtendedBy.eq {extra : Binding (Value H)} {s t : State H} (extended : s.ExtendedBy extra t) :
    t = { s with env := t.env } := by
  obtain ⟨env, pool, depth, output⟩ := t
  obtain ⟨-, rfl, rfl, rfl⟩ := extended
  rfl

namespace Environment.IsFreeOf

variable {name : String} {env env' : Environment (Value H)}

/-- Defining another name, with a value in which the name does not occur. -/
theorem bind (free : env.IsFreeOf name) {mode : DefineMode} {other : String} {value : Value H}
    (different : other ≠ name) (new : value.IsFreeOf name) (bound : mode.bind env other value = .ok env') :
    env'.IsFreeOf name := by
  refine ⟨fun scope member binding inside => ?_, free.values.bind new bound⟩
  rcases mem_of_bind bound member inside with old | rfl
  · obtain ⟨before, among, here⟩ := old
    exact free.unbound before among binding here
  · exact different

/-- Removing a name adds nothing. -/
theorem remove (free : env.IsFreeOf name) (other : String) : ((env.remove? other).getD env).IsFreeOf name := by
  refine ⟨fun scope member binding inside => ?_, free.values.remove other⟩
  obtain ⟨old, among, subset⟩ := subset_of_remove? env other scope member
  exact free.unbound old among binding (subset inside)

theorem enter (free : env.IsFreeOf name) {scope : Scope (Value H)} (unbound : name ∉ scope.names)
    (values : scope.Everywhere fun part => ¬ part.Names name) : (env.enter scope).IsFreeOf name := by
  refine ⟨fun other member binding inside same => ?_, free.values.enter values⟩
  rcases List.mem_cons.mp member with rfl | old
  · exact unbound (List.mem_map.mpr ⟨binding, inside, same⟩)
  · exact free.unbound other old binding inside same

theorem leave (free : env.IsFreeOf name) : env.leave.IsFreeOf name := by
  refine ⟨fun scope member => free.unbound scope ?_, free.values.leave⟩
  simp only [scopes, Environment.leave, List.mem_append] at member ⊢
  exact member.imp_left List.mem_of_mem_tail

end Environment.IsFreeOf

/-- A name that no operation of the language has occurs nowhere at the start. -/
theorem standardEnvironment_isFreeOf {name : String} (other : ∀ p ∈ Primitive.all, p.name ≠ name) :
    (standardEnvironment : Environment (Value H)).IsFreeOf name := by
  refine ⟨fun scope member binding inside => ?_, fun scope member binding inside => ?_⟩
  · obtain rfl := List.mem_singleton.mp member
    obtain ⟨p, among, rfl⟩ := List.mem_map.mp inside
    exact other p among
  · obtain rfl := List.mem_singleton.mp member
    obtain ⟨p, -, rfl⟩ := List.mem_map.mp inside
    exact Value.isFreeOf_primitive p

/-- Compares an evaluation with one that starts with a binding more, for a name that occurs in neither. -/
def unrelated (extra : Binding (Value H)) : Likeness H Unit where
  states _ s t := s.env.IsFreeOf extra.name ∧ s.ExtendedBy extra t
  part part := ¬ part.Names extra.name
  result _ := True
  failures e e' := e = e'
  cut _ _ := False
  failures_refl _ := rfl
  failures_fatal := @Likeness.same_or_fatal
  cut_fatal never := Likeness.fatal_of_never never
  cut_unwinds impossible _ := impossible

section Steps

variable {extra : Binding (Value Empty)}

/-- A symbol without the name is another name. -/
theorem ne_of_not_names {name other : String} (free : ¬ (Value.symbol other : Value H).Names name) : name ≠ other :=
  fun same => free same.symm

/-- Binding an argument gives a closure no name but that of a formal. -/
theorem not_names_of_bind {name formal : String} {after : List String} {body : List (Value H)}
    {scope scope' : Scope (Value H)} {arg : Value H}
    (free : ¬ (Value.closure (formal :: after) body scope).Names name) (bound : scope.bind formal arg = .ok scope') :
    ¬ (Value.closure after body scope').Names name := by
  intro occurs
  rcases occurs with waits | captured
  · exact free (.inl (by simp [waits]))
  · obtain ⟨binding, inside, named⟩ := List.mem_map.mp captured
    rcases Scope.mem_of_bind bound inside with old | rfl
    · exact free (.inr (List.mem_map.mpr ⟨binding, old, named⟩))
    · exact free (.inl (by simp [← named]))

/-- Every step does the same with the binding and without it. -/
theorem unrelated_keptBy (m : Machine Empty) (files : m.folder.IsFreeOf extra.name) :
    (unrelated extra).KeptBy m m where
  plain value plain := by
    intro occurs
    cases value with
    | symbol => exact plain
    | closure => exact plain
    | _ => exact occurs
  normal _ _ := trivial
  lambda names body named := by
    intro occurs
    rcases occurs with formal | captured
    · exact named extra.name formal rfl
    · cases captured
  skip formal after body scope free := by
    intro occurs
    exact free (occurs.imp_left (List.mem_cons_of_mem formal))
  bound _ _ _ _ _ _ free _ bound := not_names_of_bind free bound
  folder := rfl
  nesting := rfl
  program := files
  lookup name other := by
    intro _ s t alike
    have same := alike.2.env.get?_eq (ne_of_not_names other)
    simp only [Eval.lookup, Environment.lookup, same]
    cases found : s.env.get? name with
    | none => exact .error rfl alike
    | some value => exact .ok ⟨trivial, alike.1.values.get? found⟩ alike
  blocked mode name _ s t other alike := (alike.2.env.isBlocked_eq (ne_of_not_names other) mode).symm
  bind mode name value other evaluated := by
    intro _ s t alike
    have both := alike.2.env.bind (ne_of_not_names other) mode value
    simp only [Eval.changeEnv]
    cases done : mode.bind s.env name value with
    | error e =>
      rw [done] at both
      generalize mode.bind t.env name value = refused at both
      cases both with
      | error => exact .error rfl alike
    | ok env =>
      rw [done] at both
      generalize mode.bind t.env name value = accepted at both
      cases both with
      | ok extended =>
        exact .ok trivial ⟨alike.1.bind (ne_of_not_names other).symm evaluated.2 done,
          extended, alike.2.pool, alike.2.depth, alike.2.output⟩
  remove _ name _ s t _ _ other alike :=
    ⟨alike.1.remove name, alike.2.env.remove (ne_of_not_names other), alike.2.pool, alike.2.depth, alike.2.output⟩
  stats _ _ s t _ _ alike := by rw [alike.2.pool]
  print line := by
    intro _ s t alike
    exact .ok trivial ⟨alike.1, alike.2.env, alike.2.pool, alike.2.depth, by simp only [alike.2.output]⟩
  limit := rfl
  descend _ s t alike := by
    have depth := alike.2.depth
    refine ⟨fun reached => .inr (by omega), fun reached => by omega, (), ?_, fun s' t' inside => ?_⟩
    · exact ⟨alike.1, alike.2.env, alike.2.pool, by rw [depth], alike.2.output⟩
    · exact ⟨inside.1, inside.2.env, inside.2.pool, by rw [inside.2.depth], inside.2.output⟩
  enter body scope _ s t free values alike := by
    refine ⟨(), ⟨alike.1.enter (fun captured => free (.inr captured)) values, ?_⟩, fun s' t' inside => ?_⟩
    · exact ⟨alike.2.env.enter scope, alike.2.pool, alike.2.depth, alike.2.output⟩
    · exact ⟨inside.1.leave, inside.2.env.leave, inside.2.pool, inside.2.depth, inside.2.output⟩
  hosts op := nomatch op

/-- Both evaluations use the pool in the same way. -/
theorem unrelated_poolShared : (unrelated extra).PoolShared where
  same _ _ _ alike := alike.2.pool.symm
  change _ _ _ _ alike := ⟨alike.1, alike.2.env, rfl, alike.2.depth, alike.2.output⟩

/-- A request without the name brings sound values only. -/
theorem Request.IsFreeOf.sound {request : Request Empty} (free : request.IsFreeOf extra.name) :
    (unrelated extra).SoundRequest request := by
  cases request with
  | tryEval expr => exact free expr (by simp [Request.values])
  | eval expr => exact free expr (by simp [Request.values])
  | call callee args =>
    exact ⟨free callee (by simp [Request.values]), fun arg member => ⟨trivial, free arg (by simp [Request.values, member])⟩⟩
  | evalText source => exact free
  | load path => trivial

/-- One request does the same with the binding and without it. -/
theorem answer_unrelated (m : Machine Empty) (files : m.folder.IsFreeOf extra.name) {request : Request Empty}
    (free : request.IsFreeOf extra.name) {s t : State Empty} (clean : s.env.IsFreeOf extra.name)
    (extended : s.ExtendedBy extra t) :
    (m.answer request t).1 = (m.answer request s).1 ∧ (m.answer request s).2.ExtendedBy extra (m.answer request t).2 ∧
      (m.answer request s).2.env.IsFreeOf extra.name := by
  have kept := unrelated_keptBy m files
  -- The values of operands are kept beside the pool, so that nothing has to be known of what is in it.
  have reducers : (unrelated extra).AlikeReducers m.reducer m.reducer := by
    rw [← m.reducerVia_gatherOperands (balanced_of_empty m)]
    exact kept.reducerVia_alike (Likeness.gatherOperands_alike unrelated_poolShared kept) (fun _ => trivial)
      fun _ _ _ alike => by rw [alike.2.depth]
  have ends := kept.answerWith_alike reducers free.sound () s t ⟨clean, extended⟩
  rw [m.answer_eq]
  generalize m.answerWith m.reducer request s = one at ends ⊢
  generalize m.answerWith m.reducer request t = two at ends ⊢
  cases ends with
  | ok result alike => exact ⟨rfl, alike.2, alike.1⟩
  | error failed alike =>
    cases failed
    exact ⟨rfl, alike.2, alike.1⟩
  | cut off => exact off.elim

/-- A whole session does the same with the binding and without it. -/
theorem after_unrelated (m : Machine Empty) (files : m.folder.IsFreeOf extra.name) {requests : List (Request Empty)}
    (free : ∀ request ∈ requests, request.IsFreeOf extra.name) {s t : State Empty} (clean : s.env.IsFreeOf extra.name)
    (extended : s.ExtendedBy extra t) :
    (m.after s requests).ExtendedBy extra (m.after t requests) ∧ (m.after s requests).env.IsFreeOf extra.name := by
  induction requests generalizing s t with
  | nil => exact ⟨extended, clean⟩
  | cons request rest ih =>
    obtain ⟨-, later, still⟩ := answer_unrelated m files (free request (by simp)) clean extended
    exact ih (fun other member => free other (by simp [member])) still later

end Steps

/-- Where a name occurs neither in the environment nor in the files nor in the requests, one more binding for it in the
root scope, protected or not and of any value, changes no outcome, no output and nothing in the pool, and the
environments differ in that one binding only, after any number of requests. -/
theorem unrelated_names_do_not_matter (m : Machine Empty) (extra : Binding (Value Empty))
    (files : m.folder.IsFreeOf extra.name) (s : State Empty) (clean : s.env.IsFreeOf extra.name)
    (env : Environment (Value Empty)) (added : s.env.ExtendedBy extra env) (requests : List (Request Empty))
    (free : ∀ request ∈ requests, request.IsFreeOf extra.name) (last : Request Empty)
    (lastFree : last.IsFreeOf extra.name) :
    let plain := m.answer last (m.after s requests)
    let more := m.answer last (m.after { s with env := env } requests)
    more.1 = plain.1 ∧ more.2.output = plain.2.output ∧ more.2.pool.stats = plain.2.pool.stats ∧
      more.2 = { plain.2 with env := more.2.env } ∧ plain.2.env.ExtendedBy extra more.2.env ∧
      plain.2.env.IsFreeOf extra.name := by
  intro plain more
  have start : s.ExtendedBy extra { s with env := env } := ⟨added, rfl, rfl, rfl⟩
  obtain ⟨extended, still⟩ := after_unrelated m files free clean start
  obtain ⟨same, ends, kept⟩ := answer_unrelated m files lastFree still extended
  exact ⟨same, ends.output, congrArg Pool.stats ends.pool, ends.eq, ends.env, kept⟩

/-- A protected name whose value is that name, beside a session that defines another name, loads a file which removes it
again, and asks for the counters of the pool. -/
theorem unrelated_names_do_not_matter_protected :
    let m := Machine.plain 8 ⟨[("a", .text "(undef {y})")]⟩
    let s : State Empty := .initial {}
    let x : Binding (Value Empty) := ⟨"x", .symbol "x", true⟩
    let env : Environment (Value Empty) := { s.env with root := ⟨s.env.root.bindings ++ [x]⟩ }
    let defines : Request Empty := .tryEval (.sexpr [.symbol "def", .qexpr [.symbol "y"], .integer 1])
    let asks : Request Empty := .tryEval (.sexpr [.symbol "mem-pool-stats", .integer 0])
    let plain := m.answer asks (m.after s [defines, .load "a"])
    let more := m.answer asks (m.after { s with env := env } [defines, .load "a"])
    more.1 = plain.1 ∧ plain.2.env.ExtendedBy x more.2.env := by
  intro m s x env defines asks
  have files : m.folder.IsFreeOf x.name := by
    intro path exprs found expr member
    by_cases known : path = "a"
    · subst known
      have file : m.folder.read "a" = .ok "(undef {y})" := rfl
      have parses : parse true "(undef {y})" = .ok (.branch .program
          [Bracket.node .round [.leaf .symbol "undef".toList, Bracket.node .curly [.leaf .symbol ['y']]]]) :=
        parse_of_assemble rfl
      have program : m.folder.program "a" = .ok [(.sexpr [.symbol "undef", .qexpr [.symbol "y"]] : Value Empty)] := by
        simp only [Folder.program, file, parses]
        rfl
      rw [program] at found
      obtain rfl := Except.ok.inj found
      obtain rfl := List.mem_singleton.mp member
      simp [x]
    · -- There is no other file.
      have missing : m.folder.files.lookup path = none := by
        simp [m, Machine.plain, List.lookup_cons, beq_eq_false_iff_ne.mpr known]
      simp only [Folder.program, Folder.read, missing] at found
      split at found
      · cases found
      · next contents here =>
        split at here
        · cases here
        · split at here <;> cases here
  have start : s.env.IsFreeOf x.name := standardEnvironment_isFreeOf (by decide)
  have added : s.env.ExtendedBy x env := ⟨.atEnd x _, rfl⟩
  have session : ∀ request ∈ [defines, .load "a"], request.IsFreeOf x.name := by
    simp [defines, x, Request.IsFreeOf, Request.values]
  have last : asks.IsFreeOf x.name := by simp [asks, x, Request.IsFreeOf, Request.values]
  have done := unrelated_names_do_not_matter m x files s start env added [defines, .load "a"] session asks last
  exact ⟨done.1, done.2.2.2.2.1⟩

end QuoteLisp
