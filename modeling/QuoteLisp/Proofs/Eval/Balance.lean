import QuoteLisp.Host.Sample
import QuoteLisp.Proofs.Environment.Home
import QuoteLisp.Proofs.Eval.Operands
import QuoteLisp.Proofs.Session.Request

/-! Every evaluation ends with the depth, the number of scopes and the contents of the pool that it started with,
whatever its outcome. -/

namespace QuoteLisp

variable {H : Type}

/-- A host operation that leaves the state balanced as long as what it asks for does. -/
def HostProgram.Balanced (program : HostProgram H) : Prop :=
  ∀ evaluate apply, (∀ expr, Eval.Balanced (evaluate expr)) → (∀ callee args, Eval.Balanced (apply callee args)) →
    Eval.Balanced (program.run evaluate apply)

/-- The comparison of an evaluation with itself that measures its states against an earlier one. -/
abbrev balance (H : Type) : Likeness H (State H) :=
  .ofInvariant State.Balanced (fun _ => True) (fun _ => True)

/-- Alike steps are one step, and it is balanced. -/
theorem balanced_of_alike {α : Type} {holds : α → Prop} {x y : Eval H α} (alike : (balance H).Alike holds x y) :
    x = y ∧ Eval.Balanced x := by
  -- Every state can be measured against itself.
  have ends := fun s => Likeness.ofInvariant_ends alike (State.Balanced.refl s)
  exact ⟨funext fun s => (ends s).1, fun s => (ends s).2.1⟩

/-- Balanced steps are alike. -/
theorem alike_of_balanced {α : Type} {holds : α → Prop} {x : Eval H α} (any : ∀ a, holds a)
    (balanced : Eval.Balanced x) : (balance H).Alike holds x x :=
  Likeness.ofInvariant_alike fun _ s start => ⟨start.trans (balanced s), fun a _ => any a⟩

/-- Everything is sound where nothing is asked of values. -/
theorem balance_sound (value : Value H) : (balance H).Sound value := fun _ _ => trivial

/-- The single steps of a machine whose host operations are balanced. -/
theorem balance_preserves (m : Machine H) (hosts : ∀ op args, (m.host op args).Balanced) :
    Likeness.Preserves State.Balanced (fun _ => True) (fun _ => True) m where
  plain _ _ := trivial
  normal _ _ := trivial
  lambda _ _ _ := trivial
  skip _ _ _ _ _ := trivial
  bound _ _ _ _ _ _ _ _ _ := trivial
  program _ _ _ expr _ := balance_sound expr
  lookup _ value _ _ _ _ _ := ⟨trivial, balance_sound value⟩
  bind mode name value base s env _ _ start bound := by
    -- A definition replaces one scope of the chain.
    rw [mode.bind_eq] at bound
    obtain ⟨scope, -, rfl⟩ := except_map_eq_ok.mp bound
    exact ⟨start.depth, (mode.depth_withHome s.env scope).trans start.scopes, start.poolId, start.limits,
      start.chunks, start.inUse⟩
  remove _ name _ s _ _ _ start :=
    ⟨start.depth, (s.env.depth_remove? name).trans start.scopes, start.poolId, start.limits, start.chunks,
      start.inUse⟩
  print _ _ _ start := ⟨start.depth, start.scopes, start.poolId, start.limits, start.chunks, start.inUse⟩
  descend base s start := by
    refine ⟨{ base with depth := base.depth + 1 }, ⟨by simp [start.depth], start.scopes, start.poolId, start.limits,
      start.chunks, start.inUse⟩, fun s' inside => ?_⟩
    have depth := inside.depth
    exact ⟨by simp only [depth]; omega, inside.scopes, inside.poolId, inside.limits, inside.chunks, inside.inUse⟩
  enter _ scope base s _ _ start := by
    have entered := start.scopes
    simp only [Environment.depth] at entered
    refine ⟨{ base with env := base.env.enter scope }, ⟨start.depth, ?_, start.poolId, start.limits, start.chunks,
      start.inUse⟩, fun s' inside => ⟨inside.depth, ?_, inside.poolId, inside.limits, inside.chunks, inside.inUse⟩⟩
    · simp only [Environment.depth, Environment.enter, List.length_cons]
      omega
    · -- The scope taken off is the one put on, since their number is the same.
      have scopes := inside.scopes
      simp only [Environment.depth, Environment.enter, List.length_cons] at scopes
      simp only [Environment.depth, Environment.leave, List.length_tail]
      omega
  hosts op args evaluate evaluate' apply apply' _ evaluates applies := by
    have sameEvaluate : evaluate = evaluate' := funext fun expr => (balanced_of_alike (evaluates expr (balance_sound expr))).1
    have sameApply : apply = apply' := funext fun callee => funext fun args =>
      (balanced_of_alike (applies callee args (balance_sound callee) fun arg _ => ⟨trivial, balance_sound arg⟩)).1
    subst sameEvaluate sameApply
    -- What the operation may ask for is balanced, and so is the operation by its own promise.
    refine alike_of_balanced (fun value => ⟨balance_sound value, fun _ => trivial⟩) ?_
    refine hosts op args evaluate apply (fun expr => ?_) fun callee args => ?_
    · exact (balanced_of_alike (evaluates expr (balance_sound expr))).2
    · exact (balanced_of_alike (applies callee args (balance_sound callee) fun arg _ => ⟨trivial, balance_sound arg⟩)).2

/-- Operands that wait in the pool leave it as it was. -/
theorem balance_gatherers : (balance H).AlikeGatherers (fun _ => True) evalOperands evalOperands := by
  intro inner inner' _ reducers head operands _ _
  have alike := fun items => balanced_of_alike (reducers items fun item _ => balance_sound item)
  have same : inner = inner' := funext fun items => (alike items).1
  subst same
  -- Alike reducers are one balanced reducer, and gathering with it is balanced.
  exact alike_of_balanced (fun values value _ => ⟨trivial, balance_sound value⟩)
    (evalOperands_balanced (fun items => (alike items).2) head operands)

/-- Reduction is balanced, with however many levels. -/
theorem nestedVia_balanced (m : Machine H) (hosts : ∀ op args, (m.host op args).Balanced) (levels : Nat) :
    Reducer.Balanced (m.nestedVia evalOperands levels) := fun items =>
  (balanced_of_alike ((balance_preserves m hosts).keptBy.nestedVia_alike balance_gatherers (fun _ => trivial) levels
    items fun item _ => balance_sound item)).2

namespace Sample

/-- Evaluating arguments one after the other is balanced when evaluating one is. -/
theorem attemptAll_balanced (exprs results : List (Value Sample)) : (attemptAll results exprs).Balanced := by
  intro evaluate apply evaluates applies
  induction exprs generalizing results with
  | nil => exact State.Balanced.refl
  | cons expr rest ih =>
    intro s
    have first := evaluates expr s
    simp only [attemptAll, HostProgram.run]
    generalize evaluate expr s = r at first ⊢
    obtain ⟨outcome, t⟩ := r
    cases outcome with
    | ok value => exact first.trans (ih (value :: results) t)
    | error e => exact first

/-- Every sample operation is balanced. -/
theorem program_balanced (op : Sample) (args : List (Value Sample)) : (program op args).Balanced := by
  intro evaluate apply evaluates applies s
  unfold program
  -- Most operations only compute a result.
  split <;> try exact .refl s
  · next callee args =>
    split
    · exact applies callee args s
    · exact .refl s
  · next name value =>
    simp only [HostProgram.run]
    cases bound : s.env.bindProtected name value with
    | error e => exact .refl s
    | ok env =>
      -- A binding of the innermost scope leaves the number of scopes as it is.
      obtain ⟨scope, -, rfl⟩ := except_map_eq_ok.mp bound
      exact ⟨rfl, DefineMode.innermost.depth_withHome s.env scope, rfl, rfl, fun _ => rfl, rfl⟩
  · exact attemptAll_balanced _ [] evaluate apply evaluates applies s

end Sample

/-- Every request leaves the depth, the number of scopes and the occupied chunks with their contents as they were,
whatever its outcome, provided that the host operations do so themselves. -/
theorem answer_balanced (m : Machine H) (hosts : ∀ op args, (m.host op args).Balanced) (request : Request H)
    (s : State H) : s.Balanced (m.answer request s).2 := by
  -- Every state can be measured against itself at the start of a request.
  have reducers : (balance H).AlikeReducers m.reducer m.reducer := by
    rw [← m.reducerVia_evalOperands]
    exact (balance_preserves m hosts).keptBy.reducerVia_alike balance_gatherers (fun _ => trivial)
      fun _ _ _ alike => by rw [alike.1]
  -- Nothing is asked of the values that a request brings along.
  have sound : (balance H).SoundRequest request := by
    cases request with
    | call callee args => exact ⟨balance_sound callee, fun arg _ => ⟨trivial, balance_sound arg⟩⟩
    | evalText source => exact fun expr _ => balance_sound expr
    | load path => trivial
    | tryEval expr => exact balance_sound expr
    | eval expr => exact balance_sound expr
  rw [m.answer_eq]
  exact (balanced_of_alike ((balance_preserves m hosts).keptBy.answerWith_alike reducers sound)).2 s

/-- A pool with too few chunks for the operands, and host operations among them. -/
theorem answer_balanced_exhausted :
    let m : Machine Sample := { maxDepth := 4, host := Sample.program }
    let s : State Sample := { pool := { limits := ⟨1, 2⟩ } }
    let attempt : Value Sample := .builtin ⟨"attempt", .atLeast 0, .host .attempt⟩
    let request := Request.tryEval (.sexpr [attempt, .sexpr [attempt, .integer 1], .integer 2])
    (m.answer request s).1 = .error (.poolExhausted 2 1) ∧ s.Balanced (m.answer request s).2 :=
  ⟨by rfl, answer_balanced _ Sample.program_balanced _ _⟩

end QuoteLisp
