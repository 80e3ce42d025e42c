import QuoteLisp.Proofs.Eval.Congruence
import QuoteLisp.Proofs.Scope.Binding

/-! Calls and reductions of two machines are alike when their single steps are. The two may hold evaluated
operands in different ways. -/

namespace QuoteLisp

variable {H ι : Type}

/-- The closure that a call leads to: one that still waits, or one that has all its arguments. -/
def Bound.closure (body : List (Value H)) : Bound H → Value H
  | waiting formals scope => .closure formals body scope
  | complete scope => .closure [] body scope

/-- A way to evaluate the operands of an S-expression and put them after the evaluated head. -/
abbrev Gatherer (H : Type) : Type := Reducer H → Value H → List (Value H) → Eval H (List (Value H))

namespace Machine

/-- Reduces an S-expression like `Machine.reduce`, with a given way to gather head and operands. -/
def reduceVia (m : Machine H) (gather : Gatherer H) (inner : Reducer H) (first : Value H)
    (operands : List (Value H)) : Eval H (Value H) := do
  let head ← evalWith inner first
  match head with
  | .special op => m.apply inner (.special op) operands
  | head => do
    let values ← gather inner head operands
    m.applyElements inner values

/-- Reduction with at most so many levels below. -/
def nestedVia (m : Machine H) (gather : Gatherer H) : Nat → Reducer H
  -- Below the last level nothing is reduced.
  | 0 => m.descend fun _ _ => Eval.fail (.depthExceeded m.maxDepth)
  | levels + 1 => m.descend (m.reduceVia gather (m.nestedVia gather levels))

/-- Reduction with as many levels as the limit leaves. -/
def reducerVia (m : Machine H) (gather : Gatherer H) : Reducer H := fun items s =>
  m.nestedVia gather (m.maxDepth - s.depth) items s

/-- Gathering through the pool is the reduction of the machine itself, at every level. -/
theorem nestedVia_evalOperands (m : Machine H) (levels : Nat) :
    m.nestedVia evalOperands levels = m.nested (fun _ _ => Eval.fail (.depthExceeded m.maxDepth)) levels := by
  induction levels with
  | zero => rfl
  | succ levels ih =>
    -- Both definitions reduce one level in the same words.
    simp only [nestedVia, nested, ih]
    rfl

/-- Gathering through the pool is the reduction of the machine itself. -/
theorem reducerVia_evalOperands (m : Machine H) : m.reducerVia evalOperands = m.reducer := by
  -- The levels are counted in the same way on both sides.
  funext items s
  simp only [reducerVia, reducer, nestedVia_evalOperands]

end Machine

namespace Likeness

variable {c : Likeness H ι} {m m' : Machine H} {reduce reduce' : Reducer H}

/-- An error value among results becomes the same failure in both evaluations. -/
theorem raiseError_alike {value : Value H} (returned : c.Returned value) :
    c.Alike c.Evaluated (raiseError value) (raiseError value) := by
  -- A result that is no error value is evaluated already.
  cases value with
  | error message => exact alike_fail _
  | _ => exact alike_pure ⟨returned.2 rfl, returned.1⟩

/-- Two ways to gather operands that are alike when the reducers of the operands are. -/
def AlikeGatherers (c : Likeness H ι) (known : Reducer H → Prop) (gather gather' : Gatherer H) : Prop :=
  ∀ inner inner', known inner → c.AlikeReducers inner inner' → ∀ head operands, c.Evaluated head →
    (∀ operand ∈ operands, c.Sound operand) →
    c.Alike (fun values => ∀ value ∈ values, c.Evaluated value) (gather inner head operands)
      (gather' inner' head operands)

namespace StepsAlike

variable (kept : c.StepsAlike m m')

include kept

/-- Binding evaluated arguments to the formals of a sound closure gives a sound closure. -/
theorem bindArguments_sound {body : List (Value H)} {formalCount argCount : Nat} {formals : List String}
    {scope : Scope (Value H)} {args : List (Value H)} {result : Bound H}
    (sound : c.Sound (.closure formals body scope)) (evaluated : ∀ arg ∈ args, c.Evaluated arg)
    (done : bindArguments formalCount argCount formals scope args = .ok result) :
    c.Sound (result.closure body) := by
  -- One argument bound to the first formal, whether an argument of its own or the list of all that are left.
  have step : ∀ {formal after arg scope scope'}, c.Sound (.closure (formal :: after) body scope) →
      c.Evaluated arg → scope.bind formal arg = .ok scope' → c.Sound (.closure after body scope') := by
    intro formal after arg scope scope' sound evaluated bound
    refine Value.everywhere_iff.mpr ⟨kept.bound _ _ _ _ _ _ sound.top evaluated bound, fun child member => ?_⟩
    simp only [Value.children, List.mem_append, List.mem_map] at member
    rcases member with inBody | ⟨binding, inScope, rfl⟩
    · exact sound.child (by simp [Value.children, inBody])
    · rcases Scope.mem_of_bind bound inScope with old | rfl
      · exact sound.child (by
          simp only [Value.children, List.mem_append, List.mem_map]
          exact .inr ⟨binding, old, rfl⟩)
      · exact evaluated.2
  have rest : ∀ {formal after scope args result}, c.Sound (.closure (formal :: after) body scope) →
      (∀ arg ∈ args, c.Evaluated arg) → bindRest scope after args = .ok result →
      c.Sound (result.closure body) := by
    intro formal after scope args result sound evaluated done
    unfold bindRest at done
    split at done
    · next name =>
      obtain ⟨scope', bound, rfl⟩ := except_map_eq_ok.mp done
      have skipped : c.Sound (.closure [name] body scope) :=
        Value.everywhere_iff.mpr ⟨kept.skip _ _ _ _ sound.top, fun child member => sound.child member⟩
      have list : c.Evaluated (.qexpr args) :=
        kept.evaluated_plain trivial trivial fun child member => (evaluated child member).2
      exact step skipped list bound
    · cases done
  -- The recursion follows formals and arguments together until one of them ends.
  induction formals generalizing scope args with
  | nil =>
    cases args with
    | nil =>
      cases done
      exact sound
    | cons arg args => cases done
  | cons formal after ih =>
    cases args with
    | nil =>
      simp only [bindArguments] at done
      split at done
      · exact rest sound evaluated done
      · cases done
        exact sound
    | cons arg args =>
      simp only [bindArguments] at done
      split at done
      · exact rest sound evaluated done
      · obtain ⟨scope', bound, done⟩ := except_bind_eq_ok.mp done
        exact ih (step sound (evaluated arg (by simp)) bound)
          (fun other member => evaluated other (by simp [member])) done

/-- Calling a sound closure with evaluated arguments. -/
theorem callClosure_alike (reducers : c.AlikeReducers reduce reduce') {formals : List String}
    {body : List (Value H)} {scope : Scope (Value H)} {args : List (Value H)}
    (sound : c.Sound (.closure formals body scope)) (evaluated : ∀ arg ∈ args, c.Evaluated arg) :
    c.Alike c.Evaluated (callClosure reduce formals body scope args)
      (callClosure reduce' formals body scope args) := by
  -- Binding arguments does not look at the state; only the body runs, in the closure's own scope.
  unfold callClosure
  refine (alike_ofExcept fun result done => kept.bindArguments_sound sound evaluated done).bind
    fun result soundResult => ?_
  cases result with
  | waiting formals scope => exact alike_pure ⟨kept.normal _ trivial, soundResult⟩
  | complete scope =>
    intro i s t alike
    have bindings : scope.Everywhere c.part := fun binding member => soundResult.child (by
      simp only [Bound.closure, Value.children, List.mem_append, List.mem_map]
      exact .inr ⟨binding, member, rfl⟩)
    obtain ⟨j, entered, left⟩ := kept.enter body scope i s t soundResult.top bindings alike
    have inside : ∀ item ∈ body, c.Sound item := fun item member => soundResult.child (by
      simp [Bound.closure, Value.children, member])
    have ends := reducers body inside j _ _ entered
    simp only [Eval.within_apply]
    -- Whatever the body's outcome, its scope is taken off again.
    generalize reduce body { s with env := s.env.enter scope } = r at ends ⊢
    generalize reduce' body { t with env := t.env.enter scope } = r' at ends ⊢
    cases ends with
    | ok result alike => exact .ok result (left _ _ alike)
    | error failed alike => exact .error failed (left _ _ alike)
    | cut off => exact .cut (c.cut_unwinds off (.leave .refl))

/-- Running an operation that occurs in sound values. -/
theorem runWith_alike (reducers : c.AlikeReducers reduce reduce') {runHost runHost' : HostRunner H}
    {op : Operation H} {value : Value H} (isOp : value = .builtin op ∨ value = .special op) (sound : c.part value)
    (shown : value.Runs .poolStats → c.StatsAgree) {args : List (Value H)} (soundArgs : ∀ arg ∈ args, c.Sound arg)
    (hosts : ∀ h, c.Alike c.Returned (runHost h args) (runHost' h args)) :
    c.Alike c.Returned (op.runWith m.folder reduce runHost args) (op.runWith m'.folder reduce' runHost' args) := by
  -- The count of arguments is checked before anything else and is the same in both.
  unfold Operation.runWith
  refine (alike_ofExcept fun _ _ => trivial).bind fun _ _ => ?_
  cases action : op.action with
  | primitive p =>
    have runs : value.Runs p := by
      rcases isOp with rfl | rfl <;> exact action
    exact (kept.run_alike reducers runs sound shown soundArgs).mono fun value done => ⟨done.2, fun _ => done.1⟩
  | host h => exact hosts h

/-- Calling a sound value; only closures need their arguments evaluated. -/
theorem callWith_alike (reducers : c.AlikeReducers reduce reduce') {runHost runHost' : HostRunner H}
    {callee : Value H} (sound : c.Sound callee) (shown : callee.Runs .poolStats → c.StatsAgree)
    {args : List (Value H)} (soundArgs : ∀ arg ∈ args, c.Sound arg)
    (evaluated : callee.isOperation = false → ∀ arg ∈ args, c.Evaluated arg)
    (hosts : ∀ h, c.Alike c.Returned (runHost h args) (runHost' h args)) :
    c.Alike c.Evaluated (callWith m.folder reduce runHost callee args)
      (callWith m'.folder reduce' runHost' callee args) := by
  -- Each kind of callee has its own step, and what comes back is raised if it is an error value.
  unfold callWith
  cases callee with
  | builtin op =>
    exact (kept.runWith_alike reducers (.inl rfl) sound.top shown soundArgs hosts).bind fun _ => raiseError_alike
  | special op =>
    exact (kept.runWith_alike reducers (.inr rfl) sound.top shown soundArgs hosts).bind fun _ => raiseError_alike
  | closure formals body scope =>
    exact (kept.callClosure_alike reducers sound (evaluated rfl)).bind
      fun _ done => raiseError_alike ⟨done.2, fun _ => done.1⟩
  | _ => exact (alike_fail _).bind fun _ => raiseError_alike

/-- Going one level deeper. -/
theorem descend_alike {inner inner' : Value H → List (Value H) → Eval H (Value H)}
    (alike : ∀ first operands, c.Sound first → (∀ operand ∈ operands, c.Sound operand) →
      c.Alike c.Evaluated (inner first operands) (inner' first operands)) :
    c.AlikeReducers (m.descend inner) (m'.descend inner') := by
  intro items sound
  cases items with
  | nil => exact alike_pure (kept.evaluated_plain trivial trivial (by simp [Value.children]))
  | cons first operands =>
    intro i s t start
    obtain ⟨reached, reached', j, deeper, back⟩ := kept.descend i s t start
    simp only [Machine.descend, Eval.bind_apply, Eval.read]
    by_cases limit : m.maxDepth ≤ s.depth
    · -- At the limit the second evaluation stops too, unless nothing is compared any more.
      rw [if_pos limit]
      rcases reached limit with off | limit'
      · exact .cut off
      · rw [if_pos limit']
        exact .error kept.limit start
    · have limit' : ¬ m'.maxDepth ≤ t.depth := fun high => limit (reached' high)
      rw [if_neg limit, if_neg limit', Eval.deeper_apply, Eval.deeper_apply]
      have ends := alike first operands (sound first (by simp)) (fun operand member => sound operand (by simp [member]))
        j _ _ deeper
      generalize inner first operands { s with depth := s.depth + 1 } = r at ends ⊢
      generalize inner' first operands { t with depth := t.depth + 1 } = r' at ends ⊢
      cases ends with
      | ok result alike => exact .ok result (back _ _ alike)
      | error failed alike => exact .error failed (back _ _ alike)
      | cut off => exact .cut (c.cut_unwinds off (.rise .refl))

/-- Applying evaluated elements, where the calls that this may come to are alike. -/
theorem applyElements_of_calls (values : List (Value H)) (evaluated : ∀ value ∈ values, c.Evaluated value)
    (calls : ∀ callee args, values = callee :: args →
      c.Alike c.Evaluated (m.apply reduce callee args) (m'.apply reduce' callee args)) :
    c.Alike c.Evaluated (m.applyElements reduce values) (m'.applyElements reduce' values) := by
  -- A single value that is no function stands for itself and runs nothing.
  unfold Machine.applyElements
  split
  · exact alike_pure (kept.evaluated_plain trivial trivial (by simp [Value.children]))
  · next value =>
    split
    · exact calls value [] rfl
    · exact alike_pure (evaluated value (by simp))
  · next callee args _ => exact calls callee args rfl

/-- Reducing an S-expression, where special forms and calls of what is gathered are alike. -/
theorem reduceVia_of_calls {gather gather' : Gatherer H} (reducers : c.AlikeReducers reduce reduce') {first : Value H}
    {operands : List (Value H)} (sound : c.Sound first)
    (forms : ∀ op, c.Evaluated (.special op) →
      c.Alike c.Evaluated (m.apply reduce (.special op) operands) (m'.apply reduce' (.special op) operands))
    (calls : ∀ head, c.Evaluated head → c.Alike c.Evaluated
      (gather reduce head operands >>= fun values => m.applyElements reduce values)
      (gather' reduce' head operands >>= fun values => m'.applyElements reduce' values)) :
    c.Alike c.Evaluated (m.reduceVia gather reduce first operands) (m'.reduceVia gather' reduce' first operands) := by
  unfold Machine.reduceVia
  refine (kept.evalWith_alike reducers sound).bind fun head evaluated => ?_
  -- A special form gets its operands as they are; every other head gets them evaluated.
  cases head with
  | special op => exact forms op evaluated
  | _ => exact calls _ evaluated

end StepsAlike

namespace KeptBy

variable (kept : c.KeptBy m m')

include kept

/-- A sound value may ask for the counters only where both evaluations have the same ones. -/
theorem shown {value : Value H} (sound : c.part value) (runs : value.Runs .poolStats) : c.StatsAgree :=
  fun i s t => kept.stats value i s t runs sound

/-- Running a host operation, however deep host operations call one another. -/
theorem runHost_alike (reducers : c.AlikeReducers reduce reduce') (bound : Nat) (op : H) (args : List (Value H))
    (soundArgs : ∀ arg ∈ args, c.Sound arg) :
    c.Alike c.Returned (m.runHost reduce bound op args) (m'.runHost reduce' bound op args) := by
  -- Each direct call uses up one unit of the bound.
  induction bound generalizing op args with
  | zero => exact alike_fail_of kept.limit
  | succ bound ih =>
    refine kept.hosts op args _ _ _ _ soundArgs (fun expr sound => kept.guardedWith_alike reducers sound) ?_
    intro callee args sound evaluated
    have soundArgs : ∀ arg ∈ args, c.Sound arg := fun arg member => (evaluated arg member).2
    exact kept.callWith_alike reducers sound (kept.shown sound.top) soundArgs (fun _ => evaluated)
      fun h => ih h args soundArgs

/-- Calling a sound value on a machine. -/
theorem apply_alike (reducers : c.AlikeReducers reduce reduce') {callee : Value H} (sound : c.Sound callee)
    {args : List (Value H)} (soundArgs : ∀ arg ∈ args, c.Sound arg)
    (evaluated : callee.isOperation = false → ∀ arg ∈ args, c.Evaluated arg) :
    c.Alike c.Evaluated (m.apply reduce callee args) (m'.apply reduce' callee args) := by
  rw [Machine.apply, Machine.apply, kept.nesting]
  exact kept.callWith_alike reducers sound (kept.shown sound.top) soundArgs evaluated
    fun h => kept.runHost_alike reducers (m.host.nesting args) h args soundArgs

/-- Applying evaluated elements. -/
theorem applyElements_alike (reducers : c.AlikeReducers reduce reduce') (values : List (Value H))
    (evaluated : ∀ value ∈ values, c.Evaluated value) :
    c.Alike c.Evaluated (m.applyElements reduce values) (m'.applyElements reduce' values) := by
  refine kept.applyElements_of_calls values evaluated fun callee args split => ?_
  subst split
  have later : ∀ arg ∈ args, c.Evaluated arg := fun arg member => evaluated arg (by simp [member])
  exact kept.apply_alike reducers (evaluated callee (by simp)).2 (fun arg member => (later arg member).2)
    fun _ => later

/-- Reducing an S-expression whose parts are sound. -/
theorem reduceVia_alike {known : Reducer H → Prop} {gather gather' : Gatherer H}
    (gatherers : c.AlikeGatherers known gather gather') (isKnown : known reduce)
    (reducers : c.AlikeReducers reduce reduce') {first : Value H} {operands : List (Value H)}
    (soundFirst : c.Sound first) (sound : ∀ operand ∈ operands, c.Sound operand) :
    c.Alike c.Evaluated (m.reduceVia gather reduce first operands) (m'.reduceVia gather' reduce' first operands) := by
  refine kept.reduceVia_of_calls reducers soundFirst (fun op evaluated => ?_) fun head evaluated => ?_
  · exact kept.apply_alike reducers evaluated.2 sound (by simp [Value.isOperation])
  · exact (gatherers reduce reduce' isKnown reducers head operands evaluated sound).bind
      fun values done => kept.applyElements_alike reducers values done

/-- Reductions with equally many levels are alike. -/
theorem nestedVia_alike {known : Reducer H → Prop} {gather gather' : Gatherer H}
    (gatherers : c.AlikeGatherers known gather gather') (isKnown : ∀ levels, known (m.nestedVia gather levels))
    (levels : Nat) : c.AlikeReducers (m.nestedVia gather levels) (m'.nestedVia gather' levels) := by
  -- By induction on the levels: below the last one both fail, and each level reduces with the one below.
  induction levels with
  | zero => exact kept.descend_alike fun _ _ _ _ => alike_fail_of kept.limit
  | succ levels ih =>
    exact kept.descend_alike fun first operands soundFirst sound =>
      kept.reduceVia_alike gatherers (isKnown levels) ih soundFirst sound

/-- Reductions are alike when the limits leave equally many levels to both. -/
theorem reducerVia_alike {known : Reducer H → Prop} {gather gather' : Gatherer H}
    (gatherers : c.AlikeGatherers known gather gather') (isKnown : ∀ levels, known (m.nestedVia gather levels))
    (levels : ∀ i s t, c.states i s t → m.maxDepth - s.depth = m'.maxDepth - t.depth) :
    c.AlikeReducers (m.reducerVia gather) (m'.reducerVia gather') := by
  -- States that leave equally many levels are compared at that number of levels.
  intro items sound i s t start
  simp only [Machine.reducerVia, levels i s t start]
  exact kept.nestedVia_alike gatherers isKnown _ items sound i s t start

end KeptBy

end Likeness

end QuoteLisp
