import Mathlib
import QuoteLisp.Proofs.Eval.Levels

/-! Evaluation with fuel, of which every call of one of the evaluating functions takes one unit: how much is needed
depends on the levels that the limit leaves and on nothing else. -/

namespace QuoteLisp

/-- A step of an evaluation that has no outcome at all if the fuel runs out. -/
def Fuelled (H α : Type) : Type := State H → Option (Except Error α × State H)

namespace Fuelled

variable {H α β : Type}

/-- A step that needs no fuel. -/
def ofEval (x : Eval H α) : Fuelled H α := fun s => some (x s)

/-- A step for which no fuel is left. -/
def exhausted : Fuelled H α := fun _ => none

/-- One step after another; where the first has no outcome there is none. -/
protected def bind (x : Fuelled H α) (f : α → Fuelled H β) : Fuelled H β := fun s =>
  match x s with
  | some (.ok a, t) => f a t
  | some (.error e, t) => some (.error e, t)
  | none => none

instance : Monad (Fuelled H) where
  pure a := ofEval (pure a)
  bind := Fuelled.bind

theorem bind_apply (x : Fuelled H α) (f : α → Fuelled H β) (s : State H) :
    (x >>= f) s = match x s with
      | some (.ok a, t) => f a t
      | some (.error e, t) => some (.error e, t)
      | none => none := rfl

/-- The outcome of a step as a value, if it has one. -/
def outcome (x : Fuelled H α) : Fuelled H (Except Error α) := fun s =>
  (x s).map fun (r, t) => (.ok r, t)

/-- Runs a step one level deeper and comes back. -/
def deeper (x : Fuelled H α) : Fuelled H α := fun s =>
  (x { s with depth := s.depth + 1 }).map fun (r, t) => (r, { t with depth := t.depth - 1 })

/-- Runs a step with a scope on top of the environment and takes it off again. -/
def within (scope : Scope (Value H)) (x : Fuelled H α) : Fuelled H α := fun s =>
  (x { s with env := s.env.enter scope }).map fun (r, t) => (r, { t with env := t.env.leave })

/-- A step that, with at most so many levels left, has the outcome of a step without fuel, which comes back to the
depth where it starts. -/
def Meets (limit levels : Nat) (x : Fuelled H α) (y : Eval H α) : Prop :=
  ∀ s, limit - s.depth ≤ levels → x s = some (y s) ∧ (y s).2.depth = s.depth

end Fuelled

/-- The functions that evaluation goes back and forth between, each with the fuel it may use. -/
structure Interpreter (H : Type) where
  tryEval : Value H → Fuelled H (Value H)
  reducer : List (Value H) → Fuelled H (Value H)
  reduce : Value H → List (Value H) → Fuelled H (Value H)
  park : Value H → List (Value H) → Fuelled H (List Handle × Except Error Unit)
  call : Value H → List (Value H) → Fuelled H (Value H)
  callClosure : List String → List (Value H) → Scope (Value H) → List (Value H) → Fuelled H (Value H)
  define : DefineMode → List (Value H) → Fuelled H (Value H)
  branch : List (Value H) → Fuelled H (Value H)
  evalOp : List (Value H) → Fuelled H (Value H)
  load : String → Fuelled H (Value H)

namespace Interpreter

variable {H : Type}

/-- No fuel for any function. -/
def exhausted : Interpreter H where
  tryEval _ := .exhausted
  reducer _ := .exhausted
  reduce _ _ := .exhausted
  park _ _ := .exhausted
  call _ _ := .exhausted
  callClosure _ _ _ _ := .exhausted
  define _ _ := .exhausted
  branch _ := .exhausted
  evalOp _ := .exhausted
  load _ := .exhausted

variable (i : Interpreter H)

/-- Evaluates expressions from left to right. -/
def evalAll : List (Value H) → Fuelled H (List (Value H))
  | [] => pure []
  | expr :: rest => do
    let value ← i.tryEval expr
    let values ← evalAll rest
    pure (value :: values)

/-- Evaluates operands from left to right and stores each in the pool. -/
def parkOperands : List (Value H) → Fuelled H (List Handle × Except Error Unit)
  | [] => pure ([], .ok ())
  | operand :: rest => do
    match ← Fuelled.outcome (i.tryEval operand >>= fun value => .ofEval (Eval.hold value)) with
    | .error e => pure ([], .error e)
    | .ok handle => do
      let (handles, result) ← parkOperands rest
      pure (handle :: handles, result)

/-- Evaluates an expression; a failure that is not fatal becomes an error value. -/
def guarded (expr : Value H) : Fuelled H (Value H) := do
  match ← Fuelled.outcome (i.tryEval expr) with
  | .ok value => pure value
  | .error e => if e.isFatal then .ofEval (Eval.fail e) else pure (.error e.message)

/-- Evaluates the expressions of a program in order. -/
def runProgram : List (Value H) → Fuelled H (Value H)
  | [] => pure .ok
  | expr :: rest => do
    match ← i.guarded expr with
    | .quit code => pure (.quit code)
    | .error message => do
      .ofEval (Eval.printLine (Value.error message : Value H).text)
      runProgram rest
    | _ => runProgram rest

/-- The target of a definition form as it is looked at. -/
def targetOf : Value H → Fuelled H (Value H)
  | .sexpr items => i.tryEval (.sexpr items)
  | other => pure other

/-- The names that a definition is for. -/
def definedNames (operation : String) (target : Value H) : Fuelled H (List String) := do
  let found ← i.targetOf target
  .ofEval (Eval.ofExcept (listedNames operation found))

/-- The evaluated head and operands, which were in the pool until the last of them was there. -/
def evalOperands (head : Value H) (operands : List (Value H)) : Fuelled H (List (Value H)) := do
  let (handles, result) ← i.park head operands
  let values ← .ofEval (Eval.release handles)
  .ofEval (Eval.ofExcept result)
  pure values

/-- Applies evaluated elements. -/
def applyElements : List (Value H) → Fuelled H (Value H)
  | [] => pure (.sexpr [])
  | [value] => if value.isFunction then i.call value [] else pure value
  | callee :: args => i.call callee args

/-- Runs an operation of the language on arguments. -/
def runPrimitive (folder : Folder) (p : Primitive) (args : List (Value H)) : Fuelled H (Value H) :=
  match p with
  | .define mode => i.define mode args
  | .eval => i.evalOp args
  | .branch => i.branch args
  | .load =>
    match args with
    | [path] => do
      let path ← .ofEval (Eval.ofExcept (expectString "load" 0 path))
      i.load path
    | args => .ofEval (Eval.fail (.arityMismatch "load" (.exactly 1) args.length))
  -- All others evaluate nothing, so what they are given for that does not matter.
  | p => .ofEval (p.run folder (fun _ => pure .empty) args)

/-- Runs an operation after checking the count of its arguments. -/
def runOperation (i : Interpreter Empty) (folder : Folder) (op : Operation Empty) (args : List (Value Empty)) :
    Fuelled Empty (Value Empty) := do
  .ofEval (Eval.ofExcept (op.arity.check op.name args.length))
  match op.action with
  | .primitive p => i.runPrimitive folder p args
  | .host h => nomatch h

end Interpreter

namespace Machine

/-- The functions of evaluation, where each calls the others as they are given, with one unit of fuel less. -/
def layer (m : Machine Empty) (i : Interpreter Empty) : Interpreter Empty where
  tryEval
    | .symbol name => .ofEval (Eval.lookup name)
    | .sexpr items => i.reducer items
    | .error message => .ofEval (Eval.fail (.raised message))
    | value => pure value
  reducer
    | [] => pure (.sexpr [])
    | first :: operands => do
      let depth ← .ofEval (Eval.read (·.depth))
      if m.maxDepth ≤ depth then .ofEval (Eval.fail (.depthExceeded m.maxDepth))
      else .deeper (i.reduce first operands)
  reduce first operands := do
    let head ← i.tryEval first
    match head with
    | .special op => i.call (.special op) operands
    | head => do
      let values ← i.evalOperands head operands
      i.applyElements values
  park head operands := do
    match ← .ofEval (Eval.outcome (Eval.hold head)) with
    | .error e => pure ([], .error e)
    | .ok handle => do
      let (handles, result) ← i.parkOperands operands
      pure (handle :: handles, result)
  call callee args := do
    let result ← match callee with
      | .builtin op => i.runOperation m.folder op args
      | .special op => i.runOperation m.folder op args
      | .closure formals body scope => i.callClosure formals body scope args
      | other => .ofEval (Eval.fail (.notAFunction other.kind))
    .ofEval (raiseError result)
  callClosure formals body scope args := do
    match ← .ofEval (Eval.ofExcept (bindArguments formals.length args.length formals scope args)) with
    | .waiting formals scope => pure (.closure formals body scope)
    | .complete scope => .within scope (i.reducer body)
  define mode
    | [] => .ofEval (Eval.fail (.arityMismatch mode.name (.atLeast 2) 0))
    | target :: operands => do
      let names ← i.definedNames mode.name target
      if names.length ≠ operands.length then
        .ofEval (Eval.fail (.symbolArityMismatch mode.name names.length operands.length))
      else
        let before ← .ofEval (Eval.read (·.env))
        .ofEval (Eval.ofExcept (mode.check before [] names))
        let values ← i.evalAll operands
        let after ← .ofEval (Eval.read (·.env))
        .ofEval (Eval.ofExcept (mode.check after [] names))
        .ofEval (mode.bindAll names values)
        pure .empty
  branch
    | [] => .ofEval (Eval.fail (.arityMismatch "if" (.between 2 3) 0))
    | .integer condition :: branches =>
      match branches with
      | [] => .ofEval (Eval.fail (.arityMismatch "if" (.between 2 3) 1))
      | chosen :: others => do
        let chosen ← .ofEval (Eval.ofExcept (expectList "if" 1 chosen))
        let otherwise ← .ofEval (Eval.ofExcept (others.head?.mapM (expectList "if" 2)))
        if condition ≠ 0 then i.tryEval (.sexpr chosen)
        else
          match otherwise with
          | some items => i.tryEval (.sexpr items)
          | none => pure (.qexpr [])
    | other :: _ => .ofEval (Eval.fail (wrongKind "if" 0 .integer other))
  evalOp
    | [list] => do
      let items ← .ofEval (Eval.ofExcept (expectList "eval" 0 list))
      i.tryEval (.sexpr items)
    | args => .ofEval (Eval.fail (.arityMismatch "eval" (.exactly 1) args.length))
  load path := do
    let program ← .ofEval (Eval.ofExcept (m.folder.program path))
    i.runProgram program

/-- The functions of evaluation with so much fuel. -/
def fuelled (m : Machine Empty) : Nat → Interpreter Empty
  | 0 => .exhausted
  | fuel + 1 => m.layer (m.fuelled fuel)

end Machine

namespace Fuelled

variable {H α β : Type} {limit levels : Nat}

/-- A step that needs no fuel and stays at its depth. -/
theorem Meets.ofEval {x : Eval H α} (level : ∀ s, (x s).2.depth = s.depth) : Meets limit levels (.ofEval x) x :=
  fun s _ => ⟨rfl, level s⟩

/-- A result without a change of state. -/
theorem meets_pure (a : α) : Meets (H := H) limit levels (pure a) (pure a) :=
  .ofEval fun _ => rfl

/-- A failure without a change of state. -/
theorem meets_fail (e : Error) : Meets (H := H) (α := α) limit levels (.ofEval (Eval.fail e)) (Eval.fail e) :=
  .ofEval fun _ => rfl

/-- What is known of steps is known of one after the other, since the first comes back to its depth. -/
theorem Meets.bind {x : Fuelled H α} {y : Eval H α} {f : α → Fuelled H β} {g : α → Eval H β}
    (first : Meets limit levels x y) (next : ∀ a, Meets limit levels (f a) (g a)) :
    Meets limit levels (x >>= f) (y >>= g) := by
  intro s enough
  obtain ⟨same, level⟩ := first s enough
  rw [Fuelled.bind_apply, Eval.bind_apply, same]
  generalize y s = r at level
  obtain ⟨outcome, t⟩ := r
  simp only at level
  cases outcome with
  | ok a =>
    -- As many levels are left for the second step as for the first.
    obtain ⟨same, levelNext⟩ := next a t (by omega)
    exact ⟨same, levelNext.trans level⟩
  | error e => exact ⟨rfl, level⟩

/-- A step that needs no fuel before one that does. -/
theorem Meets.after {x : Eval H α} {f : α → Fuelled H β} {g : α → Eval H β} (level : ∀ s, (x s).2.depth = s.depth)
    (next : ∀ a, Meets limit levels (f a) (g a)) : Meets limit levels (.ofEval x >>= f) (x >>= g) :=
  (Meets.ofEval level).bind next

/-- The outcome of a step as a value. -/
theorem Meets.outcome {x : Fuelled H α} {y : Eval H α} (meets : Meets limit levels x y) :
    Meets limit levels (.outcome x) (Eval.outcome y) := by
  intro s enough
  obtain ⟨same, level⟩ := meets s enough
  simp only [Fuelled.outcome, same, Eval.outcome, Option.map_some]
  exact ⟨trivial, level⟩

/-- A step inside a scope. -/
theorem Meets.within {x : Fuelled H α} {y : Eval H α} (scope : Scope (Value H)) (meets : Meets limit levels x y) :
    Meets limit levels (.within scope x) (Eval.within scope y) := by
  intro s enough
  obtain ⟨same, level⟩ := meets { s with env := s.env.enter scope } enough
  simp only [Fuelled.within, same, Eval.within_apply, Option.map_some]
  exact ⟨trivial, level⟩

end Fuelled

open Fuelled

/-- Storing a value stays at its depth. -/
theorem Eval.hold_depth {H : Type} (value : Value H) (s : State H) : (Eval.hold value s).2.depth = s.depth := by
  unfold Eval.hold
  split <;> rfl

/-- Binding names stays at its depth. -/
theorem DefineMode.bindAll_depth {H : Type} (mode : DefineMode) (names : List String) (values : List (Value H))
    (s : State H) : (mode.bindAll names values s).2.depth = s.depth := by
  -- By induction on the names, since each binding starts in the state that the one before it leaves.
  induction names generalizing values s with
  | nil => rfl
  | cons name names ih =>
    cases values with
    | nil => rfl
    | cons value values =>
      simp only [DefineMode.bindAll, Eval.bind_apply, Eval.changeEnv]
      cases mode.bind s.env name value with
      | ok env => exact ih values { s with env := env }
      | error e => rfl

/-- Removing names stays at its depth. -/
theorem undefine_depth {H : Type} (args : List (Value H)) (s : State H) : (undefine args s).2.depth = s.depth := by
  match args with
  | [list] =>
    simp only [undefine, Eval.bind_apply, Eval.ofExcept]
    cases expectList "undef" 0 list with
    | error e => rfl
    | ok items =>
      simp only
      cases expectSymbols "undef" 0 items <;> rfl
  | [] | _ :: _ :: _ => rfl

namespace Interpreter

variable {H : Type} {limit levels : Nat} {i : Interpreter H} {reduce : Reducer H}

section Evaluates

variable (evaluates : ∀ expr, Meets limit levels (i.tryEval expr) (evalWith reduce expr))

include evaluates

/-- Expressions from left to right: a loop that takes fuel for each expression alone. -/
theorem evalAll_meets (exprs : List (Value H)) : Meets limit levels (i.evalAll exprs) (evalAllWith reduce exprs) := by
  induction exprs with
  | nil => exact meets_pure []
  | cons expr rest ih =>
    refine (evaluates expr).bind fun value => ?_
    exact ih.bind fun values => meets_pure (value :: values)

/-- Operands that are stored one by one. -/
theorem parkOperands_meets (operands : List (Value H)) :
    Meets limit levels (i.parkOperands operands) (QuoteLisp.parkOperands reduce operands) := by
  induction operands with
  | nil => exact meets_pure _
  | cons operand rest ih =>
    have stored := (evaluates operand).bind fun value => Meets.ofEval (Eval.hold_depth value)
    refine stored.outcome.bind fun result => ?_
    cases result with
    | error e => exact meets_pure _
    | ok handle => exact ih.bind fun _ => meets_pure _

/-- An expression whose failure may become a value. -/
theorem guarded_meets (expr : Value H) : Meets limit levels (i.guarded expr) (guardedWith reduce expr) := by
  refine (evaluates expr).outcome.bind fun result => ?_
  cases result with
  | ok value => exact meets_pure value
  | error e =>
    simp only
    split
    · exact meets_fail e
    · exact meets_pure _

/-- The expressions of a program, until one wishes to quit. -/
theorem runProgram_meets (exprs : List (Value H)) :
    Meets limit levels (i.runProgram exprs) (QuoteLisp.runProgram reduce exprs) := by
  induction exprs with
  | nil => exact meets_pure _
  | cons expr rest ih =>
    refine (guarded_meets evaluates expr).bind fun value => ?_
    cases value with
    | quit code => exact meets_pure _
    | error message => exact .after (fun _ => rfl) fun _ => ih
    | _ => exact ih

/-- The names of a definition, for which at most the target is evaluated. -/
theorem definedNames_meets (operation : String) (target : Value H) :
    Meets limit levels (i.definedNames operation target) (QuoteLisp.definedNames reduce operation target) := by
  rw [definedNames_eq]
  refine Meets.bind ?_ fun found => .ofEval fun _ => rfl
  cases target with
  | sexpr items => exact evaluates (.sexpr items)
  | _ => exact meets_pure _

end Evaluates

end Interpreter

namespace Machine

variable {m : Machine Empty} {levels : Nat} {i : Interpreter Empty}

section Layer

-- The functions here call nothing but the evaluation of one expression.
variable (evaluates : ∀ expr, Meets m.maxDepth levels (i.tryEval expr) (m.tryEval expr))

include evaluates

theorem layer_park_meets (head : Value Empty) (operands : List (Value Empty)) :
    Meets m.maxDepth levels ((m.layer i).park head operands) (park m.reducer head operands) := by
  refine .after (fun s => Eval.hold_depth head s) fun result => ?_
  cases result with
  | error e => exact meets_pure _
  | ok handle => exact (Interpreter.parkOperands_meets evaluates operands).bind fun _ => meets_pure _

theorem layer_define_meets (mode : DefineMode) (args : List (Value Empty)) :
    Meets m.maxDepth levels ((m.layer i).define mode args) (define m.reducer mode args) := by
  cases args with
  | nil => exact meets_fail _
  | cons target operands =>
    refine (Interpreter.definedNames_meets evaluates mode.name target).bind fun names => ?_
    by_cases unequal : names.length ≠ operands.length
    · simp only [if_pos unequal]
      exact meets_fail _
    · simp only [if_neg unequal]
      -- Only the operands take fuel; the checks before and after them look at the environment.
      refine .after (fun _ => rfl) fun before => ?_
      refine .after (fun _ => rfl) fun _ => ?_
      refine (Interpreter.evalAll_meets evaluates operands).bind fun values => ?_
      refine .after (fun _ => rfl) fun after => ?_
      refine .after (fun _ => rfl) fun _ => ?_
      exact .after (mode.bindAll_depth names values) fun _ => meets_pure _

theorem layer_branch_meets (args : List (Value Empty)) :
    Meets m.maxDepth levels ((m.layer i).branch args) (branch m.reducer args) := by
  cases args with
  | nil => exact meets_fail _
  | cons condition branches =>
    cases condition with
    | integer condition =>
      cases branches with
      | nil => exact meets_fail _
      | cons chosen others =>
        refine .after (fun _ => rfl) fun chosen => ?_
        refine .after (fun _ => rfl) fun otherwise => ?_
        by_cases taken : condition ≠ 0
        · simp only [if_pos taken]
          exact evaluates (.sexpr chosen)
        · simp only [if_neg taken]
          cases otherwise with
          | none => exact meets_pure _
          | some items => exact evaluates (.sexpr items)
    | _ => exact meets_fail _

theorem layer_evalOp_meets (args : List (Value Empty)) :
    Meets m.maxDepth levels ((m.layer i).evalOp args) (evalOp m.reducer args) := by
  match args with
  | [list] => exact .after (fun _ => rfl) fun items => evaluates (.sexpr items)
  | [] | _ :: _ :: _ => exact meets_fail _

theorem layer_load_meets (path : String) :
    Meets m.maxDepth levels ((m.layer i).load path) (m.load path) :=
  .after (fun _ => rfl) fun program => Interpreter.runProgram_meets evaluates program

end Layer

/-- An operation of the language is one of the functions that evaluate, or evaluates nothing. -/
theorem runPrimitive_meets
    (defines : ∀ mode args, Meets m.maxDepth levels (i.define mode args) (define m.reducer mode args))
    (branches : ∀ args, Meets m.maxDepth levels (i.branch args) (branch m.reducer args))
    (evals : ∀ args, Meets m.maxDepth levels (i.evalOp args) (evalOp m.reducer args))
    (loads : ∀ path, Meets m.maxDepth levels (i.load path) (m.load path)) (p : Primitive) (args : List (Value Empty)) :
    Meets m.maxDepth levels (i.runPrimitive m.folder p args) (p.run m.folder m.reducer args) := by
  cases p with
  | define mode => exact defines mode args
  | eval => exact evals args
  | branch => exact branches args
  | load =>
    match args with
    | [path] => exact .after (fun _ => rfl) fun path => loads path
    | [] | _ :: _ :: _ => exact meets_fail _
  | undefine => exact .ofEval (undefine_depth args)
  | _ => exact .ofEval fun _ => rfl

/-- A call of a closure or of an operation. -/
theorem layer_call_meets (closures : ∀ formals body scope args,
      Meets m.maxDepth levels (i.callClosure formals body scope args) (callClosure m.reducer formals body scope args))
    (primitives : ∀ p args, Meets m.maxDepth levels (i.runPrimitive m.folder p args) (p.run m.folder m.reducer args))
    (callee : Value Empty) (args : List (Value Empty)) :
    Meets m.maxDepth levels ((m.layer i).call callee args) (m.call callee args) := by
  have operations : ∀ op : Operation Empty, Meets m.maxDepth levels (i.runOperation m.folder op args)
      (m.runOperation m.reducer op args) := by
    intro op
    refine .after (fun _ => rfl) fun _ => ?_
    cases op.action with
    | primitive p => exact primitives p args
    | host h => exact nomatch h
  have raises : ∀ value : Value Empty, Meets m.maxDepth levels (.ofEval (raiseError value)) (raiseError value) := by
    intro value
    refine .ofEval fun s => ?_
    cases value <;> rfl
  simp only [layer, call, Machine.apply, callWith]
  cases callee with
  | builtin op => exact (operations op).bind raises
  | special op => exact (operations op).bind raises
  | closure formals body scope => exact (closures formals body scope args).bind raises
  | _ => exact (meets_fail _).bind raises

/-- Only an S-expression is taken further. -/
theorem layer_tryEval_meets (reducers : ∀ items, Meets m.maxDepth levels (i.reducer items) (m.reducer items))
    (expr : Value Empty) : Meets m.maxDepth levels ((m.layer i).tryEval expr) (m.tryEval expr) := by
  cases expr with
  | symbol name => exact .ofEval fun _ => rfl
  | sexpr items => exact reducers items
  | error message => exact meets_fail _
  | _ => exact meets_pure _

/-- Only a closure with all its arguments is taken further. -/
theorem layer_callClosure_meets (reducers : ∀ items, Meets m.maxDepth levels (i.reducer items) (m.reducer items))
    (formals : List String) (body : List (Value Empty)) (scope : Scope (Value Empty)) (args : List (Value Empty)) :
    Meets m.maxDepth levels ((m.layer i).callClosure formals body scope args)
      (callClosure m.reducer formals body scope args) := by
  refine .after (fun _ => rfl) fun bound => ?_
  cases bound with
  | waiting formals scope => exact meets_pure _
  | complete scope => exact (reducers body).within scope

/-- One level: the head, the operands, and the call. -/
theorem layer_reduce_meets (evaluates : ∀ expr, Meets m.maxDepth levels (i.tryEval expr) (m.tryEval expr))
    (parks : ∀ head operands, Meets m.maxDepth levels (i.park head operands) (park m.reducer head operands))
    (calls : ∀ callee args, Meets m.maxDepth levels (i.call callee args) (m.call callee args))
    (first : Value Empty) (operands : List (Value Empty)) :
    Meets m.maxDepth levels ((m.layer i).reduce first operands) (m.reduce m.reducer first operands) := by
  have applies : ∀ values, Meets m.maxDepth levels (i.applyElements values) (m.applyElements m.reducer values) := by
    intro values
    match values with
    | [] => exact meets_pure _
    | [value] =>
      by_cases function : value.isFunction
      · simp only [Interpreter.applyElements, applyElements, if_pos function]
        exact calls value []
      · simp only [Interpreter.applyElements, applyElements, if_neg function]
        exact meets_pure value
    | callee :: arg :: args => exact calls callee (arg :: args)
  have gathers : ∀ head, Meets m.maxDepth levels (i.evalOperands head operands)
      (evalOperands m.reducer head operands) := by
    intro head
    refine (parks head operands).bind fun parked => ?_
    obtain ⟨handles, result⟩ := parked
    refine .after (fun _ => rfl) fun values => ?_
    exact .after (fun _ => rfl) fun _ => meets_pure values
  refine (evaluates first).bind fun head => ?_
  cases head with
  | special op => exact calls (.special op) operands
  | _ => exact (gathers _).bind applies

/-- The way to the next level, which is the only one where the levels left become fewer. -/
theorem layer_reducer_meets (reduces : ∀ lower, lower + 1 = levels → ∀ first operands,
      Meets m.maxDepth lower (i.reduce first operands) (m.reduce m.reducer first operands))
    (items : List (Value Empty)) : Meets m.maxDepth levels ((m.layer i).reducer items) (m.reducer items) := by
  rw [m.reducer_eq]
  cases items with
  | nil => exact meets_pure _
  | cons first operands =>
    intro s enough
    have fuelled : (m.layer i).reducer (first :: operands) s = (if m.maxDepth ≤ s.depth
        then .ofEval (Eval.fail (.depthExceeded m.maxDepth)) else .deeper (i.reduce first operands) : Fuelled _ _) s :=
      rfl
    have plain : m.descend (m.reduce m.reducer) (first :: operands) s = (if m.maxDepth ≤ s.depth
        then Eval.fail (.depthExceeded m.maxDepth) else Eval.deeper (m.reduce m.reducer first operands)) s := rfl
    rw [fuelled, plain]
    -- At the limit nothing is called; above it there is a level to spend.
    by_cases limit : m.maxDepth ≤ s.depth
    · rw [if_pos limit, if_pos limit]
      exact ⟨rfl, rfl⟩
    · rw [if_neg limit, if_neg limit]
      obtain ⟨lower, rfl⟩ : ∃ lower, levels = lower + 1 := ⟨levels - 1, by omega⟩
      obtain ⟨same, level⟩ := reduces lower rfl first operands { s with depth := s.depth + 1 } (by simp only; omega)
      simp only [Fuelled.deeper, same, Eval.deeper_apply, Option.map_some]
      exact ⟨trivial, by rw [level]; simp⟩

/-- How much fuel the functions of evaluation need for the levels that are left: five units for each level, since a
level goes through at most five of them, and some to begin with. -/
structure Covers (m : Machine Empty) (fuel : Nat) (i : Interpreter Empty) : Prop where
  reducer : ∀ levels, 5 * levels + 1 ≤ fuel → ∀ items,
    Meets m.maxDepth levels (i.reducer items) (m.reducer items)
  tryEval : ∀ levels, 5 * levels + 2 ≤ fuel → ∀ expr, Meets m.maxDepth levels (i.tryEval expr) (m.tryEval expr)
  callClosure : ∀ levels, 5 * levels + 2 ≤ fuel → ∀ formals body scope args,
    Meets m.maxDepth levels (i.callClosure formals body scope args) (callClosure m.reducer formals body scope args)
  park : ∀ levels, 5 * levels + 3 ≤ fuel → ∀ head operands,
    Meets m.maxDepth levels (i.park head operands) (park m.reducer head operands)
  define : ∀ levels, 5 * levels + 3 ≤ fuel → ∀ mode args,
    Meets m.maxDepth levels (i.define mode args) (define m.reducer mode args)
  branch : ∀ levels, 5 * levels + 3 ≤ fuel → ∀ args,
    Meets m.maxDepth levels (i.branch args) (branch m.reducer args)
  evalOp : ∀ levels, 5 * levels + 3 ≤ fuel → ∀ args,
    Meets m.maxDepth levels (i.evalOp args) (evalOp m.reducer args)
  load : ∀ levels, 5 * levels + 3 ≤ fuel → ∀ path, Meets m.maxDepth levels (i.load path) (m.load path)
  call : ∀ levels, 5 * levels + 4 ≤ fuel → ∀ callee args,
    Meets m.maxDepth levels (i.call callee args) (m.call callee args)
  reduce : ∀ levels, 5 * levels + 5 ≤ fuel → ∀ first operands,
    Meets m.maxDepth levels (i.reduce first operands) (m.reduce m.reducer first operands)

/-- One unit of fuel more carries every function one call further. -/
theorem Covers.layer {fuel : Nat} (covers : m.Covers fuel i) : m.Covers (fuel + 1) (m.layer i) where
  reducer levels enough := layer_reducer_meets fun lower below => covers.reduce lower (by omega)
  tryEval levels enough := layer_tryEval_meets (covers.reducer levels (by omega))
  callClosure levels enough := layer_callClosure_meets (covers.reducer levels (by omega))
  park levels enough := layer_park_meets (covers.tryEval levels (by omega))
  define levels enough := layer_define_meets (covers.tryEval levels (by omega))
  branch levels enough := layer_branch_meets (covers.tryEval levels (by omega))
  evalOp levels enough := layer_evalOp_meets (covers.tryEval levels (by omega))
  load levels enough := layer_load_meets (covers.tryEval levels (by omega))
  call levels enough := layer_call_meets (covers.callClosure levels (by omega))
    (runPrimitive_meets (covers.define levels (by omega)) (covers.branch levels (by omega))
      (covers.evalOp levels (by omega)) (covers.load levels (by omega)))
  reduce levels enough := layer_reduce_meets (covers.tryEval levels (by omega)) (covers.park levels (by omega))
    (covers.call levels (by omega))

/-- However much fuel there is, it is enough for the levels that it covers. -/
theorem fuelled_covers (m : Machine Empty) (fuel : Nat) : m.Covers fuel (m.fuelled fuel) := by
  -- Without fuel nothing is covered, and each unit adds one layer of calls.
  induction fuel with
  | zero => constructor <;> (intro levels enough; omega)
  | succ fuel ih => exact ih.layer

/-- Every evaluation ends: with fuel for the levels that the limit leaves, whatever the program, none of the functions
runs out of it, and each has the outcome that it has without counting. -/
theorem fuel_never_runs_out (m : Machine Empty) (s : State Empty) (fuel : Nat)
    (enough : 5 * (m.maxDepth - s.depth) + 5 ≤ fuel) :
    (∀ expr, (m.fuelled fuel).tryEval expr s = some (m.tryEval expr s)) ∧
    (∀ items, (m.fuelled fuel).reducer items s = some (m.reducer items s)) ∧
    (∀ first operands, (m.fuelled fuel).reduce first operands s = some (m.reduce m.reducer first operands s)) ∧
    (∀ head operands, (m.fuelled fuel).park head operands s = some (park m.reducer head operands s)) ∧
    (∀ callee args, (m.fuelled fuel).call callee args s = some (m.call callee args s)) ∧
    (∀ formals body scope args, (m.fuelled fuel).callClosure formals body scope args s =
      some (callClosure m.reducer formals body scope args s)) ∧
    (∀ mode args, (m.fuelled fuel).define mode args s = some (define m.reducer mode args s)) ∧
    (∀ args, (m.fuelled fuel).branch args s = some (branch m.reducer args s)) ∧
    (∀ args, (m.fuelled fuel).evalOp args s = some (evalOp m.reducer args s)) ∧
    ∀ path, (m.fuelled fuel).load path s = some (m.load path s) := by
  -- The levels left are those that the fuel covers for every one of the functions.
  have covers := m.fuelled_covers fuel
  have left := Nat.le_refl (m.maxDepth - s.depth)
  refine ⟨fun expr => (covers.tryEval _ ?_ expr s left).1, fun items => (covers.reducer _ ?_ items s left).1,
    fun first operands => (covers.reduce _ ?_ first operands s left).1,
    fun head operands => (covers.park _ ?_ head operands s left).1,
    fun callee args => (covers.call _ ?_ callee args s left).1,
    fun formals body scope args => (covers.callClosure _ ?_ formals body scope args s left).1,
    fun mode args => (covers.define _ ?_ mode args s left).1, fun args => (covers.branch _ ?_ args s left).1,
    fun args => (covers.evalOp _ ?_ args s left).1, fun path => (covers.load _ ?_ path s left).1⟩ <;> omega

/-- A function applied to itself, which calls itself until the limit is reached. -/
theorem fuel_never_runs_out_self :
    let m := Machine.plain 2 {}
    let s : State Empty := { pool := { limits := ⟨2, 1⟩ } }
    let self : Value Empty := .closure ["f"] [.symbol "f", .symbol "f"] {}
    (m.fuelled 15).tryEval (.sexpr [self, self]) s = some (m.tryEval (.sexpr [self, self]) s) ∧
      (m.tryEval (.sexpr [self, self]) s).1 = .error (.depthExceeded 2) := by
  intro m s self
  exact ⟨(fuel_never_runs_out m s 15 (by decide)).1 (.sexpr [self, self]), by cbv⟩

end Machine

end QuoteLisp
