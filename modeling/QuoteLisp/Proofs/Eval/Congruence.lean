import QuoteLisp.Eval.Reduce
import QuoteLisp.Proofs.Eval.Likeness
import QuoteLisp.Proofs.Eval.Results

/-! Whole evaluations of two machines are alike when their single steps are. -/

namespace QuoteLisp

variable {H ι : Type}

namespace Likeness

/-- The result of an operation before an error value among results is made a failure. -/
def Returned (c : Likeness H ι) (value : Value H) : Prop :=
  c.Sound value ∧ (value.isError = false → c.result value)

/-- What the single steps of two machines must do so that their evaluations are alike, as long as the counters of the
pool are not asked for. -/
structure StepsAlike (c : Likeness H ι) (m m' : Machine H) : Prop where
  /-- Only names and functions can be unsound at their top. -/
  plain : ∀ value, value.IsPlain → c.part value
  normal : ∀ value, value.IsNormal → c.result value
  lambda : ∀ names body, (∀ name ∈ names, c.part (.symbol name)) → c.part (.lambda names body)
  /-- The rest marker is passed over. -/
  skip : ∀ formal after body scope, c.part (.closure (formal :: after) body scope) →
    c.part (.closure after body scope)
  /-- An argument is bound to the first formal. -/
  bound : ∀ formal after body scope arg scope', c.part (.closure (formal :: after) body scope) →
    c.Evaluated arg → scope.bind formal arg = .ok scope' → c.part (.closure after body scope')
  folder : m'.folder = m.folder
  nesting : m'.host.nesting = m.host.nesting
  program : ∀ path exprs, m.folder.program path = .ok exprs → ∀ expr ∈ exprs, c.Sound expr
  lookup : ∀ name, c.part (.symbol name) → c.Alike c.Evaluated (Eval.lookup name) (Eval.lookup name)
  blocked : ∀ mode name i s t, c.part (.symbol name) → c.states i s t →
    DefineMode.isBlocked mode s.env name = DefineMode.isBlocked mode t.env name
  bind : ∀ mode name value, c.part (.symbol name) → c.Evaluated value →
    c.Alike (fun _ => True) (Eval.changeEnv fun env => DefineMode.bind mode env name value)
      (Eval.changeEnv fun env => DefineMode.bind mode env name value)
  /-- Names are removed only where the operation that does so occurs. -/
  remove : ∀ op name i s t, Value.Runs .undefine op → c.part op → c.part (.symbol name) → c.states i s t →
    c.states i { s with env := (s.env.remove? name).getD s.env } { t with env := (t.env.remove? name).getD t.env }
  print : ∀ line, c.Alike (fun _ => True) (Eval.printLine line) (Eval.printLine line)
  limit : c.failures (.depthExceeded m.maxDepth) (.depthExceeded m'.maxDepth)
  /-- Both reach the limit together, or the first is cut off there; below it states stay alike. -/
  descend : ∀ i s t, c.states i s t →
    (m.maxDepth ≤ s.depth → c.cut (.depthExceeded m.maxDepth) s ∨ m'.maxDepth ≤ t.depth) ∧
    (m'.maxDepth ≤ t.depth → m.maxDepth ≤ s.depth) ∧
    ∃ j, c.states j { s with depth := s.depth + 1 } { t with depth := t.depth + 1 } ∧
      ∀ s' t', c.states j s' t' → c.states i { s' with depth := s'.depth - 1 } { t' with depth := t'.depth - 1 }
  /-- States stay alike inside a closure that has all its arguments, and after it. -/
  enter : ∀ body scope i s t, c.part (.closure [] body scope) → scope.Everywhere c.part → c.states i s t →
    ∃ j, c.states j { s with env := s.env.enter scope } { t with env := t.env.enter scope } ∧
      ∀ s' t', c.states j s' t' → c.states i { s' with env := s'.env.leave } { t' with env := t'.env.leave }
  hosts : ∀ op args evaluate evaluate' apply apply', (∀ arg ∈ args, c.Sound arg) →
    (∀ expr, c.Sound expr → c.Alike c.Sound (evaluate expr) (evaluate' expr)) →
    (∀ callee args, c.Sound callee → (∀ arg ∈ args, c.Evaluated arg) →
      c.Alike c.Evaluated (apply callee args) (apply' callee args)) →
    c.Alike c.Returned ((m.host op args).run evaluate apply) ((m'.host op args).run evaluate' apply')

/-- What the single steps of two machines must do so that their evaluations are alike. -/
structure KeptBy (c : Likeness H ι) (m m' : Machine H) : Prop extends StepsAlike c m m' where
  /-- The counters of the pool are seen only where the operation that shows them occurs. -/
  stats : ∀ op i s t, Value.Runs .poolStats op → c.part op → c.states i s t → s.pool.stats = t.pool.stats

/-- Whoever asks for the counters of the pool gets the same ones in both evaluations. -/
def StatsAgree (c : Likeness H ι) : Prop :=
  ∀ i s t, c.states i s t → s.pool.stats = t.pool.stats

variable {c : Likeness H ι} {m m' : Machine H} {reduce reduce' : Reducer H}

/-- Evaluating a quoted list. -/
theorem evalOp_alike (reducers : c.AlikeReducers reduce reduce') {args : List (Value H)}
    (sound : ∀ arg ∈ args, c.Sound arg) : c.Alike c.Evaluated (evalOp reduce args) (evalOp reduce' args) := by
  -- What is reduced are the items of the argument, and these are sound because the argument is.
  unfold evalOp
  split
  · next list =>
    refine (alike_ofExcept (fun items found => expectList_eq_ok found)).bind fun items quoted => ?_
    subst list
    exact reducers items fun item member => (sound (.qexpr items) (by simp)).child member
  · exact alike_fail _

/-- The names that a definition is for are names in sound parts. -/
theorem definedNames_alike (reducers : c.AlikeReducers reduce reduce') (operation : String) {target : Value H}
    (sound : c.Sound target) :
    c.Alike (fun names => ∀ name ∈ names, c.part (.symbol name)) (definedNames reduce operation target)
      (definedNames reduce' operation target) := by
  -- An S-expression is evaluated alike; every other target is the same one in both.
  have found : c.Alike c.Sound (targetOf reduce target) (targetOf reduce' target) := by
    cases target with
    | sexpr items => exact (reducers items fun item member => sound.child member).mono fun _ done => done.2
    | _ => exact alike_pure sound
  rw [definedNames_eq, definedNames_eq]
  refine found.bind fun target sound => alike_ofExcept fun names listed name member => ?_
  -- A target stands for names by its form alone.
  cases target with
  | symbol only =>
    cases listed
    simpa [List.mem_singleton.mp member] using sound.top
  | qexpr items =>
    have inside : .symbol name ∈ (Value.qexpr items).children := by
      simp [Value.children, expectSymbols_eq_ok listed, member]
    exact (sound.child inside).top
  | _ => cases listed

namespace StepsAlike

variable (kept : c.StepsAlike m m')

include kept

/-- A value that is neither a symbol nor a function is sound when its items are. -/
theorem sound_plain {value : Value H} (plain : value.IsPlain)
    (inside : ∀ child ∈ value.children, c.Sound child) : c.Sound value :=
  Value.everywhere_iff.mpr ⟨kept.plain value plain, inside⟩

/-- A value with nothing to evaluate in it and no function at its top is evaluated when its items are sound. -/
theorem evaluated_plain {value : Value H} (normal : value.IsNormal) (plain : value.IsPlain)
    (inside : ∀ child ∈ value.children, c.Sound child) : c.Evaluated value :=
  ⟨kept.normal value normal, kept.sound_plain plain inside⟩

/-- Evaluating one sound expression. -/
theorem evalWith_alike (reducers : c.AlikeReducers reduce reduce') {expr : Value H} (sound : c.Sound expr) :
    c.Alike c.Evaluated (evalWith reduce expr) (evalWith reduce' expr) := by
  -- One case for each kind of expression; only names and S-expressions look at the state.
  cases expr with
  | symbol name => exact kept.lookup name sound.top
  | sexpr items => exact reducers items fun item member => sound.child member
  | error message => exact alike_fail _
  | _ => exact alike_pure ⟨kept.normal _ trivial, sound⟩

/-- Evaluating sound expressions from left to right. -/
theorem evalAllWith_alike (reducers : c.AlikeReducers reduce reduce') (exprs : List (Value H))
    (sound : ∀ expr ∈ exprs, c.Sound expr) :
    c.Alike (fun values => ∀ value ∈ values, c.Evaluated value) (evalAllWith reduce exprs)
      (evalAllWith reduce' exprs) := by
  -- Each expression starts where the one before it has ended alike.
  induction exprs with
  | nil => exact alike_pure (by simp)
  | cons expr rest ih =>
    refine (kept.evalWith_alike reducers (sound expr (by simp))).bind fun value evaluated => ?_
    refine (ih fun other member => sound other (by simp [member])).bind fun values others => ?_
    exact alike_pure (by simpa using ⟨evaluated, others⟩)

/-- Evaluating with failures turned into error values. -/
theorem guardedWith_alike (reducers : c.AlikeReducers reduce reduce') {expr : Value H} (sound : c.Sound expr) :
    c.Alike c.Sound (guardedWith reduce expr) (guardedWith reduce' expr) :=
  alike_guarded (fun _ => kept.plain _ trivial) (kept.evalWith_alike reducers sound)

/-- Running the expressions of a program in order. -/
theorem runProgram_alike (reducers : c.AlikeReducers reduce reduce') (exprs : List (Value H))
    (sound : ∀ expr ∈ exprs, c.Sound expr) :
    c.Alike c.Evaluated (runProgram reduce exprs) (runProgram reduce' exprs) := by
  -- The value of an expression matters only when it is an error or a wish to quit.
  induction exprs with
  | nil => exact alike_pure (kept.evaluated_plain trivial trivial (by simp [Value.children]))
  | cons expr rest ih =>
    have later := ih fun other member => sound other (by simp [member])
    refine (kept.guardedWith_alike reducers (sound expr (by simp))).bind fun value _ => ?_
    -- Only a wish to quit ends the program; an error is printed first.
    cases value with
    | quit code => exact alike_pure (kept.evaluated_plain trivial trivial (by simp [Value.children]))
    | error message => exact (kept.print _).bind fun _ _ => later
    | _ => exact later

/-- Loading a file. -/
theorem loadWith_alike (reducers : c.AlikeReducers reduce reduce') (path : String) :
    c.Alike c.Evaluated (loadWith m.folder reduce path) (loadWith m'.folder reduce' path) := by
  -- The folder is the same, so both run the expressions of one file.
  rw [kept.folder]
  refine (alike_ofExcept (fun exprs found => kept.program path exprs found)).bind fun exprs sound => ?_
  exact kept.runProgram_alike reducers exprs sound

/-- What is computed from sound arguments is evaluated. -/
theorem evaluated_of_computed {args : List (Value H)} {value : Value H} (computed : ComputedFrom args value)
    (sound : ∀ arg ∈ args, c.Sound arg) : c.Evaluated value := by
  -- Items come from the arguments, so they are as sound as these.
  refine kept.evaluated_plain computed.isNormal computed.isPlain fun child member => ?_
  obtain ⟨arg, given, occurs⟩ := computed.items child member
  exact (sound arg given).part occurs

/-- A closure of sound parts with no argument yet. -/
theorem evaluated_lambda {names : List String} {body : List (Value H)}
    (named : ∀ name ∈ names, c.part (.symbol name)) (sound : ∀ expr ∈ body, c.Sound expr) :
    c.Evaluated (.lambda names body) := by
  -- The body is all that is inside a closure with nothing bound.
  refine ⟨kept.normal _ trivial, Value.everywhere_iff.mpr ⟨kept.lambda names body named, ?_⟩⟩
  simpa [Value.lambda, Value.children] using sound

/-- Evaluating one of two branches. -/
theorem branch_alike (reducers : c.AlikeReducers reduce reduce') {args : List (Value H)}
    (sound : ∀ arg ∈ args, c.Sound arg) : c.Alike c.Evaluated (branch reduce args) (branch reduce' args) := by
  -- The list that is reduced is one of the arguments, whichever branch is taken, and the condition is a value
  -- that both evaluations share.
  unfold branch
  split
  · exact alike_fail _
  · next condition branches =>
    split
    · exact alike_fail _
    · next chosen others =>
      refine (alike_ofExcept (fun items found => expectList_eq_ok found)).bind fun items quoted => ?_
      subst chosen
      -- The other branch, where there is one, is a quoted list among the arguments.
      have other : ∀ otherwise, others.head?.mapM (expectList "if" 2) = .ok otherwise →
          ∀ items ∈ otherwise, .qexpr items ∈ others := by
        intro otherwise found items member
        cases others with
        | nil =>
          cases found
          cases member
        | cons first rest =>
          obtain ⟨list, quoted, same⟩ := except_map_eq_ok.mp found
          cases same
          cases member
          simp [expectList_eq_ok quoted]
      refine (alike_ofExcept other).bind fun otherwise among => ?_
      split
      · exact reducers items fun item member => (sound (.qexpr items) (by simp)).child member
      · cases otherwise with
        | none => exact alike_pure (kept.evaluated_plain trivial trivial (by simp [Value.children]))
        | some list =>
          have member := among list rfl
          exact reducers list fun item inside => (sound (.qexpr list) (by simp [member])).child inside
  · exact alike_fail _

/-- Loading the file that an argument names. -/
theorem loadOp_alike (reducers : c.AlikeReducers reduce reduce') (args : List (Value H)) :
    c.Alike c.Evaluated (loadOp m.folder reduce args) (loadOp m'.folder reduce' args) := by
  -- The path is the same text in both.
  unfold loadOp
  split
  · refine (alike_ofExcept (fun _ _ => trivial)).bind fun path _ => ?_
    exact kept.loadWith_alike reducers path
  · exact alike_fail _

/-- Both evaluations refuse the same names. -/
theorem check_eq {i : ι} {s t : State H} (alike : c.states i s t) (mode : DefineMode) (names : List String)
    (named : ∀ name ∈ names, c.part (.symbol name)) (earlier : List String) :
    mode.check s.env earlier names = mode.check t.env earlier names := by
  -- A check looks at the environment only to ask whether names are blocked.
  induction names generalizing earlier with
  | nil => rfl
  | cons name rest ih =>
    have same := kept.blocked mode name i s t (named name (by simp)) alike
    simp only [DefineMode.check, same, ih (fun other member => named other (by simp [member]))]

/-- Checking names against the environment of the moment. -/
theorem checkNames_alike (mode : DefineMode) (names : List String)
    (named : ∀ name ∈ names, c.part (.symbol name)) :
    c.Alike (fun _ => True) (do Eval.ofExcept (mode.check (← Eval.read (·.env)) [] names))
      (do Eval.ofExcept (mode.check (← Eval.read (·.env)) [] names)) := by
  -- Environments that block the same names let the same check pass or fail.
  intro i s t start
  simp only [Eval.bind_apply, Eval.read, Eval.ofExcept, kept.check_eq start mode names named []]
  cases mode.check t.env [] names with
  | ok _ => exact .ok trivial start
  | error e => exact .error (c.failures_refl e) start

/-- Binding names to evaluated values one after the other. -/
theorem bindAll_alike (mode : DefineMode) (names : List String) (values : List (Value H))
    (named : ∀ name ∈ names, c.part (.symbol name)) (evaluated : ∀ value ∈ values, c.Evaluated value) :
    c.Alike (fun _ => True) (mode.bindAll names values) (mode.bindAll names values) := by
  -- Names and values are taken up together until one of the lists ends.
  induction names generalizing values with
  | nil => exact alike_pure trivial
  | cons name rest ih =>
    cases values with
    | nil => exact alike_pure trivial
    | cons value others =>
      refine (kept.bind mode name value (named name (by simp)) (evaluated value (by simp))).bind fun _ _ => ?_
      exact ih others (fun other member => named other (by simp [member]))
        (fun other member => evaluated other (by simp [member]))

/-- A definition form on sound operands. -/
theorem define_alike (reducers : c.AlikeReducers reduce reduce') (mode : DefineMode) {args : List (Value H)}
    (sound : ∀ arg ∈ args, c.Sound arg) :
    c.Alike c.Evaluated (define reduce mode args) (define reduce' mode args) := by
  -- The form is a sequence of steps, and each of them is alike.
  cases args with
  | nil => exact alike_fail _
  | cons target operands =>
    refine (definedNames_alike reducers mode.name (sound target (by simp))).bind fun names named => ?_
    split
    · exact alike_fail _
    · -- The checks before and after the operands are the same step.
      refine (kept.checkNames_alike mode names named).bind fun _ _ => ?_
      refine (kept.evalAllWith_alike reducers operands fun arg member => sound arg (by simp [member])).bind
        fun values evaluated => ?_
      refine (kept.checkNames_alike mode names named).bind fun _ _ => ?_
      refine (kept.bindAll_alike mode names values named evaluated).bind fun _ _ => ?_
      exact alike_pure (kept.evaluated_plain trivial trivial (by simp [Value.children]))

/-- Removing names, where the operation that does so occurs. -/
theorem undefine_alike {op : Value H} (runs : op.Runs .undefine) (sound : c.part op) {args : List (Value H)}
    (soundArgs : ∀ arg ∈ args, c.Sound arg) : c.Alike c.Evaluated (undefine args) (undefine args) := by
  -- Names are taken out one at a time, and the states stay alike after each.
  have removed : ∀ names, (∀ name ∈ names, c.part (.symbol name)) → ∀ i s t, c.states i s t →
      c.states i { s with env := removeAll s.env names } { t with env := removeAll t.env names } := by
    intro names
    induction names with
    | nil => exact fun _ i s t alike => alike
    | cons name rest ih =>
      intro named i s t alike
      have first := kept.remove op name i s t runs sound (named name (by simp)) alike
      exact ih (fun other member => named other (by simp [member])) i _ _ first
  unfold undefine
  split
  · next list =>
    refine (alike_ofExcept (fun items found => expectList_eq_ok found)).bind fun items quoted => ?_
    subst list
    have named : ∀ names, expectSymbols "undef" 0 items = .ok names → ∀ name ∈ names, c.part (.symbol name) := by
      intro names found name member
      have inside : .symbol name ∈ (Value.qexpr items).children := by
        simp [Value.children, expectSymbols_eq_ok found, member]
      exact ((soundArgs (.qexpr items) (by simp)).child inside).top
    refine (alike_ofExcept named).bind fun names named => ?_
    have step : c.Alike (fun _ => True) (Eval.modify fun s => { s with env := removeAll s.env names })
        (Eval.modify fun s => { s with env := removeAll s.env names }) :=
      fun i s t alike => .ok trivial (removed names named i s t alike)
    refine step.bind fun _ _ => ?_
    exact alike_pure (kept.evaluated_plain trivial trivial (by simp [Value.children]))
  · exact alike_fail _

/-- Running an operation of the language on sound arguments. -/
theorem run_alike (reducers : c.AlikeReducers reduce reduce') {p : Primitive} {op : Value H} (runs : op.Runs p)
    (sound : c.part op) (shown : op.Runs .poolStats → c.StatsAgree) {args : List (Value H)}
    (soundArgs : ∀ arg ∈ args, c.Sound arg) :
    c.Alike c.Evaluated (p.run m.folder reduce args) (p.run m'.folder reduce' args) := by
  -- An operation that only computes gives both evaluations the same outcome.
  have computes : ∀ {r : Except Error (Value H)}, (∀ value, r = .ok value → ComputedFrom args value) →
      c.Alike c.Evaluated (Eval.ofExcept r) (Eval.ofExcept r) :=
    fun computed => alike_ofExcept fun value done => kept.evaluated_of_computed (computed value done) soundArgs
  cases p with
  | print =>
    refine (kept.print _).bind fun _ _ => ?_
    exact alike_pure (kept.evaluated_plain trivial trivial (by simp [Value.children]))
  | raise => exact computes fun value done => absurd done raiseOp_ne_ok
  | exit => exact computes fun value done => exitOp_computed done
  | define mode => exact kept.define_alike reducers mode soundArgs
  | undefine => exact kept.undefine_alike runs sound soundArgs
  | lambda =>
    refine alike_ofExcept fun value done => ?_
    obtain ⟨names, body, rfl, rfl⟩ := lambdaOp_eq_ok done
    refine kept.evaluated_lambda (fun name member => ?_) (fun expr member => ?_)
    · have inside : .symbol name ∈ (Value.qexpr (H := H) (names.map .symbol)).children := by
        simp [Value.children, member]
      exact ((soundArgs _ (by simp)).child inside).top
    · exact (soundArgs (.qexpr body) (by simp)).child member
  | list => exact alike_pure (kept.evaluated_plain trivial trivial soundArgs)
  | head => exact computes fun value done => headOp_computed done
  | tail => exact computes fun value done => tailOp_computed done
  | eval => exact evalOp_alike reducers soundArgs
  | join => exact computes fun value done => joinOp_computed done
  | concat => exact computes fun value done => concatOp_computed done
  | poolStats =>
    -- The counters are data, and they agree where they can be seen.
    have data : ∀ stats : PoolStats, c.Evaluated (stats.value : Value H) := fun stats => by
      refine kept.evaluated_plain trivial trivial fun child member => ?_
      simp only [PoolStats.value, Value.children, List.mem_cons, List.not_mem_nil, or_false] at member
      rcases member with rfl | rfl | rfl | rfl <;>
        exact Value.everywhere_of_leaf rfl (kept.plain _ trivial)
    intro i s t alike
    have same := shown runs i s t alike
    simp only [Primitive.run, Eval.read, same]
    exact .ok (data _) alike
  | arithmetic op => exact computes fun value done => Arithmetic.apply_computed done
  | branch => exact kept.branch_alike reducers soundArgs
  | equal => exact computes fun value done => equalOp_computed done
  | notEqual => exact computes fun value done => notEqualOp_computed done
  | order test => exact computes fun value done => Comparison.apply_computed done
  | load => exact kept.loadOp_alike reducers args

end StepsAlike

end Likeness

end QuoteLisp
