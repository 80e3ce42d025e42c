import QuoteLisp.Proofs.Eval.Uncalled
import QuoteLisp.Proofs.Pool.Capacity

/-! Two evaluations side by side, the first some levels deeper than the second and each with a pool of its own: as long as
the counters of the pool are not asked for, they do the same up to a fatal failure of the first. -/

namespace QuoteLisp

variable {H : Type}

/-- A special form that runs a given primitive. -/
def Value.IsFormOf (p : Primitive) : Value H → Prop
  | special op => op.action = .primitive p
  | _ => False

/-- Two states that differ in depth, by a fixed number of levels, and in where their pools have put what is in use. -/
structure Alongside (shift depth : Nat) (s t : State Empty) : Prop where
  env : t.env = s.env
  output : t.output = s.output
  deep : s.depth = depth + shift
  shallow : t.depth = depth
  pools : s.pool.SameRoom t.pool
  /-- Only an operation that gets its operands evaluated may show the counters. -/
  formless : s.env.Everywhere fun part => ¬ part.IsFormOf .poolStats

/-- Compares two evaluations at different depths with different pools until the first one fails fatally. -/
def alongside (shift : Nat) : Likeness Empty Nat where
  states := Alongside shift
  part part := ¬ part.IsFormOf .poolStats
  result _ := True
  failures e e' := e = e'
  cut e _ := e.isFatal
  failures_refl _ := rfl
  failures_fatal := @Likeness.same_or_fatal
  cut_fatal fatal := fatal
  cut_unwinds fatal _ := fatal

variable {shift : Nat}

section Steps

/-- A value that is neither a name nor a function is no form. -/
theorem Value.IsPlain.not_isFormOf {value : Value H} (plain : value.IsPlain) (p : Primitive) : ¬ value.IsFormOf p := by
  intro form
  cases value with
  | special op => exact plain
  | _ => exact form

/-- A step that neither looks at the depth and the pool nor changes them. -/
theorem alongside_alike {α : Type} {holds : α → Prop} {x : Eval Empty α}
    (step : ∀ s : State Empty, (s.env.Everywhere fun part => ¬ part.IsFormOf .poolStats) →
      ((x s).2.env.Everywhere fun part => ¬ part.IsFormOf .poolStats) ∧
      (∀ depth pool,
        x { s with depth := depth, pool := pool } = ((x s).1, { (x s).2 with depth := depth, pool := pool })) ∧
      ∀ a, (x s).1 = .ok a → holds a) : (alongside shift).Alike holds x x := by
  intro depth s t alike
  obtain ⟨formless, elsewhere, results⟩ := step s alike.formless
  -- Both states are the first one with another depth and another pool, or with its own.
  have here := elsewhere s.depth s.pool
  have there := elsewhere t.depth t.pool
  have other : t = { s with depth := t.depth, pool := t.pool } := by
    obtain ⟨env, pool, depth', output⟩ := t
    obtain ⟨rfl, rfl, -⟩ := alike
    rfl
  rw [← other] at there
  rw [there]
  generalize x s = r at here formless results ⊢
  obtain ⟨outcome, last⟩ := r
  have same : last = { last with depth := s.depth, pool := s.pool } := congrArg Prod.snd here
  have ends : Alongside shift depth last { last with depth := t.depth, pool := t.pool } := by
    rw [same]
    exact ⟨rfl, rfl, alike.deep, alike.shallow, alike.pools, formless⟩
  cases outcome with
  | ok a => exact .ok (results a rfl) ends
  | error e => exact .error rfl ends

/-- Every single step but asking for the counters does the same in both. -/
theorem alongside_stepsAlike (m : Machine Empty) : (alongside shift).StepsAlike m m where
  plain _ plain := plain.not_isFormOf .poolStats
  normal _ _ := trivial
  lambda _ _ _ := id
  skip _ _ _ _ _ := id
  bound _ _ _ _ _ _ _ _ _ := id
  folder := rfl
  nesting := rfl
  program _ _ found := program_everywhere (fun _ plain => plain.not_isFormOf .poolStats) (fun _ => id) found
  lookup name _ := alongside_alike fun s formless =>
    ⟨formless, fun _ _ => rfl, fun value found => ⟨trivial, formless.get? (Environment.lookup_eq_ok.mp found)⟩⟩
  blocked _ _ _ s t _ alike := by rw [alike.env]
  bind mode name value _ evaluated := alongside_alike fun s formless => by
    simp only [Eval.changeEnv]
    cases bound : mode.bind s.env name value with
    | ok env => exact ⟨formless.bind evaluated.2 bound, fun _ _ => by simp, fun _ _ => trivial⟩
    | error e => exact ⟨formless, fun _ _ => by simp, fun _ _ => trivial⟩
  remove _ name _ s t _ _ _ alike :=
    ⟨by rw [alike.env], alike.output, alike.deep, alike.shallow, alike.pools, alike.formless.remove name⟩
  print line := alongside_alike fun s formless => ⟨formless, fun _ _ => rfl, fun _ _ => trivial⟩
  limit := rfl
  descend depth s t alike := by
    have deep := alike.deep
    have shallow := alike.shallow
    -- The first is the deeper one, so it reaches the limit no later, and nothing is compared from there on.
    refine ⟨fun _ => .inl rfl, fun reached => by omega, depth + 1, ?_, fun s' t' inside => ?_⟩
    · exact ⟨alike.env, alike.output, by show s.depth + 1 = _; omega, by show t.depth + 1 = _; omega, alike.pools,
        alike.formless⟩
    · have deeper := inside.deep
      have lower := inside.shallow
      exact ⟨inside.env, inside.output, by show s'.depth - 1 = _; omega, by show t'.depth - 1 = _; omega, inside.pools,
        inside.formless⟩
  enter _ scope depth s t _ bindings alike := by
    refine ⟨depth, ?_, fun s' t' inside => ?_⟩
    · exact ⟨by rw [alike.env], alike.output, alike.deep, alike.shallow, alike.pools, alike.formless.enter bindings⟩
    · exact ⟨by rw [inside.env], inside.output, inside.deep, inside.shallow, inside.pools, inside.formless.leave⟩
  hosts op := nomatch op

end Steps

section Pools

/-- Nothing of a state but its pool changes while operands wait in it. -/
theorem Alongside.withPools {depth : Nat} {s t : State Empty} (alike : Alongside shift depth s t)
    {pool pool' : Pool (Value Empty)} (same : pool.SameRoom pool') :
    Alongside shift depth { s with pool := pool } { t with pool := pool' } :=
  ⟨alike.env, alike.output, alike.deep, alike.shallow, same, alike.formless⟩

variable {reduce reduce' : Reducer Empty}

/-- Further operands behind those that are held. -/
theorem gatherFrom_alongside (m : Machine Empty) (balanced : Reducer.Balanced reduce)
    (balanced' : Reducer.Balanced reduce') (reducers : (alongside shift).AlikeReducers reduce reduce')
    (operands : List (Value Empty)) (sound : ∀ operand ∈ operands, (alongside shift).Sound operand)
    {base base' : Pool (Value Empty)} {held held' : List (Handle × Value Empty)}
    (evaluated : ∀ pair ∈ held, (alongside shift).Evaluated pair.2) (values : held'.map (·.2) = held.map (·.2))
    {depth : Nat} {s t : State Empty} (holds : base.Holds s.pool held) (holds' : base'.Holds t.pool held')
    (alike : Alongside shift depth s t) :
    (alongside shift).Ends depth (fun values => ∀ value ∈ values, (alongside shift).Evaluated value)
      (gatherFrom reduce held operands s) (gatherFrom reduce' held' operands t) := by
  have sameLength : held'.length = held.length := by simpa using congrArg List.length values
  -- By induction on the operands: both hold the same values, each in its own pool.
  induction operands generalizing held held' s t with
  | nil =>
    simp only [gatherFrom, values]
    exact .ok (List.forall_mem_map.mpr evaluated) (alike.withPools (alike.pools.releaseAll holds holds' sameLength))
  | cons operand rest ih =>
    have keeps := evalWith_balanced balanced operand s
    have keeps' := evalWith_balanced balanced' operand t
    have ends := (alongside_stepsAlike m).evalWith_alike reducers (sound operand (by simp)) depth s t alike
    simp only [gatherFrom]
    generalize evalWith reduce operand s = r at keeps ends ⊢
    generalize evalWith reduce' operand t = r' at keeps' ends ⊢
    cases ends with
    | cut fatal => exact .cut fatal
    | error failed alike =>
      have released := alike.pools.releaseAll (holds.trans keeps.holds) (holds'.trans keeps'.holds) sameLength
      exact .error failed (alike.withPools released)
    | @ok value s' t' result alike =>
      have holds := holds.trans keeps.holds
      have holds' := holds'.trans keeps'.holds
      cases done : s'.pool.acquire value with
      | error e =>
        -- A full pool is a fatal failure.
        simp only [done]
        exact .cut (Pool.isFatal_of_acquire done)
      | ok placed =>
        obtain ⟨handle, pool⟩ := placed
        obtain ⟨handle', pool', done', same⟩ := alike.pools.acquire done
        simp only [done, done']
        refine ih (fun other member => sound other (by simp [member])) ?_ (by simp [values])
          (holds.snoc (Pool.stores_of_acquire done)) (holds'.snoc (Pool.stores_of_acquire done')) (alike.withPools same)
          (by simp [sameLength])
        intro pair member
        rcases List.mem_append.mp member with earlier | last
        · exact evaluated pair earlier
        · rw [List.mem_singleton.mp last]
          exact result

/-- Head and operands, each side with its own pool. -/
theorem evalOperands_alongside (m : Machine Empty) (balanced : Reducer.Balanced reduce)
    (balanced' : Reducer.Balanced reduce') (reducers : (alongside shift).AlikeReducers reduce reduce')
    {head : Value Empty} (evaluated : (alongside shift).Evaluated head) {operands : List (Value Empty)}
    (sound : ∀ operand ∈ operands, (alongside shift).Sound operand) :
    (alongside shift).Alike (fun values => ∀ value ∈ values, (alongside shift).Evaluated value)
      (evalOperands reduce head operands) (evalOperands reduce' head operands) := by
  -- Keeping the values aside changes nothing, and then only the room in the two pools matters.
  intro depth s t alike
  rw [evalOperands_eq balanced, evalOperands_eq balanced']
  simp only [gatherOperands]
  cases done : s.pool.acquire head with
  | error e => exact .cut (Pool.isFatal_of_acquire done)
  | ok placed =>
    obtain ⟨handle, pool⟩ := placed
    obtain ⟨handle', pool', done', same⟩ := alike.pools.acquire done
    simp only [done']
    have first : ∀ pair ∈ [(handle, head)], (alongside shift).Evaluated pair.2 := by simpa using evaluated
    have values : [(handle', head)].map (·.2) = [(handle, head)].map (·.2) := rfl
    exact gatherFrom_alongside m balanced balanced' reducers operands sound first values
      (Pool.stores_of_acquire done).holds (Pool.stores_of_acquire done').holds (Alongside.withPools alike same)

end Pools

section Levels

variable {reduce reduce' : Reducer Empty} {stop : Error}

/-- A call of something that is sound and does not ask for the counters. -/
theorem apply_alongside (m : Machine Empty) (reducers : (alongside shift).AlikeReducers reduce reduce')
    {callee : Value Empty} (sound : (alongside shift).Sound callee) (other : ¬ callee.Runs .poolStats)
    {args : List (Value Empty)} (soundArgs : ∀ arg ∈ args, (alongside shift).Sound arg) :
    (alongside shift).Alike (alongside shift).Evaluated (m.apply reduce callee args) (m.apply reduce' callee args) :=
  (alongside_stepsAlike m).callWith_alike reducers sound (fun runs => absurd runs other) soundArgs
    (fun _ arg member => ⟨trivial, soundArgs arg member⟩) fun op => nomatch op

/-- One S-expression, where the first evaluation stops in the place of a call that asks for the counters. -/
theorem reduceVia_alongside (m : Machine Empty) (fatal : stop.isFatal) (balanced : Reducer.Balanced reduce)
    (balanced' : Reducer.Balanced reduce') (reducers : (alongside shift).AlikeReducers reduce reduce')
    {first : Value Empty} (soundFirst : (alongside shift).Sound first) {operands : List (Value Empty)}
    (sound : ∀ operand ∈ operands, (alongside shift).Sound operand) :
    (alongside shift).Alike (alongside shift).Evaluated
      (m.reduceVia (haltingAt .poolStats stop evalOperands) reduce first operands)
      (m.reduceVia evalOperands reduce' first operands) := by
  refine (alongside_stepsAlike m).reduceVia_of_calls reducers soundFirst (fun op evaluated => ?_) fun head evaluated => ?_
  · -- No special form of the two evaluations asks for the counters.
    exact apply_alongside m reducers evaluated.2 evaluated.2.top sound
  · -- What is called is the head, and the first evaluation has stopped if the head would ask for them.
    have headed : ∀ {s t : State Empty} {values : List (Value Empty)},
        evalOperands reduce head operands s = (.ok values, t) → ∃ args, values = head :: args := by
      intro s t values done
      obtain ⟨_, _, args, _, _, rfl⟩ := evalOperands_in_order balanced done
      exact ⟨args, rfl⟩
    have gathered := (evalOperands_alongside m balanced balanced' reducers evaluated sound).and headed
    refine (haltingAt_alike (fun _ => fatal) gathered).bind fun values going => ?_
    obtain ⟨⟨allEvaluated, args, rfl⟩, other⟩ := going
    refine (alongside_stepsAlike m).applyElements_of_calls _ allEvaluated fun callee args split => ?_
    cases split
    exact apply_alongside m reducers evaluated.2 other fun arg member => (allEvaluated arg (by simp [member])).2

/-- Reduction at some depth that stops in the place of a call that asks for the counters, with however many levels, is
like reduction as it is at a smaller depth, up to a fatal failure. -/
theorem nestedVia_alongside (m : Machine Empty) (fatal : stop.isFatal) (levels : Nat) :
    (alongside shift).AlikeReducers (m.nestedVia (haltingAt .poolStats stop evalOperands) levels) m.reducer := by
  have balanced : Reducer.Balanced m.reducer := by
    intro items s
    rw [← m.reducerVia_evalOperands]
    exact nestedVia_balanced m (balanced_of_empty m) (m.maxDepth - s.depth) items s
  rw [m.reducer_eq]
  -- By induction on the levels: the first evaluation has no level left only where it fails fatally.
  induction levels with
  | zero =>
    -- There the failure stands for all that the second evaluation still does.
    refine (alongside_stepsAlike m).descend_alike fun _ _ _ _ _ _ _ _ => ?_
    exact .cut rfl
  | succ levels ih =>
    rw [← m.reducer_eq] at ih
    exact (alongside_stepsAlike m).descend_alike fun first operands soundFirst sound =>
      reduceVia_alongside m fatal (nestedVia_halting_balanced m .poolStats stop levels) balanced ih soundFirst sound

end Levels

end QuoteLisp
