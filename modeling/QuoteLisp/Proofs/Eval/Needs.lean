import QuoteLisp.Eval.Reduce
import QuoteLisp.Proofs.Pool.Capacity

/-! What an evaluation needs of the limit on nesting and of the pool: with enough of both it gives its value, and where
it fails, it fails by one that is too small. -/

namespace QuoteLisp

variable {H α β : Type}

/-- Pools with the same limits fail in the same way. -/
theorem Pool.Holds.exhausted {before after : Pool α} {held : List (Handle × α)} (holds : before.Holds after held) :
    after.exhausted = before.exhausted := by
  rw [Pool.exhausted, Pool.exhausted, holds.limits]

/-- The outcome of a step as a value. -/
theorem Eval.outcome_of_apply {x : Eval H α} {s t : State H} {result : Except Error α} (done : x s = (result, t)) :
    Eval.outcome x s = (.ok result, t) := by
  rw [Eval.outcome, done]

/-- A way of reducing with as many levels as the limit leaves at a depth. -/
def Machine.ReachesLimit (m : Machine H) (depth : Nat) (reduce : Reducer H) : Prop :=
  ∃ base fuel, m.maxDepth ≤ depth + fuel ∧ reduce = m.nested base fuel

/-- How a step ends that needs so many levels and so many chunks for its value. -/
inductive EndsWithin (m : Machine H) (depth : Nat) (pool : Pool (Value H)) (levels chunks : Nat) (value : α) :
    Except Error α → Prop where
  | enough (below : levels ≤ m.maxDepth - depth) (room : chunks ≤ pool.room) :
    EndsWithin m depth pool levels chunks value (.ok value)
  | tooDeep (below : m.maxDepth - depth < levels) :
    EndsWithin m depth pool levels chunks value (.error (.depthExceeded m.maxDepth))
  | tooFull (room : pool.room < chunks) :
    EndsWithin m depth pool levels chunks value (.error pool.exhausted)

namespace EndsWithin

variable {m : Machine H} {depth levels levels' chunks chunks' : Nat} {pool : Pool (Value H)} {value : α} {value' : β}

/-- What is too little for a step is too little for all of which it is a part. -/
theorem of_error {e : Error} (ends : EndsWithin m depth pool levels chunks value (.error e))
    (deeper : levels ≤ levels') (more : chunks ≤ chunks') :
    EndsWithin m depth pool levels' chunks' value' (.error e) := by
  cases ends with
  | tooDeep below => exact .tooDeep (by omega)
  | tooFull room => exact .tooFull (by omega)

/-- What comes after a step that had enough decides. -/
theorem after_enough {result : Except Error α} (below : levels ≤ m.maxDepth - depth) (room : chunks ≤ pool.room)
    (ends : EndsWithin m depth pool levels' chunks' value result) :
    EndsWithin m depth pool (max levels levels') (max chunks chunks') value result := by
  cases ends with
  | enough below' room' => exact .enough (by omega) (by omega)
  | tooDeep below' => exact .tooDeep (by omega)
  | tooFull room' => exact .tooFull (by omega)

theorem map (f : α → β) {result : Except Error α} (ends : EndsWithin m depth pool levels chunks value result) :
    EndsWithin m depth pool levels chunks (f value) (result.map f) := by
  cases ends with
  | enough below room => exact .enough below room
  | tooDeep below => exact .tooDeep below
  | tooFull room => exact .tooFull room

/-- Where some items are held already, they count as needed too. -/
theorem of_holds {result : Except Error α} {after : Pool (Value H)} {held : List (Handle × Value H)}
    (ends : EndsWithin m depth after levels chunks value result) (holds : pool.Holds after held)
    (valid : after.Valid) : EndsWithin m depth pool levels (held.length + chunks) value result := by
  have room := holds.room valid
  cases ends with
  | enough below free => exact .enough below (by omega)
  | tooDeep below => exact .tooDeep below
  | tooFull full =>
    rw [holds.exhausted]
    exact .tooFull (by omega)

/-- One level down there is one level less. -/
theorem of_deeper {result : Except Error α} (inside : depth < m.maxDepth)
    (ends : EndsWithin m (depth + 1) pool levels chunks value result) :
    EndsWithin m depth pool (levels + 1) chunks value result := by
  cases ends with
  | enough below room => exact .enough (by omega) room
  | tooDeep below => exact .tooDeep (by omega)
  | tooFull room => exact .tooFull room

end EndsWithin

/--
What a step needs, wherever it starts with given scopes and at a given depth.

It changes nothing but the pool, and leaves in place what the pool holds.
-/
def Needs (m : Machine H) (env : Environment (Value H)) (depth : Nat) (x : Eval H α) (levels chunks : Nat)
    (value : α) : Prop :=
  ∀ s : State H, s.env = env → s.depth = depth → s.pool.Valid →
    ∃ result pool, x s = (result, { s with pool := pool }) ∧ s.pool.Holds pool [] ∧ pool.Valid ∧
      EndsWithin m depth s.pool levels chunks value result

namespace Needs

variable {m : Machine H} {env : Environment (Value H)} {depth levels levels' chunks chunks' : Nat}
  {value : α} {value' : β} {x : Eval H α}

theorem of_eq (needs : Needs m env depth x levels chunks value) (sameLevels : levels = levels')
    (sameChunks : chunks = chunks') : Needs m env depth x levels' chunks' value :=
  sameLevels ▸ sameChunks ▸ needs

/-- A step that gives its value at once needs nothing. -/
theorem of_apply (done : ∀ s, s.env = env → x s = (.ok value, s)) : Needs m env depth x 0 0 value := by
  intro s scopes _ valid
  exact ⟨.ok value, s.pool, done s scopes, .refl _, valid, .enough (Nat.zero_le _) (Nat.zero_le _)⟩

/-- Steps one after another need what the more demanding one needs. -/
theorem bind {f : α → Eval H β} (first : Needs m env depth x levels chunks value)
    (second : Needs m env depth (f value) levels' chunks' value') :
    Needs m env depth (x >>= f) (max levels levels') (max chunks chunks') value' := by
  intro s scopes atDepth valid
  obtain ⟨result, pool, done, holds, validPool, ends⟩ := first s scopes atDepth valid
  cases result with
  | error e =>
    exact ⟨.error e, pool, Eval.bind_of_error f done, holds, validPool,
      ends.of_error (Nat.le_max_left ..) (Nat.le_max_left ..)⟩
  | ok _ =>
    cases ends with
    | enough below room =>
      -- The second step starts with the room that the first one had.
      obtain ⟨result', pool', done', holds', validPool', ends'⟩ :=
        second { s with pool := pool } scopes atDepth validPool
      refine ⟨result', pool', (Eval.bind_of_ok f done).trans done', holds.trans holds', validPool', ?_⟩
      have counted := ends'.of_holds holds validPool
      simp only [List.length_nil, Nat.zero_add] at counted
      exact .after_enough below room counted

/-- A step that needs nothing is passed over. -/
theorem after_free {f : α → Eval H β} (first : Needs m env depth x 0 0 value)
    (second : Needs m env depth (f value) levels chunks value') :
    Needs m env depth (x >>= f) levels chunks value' := by
  simpa using first.bind second

/-- A scope on top of the others is gone after the step. -/
theorem within {scope : Scope (Value H)} (inside : Needs m (env.enter scope) depth x levels chunks value) :
    Needs m env depth (Eval.within scope x) levels chunks value := by
  intro s scopes atDepth valid
  obtain ⟨result, pool, done, holds, validPool, ends⟩ :=
    inside { s with env := s.env.enter scope } (by rw [scopes]) atDepth valid
  refine ⟨result, pool, ?_, holds, validPool, ends⟩
  rw [Eval.within_apply, done]
  rfl

/-- A reduction needs one level for itself. -/
theorem descend {inner : Value H → List (Value H) → Eval H (Value H)} {first : Value H} {operands : List (Value H)}
    {value : Value H}
    (inside : depth < m.maxDepth → Needs m env (depth + 1) (inner first operands) levels chunks value) :
    Needs m env depth (m.descend inner (first :: operands)) (levels + 1) chunks value := by
  intro s scopes atDepth valid
  simp only [Machine.descend, Eval.bind_apply, Eval.read]
  by_cases limit : m.maxDepth ≤ s.depth
  · -- At the limit there is not even that level.
    rw [if_pos limit]
    exact ⟨_, s.pool, rfl, .refl _, valid, .tooDeep (by omega)⟩
  · rw [if_neg limit]
    have free : depth < m.maxDepth := by omega
    obtain ⟨result, pool, done, holds, validPool, ends⟩ :=
      inside free { s with depth := s.depth + 1 } scopes (by simp [atDepth]) valid
    refine ⟨result, pool, ?_, holds, validPool, ends.of_deeper free⟩
    rw [Eval.deeper_apply, done]
    rfl

/-- A value that is stored after a step needs a chunk of its own, besides those of the items held before. -/
theorem hold {x : Eval H (Value H)} {value : Value H} (needs : Needs m env depth x levels chunks value)
    {s : State H} (scopes : s.env = env) (atDepth : s.depth = depth) (valid : s.pool.Valid) {base : Pool (Value H)}
    {held : List (Handle × Value H)} (holds : base.Holds s.pool held) :
    (∃ handle pool, (x >>= Eval.hold) s = (.ok handle, { s with pool := pool }) ∧ pool.Valid ∧
      base.Holds pool (held ++ [(handle, value)]) ∧ levels ≤ m.maxDepth - depth ∧
      held.length + max chunks 1 ≤ base.room) ∨
    (∃ e pool, (x >>= Eval.hold) s = (.error e, { s with pool := pool }) ∧ pool.Valid ∧ base.Holds pool held ∧
      EndsWithin m depth base levels (held.length + max chunks 1) value (.error e)) := by
  -- What the step stores is freed before its value is stored, so one of those chunks may serve for it.
  obtain ⟨result, pool, done, kept, validPool, ends⟩ := needs s scopes atDepth valid
  have counted := ends.of_holds holds valid
  cases result with
  | error e =>
    exact .inr ⟨e, pool, Eval.bind_of_error _ done, validPool, holds.trans kept,
      counted.of_error (Nat.le_refl _) (by omega)⟩
  | ok _ =>
    cases counted with
    | enough below room =>
      have free := (holds.trans kept).room validPool
      rw [Eval.bind_of_ok _ done, Eval.hold]
      rcases validPool.acquire_cases value with ⟨fits, handle, after, stored, stores, validAfter⟩ | ⟨full, failed⟩
      · have space : 0 < pool.room := Nat.sub_pos_of_lt fits
        refine .inl ⟨handle, after, by simp only [stored], validAfter, (holds.trans kept).snoc stores, below, ?_⟩
        omega
      · have none : pool.room = 0 := by rw [Pool.room, full, Nat.sub_self]
        refine .inr ⟨pool.exhausted, pool, by simp only [failed], validPool, holds.trans kept, ?_⟩
        rw [(holds.trans kept).exhausted]
        exact .tooFull (by omega)

end Needs

/--
What it takes to store values, with some stored already.

Whatever comes of it, what is stored is held, and it is all of the values where there is enough for them.
-/
def Parks (m : Machine H) (env : Environment (Value H)) (depth count : Nat)
    (x : Eval H (List Handle × Except Error Unit)) (levels chunks : Nat) (values : List (Value H)) : Prop :=
  ∀ (base : Pool (Value H)) (held : List (Handle × Value H)) (s : State H), held.length = count → s.env = env →
    s.depth = depth → s.pool.Valid → base.Holds s.pool held →
      ∃ more result pool, x s = (.ok (more.map (·.1), result), { s with pool := pool }) ∧ pool.Valid ∧
        base.Holds pool (held ++ more) ∧
        EndsWithin m depth base levels chunks values (result.map fun _ => more.map (·.2))

/-- Stores the value of a step and after it more. -/
def parkBehind (x : Eval H (Value H)) (rest : Eval H (List Handle × Except Error Unit)) :
    Eval H (List Handle × Except Error Unit) := do
  match ← Eval.outcome (x >>= Eval.hold) with
  | .error e => pure ([], .error e)
  | .ok handle => do
    let (handles, result) ← rest
    pure (handle :: handles, result)

namespace Parks

variable {m : Machine H} {env : Environment (Value H)} {depth count levels levels' chunks chunks' : Nat}
  {reduce : Reducer H} {value : Value H} {operands values : List (Value H)}

/-- Each value is stored while those before it are held, and so is what its step stores on the way. -/
theorem behind {x : Eval H (Value H)} {rest : Eval H (List Handle × Except Error Unit)}
    (first : Needs m env depth x levels chunks value)
    (later : Parks m env depth (count + 1) rest levels' chunks' values) :
    Parks m env depth count (parkBehind x rest) (max levels levels') (max (count + max chunks 1) chunks')
      (value :: values) := by
  -- A failure ends it: what is stored by then stays held, and nothing more is stored.
  rintro base held s rfl scopes atDepth valid holds
  rw [parkBehind]
  rcases first.hold scopes atDepth valid holds with
    ⟨handle, pool, done, validPool, stored, below, room⟩ | ⟨e, pool, done, validPool, kept, ends⟩
  · obtain ⟨more, result, pool', parked, validPool', holds', ends⟩ :=
      later base (held ++ [(handle, value)]) { s with pool := pool } (by simp) scopes atDepth validPool stored
    refine ⟨(handle, value) :: more, result, pool', ?_, validPool', by simpa using holds', ?_⟩
    · rw [Eval.bind_of_ok _ (Eval.outcome_of_apply done)]
      simp [Eval.bind_apply, parked]
    · have ends' := (ends.map (value :: ·)).after_enough below room
      cases result <;> exact ends'
  · refine ⟨[], .error e, pool, ?_, validPool, by simpa using kept, ?_⟩
    · rw [Eval.bind_of_ok _ (Eval.outcome_of_apply done)]
      rfl
    · exact ends.of_error (Nat.le_max_left ..) (Nat.le_max_left ..)

/-- Without operands nothing is stored. -/
theorem nil : Parks m env depth count (parkOperands reduce []) 0 0 [] := by
  intro base held s _ _ _ valid holds
  exact ⟨[], .ok (), s.pool, rfl, valid, by simpa using holds, .enough (Nat.zero_le _) (Nat.zero_le _)⟩

theorem cons {operand : Value H} (first : Needs m env depth (evalWith reduce operand) levels chunks value)
    (later : Parks m env depth (count + 1) (parkOperands reduce operands) levels' chunks' values) :
    Parks m env depth count (parkOperands reduce (operand :: operands)) (max levels levels')
      (max (count + max chunks 1) chunks') (value :: values) :=
  behind first later

/-- The head is stored before the operands. -/
theorem head (head : Value H) (later : Parks m env depth 1 (parkOperands reduce operands) levels chunks values) :
    Parks m env depth 0 (park reduce head operands) levels (max 1 chunks) (head :: values) := by
  have free : Needs m env depth (pure head : Eval H (Value H)) 0 0 head := .of_apply fun _ _ => rfl
  have stored : Parks m env depth 0 (park reduce head operands) (max 0 levels) (max (0 + max 0 1) chunks)
      (head :: values) := behind free later
  simpa using stored

/-- What is stored is handed over in the end, and the pool is as it was. -/
theorem evalOperands {head : Value H}
    (parks : Parks m env depth 0 (park reduce head operands) levels chunks values) :
    Needs m env depth (evalOperands reduce head operands) levels chunks values := by
  -- All that is held is released, after a failure too.
  intro s scopes atDepth valid
  obtain ⟨held, result, pool, parked, validPool, holds, ends⟩ :=
    parks s.pool [] s rfl scopes atDepth valid (.refl _)
  rw [List.nil_append] at holds
  obtain ⟨released, restored⟩ := holds.releaseAll
  refine ⟨result.map fun _ => held.map (·.2), (pool.releaseAll (held.map (·.1))).2, ?_, restored,
    validPool.releaseAll _, ends⟩
  have taken : Eval.release (held.map (·.1)) { s with pool := pool } =
      (.ok (held.map (·.2)), { s with pool := (pool.releaseAll (held.map (·.1))).2 }) := by
    rw [← released]
    rfl
  refine (Eval.bind_of_ok _ parked).trans ((Eval.bind_of_ok _ taken).trans ?_)
  cases result <;> rfl

end Parks

namespace Needs

variable {m : Machine H} {env : Environment (Value H)} {depth levels levels' chunks chunks' : Nat}
  {reduce : Reducer H} {value head : Value H} {operands values args : List (Value H)}

/-- A name needs nothing for its value. -/
theorem symbol {name : String} (bound : env.get? name = some value) :
    Needs m env depth (evalWith reduce (.symbol name)) 0 0 value := by
  refine .of_apply fun s scopes => ?_
  simp [evalWith, Eval.lookup, Environment.lookup, scopes, bound]

/-- A quoted list needs nothing either. -/
theorem quoted (items : List (Value H)) : Needs m env depth (evalWith reduce (.qexpr items)) 0 0 (.qexpr items) :=
  .of_apply fun _ _ => rfl

theorem number (n : Int64) : Needs m env depth (evalWith reduce (.integer n)) 0 0 (.integer n) :=
  .of_apply fun _ _ => rfl

/-- The head and the operands are held at once, and what is applied to them starts with none of them held. -/
theorem reduction {first : Value H} (evaluated : Needs m env depth (evalWith reduce first) 0 0 head)
    (plain : ∀ op, head ≠ .special op)
    (parks : Parks m env depth 1 (parkOperands reduce operands) levels chunks values)
    (applied : Needs m env depth (m.applyElements reduce (head :: values)) levels' chunks' value) :
    Needs m env depth (m.reduce reduce first operands) (max levels levels') (max (max 1 chunks) chunks') value := by
  refine evaluated.after_free ?_
  have handed := (parks.head head).evalOperands.bind applied
  cases head with
  | special op => exact absurd rfl (plain op)
  | _ => exact handed

/-- A result that is no error is passed on. -/
theorem raiseError {x : Eval H (Value H)} (needs : Needs m env depth x levels chunks value)
    (proper : value.isError = false) : Needs m env depth (x >>= raiseError) levels chunks value := by
  have passed : Needs m env depth (QuoteLisp.raiseError value) 0 0 value := by
    cases value with
    | error message => cases proper
    | _ => exact .of_apply fun _ _ => rfl
  simpa using needs.bind passed

/-- A closure that gets all its arguments needs what its body needs. -/
theorem closure {formals : List String} {body : List (Value H)} {scope bound : Scope (Value H)}
    (complete : bindArguments formals.length args.length formals scope args = .ok (.complete bound))
    (ran : Needs m (env.enter bound) depth (reduce body) levels chunks value) (proper : value.isError = false) :
    Needs m env depth (m.apply reduce (.closure formals body scope) args) levels chunks value := by
  have bindings : Needs m env depth
      (Eval.ofExcept (bindArguments formals.length args.length formals scope args) : Eval H (Bound H)) 0 0
      (.complete bound) := by
    refine .of_apply fun _ _ => ?_
    rw [Eval.ofExcept, complete]
  exact (bindings.after_free ran.within).raiseError proper

/-- A reduction needs a level for itself, and below it the limit leaves one less. -/
theorem oneLevel {first : Value H} (reaches : m.ReachesLimit depth reduce)
    (inside : ∀ lower, m.ReachesLimit (depth + 1) lower →
      Needs m env (depth + 1) (m.reduce lower first operands) levels chunks value) :
    Needs m env depth (reduce (first :: operands)) (levels + 1) chunks value := by
  obtain ⟨base, fuel, enough, rfl⟩ := reaches
  cases fuel with
  | zero => exact .descend fun below => absurd enough (by omega)
  | succ fuel => exact .descend fun _ => inside _ ⟨base, fuel, by omega, rfl⟩

/-- A call of a named function needs the more of what its operands need and what applying it needs. -/
theorem call {name : String} {callee : Value H} (args : List (Value H)) (reaches : m.ReachesLimit depth reduce)
    (bound : env.get? name = some callee) (callable : callee.isFunction) (plain : ∀ op, callee ≠ .special op)
    (inside : ∀ lower, m.ReachesLimit (depth + 1) lower →
      Parks m env (depth + 1) 1 (parkOperands lower operands) levels chunks args ∧
      Needs m env (depth + 1) (m.apply lower callee args) levels' chunks' value) :
    Needs m env depth (reduce (.symbol name :: operands)) (max levels levels' + 1) (max (max 1 chunks) chunks')
      value := by
  refine .oneLevel reaches fun lower below => ?_
  obtain ⟨parks, applied⟩ := inside lower below
  refine .reduction (.symbol bound) plain parks ?_
  have handed : m.applyElements lower (callee :: args) = m.apply lower callee args := by
    cases args <;> simp [Machine.applyElements, callable]
  rwa [handed]

/-- A call of an operation of the language needs what it does with its arguments. -/
theorem callPrimitive {name : String} {p : Primitive} (args : List (Value H)) (reaches : m.ReachesLimit depth reduce)
    (bound : env.get? name = some p.value) (ordinary : p.isSpecial = false) (counted : p.arity.accepts args.length)
    (proper : value.isError = false)
    (inside : ∀ lower, m.ReachesLimit (depth + 1) lower →
      Parks m env (depth + 1) 1 (parkOperands lower operands) levels chunks args ∧
      Needs m env (depth + 1) (p.run m.folder lower args) levels' chunks' value) :
    Needs m env depth (reduce (.symbol name :: operands)) (max levels levels' + 1) (max (max 1 chunks) chunks')
      value := by
  have builtin : (p.value : Value H) = .builtin p.operation := by simp [Primitive.value, ordinary]
  rw [builtin] at bound
  refine .call args reaches bound rfl (fun _ => nofun) fun lower below => ?_
  obtain ⟨parks, ran⟩ := inside lower below
  have checked : Needs m env (depth + 1) (Eval.ofExcept (p.arity.check p.name args.length) : Eval H Unit) 0 0 () := by
    refine .of_apply fun _ _ => ?_
    simp [Eval.ofExcept, Arity.check, counted]
  have called : Needs m env (depth + 1)
      (p.operation.runWith m.folder lower (m.runHost lower (m.host.nesting args)) args) levels' chunks' value :=
    checked.after_free ran
  exact ⟨parks, called.raiseError proper⟩

/-- The levels that an evaluation starts with are those that the limit leaves. -/
theorem tryEval {expr : Value H}
    (needs : ∀ reduce, m.ReachesLimit depth reduce → Needs m env depth (evalWith reduce expr) levels chunks value) :
    Needs m env depth (m.tryEval expr) levels chunks value := by
  -- Only an S-expression looks at the levels.
  intro s scopes atDepth valid
  have reaches : m.ReachesLimit depth
      (m.nested (fun _ _ => Eval.fail (.depthExceeded m.maxDepth)) (m.maxDepth - s.depth)) := ⟨_, _, by omega, rfl⟩
  have ends := needs _ reaches s scopes atDepth valid
  cases expr <;> exact ends

end Needs

end QuoteLisp
