import QuoteLisp.Proofs.Eval.Reduction
import QuoteLisp.Proofs.Pool.Holding

/-! Operands wait in the pool until the last of them is evaluated, and then come out as they went in: the values
handed to a call are the evaluated head and the evaluated operands in order. -/

namespace QuoteLisp

variable {H ι : Type}

/-- Two states with the same depth, equally many scopes, and pools in which the same chunks hold the same items. -/
structure State.Balanced (before after : State H) : Prop where
  depth : after.depth = before.depth
  scopes : after.env.depth = before.env.depth
  poolId : after.pool.id = before.pool.id
  limits : after.pool.limits = before.pool.limits
  chunks : ∀ handle, after.pool.get? handle = before.pool.get? handle
  inUse : after.pool.stats.chunksInUse = before.pool.stats.chunksInUse

namespace State.Balanced

variable {before middle after : State H}

theorem refl (s : State H) : s.Balanced s :=
  ⟨rfl, rfl, rfl, rfl, fun _ => rfl, rfl⟩

theorem trans (first : before.Balanced middle) (second : middle.Balanced after) : before.Balanced after :=
  ⟨second.depth.trans first.depth, second.scopes.trans first.scopes, second.poolId.trans first.poolId,
    second.limits.trans first.limits, fun handle => (second.chunks handle).trans (first.chunks handle),
    second.inUse.trans first.inUse⟩

/-- The pools of balanced states hold the same items. -/
theorem holds (balanced : before.Balanced after) : before.pool.Holds after.pool [] :=
  ⟨balanced.poolId, balanced.limits, balanced.inUse, by simp, by simp, by simp,
    fun handle _ => balanced.chunks handle⟩

/-- Depth, scopes and what the pool holds are all there is to balance. -/
theorem of_holds (depth : after.depth = before.depth) (scopes : after.env.depth = before.env.depth)
    (holds : before.pool.Holds after.pool []) : before.Balanced after :=
  ⟨depth, scopes, holds.id, holds.limits, fun handle => holds.others handle (by simp), by simpa using holds.inUse⟩

end State.Balanced

/-- A step that leaves the state balanced on every outcome. -/
def Eval.Balanced {α : Type} (x : Eval H α) : Prop :=
  ∀ s : State H, s.Balanced (x s).2

/-- A way of reducing that leaves the state balanced on every outcome. -/
def Reducer.Balanced (reduce : Reducer H) : Prop :=
  ∀ items, Eval.Balanced (reduce items)

/-- Evaluating an expression is balanced when reducing is. -/
theorem evalWith_balanced {reduce : Reducer H} (balanced : Reducer.Balanced reduce) (expr : Value H) :
    Eval.Balanced (evalWith reduce expr) := by
  -- Only an S-expression does anything to the state.
  intro s
  cases expr with
  | sexpr items => exact balanced items s
  | _ => exact .refl s

/-- The state after some chunks of its pool are freed. -/
def State.freed (s : State H) (handles : List Handle) : State H :=
  { s with pool := (s.pool.releaseAll handles).2 }

/-- Evaluates operands after some are held already: the values are kept beside their handles, and whatever the
outcome, all handles are released at the end. -/
def gatherFrom (reduce : Reducer H) (held : List (Handle × Value H)) : List (Value H) → Eval H (List (Value H))
  | [] => fun s => (.ok (held.map (·.2)), s.freed (held.map (·.1)))
  | operand :: rest => fun s =>
    match evalWith reduce operand s with
    | (.error e, t) => (.error e, t.freed (held.map (·.1)))
    | (.ok value, t) =>
      -- The value takes its own chunk before the next operand is looked at.
      match t.pool.acquire value with
      | .error e => (.error e, t.freed (held.map (·.1)))
      | .ok (handle, pool) => gatherFrom reduce (held ++ [(handle, value)]) rest { t with pool := pool }

/-- Evaluates operands behind an evaluated head, with the values kept beside their handles. -/
def gatherOperands : Gatherer H := fun reduce head operands s =>
  match s.pool.acquire head with
  | .error e => (.error e, s)
  | .ok (handle, pool) => gatherFrom reduce [(handle, head)] operands { s with pool := pool }

/-- The values that come out of the pool are the ones that went in, so keeping them aside changes nothing. -/
theorem gatherFrom_eq {reduce : Reducer H} (balanced : Reducer.Balanced reduce) {base : Pool (Value H)}
    (operands : List (Value H)) {held : List (Handle × Value H)} {s : State H} (holds : base.Holds s.pool held) :
    ∃ handles result t, parkOperands reduce operands s = (.ok (handles, result), t) ∧
      gatherFrom reduce held operands s = (result.map fun _ => (t.pool.releaseAll (held.map (·.1) ++ handles)).1,
        t.freed (held.map (·.1) ++ handles)) := by
  -- What is held so far is held against the same base at every operand.
  induction operands generalizing held s with
  | nil =>
    refine ⟨[], .ok (), s, rfl, ?_⟩
    simp [gatherFrom, Except.map, holds.releaseAll.1]
  | cons operand rest ih =>
    have kept := evalWith_balanced balanced operand s
    simp only [parkOperands, gatherFrom, Eval.bind_apply, Eval.outcome, Eval.hold]
    generalize evalWith reduce operand s = r at kept ⊢
    obtain ⟨outcome, t⟩ := r
    cases outcome with
    | error e => exact ⟨[], .error e, t, rfl, by simp [Except.map]⟩
    | ok value =>
      cases acquired : t.pool.acquire value with
      | error e => exact ⟨[], .error e, t, by simp [acquired], by simp [acquired, Except.map]⟩
      | ok placed =>
        obtain ⟨handle, pool⟩ := placed
        have more := (holds.trans kept.holds).snoc (Pool.stores_of_acquire acquired)
        obtain ⟨handles, result, u, parked, gathered⟩ := @ih _ { t with pool := pool } more
        refine ⟨handle :: handles, result, u, ?_, ?_⟩
        · simp [acquired, parked, Eval.bind_apply]
        · simp only [acquired, gathered]
          simp

/-- Parking and releasing gives exactly the evaluated head and operands, whatever the state of the pool. -/
theorem evalOperands_eq {reduce : Reducer H} (balanced : Reducer.Balanced reduce) (head : Value H)
    (operands : List (Value H)) : evalOperands reduce head operands = gatherOperands reduce head operands := by
  -- The head is stored first, so all that follows is held against the pool before it.
  funext s
  simp only [evalOperands, park, gatherOperands, Eval.bind_apply, Eval.outcome, Eval.hold]
  cases acquired : s.pool.acquire head with
  | error e => simp [Eval.release, Eval.ofExcept, Pool.releaseAll]
  | ok placed =>
    obtain ⟨handle, pool⟩ := placed
    have holds := (Pool.stores_of_acquire acquired).holds
    obtain ⟨handles, result, t, parked, gathered⟩ := gatherFrom_eq balanced operands (s := { s with pool := pool }) holds
    simp only [Eval.bind_apply, parked, gathered, Eval.release, Eval.ofExcept]
    cases result with
    | error e => simp [Except.map, State.freed]
    | ok _ => simp [Except.map, State.freed]

/-- While operands are gathered the depth and the scopes stay, and at the end the pool is as it was. -/
theorem gatherFrom_balanced {reduce : Reducer H} (balanced : Reducer.Balanced reduce) {base : State H}
    (operands : List (Value H)) {held : List (Handle × Value H)} {s : State H} (depth : s.depth = base.depth)
    (scopes : s.env.depth = base.env.depth) (holds : base.pool.Holds s.pool held) :
    base.Balanced (gatherFrom reduce held operands s).2 := by
  -- Releasing what is held restores the base, at whichever operand it happens.
  have released : ∀ {t : State H}, s.Balanced t → base.Balanced (t.freed (held.map (·.1))) := fun kept =>
    .of_holds (kept.depth.trans depth) (kept.scopes.trans scopes) (holds.trans kept.holds).releaseAll.2
  induction operands generalizing held s with
  | nil => exact released (.refl s)
  | cons operand rest ih =>
    have kept := evalWith_balanced balanced operand s
    simp only [gatherFrom]
    generalize evalWith reduce operand s = r at kept ⊢
    obtain ⟨outcome, t⟩ := r
    cases outcome with
    | error e => exact released kept
    | ok value =>
      cases acquired : t.pool.acquire value with
      | error e => simpa [acquired] using released kept
      | ok placed =>
        obtain ⟨handle, pool⟩ := placed
        have more := (holds.trans kept.holds).snoc (Pool.stores_of_acquire acquired)
        simp only [acquired]
        refine ih (kept.depth.trans depth) (kept.scopes.trans scopes) more fun later => ?_
        exact .of_holds (later.depth.trans (kept.depth.trans depth)) (later.scopes.trans (kept.scopes.trans scopes))
          (more.trans later.holds).releaseAll.2

/-- Evaluating operands leaves the state balanced on every outcome. -/
theorem evalOperands_balanced {reduce : Reducer H} (balanced : Reducer.Balanced reduce) (head : Value H)
    (operands : List (Value H)) : Eval.Balanced (evalOperands reduce head operands) := by
  -- Keeping the values aside changes nothing, and then only handles are left to release.
  intro s
  rw [evalOperands_eq balanced, gatherOperands]
  cases acquired : s.pool.acquire head with
  | error e => exact .refl s
  | ok placed =>
    obtain ⟨handle, pool⟩ := placed
    have holds := (Pool.stores_of_acquire acquired).holds
    exact gatherFrom_balanced balanced operands rfl rfl holds

/-- Operands evaluated from left to right, each stored before the next one is looked at. -/
inductive EvaluatedInOrder (reduce : Reducer H) : State H → List (Value H) → List (Value H) → Prop where
  | nil (s : State H) : EvaluatedInOrder reduce s [] []
  | cons {s t : State H} {operand value : Value H} {rest values : List (Value H)} {handle : Handle}
    {pool : Pool (Value H)} (evaluated : evalWith reduce operand s = (.ok value, t))
    (stored : t.pool.acquire value = .ok (handle, pool))
    (later : EvaluatedInOrder reduce { t with pool := pool } rest values) :
    EvaluatedInOrder reduce s (operand :: rest) (value :: values)

/-- What is gathered is what is held already and the values of the operands in order. -/
theorem gatherFrom_in_order {reduce : Reducer H} {operands : List (Value H)} {held : List (Handle × Value H)}
    {s t : State H} {values : List (Value H)} (done : gatherFrom reduce held operands s = (.ok values, t)) :
    ∃ results, EvaluatedInOrder reduce s operands results ∧ values = held.map (·.2) ++ results := by
  -- Each operand that is evaluated adds one value at the end.
  induction operands generalizing held s with
  | nil =>
    cases done
    exact ⟨[], .nil s, by simp⟩
  | cons operand rest ih =>
    simp only [gatherFrom] at done
    split at done
    · cases done
    · next value middle evaluated =>
      split at done
      · cases done
      · next handle pool stored =>
        obtain ⟨results, later, rfl⟩ := ih done
        exact ⟨value :: results, .cons evaluated stored later, by simp⟩

/-- What a call is handed is the evaluated head and behind it the values of the operands in order. -/
theorem evalOperands_in_order {reduce : Reducer H} (balanced : Reducer.Balanced reduce) {head : Value H}
    {operands values : List (Value H)} {s t : State H}
    (done : evalOperands reduce head operands s = (.ok values, t)) :
    ∃ handle pool results, s.pool.acquire head = .ok (handle, pool) ∧
      EvaluatedInOrder reduce { s with pool := pool } operands results ∧ values = head :: results := by
  -- A call is handed something only when the head and all operands have found a chunk.
  rw [evalOperands_eq balanced, gatherOperands] at done
  split at done
  · cases done
  · next handle pool stored =>
    obtain ⟨results, inOrder, rfl⟩ := gatherFrom_in_order done
    exact ⟨handle, pool, results, stored, inOrder, rfl⟩

namespace Likeness

variable {c : Likeness H ι} {m m' : Machine H} {reduce reduce' : Reducer H}

/-- A comparison of evaluations that use one pool and of which nothing depends on what the pool holds. -/
structure PoolShared (c : Likeness H ι) : Prop where
  same : ∀ i s t, c.states i s t → s.pool = t.pool
  change : ∀ i s t pool, c.states i s t → c.states i { s with pool := pool } { t with pool := pool }

/-- Freeing chunks keeps states alike. -/
theorem PoolShared.freed (shared : c.PoolShared) {i : ι} {s t : State H} (alike : c.states i s t)
    (handles : List Handle) : c.states i (s.freed handles) (t.freed handles) := by
  -- Both pools are the same one, so releasing leaves them the same.
  simp only [State.freed, shared.same i s t alike]
  exact shared.change i s t _ alike

/-- Gathering further operands from one pool. -/
theorem gatherFrom_alike (shared : c.PoolShared) (kept : c.KeptBy m m') (reducers : c.AlikeReducers reduce reduce')
    (operands : List (Value H)) (sound : ∀ operand ∈ operands, c.Sound operand)
    (held : List (Handle × Value H)) (evaluated : ∀ pair ∈ held, c.Evaluated pair.2) :
    c.Alike (fun values => ∀ value ∈ values, c.Evaluated value) (gatherFrom reduce held operands)
      (gatherFrom reduce' held operands) := by
  induction operands generalizing held with
  | nil =>
    intro i s t alike
    exact .ok (List.forall_mem_map.mpr evaluated) (shared.freed alike _)
  | cons operand rest ih =>
    intro i s t alike
    have ends := kept.evalWith_alike reducers (sound operand (by simp)) i s t alike
    simp only [gatherFrom]
    generalize evalWith reduce operand s = r at ends ⊢
    generalize evalWith reduce' operand t = r' at ends ⊢
    cases ends with
    | cut off => exact .cut (c.cut_unwinds off (.free .refl _))
    | error failed alike => exact .error failed (shared.freed alike _)
    | ok result alike =>
      next value s t =>
      simp only [shared.same i s t alike]
      cases acquired : t.pool.acquire value with
      | error e => exact .error (c.failures_refl e) (shared.freed alike _)
      | ok placed =>
        obtain ⟨handle, pool⟩ := placed
        refine ih (fun other member => sound other (by simp [member])) (held ++ [(handle, value)]) ?_ i _ _
          (shared.change i s t pool alike)
        intro pair member
        rcases List.mem_append.mp member with earlier | last
        · exact evaluated pair earlier
        · rw [List.mem_singleton.mp last]
          exact result

/-- Gathering operands from one pool. -/
theorem gatherOperands_alike (shared : c.PoolShared) (kept : c.KeptBy m m') :
    c.AlikeGatherers (fun _ => True) gatherOperands gatherOperands := by
  -- The head is stored alike, since both pools are the same one.
  intro inner inner' _ reducers head operands evaluated sound i s t alike
  simp only [gatherOperands, shared.same i s t alike]
  cases t.pool.acquire head with
  | error e => exact .error (c.failures_refl e) alike
  | ok placed =>
    obtain ⟨handle, pool⟩ := placed
    exact gatherFrom_alike shared kept reducers operands sound [(handle, head)] (by simpa using evaluated) i _ _
      (shared.change i s t pool alike)

/-- Storing a value in one pool. -/
theorem hold_alike (shared : c.PoolShared) (value : Value H) :
    c.Alike (fun _ => True) (Eval.hold value) (Eval.hold value) := by
  intro i s t alike
  simp only [Eval.hold, shared.same i s t alike]
  cases t.pool.acquire value with
  | ok placed => exact .ok trivial (shared.change i s t placed.2 alike)
  | error e => exact .error (c.failures_refl e) alike

/-- Frees what is held, and after it passes on a failure. -/
def releaseBehind (held : List Handle) : List Handle × Except Error Unit → Eval H (List (Value H))
  | (handles, result) => do
    let values ← Eval.release (held ++ handles)
    Eval.ofExcept result
    pure values

/-- One handle more in front of those that are stored is one handle more behind those that are held. -/
theorem releaseBehind_cons (store : Eval H (List Handle × Except Error Unit)) (held : List Handle) (handle : Handle)
    (s : State H) :
    ((do let (handles, result) ← store; pure (handle :: handles, result)) >>= releaseBehind held) s =
      (store >>= releaseBehind (held ++ [handle])) s := by
  simp only [Eval.bind_apply]
  generalize store s = r
  obtain ⟨outcome, t⟩ := r
  cases outcome with
  | ok stored => simp [releaseBehind]
  | error e => rfl

/-- Storing operands in one pool and freeing them, where nothing is asked of the values that come out of it. -/
theorem parkOperands_alike (shared : c.PoolShared) (kept : c.KeptBy m m') (free : ∀ value, c.Evaluated value)
    (reducers : c.AlikeReducers reduce reduce') (operands : List (Value H)) (held : List Handle) :
    c.Alike (fun values => ∀ value ∈ values, c.Evaluated value) (parkOperands reduce operands >>= releaseBehind held)
      (parkOperands reduce' operands >>= releaseBehind held) := by
  induction operands generalizing held with
  | nil =>
    intro i s t alike
    have freed := shared.freed alike held
    simp only [parkOperands, releaseBehind, Eval.bind_apply, Eval.pure_apply, Eval.release, Eval.ofExcept,
      List.append_nil, shared.same i s t alike]
    rw [State.freed, State.freed, shared.same i s t alike] at freed
    exact .ok (fun value _ => free value) freed
  | cons operand rest ih =>
    intro i s t alike
    have stored := (kept.evalWith_alike reducers (free operand).2).bind fun value _ => hold_alike shared value
    simp only [parkOperands]
    -- Whatever has become of the operand, what is held is freed before the outcome is passed on.
    generalize evalWith reduce operand >>= Eval.hold = x at stored ⊢
    generalize evalWith reduce' operand >>= Eval.hold = y at stored ⊢
    have ends := stored i s t alike
    rw [Eval.bind_apply, Eval.bind_apply, Eval.bind_apply, Eval.bind_apply, Eval.outcome, Eval.outcome]
    generalize x s = r at ends ⊢
    generalize y t = r' at ends ⊢
    cases ends with
    | cut off => exact .cut (c.cut_unwinds off (.free .refl _))
    | error failed alike => exact .error failed (shared.freed alike _)
    | @ok handle s t _ alike =>
      have later := ih (held ++ [handle]) i s t alike
      rw [← releaseBehind_cons, ← releaseBehind_cons] at later
      exact later

/-- Evaluating operands through one pool, where nothing is asked of the values that come out of it. -/
theorem evalOperands_alike (shared : c.PoolShared) (kept : c.KeptBy m m') (free : ∀ value, c.Evaluated value) :
    c.AlikeGatherers (fun _ => True) evalOperands evalOperands := by
  intro inner inner' _ reducers head operands _ _ i s t alike
  have ends := hold_alike shared head i s t alike
  have whole : ∀ reduce : Reducer H, evalOperands reduce head operands = park reduce head operands >>= releaseBehind [] :=
    fun _ => rfl
  rw [whole, whole, park, park, Eval.bind_apply, Eval.bind_apply, Eval.bind_apply, Eval.bind_apply, Eval.outcome,
    Eval.outcome]
  generalize Eval.hold head s = r at ends ⊢
  generalize Eval.hold head t = r' at ends ⊢
  cases ends with
  -- Nothing is held yet when the head finds no chunk.
  | cut off => exact .cut off
  | error failed alike => exact .error failed alike
  | @ok handle s t _ alike =>
    have later := parkOperands_alike shared kept free reducers operands [handle] i s t alike
    rw [← List.nil_append [handle], ← releaseBehind_cons, ← releaseBehind_cons] at later
    exact later

end Likeness

end QuoteLisp
