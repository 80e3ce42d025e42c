import QuoteLisp.Proofs.Pool.Capacity
import QuoteLisp.Proofs.Session.Invariant

/-! Evaluation with a plain list in the place of the pool: only how many values are in use matters. -/

namespace QuoteLisp

variable {H : Type}

namespace State

/-- How many values are in use. -/
def inUse (s : State H) : Nat := s.pool.stats.chunksInUse

/-- The state with another count of values in use. -/
def withInUse (s : State H) (count : Nat) : State H :=
  { s with pool := { s.pool with stats := { s.pool.stats with chunksInUse := count } } }

/-- The state with a pool that holds nothing and only counts, within given limits. -/
def counting (s : State H) (limits : PoolLimits) : State H :=
  { s with pool := { limits := limits, stats := { chunksInUse := s.inUse } } }

end State

/-- The failure of a pool with given limits that is full. -/
def PoolLimits.exhausted (limits : PoolLimits) : Error :=
  .poolExhausted limits.maxBlocks limits.chunksPerBlock

/-- Evaluates operands after some values are in use already: each value goes to the end of a plain list and is
counted, and whatever the outcome, all of them are counted off at the end. -/
def countFrom (reduce : Reducer H) (values : List (Value H)) : List (Value H) → Eval H (List (Value H))
  | [] => fun s => (.ok values, s.withInUse (s.inUse - values.length))
  | operand :: rest => fun s =>
    match evalWith reduce operand s with
    | (.error e, t) => (.error e, t.withInUse (t.inUse - values.length))
    | (.ok value, t) =>
      if t.inUse < t.pool.limits.capacity then
        countFrom reduce (values ++ [value]) rest (t.withInUse (t.inUse + 1))
      else (.error t.pool.exhausted, t.withInUse (t.inUse - values.length))

/-- Evaluates operands behind an evaluated head into a plain list, with a count of the values in use. -/
def countOperands : Gatherer H := fun reduce head operands s =>
  if s.inUse < s.pool.limits.capacity then countFrom reduce [head] operands (s.withInUse (s.inUse + 1))
  else (.error s.pool.exhausted, s)

/-- A state with a valid pool, and the same state with a count in its place. The counters of the pool cannot be seen. -/
structure Counts (limits limits' : PoolLimits) (s t : State H) : Prop where
  avoids : s.env.Avoids .poolStats
  valid : s.pool.Valid
  within : s.pool.limits = limits
  same : t = s.counting limits'

/-- Compares an evaluation that uses a pool with one that only counts. The second may have larger limits: then
nothing is compared once the first is out of chunks. -/
def counted (H : Type) (limits limits' : PoolLimits) : Likeness H Unit where
  states _ := Counts limits limits'
  part part := ¬ part.Runs .poolStats
  result _ := True
  failures e e' := e = e' ∨ limits.capacity = limits'.capacity ∧ e = limits.exhausted ∧ e' = limits'.exhausted
  cut e _ := limits.capacity < limits'.capacity ∧ e = limits.exhausted
  failures_refl _ := .inl rfl
  failures_fatal := by
    rintro e e' (same | ⟨-, rfl, rfl⟩)
    · exact .inl same
    · exact .inr ⟨rfl, rfl⟩
  cut_fatal := by
    rintro e _ ⟨-, rfl⟩
    rfl
  cut_unwinds off _ := off

variable {limits limits' : PoolLimits}

/-- A step that neither looks at the pool nor changes it. -/
theorem counted_alike {α : Type} {holds : α → Prop} {x : Eval H α}
    (step : ∀ s : State H, s.env.Avoids .poolStats → (x s).2.env.Avoids .poolStats ∧ (x s).2.pool = s.pool ∧
      (∀ pool, x { s with pool := pool } = ((x s).1, { (x s).2 with pool := pool })) ∧
      ∀ a, (x s).1 = .ok a → holds a) : (counted H limits limits').Alike holds x x := by
  -- Such a step does the same with any pool and leaves it as it is.
  rintro - s t ⟨avoids, valid, within, rfl⟩
  obtain ⟨avoided, unchanged, other, results⟩ := step s avoids
  have moved : x (s.counting limits') = _ := other _
  rw [moved]
  generalize x s = r at avoided unchanged results ⊢
  obtain ⟨outcome, final⟩ := r
  simp only at avoided unchanged results
  -- The count is the one of the pool, which is the same as before.
  have counts : (counted H limits limits').states () final
      { final with pool := { limits := limits', stats := { chunksInUse := s.inUse } } } :=
    ⟨avoided, unchanged ▸ valid, unchanged ▸ within, by simp [State.counting, State.inUse, unchanged]⟩
  cases outcome with
  | ok a => exact .ok (results a rfl) counts
  | error e => exact .error ((counted H limits limits').failures_refl e) counts

/-- Without host operations the single steps of a machine do not look at the pool. -/
theorem counted_keptBy (m : Machine Empty) : (counted Empty limits limits').KeptBy m m where
  plain _ plain := plain.not_runs .poolStats
  normal _ _ := trivial
  lambda _ _ _ := id
  skip _ _ _ _ _ := id
  bound _ _ _ _ _ _ _ _ _ := id
  folder := rfl
  nesting := rfl
  program _ _ found := program_everywhere (fun _ plain => plain.not_runs .poolStats) (fun _ => id) found
  lookup name _ := counted_alike fun s avoids =>
    ⟨avoids, rfl, fun _ => rfl, fun value found => ⟨trivial, avoids.get? (Environment.lookup_eq_ok.mp found)⟩⟩
  blocked _ _ _ s t _ counts := by
    rw [counts.same]
    rfl
  bind mode name value _ evaluated := counted_alike fun s avoids => by
    simp only [Eval.changeEnv]
    cases bound : mode.bind s.env name value with
    | ok env => exact ⟨avoids.bind evaluated.2 bound, rfl, fun _ => by simp, fun _ _ => trivial⟩
    | error e => exact ⟨avoids, rfl, fun _ => by simp, fun _ _ => trivial⟩
  remove _ name _ s t _ _ _ counts := by
    obtain ⟨avoids, valid, within, rfl⟩ := counts
    exact ⟨avoids.remove name, valid, within, rfl⟩
  -- The one operation that would show the counters occurs nowhere.
  stats _ _ _ _ runs avoids _ := absurd runs avoids
  print line := counted_alike fun s avoids => ⟨avoids, rfl, fun _ => rfl, fun _ _ => trivial⟩
  limit := .inl rfl
  descend _ s t counts := by
    obtain ⟨avoids, valid, within, rfl⟩ := counts
    refine ⟨.inr, id, (), ⟨avoids, valid, within, rfl⟩, ?_⟩
    rintro s' t' ⟨avoids, valid, within, rfl⟩
    exact ⟨avoids, valid, within, rfl⟩
  enter _ scope _ s t _ bindings counts := by
    obtain ⟨avoids, valid, within, rfl⟩ := counts
    refine ⟨(), ⟨avoids.enter bindings, valid, within, rfl⟩, ?_⟩
    rintro s' t' ⟨avoids, valid, within, rfl⟩
    exact ⟨avoids.leave, valid, within, rfl⟩
  hosts op := nomatch op

namespace Counts

variable {s t : State H} {base : Pool (Value H)} {held : List (Handle × Value H)}

/-- Releasing what is held counts it off. -/
theorem freed (counts : Counts limits limits' s t) (holds : base.Holds s.pool held) :
    Counts limits limits' (s.freed (held.map (·.1))) (t.withInUse (t.inUse - (held.map (·.2)).length)) := by
  -- The handles that are released are those of the values, so as many chunks get free as values are counted off.
  obtain ⟨avoids, valid, within, rfl⟩ := counts
  have released := holds.releaseAll.2
  refine ⟨avoids, valid.releaseAll _, ?_, ?_⟩
  · rw [← within]
    exact released.limits.trans holds.limits.symm
  · -- Both counts are what they were before the first of the values.
    have before := released.inUse
    have during := holds.inUse
    simp only [List.length_nil, Nat.add_zero] at before
    simp only [State.counting, State.withInUse, State.inUse, State.freed, before, during, List.length_map,
      Nat.add_sub_cancel]

/-- Storing a value counts it. -/
theorem stored (counts : Counts limits limits' s t) {value : Value H} {handle : Handle} {pool : Pool (Value H)}
    (done : s.pool.acquire value = .ok (handle, pool)) :
    Counts limits limits' { s with pool := pool } (t.withInUse (t.inUse + 1)) := by
  -- One chunk more is in use, wherever it is.
  obtain ⟨avoids, valid, within, rfl⟩ := counts
  have stores := Pool.stores_of_acquire done
  refine ⟨avoids, valid.acquire done, stores.limits.trans within, ?_⟩
  simp [State.counting, State.withInUse, State.inUse, stores.inUse]

/-- Both evaluations have room for a value, or the one with the pool fails: then the other fails too, or nothing is
compared any more. -/
theorem room (counts : Counts limits limits' s t) (larger : limits.capacity ≤ limits'.capacity) (value : Value H) :
    (∃ handle pool, s.pool.acquire value = .ok (handle, pool) ∧ t.inUse < t.pool.limits.capacity) ∨
    s.pool.acquire value = .error limits.exhausted ∧ (limits.capacity < limits'.capacity ∨
      limits.capacity = limits'.capacity ∧ ¬ t.inUse < t.pool.limits.capacity ∧
        t.pool.exhausted = limits'.exhausted) := by
  -- Whether the value fits is a matter of the count, and the second capacity is not smaller.
  obtain ⟨avoids, valid, within, rfl⟩ := counts
  rcases valid.acquire_cases value with ⟨fits, handle, pool, done, -, -⟩ | ⟨full, failed⟩
  · rw [within] at fits
    exact .inl ⟨handle, pool, done, Nat.lt_of_lt_of_le fits larger⟩
  · rw [within] at full
    refine .inr ⟨by rw [failed, Pool.exhausted, within]; rfl, ?_⟩
    rcases Nat.lt_or_eq_of_le larger with more | equal
    · exact .inl more
    · exact .inr ⟨equal, equal ▸ Nat.not_lt_of_ge (Nat.le_of_eq full.symm), rfl⟩

end Counts

/-- Further operands behind those that are held: what the pool gives back is what is in the list. -/
theorem gatherFrom_counted (m : Machine Empty) (larger : limits.capacity ≤ limits'.capacity)
    {reduce reduce' : Reducer Empty} (balanced : Reducer.Balanced reduce)
    (reducers : (counted Empty limits limits').AlikeReducers reduce reduce') (operands : List (Value Empty))
    (sound : ∀ operand ∈ operands, (counted Empty limits limits').Sound operand) {base : Pool (Value Empty)}
    {held : List (Handle × Value Empty)} (evaluated : ∀ pair ∈ held, (counted Empty limits limits').Evaluated pair.2)
    {s t : State Empty} (holds : base.Holds s.pool held) (counts : Counts limits limits' s t) :
    (counted Empty limits limits').Ends ()
      (fun values => ∀ value ∈ values, (counted Empty limits limits').Evaluated value)
      (gatherFrom reduce held operands s) (countFrom reduce' (held.map (·.2)) operands t) := by
  -- By induction on the operands, with what is held so far on one side and the list of its values on the other.
  -- Evaluating an operand is balanced, so the values held before it are still there after it.
  induction operands generalizing held s t with
  | nil => exact .ok (List.forall_mem_map.mpr evaluated) (counts.freed holds)
  | cons operand rest ih =>
    have kept := evalWith_balanced balanced operand s
    have ends := (counted_keptBy m).evalWith_alike reducers (sound operand (by simp)) () s t counts
    simp only [gatherFrom, countFrom]
    generalize evalWith reduce operand s = r at kept ends ⊢
    generalize evalWith reduce' operand t = r' at ends ⊢
    cases ends with
    | cut off => exact .cut off
    | error failed counts => exact .error failed (counts.freed (holds.trans kept.holds))
    | ok result counts =>
      next value s' t' =>
      have holds := holds.trans kept.holds
      rcases counts.room larger value with ⟨handle, pool, done, inUse⟩ | ⟨failed, more | ⟨equal, full, other⟩⟩
      · simp only [done, inUse, if_true]
        have all : ∀ pair ∈ held ++ [(handle, value)], (counted Empty limits limits').Evaluated pair.2 := by
          intro pair member
          rcases List.mem_append.mp member with earlier | last
          · exact evaluated pair earlier
          · rw [List.mem_singleton.mp last]
            exact result
        have later := ih (fun other member => sound other (by simp [member])) all
          (s := { s' with pool := pool }) (holds.snoc (Pool.stores_of_acquire done)) (counts.stored done)
        simpa only [List.map_append, List.map_cons, List.map_nil] using later
      · simp only [failed]
        exact .cut ⟨more, rfl⟩
      · simp only [failed, full, if_false, other]
        exact .error (.inr ⟨equal, rfl, rfl⟩) (counts.freed holds)

/-- Operands evaluated through a pool and operands evaluated into a list. -/
theorem gatherOperands_counted (m : Machine Empty) (larger : limits.capacity ≤ limits'.capacity) :
    (counted Empty limits limits').AlikeGatherers Reducer.Balanced gatherOperands countOperands := by
  -- The head takes the first chunk, or there is none and nothing is held.
  intro inner inner' balanced reducers head operands evaluated sound _ s t counts
  simp only [gatherOperands, countOperands]
  rcases Counts.room counts larger head with ⟨handle, pool, done, inUse⟩ | ⟨failed, more | ⟨equal, full, other⟩⟩
  · simp only [done, inUse, if_true]
    have first : ∀ pair ∈ [(handle, head)], (counted Empty limits limits').Evaluated pair.2 := by
      simpa using evaluated
    exact gatherFrom_counted m larger balanced reducers operands sound first (s := { s with pool := pool })
      (Pool.stores_of_acquire done).holds (counts.stored done)
  · simp only [failed]
    exact .cut ⟨more, rfl⟩
  · simp only [failed, full, if_false, other]
    exact .error (.inr ⟨equal, rfl, rfl⟩) counts

/-- The answer of a machine that keeps operands in a plain list and counts them. -/
def Machine.countingAnswer (m : Machine H) (request : Request H) : Eval H (Value H) :=
  m.answerWith (m.reducerVia countOperands) request

/-- A machine answers as the one that only counts, up to the point where its own pool is exhausted. -/
theorem answer_counted (m : Machine Empty) (larger : limits.capacity ≤ limits'.capacity) {request : Request Empty}
    (avoids : request.Avoids .poolStats) {s t : State Empty} (counts : Counts limits limits' s t) :
    (counted Empty limits limits').Ends () (counted Empty limits limits').Sound (m.answer request s)
      (m.countingAnswer request t) := by
  -- The reductions are alike at every level, because every level is balanced.
  have hosts := balanced_of_empty m
  have known : ∀ levels, Reducer.Balanced (m.nestedVia gatherOperands levels) := by
    intro levels
    rw [m.nestedVia_gatherOperands hosts]
    exact nestedVia_balanced m hosts levels
  have reducers : (counted Empty limits limits').AlikeReducers m.reducer (m.reducerVia countOperands) := by
    rw [← m.reducerVia_gatherOperands hosts]
    refine (counted_keptBy m).reducerVia_alike (gatherOperands_counted m larger) known ?_
    rintro - s t ⟨-, -, -, rfl⟩
    rfl
  rw [m.answer_eq]
  exact (counted_keptBy m).answerWith_alike reducers
    (Likeness.soundRequest_of_avoids rfl avoids fun _ => trivial) () s t counts

end QuoteLisp
