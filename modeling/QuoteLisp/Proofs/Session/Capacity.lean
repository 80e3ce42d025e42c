import QuoteLisp.Proofs.Eval.Counting

/-! Nothing can be seen of the pool but its capacity. -/

namespace QuoteLisp

variable {H : Type}

/-- Two states that agree in everything but their pools. -/
structure State.SameButPool (s t : State H) : Prop where
  env : t.env = s.env
  output : t.output = s.output
  depth : t.depth = s.depth

/-- Two outcomes that are the same, or both the failure of a full pool with its own limits. -/
def SameOutcome {α : Type} (pool pool' : Pool (Value H)) (r r' : Except Error α) : Prop :=
  r' = r ∨ r = .error pool.exhausted ∧ r' = .error pool'.exhausted

/-- States with the same count agree in everything but their pools. -/
theorem State.SameButPool.of_counting {s t : State H} {limits : PoolLimits}
    (same : t.counting limits = s.counting limits) : s.SameButPool t := by
  -- Forgetting the pool keeps everything else.
  simp only [counting, State.mk.injEq] at same
  exact ⟨same.1, same.2.2.2, same.2.2.1⟩

/-- Counting is all that a machine's pool does: forgetting what the pool holds before a request is the same as
forgetting it after. -/
theorem answer_counting (m : Machine Empty) {request : Request Empty} (avoids : request.Avoids .poolStats)
    {s : State Empty} (hidden : s.env.Avoids .poolStats) (valid : s.pool.Valid) :
    m.countingAnswer request (s.counting s.pool.limits) =
        ((m.answer request s).1, (m.answer request s).2.counting s.pool.limits) ∧
      (m.answer request s).2.pool.Valid := by
  -- With the same limits on both sides nothing is ever cut off.
  have ends := answer_counted m (Nat.le_refl _) avoids ⟨hidden, valid, rfl, rfl⟩
  generalize m.answer request s = r at ends ⊢
  generalize m.countingAnswer request (s.counting s.pool.limits) = r' at ends ⊢
  cases ends with
  | ok _ counts => exact ⟨by rw [counts.same], counts.valid⟩
  | error failed counts =>
    -- The limits are the same ones, so the failures are too.
    rcases failed with rfl | ⟨-, rfl, rfl⟩
    · exact ⟨by rw [counts.same], counts.valid⟩
    · exact ⟨by rw [counts.same], counts.valid⟩
  | cut off => exact absurd off.1 (Nat.lt_irrefl _)

/-- With a pool of at least the same capacity a request ends in the same way, unless the smaller pool is exhausted. -/
theorem answer_of_capacity_le (m : Machine Empty) {request : Request Empty} (avoids : request.Avoids .poolStats)
    {s : State Empty} (hidden : s.env.Avoids .poolStats) (valid : s.pool.Valid) {pool : Pool (Value Empty)}
    (validOther : pool.Valid) (inUse : pool.stats.chunksInUse = s.pool.stats.chunksInUse)
    (larger : s.pool.limits.capacity ≤ pool.limits.capacity) :
    (m.answer request s).1 = .error s.pool.exhausted ∧ s.pool.limits.capacity < pool.limits.capacity ∨
      SameOutcome s.pool pool (m.answer request s).1 (m.answer request { s with pool := pool }).1 ∧
        (m.answer request s).2.SameButPool (m.answer request { s with pool := pool }).2 := by
  -- The second pool is compared with the count that the first is compared with as well.
  have start : s.counting pool.limits = ({ s with pool := pool } : State Empty).counting pool.limits := by
    simp [State.counting, State.inUse, inUse]
  have ends := answer_counted m larger avoids ⟨hidden, valid, rfl, start.symm⟩
  have other := (answer_counting m avoids (s := { s with pool := pool }) hidden validOther).1
  rw [other] at ends
  generalize m.answer request s = r at ends ⊢
  generalize m.answer request { s with pool := pool } = r' at ends ⊢
  obtain ⟨outcome, t⟩ := r'
  cases ends with
  | ok _ counts => exact .inr ⟨.inl rfl, .of_counting counts.same⟩
  | error failed counts =>
    refine .inr ⟨?_, .of_counting counts.same⟩
    rcases failed with rfl | ⟨-, rfl, rfl⟩
    · exact .inl rfl
    · exact .inr ⟨rfl, rfl⟩
  | cut off =>
    obtain ⟨more, rfl⟩ := off
    exact .inl ⟨rfl, more⟩

/-- Nothing can be seen of the pool but its capacity, as long as the operation that shows its counters occurs nowhere.
A request does what it does with a plain list and a count of the values in use; pools of one capacity give the same
outcome, environment and output, and so do larger pools unless the smaller one is exhausted. What a call is handed is
always the evaluated head with the values of the operands behind it in order. -/
theorem pool_seen_by_capacity_alone (m : Machine Empty) (request : Request Empty) (s : State Empty)
    (avoids : request.Avoids .poolStats) (hidden : s.env.Avoids .poolStats) (valid : s.pool.Valid) :
    (m.countingAnswer request (s.counting s.pool.limits) =
        ((m.answer request s).1, (m.answer request s).2.counting s.pool.limits) ∧
      (m.answer request s).2.pool.Valid) ∧
    (∀ pool : Pool (Value Empty), pool.Valid → pool.stats.chunksInUse = s.pool.stats.chunksInUse →
      (s.pool.limits.capacity = pool.limits.capacity →
        SameOutcome s.pool pool (m.answer request s).1 (m.answer request { s with pool := pool }).1 ∧
          (m.answer request s).2.SameButPool (m.answer request { s with pool := pool }).2) ∧
      (s.pool.limits.capacity ≤ pool.limits.capacity → (m.answer request s).1 ≠ .error s.pool.exhausted →
        (m.answer request { s with pool := pool }).1 = (m.answer request s).1 ∧
          (m.answer request s).2.SameButPool (m.answer request { s with pool := pool }).2)) ∧
    ∀ (levels : Nat) (head : Value Empty) (operands values : List (Value Empty)) (t u : State Empty),
      evalOperands (m.nested (fun _ _ => Eval.fail (.depthExceeded m.maxDepth)) levels) head operands t =
          (.ok values, u) →
        ∃ handle pool results, t.pool.acquire head = .ok (handle, pool) ∧
          EvaluatedInOrder (m.nested (fun _ _ => Eval.fail (.depthExceeded m.maxDepth)) levels)
            { t with pool := pool } operands results ∧ values = head :: results := by
  -- Both comparisons of pools are the one with a pool at least as large.
  refine ⟨answer_counting m avoids hidden valid, fun pool validOther inUse => ⟨fun equal => ?_, fun larger ends => ?_⟩,
    fun levels head operands values t u done => ?_⟩
  · rcases answer_of_capacity_le m avoids hidden valid validOther inUse (Nat.le_of_eq equal) with ⟨-, more⟩ | same
    · exact absurd more (by omega)
    · exact same
  · rcases answer_of_capacity_le m avoids hidden valid validOther inUse larger with ⟨failed, -⟩ | ⟨same, agree⟩
    · exact absurd failed ends
    · exact ⟨same.resolve_right fun exhausted => ends exhausted.1, agree⟩
  · rw [← m.nestedVia_evalOperands] at done ⊢
    exact evalOperands_in_order (nestedVia_balanced m (balanced_of_empty m) levels) done

/-- Nested calls that need four chunks, from two blocks of two and from five blocks of one. -/
theorem pool_seen_by_capacity_alone_nested :
    let m := Machine.plain 2 {}
    let s : State Empty := { pool := { limits := ⟨2, 2⟩ } }
    let pool : Pool (Value Empty) := { limits := ⟨1, 5⟩ }
    let list : Value Empty := Primitive.list.value
    let request := Request.tryEval (.sexpr [list, .integer 1, .sexpr [list, .integer 2]])
    (m.answer request s).1 = .ok (.qexpr [.integer 1, .qexpr [.integer 2]]) ∧
      (m.answer request { s with pool := pool }).1 = .ok (.qexpr [.integer 1, .qexpr [.integer 2]]) := by
  intro m s pool list request
  have first : (m.answer request s).1 = .ok (.qexpr [.integer 1, .qexpr [.integer 2]]) := by rfl
  have operation : list.Avoids .poolStats := Primitive.value_avoids (by decide)
  have number : ∀ n, (Value.integer n : Value Empty).Avoids .poolStats := fun n => Value.everywhere_of_leaf rfl id
  have avoids : request.Avoids .poolStats := by
    have inner : (Value.sexpr [list, .integer 2]).Avoids .poolStats :=
      Value.everywhere_iff.mpr ⟨id, by simpa [Value.children] using ⟨operation, number 2⟩⟩
    have outer : (Value.sexpr [list, .integer 1, .sexpr [list, .integer 2]]).Avoids .poolStats :=
      Value.everywhere_iff.mpr ⟨id, by simpa [Value.children] using ⟨operation, number 1, inner⟩⟩
    simpa [request, Request.Avoids, Request.values] using outer
  have hidden : s.env.Avoids .poolStats := by
    intro scope member
    obtain rfl := List.mem_singleton.mp member
    simp [Scope.Everywhere, s]
  -- Both pools are new, and the second has room for one item more.
  have alone := pool_seen_by_capacity_alone m request s avoids hidden (Pool.valid_of_no_blocks rfl rfl)
  have larger := (alone.2.1 pool (Pool.valid_of_no_blocks rfl rfl) rfl).2 (by decide) (by simp [first])
  exact ⟨first, larger.1.trans first⟩

end QuoteLisp
