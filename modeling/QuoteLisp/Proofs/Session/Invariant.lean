import QuoteLisp.Proofs.Eval.Balance

/-! What single steps preserve, whole requests and whole sessions preserve. -/

namespace QuoteLisp

variable {H ι : Type}

namespace Machine

/-- At every level, the values that go through the pool come out as they went in. -/
theorem nestedVia_gatherOperands (m : Machine H) (hosts : ∀ op args, (m.host op args).Balanced) (levels : Nat) :
    m.nestedVia gatherOperands levels = m.nestedVia evalOperands levels := by
  -- By induction on the levels, since each level gathers with the reduction below it.
  induction levels with
  | zero => rfl
  | succ levels ih =>
    simp only [nestedVia, ih]
    congr 1
    funext first operands
    -- Only the gathering of operands differs, and it is given a balanced reduction.
    have gathered := fun head => evalOperands_eq (nestedVia_balanced m hosts levels) head operands
    simp only [reduceVia, gathered]

/-- The reduction of a machine, with the values of operands kept beside their handles. -/
theorem reducerVia_gatherOperands (m : Machine H) (hosts : ∀ op args, (m.host op args).Balanced) :
    m.reducerVia gatherOperands = m.reducer := by
  -- The number of levels is the same on both sides.
  rw [← m.reducerVia_evalOperands]
  funext items s
  simp only [reducerVia, m.nestedVia_gatherOperands hosts]

/-- What every request of a session keeps, the session keeps. -/
theorem after_keeps {m : Machine H} (invariant : State H → Prop) {requests : List (Request H)}
    (step : ∀ request ∈ requests, ∀ s, invariant s → invariant (m.answer request s).2) {s : State H}
    (start : invariant s) : invariant (m.after s requests) := by
  -- Each request starts in the state that the ones before it leave.
  induction requests generalizing s with
  | nil => exact start
  | cons request rest ih =>
    exact ih (fun other member => step other (by simp [member])) (step request (by simp) s start)

end Machine

/-- The values that a request brings along. -/
def Request.values : Request H → List (Value H)
  | .tryEval expr => [expr]
  | .eval expr => [expr]
  | .call callee args => callee :: args
  | .evalText _ => []
  | .load _ => []

/-- No operation that runs the primitive occurs in what a request brings along. -/
def Request.Avoids (p : Primitive) (request : Request H) : Prop :=
  ∀ value ∈ request.values, value.Avoids p

/-- A machine without host operations has only balanced ones. -/
theorem balanced_of_empty (m : Machine Empty) : ∀ op args, (m.host op args).Balanced :=
  fun op => nomatch op

/-- A primitive's own value holds no other primitive. -/
theorem Primitive.value_avoids {p q : Primitive} (other : p ≠ q) : (p.value : Value H).Avoids q := by
  unfold Primitive.value
  -- An operation has nothing inside it.
  split
  · exact Value.everywhere_of_leaf rfl fun runs => other (by simpa [Value.Runs, Primitive.operation] using runs)
  · exact Value.everywhere_of_leaf rfl fun runs => other (by simpa [Value.Runs, Primitive.operation] using runs)

namespace Likeness

/-- A request that brings no operation for a primitive is sound, since no text stands for one either. -/
theorem soundRequest_of_avoids {c : Likeness H ι} {p : Primitive} (parts : c.part = fun part => ¬ part.Runs p)
    {request : Request H} (avoids : request.Avoids p) (results : ∀ value, c.result value) : c.SoundRequest request := by
  -- Values are sound as given, and text is read as names and data only.
  have sound : ∀ value ∈ request.values, c.Sound value := by
    simp only [Sound, parts]
    exact avoids
  cases request with
  | tryEval expr => exact sound expr (by simp [Request.values])
  | eval expr => exact sound expr (by simp [Request.values])
  | call callee args =>
    exact ⟨sound callee (by simp [Request.values]),
      fun arg member => ⟨results arg, sound arg (by simp [Request.values, member])⟩⟩
  | evalText source =>
    intro expr found
    simp only [Sound, parts]
    exact readSource_everywhere (fun _ plain => plain.not_runs p) (fun _ => id) found
  | load path => trivial

variable {invariant : ι → State H → Prop} {part result : Value H → Prop} {m : Machine H}

/-- Compared with itself, an evaluation has one pool only. -/
theorem poolShared_ofInvariant (pools : ∀ i s pool, invariant i s → invariant i { s with pool := pool }) :
    (ofInvariant invariant part result).PoolShared := by
  refine ⟨?_, ?_⟩
  · rintro i s _ ⟨rfl, -⟩
    rfl
  · rintro i s _ pool ⟨rfl, start⟩
    exact ⟨rfl, pools i s pool start⟩

/-- Reduction keeps what single steps keep, as far as that does not depend on the pool. -/
theorem Preserves.reducer_alike (preserves : Preserves invariant part result m)
    (hosts : ∀ op args, (m.host op args).Balanced)
    (pools : ∀ i s pool, invariant i s → invariant i { s with pool := pool }) :
    (ofInvariant invariant part result).AlikeReducers m.reducer m.reducer := by
  -- The values gathered for a call are kept beside the pool, so what the pool holds never becomes a value.
  rw [← m.reducerVia_gatherOperands hosts]
  exact preserves.keptBy.reducerVia_alike (gatherOperands_alike (poolShared_ofInvariant pools) preserves.keptBy)
    (fun _ => trivial) fun _ _ _ alike => by rw [alike.1]

/-- A request keeps what its steps keep, as far as that does not depend on the pool. -/
theorem Preserves.answer (preserves : Preserves invariant part result m)
    (hosts : ∀ op args, (m.host op args).Balanced)
    (pools : ∀ i s pool, invariant i s → invariant i { s with pool := pool })
    {request : Request H} (sound : (ofInvariant invariant part result).SoundRequest request) {i : ι} {s : State H}
    (start : invariant i s) :
    invariant i (m.answer request s).2 ∧ ∀ value, (m.answer request s).1 = .ok value → value.Everywhere part := by
  rw [m.answer_eq]
  exact (ofInvariant_ends (preserves.keptBy.answerWith_alike (preserves.reducer_alike hosts pools) sound) start).2

end Likeness

end QuoteLisp
