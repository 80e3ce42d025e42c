import QuoteLisp.Proofs.Eval.Interruption

/-! Evaluation that stops in the place of a call of a given operation. Where that operation is not called it is evaluation
as it is, and where it comes to an end with a result nothing has stopped it. -/

namespace QuoteLisp

variable {H ι : Type}

instance Value.decidableRuns [DecidableEq H] (p : Primitive) : (value : Value H) → Decidable (value.Runs p)
  | builtin op => inferInstanceAs (Decidable (op.action = .primitive p))
  | special op => inferInstanceAs (Decidable (op.action = .primitive p))
  | integer _ | real _ | error _ | symbol _ | string _ | sexpr _ | qexpr _ | closure .. | quit _ | ok | empty => .isFalse id

/-- Gathers head and operands, and then stops if the head is an operation that runs the primitive. -/
def haltingAt [DecidableEq H] (p : Primitive) (stop : Error) (gather : Gatherer H) : Gatherer H :=
  fun reduce head operands => do
    let values ← gather reduce head operands
    -- The next thing would be the call.
    if head.Runs p then Eval.fail stop else pure values

namespace Machine

variable [DecidableEq H]

/-- Reduction that stops in the place of each call of an operation that gets its operands evaluated. -/
def reducerHalting (m : Machine H) (p : Primitive) (stop : Error) : Reducer H :=
  m.reducerVia (haltingAt p stop evalOperands)

/-- An evaluation does not call a primitive: it is the same with any fatal failure, which nothing catches, in the place of
such a call. -/
def NeverCalls {α : Type} (m : Machine H) (p : Primitive) (x : Reducer H → Eval H α) (s : State H) : Prop :=
  ∀ stop : Error, stop.isFatal → x (m.reducerHalting p stop) s = x m.reducer s

end Machine

/-- Two ways to gather stay alike when the first one may stop behind it and nothing is compared after that; and where it
does not stop, the head is no such operation. -/
theorem haltingAt_alike [DecidableEq H] {c : Likeness H ι} {p : Primitive} {stop : Error} (off : ∀ s, c.cut stop s)
    {holds : List (Value H) → Prop} {gather : Gatherer H} {reduce : Reducer H} {head : Value H}
    {operands : List (Value H)} {y : Eval H (List (Value H))}
    (alike : c.Alike holds (gather reduce head operands) y) :
    c.Alike (fun values => holds values ∧ ¬ head.Runs p) (haltingAt p stop gather reduce head operands) y := by
  -- Both gather first; only then does the first one look at its head.
  intro i s t start
  have ends := alike i s t start
  simp only [haltingAt, Eval.bind_apply]
  generalize gather reduce head operands s = r at ends ⊢
  generalize y t = r' at ends ⊢
  cases ends with
  | error failed alike => exact .error failed alike
  | cut cutOff => exact .cut cutOff
  | @ok values s' t' gathered alike =>
    show c.Ends i _ ((if head.Runs p then Eval.fail stop else pure values : Eval H (List (Value H))) s') _
    by_cases runs : head.Runs p
    · rw [if_pos runs]
      exact .cut (off s')
    · rw [if_neg runs]
      exact .ok ⟨gathered, runs⟩ alike

/-- A reducer that only stops. -/
def stopping (stop : Error) : Reducer H := fun _ => Eval.fail stop

variable (m : Machine Empty) (p : Primitive) {stop : Error}

/-- Reduction that may stop is balanced, with however many levels. -/
theorem nestedVia_halting_balanced (stop : Error) (levels : Nat) :
    Reducer.Balanced (m.nestedVia (haltingAt p stop evalOperands) levels) := by
  have preserves := balance_preserves m (balanced_of_empty m)
  have gatherers : (balance Empty).AlikeGatherers (fun _ => True) (haltingAt p stop evalOperands)
      (haltingAt p stop evalOperands) := by
    intro inner inner' known reducers head operands evaluated sound
    refine (balance_gatherers inner inner' known reducers head operands evaluated sound).bind fun values gathered => ?_
    -- All chunks are free again when it stops.
    split
    · exact Likeness.alike_fail stop
    · exact Likeness.alike_pure gathered
  intro items
  exact (balanced_of_alike (preserves.keptBy.nestedVia_alike gatherers (fun _ => trivial) levels items
    fun item _ => balance_sound item)).2

/-- Nothing is compared after the failure in the place of a call. -/
theorem cut_of_stopping (fatal : stop.isFatal) (s : State Empty) : (interruptible (stopping stop)).cut stop s :=
  ⟨fatal, [], s, s, rfl, .refl⟩

/-- Where a program that may be stopped gives a result, it gives the same with another way to gather, if both ways are
alike up to where it stops. -/
theorem runProgram_of_gatherers {gather : Gatherer Empty}
    (gatherers : (interruptible (stopping stop)).AlikeGatherers (fun _ => True) (haltingAt p stop evalOperands) gather)
    {exprs : List (Value Empty)} {s t : State Empty} {value : Value Empty}
    (done : runProgram (m.reducerHalting p stop) exprs s = (.ok value, t)) :
    runProgram (m.reducerVia gather) exprs s = (.ok value, t) := by
  have kept : (interruptible (stopping stop)).KeptBy m m := interruptible_keptBy m
  have reducers : (interruptible (stopping stop)).AlikeReducers (m.reducerHalting p stop) (m.reducerVia gather) := by
    refine kept.reducerVia_alike gatherers (fun _ => trivial) ?_
    intro _ s t same
    rw [same]
  have ends := kept.runProgram_alike reducers exprs (fun expr _ => (interruptible_evaluated _ expr).2) () s s rfl
  -- With a result in hand, the two ends are one.
  rw [done] at ends
  generalize runProgram (m.reducerVia gather) exprs s = r at ends ⊢
  cases ends with
  | ok _ same => rw [same]

/-- Where a program that may be stopped gives a result, nothing has stopped it. -/
theorem runProgram_of_halting (fatal : stop.isFatal) {exprs : List (Value Empty)} {s t : State Empty}
    {value : Value Empty} (done : runProgram (m.reducerHalting p stop) exprs s = (.ok value, t)) :
    runProgram m.reducer exprs s = (.ok value, t) := by
  have gatherers := Likeness.evalOperands_alike interruptible_poolShared (interruptible_keptBy m)
    (interruptible_evaluated (stopping stop))
  rw [← m.reducerVia_evalOperands]
  refine runProgram_of_gatherers m p ?_ done
  intro inner inner' known reducers head operands evaluated sound
  exact (haltingAt_alike (cut_of_stopping fatal) (gatherers inner inner' known reducers head operands evaluated sound)).mono
    fun _ gathered => gathered.1

/-- A single failure tells: a program that gives a result with it in the place of the calls makes no such call. -/
theorem neverCalls_of_halting (fatal : stop.isFatal) {exprs : List (Value Empty)} {s t : State Empty}
    {value : Value Empty} (done : runProgram (m.reducerHalting p stop) exprs s = (.ok value, t)) :
    m.NeverCalls p (fun reduce => runProgram reduce exprs) s := by
  intro other _
  have gatherers := Likeness.evalOperands_alike interruptible_poolShared (interruptible_keptBy m)
    (interruptible_evaluated (stopping stop))
  show runProgram (m.reducerHalting p other) exprs s = runProgram m.reducer exprs s
  rw [runProgram_of_halting m p fatal done]
  refine runProgram_of_gatherers m p ?_ done
  intro inner inner' known reducers head operands evaluated sound
  refine (gatherers inner inner' known reducers head operands evaluated sound).bind fun values gathered => ?_
  -- Both stop in the same places, and there the comparison ends.
  by_cases runs : head.Runs p
  · rw [if_pos runs, if_pos runs]
    exact fun _ s _ _ => .cut (cut_of_stopping fatal s)
  · rw [if_neg runs, if_neg runs]
    exact Likeness.alike_pure gathered

end QuoteLisp
