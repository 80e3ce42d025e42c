import QuoteLisp.Proofs.Session.Invariant

/-! The levels of a reduction: more of them than the limit leaves change nothing, so reduction is one step that reduces
by itself below. -/

namespace QuoteLisp

variable {H ι : Type}

/-- Compares an evaluation with itself where something is known of the depth and nothing else. -/
abbrev depthOnly (holds : ι → Nat → Prop) : Likeness H ι :=
  .ofInvariant (fun i s => holds i s.depth) (fun _ => True) (fun _ => True)

section DepthOnly

variable {holds : ι → Nat → Prop}

/-- Nothing is asked of values. -/
theorem depthOnly_evaluated (holds : ι → Nat → Prop) (value : Value H) : (depthOnly holds).Evaluated value :=
  ⟨trivial, fun _ _ => trivial⟩

/-- A host operation changes the depth only by what it asks for. -/
theorem depthOnly_hosts (program : HostProgram H) {evaluate evaluate' : Value H → Eval H (Value H)}
    {apply apply' : Value H → List (Value H) → Eval H (Value H)}
    (evaluates : ∀ expr, (depthOnly holds).Alike (depthOnly holds).Sound (evaluate expr) (evaluate' expr))
    (applies : ∀ callee args,
      (depthOnly holds).Alike (depthOnly holds).Evaluated (apply callee args) (apply' callee args)) :
    (depthOnly holds).Alike (depthOnly holds).Returned (program.run evaluate apply) (program.run evaluate' apply') := by
  -- What follows a request depends on its outcome, which is the same in both.
  induction program with
  | done result => exact Likeness.alike_ofExcept fun value _ => ⟨(depthOnly_evaluated holds value).2, fun _ => trivial⟩
  | eval expr next ih =>
    exact (Likeness.ofInvariant_outcome (evaluates expr)).bind fun outcome _ => ih outcome
  | call callee args next ih =>
    exact (Likeness.ofInvariant_outcome (applies callee args)).bind fun outcome _ => ih outcome
  | look next ih =>
    rintro i s _ ⟨rfl, start⟩
    exact ih s.env i s s ⟨rfl, start⟩
  | replace env next ih =>
    rintro i s _ ⟨rfl, start⟩
    exact ih i { s with env := env } { s with env := env } ⟨rfl, start⟩

/-- What depends on the depth alone is kept when going one level down and up again keeps it. -/
theorem depthOnly_keptBy (m : Machine H)
    (descend : ∀ i depth, holds i depth → ∃ j, holds j (depth + 1) ∧ ∀ depth', holds j depth' → holds i (depth' - 1)) :
    (depthOnly holds).KeptBy m m := by
  -- No step but a descent touches the depth, and nothing is asked of values.
  refine Likeness.Preserves.keptBy {
    plain := fun _ _ => trivial
    normal := fun _ _ => trivial
    lambda := fun _ _ _ => trivial
    skip := fun _ _ _ _ _ => trivial
    bound := fun _ _ _ _ _ _ _ _ _ => trivial
    program := fun _ _ _ _ _ _ _ => trivial
    lookup := fun _ _ _ _ _ _ _ => ⟨trivial, fun _ _ => trivial⟩
    bind := fun _ _ _ _ _ _ _ _ start _ => start
    remove := fun _ _ _ _ _ _ _ start => start
    print := fun _ _ _ start => start
    descend := fun i s start => ?_
    enter := fun _ _ i _ _ _ start => ⟨i, start, fun _ inside => inside⟩
    hosts := fun op args _ _ _ _ _ evaluates applies => depthOnly_hosts (m.host op args)
      (fun expr => evaluates expr (depthOnly_evaluated holds expr).2)
      (fun callee args => applies callee args (depthOnly_evaluated holds callee).2
        fun arg _ => depthOnly_evaluated holds arg) }
  obtain ⟨j, deeper, back⟩ := descend i s.depth start
  exact ⟨j, deeper, fun s' inside => back s'.depth inside⟩

/-- The pool is not looked at. -/
theorem depthOnly_poolShared (holds : ι → Nat → Prop) : (depthOnly holds : Likeness H ι).PoolShared :=
  Likeness.poolShared_ofInvariant fun _ _ _ start => start

/-- A depth counted from a floor on. -/
def DepthFrom (floor i depth : Nat) : Prop := depth = floor + i

/-- One level down is one further from the floor. -/
theorem DepthFrom.descend (floor i depth : Nat) (start : DepthFrom floor i depth) :
    ∃ j, DepthFrom floor j (depth + 1) ∧ ∀ depth', DepthFrom floor j depth' → DepthFrom floor i (depth' - 1) := by
  unfold DepthFrom at *
  exact ⟨i + 1, by omega, by omega⟩

end DepthOnly

namespace Machine

/-- Every level comes back to the depth where it started. -/
theorem nestedVia_depth (m : Machine H) (levels : Nat) (items : List (Value H)) (s : State H) :
    (m.nestedVia evalOperands levels items s).2.depth = s.depth := by
  have kept : (depthOnly (DepthFrom s.depth)).KeptBy m m := depthOnly_keptBy m (DepthFrom.descend s.depth)
  have evaluated := depthOnly_evaluated (H := H) (DepthFrom s.depth)
  have gatherers := Likeness.evalOperands_alike (depthOnly_poolShared (DepthFrom s.depth)) kept evaluated
  have alike := kept.nestedVia_alike gatherers (fun _ => trivial) levels items fun item _ => (evaluated item).2
  -- The depth is counted from the one at the start, so it is as far from there as it was.
  have start : DepthFrom s.depth 0 s.depth := rfl
  exact (Likeness.ofInvariant_ends alike start).2.1

/-- Reducers that agree from some depth on, and come back to the depth where they started, give reductions that agree
from that depth on. -/
theorem reduce_congr (m : Machine H) {floor : Nat} {inner inner' : Reducer H}
    (agree : ∀ items s, floor ≤ s.depth → inner items s = inner' items s)
    (back : ∀ items s, (inner items s).2.depth = s.depth) (first : Value H) (operands : List (Value H))
    {s : State H} (deep : floor ≤ s.depth) :
    m.reduce inner first operands s = m.reduce inner' first operands s := by
  -- The depth is counted from the floor on, so every state of the reduction is one where the reducers agree.
  have kept : (depthOnly (DepthFrom floor)).KeptBy m m := depthOnly_keptBy m (DepthFrom.descend floor)
  have evaluated := depthOnly_evaluated (H := H) (DepthFrom floor)
  have reducers : (depthOnly (DepthFrom floor)).AlikeReducers inner inner' := by
    rintro items - i s _ ⟨rfl, start⟩
    have alike : (depthOnly (DepthFrom floor)).Alike _ (inner items) (inner items) :=
      Likeness.ofInvariant_alike fun i s start => ⟨(back items s).trans start, fun value _ => evaluated value⟩
    have ends := alike i s s ⟨rfl, start⟩
    have deep : floor ≤ s.depth := Nat.le.intro start.symm
    rwa [agree items s deep] at ends ⊢
  have gatherers := Likeness.evalOperands_alike (depthOnly_poolShared (DepthFrom floor)) kept evaluated
  have operandsSound : ∀ operand ∈ operands, (depthOnly (DepthFrom floor)).Sound operand :=
    fun operand _ => (evaluated operand).2
  have alike := kept.reduceVia_alike gatherers trivial reducers (evaluated first).2 operandsSound
  have start : DepthFrom floor (s.depth - floor) s.depth := by
    unfold DepthFrom
    omega
  exact (Likeness.ofInvariant_ends alike start).1

/-- Going one level deeper only uses what is below where the limit allows it. -/
theorem descend_congr (m : Machine H) {inner inner' : Value H → List (Value H) → Eval H (Value H)}
    {s : State H} (agree : s.depth < m.maxDepth → ∀ first operands,
      inner first operands { s with depth := s.depth + 1 } = inner' first operands { s with depth := s.depth + 1 })
    (items : List (Value H)) : m.descend inner items s = m.descend inner' items s := by
  -- At the limit both fail before anything is reduced.
  cases items with
  | nil => rfl
  | cons first operands =>
    simp only [descend, Eval.bind_apply, Eval.read]
    by_cases limit : m.maxDepth ≤ s.depth
    · rw [if_pos limit, if_pos limit]
    · rw [if_neg limit, if_neg limit, Eval.deeper_apply, Eval.deeper_apply, agree (by omega) first operands]

/-- As many levels as the limit leaves are enough: with more of them a reduction is the same. -/
theorem nestedVia_of_enough (m : Machine H) {levels : Nat} {s : State H}
    (enough : m.maxDepth - s.depth ≤ levels) (items : List (Value H)) :
    m.nestedVia evalOperands levels items s = m.reducer items s := by
  rw [← m.reducerVia_evalOperands, reducerVia]
  -- By induction on the levels, since the levels below are compared at all greater depths.
  induction levels using Nat.strongRecOn generalizing s items with
  | ind levels ih =>
    generalize left : m.maxDepth - s.depth = needed at enough
    rcases Nat.eq_or_lt_of_le enough with rfl | fewer
    · rfl
    · obtain ⟨lower, rfl⟩ : ∃ lower, levels = lower + 1 := ⟨levels - 1, by omega⟩
      cases needed with
      | zero => exact m.descend_congr (fun below => by omega) items
      | succ needed =>
        have agree : ∀ items (t : State H), s.depth + 1 ≤ t.depth →
            m.nestedVia evalOperands lower items t = m.nestedVia evalOperands needed items t := by
          intro items t deep
          rw [ih lower (by omega) (by omega), ih needed (by omega) (by omega)]
        exact m.descend_congr (fun _ first operands =>
          m.reduce_congr agree (m.nestedVia_depth lower) first operands (Nat.le_refl _)) items

/-- Reduction is one level of reduction, with reduction itself below. -/
theorem reducer_eq (m : Machine H) : m.reducer = m.descend (m.reduce m.reducer) := by
  -- The levels are those that the limit leaves, and one of them is taken off.
  funext items s
  rw [← m.nestedVia_of_enough (Nat.le_refl (m.maxDepth - s.depth)) items]
  generalize left : m.maxDepth - s.depth = levels
  cases levels with
  | zero => exact m.descend_congr (fun below => by omega) items
  | succ levels =>
    -- Below, there is one level less, and that is what the limit leaves there.
    refine m.descend_congr (fun _ first operands => ?_) items
    exact m.reduce_congr (fun items t deep => m.nestedVia_of_enough (by omega) items) (m.nestedVia_depth levels) first
      operands (Nat.le_refl (s.depth + 1))

/-- Below the limit an S-expression is reduced one level deeper. -/
theorem reducer_of_below (m : Machine H) {s : State H} (below : s.depth < m.maxDepth) (first : Value H)
    (operands : List (Value H)) :
    m.reducer (first :: operands) s = Eval.deeper (m.reduce m.reducer first operands) s := by
  have room : ¬ m.maxDepth ≤ s.depth := by omega
  -- The reducer below stays as it is, so only the left side is opened.
  have opened := congrFun (congrFun m.reducer_eq (first :: operands)) s
  rw [opened]
  simp only [descend, Eval.read, Eval.bind_apply, if_neg room]

end Machine

end QuoteLisp
