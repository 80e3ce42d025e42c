import QuoteLisp.Proofs.Eval.Interruption

/-! The limit on nesting only cuts off: a request that stays within it is answered as with any larger one, and only how
far the depth is from the limit matters. -/

namespace QuoteLisp

/-- The machine with another limit on nesting. -/
def Machine.withLimit {H : Type} (m : Machine H) (limit : Nat) : Machine H :=
  { m with maxDepth := limit }

/-- The state at another depth. -/
def State.atDepth {H : Type} (s : State H) (depth : Nat) : State H :=
  { s with depth := depth }

/-- A state is at its own depth already. -/
theorem State.atDepth_of_eq {H : Type} {s : State H} {depth : Nat} (same : s.depth = depth) : s.atDepth depth = s := by
  rw [atDepth, ← same]

/-- Two outcomes that are the same, or both the failure at the limit with its own number. -/
def SameAtLimits {α : Type} (limit limit' : Nat) (r r' : Except Error α) : Prop :=
  r' = r ∨ r = .error (.depthExceeded limit) ∧ r' = .error (.depthExceeded limit')

/-- Compares evaluations that start at their own depths with their own limits. The second may have more levels left:
then nothing is compared once the first has used up its own. -/
def deepened (limit depth limit' depth' : Nat) : Likeness Empty Nat where
  states i s t := s.depth = depth + i ∧ t = s.atDepth (depth' + i)
  part _ := True
  result _ := True
  failures e e' := e = e' ∨ e = .depthExceeded limit ∧ e' = .depthExceeded limit'
  cut e _ := limit - depth < limit' - depth' ∧ e = .depthExceeded limit
  failures_refl _ := .inl rfl
  failures_fatal := by
    rintro e e' (same | ⟨rfl, rfl⟩)
    · exact .inl same
    · exact .inr ⟨rfl, rfl⟩
  cut_fatal := by
    rintro e _ ⟨-, rfl⟩
    rfl
  cut_unwinds off _ := off

variable {limit depth limit' depth' : Nat}

/-- A step that neither looks at the depth nor changes it. -/
theorem deepened_alike {α : Type} {holds : α → Prop} {x : Eval Empty α} (results : ∀ a, holds a)
    (step : ∀ s : State Empty, (x s).2.depth = s.depth ∧
      ∀ depth, x (s.atDepth depth) = ((x s).1, (x s).2.atDepth depth)) :
    (deepened limit depth limit' depth').Alike holds x x := by
  -- Such a step does the same at any depth and stays there.
  rintro i s _ ⟨start, rfl⟩
  obtain ⟨stays, other⟩ := step s
  rw [other]
  have alike : (deepened limit depth limit' depth').states i (x s).2 ((x s).2.atDepth (depth' + i)) :=
    ⟨stays.trans start, rfl⟩
  generalize x s = r at alike ⊢
  obtain ⟨outcome, left⟩ := r
  cases outcome with
  | ok a => exact .ok (results a) alike
  | error e => exact .error (.inl rfl) alike

/-- Nothing is asked of values. -/
theorem deepened_evaluated (value : Value Empty) : (deepened limit depth limit' depth').Evaluated value :=
  ⟨trivial, fun _ _ => trivial⟩

/-- Without host operations only a descent looks at the depth, and it does so by the levels that are left. -/
theorem deepened_keptBy {m : Machine Empty} (more : m.maxDepth - depth ≤ limit' - depth') :
    (deepened m.maxDepth depth limit' depth').KeptBy m (m.withLimit limit') where
  plain _ _ := trivial
  normal _ _ := trivial
  lambda _ _ _ := trivial
  skip _ _ _ _ _ := trivial
  bound _ _ _ _ _ _ _ _ _ := trivial
  folder := rfl
  nesting := rfl
  program _ _ _ _ _ _ _ := trivial
  lookup _ _ := deepened_alike deepened_evaluated fun _ => ⟨rfl, fun _ => rfl⟩
  blocked _ _ _ _ _ _ alike := by
    rw [alike.2]
    rfl
  bind mode name value _ _ := deepened_alike (fun _ => trivial) fun s => by
    simp only [Eval.changeEnv, State.atDepth]
    cases mode.bind s.env name value with
    | ok env => exact ⟨rfl, fun _ => rfl⟩
    | error e => exact ⟨rfl, fun _ => rfl⟩
  remove _ _ _ s t _ _ _ alike := by
    obtain ⟨start, rfl⟩ := alike
    exact ⟨start, rfl⟩
  stats _ _ _ _ _ _ alike := by
    rw [alike.2]
    rfl
  print _ := deepened_alike (fun _ => trivial) fun _ => ⟨rfl, fun _ => rfl⟩
  limit := .inr ⟨rfl, rfl⟩
  descend i s t alike := by
    obtain ⟨start, rfl⟩ := alike
    simp only [Machine.withLimit, State.atDepth]
    refine ⟨fun reached => ?_, fun reached => by omega, i + 1, ⟨by simp only; omega, rfl⟩, ?_⟩
    · -- The first has no level left, so the second has none either unless it started with more.
      by_cases fewer : m.maxDepth - depth < limit' - depth'
      · exact .inl ⟨fewer, rfl⟩
      · exact .inr (by omega)
    · rintro s' t' ⟨inside, rfl⟩
      refine ⟨by simp only; omega, ?_⟩
      simp only [State.atDepth]
      congr 1
  enter _ scope i s t _ _ alike := by
    obtain ⟨start, rfl⟩ := alike
    refine ⟨i, ⟨start, rfl⟩, ?_⟩
    rintro s' t' ⟨inside, rfl⟩
    exact ⟨inside, rfl⟩
  hosts op := nomatch op

/-- The pool is the same one at any depth. -/
theorem deepened_poolShared : (deepened limit depth limit' depth').PoolShared := by
  refine ⟨?_, ?_⟩
  · rintro i s _ ⟨-, rfl⟩
    rfl
  · rintro i s _ pool ⟨start, rfl⟩
    exact ⟨start, rfl⟩

namespace Machine

/-- Reductions are alike when the second has at least as many levels left. -/
theorem reducer_deepened (m : Machine Empty) (more : m.maxDepth - depth ≤ limit' - depth') :
    (deepened m.maxDepth depth limit' depth').AlikeReducers m.reducer (m.withLimit limit').reducer := by
  -- Both reductions are taken with the same number of levels, and then compared level by level.
  intro items sound i s t alike
  obtain ⟨start, rfl⟩ := alike
  have kept := deepened_keptBy more
  -- The levels that the second limit leaves are enough for the first one too, so both are taken with as many.
  have enough : m.maxDepth - s.depth ≤ limit' - (depth' + i) := by omega
  have levels := kept.nestedVia_alike
    (Likeness.evalOperands_alike deepened_poolShared kept deepened_evaluated) (fun _ => trivial)
    (limit' - (depth' + i)) items sound i s _ ⟨start, rfl⟩
  have enough' : (m.withLimit limit').maxDepth - (s.atDepth (depth' + i)).depth ≤ limit' - (depth' + i) :=
    Nat.le_refl _
  rwa [m.nestedVia_of_enough enough, (m.withLimit limit').nestedVia_of_enough enough'] at levels

/-- With at least as many levels left a request is answered in the same way, unless the levels of the first machine are
used up. -/
theorem answer_withLimit (m : Machine Empty) (request : Request Empty) {s : State Empty}
    (more : m.maxDepth - s.depth ≤ limit - depth) :
    (m.answer request s).1 = .error (.depthExceeded m.maxDepth) ∧ m.maxDepth - s.depth < limit - depth ∨
      SameAtLimits m.maxDepth limit (m.answer request s).1 ((m.withLimit limit).answer request (s.atDepth depth)).1 ∧
        ((m.withLimit limit).answer request (s.atDepth depth)).2 = (m.answer request s).2.atDepth depth ∧
        (m.answer request s).2.depth = s.depth := by
  -- Only where the second has more levels left can the first be cut off.
  have sound : (deepened m.maxDepth s.depth limit depth).SoundRequest request :=
    Likeness.soundRequest_of_free deepened_evaluated request
  have ends := (deepened_keptBy more).answerWith_alike (m.reducer_deepened more) sound 0 s (s.atDepth depth) ⟨rfl, rfl⟩
  rw [← m.answer_eq, ← answer_eq] at ends
  generalize m.answer request s = r at ends ⊢
  generalize (m.withLimit limit).answer request (s.atDepth depth) = r' at ends ⊢
  cases ends with
  | ok _ alike => exact .inr ⟨.inl rfl, alike.2, alike.1⟩
  | error failed alike =>
    refine .inr ⟨?_, alike.2, alike.1⟩
    rcases failed with rfl | ⟨rfl, rfl⟩
    · exact .inl rfl
    · exact .inr ⟨rfl, rfl⟩
  | cut off =>
    obtain ⟨fewer, rfl⟩ := off
    exact .inl ⟨rfl, fewer⟩

end Machine

/-- The limit on nesting only cuts off. A request that does not run into it is answered as with every larger limit, with
the same state; and of depth and limit only the levels between them matter, up to the number that the failure reports.
No fatal failure is caught on the way: a reducer may do anything in place of its fatal failures, at any number of
levels further down, and the answer stays as it is, or it is such a failure with the state it has left, at most unwound. -/
theorem depth_limit_only_cuts_off (m : Machine Empty) (request : Request Empty) (s : State Empty) :
    (∀ limit, m.maxDepth ≤ limit → (m.answer request s).1 ≠ .error (.depthExceeded m.maxDepth) →
      (m.withLimit limit).answer request s = m.answer request s) ∧
    (∀ limit depth, limit - depth = m.maxDepth - s.depth →
      SameAtLimits m.maxDepth limit (m.answer request s).1 ((m.withLimit limit).answer request (s.atDepth depth)).1 ∧
        ((m.withLimit limit).answer request (s.atDepth depth)).2 = (m.answer request s).2.atDepth depth) ∧
    ∀ levels, m.answer request s = m.answerWith (m.above m.reducer levels) request s ∧
      ∀ lowest lowest' : Reducer Empty, lowest'.Resembles lowest →
        m.answerWith (m.above lowest' levels) request s = m.answerWith (m.above lowest levels) request s ∨
          ∃ e u, m.answerWith (m.above lowest levels) request s = (.error e, u) ∧ lowest.Interrupts e u := by
  -- The first two statements are one comparison, with more levels left and with as many.
  refine ⟨fun limit larger within => ?_, fun limit depth levels => ?_,
    fun levels => ⟨?_, fun lowest lowest' resembles => ?_⟩⟩
  · have more : m.maxDepth - s.depth ≤ limit - s.depth := by omega
    rcases m.answer_withLimit request more with ⟨exceeded, -⟩ | ⟨same, state, stays⟩
    · exact absurd exceeded within
    · -- The depth is the one it started with, so nothing of the state has changed.
      rw [State.atDepth_of_eq rfl] at same
      have outcome := same.resolve_right fun exceeded => within exceeded.1
      rw [State.atDepth_of_eq rfl, State.atDepth_of_eq stays] at state
      exact Prod.ext outcome state
  · rcases m.answer_withLimit request (Nat.le_of_eq levels.symm) with ⟨-, fewer⟩ | ⟨same, state, -⟩
    · exact absurd levels (by omega)
    · exact ⟨same, state⟩
  · rw [m.above_reducer, m.answer_eq]
  · exact m.answerWith_above resembles levels request s

/-- Two nested lists fit into two levels and into nine; three lists do not fit into two, wherever these begin; and a list
that is evaluated gives no value when its reduction has failed fatally. -/
theorem depth_limit_only_cuts_off_nested :
    let m := Machine.plain 2 {}
    let s : State Empty := {}
    let list : Value Empty := Primitive.list.value
    let two := Request.tryEval (.sexpr [list, .sexpr [list, .integer 1]])
    let three := Request.tryEval (.sexpr [list, .sexpr [list, .sexpr [list, .integer 1]]])
    let quoted := Request.call Primitive.eval.value [.qexpr [.integer 1]]
    let failing : Reducer Empty := fun _ => Eval.fail (.depthExceeded 2)
    (m.answer two s).1 = .ok (.qexpr [.qexpr [.integer 1]]) ∧
      (m.withLimit 9).answer two s = m.answer two s ∧
      (m.answer three s).1 = .error (.depthExceeded 2) ∧
      ((m.withLimit 7).answer three (s.atDepth 5)).1 = .error (.depthExceeded 7) ∧
      ((m.withLimit 7).answer three (s.atDepth 5)).2 = (m.answer three s).2.atDepth 5 ∧
      ∃ e u, m.answerWith (m.above failing 0) quoted s = (.error e, u) ∧ failing.Interrupts e u := by
  intro m s list two three quoted failing
  have first : (m.answer two s).1 = .ok (.qexpr [.qexpr [.integer 1]]) := by rfl
  have exceeded : (m.answer three s).1 = .error (.depthExceeded 2) := by rfl
  have larger := (depth_limit_only_cuts_off m two s).1 9 (by decide) (by simp [first])
  have state := ((depth_limit_only_cuts_off m three s).2.1 7 5 rfl).2
  have elsewhere : ((m.withLimit 7).answer three (s.atDepth 5)).1 = .error (.depthExceeded 7) := by rfl
  have resembles : Reducer.Resembles (fun _ => pure (.integer 0)) failing := fun _ t => .inr ⟨_, t, rfl, rfl⟩
  refine ⟨first, larger, exceeded, elsewhere, state, ?_⟩
  -- The answer would be another one if the failure were caught, so it is the failure itself.
  have ends := ((depth_limit_only_cuts_off m quoted s).2.2 0).2 failing _ resembles
  exact ends.resolve_left fun equal => nomatch congrArg Prod.fst equal

end QuoteLisp
