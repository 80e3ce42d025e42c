import QuoteLisp.Proofs.Eval.Levels

/-! Fatal failures are never caught: whatever a reduction further down does after one, nothing of it is seen above. -/

namespace QuoteLisp

variable {H : Type}

/-- Reduction with a given reducer so many levels down. -/
def Machine.above (m : Machine H) (lowest : Reducer H) : Nat → Reducer H
  | 0 => lowest
  | levels + 1 => m.descend (m.reduce (m.above lowest levels))

/-- With itself further down, reduction is what it is. -/
theorem Machine.above_reducer (m : Machine Empty) (levels : Nat) : m.above m.reducer levels = m.reducer := by
  -- Each level put on top is the one that reduction starts with anyway.
  induction levels with
  | zero => rfl
  | succ levels ih => rw [above, ih, ← m.reducer_eq]

/-- A reducer does what another one does, except where that one has failed fatally. -/
def Reducer.Resembles (reduce' reduce : Reducer H) : Prop :=
  ∀ items s, reduce' items s = reduce items s ∨ ∃ e u, reduce items s = (.error e, u) ∧ e.isFatal

/-- A failure is a fatal one of a reducer, and the state is the one it has left, at most unwound. -/
def Reducer.Interrupts (reduce : Reducer H) (e : Error) (s : State H) : Prop :=
  e.isFatal ∧ ∃ items t u, reduce items t = (.error e, u) ∧ u.Unwinds s

/-- A state unwound further is still unwound. -/
theorem State.Unwinds.trans {s t u : State H} (first : s.Unwinds t) (second : t.Unwinds u) : s.Unwinds u := by
  -- By induction on the second part, since a state is unwound step by step at its end.
  induction second with
  | refl => exact first
  | leave _ ih => exact ih.leave
  | rise _ ih => exact ih.rise
  | free _ handles ih => exact ih.free handles

/-- Compares an evaluation with itself up to a fatal failure of a reducer. -/
def interruptible (lowest : Reducer H) : Likeness H Unit where
  states _ s t := s = t
  part _ := True
  result _ := True
  failures e e' := e = e'
  cut := lowest.Interrupts
  failures_refl _ := rfl
  failures_fatal := @Likeness.same_or_fatal
  cut_fatal off := off.1
  cut_unwinds := by
    rintro e s t ⟨fatal, items, before, left, failed, unwound⟩ further
    exact ⟨fatal, items, before, left, failed, unwound.trans further⟩

/-- A step is like itself when nothing is asked of its result. -/
theorem interruptible_alike {α : Type} {holds : α → Prop} {lowest : Reducer H} (results : ∀ a, holds a)
    (x : Eval H α) : (interruptible lowest).Alike holds x x := by
  -- The two states are one, and so are the two ends.
  intro i s t same
  cases same
  generalize x s = r
  obtain ⟨outcome, left⟩ := r
  cases outcome with
  | ok a => exact .ok (results a) rfl
  | error e => exact .error rfl rfl

section Interruptible

variable {lowest lowest' : Reducer Empty}

/-- Nothing is asked of values. -/
theorem interruptible_evaluated (lowest : Reducer Empty) (value : Value Empty) :
    (interruptible lowest).Evaluated value :=
  ⟨trivial, fun _ _ => trivial⟩

/-- The single steps of a machine without host operations do not catch anything. -/
theorem interruptible_keptBy (m : Machine Empty) : (interruptible lowest).KeptBy m m where
  plain _ _ := trivial
  normal _ _ := trivial
  lambda _ _ _ := trivial
  skip _ _ _ _ _ := trivial
  bound _ _ _ _ _ _ _ _ _ := trivial
  folder := rfl
  nesting := rfl
  program _ _ _ expr _ := (interruptible_evaluated lowest expr).2
  lookup name _ := interruptible_alike (interruptible_evaluated lowest) (Eval.lookup name)
  blocked _ _ _ s t _ same := by
    cases same
    rfl
  bind _ _ _ _ _ := interruptible_alike (fun _ => trivial) _
  remove _ _ _ s t _ _ _ same := by
    cases same
    rfl
  stats _ _ s t _ _ same := by
    cases same
    rfl
  print line := interruptible_alike (fun _ => trivial) (Eval.printLine line)
  limit := rfl
  descend _ s t same := by
    cases same
    refine ⟨.inr, id, (), rfl, fun s' t' inside => ?_⟩
    cases inside
    rfl
  enter _ scope _ s t _ _ same := by
    cases same
    refine ⟨(), rfl, fun s' t' inside => ?_⟩
    cases inside
    rfl
  hosts op := nomatch op

/-- There is one pool only. -/
theorem interruptible_poolShared : (interruptible lowest).PoolShared := by
  refine ⟨fun _ s t same => ?_, fun _ s t pool same => ?_⟩
  · cases same
    rfl
  · cases same
    rfl

/-- A reducer and one that resembles it are alike up to a fatal failure. -/
theorem Reducer.Resembles.alike (resembles : Reducer.Resembles lowest' lowest) :
    (interruptible lowest).AlikeReducers lowest lowest' := by
  -- Where the two differ the first has failed fatally, and there the comparison is cut off.
  intro items _ i s t same
  cases same
  rcases resembles items s with equal | ⟨e, u, failed, fatal⟩
  · rw [equal]
    exact interruptible_alike (interruptible_evaluated lowest) (lowest items) () s s rfl
  · rw [failed]
    exact .cut ⟨fatal, items, s, u, failed, .refl⟩

/-- However many levels above, reductions are alike up to a fatal failure below. -/
theorem Machine.above_alike (m : Machine Empty) (resembles : Reducer.Resembles lowest' lowest) (levels : Nat) :
    (interruptible lowest).AlikeReducers (m.above lowest levels) (m.above lowest' levels) := by
  have kept : (interruptible lowest).KeptBy m m := interruptible_keptBy m
  have gatherers := Likeness.evalOperands_alike interruptible_poolShared kept (interruptible_evaluated lowest)
  -- By induction on the levels: a level passes on what interrupts the one below.
  induction levels with
  | zero => exact resembles.alike
  | succ levels ih =>
    exact kept.descend_alike fun first operands soundFirst sound =>
      kept.reduceVia_alike gatherers trivial ih soundFirst sound

/-- A request is answered in the same way whatever a reducer does after its fatal failures, or such a failure is the
answer and the state is only unwound. -/
theorem Machine.answerWith_above (m : Machine Empty) (resembles : Reducer.Resembles lowest' lowest) (levels : Nat)
    (request : Request Empty) (s : State Empty) :
    m.answerWith (m.above lowest' levels) request s = m.answerWith (m.above lowest levels) request s ∨
      ∃ e u, m.answerWith (m.above lowest levels) request s = (.error e, u) ∧ lowest.Interrupts e u := by
  -- The answers are compared as one evaluation that may be cut off.
  have sound := Likeness.soundRequest_of_free (interruptible_evaluated lowest) request
  have ends := (interruptible_keptBy m).answerWith_alike (m.above_alike resembles levels) sound () s s rfl
  generalize m.answerWith (m.above lowest levels) request s = r at ends ⊢
  generalize m.answerWith (m.above lowest' levels) request s = r' at ends ⊢
  cases ends with
  | ok _ same =>
    cases same
    exact .inl rfl
  | error failed same =>
    cases same
    cases failed
    exact .inl rfl
  | @cut e u _ off => exact .inr ⟨e, u, rfl, off⟩

end Interruptible

end QuoteLisp
