import QuoteLisp.Eval.State
import QuoteLisp.Proofs.Value.Parts

/-! Two evaluations side by side: what it means that they are alike, and how likeness passes from steps to
sequences of steps. An invariant of one evaluation is the case where both are the same. -/

namespace QuoteLisp

/-- What is done to a state on the way out of an evaluation and nothing else: scopes are left, the depth comes back and
chunks are freed. -/
inductive State.Unwinds {H : Type} (s : State H) : State H → Prop where
  | refl : Unwinds s s
  | leave {t : State H} (before : Unwinds s t) : Unwinds s { t with env := t.env.leave }
  | rise {t : State H} (before : Unwinds s t) : Unwinds s { t with depth := t.depth - 1 }
  | free {t : State H} (before : Unwinds s t) (handles : List Handle) :
    Unwinds s { t with pool := (t.pool.releaseAll handles).2 }

/-- How two evaluations are compared. -/
structure Likeness (H ι : Type) where
  /-- Which states are alike, measured against something that an evaluation must not change. -/
  states : ι → State H → State H → Prop
  /-- What all parts of the values in the two evaluations have in common. -/
  part : Value H → Prop
  /-- What evaluated values have in common besides. -/
  result : Value H → Prop
  /-- Which failures are alike. -/
  failures : Error → Error → Prop
  /-- Failures of the first evaluation, with the state they leave, after which nothing is compared. -/
  cut : Error → State H → Prop
  failures_refl : ∀ e, failures e e
  /-- Only fatal failures may differ, since the others become values. -/
  failures_fatal : ∀ {e e'}, failures e e' → e = e' ∨ e.isFatal ∧ e'.isFatal
  cut_fatal : ∀ {e s}, cut e s → e.isFatal
  cut_unwinds : ∀ {e s t}, cut e s → s.Unwinds t → cut e t

namespace Likeness

/-- Failures that are the same are alike as they have to be. -/
theorem same_or_fatal {e e' : Error} (same : e = e') : e = e' ∨ e.isFatal ∧ e'.isFatal := .inl same

/-- Where nothing is ever cut off, whatever is cut off is fatal. -/
theorem fatal_of_never {e : Error} (never : False) : e.isFatal := never.elim

variable {H ι α β : Type} (c : Likeness H ι)

/-- An expression whose parts all have what is common to both evaluations. -/
abbrev Sound (value : Value H) : Prop := value.Everywhere c.part

/-- An evaluated value with sound parts. -/
def Evaluated (value : Value H) : Prop := c.result value ∧ c.Sound value

/-- How two evaluations may end: with the same result, with failures that are alike, or cut off. -/
inductive Ends (i : ι) (holds : α → Prop) :
    Except Error α × State H → Except Error α × State H → Prop where
  | ok {a : α} {s t : State H} (result : holds a) (alike : c.states i s t) : Ends i holds (.ok a, s) (.ok a, t)
  | error {e e' : Error} {s t : State H} (failed : c.failures e e') (alike : c.states i s t) :
    Ends i holds (.error e, s) (.error e', t)
  | cut {e : Error} {s : State H} {other : Except Error α × State H} (off : c.cut e s) :
    Ends i holds (.error e, s) other

/-- Two steps that end alike whenever they start alike. -/
def Alike (holds : α → Prop) (x y : Eval H α) : Prop :=
  ∀ i s t, c.states i s t → c.Ends i holds (x s) (y t)

/-- Two ways of reducing that are alike on sound lists. -/
def AlikeReducers (reduce reduce' : Reducer H) : Prop :=
  ∀ items, (∀ item ∈ items, c.Sound item) → c.Alike c.Evaluated (reduce items) (reduce' items)

variable {c}

/-- What is known of a result may be weakened. -/
theorem Ends.mono {i : ι} {holds holds' : α → Prop} {r r' : Except Error α × State H}
    (ends : c.Ends i holds r r') (weaker : ∀ a, holds a → holds' a) : c.Ends i holds' r r' := by
  -- Only the case of a result says anything of it.
  cases ends with
  | ok result alike => exact .ok (weaker _ result) alike
  | error failed alike => exact .error failed alike
  | cut off => exact .cut off

theorem Alike.mono {holds holds' : α → Prop} {x y : Eval H α} (alike : c.Alike holds x y)
    (weaker : ∀ a, holds a → holds' a) : c.Alike holds' x y :=
  fun i s t start => (alike i s t start).mono weaker

/-- What the results of the first step are is known of the result of both. -/
theorem Alike.and {holds holds' : α → Prop} {x y : Eval H α} (alike : c.Alike holds x y)
    (results : ∀ {s t a}, x s = (.ok a, t) → holds' a) : c.Alike (fun a => holds a ∧ holds' a) x y := by
  intro i s t start
  have ends := alike i s t start
  cases done : x s with
  | mk outcome last =>
    rw [done] at ends
    generalize y t = r at ends ⊢
    cases ends with
    | ok result alike => exact .ok ⟨result, results done⟩ alike
    | error failed alike => exact .error failed alike
    | cut off => exact .cut off

/-- A result without a change of state. -/
theorem alike_pure {holds : α → Prop} {a : α} (result : holds a) :
    c.Alike holds (pure a : Eval H α) (pure a) :=
  fun _ _ _ start => .ok result start

/-- The same failure without a change of state. -/
theorem alike_fail {holds : α → Prop} (e : Error) : c.Alike holds (Eval.fail e : Eval H α) (Eval.fail e) :=
  fun _ _ _ start => .error (c.failures_refl e) start

/-- Failures that are alike without a change of state. -/
theorem alike_fail_of {holds : α → Prop} {e e' : Error} (failed : c.failures e e') :
    c.Alike holds (Eval.fail e : Eval H α) (Eval.fail e') :=
  fun _ _ _ start => .error failed start

/-- An outcome that does not depend on the state. -/
theorem alike_ofExcept {holds : α → Prop} {r : Except Error α} (result : ∀ a, r = .ok a → holds a) :
    c.Alike holds (Eval.ofExcept r : Eval H α) (Eval.ofExcept r) := by
  -- Both evaluations have the same outcome in hand, and neither has touched its state.
  cases r with
  | ok a => exact alike_pure (result a rfl)
  | error e => exact alike_fail e

/-- Steps that are alike one after the other. -/
theorem Alike.bind {holds : α → Prop} {holds' : β → Prop} {x y : Eval H α} {f g : α → Eval H β}
    (first : c.Alike holds x y) (next : ∀ a, holds a → c.Alike holds' (f a) (g a)) :
    c.Alike holds' (x >>= f) (y >>= g) := by
  intro i s t start
  rw [Eval.bind_apply, Eval.bind_apply]
  -- The second steps start where the first ones end, unless these fail.
  have ends := first i s t start
  generalize x s = r at ends ⊢
  generalize y t = r' at ends ⊢
  cases ends with
  | ok result alike => exact next _ result i _ _ alike
  | error failed alike => exact .error failed alike
  | cut off => exact .cut off

/-- The outcome of a step is turned into a value only when it is not fatal, so guarded steps are alike too. -/
theorem alike_guarded {reduce reduce' : Reducer H} {expr : Value H}
    (errors : ∀ message, c.part (.error message))
    (evals : c.Alike c.Evaluated (evalWith reduce expr) (evalWith reduce' expr)) :
    c.Alike c.Sound (guardedWith reduce expr) (guardedWith reduce' expr) := by
  -- Failures that may differ are fatal, and fatal ones are passed on by both evaluations; all others are
  -- the same failure and so become the same value.
  intro i s t start
  have ends := evals i s t start
  simp only [guardedWith, Eval.bind_apply, Eval.outcome]
  generalize evalWith reduce expr s = r at ends ⊢
  generalize evalWith reduce' expr t = r' at ends ⊢
  cases ends with
  | ok result alike => exact .ok result.2 alike
  | @error e e' _ _ failed alike =>
    rcases c.failures_fatal failed with rfl | ⟨fatal, fatal'⟩
    -- One and the same failure is treated alike, whichever way.
    · by_cases fatal : e.isFatal = true
      · simpa [fatal] using Ends.error failed alike
      · have sound : c.Sound (.error e.message) := Value.everywhere_of_leaf rfl (errors e.message)
        simpa [fatal] using Ends.ok sound alike
    · simpa [fatal, fatal'] using Ends.error failed alike
  | cut off => simpa [c.cut_fatal off] using Ends.cut off

end Likeness

end QuoteLisp
