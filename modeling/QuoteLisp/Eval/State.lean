import QuoteLisp.Environment
import QuoteLisp.Pool
import QuoteLisp.Value.Basic

/-! What an evaluation reads and changes, and the steps it is made of. -/

namespace QuoteLisp

/-- The state of an evaluation. -/
structure State (H : Type) where
  env : Environment (Value H) := {}
  /-- Holds operands that are evaluated while others of the same call still are not. -/
  pool : Pool (Value H) := {}
  /-- How many S-expressions are being reduced, one inside the other. -/
  depth : Nat := 0
  /-- What has been printed. -/
  output : String := ""

/-- A step of an evaluation: it may fail, and keeps the changed state also then. -/
def Eval (H α : Type) : Type := State H → Except Error α × State H

namespace Eval

variable {H α β : Type}

/-- A step that changes nothing. -/
protected def pure (a : α) : Eval H α := fun s => (.ok a, s)

/-- A step that fails and changes nothing. -/
def fail (e : Error) : Eval H α := fun s => (.error e, s)

/-- One step after another; a failure of the first is the outcome. -/
protected def bind (x : Eval H α) (f : α → Eval H β) : Eval H β := fun s =>
  match x s with
  | (.ok a, t) => f a t
  | (.error e, t) => (.error e, t)

instance : Monad (Eval H) where
  pure := Eval.pure
  bind := Eval.bind

@[simp] theorem pure_apply (a : α) (s : State H) : (pure a : Eval H α) s = (.ok a, s) := rfl

@[simp] theorem fail_apply (e : Error) (s : State H) : (fail e : Eval H α) s = (.error e, s) := rfl

theorem bind_apply (x : Eval H α) (f : α → Eval H β) (s : State H) :
    (x >>= f) s = match x s with
      | (.ok a, t) => f a t
      | (.error e, t) => (.error e, t) := rfl

/-- What follows a step that succeeds starts in the state it leaves. -/
theorem bind_of_ok {x : Eval H α} {s t : State H} {a : α} (f : α → Eval H β) (done : x s = (.ok a, t)) :
    (x >>= f) s = f a t := by
  simp [bind_apply, done]

/-- Nothing follows a step that fails. -/
theorem bind_of_error {x : Eval H α} {s t : State H} {e : Error} (f : α → Eval H β)
    (failed : x s = (.error e, t)) : (x >>= f) s = (.error e, t) := by
  simp [bind_apply, failed]

/-- A step after another one succeeds only where both do. -/
theorem ok_of_bind {x : Eval H α} {f : α → Eval H β} {s t : State H} {b : β} (done : (x >>= f) s = (.ok b, t)) :
    ∃ a middle, x s = (.ok a, middle) ∧ f a middle = (.ok b, t) := by
  rw [bind_apply] at done
  split at done
  · next a middle first => exact ⟨a, middle, first, done⟩
  · cases done

/-- A step after another one fails where the first does, or where the second does after it. -/
theorem error_of_bind {x : Eval H α} {f : α → Eval H β} {s t : State H} {e : Error}
    (failed : (x >>= f) s = (.error e, t)) :
    x s = (.error e, t) ∨ ∃ a middle, x s = (.ok a, middle) ∧ f a middle = (.error e, t) := by
  rw [bind_apply] at failed
  split at failed
  · next a middle first => exact .inr ⟨a, middle, first, failed⟩
  · next first =>
    cases failed
    exact .inl first

/-- A result computed without the state. -/
def ofExcept (r : Except Error α) : Eval H α := fun s => (r, s)

/-- The outcome of a step as a value, so that something can be done after a failure too. -/
def outcome (x : Eval H α) : Eval H (Except Error α) := fun s =>
  let (r, t) := x s
  (.ok r, t)

/-- Something of the state. -/
def read (f : State H → α) : Eval H α := fun s => (.ok (f s), s)

/-- A change of the state. -/
def modify (f : State H → State H) : Eval H Unit := fun s => (.ok (), f s)

/-- A change of the environment that may be refused. -/
def changeEnv (f : Environment (Value H) → Except Error (Environment (Value H))) : Eval H Unit := fun s =>
  match f s.env with
  | .ok env => (.ok (), { s with env := env })
  | .error e => (.error e, s)

/-- The value of a name. -/
def lookup (name : String) : Eval H (Value H) := fun s => (s.env.lookup name, s)

/-- Prints a line. -/
def printLine (line : String) : Eval H Unit :=
  modify fun s => { s with output := s.output ++ line ++ "\n" }

/-- Stores a value in the pool. -/
def hold (value : Value H) : Eval H Handle := fun s =>
  match s.pool.acquire value with
  | .ok (handle, pool) => (.ok handle, { s with pool := pool })
  | .error e => (.error e, s)

/-- Takes values out of the pool. -/
def release (handles : List Handle) : Eval H (List (Value H)) := fun s =>
  let (values, pool) := s.pool.releaseAll handles
  (.ok values, { s with pool := pool })

/-- Runs a step one level deeper and comes back, whatever its outcome. -/
def deeper (x : Eval H α) : Eval H α := do
  modify fun s => { s with depth := s.depth + 1 }
  let r ← outcome x
  modify fun s => { s with depth := s.depth - 1 }
  ofExcept r

/-- Going deeper changes the depth on the way in and back on the way out, and nothing else. -/
theorem deeper_apply (x : Eval H α) (s : State H) :
    deeper x s = ((x { s with depth := s.depth + 1 }).1,
      { (x { s with depth := s.depth + 1 }).2 with
        depth := (x { s with depth := s.depth + 1 }).2.depth - 1 }) := rfl

/-- Runs a step with a scope on top of the environment and takes it off again, whatever the outcome. -/
def within (scope : Scope (Value H)) (x : Eval H α) : Eval H α := do
  modify fun s => { s with env := s.env.enter scope }
  let r ← outcome x
  modify fun s => { s with env := s.env.leave }
  ofExcept r

/-- A step within a scope sees it as the innermost one, and the scope is gone afterwards. -/
theorem within_apply (scope : Scope (Value H)) (x : Eval H α) (s : State H) :
    within scope x s = ((x { s with env := s.env.enter scope }).1,
      { (x { s with env := s.env.enter scope }).2 with
        env := (x { s with env := s.env.enter scope }).2.env.leave }) := rfl

end Eval

/-- Evaluates a list of expressions as an S-expression. -/
abbrev Reducer (H : Type) : Type := List (Value H) → Eval H (Value H)

variable {H : Type}

/-- Evaluates an expression: a name to its value, an S-expression by reducing it, an error to a failure,
and everything else to itself. -/
def evalWith (reduce : Reducer H) : Value H → Eval H (Value H)
  | .symbol name => Eval.lookup name
  | .sexpr items => reduce items
  | .error message => Eval.fail (.raised message)
  | value => pure value

/-- Evaluates an expression so that a failure that is not fatal becomes an error value. -/
def guardedWith (reduce : Reducer H) (expr : Value H) : Eval H (Value H) := do
  match ← Eval.outcome (evalWith reduce expr) with
  | .ok value => pure value
  | .error e => if e.isFatal then Eval.fail e else pure (.error e.message)

/-- Evaluates expressions from left to right. -/
def evalAllWith (reduce : Reducer H) : List (Value H) → Eval H (List (Value H))
  | [] => pure []
  | expr :: rest => do
    let value ← evalWith reduce expr
    let values ← evalAllWith reduce rest
    pure (value :: values)

end QuoteLisp
