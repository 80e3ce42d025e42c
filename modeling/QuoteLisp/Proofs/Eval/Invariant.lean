import QuoteLisp.Proofs.Environment.Home
import QuoteLisp.Proofs.Eval.Reduction

/-! Invariants of a single evaluation, as the case of two evaluations that are the same. -/

namespace QuoteLisp

variable {H ι α : Type}

namespace Likeness

/-- Compares an evaluation with itself: its states have a property, and so do all values in it. -/
def ofInvariant (invariant : ι → State H → Prop) (part result : Value H → Prop) : Likeness H ι where
  states i s t := s = t ∧ invariant i s
  part := part
  result := result
  failures e e' := e = e'
  cut _ _ := False
  failures_refl _ := rfl
  failures_fatal := @same_or_fatal
  cut_fatal never := fatal_of_never never
  cut_unwinds impossible _ := impossible

variable {invariant : ι → State H → Prop} {part result : Value H → Prop}

/-- A step is like itself when it keeps the invariant on every outcome and its results are as they should be. -/
theorem ofInvariant_alike {holds : α → Prop} {x : Eval H α}
    (keeps : ∀ i s, invariant i s → invariant i (x s).2 ∧ ∀ a, (x s).1 = .ok a → holds a) :
    (ofInvariant invariant part result).Alike holds x x := by
  -- Two states that are alike are one state with the invariant.
  rintro i s _ ⟨rfl, start⟩
  obtain ⟨kept, results⟩ := keeps i s start
  generalize x s = r at kept results
  obtain ⟨outcome, final⟩ := r
  cases outcome with
  | ok a => exact .ok (results a rfl) ⟨rfl, kept⟩
  | error e => exact .error rfl ⟨rfl, kept⟩

/-- Two steps that are alike in this sense end in the same way, with the invariant kept. -/
theorem ofInvariant_ends {holds : α → Prop} {x y : Eval H α} {i : ι} {s : State H}
    (alike : (ofInvariant invariant part result).Alike holds x y) (start : invariant i s) :
    x s = y s ∧ invariant i (x s).2 ∧ ∀ a, (x s).1 = .ok a → holds a := by
  -- A cut never happens here, so the two ends are one.
  have ends := alike i s s ⟨rfl, start⟩
  generalize x s = r at ends
  generalize y s = r' at ends
  cases ends with
  | ok result alike =>
    obtain ⟨rfl, kept⟩ := alike
    exact ⟨rfl, kept, fun _ same => Except.ok.inj same ▸ result⟩
  | error failed alike =>
    obtain ⟨rfl, kept⟩ := alike
    cases failed
    exact ⟨rfl, kept, fun _ same => nomatch same⟩
  | cut off => exact off.elim

/-- Failures that are handed on as values are the same ones where an evaluation is compared with itself. -/
theorem ofInvariant_outcome {holds : α → Prop} {x y : Eval H α}
    (alike : (ofInvariant invariant part result).Alike holds x y) :
    (ofInvariant invariant part result).Alike (fun outcome => ∀ a, outcome = .ok a → holds a) (Eval.outcome x)
      (Eval.outcome y) := by
  intro i s t start
  have ends := alike i s t start
  simp only [Eval.outcome]
  generalize x s = r at ends ⊢
  generalize y t = r' at ends ⊢
  cases ends with
  | ok found alike => exact .ok (fun _ same => Except.ok.inj same ▸ found) alike
  | error failed alike =>
    cases failed
    exact .ok (fun _ same => by cases same) alike
  | cut off => exact off.elim

/-- What the single steps of a machine must do to keep an invariant. -/
structure Preserves (invariant : ι → State H → Prop) (part result : Value H → Prop) (m : Machine H) : Prop where
  plain : ∀ value, value.IsPlain → part value
  normal : ∀ value, value.IsNormal → result value
  lambda : ∀ names body, (∀ name ∈ names, part (.symbol name)) → part (.lambda names body)
  skip : ∀ formal after body scope, part (.closure (formal :: after) body scope) → part (.closure after body scope)
  bound : ∀ formal after body scope arg scope', part (.closure (formal :: after) body scope) →
    (ofInvariant invariant part result).Evaluated arg → scope.bind formal arg = .ok scope' →
    part (.closure after body scope')
  program : ∀ path exprs, m.folder.program path = .ok exprs → ∀ expr ∈ exprs, expr.Everywhere part
  lookup : ∀ name value i s, part (.symbol name) → invariant i s → s.env.get? name = some value →
    (ofInvariant invariant part result).Evaluated value
  bind : ∀ mode name value i s env, part (.symbol name) → (ofInvariant invariant part result).Evaluated value →
    invariant i s → DefineMode.bind mode s.env name value = .ok env → invariant i { s with env := env }
  remove : ∀ op name i s, Value.Runs .undefine op → part op → part (.symbol name) → invariant i s →
    invariant i { s with env := (s.env.remove? name).getD s.env }
  print : ∀ line i s, invariant i s → invariant i { s with output := s.output ++ line ++ "\n" }
  /-- The level below may be measured against something else, as long as one can come back. -/
  descend : ∀ i s, invariant i s → ∃ j, invariant j { s with depth := s.depth + 1 } ∧
    ∀ s', invariant j s' → invariant i { s' with depth := s'.depth - 1 }
  enter : ∀ body scope i s, part (.closure [] body scope) → scope.Everywhere part → invariant i s →
    ∃ j, invariant j { s with env := s.env.enter scope } ∧
      ∀ s', invariant j s' → invariant i { s' with env := s'.env.leave }
  hosts : ∀ op args evaluate evaluate' apply apply', (∀ arg ∈ args, arg.Everywhere part) →
    (∀ expr, expr.Everywhere part → (ofInvariant invariant part result).Alike
      (ofInvariant invariant part result).Sound (evaluate expr) (evaluate' expr)) →
    (∀ callee args, callee.Everywhere part → (∀ arg ∈ args, (ofInvariant invariant part result).Evaluated arg) →
      (ofInvariant invariant part result).Alike (ofInvariant invariant part result).Evaluated
        (apply callee args) (apply' callee args)) →
    (ofInvariant invariant part result).Alike (ofInvariant invariant part result).Returned
      ((m.host op args).run evaluate apply) ((m.host op args).run evaluate' apply')

/-- An invariant that single steps keep is a likeness of the machine with itself. -/
theorem Preserves.keptBy {m : Machine H} (preserves : Preserves invariant part result m) :
    (ofInvariant invariant part result).KeptBy m m where
  plain := preserves.plain
  normal := preserves.normal
  lambda := preserves.lambda
  skip := preserves.skip
  bound := preserves.bound
  folder := rfl
  nesting := rfl
  program := preserves.program
  lookup := by
    intro name sound
    refine ofInvariant_alike fun i s start => ⟨start, fun value found => ?_⟩
    exact preserves.lookup name value i s sound start (Environment.lookup_eq_ok.mp found)
  blocked := by
    rintro mode name i s _ - ⟨rfl, -⟩
    rfl
  bind := by
    intro mode name value sound evaluated
    refine ofInvariant_alike fun i s start => ⟨?_, fun _ _ => trivial⟩
    -- A definition that is refused leaves the state as it is.
    simp only [Eval.changeEnv]
    cases bound : mode.bind s.env name value with
    | ok env => exact preserves.bind mode name value i s env sound evaluated start bound
    | error e => exact start
  remove := by
    rintro op name i s _ runs sound named ⟨rfl, start⟩
    exact ⟨rfl, preserves.remove op name i s runs sound named start⟩
  stats := by
    rintro op i s _ - - ⟨rfl, -⟩
    rfl
  print line := ofInvariant_alike fun i s start => ⟨preserves.print line i s start, fun _ _ => trivial⟩
  limit := rfl
  descend := by
    rintro i s _ ⟨rfl, start⟩
    obtain ⟨j, deeper, back⟩ := preserves.descend i s start
    refine ⟨.inr, id, j, ⟨rfl, deeper⟩, ?_⟩
    rintro s' _ ⟨rfl, inside⟩
    exact ⟨rfl, back s' inside⟩
  enter := by
    rintro body scope i s _ sound bindings ⟨rfl, start⟩
    obtain ⟨j, entered, back⟩ := preserves.enter body scope i s sound bindings start
    refine ⟨j, ⟨rfl, entered⟩, ?_⟩
    rintro s' _ ⟨rfl, inside⟩
    exact ⟨rfl, back s' inside⟩
  hosts := preserves.hosts

end Likeness

end QuoteLisp
