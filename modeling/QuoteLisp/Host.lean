import QuoteLisp.Eval.State

/-! Operations that a host program adds to the language. -/

namespace QuoteLisp

/-- What a host operation does: it may ask for evaluations and calls, and read and replace the environment. -/
inductive HostProgram (H : Type) where
  /-- Ends with a result. -/
  | done (result : Except Error (Value H))
  /-- Evaluates an expression; only a fatal failure is passed on as one. -/
  | eval (expr : Value H) (next : Except Error (Value H) → HostProgram H)
  /-- Calls a function with arguments as they are. -/
  | call (callee : Value H) (args : List (Value H)) (next : Except Error (Value H) → HostProgram H)
  /-- Looks at the environment. -/
  | look (next : Environment (Value H) → HostProgram H)
  /-- Replaces the environment. -/
  | replace (env : Environment (Value H)) (next : HostProgram H)

/-- Runs a host operation, given how expressions are evaluated and functions called. -/
def HostProgram.run {H : Type} (evaluate : Value H → Eval H (Value H))
    (apply : Value H → List (Value H) → Eval H (Value H)) : HostProgram H → Eval H (Value H)
  | done result => Eval.ofExcept result
  | eval expr next => fun s =>
    let (r, t) := evaluate expr s
    (next r).run evaluate apply t
  | call callee args next => fun s =>
    let (r, t) := apply callee args s
    (next r).run evaluate apply t
  | look next => fun s => (next s.env).run evaluate apply s
  | replace env next => fun s => next.run evaluate apply { s with env := env }

/-- A host: what each of its operations does, and how deep they may call one another. -/
structure Host (H : Type) where
  program : H → List (Value H) → HostProgram H
  /-- How many operations may be running one inside the other, each called directly by the one around it, when the
  outermost has the given arguments. Reductions in between start afresh: they have a limit of their own. -/
  nesting : List (Value H) → Nat := fun args => args.length + 1

instance {H : Type} : CoeFun (Host H) fun _ => H → List (Value H) → HostProgram H := ⟨Host.program⟩

instance {H : Type} : Coe (H → List (Value H) → HostProgram H) (Host H) := ⟨fun program => { program }⟩

end QuoteLisp
