import QuoteLisp.Eval.Reduce

/-! The start of a run, and what a host program can do to it between evaluations. -/

namespace QuoteLisp

variable {H : Type}

/-- The scope in which every operation of the language is bound and protected. -/
def standardScope : Scope (Value H) :=
  ⟨Primitive.all.map fun p => ⟨p.name, p.value, true⟩⟩

/-- The environment that a run starts with. -/
def standardEnvironment : Environment (Value H) :=
  { root := standardScope }

/-- The state that a run starts with. -/
def State.initial (limits : PoolLimits) : State H :=
  { env := standardEnvironment, pool := { limits := limits } }

/-- Adds a host operation as a protected name of the root scope. -/
def registerBuiltin (name : String) (arity : Arity) (op : H) : Eval H Unit :=
  Eval.changeEnv fun env => env.defineProtected name (.builtin ⟨name, arity, .host op⟩)

/-- Adds a host operation that receives its operands as written. -/
def registerSpecial (name : String) (arity : Arity) (op : H) : Eval H Unit :=
  Eval.changeEnv fun env => env.defineProtected name (.special ⟨name, arity, .host op⟩)

end QuoteLisp
