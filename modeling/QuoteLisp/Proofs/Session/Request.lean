import QuoteLisp.Proofs.Eval.Invariant
import QuoteLisp.Session

/-! Everything that can be asked of a machine from outside, and sequences of such requests. -/

namespace QuoteLisp

variable {H ι : Type}

/-- What can be asked of a machine. -/
inductive Request (H : Type) where
  /-- Evaluates an expression; every failure is passed on. -/
  | tryEval (expr : Value H)
  /-- Evaluates an expression; only fatal failures are passed on. -/
  | eval (expr : Value H)
  /-- Calls a value with arguments as they are. -/
  | call (callee : Value H) (args : List (Value H))
  /-- Evaluates a text as one S-expression. -/
  | evalText (source : String)
  /-- Evaluates the expressions of a file in order. -/
  | load (path : String)

namespace Machine

/-- Answers a request. -/
def answer (m : Machine H) : Request H → Eval H (Value H)
  | .tryEval expr => m.tryEval expr
  | .eval expr => m.eval expr
  | .call callee args => m.call callee args
  | .evalText source => m.evalText source
  | .load path => m.load path

/-- The state after some requests, each answered whatever the outcome of those before. -/
def after (m : Machine H) (s : State H) (requests : List (Request H)) : State H :=
  requests.foldl (fun s request => (m.answer request s).2) s

/-- Answers a request with a given way of reducing S-expressions. -/
def answerWith (m : Machine H) (reduce : Reducer H) : Request H → Eval H (Value H)
  | .tryEval expr => evalWith reduce expr
  | .eval expr => guardedWith reduce expr
  | .call callee args => m.apply reduce callee args
  | .evalText source => do
    let expr ← Eval.ofExcept (readSource source)
    guardedWith reduce expr
  | .load path => loadWith m.folder reduce path

/-- The machine's own answers are those of its own reduction. -/
theorem answer_eq (m : Machine H) (request : Request H) : m.answer request = m.answerWith m.reducer request := by
  -- Each request is defined by the reduction of the machine.
  cases request <;> rfl

end Machine

namespace Likeness

variable {c : Likeness H ι} {m m' : Machine H} {reduce reduce' : Reducer H}

/-- A request with sound expressions only. -/
def SoundRequest (c : Likeness H ι) : Request H → Prop
  | .tryEval expr => c.Sound expr
  | .eval expr => c.Sound expr
  | .call callee args => c.Sound callee ∧ ∀ arg ∈ args, c.Evaluated arg
  | .evalText source => ∀ expr, readSource source = .ok expr → c.Sound expr
  -- What is in a file is a matter of the machine and not of the request.
  | .load _ => True

/-- Where nothing is asked of values, every request is sound. -/
theorem soundRequest_of_free (free : ∀ value, c.Evaluated value) (request : Request H) : c.SoundRequest request := by
  cases request with
  | tryEval expr => exact (free expr).2
  | eval expr => exact (free expr).2
  | call callee args => exact ⟨(free callee).2, fun arg _ => free arg⟩
  | evalText source => exact fun expr _ => (free expr).2
  | load path => trivial

/-- Alike reductions give alike answers. -/
theorem KeptBy.answerWith_alike (kept : c.KeptBy m m') (reducers : c.AlikeReducers reduce reduce')
    {request : Request H} (sound : c.SoundRequest request) :
    c.Alike c.Sound (m.answerWith reduce request) (m'.answerWith reduce' request) := by
  -- Each request evaluates sound expressions or calls a sound value.
  cases request with
  | tryEval expr => exact (kept.evalWith_alike reducers sound).mono fun _ done => done.2
  | eval expr => exact kept.guardedWith_alike reducers sound
  | call callee args =>
    exact (kept.apply_alike reducers sound.1 (fun arg member => (sound.2 arg member).2) fun _ => sound.2).mono
      fun _ done => done.2
  | evalText source =>
    exact (alike_ofExcept sound).bind fun expr soundExpr => kept.guardedWith_alike reducers soundExpr
  | load path => exact (kept.loadWith_alike reducers path).mono fun _ done => done.2

end Likeness

end QuoteLisp
