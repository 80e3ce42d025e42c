import Mathlib.Algebra.Group.Nat.Defs
import QuoteLisp.Proofs.Eval.ExactArithmetic
import QuoteLisp.Proofs.Eval.Needs
import QuoteLisp.Session

/-! A recursive function of the language that counts a list, and what it needs of the nesting limit and of the pool. -/

namespace QuoteLisp

variable {H : Type}

/-- The test of the list for being empty. -/
def lengthTest : Value H :=
  .sexpr [.symbol "==", .symbol "l", .qexpr []]

/-- The count of all items but the first, and one more. -/
def lengthStep : List (Value H) :=
  [.symbol "+", .integer 1, .sexpr [.symbol "len", .sexpr [.symbol "tail", .symbol "l"]]]

/-- The body of the function `(\ {l} {if (== l {}) {0} {+ 1 (len (tail l))}})`: zero for an empty list, and otherwise
one more than for its tail. -/
def lengthBody : List (Value H) :=
  [.symbol "if", lengthTest, .qexpr [.integer 0], .qexpr lengthStep]

/-- An environment in which the function and all it uses have their meaning. -/
structure Environment.DefinesLength (env : Environment (Value H)) : Prop where
  branch : env.get? "if" = some Primitive.branch.value
  equal : env.get? "==" = some Primitive.equal.value
  add : env.get? "+" = some (Primitive.arithmetic .add).value
  tail : env.get? "tail" = some Primitive.tail.value
  length : env.get? "len" = some (.lambda ["l"] lengthBody)

/-- The scope of a call with a list. -/
def lengthScope (items : List (Value H)) : Scope (Value H) :=
  ⟨[⟨"l", .qexpr items, false⟩]⟩

namespace Environment

/-- The scope of a call hides nothing but the list. -/
theorem get?_enter_lengthScope (env : Environment (Value H)) (items : List (Value H)) (name : String) :
    (env.enter (lengthScope items)).get? name = if "l" = name then some (.qexpr items) else env.get? name := by
  by_cases same : "l" = name <;> simp [get?, enter, lengthScope, Scope.get?, Scope.find?, same]

theorem DefinesLength.enter {env : Environment (Value H)} (defines : env.DefinesLength) (items : List (Value H)) :
    (env.enter (lengthScope items)).DefinesLength := by
  have others : ∀ name, "l" ≠ name → (env.enter (lengthScope items)).get? name = env.get? name := by
    intro name other
    rw [get?_enter_lengthScope, if_neg other]
  exact ⟨(others _ (by decide)).trans defines.branch, (others _ (by decide)).trans defines.equal,
    (others _ (by decide)).trans defines.add, (others _ (by decide)).trans defines.tail,
    (others _ (by decide)).trans defines.length⟩

end Environment

namespace Needs

variable {m : Machine H} {env : Environment (Value H)} {depth levels chunks : Nat} {reduce : Reducer H}

/-- The test needs one level, and chunks for three values at once. -/
theorem countTest (reaches : m.ReachesLimit depth reduce) (defines : env.DefinesLength) {items : List (Value H)}
    (list : env.get? "l" = some (.qexpr items)) :
    Needs m env depth (evalWith reduce lengthTest) 1 3 (.ofBool items.isEmpty) := by
  -- The head and both lists are held at once, and comparing with an empty list looks at no item.
  refine .of_eq (.callPrimitive [.qexpr items, .qexpr []] reaches defines.equal rfl rfl rfl fun _ _ =>
    ⟨.cons (.symbol list) (.cons (.quoted []) .nil), .of_apply fun _ _ => ?_⟩) rfl rfl
  cases items <;> rfl

/-- The tail of a list needs one level, and chunks for two values at once. -/
theorem countTail (reaches : m.ReachesLimit depth reduce) (defines : env.DefinesLength) {first : Value H}
    {rest : List (Value H)} (list : env.get? "l" = some (.qexpr (first :: rest))) :
    Needs m env depth (evalWith reduce (.sexpr [.symbol "tail", .symbol "l"])) 1 2 (.qexpr rest) := by
  -- The head and the list are held at once.
  exact .of_eq (.callPrimitive [.qexpr (first :: rest)] reaches defines.tail rfl rfl rfl fun _ _ =>
    ⟨.cons (.symbol list) .nil, .of_apply fun _ _ => rfl⟩) rfl rfl

/-- A call needs one level more than the more demanding one of its operand and its body. -/
theorem countCall (reaches : m.ReachesLimit depth reduce) (defines : env.DefinesLength) {operand : Value H}
    {items : List (Value H)} {count : Int64} {bodyLevels bodyChunks : Nat}
    (argument : ∀ lower, m.ReachesLimit (depth + 1) lower →
      Needs m env (depth + 1) (evalWith lower operand) levels chunks (.qexpr items))
    (body : ∀ lower, m.ReachesLimit (depth + 1) lower →
      Needs m (env.enter (lengthScope items)) (depth + 1) (lower lengthBody) bodyLevels bodyChunks (.integer count)) :
    Needs m env depth (evalWith reduce (.sexpr [.symbol "len", operand])) (max levels bodyLevels + 1)
      (max (1 + max chunks 1) bodyChunks) (.integer count) := by
  -- The head is held while the operand is evaluated, and nothing is held any more when the body starts.
  exact .of_eq (.call [.qexpr items] reaches defines.length rfl (fun _ => nofun) fun lower below =>
    ⟨.cons (argument lower below) .nil, .closure rfl (body lower below) rfl⟩) (by omega) (by omega)

/-- The choice between two lists needs what the chosen one needs. -/
theorem choice {condition : Bool} {chosen otherwise : List (Value H)} {value : Value H}
    (needs : Needs m env depth (reduce (if condition then chosen else otherwise)) levels chunks value) :
    Needs m env depth (Primitive.branch.run m.folder reduce [.ofBool condition, .qexpr chosen, .qexpr otherwise])
      levels chunks value := by
  -- Both lists are looked at for their kind, and only one is evaluated.
  cases condition <;> exact needs

end Needs

/-- One more than a count that is small enough is the next one. -/
theorem add_one_count {count : Nat} (small : count + 1 < 2 ^ 63) :
    Arithmetic.add.apply [.integer 1, .integer (Int64.ofNat count)] =
      (.ok (.integer (Int64.ofNat (count + 1))) : Except Error (Value H)) := by
  -- The sum is exact, since it fits.
  have sum : exactInt? ((1 : Int64).toInt + (Int64.ofNat count).toInt) = some (Int64.ofNat (count + 1)) := by
    have one : (1 : Int64).toInt = 1 := rfl
    rw [exactInt?_eq_some_iff, Int64.toInt_ofNat_of_lt small, Int64.toInt_ofNat_of_lt (by omega), one]
    omega
  have step : Arithmetic.add.stepInteger 1 (Int64.ofNat count) = .ok (Int64.ofNat (count + 1)) := by
    rw [Arithmetic.stepInteger, Arithmetic.exact, sum]
  refine (Arithmetic.apply_integers .add [1, Int64.ofNat count]).trans ?_
  simp [Arithmetic.foldIntegers, step, Except.map]

namespace Needs

variable {m : Machine H} {env : Environment (Value H)} {depth levels chunks : Nat} {reduce : Reducer H}

/-- The body needs a level for itself and for the test, and four chunks for the test or for the branches behind it;
beyond that it needs what the branch that is taken needs. -/
theorem countBranch (reaches : m.ReachesLimit depth reduce) (defines : env.DefinesLength) {items : List (Value H)}
    (list : env.get? "l" = some (.qexpr items)) {count : Int64}
    (taken : ∀ lower, m.ReachesLimit (depth + 1) lower → Needs m env (depth + 1)
      (lower (if items.isEmpty then [.integer 0] else lengthStep)) levels chunks (.integer count)) :
    Needs m env depth (reduce lengthBody) (max 1 levels + 1) (max 4 chunks) (.integer count) := by
  -- With the head, the test holds as much while it runs as its value and both branches do after it.
  exact .of_eq (.callPrimitive [.ofBool items.isEmpty, .qexpr [.integer 0], .qexpr lengthStep] reaches
    defines.branch rfl rfl rfl fun lower below =>
      ⟨.cons (.countTest below defines list) (.cons (.quoted _) (.cons (.quoted _) .nil)),
        .choice (taken lower below)⟩) (by omega) (by omega)

/-- The count of an empty list needs one level and one chunk. -/
theorem countZero (reaches : m.ReachesLimit depth reduce) :
    Needs m env depth (reduce [.integer 0]) 1 1 (.integer 0) := by
  -- A single element that is no function goes through the pool as well and stands for itself.
  exact .oneLevel reaches fun _ _ => .reduction (.number 0) (fun _ => nofun) .nil (.of_apply fun _ _ => rfl)

/-- The count of a longer list needs one level more and two chunks more than the call for its tail. -/
theorem countStep (reaches : m.ReachesLimit depth reduce) (defines : env.DefinesLength) {count : Nat}
    (small : count + 1 < 2 ^ 63)
    (call : ∀ lower, m.ReachesLimit (depth + 1) lower → Needs m env (depth + 1)
      (evalWith lower (.sexpr [.symbol "len", .sexpr [.symbol "tail", .symbol "l"]])) levels chunks
      (.integer (Int64.ofNat count))) :
    Needs m env depth (reduce lengthStep) (levels + 1) (2 + max chunks 1) (.integer (Int64.ofNat (count + 1))) := by
  -- The head and the first operand are held while the call is evaluated.
  exact .of_eq (.callPrimitive [.integer 1, .integer (Int64.ofNat count)] reaches defines.add rfl rfl rfl
    fun lower below => ⟨.cons (.number 1) (.cons (call lower below) .nil),
      .of_apply fun _ _ => congrArg (·, _) (add_one_count small)⟩) (by omega) (by omega)

/-- The body needs three levels more and two chunks more for each item of the list. -/
theorem countBody (items : List (Value H)) (small : items.length < 2 ^ 63) (defines : env.DefinesLength)
    (reaches : m.ReachesLimit depth reduce) :
    Needs m (env.enter (lengthScope items)) depth (reduce lengthBody) (3 * items.length + 2) (2 * items.length + 4)
      (.integer (Int64.ofNat items.length)) := by
  -- The call for the tail is made within the scope of the call for the whole list.
  induction items generalizing env depth reduce with
  | nil =>
    have inside := defines.enter []
    have list := env.get?_enter_lengthScope [] "l"
    exact .of_eq (.countBranch reaches inside list fun _ below => .countZero below) rfl rfl
  | cons first rest ih =>
    have inside := defines.enter (first :: rest)
    have list := env.get?_enter_lengthScope (first :: rest) "l"
    have shorter : rest.length < 2 ^ 63 := Nat.lt_of_succ_lt small
    have call : ∀ {depth : Nat} (lower : Reducer H), m.ReachesLimit depth lower →
        Needs m (env.enter (lengthScope (first :: rest))) depth
          (evalWith lower (.sexpr [.symbol "len", .sexpr [.symbol "tail", .symbol "l"]])) (3 * rest.length + 3)
          (2 * rest.length + 4) (.integer (Int64.ofNat rest.length)) := by
      intro depth lower below
      exact .of_eq (.countCall below inside (fun _ below => .countTail below inside list) fun _ below =>
        ih shorter inside below) (by omega) (by omega)
    have step : ∀ {depth : Nat} (lower : Reducer H), m.ReachesLimit depth lower →
        Needs m (env.enter (lengthScope (first :: rest))) depth (lower lengthStep) (3 * rest.length + 4)
          (2 * rest.length + 6) (.integer (Int64.ofNat (rest.length + 1))) := by
      intro depth lower below
      exact .of_eq (.countStep below inside small call) (by omega) (by omega)
    have branch := countBranch reaches inside list step
    refine branch.of_eq ?_ ?_
    · simp only [List.length_cons]
      omega
    · simp only [List.length_cons]
      omega

end Needs

/--
The function counts a list exactly where the limits leave it what it needs.

It needs three levels for each item and three more, and two chunks for each item and four more. With less of one of
them it fails by that one, and whatever comes of it, no scope changes. The pool may have been used before, as long as
nothing is held in it any more.
-/
theorem list_length_within_exact_limits (m : Machine H) (s : State H) (items : List (Value H))
    (outermost : s.depth = 0) (valid : s.pool.Valid) (unused : s.pool.stats.chunksInUse = 0)
    (defines : s.env.DefinesLength) (small : items.length < 2 ^ 63) :
    let ended := m.tryEval (.sexpr [.symbol "len", .qexpr items]) s
    let capacity := s.pool.limits.chunksPerBlock * s.pool.limits.maxBlocks
    (3 * items.length + 3 ≤ m.maxDepth → 2 * items.length + 4 ≤ capacity →
      ∃ count : Int64, ended.1 = .ok (.integer count) ∧ count.toInt = items.length) ∧
    (m.maxDepth < 3 * items.length + 3 → 2 * items.length + 4 ≤ capacity →
      ended.1 = .error (.depthExceeded m.maxDepth)) ∧
    (3 * items.length + 3 ≤ m.maxDepth → capacity < 2 * items.length + 4 →
      ended.1 = .error (.poolExhausted s.pool.limits.maxBlocks s.pool.limits.chunksPerBlock)) ∧
    ended.2.env = s.env := by
  intro ended capacity
  have needs : Needs m s.env 0 (m.tryEval (.sexpr [.symbol "len", .qexpr items])) (3 * items.length + 3)
      (2 * items.length + 4) (.integer (Int64.ofNat items.length)) :=
    .tryEval fun reduce reaches => .of_eq (.countCall reaches defines (fun _ _ => .quoted items) fun _ below =>
      .countBody items small defines below) (by omega) (by omega)
  obtain ⟨result, pool, done, -, -, ends⟩ := needs s rfl outermost valid
  have room : s.pool.room = capacity := by
    rw [Pool.room, unused]
    rfl
  have same : ended = (result, { s with pool := pool }) := done
  rw [same]
  -- Each limit that is large enough rules out the failure that reports it.
  cases ends with
  | enough below free =>
    refine ⟨fun _ _ => ⟨_, rfl, Int64.toInt_ofNat_of_lt small⟩, fun _ _ => ?_, fun _ _ => ?_, rfl⟩ <;> omega
  | tooDeep below =>
    refine ⟨fun _ _ => ?_, fun _ _ => rfl, fun _ _ => ?_, rfl⟩ <;> omega
  | tooFull full =>
    refine ⟨fun _ _ => ?_, fun _ _ => ?_, fun _ _ => rfl, rfl⟩ <;> omega

/-- Nine levels and eight chunks are just enough for two items, whatever these are. -/
theorem list_length_within_exact_limits_two :
    let items : List (Value Empty) := [.symbol "unbound", .error "raised"]
    let env : Environment (Value Empty) := ⟨standardScope.push "len" (.lambda ["l"] lengthBody) false, []⟩
    let counted := fun maxDepth chunks =>
      (Machine.plain maxDepth {}).tryEval (.sexpr [.symbol "len", .qexpr items])
        { env := env, pool := { limits := ⟨chunks, 1⟩ } }
    (∃ count : Int64, (counted 9 8).1 = .ok (.integer count) ∧ count.toInt = 2) ∧
    (counted 8 8).1 = .error (.depthExceeded 8) ∧
    (counted 9 7).1 = .error (.poolExhausted 1 7) := by
  intro items env counted
  have defines : env.DefinesLength := ⟨rfl, rfl, rfl, rfl, rfl⟩
  have limits := fun maxDepth chunks => list_length_within_exact_limits (Machine.plain maxDepth {})
    { env := env, pool := { limits := ⟨chunks, 1⟩ } } items rfl (Pool.valid_of_no_blocks rfl rfl) rfl defines
    (by decide)
  exact ⟨(limits 9 8).1 (by decide) (by decide), (limits 8 8).2.1 (by decide) (by decide),
    (limits 9 7).2.2.1 (by decide) (by decide)⟩

end QuoteLisp
