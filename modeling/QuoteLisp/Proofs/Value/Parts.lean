import QuoteLisp.Environment
import QuoteLisp.Source.Reader

/-! The parts of a value, at any nesting of lists, bodies and scopes, and properties that all of them share. -/

namespace QuoteLisp

variable {H : Type}

namespace Value

/-- The values directly inside a value: the items of a list, or the body and the bound values of a closure. -/
def children : Value H → List (Value H)
  | sexpr items => items
  | qexpr items => items
  | closure _ body scope => body ++ scope.bindings.map (·.value)
  | _ => []

/-- A value occurs in another: it is that value, or it occurs in a value directly inside it. -/
inductive OccursIn (part : Value H) : Value H → Prop where
  | self : OccursIn part part
  | inside {whole child : Value H} (member : child ∈ whole.children) (occurs : OccursIn part child) :
    OccursIn part whole

/-- A property of a value and of every value that occurs in it. -/
def Everywhere (property : Value H → Prop) (value : Value H) : Prop :=
  ∀ part, part.OccursIn value → property part

/-- A value that is an operation running a given primitive, under whatever name. -/
def Runs (p : Primitive) : Value H → Prop
  | builtin op => op.action = .primitive p
  | special op => op.action = .primitive p
  | _ => False

/-- No operation that runs the primitive occurs in the value. -/
def Avoids (p : Primitive) : Value H → Prop :=
  Everywhere fun part => ¬ part.Runs p

/-- A value that evaluates to itself: no symbol, no error and no list that would be reduced. -/
def IsNormal : Value H → Prop
  | symbol _ => False
  | error _ => False
  | sexpr (_ :: _) => False
  | _ => True

/-- A value without a name or a function at its top. -/
def IsPlain : Value H → Prop
  | symbol _ => False
  | builtin _ => False
  | special _ => False
  | closure .. => False
  | _ => True

/-- Only functions run primitives. -/
theorem IsPlain.not_runs {value : Value H} (plain : value.IsPlain) (p : Primitive) : ¬ value.Runs p := by
  -- The two kinds of operation are not plain, and no other kind runs anything.
  intro runs
  cases value with
  | builtin op => exact plain
  | special op => exact plain
  | _ => exact runs

/-- A property holds everywhere in a value when it holds of the value and everywhere in its children. -/
theorem everywhere_iff {property : Value H → Prop} {value : Value H} :
    value.Everywhere property ↔ property value ∧ ∀ child ∈ value.children, child.Everywhere property := by
  constructor
  · intro holds
    exact ⟨holds value .self, fun child member part occurs => holds part (.inside member occurs)⟩
  · rintro ⟨top, below⟩ part occurs
    -- A part is the value itself or sits inside one of its children.
    cases occurs with
    | self => exact top
    | inside member occurs => exact below _ member part occurs

/-- The property holds of the value itself. -/
theorem Everywhere.top {property : Value H → Prop} {value : Value H} (holds : value.Everywhere property) :
    property value :=
  holds value .self

/-- The property holds everywhere in each value directly inside. -/
theorem Everywhere.child {property : Value H → Prop} {value child : Value H}
    (holds : value.Everywhere property) (member : child ∈ value.children) : child.Everywhere property :=
  (everywhere_iff.mp holds).2 child member

/-- The property holds everywhere in each part. -/
theorem Everywhere.part {property : Value H → Prop} {value part : Value H} (holds : value.Everywhere property)
    (occurs : part.OccursIn value) : part.Everywhere property := by
  -- A part lies below some child, and below that child in turn.
  induction occurs with
  | self => exact holds
  | inside member _ ih => exact ih (holds.child member)

/-- For a value with nothing inside, only the value itself counts. -/
theorem everywhere_of_leaf {property : Value H → Prop} {value : Value H} (leaf : value.children = [])
    (holds : property value) : value.Everywhere property :=
  everywhere_iff.mpr ⟨holds, by simp [leaf]⟩

end Value

/-- Every value that is bound has the property in all its parts. -/
def Scope.Everywhere (property : Value H → Prop) (scope : Scope (Value H)) : Prop :=
  ∀ binding ∈ scope.bindings, binding.value.Everywhere property

/-- Every value bound in some scope of the chain has the property in all its parts. -/
def Environment.Everywhere (property : Value H → Prop) (env : Environment (Value H)) : Prop :=
  ∀ scope ∈ env.scopes, scope.Everywhere property

/-- No operation that runs the primitive occurs in what is bound. -/
def Environment.Avoids (p : Primitive) : Environment (Value H) → Prop :=
  Environment.Everywhere fun part => ¬ part.Runs p

/-- Reading a number gives a number or an error value. -/
theorem readNumber_isPlain (text : String) : (readNumber text : Value H).IsPlain ∧
    (readNumber text : Value H).children = [] := by
  -- Text that stands for no number is read as an error value, which is plain as well.
  unfold readNumber
  dsimp only
  split
  · cases readReal? text.toList <;> simp [Value.IsPlain, Value.children]
  · cases readInt64? text.toList <;> simp [Value.IsPlain, Value.children]

mutual

/-- Source text has names but no functions in it, so a property of all such values holds in all that is read. -/
theorem read_everywhere {property : Value H → Prop} (plain : ∀ value, value.IsPlain → property value)
    (symbols : ∀ name, property (.symbol name)) :
    ∀ node : Node, (node.read : Value H).Everywhere property
  | .mk rules contents children => by
    unfold Node.read
    -- One case for each kind of atom, and the lists by the values of their children.
    split
    · have number := readNumber_isPlain (H := H) contents
      exact Value.everywhere_of_leaf number.2 (plain _ number.1)
    · split
      · exact Value.everywhere_of_leaf rfl (symbols _)
      · split
        · exact Value.everywhere_of_leaf rfl (plain _ trivial)
        · have inside := readAll_everywhere plain symbols children
          split
          · exact Value.everywhere_iff.mpr ⟨plain _ trivial, inside⟩
          · exact Value.everywhere_iff.mpr ⟨plain _ trivial, inside⟩

/-- The same for the values of a list of trees. -/
theorem readAll_everywhere {property : Value H → Prop} (plain : ∀ value, value.IsPlain → property value)
    (symbols : ∀ name, property (.symbol name)) :
    ∀ nodes : List Node, ∀ value ∈ (readAll nodes : List (Value H)), value.Everywhere property
  | [] => by simp [readAll]
  | node :: rest => by
    intro value member
    unfold readAll at member
    split at member
    · exact readAll_everywhere plain symbols rest value member
    · rcases List.mem_cons.mp member with rfl | later
      · exact read_everywhere plain symbols node
      · exact readAll_everywhere plain symbols rest value later

end

end QuoteLisp
