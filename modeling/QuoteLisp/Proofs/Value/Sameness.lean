import Mathlib
import QuoteLisp.Value.Equality
import QuoteLisp.Value.Printer

/-! Equality of values is an equivalence that looks at the faces of values and at what they show, and at no scope; values
that are equal look alike in print, reals apart. -/

namespace QuoteLisp

variable {H : Type}

section Reals

open Float.Model (UnpackedFloat)

/-- What a comparison sees of a real: the two zeros count as one. -/
def comparedAs : UnpackedFloat → UnpackedFloat
  | .zero _ => .zero .positive
  | other => other

theorem compare_sign (one two : UnpackedFloat.Sign) : compare one two = .eq ↔ one = two := by
  cases one <;> cases two <;> simp [compare]

/-- Two reals compare equal when both are numbers and a comparison sees the same of them. -/
theorem compare_eq_some_eq (x y : UnpackedFloat) :
    x.compare y = some .eq ↔ x ≠ .notANumber ∧ comparedAs x = comparedAs y := by
  cases x with
  | notANumber => simp [UnpackedFloat.compare]
  | infinity sign => cases y <;> cases sign <;> simp [UnpackedFloat.compare, comparedAs, compare_sign]
  | zero sign =>
    cases y with
    | finite sign' => cases sign' <;> simp [UnpackedFloat.compare, comparedAs]
    | infinity sign' => cases sign' <;> simp [UnpackedFloat.compare, comparedAs]
    | _ => simp [UnpackedFloat.compare, comparedAs]
  | finite sign mantissa exponent positive =>
    cases y with
    | finite sign' => cases sign <;> cases sign' <;> simp [UnpackedFloat.compare, comparedAs, and_comm]
    | infinity sign' => cases sign' <;> simp [UnpackedFloat.compare, comparedAs]
    | zero sign' => cases sign <;> simp [UnpackedFloat.compare, comparedAs]
    | notANumber => simp [UnpackedFloat.compare, comparedAs]

/-- Reals are the same when a comparison sees the same of them; all that is no number is alike as well. -/
theorem sameReal_iff (x y : Float) :
    sameReal x y = true ↔ comparedAs x.toModel.unpack = comparedAs y.toModel.unpack := by
  have compared : (x == y) = true ↔ x.toModel.unpack.compare y.toModel.unpack = some .eq := by
    have shape : (x == y) = (x.toModel.unpack.compare y.toModel.unpack == some .eq) := rfl
    rw [shape, beq_iff_eq]
  have undefined : ∀ z : Float, z.isNaN = true ↔ z.toModel.unpack = .notANumber := by
    intro z
    have shape : z.isNaN = z.toModel.unpack.isNaN := rfl
    rw [shape]
    cases z.toModel.unpack <;> simp [UnpackedFloat.isNaN]
  have other : ∀ z : UnpackedFloat, comparedAs z = .notANumber ↔ z = .notANumber := by
    intro z
    cases z <;> simp [comparedAs]
  rw [sameReal, Bool.or_eq_true, Bool.and_eq_true, compared, compare_eq_some_eq, undefined, undefined]
  by_cases number : x.toModel.unpack = .notANumber
  · -- Only what is no number either is the same as what is none.
    rw [number, ← other y.toModel.unpack]
    simp [comparedAs, eq_comm]
  · simp [number]

end Reals

/-- What a value shows at its top, apart from the values inside it. -/
inductive Face where
  | integer (n : Int64)
  /-- A real as a comparison sees it. -/
  | real (x : Float.Model.UnpackedFloat)
  | error (message : String)
  | symbol (name : String)
  | string (text : String)
  | sexpr
  | qexpr
  /-- An operation by its name. -/
  | builtin (name : String)
  | special (name : String)
  /-- A closure by its formals. -/
  | closure (formals : List String)
  | ok
  | empty
  | quit (code : Int64)

namespace Value

/-- The face of a value. -/
def face : Value H → Face
  | integer n => .integer n
  | real x => .real (comparedAs x.toModel.unpack)
  | error message => .error message
  | symbol name => .symbol name
  | string text => .string text
  | sexpr _ => .sexpr
  | qexpr _ => .qexpr
  | builtin op => .builtin op.name
  | special op => .special op.name
  | closure formals _ _ => .closure formals
  | ok => .ok
  | empty => .empty
  | quit code => .quit code

/-- The values that a value shows inside it: the items of a list and the body of a closure. -/
def shown : Value H → List (Value H)
  | sexpr items => items
  | qexpr items => items
  | closure _ body _ => body
  | _ => []

/-- A value is shown in another: it is that value, or it is shown in a value that is shown inside. -/
inductive ShownIn (part : Value H) : Value H → Prop where
  | self : ShownIn part part
  | inside {whole item : Value H} (member : item ∈ whole.shown) (deeper : ShownIn part item) : ShownIn part whole

/-- One captured scope, at any depth of lists and bodies, is replaced by another one. -/
inductive Rescoped : Value H → Value H → Prop where
  | here {formals : List String} {body : List (Value H)} (scope scope' : Scope (Value H)) :
    Rescoped (.closure formals body scope) (.closure formals body scope')
  | inSexpr {value value' : Value H} (front back : List (Value H)) (inside : Rescoped value value') :
    Rescoped (.sexpr (front ++ value :: back)) (.sexpr (front ++ value' :: back))
  | inQexpr {value value' : Value H} (front back : List (Value H)) (inside : Rescoped value value') :
    Rescoped (.qexpr (front ++ value :: back)) (.qexpr (front ++ value' :: back))
  | inBody {value value' : Value H} {formals : List String} {scope : Scope (Value H)} (front back : List (Value H))
    (inside : Rescoped value value') :
    Rescoped (.closure formals (front ++ value :: back) scope) (.closure formals (front ++ value' :: back) scope)

end Value

/-- Lists are the same when their items are, one by one. -/
theorem sameItems_iff {items others : List (Value H)} :
    sameItems items others = true ↔ List.Forall₂ (fun a b => a.same b = true) items others := by
  induction items generalizing others with
  | nil => cases others <;> simp [sameItems]
  | cons item rest ih => cases others <;> simp [sameItems, ih]

namespace Value

variable {a b : Value H}

/-- Values are the same when they have the same face and show the same values; no scope is looked at. -/
theorem same_iff : a.same b = true ↔
    a.face = b.face ∧ List.Forall₂ (fun item other => item.same other = true) a.shown b.shown := by
  -- Each kind of value is compared with each, and only values of the same form can be the same.
  cases a <;> cases b <;> simp [same, face, shown, sameItems_iff, sameReal_iff]

/-- A value that is shown inside is smaller. -/
theorem sizeOf_lt_of_shown {value item : Value H} (member : item ∈ value.shown) : sizeOf item < sizeOf value := by
  cases value with
  | sexpr items =>
    have smaller : sizeOf item < sizeOf items := List.sizeOf_lt_of_mem member
    simp only [sexpr.sizeOf_spec]
    omega
  | qexpr items =>
    have smaller : sizeOf item < sizeOf items := List.sizeOf_lt_of_mem member
    simp only [qexpr.sizeOf_spec]
    omega
  | closure formals body scope =>
    have smaller : sizeOf item < sizeOf body := List.sizeOf_lt_of_mem member
    simp only [closure.sizeOf_spec]
    omega
  | _ => cases member

/-- What holds of a value whenever it holds of all that the value shows holds of every value. -/
theorem shown_induction {motive : Value H → Prop}
    (step : ∀ value, (∀ item ∈ value.shown, motive item) → motive value) (value : Value H) : motive value :=
  step value fun item _ => shown_induction step item
termination_by sizeOf value
decreasing_by exact sizeOf_lt_of_shown ‹_›

/-- Every value is the same as itself. -/
theorem same_refl (value : Value H) : value.same value = true := by
  induction value using shown_induction with
  | step value ih => exact same_iff.mpr ⟨rfl, List.forall₂_same.mpr ih⟩

/-- Lists whose items stand in a relation to the same things stand in it item by item to the same lists. -/
theorem forall₂_congr {α : Type} {related : α → α → Prop} {items others : List α}
    (alike : List.Forall₂ (fun one two => ∀ third, related one third ↔ related two third) items others) (list : List α) :
    List.Forall₂ related items list ↔ List.Forall₂ related others list := by
  induction alike generalizing list with
  | nil => rfl
  | cons head _ ih => simp only [List.forall₂_cons_left_iff, head, ih]

/-- Values that are the same are the same as the same values. -/
theorem same_congr (same : a.same b = true) (c : Value H) : a.same c = true ↔ b.same c = true := by
  -- By induction on what the first value shows; the second one shows the same, item by item.
  induction a using shown_induction generalizing b c with
  | step a ih =>
    obtain ⟨face, items⟩ := same_iff.mp same
    have alike := ((List.forall₂_and_left _ _).mpr ⟨ih, items⟩).imp fun _ _ pair third => pair.1 pair.2 third
    rw [same_iff, same_iff, face, forall₂_congr alike]

theorem same_symm (same : a.same b = true) : b.same a = true :=
  (same_congr same a).mp (same_refl a)

theorem same_trans {c : Value H} (first : a.same b = true) (second : b.same c = true) : a.same c = true :=
  (same_congr first c).mpr second

/-- A value with another captured scope is the same value. -/
theorem Rescoped.same {value value' : Value H} (rescoped : value.Rescoped value') : value.same value' = true := by
  -- The items around the place are the same as themselves.
  have around : ∀ {item item' : Value H} (front back : List (Value H)), item.same item' = true →
      List.Forall₂ (fun one two => one.same two = true) (front ++ item :: back) (front ++ item' :: back) :=
    fun front back inside => List.rel_append (List.forall₂_same.mpr fun one _ => same_refl one)
      (.cons inside (List.forall₂_same.mpr fun one _ => same_refl one))
  induction rescoped with
  | here scope scope' => exact same_iff.mpr ⟨rfl, List.forall₂_same.mpr fun item _ => same_refl item⟩
  | inSexpr front back _ ih => exact same_iff.mpr ⟨rfl, around front back ih⟩
  | inQexpr front back _ ih => exact same_iff.mpr ⟨rfl, around front back ih⟩
  | inBody front back _ ih => exact same_iff.mpr ⟨rfl, around front back ih⟩

/-- Values with the same face are of the same form, and so of the same kind. -/
theorem form_of_face (face : a.face = b.face) : a.ctorIdx = b.ctorIdx ∧ a.kind = b.kind := by
  cases a <;> cases b <;> simp only [Value.face, reduceCtorEq] at face
  all_goals exact ⟨rfl, rfl⟩

/-- Values with the same face look alike in print when what they show does, unless they are reals. -/
theorem render_of_face (face : a.face = b.face) (noReal : ∀ x, a ≠ .real x)
    (items : renderItems a.shown = renderItems b.shown) : a.render = b.render := by
  -- Faces of different forms differ, so one case is left for each form.
  cases a with
  | real x => exact absurd rfl (noReal x)
  | sexpr list =>
    cases b with
    | sexpr list' => exact congrArg (fun texts => inRound (spaced texts)) items
    | _ => cases face
  | qexpr list =>
    cases b with
    | qexpr list' => exact congrArg (fun texts => inCurly (spaced texts)) items
    | _ => cases face
  | closure formals body scope =>
    cases b with
    | closure formals' body' scope' =>
      cases face
      exact congrArg (fun texts => inRound (spaced [['\\'], inCurly (spaced (formals.map String.toList)),
        inCurly (spaced texts)])) items
    | _ => cases face
  | builtin op =>
    cases b with
    | builtin op' => rfl
    | _ => cases face
  | special op =>
    cases b with
    | special op' => rfl
    | _ => cases face
  | _ =>
    cases b <;> cases face
    rfl

/-- Lists of values that look alike have the same texts. -/
theorem renderItems_of_forall₂ {items others : List (Value H)}
    (alike : List.Forall₂ (fun item other => item.render = other.render) items others) :
    renderItems items = renderItems others := by
  induction alike with
  | nil => rfl
  | cons head _ ih => exact congrArg₂ List.cons head ih

/-- Values that are the same look alike in print, unless a real is shown in them. -/
theorem render_of_same (same : a.same b = true) (noReal : ∀ x, ¬ (real x).ShownIn a) : a.render = b.render := by
  induction a using shown_induction generalizing b with
  | step a ih =>
    obtain ⟨face, items⟩ := same_iff.mp same
    refine render_of_face face (fun x isReal => noReal x (isReal ▸ .self)) ?_
    have inside : ∀ item ∈ a.shown, ∀ x, ¬ (real x).ShownIn item :=
      fun item member x deeper => noReal x (.inside member deeper)
    have alike := ((List.forall₂_and_left _ _).mpr ⟨inside, (List.forall₂_and_left _ _).mpr ⟨ih, items⟩⟩).imp
      fun item other pair => pair.2.1 pair.2.2 pair.1
    exact renderItems_of_forall₂ alike

end Value

/-- Equality of values is an equivalence, and it is compatible with printing. Values of different forms are never equal,
and a captured scope that is replaced, at whatever depth, changes nothing about what a value is equal to. Equal values
have the same name of kind, and the same text unless a real is shown in them. -/
theorem equality_compatible_with_printing :
    Equivalence (fun a b : Value H => (a == b) = true) ∧
    (∀ a b : Value H, a.ctorIdx ≠ b.ctorIdx → (a == b) = false) ∧
    (∀ a a' b : Value H, a.Rescoped a' → (a == b) = (a' == b) ∧ (b == a) = (b == a')) ∧
    ∀ a b : Value H, (a == b) = true →
      a.kind.name = b.kind.name ∧ ((∀ x, ¬ (Value.real x).ShownIn a) → a.text = b.text) := by
  refine ⟨⟨Value.same_refl, Value.same_symm, Value.same_trans⟩, fun a b different => ?_, fun a a' b rescoped => ?_,
    fun a b same => ⟨?_, fun noReal => ?_⟩⟩
  · rw [← Bool.not_eq_true]
    intro same
    exact different (Value.form_of_face (Value.same_iff.mp same).1).1
  · have same := rescoped.same
    refine ⟨Bool.eq_iff_iff.mpr (Value.same_congr same b), Bool.eq_iff_iff.mpr ⟨fun before => ?_, fun after => ?_⟩⟩
    · exact Value.same_trans before same
    · exact Value.same_trans after (Value.same_symm same)
  · rw [(Value.form_of_face (Value.same_iff.mp same).1).2]
  · exact congrArg String.ofList (Value.render_of_same same noReal)

/-- A scope that is captured two levels deep is replaced by one that binds a real. -/
theorem equality_compatible_with_printing_rescoped :
    let made (scope : Scope (Value Empty)) : Value Empty :=
      .qexpr [.closure ["x"] [.closure [] [.symbol "x"] scope] {}]
    let bound : Scope (Value Empty) := ⟨[⟨"x", .real (0.0 / 0.0), true⟩]⟩
    (made {}).Rescoped (made bound) ∧ (made bound == made {}) = true ∧ (made bound).text = (made {}).text := by
  intro made bound
  have rescoped : (made {}).Rescoped (made bound) := .inQexpr [] [] (.inBody [] [] (.here {} bound))
  obtain ⟨equivalence, -, scopes, printing⟩ := equality_compatible_with_printing (H := Empty)
  have same : (made bound == made {}) = true := by
    rw [← (scopes _ _ (made {}) rescoped).1]
    exact equivalence.refl (made {})
  refine ⟨rescoped, same, (printing _ _ same).2 fun x shown => ?_⟩
  -- What the scope binds is not shown.
  cases shown with
  | inside member shown =>
    cases List.mem_singleton.mp member
    cases shown with
    | inside member shown =>
      cases List.mem_singleton.mp member
      cases shown with
      | inside member shown =>
        cases List.mem_singleton.mp member
        cases shown with
        | inside member shown => cases member

end QuoteLisp
