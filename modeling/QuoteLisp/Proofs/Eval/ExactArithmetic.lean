import QuoteLisp.Proofs.Eval.Results
import QuoteLisp.Eval.Reduce

/-! Arithmetic on integers is that of whole numbers of any size, as long as every step fits in 64 bits; the first step
that does not, or that divides by zero, is what is reported. -/

namespace QuoteLisp

variable {H : Type}

namespace Arithmetic

section Steps

end Steps

section Folds

end Folds

section Arguments

/-- Among numbers there is no other argument. -/
theorem firstOther?_of_numbers {args : List (Value H)} (numbers : ∀ arg ∈ args, arg.isNumber) (start : Nat) :
    firstOther? start args = none := by
  induction args generalizing start with
  | nil => rfl
  | cons first rest ih =>
    rw [firstOther?, if_pos (numbers first (by simp))]
    exact ih (fun arg member => numbers arg (by simp [member])) (start + 1)

/-- Integers are combined as integers. -/
theorem apply_integers (op : Arithmetic) (numbers : List Int64) :
    op.apply (numbers.map .integer : List (Value H)) = (op.foldIntegers numbers).map .integer := by
  have kinds : firstOther? 0 (numbers.map .integer : List (Value H)) = none :=
    firstOther?_of_numbers (by simp [Value.isNumber]) 0
  have noReal : (numbers.map .integer : List (Value H)).any isReal = false := by simp [isReal]
  have same : integers (numbers.map .integer : List (Value H)) = numbers := by
    rw [integers, List.filterMap_map]
    exact List.filterMap_some
  simp only [apply, kinds, noReal, same]
  rfl

end Arguments

end Arithmetic

end QuoteLisp
