/-! Machine integers of 64 bits: exact arithmetic that knows when a result does not fit, and their decimal text. -/

namespace QuoteLisp

/-- A whole number fits when it lies in the range of 64-bit integers. -/
def Fits (n : Int) : Prop := -9223372036854775808 ≤ n ∧ n ≤ 9223372036854775807

instance (n : Int) : Decidable (Fits n) := inferInstanceAs (Decidable (_ ∧ _))

/-- The machine integer with a given value, if it fits. -/
def exactInt? (n : Int) : Option Int64 :=
  if Fits n then some (Int64.ofInt n) else none

/-- Every character is a decimal digit and there is at least one. -/
def isNumeral (text : List Char) : Bool :=
  !text.isEmpty && text.all Char.isDigit

/-- The value of a run of decimal digits. -/
def numeralValue (digits : List Char) : Nat :=
  Nat.ofDigitChars 10 digits 0

/-- Reads a whole number: an optional sign and at least one digit, nothing else. -/
def readInt? : List Char → Option Int
  | '-' :: digits => if isNumeral digits then some (-(numeralValue digits : Int)) else none
  | '+' :: digits => if isNumeral digits then some (numeralValue digits) else none
  | digits => if isNumeral digits then some (numeralValue digits) else none

/-- Reads a machine integer; a number out of range is refused. -/
def readInt64? (text : List Char) : Option Int64 :=
  (readInt? text).bind exactInt?

/-- The decimal text of a whole number, with a minus sign when negative. -/
def intText : Int → List Char
  | .ofNat n => Nat.toDigits 10 n
  | .negSucc n => '-' :: Nat.toDigits 10 (n + 1)

/-- An exact machine integer has the value asked for. -/
theorem exactInt?_eq_some_iff (n : Int) (r : Int64) : exactInt? n = some r ↔ r.toInt = n := by
  unfold exactInt?
  constructor
  · intro found
    split at found
    · next fits =>
      obtain ⟨low, high⟩ := fits
      cases found
      exact Int64.toInt_ofInt_of_le (by omega) (by omega)
    · cases found
  · rintro rfl
    have fits : Fits r.toInt := ⟨by have := r.le_toInt; omega, by have := r.toInt_lt; omega⟩
    simp [fits]

end QuoteLisp
