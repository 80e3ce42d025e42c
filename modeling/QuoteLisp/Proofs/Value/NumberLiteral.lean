import Mathlib.Data.List.Induction
import Mathlib.Data.Nat.Digits.Defs
import QuoteLisp.Proofs.Value.RoundTrip

/-! Whole numbers in source text: a number token without a fraction is a sign and digits, and it is read as the integer with
just that value, or as an error value where there is no such integer. -/

namespace QuoteLisp

variable {H : Type} {comments : Bool} {input text rest : List Char}

/-- The number that a digit stands for. -/
def digitValue (c : Char) : Nat := c.toNat - '0'.toNat

/-- The value of a whole number: each digit counts for a power of ten, the last one for ones. -/
def wholeValue : List Char → Int
  | '-' :: digits => -(Nat.ofDigits 10 (digits.reverse.map digitValue) : Nat)
  | digits => (Nat.ofDigits 10 (digits.reverse.map digitValue) : Nat)

/-- Reading digits from the first one on gives each of them its power of ten. -/
theorem numeralValue_eq (digits : List Char) :
    numeralValue digits = Nat.ofDigits 10 (digits.reverse.map digitValue) := by
  unfold numeralValue
  -- The last digit is the one that is read last and counts for ones.
  induction digits using List.reverseRecOn with
  | nil => rfl
  | append_singleton front last ih =>
    rw [Nat.ofDigitChars_append, Nat.ofDigitChars_cons, Nat.ofDigitChars_nil, ih, List.reverse_concat, List.map_cons,
      Nat.ofDigits_cons, Nat.add_comm]
    rfl

/-- A whole number is read with its value, however many digits it has. -/
theorem readInt?_of_isWhole (whole : IsWhole text) : readInt? text = some (wholeValue text) := by
  obtain ⟨sign, digits, rfl, form, numeral⟩ := whole
  rcases form with rfl | rfl
  · -- The first character is a digit, so neither the reader nor the value takes it for a sign.
    have inside := (isNumeral_iff.mp numeral).2
    rw [List.nil_append]
    unfold readInt? wholeValue
    split
    · cases inside '-' (by simp)
    · cases inside '+' (by simp)
    · rw [if_pos numeral]
      split
      · cases inside '-' (by simp)
      · rw [numeralValue_eq]
  · simp [readInt?, wholeValue, numeral, numeralValue_eq]

/-- A number token has no fraction exactly when it is a whole number. -/
theorem isWhole_iff_token :
    IsWhole text ↔ '.' ∉ text ∧ ∃ input rest, scan comments input = .token (.number text) rest := by
  constructor
  · intro whole
    -- A whole number is a token where nothing follows it.
    have takes : TakesToken comments (text ++ []) (.number text) [] :=
      .number (whole.isNumber.longestNumber Apart.nil) runEnds_nil
    exact ⟨whole.no_point, _, _, scan_complete takes⟩
  · rintro ⟨noPoint, input, rest, scanned⟩
    cases scan_sound scanned with
    | number longest _ =>
      obtain ⟨sign, whole, fraction, rfl, form, numeral, fractionForm⟩ := longest.isNumber
      rcases fractionForm with rfl | ⟨digits, rfl, -⟩
      · exact ⟨sign, whole, by simp, form, numeral⟩
      · simp at noPoint

/-- What a whole number is read as. -/
theorem read_of_isWhole (whole : IsWhole text) : ((Node.leaf .number text).read : Value H) =
    ((exactInt? (wholeValue text)).map .integer).getD (.error (Error.invalidNumber (String.ofList text)).message) := by
  simp [Node.leaf, Node.read, readNumber, whole.no_point, readInt64?, readInt?_of_isWhole whole]

/-- A whole number in the range of integers is read as the integer with its value. -/
theorem read_of_fits (whole : IsWhole text) (fits : Fits (wholeValue text)) :
    ∃ n : Int64, n.toInt = wholeValue text ∧ (Node.leaf .number text).read = (.integer n : Value H) := by
  have found : exactInt? (wholeValue text) = some (Int64.ofInt (wholeValue text)) := if_pos fits
  refine ⟨_, (exactInt?_eq_some_iff _ _).mp found, ?_⟩
  rw [read_of_isWhole whole, found]
  rfl

/-- A whole number out of that range is read as an error value with its text. -/
theorem read_of_not_fits (whole : IsWhole text) (outside : ¬ Fits (wholeValue text)) :
    (Node.leaf .number text).read = (.error ("invalid number '" ++ String.ofList text ++ "'") : Value H) := by
  have none : exactInt? (wholeValue text) = none := if_neg outside
  rw [read_of_isWhole whole, none]
  rfl

end QuoteLisp
