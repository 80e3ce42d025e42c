/-! Texts stand in the same order by the bytes of their UTF-8 form as by their characters. -/

namespace QuoteLisp

/-- The bytes of a text in UTF-8. -/
def utf8Bytes (text : String) : List UInt8 :=
  text.toByteArray.data.toList

/-- The bytes of a text are those of its characters one after another. -/
theorem utf8Bytes_eq (text : String) : utf8Bytes text = text.toList.flatMap String.utf8EncodeChar := by
  conv => lhs; rw [← String.ofList_toList (s := text)]
  rw [utf8Bytes, String.toByteArray_ofList, List.utf8Encode, List.data_toByteArray]

/-- Of two numbers the greater one is greater in front of the last six bits, or else in these. -/
theorem six_bits_lt {m n : Nat} (less : m < n) : m / 64 < n / 64 ∨ m / 64 = n / 64 ∧ m % 64 < n % 64 := by
  omega

/-- A smaller character has smaller bytes, whatever follows it. -/
theorem utf8EncodeChar_lt {c d : Char} (less : c < d) (rest rest' : List UInt8) :
    String.utf8EncodeChar c ++ rest < String.utf8EncodeChar d ++ rest' := by
  have below : c.val.toNat < d.val.toNat := less
  have top : d.val.toNat < 0x110000 := by
    rcases d.valid with low | high
    · exact Nat.lt_trans low (by decide)
    · exact high.2
  simp only [String.utf8EncodeChar]
  generalize c.val.toNat = m at below
  generalize d.val.toNat = n at below top
  -- The bytes behind the first one hold six bits each, so they are compared six bits at a time.
  have third : ∀ v : Nat, v / 4096 = v / 64 / 64 := fun v => (Nat.div_div_eq_div_mul v 64 64).symm
  have fourth : ∀ v : Nat, v / 262144 = v / 64 / 64 / 64 := fun v => by
    rw [Nat.div_div_eq_div_mul, Nat.div_div_eq_div_mul]
  simp only [third, fourth]
  have last := six_bits_lt below
  -- A smaller character has no more bytes than a greater one; where it has fewer, the first byte decides.
  repeat' split
  all_goals try omega
  all_goals
    simp only [List.cons_append, List.nil_append, List.cons_lt_cons_iff, UInt8.lt_iff_toNat_lt, ← UInt8.toNat_inj,
      UInt8.toNat_ofNat']
    omega

/-- Smaller characters give smaller bytes. -/
theorem flatMap_utf8EncodeChar_lt {chars chars' : List Char} (less : chars < chars') :
    chars.flatMap String.utf8EncodeChar < chars'.flatMap String.utf8EncodeChar := by
  -- The first characters that differ decide, and a text that ends there is the smaller one.
  induction less with
  | @nil c rest =>
    obtain ⟨byte, bytes, split⟩ := List.exists_cons_of_ne_nil (@String.utf8EncodeChar_ne_nil c)
    simp [split]
  | rel smaller => exact utf8EncodeChar_lt smaller _ _
  | cons _ ih => exact List.append_left_lt ih

/-- A smaller text has smaller bytes. -/
theorem utf8Bytes_lt {text text' : String} (less : text < text') : utf8Bytes text < utf8Bytes text' := by
  rw [utf8Bytes_eq, utf8Bytes_eq]
  exact flatMap_utf8EncodeChar_lt (String.lt_iff.mp less)

end QuoteLisp
