/-! Powers of the two bases in which numbers are held and written. -/

namespace QuoteLisp

/-- Two to a power. -/
def twoTo (n : Nat) : Nat := Nat.pow 2 n

/-- Ten to a power. -/
def tenTo (n : Nat) : Nat := Nat.pow 10 n

end QuoteLisp
